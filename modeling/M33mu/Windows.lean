import M33mu.Memmap

namespace M33mu

inductive Buffer
  | flash
  | ram
  deriving DecidableEq, Repr

structure Window where
  base : Word
  limit : Word
  start : Word
  deriving DecidableEq, Repr

namespace Window

/-- The bounds test of the source, with its sum in 32 bits. -/
def Admits (v : Window) (addr size : Word) : Prop :=
  v.base ≤ addr ∧ (addr - v.base) + size ≤ v.limit

instance (v : Window) (addr size : Word) : Decidable (v.Admits addr size) :=
  inferInstanceAs (Decidable (_ ∧ _))

def offset (v : Window) (addr : Word) : Word := v.start + (addr - v.base)

theorem offsetIn_of_admits {v : Window} {addr size : Word} (admits : v.Admits addr size) :
    Memmap.offsetIn v.base v.limit addr size = some (addr - v.base) :=
  if_pos admits

theorem offsetIn_of_not {v : Window} {addr size : Word} (refuses : ¬ v.Admits addr size) :
    Memmap.offsetIn v.base v.limit addr size = none :=
  if_neg refuses

end Window

def span (off size : Word) : List Word :=
  (List.range size.toNat).map fun i => off + BitVec.ofNat 32 i

theorem mem_span {off size i : Word} :
    i ∈ span off size ↔ ∃ k < size.toNat, off + BitVec.ofNat 32 k = i := by
  simp [span]

def firstView (vs : List Window) (addr size : Word) : Option Window :=
  vs.find? fun v => v.Admits addr size

theorem firstView_cons (v : Window) (vs : List Window) (addr size : Word) :
    firstView (v :: vs) addr size =
      if v.Admits addr size then some v else firstView vs addr size := by
  rw [firstView, List.find?_cons]
  by_cases admits : v.Admits addr size <;> simp [admits, firstView]

theorem firstView_append (vs vs' : List Window) (addr size : Word) :
    firstView (vs ++ vs') addr size = (firstView vs addr size <|> firstView vs' addr size) := by
  simp only [firstView, List.find?_append, Option.orElse_eq_orElse, Option.orElse_eq_or]

theorem mem_of_firstView {vs : List Window} {v : Window} {addr size : Word}
    (first : firstView vs addr size = some v) : v ∈ vs :=
  List.mem_of_find?_eq_some first

theorem admits_of_firstView {vs : List Window} {v : Window} {addr size : Word}
    (first : firstView vs addr size = some v) : v.Admits addr size := by
  simpa using List.find?_some first

theorem firstView_eq_none {vs : List Window} {addr size : Word} :
    firstView vs addr size = none ↔ ∀ v ∈ vs, ¬ v.Admits addr size := by
  simp [firstView]

namespace Memmap

def flashViews (m : Memmap) : List Window :=
  m.flashWindows.map fun (base, limit) => ⟨base, limit, 0⟩

def regionViews (r : RamRegion × Word) : List Window :=
  [⟨r.1.baseS, r.1.size, r.2⟩, ⟨r.1.baseNs, r.1.size, r.2⟩]

def ramViews (m : Memmap) : List Window :=
  (if m.ramRegions ≠ [] then m.ramRegions.flatMap regionViews
    else [⟨m.ramBaseS, m.ramSizeS, 0⟩, ⟨m.ramBaseNs, m.ramSizeNs, 0⟩]) ++
  if 0 < m.ramTotalSize then [⟨0, m.ramTotalSize, 0⟩] else []

theorem head?_flashOffsets (m : Memmap) (addr size : Word) :
    (m.flashOffsets addr size).head? = (firstView m.flashViews addr size).map (·.offset addr) := by
  rw [flashOffsets, flashViews]
  induction m.flashWindows with
  | nil => rfl
  | cons window windows ih =>
    obtain ⟨base, limit⟩ := window
    have here : offsetIn base limit addr size =
        if (⟨base, limit, 0⟩ : Window).Admits addr size then some (addr - base) else none := rfl
    rw [List.map_cons, firstView_cons]
    by_cases admits : (⟨base, limit, 0⟩ : Window).Admits addr size
    · simp only [List.filterMap_cons, here, if_pos admits, List.head?_cons]
      exact congrArg some (BitVec.zero_add _).symm
    · simp only [List.filterMap_cons, here, if_neg admits]
      exact ih

theorem offsetIn_orElse (s ns : Window) (addr size : Word) (shown : s.start = ns.start) :
    (offsetIn s.base s.limit addr size <|> offsetIn ns.base ns.limit addr size).map
      (s.start + ·) = (firstView [s, ns] addr size).map (·.offset addr) := by
  rw [firstView_cons, firstView_cons]
  by_cases secure : s.Admits addr size
  · rw [if_pos secure, Window.offsetIn_of_admits secure]
    rfl
  · rw [if_neg secure, Window.offsetIn_of_not secure, shown]
    change (offsetIn ns.base ns.limit addr size).map (ns.start + ·) = _
    by_cases other : ns.Admits addr size
    · rw [if_pos other, Window.offsetIn_of_admits other]
      rfl
    · rw [if_neg other, Window.offsetIn_of_not other]
      rfl

theorem findSome?_regions (regions : List (RamRegion × Word)) (addr size : Word) :
    (regions.findSome? fun (r, off) =>
      (offsetIn r.baseS r.size addr size <|> offsetIn r.baseNs r.size addr size).map (off + ·)) =
      (firstView (regions.flatMap regionViews) addr size).map (·.offset addr) := by
  induction regions with
  | nil => rfl
  | cons region regions ih =>
    obtain ⟨r, off⟩ := region
    have both := offsetIn_orElse ⟨r.baseS, r.size, off⟩ ⟨r.baseNs, r.size, off⟩ addr size rfl
    rw [List.flatMap_cons, firstView_append]
    simp only [List.findSome?_cons, both, ih, regionViews]
    cases firstView [⟨r.baseS, r.size, off⟩, ⟨r.baseNs, r.size, off⟩] addr size <;> rfl

theorem ramOffsetForAddr_eq (m : Memmap) (addr size : Word) :
    m.ramOffsetForAddr addr size = (firstView m.ramViews addr size).map (·.offset addr) := by
  have banked : (if m.ramRegions ≠ [] then
      m.ramRegions.findSome? fun (r, off) =>
        (offsetIn r.baseS r.size addr size <|> offsetIn r.baseNs r.size addr size).map (off + ·)
    else
      offsetIn m.ramBaseS m.ramSizeS addr size <|> offsetIn m.ramBaseNs m.ramSizeNs addr size) =
      (firstView (if m.ramRegions ≠ [] then m.ramRegions.flatMap regionViews
        else [⟨m.ramBaseS, m.ramSizeS, 0⟩, ⟨m.ramBaseNs, m.ramSizeNs, 0⟩]) addr size).map
          (·.offset addr) := by
    split
    · exact findSome?_regions _ _ _
    · have one := offsetIn_orElse ⟨m.ramBaseS, m.ramSizeS, 0⟩ ⟨m.ramBaseNs, m.ramSizeNs, 0⟩
        addr size rfl
      simpa using one
  have low : (if 0 < m.ramTotalSize ∧ addr + size ≤ m.ramTotalSize then some addr else none) =
      (firstView (if 0 < m.ramTotalSize then [⟨0, m.ramTotalSize, 0⟩] else []) addr size).map
        (·.offset addr) := by
    by_cases any : 0 < m.ramTotalSize
    · have test : (⟨0, m.ramTotalSize, 0⟩ : Window).Admits addr size ↔
          0 < m.ramTotalSize ∧ addr + size ≤ m.ramTotalSize := by
        have least : (0 : Word) ≤ addr := Nat.zero_le addr.toNat
        simp only [Window.Admits, any, least, true_and]
        exact iff_of_eq (congrArg (· + size ≤ m.ramTotalSize) (BitVec.sub_zero addr))
      rw [if_pos any, firstView_cons]
      simp only [test]
      split
      · simp [Window.offset]
      · rfl
    · rw [if_neg any, if_neg fun both => any both.1]
      rfl
  rw [ramOffsetForAddr, banked, low, ramViews, firstView_append]
  cases firstView (if m.ramRegions ≠ [] then m.ramRegions.flatMap regionViews
    else [⟨m.ramBaseS, m.ramSizeS, 0⟩, ⟨m.ramBaseNs, m.ramSizeNs, 0⟩]) addr size <;> rfl

def flashTaken (m : Memmap) (addr size : Word) : Option (Buffer × Window) :=
  if m.flash.isSome then (firstView m.flashViews addr size).map (Buffer.flash, ·) else none

def ramTaken (m : Memmap) (addr size : Word) : Option (Buffer × Window) :=
  if m.ram.isSome then (firstView m.ramViews addr size).map (Buffer.ram, ·) else none

def readTaken (m : Memmap) (addr size : Word) : Option (Buffer × Window) :=
  m.flashTaken addr size <|> m.ramTaken addr size

end Memmap

def Sized (size : Word) : Prop := size = 1 ∨ size = 2 ∨ size = 4

instance (size : Word) : Decidable (Sized size) := inferInstanceAs (Decidable (_ ∨ _))

def truncated (value size : Word) : Word := (value.setWidth (8 * size.toNat)).setWidth 32

theorem Sized.toNat_le {size : Word} (sized : Sized size) : 1 ≤ size.toNat ∧ size.toNat ≤ 4 := by
  rcases sized with rfl | rfl | rfl <;> decide

theorem span_index_inj {off : Word} {k j : Nat} (low : k < 4) (low' : j < 4) :
    off + BitVec.ofNat 32 k = off + BitVec.ofNat 32 j ↔ k = j := by
  rw [BitVec.add_right_inj]
  constructor
  · intro eq
    have nat := congrArg BitVec.toNat eq
    simp only [BitVec.toNat_ofNat] at nat
    omega
  · exact fun eq => by rw [eq]

namespace Memmap

def putBytes (buf : Word → Byte) (off v : Word) : Nat → Word → Byte
  | 0 => buf
  | n + 1 => Function.update (putBytes buf off v n) (off + BitVec.ofNat 32 n)
      ((v >>> (8 * n)).setWidth 8)

variable {buf : Word → Byte} {off v : Word}

theorem putBytes_at {n k : Nat} (low : n ≤ 4) (below : k < n) :
    putBytes buf off v n (off + BitVec.ofNat 32 k) = (v >>> (8 * k)).setWidth 8 := by
  induction n with
  | zero => exact absurd below (Nat.not_lt_zero k)
  | succ n ih =>
    rw [putBytes, Function.update_apply]
    by_cases last : k = n
    · rw [if_pos (by rw [last]), last]
    · have apart : off + BitVec.ofNat 32 k ≠ off + BitVec.ofNat 32 n := by
        rw [Ne, span_index_inj (by omega) (by omega)]
        exact last
      rw [if_neg apart]
      exact ih (by omega) (by omega)

theorem putBytes_apart {n : Nat} {i : Word}
    (apart : ∀ k < n, off + BitVec.ofNat 32 k ≠ i) : putBytes buf off v n i = buf i := by
  induction n with
  | zero => rfl
  | succ n ih =>
    rw [putBytes, Function.update_of_ne (apart n (by omega)).symm]
    exact ih fun k below => apart k (by omega)

theorem writeBufLe_of_sized {size : Word} (sized : Sized size) (buf : Word → Byte) (off v : Word) :
    writeBufLe buf off size v = some (putBytes buf off v size.toNat) := by
  rcases sized with rfl | rfl | rfl <;> rfl

theorem readBufLe_of_sized {size : Word} (sized : Sized size)
    (bytes : ∀ k < size.toNat, buf (off + BitVec.ofNat 32 k) = (v >>> (8 * k)).setWidth 8) :
    readBufLe buf off size = some (truncated v size) := by
  have first (any : 0 < size.toNat) : buf off = v.setWidth 8 := by simpa using bytes 0 any
  rcases sized with rfl | rfl | rfl
  · rw [readBufLe, if_pos rfl, first (by decide)]
    rfl
  · have b1 : buf (off + 1) = (v >>> 8).setWidth 8 := bytes 1 (by decide)
    rw [readBufLe, if_neg (by decide), if_pos rfl, first (by decide), b1]
    refine congrArg some (BitVec.eq_of_getLsbD_eq fun i hi => ?_)
    simp only [truncated, BitVec.getLsbD_append, BitVec.getLsbD_setWidth,
      BitVec.getLsbD_ushiftRight, BitVec.reduceToNat]
    grind
  · have b1 : buf (off + 1) = (v >>> 8).setWidth 8 := bytes 1 (by decide)
    have b2 : buf (off + 2) = (v >>> 16).setWidth 8 := bytes 2 (by decide)
    have b3 : buf (off + 3) = (v >>> 24).setWidth 8 := bytes 3 (by decide)
    have read : readBufLe buf off 4 = some (buf (off + 3) ++ buf (off + 2) ++ buf (off + 1) ++
      buf off) := rfl
    rw [read, first (by decide), b1, b2, b3]
    refine congrArg some (BitVec.eq_of_getLsbD_eq fun i hi => ?_)
    simp only [truncated, BitVec.getLsbD_append, BitVec.getLsbD_setWidth,
      BitVec.getLsbD_ushiftRight, BitVec.reduceToNat]
    grind

theorem readBufLe_congr {size : Word} (sized : Sized size) {buf' : Word → Byte}
    (same : ∀ i ∈ span off size, buf' i = buf i) :
    readBufLe buf' off size = readBufLe buf off size := by
  have at_ (k : Nat) (below : k < size.toNat) :
      buf' (off + BitVec.ofNat 32 k) = buf (off + BitVec.ofNat 32 k) :=
    same _ (mem_span.mpr ⟨k, below, rfl⟩)
  have first (any : 0 < size.toNat) : buf' off = buf off := by simpa using at_ 0 any
  rcases sized with rfl | rfl | rfl
  · simp only [readBufLe, if_true, first (by decide)]
  · have b1 : buf' (off + 1) = buf (off + 1) := at_ 1 (by decide)
    rw [readBufLe, readBufLe, first (by decide), b1]
    rfl
  · have b1 : buf' (off + 1) = buf (off + 1) := at_ 1 (by decide)
    have b2 : buf' (off + 2) = buf (off + 2) := at_ 2 (by decide)
    have b3 : buf' (off + 3) = buf (off + 3) := at_ 3 (by decide)
    rw [readBufLe, readBufLe, first (by decide), b1, b2, b3]

theorem exists_readBufLe {size : Word} (sized : Sized size) (buf : Word → Byte) (off : Word) :
    ∃ x, readBufLe buf off size = some x := by
  rcases sized with rfl | rfl | rfl <;> exact ⟨_, rfl⟩

/-- What the buffers hold; a null buffer is never read. -/
def contents (m : Memmap) : Buffer → Word → Byte
  | .flash => m.flash.getD fun _ => 0
  | .ram => m.ram.getD fun _ => 0

/-- The part of `mm_memmap_read` that the buffers answer. -/
def load (m : Memmap) (addr size : Word) : Option Word :=
  m.readFlash addr size <|> m.readRam addr size

theorem readFlash_eq (m : Memmap) (addr : Word) {size : Word} (sized : Sized size) :
    m.readFlash addr size = (m.flashTaken addr size).bind fun t =>
      readBufLe (m.contents t.1) (t.2.offset addr) size := by
  have first := head?_flashOffsets m addr size
  rw [readFlash, flashTaken]
  cases flash : m.flash with
  | none => rfl
  | some buf =>
    rw [Option.bind_some, Option.isSome_some, if_pos rfl]
    cases offs : m.flashOffsets addr size <;> cases view : firstView m.flashViews addr size <;>
      rw [offs, view] at first
    · rfl
    · exact nomatch first
    · exact nomatch first
    · rw [List.head?_cons, Option.map_some, Option.some.injEq] at first
      obtain ⟨x, read⟩ := exists_readBufLe sized buf ‹Word›
      rw [List.findSome?_cons, read]
      simp [contents, flash, ← first, read]

theorem readRam_eq (m : Memmap) (addr size : Word) :
    m.readRam addr size = (m.ramTaken addr size).bind fun t =>
      readBufLe (m.contents t.1) (t.2.offset addr) size := by
  rw [readRam, ramTaken, ramOffsetForAddr_eq]
  cases ram : m.ram with
  | none => rfl
  | some buf => cases firstView m.ramViews addr size <;> simp [contents, ram]

theorem load_eq (m : Memmap) (addr : Word) {size : Word} (sized : Sized size) :
    m.load addr size = (m.readTaken addr size).bind fun t =>
      readBufLe (m.contents t.1) (t.2.offset addr) size := by
  rw [load, readFlash_eq m addr sized, readRam_eq, readTaken]
  cases m.flashTaken addr size with
  | none => rfl
  | some t =>
    obtain ⟨x, read⟩ := exists_readBufLe sized (m.contents t.1) (t.2.offset addr)
    simp [read]

theorem writeRam_eq (m : Memmap) (addr v : Word) {size : Word} (sized : Sized size) :
    m.writeRam addr size v = (m.ramTaken addr size).map fun t =>
      { m with ram := some (putBytes (m.contents .ram) (t.2.offset addr) v size.toNat) } := by
  rw [writeRam, ramTaken, ramOffsetForAddr_eq]
  cases ram : m.ram with
  | none => rfl
  | some buf =>
    cases firstView m.ramViews addr size with
    | none => rfl
    | some t => simp [contents, ram, writeBufLe_of_sized sized]

theorem ramTaken_buffer {m : Memmap} {addr size : Word} {t : Buffer × Window}
    (taken : m.ramTaken addr size = some t) : t.1 = .ram := by
  rw [ramTaken] at taken
  split at taken
  · obtain ⟨v, -, rfl⟩ := Option.map_eq_some_iff.mp taken
    rfl
  · exact nomatch taken

theorem flashTaken_buffer {m : Memmap} {addr size : Word} {t : Buffer × Window}
    (taken : m.flashTaken addr size = some t) : t.1 = .flash := by
  rw [flashTaken] at taken
  split at taken
  · obtain ⟨v, -, rfl⟩ := Option.map_eq_some_iff.mp taken
    rfl
  · exact nomatch taken

theorem ramTaken_buffers (m : Memmap) {f r : Option (Word → Byte)}
    (ram : r.isSome = m.ram.isSome) (addr size : Word) :
    ({ m with flash := f, ram := r } : Memmap).ramTaken addr size = m.ramTaken addr size := by
  rw [ramTaken, ram]
  rfl

theorem readTaken_buffers (m : Memmap) {f r : Option (Word → Byte)}
    (flash : f.isSome = m.flash.isSome) (ram : r.isSome = m.ram.isSome) (addr size : Word) :
    ({ m with flash := f, ram := r } : Memmap).readTaken addr size = m.readTaken addr size := by
  rw [readTaken, ramTaken_buffers m ram, flashTaken, flash]
  rfl

end Memmap

end M33mu
