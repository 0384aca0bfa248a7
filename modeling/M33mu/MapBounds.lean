import M33mu.Windows
import M33mu.RamWord
import M33mu.Board

namespace M33mu

inductive MapAccess
  | read (addr size : Word)
  | write (addr size : Word)
  | fetchRead16 (addr : Word)
  | read8 (addr : Word)
  | write8 (addr : Word)
  deriving DecidableEq, Repr

namespace MapAccess

def type : MapAccess → AccessType
  | .read _ _ => .read
  | .write _ _ => .write
  | .fetchRead16 _ => .exec
  | .read8 _ => .read
  | .write8 _ => .write

def addr : MapAccess → Word
  | .read addr _ => addr
  | .write addr _ => addr
  | .fetchRead16 addr => addr
  | .read8 addr => addr
  | .write8 addr => addr

def size : MapAccess → Word
  | .read _ size => size
  | .write _ size => size
  | .fetchRead16 _ => 2
  | .read8 _ => 1
  | .write8 _ => 1

end MapAccess

/-- The lengths of the buffers that `main` allocates. -/
def TargetCfg.bufferLength (cfg : TargetCfg) : Buffer → Nat
  | .flash => cfg.flashSizeS.toNat
  | .ram =>
    if cfg.ramRegions = [] then cfg.ramSizeS.toNat
    else (cfg.ramRegions.map fun r => r.size.toNat).sum

namespace Memmap

def ramTouches (m : Memmap) (addr size : Word) : List (Buffer × Word) :=
  match m.ram, m.ramOffsetForAddr addr size with
  | some _, some off => (span off size).map (Buffer.ram, ·)
  | _, _ => []

def readTouches (m : Memmap) (addr size : Word) : List (Buffer × Word) :=
  match m.flash, m.flashOffsets addr size with
  | some _, off :: _ => (span off size).map (Buffer.flash, ·)
  | _, _ => m.ramTouches addr size

/-- `mm_memmap_read8` tests flash without the size. -/
def read8Touches (m : Memmap) (addr : Word) : List (Buffer × Word) :=
  let flash := m.flash.bind fun _ => m.flashWindows.find? fun (base, limit) =>
    base ≤ addr ∧ addr - base < limit
  match flash with
  | some (base, _) => [(.flash, addr - base)]
  | none => m.ramTouches addr 1

end Memmap

namespace World

variable {δ : Type u} (env : Env δ)

def ProgramsFlash (w : World δ) (addr size : Word) : Prop :=
  env.flashWrite.isSome ∧ w.map.flash.isSome ∧ w.map.flashOffsets addr size ≠ []

instance (w : World δ) (addr size : Word) : Decidable (w.ProgramsFlash env addr size) :=
  inferInstanceAs (Decidable (_ ∧ _ ∧ _))

def grantedTouches (w : World δ) : MapAccess → List (Buffer × Word)
  | .read addr size => w.map.readTouches addr size
  | .write addr size => if w.ProgramsFlash env addr size then [] else w.map.ramTouches addr size
  | .fetchRead16 addr => w.map.readTouches addr 2
  | .read8 addr => w.map.read8Touches addr
  | .write8 addr => w.map.ramTouches addr 1

def touches (w : World δ) (sec : SecState) (acc : MapAccess) : List (Buffer × Word) :=
  let (ok, w) := w.interceptOk env acc.type sec acc.addr acc.size
  if ok then w.grantedTouches env acc else []

end World

namespace Window

def Wraps (v : Window) (addr size : Word) : Prop :=
  2 ^ 32 ≤ (addr - v.base).toNat + size.toNat

instance (v : Window) (addr size : Word) : Decidable (v.Wraps addr size) :=
  inferInstanceAs (Decidable (_ ≤ _))

/-- No wrapped sum and no view longer than the buffer let the access out, or the window starts
so far into the buffer that the offset wraps back, or the buffer holds every index. -/
def Sound (v : Window) (length : Nat) (addr size : Word) : Prop :=
  (¬ v.Wraps addr size ∧
    (v.limit.toNat ≤ length ∨ (addr - v.base).toNat + size.toNat ≤ length)) ∨
  2 ^ 32 ≤ v.start.toNat + (addr - v.base).toNat ∨ 2 ^ 32 ≤ length

def Packed (v : Window) (length : Nat) : Prop :=
  v.start = 0 ∨ v.start.toNat + v.limit.toNat ≤ length

end Window

theorem span_inside_iff {v : Window} {length : Nat} {addr size : Word}
    (packed : v.Packed length) (admits : v.Admits addr size)
    (sized : Sized size) :
    (∀ i ∈ span (v.offset addr) size, i.toNat < length) ↔ v.Sound length addr size := by
  have low := sized.toNat_le
  have index (k : Nat) : (v.offset addr + BitVec.ofNat 32 k).toNat =
      (v.start.toNat + (addr - v.base).toNat + k) % 2 ^ 32 := by
    simp only [Window.offset, BitVec.toNat_add, BitVec.toNat_ofNat]
    omega
  have within : ((addr - v.base).toNat + size.toNat) % 2 ^ 32 ≤ v.limit.toNat := by
    have sum : ((addr - v.base) + size).toNat ≤ v.limit.toNat := admits.2
    rwa [BitVec.toNat_add] at sum
  have all : (∀ i ∈ span (v.offset addr) size, i.toNat < length) ↔
      ∀ k < size.toNat, (v.start.toNat + (addr - v.base).toNat + k) % 2 ^ 32 < length := by
    simp only [mem_span, forall_exists_index, and_imp, forall_apply_eq_imp_iff₂, ← index]
  have bound := (addr - v.base).isLt
  have room := v.limit.isLt
  have from0 := v.start.isLt
  have start : v.start.toNat = 0 ∨ v.start.toNat + v.limit.toNat ≤ length := by
    rcases packed with zero | inside
    · exact .inl (by rw [zero]; rfl)
    · exact .inr inside
  rw [all, Window.Sound, Window.Wraps]
  generalize (addr - v.base).toNat = off at *
  generalize v.start.toNat = at0 at *
  generalize v.limit.toNat = limit at *
  generalize size.toNat = bytes at *
  constructor
  · intro inside
    by_cases last : off + bytes < 2 ^ 32
    · have := inside (bytes - 1) (by omega)
      omega
    · by_cases back : 2 ^ 32 ≤ at0 + off
      · exact .inr (.inl back)
      · have := inside (2 ^ 32 - 1 - (at0 + off)) (by omega)
        omega
  · intro sound k below
    omega

def reach (addr size : Word) : Option (Buffer × Window) → List (Buffer × Word)
  | some (b, v) => (span (v.offset addr) size).map (b, ·)
  | none => []

namespace Memmap

def read8Taken (m : Memmap) (addr : Word) : Option (Buffer × Window) :=
  (if m.flash.isSome then
    (m.flashViews.find? fun v => v.base ≤ addr ∧ addr - v.base < v.limit).map (Buffer.flash, ·)
  else none) <|> m.ramTaken addr 1

theorem ramTouches_eq (m : Memmap) (addr size : Word) :
    m.ramTouches addr size = reach addr size (m.ramTaken addr size) := by
  rw [ramTouches, ramOffsetForAddr_eq, ramTaken]
  cases m.ram <;> cases firstView m.ramViews addr size <;> rfl

theorem readTouches_eq (m : Memmap) (addr size : Word) :
    m.readTouches addr size = reach addr size (m.readTaken addr size) := by
  have first := head?_flashOffsets m addr size
  rw [readTouches, readTaken, flashTaken, ramTouches_eq]
  cases offs : m.flashOffsets addr size <;> cases view : firstView m.flashViews addr size <;>
    rw [offs, view] at first <;> cases m.flash <;> try rfl
  · cases first
  · cases first
  · rw [List.head?_cons, Option.map_some, Option.some.injEq] at first
    rw [first]
    rfl

theorem read8Touches_eq (m : Memmap) (addr : Word) :
    m.read8Touches addr = reach addr 1 (m.read8Taken addr) := by
  have find : (m.flashViews.find? fun v => v.base ≤ addr ∧ addr - v.base < v.limit) =
      (m.flashWindows.find? fun (base, limit) => base ≤ addr ∧ addr - base < limit).map
        fun (base, limit) => ⟨base, limit, 0⟩ := by
    rw [flashViews, List.find?_map]
    rfl
  rw [read8Touches, read8Taken, find, ramTouches_eq]
  cases m.flash with
  | none => rfl
  | some buf =>
    rw [Option.bind_some]
    cases m.flashWindows.find? fun (base, limit) => base ≤ addr ∧ addr - base < limit with
    | none => rfl
    | some window =>
      simp [reach, span, Window.offset]

end Memmap

namespace World

variable {δ : Type u} (env : Env δ)

def taken (w : World δ) : MapAccess → Option (Buffer × Window)
  | .read addr size => w.map.readTaken addr size
  | .write addr size => if w.ProgramsFlash env addr size then none else w.map.ramTaken addr size
  | .fetchRead16 addr => w.map.readTaken addr 2
  | .read8 addr => w.map.read8Taken addr
  | .write8 addr => w.map.ramTaken addr 1

theorem grantedTouches_eq (w : World δ) (acc : MapAccess) :
    w.grantedTouches env acc = reach acc.addr acc.size (w.taken env acc) := by
  cases acc with
  | read addr size => exact Memmap.readTouches_eq _ _ _
  | write addr size =>
    simp only [grantedTouches, taken, Memmap.ramTouches_eq]
    split <;> rfl
  | fetchRead16 addr => exact Memmap.readTouches_eq _ _ _
  | read8 addr => exact Memmap.read8Touches_eq _ _
  | write8 addr => exact Memmap.ramTouches_eq _ _ _

end World

namespace Memmap

theorem packRegions_inside {total : Word} {rs : List RamRegion} {r : RamRegion} {off : Word}
    (packed : (r, off) ∈ (packRegions total rs).1) :
    off.toNat + r.size.toNat ≤ total.toNat + (rs.map fun r => r.size.toNat).sum := by
  induction rs generalizing total with
  | nil => exact nomatch packed
  | cons r' rs ih =>
    simp only [packRegions, List.mem_cons] at packed
    rw [List.map_cons, List.sum_cons]
    rcases packed with here | later
    · obtain ⟨rfl, rfl⟩ := Prod.mk.inj here
      omega
    · have rest := ih later
      have sum : (total + r'.size).toNat ≤ total.toNat + r'.size.toNat := by
        rw [BitVec.toNat_add]
        exact Nat.mod_le _ _
      omega

theorem sum_take_le (rs : List RamRegion) (n : Nat) :
    ((rs.take n).map fun r => r.size.toNat).sum ≤ (rs.map fun r => r.size.toNat).sum := by
  conv => rhs; rw [← List.take_append_drop n rs]
  rw [List.map_append, List.sum_append]
  exact Nat.le_add_right _ _

theorem packed_flashViews {m : Memmap} {v : Window} (shown : v ∈ m.flashViews) (length : Nat) :
    v.Packed length := by
  rw [flashViews, List.mem_map] at shown
  obtain ⟨window, -, rfl⟩ := shown
  exact .inl rfl

theorem packed_ramViews {m : Memmap} {cfg : TargetCfg} {backing : Word → Byte} {v : Window}
    (shown : v ∈ (m.configureRam cfg backing).ramViews) : v.Packed (cfg.bufferLength .ram) := by
  rw [ramViews, List.mem_append] at shown
  rcases shown with banked | low
  · split at banked
    · obtain ⟨⟨r, off⟩, packed, view⟩ := List.mem_flatMap.mp banked
      by_cases none : cfg.ramRegions = []
      · simp [configureRam, none] at packed
      · have inside : off.toNat + r.size.toNat ≤ cfg.bufferLength .ram := by
          simp only [configureRam, ne_eq, none, not_false_eq_true, if_true] at packed
          have sum := packRegions_inside packed
          have part := sum_take_le cfg.ramRegions 8
          simp only [TargetCfg.bufferLength, none, if_false]
          exact Nat.le_trans sum (by simpa using part)
        rw [regionViews, List.mem_cons, List.mem_singleton] at view
        rcases view with rfl | rfl <;> exact .inr inside
    · rw [List.mem_cons, List.mem_singleton] at banked
      rcases banked with rfl | rfl <;> exact .inl rfl
  · split at low
    · rw [List.mem_singleton] at low
      exact .inl (low ▸ rfl)
    · cases low

end Memmap

namespace Memmap

variable {m : Memmap} {cfg : TargetCfg} {backing : Word → Byte} {addr size : Word} {b : Buffer}
  {v : Window}

theorem flashTaken_sound (taken : m.flashTaken addr size = some (b, v)) (length : Nat) :
    v.Admits addr size ∧ v.Packed length := by
  rw [flashTaken] at taken
  split at taken
  · obtain ⟨v', first, same⟩ := Option.map_eq_some_iff.mp taken
    obtain ⟨rfl, rfl⟩ := Prod.mk.inj same
    exact ⟨admits_of_firstView first, packed_flashViews (mem_of_firstView first) length⟩
  · cases taken

theorem ramTaken_sound (taken : (m.configureRam cfg backing).ramTaken addr size = some (b, v)) :
    v.Admits addr size ∧ v.Packed (cfg.bufferLength b) := by
  rw [ramTaken] at taken
  split at taken
  · obtain ⟨v', first, same⟩ := Option.map_eq_some_iff.mp taken
    obtain ⟨rfl, rfl⟩ := Prod.mk.inj same
    exact ⟨admits_of_firstView first, packed_ramViews (mem_of_firstView first)⟩
  · cases taken

theorem readTaken_sound (taken : (m.configureRam cfg backing).readTaken addr size = some (b, v)) :
    v.Admits addr size ∧ v.Packed (cfg.bufferLength b) := by
  rw [readTaken] at taken
  cases flash : (m.configureRam cfg backing).flashTaken addr size with
  | some first =>
    rw [flash] at taken
    obtain rfl := Option.some.inj taken
    exact flashTaken_sound flash _
  | none =>
    rw [flash] at taken
    exact ramTaken_sound taken

theorem read8Taken_sound (taken : (m.configureRam cfg backing).read8Taken addr = some (b, v)) :
    v.Admits addr 1 ∧ v.Packed (cfg.bufferLength b) := by
  rw [read8Taken] at taken
  split at taken
  · cases first : (m.configureRam cfg backing).flashViews.find? fun v =>
        v.base ≤ addr ∧ addr - v.base < v.limit with
    | some v' =>
      rw [first] at taken
      obtain ⟨rfl, rfl⟩ := Prod.mk.inj (Option.some.inj taken)
      have test := List.find?_some first
      simp only [decide_eq_true_eq] at test
      exact ⟨⟨test.1, by bv_omega⟩, packed_flashViews (List.mem_of_find?_eq_some first) _⟩
    | none =>
      rw [first] at taken
      exact ramTaken_sound taken
  · exact ramTaken_sound taken

end Memmap

namespace World

variable {δ : Type u} (env : Env δ)

def TouchesInside (w : World δ) (cfg : TargetCfg) (sec : SecState) (acc : MapAccess) : Prop :=
  ∀ t ∈ w.touches env sec acc, t.2.toNat < cfg.bufferLength t.1

instance (w : World δ) (cfg : TargetCfg) (sec : SecState) (acc : MapAccess) :
    Decidable (w.TouchesInside env cfg sec acc) :=
  inferInstanceAs (Decidable (∀ t ∈ _, _))

theorem taken_sound {w : World δ} {m : Memmap} {cfg : TargetCfg} {backing : Word → Byte}
    (configured : w.map = m.configureRam cfg backing) {acc : MapAccess} {b : Buffer} {v : Window}
    (taken : w.taken env acc = some (b, v)) :
    v.Admits acc.addr acc.size ∧ v.Packed (cfg.bufferLength b) := by
  cases acc <;> simp only [World.taken, configured] at taken
  case read => exact Memmap.readTaken_sound taken
  case write =>
    split at taken
    · exact nomatch taken
    · exact Memmap.ramTaken_sound taken
  case fetchRead16 => exact Memmap.readTaken_sound taken
  case read8 => exact Memmap.read8Taken_sound taken
  case write8 => exact Memmap.ramTaken_sound taken

theorem taken_congr {w w' : World δ} (same : w'.map = w.map) (acc : MapAccess) :
    w'.taken env acc = w.taken env acc := by
  have goes (addr size : Word) :
      w'.ProgramsFlash env addr size ↔ w.ProgramsFlash env addr size := by
    rw [ProgramsFlash, same]
    exact Iff.rfl
  cases acc <;> simp only [World.taken, goes, same]

/-- Exactly when an access stays inside the buffers that the configuration allocates. -/
theorem touches_inside_iff {w : World δ} {m : Memmap} {cfg : TargetCfg}
    {flash ram : Word → Byte} {secureView : Bool}
    (configured : w.map = (m.configureFlash cfg flash secureView).configureRam cfg ram)
    (sec : SecState) (acc : MapAccess) (sized : Sized acc.size) :
    w.TouchesInside env cfg sec acc ↔
      ((w.interceptOk env acc.type sec acc.addr acc.size).1 = true →
        ∀ b v, w.taken env acc = some (b, v) →
          v.Sound (cfg.bufferLength b) acc.addr acc.size) := by
  have map := interceptOk_map env w acc.type sec acc.addr acc.size
  rw [TouchesInside, touches]
  generalize w.interceptOk env acc.type sec acc.addr acc.size = r at map
  obtain ⟨ok, w₁⟩ := r
  cases ok with
  | false => simp
  | true =>
    simp only [if_true, grantedTouches_eq, taken_congr env map, forall_const]
    cases view : w.taken env acc with
    | none => simp [reach]
    | some taken =>
      obtain ⟨b, v⟩ := taken
      obtain ⟨admits, packed⟩ := taken_sound env configured view
      have inside := span_inside_iff packed admits sized
      simpa [reach] using inside

end World

namespace Memmap

def poke (m : Memmap) (b : Buffer) (i : Word) (x : Byte) : Memmap :=
  match b with
  | .flash => { m with flash := m.flash.map (Function.update · i x) }
  | .ram => { m with ram := m.ram.map (Function.update · i x) }

theorem readTaken_poke (m : Memmap) (b : Buffer) (i : Word) (x : Byte) (addr size : Word) :
    (m.poke b i x).readTaken addr size = m.readTaken addr size := by
  cases b
  case flash => exact readTaken_buffers m Option.isSome_map rfl addr size
  case ram => exact readTaken_buffers m rfl Option.isSome_map addr size

theorem contents_poke_of_ne (m : Memmap) {b b' : Buffer} {i j : Word} (x : Byte)
    (apart : (b, i) ≠ (b', j)) : (m.poke b i x).contents b' j = m.contents b' j := by
  have other (same : b = b') : j ≠ i := fun index => apart (by rw [same, index])
  cases b <;> cases b'
  case flash.ram => rfl
  case ram.flash => rfl
  case flash.flash =>
    simp only [contents, poke]
    cases m.flash with
    | none => rfl
    | some buf => exact Function.update_of_ne (other rfl) x buf
  case ram.ram =>
    simp only [contents, poke]
    cases m.ram with
    | none => rfl
    | some buf => exact Function.update_of_ne (other rfl) x buf

theorem load_poke {m : Memmap} {addr size : Word} (sized : Sized size) {b : Buffer} {i : Word}
    (untouched : (b, i) ∉ m.readTouches addr size) (x : Byte) :
    (m.poke b i x).load addr size = m.load addr size := by
  rw [load_eq _ _ sized, load_eq _ _ sized, readTaken_poke]
  rw [readTouches_eq] at untouched
  cases taken : m.readTaken addr size with
  | none => rfl
  | some t =>
    rw [taken] at untouched
    refine readBufLe_congr sized fun j inside => contents_poke_of_ne m x fun same => untouched ?_
    rw [same]
    exact List.mem_map_of_mem inside

theorem contents_writeRam {m m' : Memmap} {addr size v : Word} (sized : Sized size)
    (stored : m.writeRam addr size v = some m') {b : Buffer} {i : Word}
    (untouched : (b, i) ∉ m.ramTouches addr size) : m'.contents b i = m.contents b i := by
  rw [writeRam_eq _ _ _ sized] at stored
  obtain ⟨t, taken, rfl⟩ := Option.map_eq_some_iff.mp stored
  cases b
  case flash => rfl
  case ram =>
    refine putBytes_apart fun k below same => untouched ?_
    rw [ramTouches_eq, taken, ← same]
    have inside : t.2.offset addr + BitVec.ofNat 32 k ∈ span (t.2.offset addr) size :=
      mem_span.mpr ⟨k, below, rfl⟩
    exact ramTaken_buffer taken ▸ List.mem_map_of_mem inside

end Memmap

namespace Board

def mcxw71c : TargetCfg where
  flashBaseS := 0x10000000
  flashSizeS := 0x00100000
  flashBaseNs := 0
  flashSizeNs := 0x00100000
  ramBaseS := 0x30000000
  ramSizeS := 0x0001C000
  ramBaseNs := 0x20000000
  ramSizeNs := 0x0001C000
  ramRegions := []
  mpcbbBlockSize := 0

/-- The map of `main`, behind its protection layer. -/
def configured (cfg : TargetCfg) (flash ram : Word → Byte) : World Unit :=
  { world with map :=
      { (Memmap.init.configureFlash cfg flash true).configureRam cfg ram with
        prot := some (Prot.ofCfg cfg) } }

end Board

namespace World

theorem read_past_flash :
    ¬ (Board.configured Board.mcxw71c (fun _ => 0xFF) fun _ => 0).TouchesInside Board.env
      Board.mcxw71c .secure (.read 0xFFFFFFFC 4) := by
  decide

theorem touches_inside_load :
    (Board.configured Board.mcxw71c (fun _ => 0xFF) fun _ => 0).TouchesInside Board.env
      Board.mcxw71c .secure (.read 0x3001BFFC 4) := by
  let w := Board.configured Board.mcxw71c (fun _ => 0xFF) fun _ => 0
  let m : Memmap := { Memmap.init with prot := some (Prot.ofCfg Board.mcxw71c) }
  have configured : w.map = (m.configureFlash Board.mcxw71c (fun _ => 0xFF) true).configureRam
      Board.mcxw71c (fun _ => 0) := rfl
  have view : w.taken Board.env (.read 0x3001BFFC 4) =
      some (.ram, ⟨0x30000000, 0x0001C000, 0⟩) := by decide
  refine (touches_inside_iff Board.env configured .secure (.read 0x3001BFFC 4)
    (by decide)).mpr fun _ b v taken => ?_
  obtain ⟨rfl, rfl⟩ := Prod.mk.inj (Option.some.inj (view.symm.trans taken))
  exact .inl ⟨by decide, .inl (by decide)⟩

end World

end M33mu
