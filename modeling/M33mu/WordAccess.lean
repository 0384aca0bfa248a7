import M33mu.Lib.LittleEndian
import M33mu.ByteAccess
import M33mu.Mpcbb

namespace M33mu

open Lib

namespace Memmap

def loadPlace (m : Memmap) (addr size : Word) : Option (Buffer × Word) :=
  (m.readTaken addr size).map fun t => (t.1, t.2.offset addr)

def storePlace (m : Memmap) (addr size : Word) : Option Word :=
  (m.ramTaken addr size).map fun t => t.2.offset addr

def InFlash (m : Memmap) (addr size : Word) : Prop :=
  m.flash.isSome ∧ m.flashOffsets addr size ≠ []

/-- If each byte can be loaded, one window takes the whole load, and has each byte where the byte
is loaded from by itself. -/
def LoadsWhole (m : Memmap) (addr size : Word) : Prop :=
  (∀ k < size.toNat, m.place (addr + BitVec.ofNat 32 k) ≠ none) →
    ∃ b off, m.loadPlace addr size = some (b, off) ∧
      ∀ k < size.toNat, m.place (addr + BitVec.ofNat 32 k) = some (b, off + BitVec.ofNat 32 k)

def StoresWhole (m : Memmap) (addr size : Word) : Prop :=
  (∀ k < size.toNat, m.storePlace (addr + BitVec.ofNat 32 k) 1 ≠ none) →
    ∃ off, m.storePlace addr size = some off ∧
      ∀ k < size.toNat, m.storePlace (addr + BitVec.ofNat 32 k) 1 = some (off + BitVec.ofNat 32 k)

def FlashApart (m : Memmap) (addr size : Word) : Prop :=
  (∀ k < size.toNat, ¬ m.InFlash (addr + BitVec.ofNat 32 k) 1 ∧
    m.storePlace (addr + BitVec.ofNat 32 k) 1 ≠ none) → ¬ m.InFlash addr size

structure Whole (m : Memmap) (addr size : Word) : Prop where
  loads : m.LoadsWhole addr size
  stores : m.StoresWhole addr size
  apart : m.FlashApart addr size

theorem putBytes_one (buf : Word → Byte) (off v : Word) :
    putBytes buf off v 1 = Function.update buf off (v.setWidth 8) := by
  have here : off + BitVec.ofNat 32 0 = off := BitVec.add_zero off
  rw [putBytes, putBytes, here]
  rfl

def scatter (buf : Word → Byte) (at' : Nat → Word) (v : Word) : Nat → Word → Byte
  | 0 => buf
  | n + 1 => Function.update (scatter buf at' v n) (at' n) ((v >>> (8 * n)).setWidth 8)

variable {m : Memmap} {addr size : Word}

theorem readBufLe_eq_little (sized : Sized size) (buf : Word → Byte) (off : Word) :
    readBufLe buf off size =
      some (little 32 (fun k => buf (off + BitVec.ofNat 32 k)) size.toNat) := by
  have room : 8 * size.toNat ≤ 32 := by
    have := sized.toNat_le.2
    omega
  let byte (k : Nat) : Byte := buf (off + BitVec.ofNat 32 k)
  have bytes (k : Nat) (below : k < size.toNat) : buf (off + BitVec.ofNat 32 k) =
      (little 32 byte size.toNat >>> (8 * k)).setWidth 8 :=
    (byte_little (b := byte) below room).symm
  rw [readBufLe_of_sized sized bytes, truncated, little_truncate]

theorem load_eq_little (sized : Sized size) : m.load addr size =
    (m.loadPlace addr size).map fun p =>
      little 32 (fun k => m.contents p.1 (p.2 + BitVec.ofNat 32 k)) size.toNat := by
  rw [load_eq m addr sized, loadPlace]
  cases m.readTaken addr size with
  | none => rfl
  | some t => exact readBufLe_eq_little sized _ _

section

variable (flash : m.flash.isSome) (ram : m.ram.isSome) (f r : Word → Byte)

include flash ram in
theorem holding_loadPlace (addr size : Word) :
    (m.holding f r).loadPlace addr size = m.loadPlace addr size := by
  have taken : (m.holding f r).readTaken addr size = m.readTaken addr size :=
    readTaken_buffers (f := some f) (r := some r) m flash.symm ram.symm addr size
  rw [loadPlace, taken, loadPlace]

include ram in
theorem holding_storePlace (addr size : Word) :
    (m.holding f r).storePlace addr size = m.storePlace addr size := by
  rw [storePlace, holding_ramTaken ram, storePlace]

include flash in
theorem holding_inFlash (addr size : Word) :
    (m.holding f r).InFlash addr size ↔ m.InFlash addr size := by
  rw [InFlash, InFlash, flash]
  exact Iff.rfl

include flash ram in
theorem holding_whole (whole : m.Whole addr size) : (m.holding f r).Whole addr size := by
  obtain ⟨loads, stores, apart⟩ := whole
  refine ⟨?_, ?_, ?_⟩
  · simpa only [LoadsWhole, holding_place flash ram, holding_loadPlace flash ram] using loads
  · simpa only [StoresWhole, holding_storePlace ram] using stores
  · simpa only [FlashApart, holding_storePlace ram, holding_inFlash flash] using apart

end

section

variable {buf : Word → Byte} {at' : Nat → Word} {v : Word} {n : Nat}

theorem scatter_eq_putBytes {off : Word} (row : ∀ k < n, at' k = off + BitVec.ofNat 32 k) :
    scatter buf at' v n = putBytes buf off v n := by
  induction n with
  | zero => rfl
  | succ n ih =>
    rw [scatter, putBytes, ih fun k below => row k (Nat.lt_succ_of_lt below),
      row n (Nat.lt_succ_self n)]

variable (buf at' v n) in
theorem scatter_cases (i : Word) : scatter buf at' v n i = buf i ∨
    ∃ k < n, at' k = i ∧ scatter buf at' v n i = (v >>> (8 * k)).setWidth 8 := by
  induction n with
  | zero => exact .inl rfl
  | succ n ih =>
    rw [scatter]
    by_cases here : i = at' n
    · refine .inr ⟨n, Nat.lt_succ_self n, here.symm, ?_⟩
      rw [here, Function.update_self]
    · rw [Function.update_of_ne here]
      refine ih.imp_right ?_
      rintro ⟨k, below, rest⟩
      exact ⟨k, Nat.lt_succ_of_lt below, rest⟩

theorem marks_byte {k : Nat} (low : k < 4) :
    ((0x04030201 : Word) >>> (8 * k)).setWidth 8 = BitVec.ofNat 8 (k + 1) := by
  have cases : k = 0 ∨ k = 1 ∨ k = 2 ∨ k = 3 := by omega
  rcases cases with rfl | rfl | rfl | rfl <;> rfl

theorem marks_byte_ne_zero {k : Nat} (low : k < 4) :
    ((0x04030201 : Word) >>> (8 * k)).setWidth 8 ≠ (0 : Byte) := by
  have cases : k = 0 ∨ k = 1 ∨ k = 2 ∨ k = 3 := by omega
  rcases cases with rfl | rfl | rfl | rfl <;> decide

theorem scatter_marks_ne_zero (sized : 1 ≤ n ∧ n ≤ 4) :
    scatter (fun _ => 0) at' 0x04030201 n ≠ fun _ => 0 := by
  obtain ⟨last, rfl⟩ : ∃ last, n = last + 1 := ⟨n - 1, by omega⟩
  intro zero
  have byte := congrFun zero (at' last)
  rw [scatter, Function.update_self] at byte
  exact marks_byte_ne_zero sized.2 byte

theorem row_of_scatter {off : Word} (sized : n ≤ 4)
    (same : scatter (fun _ => 0) at' 0x04030201 n = putBytes (fun _ => 0) off 0x04030201 n) :
    ∀ k < n, at' k = off + BitVec.ofNat 32 k := by
  intro k below
  have byte := (congrFun same (off + BitVec.ofNat 32 k)).trans (putBytes_at sized below)
  have low : k < 4 := Nat.lt_of_lt_of_le below sized
  rcases scatter_cases (fun _ => 0) at' 0x04030201 n
    (off + BitVec.ofNat 32 k) with kept | ⟨j, below', place, value⟩
  · exact absurd (byte.symm.trans kept) (marks_byte_ne_zero low)
  · have low' : j < 4 := Nat.lt_of_lt_of_le below' sized
    have bytes := value.symm.trans byte
    rw [marks_byte low, marks_byte low'] at bytes
    have nat := congrArg BitVec.toNat bytes
    simp only [BitVec.toNat_ofNat] at nat
    obtain rfl : j = k := by omega
    exact place

end

end Memmap

namespace World

variable {δ : Type u}

def ByteRead (env : Env δ) (w : World δ) (sec : SecState) (addr : Word) (b : Byte) : Prop :=
  w.map.load addr 1 ≠ none ∧ (w.read env sec addr 1).1 = some (b.setWidth 32)

def RamByte (env : Env δ) (w : World δ) (addr : Word) : Prop :=
  ¬ w.ProgramsFlash env addr 1 ∧ w.map.storePlace addr 1 ≠ none

def writeBytes (env : Env δ) (w : World δ) (sec : SecState) (addr v : Word) : Nat → World δ
  | 0 => w
  | n + 1 =>
    ((writeBytes env w sec addr v n).write env sec (addr + BitVec.ofNat 32 n) 1
      (((v >>> (8 * n)).setWidth 8).setWidth 32)).2

def ReadsAsBytes (env : Env δ) (w : World δ) (sec : SecState) (addr size : Word) : Prop :=
  ∀ b : Nat → Byte, (∀ k < size.toNat, w.ByteRead env sec (addr + BitVec.ofNat 32 k) (b k)) →
    (w.read env sec addr size).1 = some (little 32 b size.toNat) ∧
      (size = 2 → (w.fetchRead16 env sec addr).1 = some (little 32 b 2))

instance (env : Env δ) (w : World δ) (sec : SecState) (addr : Word) (b : Byte) :
    Decidable (w.ByteRead env sec addr b) :=
  inferInstanceAs (Decidable (_ ∧ _))

def WritesAsBytes (env : Env δ) (w : World δ) (sec : SecState) (addr size : Word) : Prop :=
  (∀ k < size.toNat, w.RamByte env (addr + BitVec.ofNat 32 k)) →
    ∀ v, w.write env sec addr size v = (true, w.writeBytes env sec addr v size.toNat)

/-- Whatever is on the bus and in the buffers, halfwords and words at the address are read and
written as their bytes are. -/
def AccessesAsBytes (w : World δ) (addr : Word) : Prop :=
  ∀ (env : Env δ) (sec : SecState) (flash ram : Word → Byte), ∀ size, size = 2 ∨ size = 4 →
    (w.holding flash ram).ReadsAsBytes env sec addr size ∧
      (w.holding flash ram).WritesAsBytes env sec addr size

variable {env : Env δ} {w : World δ} {sec : SecState} {addr size : Word}

theorem interceptOk_of_open (noProt : w.map.prot = none) (type : AccessType) :
    w.interceptOk env type sec addr size = (true, w) := by
  rw [interceptOk, noProt]

theorem fetchRead16_of_open (noProt : w.map.prot = none) :
    (w.fetchRead16 env sec addr).1 = w.map.load addr 2 := by
  simp only [fetchRead16, interceptOk_of_open noProt]
  rfl

theorem read_of_open (noProt : w.map.prot = none) {v : Word}
    (load : w.map.load addr size = some v) : (w.read env sec addr size).1 = some v :=
  read_of_load (by rw [interceptOk_of_open noProt]) load

theorem byteRead_iff (noProt : w.map.prot = none) {b : Byte} : w.ByteRead env sec addr b ↔
    ∃ p, w.map.place addr = some p ∧ w.map.contents p.1 p.2 = b := by
  rw [ByteRead]
  constructor
  · rintro ⟨found, read⟩
    rw [Memmap.load_one] at found
    cases place : w.map.place addr with
    | none => exact absurd (by rw [place]; rfl) found
    | some p =>
      refine ⟨p, rfl, ?_⟩
      have load : w.map.load addr 1 = some ((w.map.contents p.1 p.2).setWidth 32) := by
        rw [Memmap.load_one, place]
        rfl
      rw [read_of_open noProt load, Option.some.injEq] at read
      simpa using congrArg (BitVec.setWidth 8) read
  · rintro ⟨p, place, rfl⟩
    have load : w.map.load addr 1 = some ((w.map.contents p.1 p.2).setWidth 32) := by
      rw [Memmap.load_one, place]
      rfl
    exact ⟨by rw [load]; exact nofun, read_of_open noProt load⟩

theorem readsAsBytes_of_whole (noProt : w.map.prot = none) (sized : Sized size)
    (whole : w.map.LoadsWhole addr size) : w.ReadsAsBytes env sec addr size := by
  intro b bytes
  have found (k : Nat) (below : k < size.toNat) :
      ∃ p, w.map.place (addr + BitVec.ofNat 32 k) = some p ∧ w.map.contents p.1 p.2 = b k :=
    (byteRead_iff noProt).mp (bytes k below)
  obtain ⟨buffer, off, taken, places⟩ := whole fun k below none => by
    obtain ⟨p, place, -⟩ := found k below
    exact nomatch none.symm.trans place
  have load : w.map.load addr size = some (little 32 b size.toNat) := by
    rw [Memmap.load_eq_little sized, taken]
    refine congrArg some (little_congr fun k below => ?_)
    obtain ⟨p, place, value⟩ := found k below
    obtain rfl := Option.some.inj ((places k below).symm.trans place)
    exact value
  refine ⟨read_of_open noProt load, ?_⟩
  rintro rfl
  rw [fetchRead16_of_open noProt]
  exact load

def bare (writer : Option (SecState → Word → Word → Word → World δ → Bool × World δ)) :
    Env δ where
  mmio := []
  blockSecure := none
  flashWrite := writer
  quitOnFaults := false
  optGdb := false

section

variable (hasFlash : w.map.flash.isSome) (hasRam : w.map.ram.isSome) (noProt : w.map.prot = none)

include hasFlash hasRam noProt in
theorem loadsWhole_of_reads (sized : Sized size)
    (reads : ∀ flash ram, (w.holding flash ram).ReadsAsBytes (bare none) .secure addr size) :
    w.map.LoadsWhole addr size := by
  intro found
  let byte (c : Buffer → Word → Byte) (k : Nat) : Byte :=
    (w.map.place (addr + BitVec.ofNat 32 k)).elim 0 fun p => c p.1 p.2
  have load (c : Buffer → Word → Byte) :
      (w.holding (c .flash) (c .ram)).map.load addr size =
        some (little 32 (byte c) size.toNat) := by
    refine load_of_read_eq rfl (reads (c .flash) (c .ram) (byte c) fun k below => ?_).1
    have noProt : (w.holding (c .flash) (c .ram)).map.prot = none := noProt
    refine (byteRead_iff noProt).mpr ?_
    obtain ⟨p, place⟩ := Option.ne_none_iff_exists'.mp (found k below)
    refine ⟨p, (Memmap.holding_place hasFlash hasRam _ _ _).trans place, ?_⟩
    have contents : (w.holding (c .flash) (c .ram)).map.contents p.1 = c p.1 :=
      Memmap.contents_holding w.map c p.1
    rw [contents]
    simp only [byte, place, Option.elim_some]
  have taken (c : Buffer → Word → Byte) :
      (w.map.loadPlace addr size).map (fun p =>
        little 32 (fun k => c p.1 (p.2 + BitVec.ofNat 32 k)) size.toNat) =
          some (little 32 (byte c) size.toNat) := by
    have holds := load c
    rw [Memmap.load_eq_little sized] at holds
    have place : (w.holding (c .flash) (c .ram)).map.loadPlace addr size =
        w.map.loadPlace addr size := Memmap.holding_loadPlace hasFlash hasRam _ _ addr size
    rw [place] at holds
    have contents : (w.holding (c .flash) (c .ram)).map.contents = c :=
      funext (Memmap.contents_holding w.map c)
    rwa [contents] at holds
  have room : 8 * size.toNat ≤ 32 := by
    have := sized.toNat_le.2
    omega
  cases start : w.map.loadPlace addr size with
  | none =>
    have none := taken fun _ _ => 0
    rw [start] at none
    exact nomatch none
  | some p =>
    obtain ⟨b, off⟩ := p
    refine ⟨b, off, rfl, fun k below => ?_⟩
    obtain ⟨q, place⟩ := Option.ne_none_iff_exists'.mp (found k below)
    have same := taken (Memmap.mark (some q))
    rw [start, Option.map_some, Option.some.injEq, little_inj room] at same
    have here := same k below
    simp only [byte, place, Option.elim_some] at here
    by_cases there : some q = some (b, off + BitVec.ofNat 32 k)
    · exact place.trans there
    · simp [Memmap.mark, there] at here

end

variable (sec) in
theorem write_of_open (noProt : w.map.prot = none) (sized : Sized size)
    (noFlash : ¬ w.ProgramsFlash env addr size) {off : Word}
    (place : w.map.storePlace addr size = some off) (v : Word) :
    w.write env sec addr size v = (true, { w with map := w.map.store off v size }) := by
  obtain ⟨t, taken, rfl⟩ := Option.map_eq_some_iff.mp place
  have direct : w.Direct env sec addr size := by
    refine ⟨by rw [interceptOk_of_open noProt], noFlash, ?_⟩
    rintro ⟨none, -⟩
    exact nomatch none.symm.trans taken
  rw [write_to_ram sized direct taken, interceptOk_of_open noProt]

variable (env sec) in
theorem writeBytes_eq (noProt : w.map.prot = none) (hasRam : w.map.ram.isSome)
    (at' : Nat → Word) {n : Nat}
    (places : ∀ k < n, ¬ w.ProgramsFlash env (addr + BitVec.ofNat 32 k) 1 ∧
      w.map.storePlace (addr + BitVec.ofNat 32 k) 1 = some (at' k)) (v : Word) :
    w.writeBytes env sec addr v n = { w with map :=
      { w.map with ram := some (Memmap.scatter (w.map.contents .ram) at' v n) } } := by
  induction n with
  | zero =>
    obtain ⟨buf, ram⟩ := Option.isSome_iff_exists.mp hasRam
    have held : some (w.map.contents .ram) = w.map.ram := by
      rw [Memmap.contents, ram]
      rfl
    rw [writeBytes, Memmap.scatter, held]
  | succ n ih =>
    obtain ⟨noFlash, place⟩ := places n (Nat.lt_succ_self n)
    rw [writeBytes, ih fun k below => places k (Nat.lt_succ_of_lt below)]
    let z : World δ := { w with map :=
      { w.map with ram := some (Memmap.scatter (w.map.contents .ram) at' v n) } }
    have placeZ : z.map.storePlace (addr + BitVec.ofNat 32 n) 1 = some (at' n) := by
      rw [← place, Memmap.storePlace, Memmap.storePlace]
      refine congrArg _ (Memmap.ramTaken_buffers w.map (f := w.map.flash) ?_ _ _)
      exact hasRam.symm
    have write := write_of_open (w := z) sec noProt (.inl rfl) noFlash placeZ
      (((v >>> (8 * n)).setWidth 8).setWidth 32)
    refine (congrArg Prod.snd write).trans ?_
    have stored : z.map.store (at' n) (((v >>> (8 * n)).setWidth 8).setWidth 32) 1 =
        { w.map with ram := some (Memmap.scatter (w.map.contents .ram) at' v (n + 1)) } := by
      refine congrArg (fun buf => { w.map with ram := some buf }) ?_
      exact (Memmap.putBytes_one _ _ _).trans (by rw [byte_back]; rfl)
    rw [stored]

theorem writesAsBytes_of_whole (noProt : w.map.prot = none) (hasRam : w.map.ram.isSome)
    (sized : Sized size) (stores : w.map.StoresWhole addr size)
    (apart : w.map.FlashApart addr size) : w.WritesAsBytes env sec addr size := by
  intro bytes v
  obtain ⟨off, place, places⟩ := stores fun k below => (bytes k below).2
  have noFlash : ¬ w.ProgramsFlash env addr size := by
    rintro ⟨writer, inFlash⟩
    refine apart (fun k below => ?_) inFlash
    exact ⟨fun byte => (bytes k below).1 ⟨writer, byte⟩, (bytes k below).2⟩
  have row := writeBytes_eq env sec noProt hasRam (fun k => off + BitVec.ofNat 32 k)
    (n := size.toNat) (fun k below => ⟨(bytes k below).1, places k below⟩) v
  rw [write_of_open sec noProt sized noFlash place, row, Memmap.scatter_eq_putBytes fun _ _ => rfl]
  rfl

section

variable (hasFlash : w.map.flash.isSome) (hasRam : w.map.ram.isSome) (noProt : w.map.prot = none)

include hasRam noProt in
theorem storesWhole_of_writes (sized : Sized size)
    (writes : ∀ flash ram, (w.holding flash ram).WritesAsBytes (bare none) .secure addr size) :
    w.map.StoresWhole addr size := by
  intro found
  let z := w.holding (fun _ => 0) fun _ => 0
  have noFlash (a s : Word) : ¬ z.ProgramsFlash (bare none) a s :=
    fun programs => nomatch programs.1
  have placeZ (a s : Word) : z.map.storePlace a s = w.map.storePlace a s :=
    Memmap.holding_storePlace hasRam _ _ a s
  let at' (k : Nat) : Word := (w.map.storePlace (addr + BitVec.ofNat 32 k) 1).getD 0
  have places (k : Nat) (below : k < size.toNat) :
      w.map.storePlace (addr + BitVec.ofNat 32 k) 1 = some (at' k) := by
    obtain ⟨off, place⟩ := Option.ne_none_iff_exists'.mp (found k below)
    simp only [at', place, Option.getD_some]
  -- no two bytes of this value are the same
  have write := writes (fun _ => 0) (fun _ => 0)
    (fun k below => ⟨noFlash _ _, (placeZ _ _).symm ▸ found k below⟩) 0x04030201
  have row := writeBytes_eq (w := z) (bare none) .secure noProt rfl at'
    (fun k below => ⟨noFlash _ _, (placeZ _ _).trans (places k below)⟩) 0x04030201
  rw [row] at write
  have noProtZ : z.map.prot = none := noProt
  have ram := congrArg (fun r => r.2.map.contents .ram) write
  cases place : w.map.storePlace addr size with
  | none =>
    have refused : z.map.ramTaken addr size = none :=
      Option.map_eq_none_iff.mp ((placeZ addr size).trans place)
    have direct : z.Direct (bare none) .secure addr size :=
      ⟨by rw [interceptOk_of_open noProtZ], noFlash _ _, fun bus => nomatch bus.2⟩
    have kept : (z.write (bare none) .secure addr size 0x04030201).2.map.contents .ram =
        fun _ => 0 := by
      rw [write_ignored sized direct refused, interceptOk_of_open noProtZ]
      rfl
    exact absurd (ram.symm.trans kept) (Memmap.scatter_marks_ne_zero sized.toNat_le)
  | some off =>
    refine ⟨off, rfl, fun k below => ?_⟩
    have stored : (z.write (bare none) .secure addr size 0x04030201).2.map.contents .ram =
        Memmap.putBytes (fun _ => 0) off 0x04030201 size.toNat := by
      rw [write_of_open .secure noProtZ sized (noFlash _ _) ((placeZ addr size).trans place)]
      rfl
    rw [places k below]
    exact congrArg some (Memmap.row_of_scatter sized.toNat_le.2 (ram.symm.trans stored) k below)

include hasFlash hasRam noProt in
theorem flashApart_of_writes
    (writes : ∀ writer flash ram,
      (w.holding flash ram).WritesAsBytes (bare writer) .secure addr size) :
    w.map.FlashApart addr size := by
  intro bytes inFlash
  let z := w.holding (fun _ => 0) fun _ => 0
  -- a writer that refuses
  let writer (_ : SecState) (_ _ _ : Word) (w : World δ) : Bool × World δ := (false, w)
  have inFlashZ (a s : Word) : z.map.InFlash a s ↔ w.map.InFlash a s :=
    Memmap.holding_inFlash hasFlash _ _ a s
  have placeZ (a s : Word) : z.map.storePlace a s = w.map.storePlace a s :=
    Memmap.holding_storePlace hasRam _ _ a s
  have write := writes (some writer) (fun _ => 0) (fun _ => 0) (fun k below =>
    ⟨fun programs => (bytes k below).1 ((inFlashZ _ _).mp programs.2),
      (placeZ _ _).symm ▸ (bytes k below).2⟩) 0
  have refused : (z.write (bare (some writer)) .secure addr size 0).1 = false := by
    have noProtZ : z.map.prot = none := noProt
    have granted : z.interceptOk (bare (some writer)) .write .secure addr size = (true, z) :=
      interceptOk_of_open noProtZ .write
    rw [World.write, granted]
    have taken : z.map.flash.isSome ∧ z.map.flashOffsets addr size ≠ [] :=
      (inFlashZ _ _).mpr inFlash
    exact congrArg Prod.fst (if_pos taken)
  cases refused.symm.trans (congrArg Prod.fst write)

end

/-- Exactly when the halfwords and the words at an address are accessed as their bytes are. -/
theorem accessesAsBytes_iff {w : World δ} {m : Memmap} {cfg : TargetCfg} {f r : Word → Byte}
    {secureView : Bool}
    (configured : w.map = (m.configureFlash cfg f secureView).configureRam cfg r)
    (noProt : w.map.prot = none) (addr : Word) :
    w.AccessesAsBytes addr ↔ w.map.Whole addr 2 ∧ w.map.Whole addr 4 := by
  have hasFlash : w.map.flash.isSome := by
    rw [configured]
    rfl
  have hasRam : w.map.ram.isSome := by
    rw [configured]
    rfl
  constructor
  · intro accesses
    have whole (size : Word) (sizes : size = 2 ∨ size = 4) : w.map.Whole addr size :=
      ⟨loadsWhole_of_reads hasFlash hasRam noProt (.inr sizes)
          fun flash ram => (accesses _ _ flash ram size sizes).1,
        storesWhole_of_writes hasRam noProt (.inr sizes)
          fun flash ram => (accesses _ _ flash ram size sizes).2,
        flashApart_of_writes hasFlash hasRam noProt
          fun writer flash ram => (accesses _ _ flash ram size sizes).2⟩
    exact ⟨whole 2 (.inl rfl), whole 4 (.inr rfl)⟩
  · rintro ⟨half, word⟩ env sec flash ram size sizes
    have whole : w.map.Whole addr size := by
      rcases sizes with rfl | rfl
      · exact half
      · exact word
    have held := Memmap.holding_whole hasFlash hasRam flash ram whole
    exact ⟨readsAsBytes_of_whole noProt (.inr sizes) held.loads,
      writesAsBytes_of_whole noProt rfl (.inr sizes) held.stores held.apart⟩

end World

namespace Board

def unguarded (cfg : TargetCfg) (flash ram : Word → Byte) : World Unit :=
  { world with map := (Memmap.init.configureFlash cfg flash true).configureRam cfg ram }

end Board

namespace World

theorem not_accessesAsBytes_sram2 :
    ¬ (Board.unguarded Board.stm32h563 (fun _ => 0xFF) fun _ => 0).AccessesAsBytes 0x3003FFFE := by
  intro accesses
  have reads := (accesses Board.env .secure (fun _ => 0xFF) (fun _ => 0) 4 (.inr rfl)).1
  have read := (reads (fun _ => 0) (by decide)).1
  exact absurd read (by decide)

theorem accessesAsBytes_sram1 :
    (Board.unguarded Board.stm32h563 (fun _ => 0xFF) fun _ => 0).AccessesAsBytes 0x3003FFFC := by
  let w := Board.unguarded Board.stm32h563 (fun _ => 0xFF) fun _ => 0
  have configured : w.map = (Memmap.init.configureFlash Board.stm32h563 (fun _ => 0xFF)
      true).configureRam Board.stm32h563 fun _ => 0 := rfl
  refine (accessesAsBytes_iff configured rfl 0x3003FFFC).mpr
    ⟨⟨fun _ => ?_, fun _ => ?_, fun _ => ?_⟩, ⟨fun _ => ?_, fun _ => ?_, fun _ => ?_⟩⟩
  · exact ⟨.ram, 0x3FFFC, by decide, by decide⟩
  · exact ⟨0x3FFFC, by decide, by decide⟩
  · exact fun inFlash => inFlash.2 (by decide)
  · exact ⟨.ram, 0x3FFFC, by decide, by decide⟩
  · exact ⟨0x3FFFC, by decide, by decide⟩
  · exact fun inFlash => inFlash.2 (by decide)

end World

end M33mu
