import M33mu.GdbWrite
import M33mu.Lib.Overlay
import M33mu.Lib.Run

namespace M33mu

open Lib

namespace Memmap

def shown (m : Memmap) (mem : Buffer × Word → Byte) (addr : Word) : Byte :=
  ((m.bytePlace addr).map mem).getD 0

def insnLen (m : Memmap) (mem : Buffer × Word → Byte) (addr : Word) : Nat :=
  if Machine.t32Is32bitPrefix ((m.shown mem (addr + 1) ++ m.shown mem addr).setWidth 32) then 4
  else 2

theorem two_le_insnLen (m : Memmap) (mem : Buffer × Word → Byte) (addr : Word) :
    2 ≤ m.insnLen mem addr ∧ m.insnLen mem addr ≤ 4 := by
  rw [insnLen]
  split <;> decide

theorem insnLen_of_places {m m' : Memmap} (same : m'.bytePlace = m.bytePlace)
    (mem : Buffer × Word → Byte) (addr : Word) : m'.insnLen mem addr = m.insnLen mem addr := by
  rw [insnLen, shown, shown, same]
  rfl

theorem insnLen_congr {m : Memmap} {mem mem' : Buffer × Word → Byte} {addr : Word}
    (same : ∀ k < 2, ∀ p, m.bytePlace (addr + BitVec.ofNat 32 k) = some p → mem' p = mem p) :
    m.insnLen mem' addr = m.insnLen mem addr := by
  have first : addr + BitVec.ofNat 32 0 = addr := BitVec.add_zero addr
  have byte (k : Nat) (below : k < 2) : m.shown mem' (addr + BitVec.ofNat 32 k) =
      m.shown mem (addr + BitVec.ofNat 32 k) := by
    rw [shown, shown]
    cases here : m.bytePlace (addr + BitVec.ofNat 32 k) with
    | none => rfl
    | some p => exact same k below p here
  have b0 := byte 0 (by decide)
  have b1 : m.shown mem' (addr + 1) = m.shown mem (addr + 1) := byte 1 (by decide)
  rw [first] at b0
  rw [insnLen, b0, b1, insnLen]

end Memmap

def Breakpoint.at' (b : Breakpoint) : Word := b.addr &&& ~~~1#32

def Breakpoint.cells (m : Memmap) (b : Breakpoint) : List (Cell (Buffer × Word) Byte) :=
  if b.valid then
    match Memmap.placesFrom m.bytePlace b.at' b.len with
    | some ps => (ps.zip (GdbStub.patch.zip b.orig)).map fun c => ⟨c.1, c.2.1, c.2.2⟩
    | none => []
  else []

/-- A session: the stub, the world it debugs, the breakpoints that the client has set and not
deleted since, and what memory would hold without them. -/
structure GdbSession (δ : Type u) where
  stub : GdbStub
  world : World δ
  asked : List Word
  own : Buffer × Word → Byte

/-- A packet while the CPU is stopped, the check after an instruction, or a stretch in which the
program runs. -/
inductive GdbEvent (δ : Type u)
  | packet (cpu : Cpu) (packet : GdbPacket)
  | rearm (sec : SecState) (pc : Word)
  | ran (world : World δ)

def GdbStub.Covers (m : Memmap) (s : GdbStub) (p : Buffer × Word) : Prop :=
  ∃ i, (s.breakpoints i).valid = true ∧ ∃ k < (s.breakpoints i).len,
    m.bytePlace ((s.breakpoints i).at' + BitVec.ofNat 32 k) = some p

instance (m : Memmap) (s : GdbStub) (p : Buffer × Word) : Decidable (s.Covers m p) :=
  inferInstanceAs (Decidable (∃ _ : Fin 16, _ = true ∧ ∃ k < _, _ = some p))

namespace GdbSession

variable {δ : Type u} (env : Env δ) (dflt : RamDefault)

/-- Attached to a program that was never debugged. -/
def attach (w : World δ) : GdbSession δ := ⟨.init, w, [], w.map.bytes⟩

def askedAfter (t : GdbSession δ) (reply : Option GdbReply) : GdbPacket → List Word
  | .Z addr => if reply = some .ok then (addr ||| 1) :: t.asked else t.asked
  | .z addr =>
    if reply = some .ok ∨ !t.stub.breakpointHit addr then t.asked.filter (· ≠ addr ||| 1)
    else t.asked
  | _ => t.asked

def step (t : GdbSession δ) : GdbEvent δ → GdbSession δ
  | .packet cpu p =>
    let (reply, stub, _, world) := t.stub.handle env dflt cpu t.world p
    ⟨stub, world, t.askedAfter reply p, t.own⟩
  | .rearm sec pc =>
    let (stub, world) := t.stub.maybeRearm env dflt t.world sec pc
    ⟨stub, world, t.asked, t.own⟩
  | .ran world =>
    -- What the program stores is its own, where no breakpoint hides it.
    ⟨t.stub, world, t.asked, fun p =>
      if t.stub.Covers t.world.map p then t.own p else world.map.bytes p⟩

/-- What holds of memory and the table after every event: each breakpoint in the table covers its
instruction, no other byte differs from the program, no address is there twice, and the client
has asked for each of them. -/
structure Sound (t : GdbSession δ) : Prop where
  put : ∀ i, (t.stub.breakpoints i).valid = true →
    ∀ k < t.world.map.insnLen t.own (t.stub.breakpoints i).at',
      ∃ p, t.world.map.bytePlace ((t.stub.breakpoints i).at' + BitVec.ofNat 32 k) = some p ∧
        GdbStub.patch[k]? = some (t.world.map.bytes p)
  rest : ∀ p, (∀ i, (t.stub.breakpoints i).valid = true →
    ∀ k < t.world.map.insnLen t.own (t.stub.breakpoints i).at',
      t.world.map.bytePlace ((t.stub.breakpoints i).at' + BitVec.ofNat 32 k) ≠ some p) →
    t.world.map.bytes p = t.own p
  once : ∀ i j, (t.stub.breakpoints i).valid = true → (t.stub.breakpoints j).valid = true →
    (t.stub.breakpoints i).at' = (t.stub.breakpoints j).at' → i = j
  asked : ∀ i, (t.stub.breakpoints i).valid = true → (t.stub.breakpoints i).addr ∈ t.asked
  cleared : (∀ i, (t.stub.breakpoints i).valid = false) ∨ t.asked = [] →
    t.world.map.bytes = t.own

def InstallFails (t : GdbSession δ) : GdbEvent δ → Prop
  | .packet cpu (.Z addr) =>
    (t.stub.installBreakpoint env dflt t.world cpu.secState addr).1 = false
  | .rearm sec pc => t.stub.rearmValid = true ∧ pc ||| 1 ≠ t.stub.rearmAddr ∧
    (t.stub.installBreakpoint env dflt t.world sec t.stub.rearmAddr).1 = false
  | _ => False

def KeepsOnFailure (t : GdbSession δ) (e : GdbEvent δ) : Prop :=
  t.InstallFails env dflt e →
    (t.step env dflt e).stub = t.stub ∧ (t.step env dflt e).world.map = t.world.map

end GdbSession

namespace World

variable {δ : Type u} (env : Env δ) (dflt : RamDefault)

def GdbAllowed (w : World δ) (sec : SecState) (addr : Word) (n : Nat) : Prop :=
  w.map.gdbTaken dflt sec addr n = none →
    ∀ k < n, (w.gdbAsk env sec (addr + BitVec.ofNat 32 k)).1 = true

instance (w : World δ) (sec : SecState) (addr : Word) (n : Nat) :
    Decidable (w.GdbAllowed env dflt sec addr n) :=
  inferInstanceAs (Decidable (_ = none → _))

def GdbRefused (w : World δ) (sec : SecState) (addr : Word) (n : Nat) : Prop :=
  w.map.gdbTaken dflt sec addr n = none ∧ w.Closed env sec addr

instance (w : World δ) (sec : SecState) (addr : Word) (n : Nat) :
    Decidable (w.GdbRefused env dflt sec addr n) :=
  inferInstanceAs (Decidable (_ = none ∧ _))

end World

namespace GdbStub

variable {δ : Type u} (env : Env δ) (dflt : RamDefault)

def Fresh (m : Memmap) (s : GdbStub) (addr : Word) (n : Nat) : Prop :=
  ∀ k < n, ∀ i, (s.breakpoints i).valid = true → ∀ j < (s.breakpoints i).len,
    m.bytePlace ((s.breakpoints i).at' + BitVec.ofNat 32 j) ≠
      m.bytePlace (addr + BitVec.ofNat 32 k)

instance (m : Memmap) (s : GdbStub) (addr : Word) (n : Nat) : Decidable (Fresh m s addr n) :=
  inferInstanceAs (Decidable (∀ k < n, ∀ _ : Fin 16, _ = true → ∀ j < _, _ ≠ _))

/-- Where an installation is right: the instruction cannot be read, or its first byte not be
written, or the debugger writes where it reads, under no other breakpoint, and an entry is free. -/
def InstallOk (w : World δ) (s : GdbStub) (sec : SecState) (addr : Word) : Prop :=
  let n := w.map.insnLen w.map.bytes addr
  w.Unread env sec addr n ∨
    (∀ k < n, (w.map.bytePlace (addr + BitVec.ofNat 32 k)).isSome) ∧
      w.GdbRefused env dflt sec addr n ∨
    w.map.Agrees dflt sec addr n ∧ w.GdbAllowed env dflt sec addr n ∧ Fresh w.map s addr n ∧
      ∃ i, (s.breakpoints i).valid = false

def RemoveOk (w : World δ) (s : GdbStub) (sec : SecState) (addr : Word) : Prop :=
  ∀ i, s.slotAt (addr ||| 1) = some i →
    w.map.Agrees dflt sec addr (s.breakpoints i).len ∧
        w.GdbAllowed env dflt sec addr (s.breakpoints i).len ∨
      w.GdbRefused env dflt sec addr (s.breakpoints i).len

instance (w : World δ) (s : GdbStub) (sec : SecState) (addr : Word) :
    Decidable (s.RemoveOk env dflt w sec addr) :=
  inferInstanceAs (Decidable (∀ i, _ = some i → _ ∧ _ ∨ _))

end GdbStub

/-- What each event has to meet. The client deletes no breakpoint that is out of the table for a
step, and the program stores to no byte under a breakpoint. -/
def GdbSession.Meets {δ : Type u} (env : Env δ) (dflt : RamDefault) (t : GdbSession δ) :
    GdbEvent δ → Prop
  | .packet cpu (.c addr) | .packet cpu (.s addr) =>
    t.stub.RemoveOk env dflt t.world cpu.secState
      ((GdbStub.resumeAt cpu addr).r 15 &&& ~~~1#32)
  | .packet cpu (.Z addr) =>
    t.stub.InstallOk env dflt t.world cpu.secState (addr &&& ~~~1#32)
  | .packet cpu (.z addr) =>
    t.stub.RemoveOk env dflt t.world cpu.secState (addr &&& ~~~1#32) ∧
      (t.stub.rearmValid = true → t.stub.rearmAddr ||| 1 ≠ addr ||| 1)
  | .rearm sec pc => t.stub.rearmValid = true → pc ||| 1 ≠ t.stub.rearmAddr →
    t.stub.InstallOk env dflt t.world sec (t.stub.rearmAddr &&& ~~~1#32)
  | .ran w => w.map.bytePlace = t.world.map.bytePlace ∧
    ∀ p, t.stub.Covers t.world.map p → w.map.bytes p = t.world.map.bytes p

theorem clear_or_one (a : Word) : (a &&& ~~~1#32) ||| 1 = a ||| 1 := by
  apply BitVec.eq_of_getLsbD_eq
  intro i low
  simp only [BitVec.getLsbD_or, BitVec.getLsbD_and, BitVec.getLsbD_not, low, decide_true,
    Bool.true_and]
  cases a.getLsbD i <;> cases (1#32).getLsbD i <;> rfl

theorem or_one_clear (a : Word) : (a ||| 1) &&& ~~~1#32 = a &&& ~~~1#32 := by
  apply BitVec.eq_of_getLsbD_eq
  intro i low
  simp only [BitVec.getLsbD_or, BitVec.getLsbD_and, BitVec.getLsbD_not, low, decide_true,
    Bool.true_and]
  cases a.getLsbD i <;> cases (1#32).getLsbD i <;> rfl

theorem clear_clear (a : Word) : (a &&& ~~~1#32) &&& ~~~1#32 = a &&& ~~~1#32 := by
  rw [BitVec.and_assoc, BitVec.and_self]

theorem clear_ne_or_one (a b : Word) : a &&& ~~~1#32 ≠ b ||| 1 := by
  intro eq
  have low := congrArg (BitVec.getLsbD · 0) eq
  simp at low

namespace GdbStub

theorem slotAt_eq_some {s : GdbStub} {addr : Word} {i : Fin 16} (found : s.slotAt addr = some i) :
    (s.breakpoints i).valid = true ∧ (s.breakpoints i).addr = addr := by
  simpa using List.find?_some found

theorem slotAt_eq_none {s : GdbStub} {addr : Word} :
    s.slotAt addr = none ↔ ∀ i, (s.breakpoints i).valid = true → (s.breakpoints i).addr ≠ addr := by
  simp [slotAt]

theorem freeSlot_eq_some {s : GdbStub} {i : Fin 16} (found : s.freeSlot = some i) :
    (s.breakpoints i).valid = false := by
  simpa using List.find?_some found

theorem exists_freeSlot {s : GdbStub} {i : Fin 16} (free : (s.breakpoints i).valid = false) :
    ∃ j, s.freeSlot = some j := by
  cases found : s.freeSlot with
  | some j => exact ⟨j, rfl⟩
  | none =>
    have full := List.find?_eq_none.mp found i (List.mem_finRange i)
    simp [free] at full

end GdbStub

namespace Breakpoint

variable {m m' : Memmap} {b : Breakpoint}

theorem cells_of_invalid (m : Memmap) (free : b.valid = false) : b.cells m = [] := by
  rw [cells, free]
  rfl

theorem cells_of_places (same : m'.bytePlace = m.bytePlace) (b : Breakpoint) :
    b.cells m' = b.cells m := by
  rw [cells, same, cells]

theorem cells_update (same : m'.bytePlace = m.bytePlace) (table : Fin 16 → Breakpoint) (i : Fin 16)
    (b : Breakpoint) : (fun j => (Function.update table i b j).cells m') =
      Function.update (fun j => (table j).cells m) i (b.cells m) := by
  funext j
  rw [cells_of_places same]
  by_cases here : j = i
  · subst here
    rw [Function.update_self, Function.update_self]
  · rw [Function.update_of_ne here, Function.update_of_ne here]

theorem mem_cells {ps : List (Buffer × Word)} (valid : b.valid = true)
    (places : Memmap.placesFrom m.bytePlace b.at' b.len = some ps)
    {c : Cell (Buffer × Word) Byte} : c ∈ b.cells m ↔
      ∃ k : Nat, ps[k]? = some c.place ∧ GdbStub.patch[k]? = some c.put ∧
        b.orig[k]? = some c.saved := by
  simp only [cells, valid, if_true, places, List.mem_map]
  constructor
  · rintro ⟨⟨p, x, y⟩, member, rfl⟩
    obtain ⟨k, at'⟩ := List.getElem?_of_mem member
    obtain ⟨place, both⟩ := List.getElem?_zip_eq_some.mp at'
    obtain ⟨put, saved⟩ := List.getElem?_zip_eq_some.mp both
    exact ⟨k, place, put, saved⟩
  · rintro ⟨k, place, put, saved⟩
    refine ⟨(c.place, c.put, c.saved), List.mem_of_getElem? (i := k) ?_, rfl⟩
    exact List.getElem?_zip_eq_some.mpr ⟨place, List.getElem?_zip_eq_some.mpr ⟨put, saved⟩⟩

theorem place_of_mem_cells {c : Cell (Buffer × Word) Byte} (member : c ∈ b.cells m) :
    b.valid = true ∧ ∃ k < b.len, m.bytePlace (b.at' + BitVec.ofNat 32 k) = some c.place := by
  cases valid : b.valid with
  | false =>
    rw [cells_of_invalid m valid] at member
    exact nomatch member
  | true =>
    cases places : Memmap.placesFrom m.bytePlace b.at' b.len with
    | none => simp [cells, valid, places] at member
    | some ps =>
      obtain ⟨k, place, -⟩ := (mem_cells valid places).mp member
      obtain ⟨length, at'⟩ := Memmap.placesFrom_eq_some.mp places
      have inside : k < b.len := length ▸ (List.getElem?_eq_some_iff.mp place).1
      exact ⟨rfl, k, inside, (at' k inside).trans place⟩

theorem exists_cell {ps : List (Buffer × Word)} (valid : b.valid = true)
    (places : Memmap.placesFrom m.bytePlace b.at' b.len = some ps)
    (size : b.orig.length = b.len) (short : b.len ≤ 4) {k : Nat} (inside : k < b.len) :
    ∃ c ∈ b.cells m, m.bytePlace (b.at' + BitVec.ofNat 32 k) = some c.place ∧
      GdbStub.patch[k]? = some c.put := by
  obtain ⟨length, at'⟩ := Memmap.placesFrom_eq_some.mp places
  have patchSize : GdbStub.patch.length = 4 := rfl
  have place : k < ps.length := length.symm ▸ inside
  have put : k < GdbStub.patch.length := by omega
  have saved : k < b.orig.length := size.symm ▸ inside
  refine ⟨⟨ps.get ⟨k, place⟩, GdbStub.patch.get ⟨k, put⟩, b.orig.get ⟨k, saved⟩⟩,
    (mem_cells valid places).mpr ⟨k, ?_, ?_, ?_⟩, (at' k inside).trans ?_, ?_⟩ <;>
  exact List.getElem?_eq_getElem _

end Breakpoint

/-- The table as an overlay of the program: its entries lie apart, each over a whole instruction,
and know what they hide. -/
structure Laid (own : Buffer × Word → Byte) (m : Memmap) (table : Fin 16 → Breakpoint) : Prop where
  odd : ∀ i, (table i).valid = true → (table i).addr = (table i).at' ||| 1
  len : ∀ i, (table i).valid = true → (table i).len = m.insnLen own (table i).at'
  orig : ∀ i, (table i).valid = true → (table i).orig.length = (table i).len
  places : ∀ i, (table i).valid = true →
    ∃ ps, Memmap.placesFrom m.bytePlace (table i).at' (table i).len = some ps
  overlaid : Overlaid own m.bytes fun i => (table i).cells m

namespace Laid

variable {own : Buffer × Word → Byte} {m : Memmap} {table : Fin 16 → Breakpoint}
  (laid : Laid own m table)

include laid

theorem short {i : Fin 16} (valid : (table i).valid = true) :
    2 ≤ (table i).len ∧ (table i).len ≤ 4 := by
  rw [laid.len i valid]
  exact Memmap.two_le_insnLen _ _ _

theorem exists_cell {i : Fin 16} (valid : (table i).valid = true) {k : Nat}
    (inside : k < (table i).len) :
    ∃ c ∈ (table i).cells m,
      m.bytePlace ((table i).at' + BitVec.ofNat 32 k) = some c.place ∧
        GdbStub.patch[k]? = some c.put := by
  obtain ⟨ps, places⟩ := laid.places i valid
  exact Breakpoint.exists_cell valid places (laid.orig i valid) (laid.short valid).2 inside

theorem once {i j : Fin 16} (valid : (table i).valid = true) (valid' : (table j).valid = true)
    (same : (table i).at' = (table j).at') : i = j := by
  have some (i : Fin 16) (valid : (table i).valid = true) : 0 < (table i).len :=
    Nat.lt_of_lt_of_le (by decide) (laid.short valid).1
  by_contra apart
  obtain ⟨c, member, place, -⟩ := laid.exists_cell valid (some i valid)
  obtain ⟨d, member', place', -⟩ := laid.exists_cell valid' (some j valid')
  rw [same] at place
  exact laid.overlaid.apart i j apart c member d member' (Option.some.inj (place.symm.trans place'))

theorem update {m' : Memmap} (rewritten : m.Rewritten m') {i : Fin 16} {b : Breakpoint}
    (good : b.valid = true → b.addr = b.at' ||| 1 ∧ b.len = m.insnLen own b.at' ∧
      b.orig.length = b.len ∧ ∃ ps, Memmap.placesFrom m.bytePlace b.at' b.len = some ps)
    (overlaid : Overlaid own m'.bytes
      (Function.update (fun j => (table j).cells m) i (b.cells m))) :
    Laid own m' (Function.update table i b) := by
  have self : Function.update table i b i = b := Function.update_self i b table
  have other {j : Fin 16} (apart : j ≠ i) : Function.update table i b j = table j :=
    Function.update_of_ne apart b table
  have places : m'.bytePlace = m.bytePlace := funext rewritten.bytePlace
  have all (j : Fin 16) (valid : (Function.update table i b j).valid = true) :
      (Function.update table i b j).addr = (Function.update table i b j).at' ||| 1 ∧
        (Function.update table i b j).len = m'.insnLen own (Function.update table i b j).at' ∧
        (Function.update table i b j).orig.length = (Function.update table i b j).len ∧
        ∃ ps, Memmap.placesFrom m'.bytePlace (Function.update table i b j).at'
          (Function.update table i b j).len = some ps := by
    rw [Memmap.insnLen_of_places places, places]
    by_cases here : j = i
    · subst here
      rw [self] at valid ⊢
      exact good valid
    · rw [other here] at valid ⊢
      exact ⟨laid.odd j valid, laid.len j valid, laid.orig j valid, laid.places j valid⟩
  constructor
  · exact fun j valid => (all j valid).1
  · exact fun j valid => (all j valid).2.1
  · exact fun j valid => (all j valid).2.2.1
  · exact fun j valid => (all j valid).2.2.2
  · rw [Breakpoint.cells_update places]
    exact overlaid

theorem absent {s : GdbStub} (table' : s.breakpoints = table) (addr : Word) :
    s.slotAt (addr &&& ~~~1#32) = none := by
  refine GdbStub.slotAt_eq_none.mpr fun i valid eq => ?_
  rw [table'] at valid eq
  rw [laid.odd i valid] at eq
  exact clear_ne_or_one _ _ eq.symm

end Laid

namespace World

variable {δ : Type u} {env : Env δ} {dflt : RamDefault} {w : World δ} {sec : SecState} {addr : Word}

theorem Touched.gdbAllowed {w₁ : World δ} (touched : w.Touched env w₁) {n : Nat}
    (granted : w.GdbAllowed env dflt sec addr n) : w₁.GdbAllowed env dflt sec addr n := by
  intro free k inside
  rw [touched.gdbAsk]
  exact granted ((touched.map.gdbTaken dflt sec addr n).symm.trans free) k inside

theorem Touched.gdbRefused {w₁ : World δ} (touched : w.Touched env w₁) {n : Nat}
    (refused : w.GdbRefused env dflt sec addr n) : w₁.GdbRefused env dflt sec addr n :=
  ⟨(touched.map.gdbTaken dflt sec addr n).trans refused.1, (touched.closed sec addr).mpr refused.2⟩

variable (env) in
theorem gdbWriteBytes_of_agrees (src : List Byte) {ps : List (Buffer × Word)}
    (places : Memmap.placesFrom w.map.bytePlace addr src.length = some ps)
    (agrees : w.map.Agrees dflt sec addr src.length)
    (granted : w.GdbAllowed env dflt sec addr src.length) :
    ps.Nodup ∧ ∃ w', w.gdbWriteBytes env dflt sec addr src = (true, w') ∧
      w'.map = w.map.pokeAll (ps.zip src) := by
  obtain ⟨qs, stored, shown, nodup⟩ := agrees.exists_places
  obtain rfl : ps = qs := Option.some.inj (places.symm.trans shown)
  exact ⟨nodup, _, gdbWriteBytes_of_places _ stored granted, rfl⟩

theorem gdbWriteBytes_of_refused (src : List Byte) (some : 0 < src.length)
    (refused : w.GdbRefused env dflt sec addr src.length) :
    ∃ w', w.gdbWriteBytes env dflt sec addr src = (false, w') ∧ w'.map = w.map := by
  obtain ⟨free, closed⟩ := refused
  cases src with
  | nil => exact absurd some (Nat.lt_irrefl 0)
  | cons x src =>
    obtain ⟨failed, map⟩ := gdbWrite8_of_closed closed x
    rw [gdbWriteBytes_of_free free, gdbWriteEach]
    generalize w.gdbWrite8 env sec addr x = r at failed map
    obtain ⟨done, w'⟩ := r
    obtain rfl : done = false := failed
    exact ⟨w', rfl, map⟩

variable (env) in
theorem gdbFetchHw1_of_places {ps : List (Buffer × Word)}
    (places : Memmap.placesFrom w.map.bytePlace addr 2 = some ps) (sec : SecState) :
    ∃ r w₁, w.gdbFetchHw1 env sec addr = (r, w₁) ∧ w₁.map = w.map ∧ w.Touched env w₁ ∧
      ∀ hw ∈ r, (if Machine.t32Is32bitPrefix (hw.setWidth 32) then 4 else 2) =
        w.map.insnLen w.map.bytes addr := by
  obtain ⟨r, w₁, read, map, touched, value⟩ := gdbReadBytes_of_places env places sec
  refine ⟨_, w₁, by rw [gdbFetchHw1_eq, read], map, touched, fun hw got => ?_⟩
  obtain ⟨p, qs, here, there, rfl⟩ := Memmap.placesFrom_succ places
  obtain ⟨q, rest, next, none, rfl⟩ := Memmap.placesFrom_succ there
  obtain rfl := Option.some.inj none
  rcases value with rfl | rfl
  · exact nomatch got
  · obtain rfl := Option.some.inj got
    rw [Memmap.insnLen, Memmap.shown, Memmap.shown, here, next]
    rfl

theorem gdbFetchHw1_of_unread (unread : w.Unread env sec addr 2) :
    ∃ w₁, w.gdbFetchHw1 env sec addr = (none, w₁) ∧ w₁.map = w.map := by
  obtain ⟨w₁, read, map⟩ := gdbReadBytes_of_unread unread
  exact ⟨w₁, by rw [gdbFetchHw1_eq, read]; rfl, map⟩

end World

namespace GdbStub

variable {δ : Type u} {env : Env δ} {dflt : RamDefault} {w : World δ} {s : GdbStub} {sec : SecState}
  {addr : Word}

theorem installBreakpoint_eq (absent : s.slotAt (addr &&& ~~~1#32) = none) :
    s.installBreakpoint env dflt w sec addr =
      match w.gdbFetchHw1 env sec (addr &&& ~~~1#32) with
      | (none, w) => (false, s, w)
      | (some hw1, w) =>
        match w.gdbReadBytes env sec (addr &&& ~~~1#32)
          (if Machine.t32Is32bitPrefix (hw1.setWidth 32) then 4 else 2) with
        | (none, w) => (false, s, w)
        | (some orig, w) =>
          match w.gdbWriteBytes env dflt sec (addr &&& ~~~1#32)
            (patch.take (if Machine.t32Is32bitPrefix (hw1.setWidth 32) then 4 else 2)) with
          | (false, w) => (false, s, w)
          | (true, w) =>
            match s.freeSlot with
            | some i => (true, s.setBreakpoint i ⟨(addr &&& ~~~1#32) ||| 1,
                if Machine.t32Is32bitPrefix (hw1.setWidth 32) then 4 else 2, orig, true⟩, w)
            | none => (false, s, w) := by
  rw [installBreakpoint, absent]
  rfl

/-- An installation fails and leaves everything as it was, or the breakpoint is in the table and
in memory. -/
inductive Installed (w : World δ) (s : GdbStub) (addr : Word) : Bool → GdbStub → World δ → Prop
  | failed (w' : World δ) (map : w'.map = w.map) : Installed w s addr false s w'
  | done (w' : World δ) (i : Fin 16) (ps : List (Buffer × Word))
    (free : (s.breakpoints i).valid = false)
    (places : Memmap.placesFrom w.map.bytePlace addr (w.map.insnLen w.map.bytes addr) = some ps)
    (nodup : ps.Nodup) (fresh : Fresh w.map s addr (w.map.insnLen w.map.bytes addr))
    (map : w'.map = w.map.pokeAll (ps.zip (patch.take (w.map.insnLen w.map.bytes addr)))) :
    Installed w s addr true (s.setBreakpoint i ⟨addr ||| 1, w.map.insnLen w.map.bytes addr,
      ps.map w.map.bytes, true⟩) w'

theorem length_patch_take {n : Nat} (short : n ≤ 4) : (patch.take n).length = n := by
  rw [List.length_take]
  exact Nat.min_eq_left short

theorem installed_of_places (absent : s.slotAt (addr &&& ~~~1#32) = none)
    {ps : List (Buffer × Word)}
    (places : Memmap.placesFrom w.map.bytePlace (addr &&& ~~~1#32)
      (w.map.insnLen w.map.bytes (addr &&& ~~~1#32)) = some ps)
    (ok : w.GdbRefused env dflt sec (addr &&& ~~~1#32)
        (w.map.insnLen w.map.bytes (addr &&& ~~~1#32)) ∨
      w.map.Agrees dflt sec (addr &&& ~~~1#32)
          (w.map.insnLen w.map.bytes (addr &&& ~~~1#32)) ∧
        w.GdbAllowed env dflt sec (addr &&& ~~~1#32)
          (w.map.insnLen w.map.bytes (addr &&& ~~~1#32)) ∧
        Fresh w.map s (addr &&& ~~~1#32) (w.map.insnLen w.map.bytes (addr &&& ~~~1#32)) ∧
        ∃ i, (s.breakpoints i).valid = false) :
    ∃ done s' w', s.installBreakpoint env dflt w sec addr = (done, s', w') ∧
      Installed w s (addr &&& ~~~1#32) done s' w' := by
  rw [installBreakpoint_eq absent]
  generalize addr &&& ~~~1#32 = a at places ok
  obtain ⟨long, short⟩ := Memmap.two_le_insnLen w.map w.map.bytes a
  have size := length_patch_take short
  obtain ⟨qs, first⟩ := Memmap.exists_placesFrom w.map.bytePlace a (n := 2)
    fun k inside => by
      obtain ⟨length, at'⟩ := Memmap.placesFrom_eq_some.mp places
      rw [at' k (Nat.lt_of_lt_of_le inside long), List.getElem?_eq_getElem (by omega)]
      rfl
  obtain ⟨hw, w₁, fetch, map, touched, len⟩ := World.gdbFetchHw1_of_places env first sec
  rw [fetch]
  cases hw with
  | none => exact ⟨_, _, _, rfl, .failed w₁ map⟩
  | some hw =>
    simp only [len hw rfl]
    obtain ⟨orig, w₂, read, map', touched', value⟩ :=
      World.gdbReadBytes_of_places env (w := w₁)
        (n := w.map.insnLen w.map.bytes a) (by rw [map, places]) sec
    rw [map] at value
    rw [read]
    have kept := touched.trans touched'
    have map'' := map'.trans map
    rcases value with rfl | rfl
    · exact ⟨_, _, _, rfl, .failed w₂ map''⟩
    · rcases ok with refused | ⟨agrees, granted, fresh, i, free⟩
      · obtain ⟨w₃, written, same⟩ := World.gdbWriteBytes_of_refused (w := w₂)
          (patch.take (w.map.insnLen w.map.bytes a)) (by omega)
          (size.symm ▸ kept.gdbRefused refused)
        simp only [written]
        exact ⟨_, _, _, rfl, .failed w₃ (same.trans map'')⟩
      · obtain ⟨nodup, w₃, written, same⟩ := World.gdbWriteBytes_of_agrees env
          (w := w₂) (patch.take (w.map.insnLen w.map.bytes a))
          (by rw [size, map'', places]) (size.symm ▸ map''.symm ▸ agrees)
          (size.symm ▸ kept.gdbAllowed granted)
        obtain ⟨j, slot⟩ := exists_freeSlot free
        simp only [written, slot]
        exact ⟨_, _, _, rfl, .done w₃ j ps (freeSlot_eq_some slot) places nodup fresh
          (same.trans (by rw [map'']))⟩

theorem installed_of_ok (absent : s.slotAt (addr &&& ~~~1#32) = none)
    (ok : s.InstallOk env dflt w sec (addr &&& ~~~1#32)) :
    ∃ done s' w', s.installBreakpoint env dflt w sec addr = (done, s', w') ∧
      Installed w s (addr &&& ~~~1#32) done s' w' := by
  rcases ok with unread | ⟨covered, refused⟩ | ⟨agrees, rest⟩
  · rw [installBreakpoint_eq absent]
    generalize addr &&& ~~~1#32 = a at unread
    by_cases first : ∃ qs, Memmap.placesFrom w.map.bytePlace a 2 = some qs
    · obtain ⟨qs, first⟩ := first
      obtain ⟨hw, w₁, fetch, map, touched, len⟩ :=
        World.gdbFetchHw1_of_places env first sec
      rw [fetch]
      cases hw with
      | none => exact ⟨_, _, _, rfl, .failed w₁ map⟩
      | some hw =>
        obtain ⟨w₂, read, map'⟩ := World.gdbReadBytes_of_unread (touched.unread unread)
        simp only [len hw rfl, read]
        exact ⟨_, _, _, rfl, .failed w₂ (map'.trans map)⟩
    · have unread : w.Unread env sec a 2 := by
        obtain ⟨k, inside, dark, before⟩ := unread
        refine ⟨k, ?_, dark, before⟩
        by_contra far
        exact first (Memmap.exists_placesFrom _ _ fun j below => before j (by omega))
      obtain ⟨w₁, fetch, map⟩ := World.gdbFetchHw1_of_unread unread
      rw [fetch]
      exact ⟨_, _, _, rfl, .failed w₁ map⟩
  · obtain ⟨ps, places⟩ := Memmap.exists_placesFrom _ _ covered
    exact installed_of_places absent places (.inl refused)
  · obtain ⟨ps, -, places, -⟩ := agrees.exists_places
    exact installed_of_places absent places (.inr ⟨agrees, rest⟩)

inductive Removed (w : World δ) (s : GdbStub) (addr : Word) : Bool → GdbStub → World δ → Prop
  | failed (w' : World δ) (map : w'.map = w.map) : Removed w s addr false s w'
  | done (w' : World δ) (i : Fin 16) (ps : List (Buffer × Word))
    (found : s.slotAt (addr ||| 1) = some i)
    (places : Memmap.placesFrom w.map.bytePlace addr (s.breakpoints i).len = some ps)
    (nodup : ps.Nodup) (map : w'.map = w.map.pokeAll (ps.zip (s.breakpoints i).orig)) :
    Removed w s addr true (s.setBreakpoint i { s.breakpoints i with valid := false, len := 0 }) w'

theorem removed_of_ok {own : Buffer × Word → Byte} (laid : Laid own w.map s.breakpoints)
    (ok : s.RemoveOk env dflt w sec (addr &&& ~~~1#32)) :
    ∃ done s' w', s.removeBreakpoint env dflt w sec addr = (done, s', w') ∧
      Removed w s (addr &&& ~~~1#32) done s' w' := by
  rw [removeBreakpoint]
  generalize even : addr &&& ~~~1#32 = a at ok
  cases found : s.slotAt (a ||| 1) with
  | none => exact ⟨_, _, _, rfl, .failed w rfl⟩
  | some i =>
    obtain ⟨valid, at'⟩ := slotAt_eq_some found
    have here : (s.breakpoints i).at' = a := by
      rw [Breakpoint.at', at', or_one_clear, ← even, clear_clear]
    have size := laid.orig i valid
    have whole : (s.breakpoints i).orig.take (s.breakpoints i).len = (s.breakpoints i).orig :=
      List.take_of_length_le (Nat.le_of_eq size)
    obtain ⟨ps, places⟩ := laid.places i valid
    rw [here] at places
    simp only [whole]
    rcases ok i found with ⟨agrees, granted⟩ | refused
    · rw [← size] at agrees granted
      obtain ⟨nodup, w', written, map⟩ := World.gdbWriteBytes_of_agrees env
        (s.breakpoints i).orig (by rw [size, places]) agrees granted
      rw [written]
      exact ⟨_, _, _, rfl, .done w' i ps found places nodup map⟩
    · have some : 0 < (s.breakpoints i).orig.length := by
        have := (laid.short valid).1
        omega
      obtain ⟨w', written, map⟩ := World.gdbWriteBytes_of_refused _ some (size.symm ▸ refused)
      rw [written]
      exact ⟨_, _, _, rfl, .failed w' map⟩

end GdbStub

namespace Laid

variable {δ : Type u} {own : Buffer × Word → Byte} {w w' : World δ} {s s' : GdbStub} {addr : Word}
  {done : Bool}

theorem installed (laid : Laid own w.map s.breakpoints)
    (installed : GdbStub.Installed w s (addr &&& ~~~1#32) done s' w') :
    Laid own w'.map s'.breakpoints := by
  generalize even : addr &&& ~~~1#32 = a at installed
  cases installed with
  | failed _ map => exact map ▸ laid
  | done _ i ps free places nodup fresh map =>
    have rewritten : w.map.Rewritten w'.map := map ▸ Memmap.rewritten_pokeAll _ _
    obtain ⟨long, short⟩ := Memmap.two_le_insnLen w.map w.map.bytes a
    obtain ⟨length, at'⟩ := Memmap.placesFrom_eq_some.mp places
    have size := GdbStub.length_patch_take short
    have own_eq (k : Nat) (inside : k < w.map.insnLen w.map.bytes a) (p : Buffer × Word)
        (here : w.map.bytePlace (a + BitVec.ofNat 32 k) = some p) : own p = w.map.bytes p := by
      refine laid.overlaid.own_of_fresh fun j c member eq => ?_
      obtain ⟨valid, l, below, place⟩ := Breakpoint.place_of_mem_cells member
      exact fresh k inside j valid l below (place.trans (eq ▸ here.symm))
    have len : w'.map.insnLen own a = w.map.insnLen w.map.bytes a := by
      rw [Memmap.insnLen_of_places (funext rewritten.bytePlace)]
      exact Memmap.insnLen_congr fun k below => own_eq k (Nat.lt_of_lt_of_le below long)
    generalize new : (⟨a ||| 1, w.map.insnLen w.map.bytes a, ps.map w.map.bytes, true⟩ :
      Breakpoint) = b
    have here : b.at' = a := by
      rw [← new, Breakpoint.at', or_one_clear, ← even, clear_clear]
    have covers : Memmap.placesFrom w.map.bytePlace b.at' b.len = some ps := by
      rw [here, ← new, places]
    have member {c : Cell (Buffer × Word) Byte} (inside : c ∈ b.cells w.map) : ∃ k : Nat,
        ps[k]? = some c.place ∧ (GdbStub.patch.take (w.map.insnLen w.map.bytes a))[k]? =
          some c.put ∧ c.saved = w.map.bytes c.place := by
      obtain ⟨k, place, put, saved⟩ := (Breakpoint.mem_cells (by rw [← new]) covers).mp inside
      refine ⟨k, place, ?_, ?_⟩
      · rw [List.getElem?_take_of_lt, put]
        exact length ▸ (List.getElem?_eq_some_iff.mp place).1
      · rw [← new, List.getElem?_map, place] at saved
        exact (Option.some.inj saved).symm
    refine laid.update rewritten (fun _ => ?_) ?_
    · refine ⟨by rw [here, ← new], ?_, ?_, ps, covers⟩
      · rw [here, ← Memmap.insnLen_of_places (funext rewritten.bytePlace), len, ← new]
      · rw [← new]
        exact (List.length_map _).trans length
    · refine laid.overlaid.patch (Breakpoint.cells_of_invalid _ free) ?_ ?_ ?_ ?_
      · intro c inside j d inside'
        obtain ⟨k, place, -⟩ := member inside
        obtain ⟨valid, l, below, place'⟩ := Breakpoint.place_of_mem_cells inside'
        have low := length ▸ (List.getElem?_eq_some_iff.mp place).1
        intro eq
        refine fresh k low j valid l below ?_
        rw [place', at' k low, place, eq]
      · intro c inside
        obtain ⟨k, -, -, saved⟩ := member inside
        exact saved.symm
      · intro c inside
        obtain ⟨k, place, put, -⟩ := member inside
        have low := length ▸ (List.getElem?_eq_some_iff.mp place).1
        rw [map]
        exact Memmap.bytes_pokeAll_zip nodup (length.trans size.symm) place put
          (Memmap.present_of_bytePlace ((at' k low).trans place))
      · intro p outside
        rw [map]
        refine Memmap.bytes_pokeAll_of_not_mem fun written => ?_
        rw [Memmap.map_fst_zip (length.trans size.symm)] at written
        obtain ⟨k, place⟩ := List.getElem?_of_mem written
        have low := length ▸ (List.getElem?_eq_some_iff.mp place).1
        obtain ⟨c, inside, place', -⟩ := Breakpoint.exists_cell (by rw [← new]) covers
          (by rw [← new]; exact (List.length_map _).trans length) (by rw [← new]; exact short)
          (k := k) (by rw [← new]; exact low)
        rw [here, at' k low, place] at place'
        exact outside c inside (Option.some.inj place').symm

theorem removed (laid : Laid own w.map s.breakpoints)
    (removed : GdbStub.Removed w s (addr &&& ~~~1#32) done s' w') :
    Laid own w'.map s'.breakpoints := by
  generalize even : addr &&& ~~~1#32 = a at removed
  cases removed with
  | failed _ map => exact map ▸ laid
  | done _ i ps found places nodup map =>
    have rewritten : w.map.Rewritten w'.map := map ▸ Memmap.rewritten_pokeAll _ _
    obtain ⟨valid, addr'⟩ := GdbStub.slotAt_eq_some found
    obtain ⟨length, at'⟩ := Memmap.placesFrom_eq_some.mp places
    have here : (s.breakpoints i).at' = a := by
      rw [Breakpoint.at', addr', or_one_clear, ← even, clear_clear]
    have size : ps.length = (s.breakpoints i).orig.length := length.trans (laid.orig i valid).symm
    have covers : Memmap.placesFrom w.map.bytePlace (s.breakpoints i).at' (s.breakpoints i).len =
        some ps := by rw [here, places]
    refine laid.update rewritten nofun ?_
    rw [Breakpoint.cells_of_invalid _ rfl]
    refine laid.overlaid.restore ?_ ?_
    · intro c inside
      obtain ⟨k, place, -, saved⟩ := (Breakpoint.mem_cells valid covers).mp inside
      have low := length ▸ (List.getElem?_eq_some_iff.mp place).1
      rw [map]
      exact Memmap.bytes_pokeAll_zip nodup size place saved
        (Memmap.present_of_bytePlace ((at' k low).trans place))
    · intro p outside
      rw [map]
      refine Memmap.bytes_pokeAll_of_not_mem fun written => ?_
      rw [Memmap.map_fst_zip size] at written
      obtain ⟨k, place⟩ := List.getElem?_of_mem written
      have low := length ▸ (List.getElem?_eq_some_iff.mp place).1
      obtain ⟨c, inside, place', -⟩ := laid.exists_cell valid low
      rw [here, at' k low, place] at place'
      exact outside c inside (Option.some.inj place').symm

end Laid

namespace GdbSession

variable {δ : Type u} {env : Env δ} {dflt : RamDefault} {t : GdbSession δ}

structure Inv (t : GdbSession δ) : Prop where
  laid : Laid t.own t.world.map t.stub.breakpoints
  asked : ∀ i, (t.stub.breakpoints i).valid = true → (t.stub.breakpoints i).addr ∈ t.asked
  pending : t.stub.rearmValid = true → t.stub.rearmAddr ||| 1 ∈ t.asked

theorem Inv.sound (inv : t.Inv) : t.Sound where
  put i valid k inside := by
    rw [← inv.laid.len i valid] at inside
    obtain ⟨c, member, place, put⟩ := inv.laid.exists_cell valid inside
    exact ⟨c.place, place, put.trans (congrArg some (inv.laid.overlaid.put i c member).symm)⟩
  rest p away := by
    refine inv.laid.overlaid.rest p fun i c member here => ?_
    obtain ⟨valid, k, inside, place⟩ := Breakpoint.place_of_mem_cells member
    exact away i valid k (inv.laid.len i valid ▸ inside) (here ▸ place)
  once i j valid valid' same := inv.laid.once valid valid' same
  asked := inv.asked
  cleared none := by
    refine inv.laid.overlaid.eq_own fun i => Breakpoint.cells_of_invalid _ ?_
    rcases none with all | empty
    · exact all i
    · by_contra valid
      have member := inv.asked i (by simpa using valid)
      rw [empty] at member
      exact nomatch member

theorem inv_attach (w : World δ) : (attach w).Inv where
  laid :=
    { odd := fun _ valid => nomatch valid
      len := fun _ valid => nomatch valid
      orig := fun _ valid => nomatch valid
      places := fun _ valid => nomatch valid
      overlaid := .of_none _ fun _ => Breakpoint.cells_of_invalid _ rfl }
  asked _ valid := nomatch valid
  pending valid := nomatch valid

theorem asked_of_installed {w w' : World δ} {s s' : GdbStub} {addr : Word} {done : Bool}
    (asked : List Word) (installed : GdbStub.Installed w s addr done s' w')
    (before : ∀ i, (s.breakpoints i).valid = true → (s.breakpoints i).addr ∈ asked)
    (new : done = true → addr ||| 1 ∈ asked) :
    ∀ i, (s'.breakpoints i).valid = true → (s'.breakpoints i).addr ∈ asked := by
  cases installed with
  | failed => exact before
  | done _ i =>
    intro j valid
    by_cases here : j = i
    · subst here
      rw [GdbStub.setBreakpoint_self]
      exact new rfl
    · rw [GdbStub.setBreakpoint_of_ne _ here] at valid ⊢
      exact before j valid

theorem asked_of_removed {w w' : World δ} {s s' : GdbStub} {addr : Word} {done : Bool}
    (removed : GdbStub.Removed w s addr done s' w') {i : Fin 16}
    (valid : (s'.breakpoints i).valid = true) : (s.breakpoints i).valid = true ∧
      (s'.breakpoints i).addr = (s.breakpoints i).addr ∧
      (done = true → s.slotAt (addr ||| 1) ≠ some i) := by
  cases removed with
  | failed => exact ⟨valid, rfl, nofun⟩
  | done _ j _ found =>
    by_cases here : i = j
    · subst here
      rw [GdbStub.setBreakpoint_self] at valid
      exact nomatch valid
    · rw [GdbStub.setBreakpoint_of_ne _ here] at valid ⊢
      refine ⟨valid, rfl, fun _ eq => here ?_⟩
      exact Option.some.inj (eq.symm.trans found)

theorem rearm_of_installed {w w' : World δ} {s s' : GdbStub} {addr : Word} {done : Bool}
    (installed : GdbStub.Installed w s addr done s' w') :
    s'.rearmValid = s.rearmValid ∧ s'.rearmAddr = s.rearmAddr := by
  cases installed <;> exact ⟨rfl, rfl⟩

theorem rearm_of_removed {w w' : World δ} {s s' : GdbStub} {addr : Word} {done : Bool}
    (removed : GdbStub.Removed w s addr done s' w') :
    s'.rearmValid = s.rearmValid ∧ s'.rearmAddr = s.rearmAddr := by
  cases removed <;> exact ⟨rfl, rfl⟩

theorem replyOf_eq_ok {done : Bool} : some (GdbStub.replyOf done) = some .ok ↔ done = true := by
  cases done <;> decide

theorem inv_install (inv : t.Inv) {cpu : Cpu} {addr : Word}
    (ok : t.stub.InstallOk env dflt t.world cpu.secState (addr &&& ~~~1#32)) :
    (t.step env dflt (.packet cpu (.Z addr))).Inv ∧
      t.KeepsOnFailure env dflt (.packet cpu (.Z addr)) := by
  obtain ⟨done, s', w', ran, installed⟩ :=
    GdbStub.installed_of_ok (inv.laid.absent rfl addr) ok
  have asked := asked_of_installed (if done = true then (addr ||| 1) :: t.asked else t.asked)
    installed (fun i valid => by
      split
      · exact List.mem_cons_of_mem _ (inv.asked i valid)
      · exact inv.asked i valid) fun yes => by
      rw [if_pos yes, clear_or_one]
      exact List.mem_cons_self
  obtain ⟨valid, addr'⟩ := rearm_of_installed installed
  have next : t.step env dflt (.packet cpu (.Z addr)) =
      ⟨s', w', if done = true then (addr ||| 1) :: t.asked else t.asked, t.own⟩ := by
    simp only [step, GdbStub.handle, ran, askedAfter, replyOf_eq_ok]
  rw [KeepsOnFailure, InstallFails, next, ran]
  refine ⟨⟨inv.laid.installed installed, asked, fun pending => ?_⟩, fun failed => ?_⟩
  · rw [valid] at pending
    have member := inv.pending pending
    rw [addr']
    split
    · exact List.mem_cons_of_mem _ member
    · exact member
  · obtain rfl : done = false := failed
    cases installed with
    | failed _ map => exact ⟨rfl, map⟩

theorem inv_remove (inv : t.Inv) {cpu : Cpu} {addr : Word}
    (ok : t.stub.RemoveOk env dflt t.world cpu.secState (addr &&& ~~~1#32))
    (other : t.stub.rearmValid = true → t.stub.rearmAddr ||| 1 ≠ addr ||| 1) :
    (t.step env dflt (.packet cpu (.z addr))).Inv := by
  obtain ⟨done, s', w', ran, removed⟩ := GdbStub.removed_of_ok inv.laid ok
  obtain ⟨valid, addr'⟩ := rearm_of_removed removed
  have next : t.step env dflt (.packet cpu (.z addr)) = ⟨s', w',
      if done = true ∨ (!t.stub.breakpointHit addr) = true then t.asked.filter (· ≠ addr ||| 1)
      else t.asked, t.own⟩ := by
    simp only [step, GdbStub.handle, ran, askedAfter, replyOf_eq_ok]
  rw [next]
  refine ⟨inv.laid.removed removed, fun i there => ?_, fun pending => ?_⟩
  · obtain ⟨before, same, gone⟩ := asked_of_removed removed there
    have member := inv.asked i before
    simp only [same]
    split
    case isFalse => exact member
    case isTrue deleted =>
      refine List.mem_filter.mpr ⟨member, decide_eq_true fun eq => ?_⟩
      cases found : t.stub.slotAt (addr ||| 1) with
      | none => exact GdbStub.slotAt_eq_none.mp found i before eq
      | some j =>
        obtain ⟨valid', at'⟩ := GdbStub.slotAt_eq_some found
        have one : i = j := inv.laid.once before valid' (by rw [Breakpoint.at', eq, ← at']; rfl)
        have hit : ¬ (!t.stub.breakpointHit addr) = true := by
          rw [GdbStub.breakpointHit, found]
          exact Bool.false_ne_true
        refine gone (deleted.resolve_right hit) ?_
        rw [clear_or_one, found, one]
  · rw [valid] at pending
    simp only [addr']
    have member := inv.pending pending
    split
    · exact List.mem_filter.mpr ⟨member, decide_eq_true (other pending)⟩
    · exact member

theorem inv_stepOver (inv : t.Inv) {cpu : Cpu}
    (ok : t.stub.RemoveOk env dflt t.world cpu.secState (cpu.r 15 &&& ~~~1#32)) :
    GdbSession.Inv ⟨(t.stub.stepOver env dflt cpu t.world).1,
      (t.stub.stepOver env dflt cpu t.world).2, t.asked, t.own⟩ := by
  rw [GdbStub.stepOver]
  by_cases hit : t.stub.breakpointHit (cpu.r 15) = true
  · obtain ⟨done, s', w', ran, removed⟩ := GdbStub.removed_of_ok inv.laid ok
    obtain ⟨valid, addr'⟩ := rearm_of_removed removed
    have laid := inv.laid.removed removed
    have asked (i : Fin 16) (there : (s'.breakpoints i).valid = true) :
        (s'.breakpoints i).addr ∈ t.asked := by
      obtain ⟨before, same, -⟩ := asked_of_removed removed there
      exact same ▸ inv.asked i before
    rw [if_pos hit, ran]
    cases done with
    | false => exact ⟨laid, asked, fun pending => addr' ▸ inv.pending (valid ▸ pending)⟩
    | true =>
      obtain ⟨i, found⟩ := Option.isSome_iff_exists.mp hit
      obtain ⟨there, at'⟩ := GdbStub.slotAt_eq_some found
      exact ⟨laid, asked, fun _ => at' ▸ inv.asked i there⟩
  · rw [if_neg hit]
    exact inv

theorem inv_rearm (inv : t.Inv) {sec : SecState} {pc : Word}
    (ok : t.stub.rearmValid = true → pc ||| 1 ≠ t.stub.rearmAddr →
      t.stub.InstallOk env dflt t.world sec (t.stub.rearmAddr &&& ~~~1#32)) :
    (t.step env dflt (.rearm sec pc)).Inv ∧ t.KeepsOnFailure env dflt (.rearm sec pc) := by
  rw [KeepsOnFailure, InstallFails, step, GdbStub.maybeRearm]
  cases pending : t.stub.rearmValid with
  | false => exact ⟨inv, nofun⟩
  | true =>
    by_cases here : pc ||| 1 = t.stub.rearmAddr
    · rw [if_neg (by decide), if_pos here]
      exact ⟨inv, fun fails => absurd here fails.2.1⟩
    · obtain ⟨done, s', w', ran, installed⟩ :=
        GdbStub.installed_of_ok (inv.laid.absent rfl t.stub.rearmAddr) (ok pending here)
      obtain ⟨valid, addr'⟩ := rearm_of_installed installed
      have laid := inv.laid.installed installed
      have asked := asked_of_installed _ installed inv.asked fun _ => by
        rw [clear_or_one]
        exact inv.pending pending
      rw [if_neg (by decide), if_neg here, ran]
      cases done with
      | true => exact ⟨⟨laid, asked, nofun⟩, fun fails => nomatch fails.2.2⟩
      | false =>
        refine ⟨⟨laid, asked, fun _ => addr' ▸ inv.pending pending⟩, fun _ => ?_⟩
        cases installed with
        | failed _ map => exact ⟨rfl, map⟩

theorem inv_ran (inv : t.Inv) {w : World δ} (places : w.map.bytePlace = t.world.map.bytePlace)
    (kept : ∀ p, t.stub.Covers t.world.map p → w.map.bytes p = t.world.map.bytes p) :
    (t.step env dflt (.ran w)).Inv := by
  have laid := inv.laid
  have under (i : Fin 16) (c : Cell (Buffer × Word) Byte)
      (member : c ∈ (t.stub.breakpoints i).cells t.world.map) :
      t.stub.Covers t.world.map c.place := by
    obtain ⟨valid, k, inside, place⟩ := Breakpoint.place_of_mem_cells member
    exact ⟨i, valid, k, inside, place⟩
  have cells : (fun i => (t.stub.breakpoints i).cells w.map) =
      fun i => (t.stub.breakpoints i).cells t.world.map :=
    funext fun i => Breakpoint.cells_of_places places _
  refine ⟨⟨laid.odd, fun i valid => ?_, laid.orig, fun i valid => ?_, ?_⟩, inv.asked, inv.pending⟩
  · refine (laid.len i valid).trans ?_
    rw [step, Memmap.insnLen_of_places places]
    refine Memmap.insnLen_congr fun k below p here => ?_
    have covered : t.stub.Covers t.world.map p :=
      ⟨i, valid, k, Nat.lt_of_lt_of_le below (laid.short valid).1, here⟩
    exact (if_pos covered).symm
  · exact places.symm ▸ laid.places i valid
  · refine cells.symm ▸ laid.overlaid.rebase ?_ ?_ ?_
    · exact fun i c member => kept c.place (under i c member)
    · exact fun i c member => if_pos (under i c member)
    · intro p away
      refine (if_neg ?_).symm
      rintro ⟨i, valid, k, inside, place⟩
      obtain ⟨c, member, place', -⟩ := laid.exists_cell valid inside
      exact away i c member (Option.some.inj (place'.symm.trans place))

theorem inv_step (inv : t.Inv) (e : GdbEvent δ) (meets : t.Meets env dflt e) :
    (t.step env dflt e).Inv ∧ t.KeepsOnFailure env dflt e := by
  cases e with
  | packet cpu p =>
    cases p with
    | c addr =>
      have secState : (GdbStub.resumeAt cpu addr).secState = cpu.secState := by cases addr <;> rfl
      have ok : t.stub.RemoveOk env dflt t.world (GdbStub.resumeAt cpu addr).secState
          ((GdbStub.resumeAt cpu addr).r 15 &&& ~~~1#32) := secState.symm ▸ meets
      have stepped := inv_stepOver inv ok
      exact ⟨⟨stepped.laid, stepped.asked, stepped.pending⟩, nofun⟩
    | s addr =>
      have secState : (GdbStub.resumeAt cpu addr).secState = cpu.secState := by cases addr <;> rfl
      have ok : t.stub.RemoveOk env dflt t.world (GdbStub.resumeAt cpu addr).secState
          ((GdbStub.resumeAt cpu addr).r 15 &&& ~~~1#32) := secState.symm ▸ meets
      have stepped := inv_stepOver inv ok
      exact ⟨⟨stepped.laid, stepped.asked, stepped.pending⟩, nofun⟩
    | Z addr => exact inv_install inv meets
    | z addr => exact ⟨inv_remove inv meets.1 meets.2, nofun⟩
  | rearm sec pc => exact inv_rearm inv meets
  | ran w => exact ⟨inv_ran inv meets.1 meets.2, nofun⟩

/-- In a session whose every event meets its condition, memory is the program under the
breakpoints the client has asked for, and no failed installation changes anything. -/
theorem session_sound (env : Env δ) (dflt : RamDefault) (w : World δ) (events : List (GdbEvent δ))
    (meets : Along (step env dflt) (Meets env dflt) (attach w) events) :
    Throughout (step env dflt) Sound (attach w) events ∧
      Along (step env dflt) (KeepsOnFailure env dflt) (attach w) events := by
  obtain ⟨keeps, along⟩ := throughout_and_along (Q := Inv)
    (fun t e inv ok => inv_step inv e ok) (inv_attach w) meets
  exact ⟨keeps.imp fun t inv => inv.sound, along⟩

end GdbSession

namespace Board

def erased : World Unit := configured mcxw71c (fun _ => 0xFF) fun _ => 0

def ramDefault : RamDefault := ⟨0x30000000, 0x0001C000⟩

def debugging : List (GdbEvent Unit) :=
  [.packet cpu (.Z 0x10000101), .packet (cpu.setReg 15 0x10000101) (.c none),
    .rearm .secure 0x10000105, .packet cpu (.z 0x10000100)]

def debugged (n : Nat) : GdbSession Unit :=
  Lib.run (GdbSession.step env ramDefault) (.attach erased) (debugging.take n)

def twice : List (GdbEvent Unit) :=
  [.packet cpu (.Z 0x10000100), .packet cpu (.Z 0x10000100), .packet cpu (.z 0x10000100),
    .packet cpu (.z 0x10000100)]

end Board

namespace GdbSession

theorem session_stepped_over :
    Throughout (step Board.env Board.ramDefault) Sound (attach Board.erased) Board.debugging ∧
      Along (step Board.env Board.ramDefault) (KeepsOnFailure Board.env Board.ramDefault)
        (attach Board.erased) Board.debugging := by
  have set' : (attach Board.erased).Meets Board.env Board.ramDefault
      (.packet Board.cpu (.Z 0x10000101)) :=
    .inr (.inr ⟨by decide, by decide, by decide, 0, rfl⟩)
  have over' : (Board.debugged 1).stub.RemoveOk Board.env Board.ramDefault
      (Board.debugged 1).world .secure 0x10000100 := by decide
  have back : (Board.debugged 2).stub.InstallOk Board.env Board.ramDefault
      (Board.debugged 2).world .secure 0x10000100 :=
    .inr (.inr ⟨by decide, by decide, by decide, 0, by decide⟩)
  have deleted : (Board.debugged 3).stub.RemoveOk Board.env Board.ramDefault
      (Board.debugged 3).world .secure 0x10000100 := by decide
  have done : (Board.debugged 3).stub.rearmValid = false := by decide
  exact session_sound Board.env Board.ramDefault Board.erased Board.debugging
    ⟨set', over', fun _ _ => back, ⟨deleted, fun pending => nomatch done.symm.trans pending⟩,
      trivial⟩

theorem breakpoint_left_behind :
    ¬ ∀ (env : Env Unit) (dflt : RamDefault) (w : World Unit) (events : List (GdbEvent Unit)),
      Throughout (step env dflt) Sound (attach w) events ∧
        Along (step env dflt) (KeepsOnFailure env dflt) (attach w) events := by
  intro always
  have last := (always Board.env Board.ramDefault Board.erased Board.twice).1.last
  have cleared : ∀ i, ((run (step Board.env Board.ramDefault) (attach Board.erased)
      Board.twice).stub.breakpoints i).valid = false := by decide
  have original := congrFun (last.cleared (.inl cleared)) (.flash, 0x101)
  exact absurd original (by decide)

end GdbSession

end M33mu
