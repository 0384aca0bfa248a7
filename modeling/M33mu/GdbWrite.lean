import M33mu.GdbAccess

namespace M33mu

namespace Memmap

def Shows (m : Memmap) (addr : Word) (p : Buffer × Word) : Prop :=
  m.bytePlace addr = some p ∨ m.fetchPlace addr = some p

def Alias (m : Memmap) (a b : Word) : Prop := ∃ p, m.Shows a p ∧ m.Shows b p

/-- The debugger stores each of the bytes where the CPU reads it and, if it fetches there, where
it fetches it; no two of them in one place. -/
structure Agrees (m : Memmap) (dflt : RamDefault) (sec : SecState) (addr : Word) (len : Nat) :
    Prop where
  same : ∀ k < len, ∃ p, m.gdbPlace dflt sec addr len (addr + BitVec.ofNat 32 k) = some p ∧
    m.bytePlace (addr + BitVec.ofNat 32 k) = some p
  fetched : ∀ k < len, ∀ p, m.fetchPlace (addr + BitVec.ofNat 32 k) = some p →
    m.bytePlace (addr + BitVec.ofNat 32 k) = some p
  apart : ∀ k < len, ∀ j < k,
    m.bytePlace (addr + BitVec.ofNat 32 j) ≠ m.bytePlace (addr + BitVec.ofNat 32 k)

theorem agrees_iff {m : Memmap} {dflt : RamDefault} {sec : SecState} {addr : Word} {len : Nat} :
    m.Agrees dflt sec addr len ↔ ∀ k < len,
      ((m.bytePlace (addr + BitVec.ofNat 32 k)).isSome ∧
        m.gdbPlace dflt sec addr len (addr + BitVec.ofNat 32 k) =
          m.bytePlace (addr + BitVec.ofNat 32 k)) ∧
      (m.fetchPlace (addr + BitVec.ofNat 32 k) = none ∨
        m.fetchPlace (addr + BitVec.ofNat 32 k) = m.bytePlace (addr + BitVec.ofNat 32 k)) ∧
      ∀ j < k, m.bytePlace (addr + BitVec.ofNat 32 j) ≠ m.bytePlace (addr + BitVec.ofNat 32 k) := by
  constructor
  · intro agrees k inside
    obtain ⟨p, stored, shown⟩ := agrees.same k inside
    refine ⟨⟨Option.isSome_of_eq_some shown, stored.trans shown.symm⟩, ?_, agrees.apart k inside⟩
    cases fetched : m.fetchPlace (addr + BitVec.ofNat 32 k) with
    | none => exact .inl rfl
    | some q => exact .inr (agrees.fetched k inside q fetched).symm
  · intro all
    constructor
    · intro k inside
      obtain ⟨p, shown⟩ := Option.isSome_iff_exists.mp (all k inside).1.1
      exact ⟨p, (all k inside).1.2.trans shown, shown⟩
    · intro k inside p fetched
      rcases (all k inside).2.1 with none | same
      · exact nomatch none.symm.trans fetched
      · exact same.symm.trans fetched
    · exact fun k inside => (all k inside).2.2

instance (m : Memmap) (dflt : RamDefault) (sec : SecState) (addr : Word) (len : Nat) :
    Decidable (m.Agrees dflt sec addr len) := decidable_of_iff' _ agrees_iff

theorem Agrees.exists_places {m : Memmap} {dflt : RamDefault} {sec : SecState} {addr : Word}
    {len : Nat} (agrees : m.Agrees dflt sec addr len) :
    ∃ ps, placesFrom (m.gdbPlace dflt sec addr len) addr len = some ps ∧
      placesFrom m.bytePlace addr len = some ps ∧ ps.Nodup := by
  obtain ⟨ps, places⟩ := exists_placesFrom m.bytePlace addr (n := len)
    fun k below => by
      obtain ⟨p, -, shown⟩ := agrees.same k below
      exact Option.isSome_of_eq_some shown
  obtain ⟨length, at'⟩ := placesFrom_eq_some.mp places
  refine ⟨ps, placesFrom_eq_some.mpr ⟨length, fun k below => ?_⟩, places, ?_⟩
  · obtain ⟨p, stored, shown⟩ := agrees.same k below
    rw [stored, ← shown, at' k below]
  · refine List.pairwise_iff_getElem.mpr fun j k inside inside' less equal => ?_
    refine agrees.apart k (length ▸ inside') j less ?_
    rw [at' j (length ▸ inside), at' k (length ▸ inside'), List.getElem?_eq_getElem inside,
      List.getElem?_eq_getElem inside', equal]

end Memmap

theorem Memmap.Agrees.rewritten {m m' : Memmap} (same : m.Rewritten m') {dflt : RamDefault}
    {sec : SecState} {addr : Word} {len : Nat} (agrees : m.Agrees dflt sec addr len) :
    m'.Agrees dflt sec addr len := by
  constructor
  · simpa only [same.gdbPlace, same.bytePlace] using agrees.same
  · simpa only [same.fetchPlace, same.bytePlace] using agrees.fetched
  · simpa only [same.bytePlace] using agrees.apart

structure Env.SameRegions {δ : Type u} (env env' : Env δ) : Prop where
  ranges : env'.mmio.map (fun r => (r.base, r.size)) = env.mmio.map fun r => (r.base, r.size)
  blockSecure : env'.blockSecure = env.blockSecure

namespace World

variable {δ : Type u}

def under (w : World δ) (prot : Option ProtCtx) : World δ :=
  { w with map := { w.map with prot := prot } }

def fetched (env : Env δ) (w : World δ) (sec : SecState) (addr : Word) : Option Byte :=
  (w.fetchRead16 env sec (addr &&& ~~~1#32)).1.map (Memmap.halfByte addr)

/-- What is expected of a debugger's write that reports success, under whatever protection the
bytes are then read. -/
structure GdbWritten (env : Env δ) (w w' : World δ) (addr : Word) (src : List Byte) : Prop where
  read : ∀ (k : Nat) (inside : k < src.length) prot sec,
    ((w'.under prot).interceptOk env .read sec (addr + BitVec.ofNat 32 k) 1).1 = true →
      ((w'.under prot).read8 env sec (addr + BitVec.ofNat 32 k)).1 = some src[k]
  fetch : ∀ (k : Nat) (inside : k < src.length) prot sec b,
    (w'.under prot).fetched env sec (addr + BitVec.ofNat 32 k) = some b → b = src[k]
  frame : ∀ a, (∀ k < src.length, ¬ w.map.Alias a (addr + BitVec.ofNat 32 k)) →
    (w.map.bytePlace a).isSome → ∀ prot sec,
      ((w'.under prot).read8 env sec a).1 = ((w.under prot).read8 env sec a).1 ∧
        (w'.under prot).fetched env sec a = (w.under prot).fetched env sec a
  rest : w' = { w with map := { w.map with flash := w'.map.flash, ram := w'.map.ram } }

/-- Whatever flash and RAM hold and the devices do, every write of this length that reports
success is as expected. -/
def GdbWriteSeen (env : Env δ) (dflt : RamDefault) (w : World δ) (sec : SecState) (addr : Word)
    (len : Nat) : Prop :=
  ∀ (env' : Env δ) (flash ram : Word → Byte) (src : List Byte) (w' : World δ),
    env.SameRegions env' → src.length = len →
      (w.filled flash ram).gdbWriteBytes env' dflt sec addr src = (true, w') →
        (w.filled flash ram).GdbWritten env' w' addr src

def Closed (env : Env δ) (w : World δ) (sec : SecState) (addr : Word) : Prop :=
  (w.gdbAsk env sec addr).1 = false ∨ w.map.ramPlace addr = none ∧ busFind env addr = none

instance (env : Env δ) (w : World δ) (sec : SecState) (addr : Word) :
    Decidable (w.Closed env sec addr) :=
  inferInstanceAs (Decidable (_ ∨ _ ∧ _ = none))

def GdbStops (env : Env δ) (w : World δ) (sec : SecState) (addr : Word) (len : Nat) : Prop :=
  ∃ k < len, w.Closed env sec (addr + BitVec.ofNat 32 k) ∧
    ∀ j < k, (w.map.ramPlace (addr + BitVec.ofNat 32 j)).isSome

/-- Where the debugger's writes are right: byte by byte they fail before they reach the bus, or
they go where the CPU finds them and leave no fault record behind. -/
def GdbWritesRight (env : Env δ) (dflt : RamDefault) (w : World δ) (sec : SecState) (addr : Word)
    (len : Nat) : Prop :=
  w.map.gdbTaken dflt sec addr len = none ∧ w.GdbStops env sec addr len ∨
    w.map.Agrees dflt sec addr len ∧
      (w.map.gdbTaken dflt sec addr len = none → w.gdbAsked env sec addr len = w)

variable {env : Env δ} {w : World δ} {sec : SecState} {addr : Word}

theorem gdbWriteBytes_eq (dflt : RamDefault) (w : World δ) (sec : SecState) (addr : Word)
    (src : List Byte) : w.gdbWriteBytes env dflt sec addr src =
      match w.map.gdbTaken dflt sec addr src.length with
      | some t => (true, { w with map := w.map.patchAt t.1 (t.2.offset addr) src })
      | none => w.gdbWriteEach env sec addr src := by
  have offset (base limit : Word) : (⟨base, limit, 0⟩ : Window).offset addr = addr - base :=
    BitVec.zero_add _
  rw [gdbWriteBytes, Memmap.gdbTaken]
  by_cases ram : w.map.ram.isSome ∧ Memmap.gdbInside (w.map.gdbRamWindow dflt sec) addr src.length
  · simp only [if_pos ram, offset]
    rfl
  · by_cases flash : w.map.flash.isSome ∧
        Memmap.gdbInside (w.map.gdbFlashWindow sec) addr src.length
    · simp only [if_neg ram, if_pos flash, offset]
      rfl
    · simp only [if_neg ram, if_neg flash]

theorem gdbWriteBytes_of_free {dflt : RamDefault} {src : List Byte}
    (free : w.map.gdbTaken dflt sec addr src.length = none) :
    w.gdbWriteBytes env dflt sec addr src = w.gdbWriteEach env sec addr src := by
  rw [gdbWriteBytes_eq, free]

variable (env) in
theorem gdbWriteBytes_of_places {dflt : RamDefault} {src : List Byte} {ps : List (Buffer × Word)}
    (places : Memmap.placesFrom (w.map.gdbPlace dflt sec addr src.length) addr src.length =
      some ps)
    (granted : w.map.gdbTaken dflt sec addr src.length = none →
      ∀ k < src.length, (w.gdbAsk env sec (addr + BitVec.ofNat 32 k)).1 = true) :
    w.gdbWriteBytes env dflt sec addr src = (true,
      { (if (w.map.gdbTaken dflt sec addr src.length).isSome then w
        else w.gdbAsked env sec addr src.length) with map := w.map.pokeAll (ps.zip src) }) := by
  rw [gdbWriteBytes_eq]
  cases taken : w.map.gdbTaken dflt sec addr src.length with
  | some t =>
    have here : w.map.gdbPlace dflt sec addr src.length = fun a => some (t.1, t.2.offset a) := by
      funext a
      rw [Memmap.gdbPlace, taken]
    rw [here] at places
    simp only [Option.isSome_some, if_true, Memmap.patchAt_eq w.map t.2 addr src places]
  | none =>
    have here : w.map.gdbPlace dflt sec addr src.length = w.map.ramPlace := by
      funext a
      rw [Memmap.gdbPlace, taken]
    rw [here] at places
    exact gdbWriteEach_of_ram _ places (granted taken)

theorem read8_fst (env : Env δ) (w : World δ) (sec : SecState) (addr : Word) :
    (w.read8 env sec addr).1 =
      if (w.interceptOk env .read sec addr 1).1 then
        match w.map.byte addr with
        | some b => some b
        | none => ((w.interceptOk env .read sec addr 1).2.busRead env addr 1).1.map (·.setWidth 8)
      else none := by
  obtain ⟨w₁, intercepted, map, -⟩ := interceptOk_one env w sec addr .read
  cases ok : (w.interceptOk env .read sec addr 1).1 with
  | false =>
    rw [ok] at intercepted
    rw [read8, intercepted]
    rfl
  | true =>
    rw [ok] at intercepted
    rw [read8_granted intercepted, intercepted, map, ← Memmap.byte]
    cases w.map.byte addr <;> rfl

theorem fetched_eq (env : Env δ) (w : World δ) (sec : SecState) (addr : Word) :
    w.fetched env sec addr =
      if (w.interceptOk env .exec sec (addr &&& ~~~1#32) 2).1 then w.map.fetchByte addr
      else none := by
  have map := interceptOk_map env w .exec sec (addr &&& ~~~1#32) 2
  rw [fetched, fetchRead16]
  generalize w.interceptOk env .exec sec (addr &&& ~~~1#32) 2 = r at map
  obtain ⟨ok, w₁⟩ := r
  have map : w₁.map = w.map := map
  cases ok with
  | false => rfl
  | true =>
    simp only [Bool.not_true, Bool.false_eq_true, if_false, if_true]
    rw [map, Memmap.fetchByte]

section

variable {w' : World δ} {dflt : RamDefault} {src : List Byte} {ps : List (Buffer × Word)}

theorem gdbWritten_of_agrees (agrees : w.map.Agrees dflt sec addr src.length)
    (places : Memmap.placesFrom w.map.bytePlace addr src.length = some ps) (nodup : ps.Nodup)
    (written : w' = { w with map := w.map.pokeAll (ps.zip src) }) :
    w.GdbWritten env w' addr src := by
  obtain ⟨length, at'⟩ := Memmap.placesFrom_eq_some.mp places
  have same := Memmap.rewritten_pokeAll w.map (ps.zip src)
  have map : w'.map = w.map.pokeAll (ps.zip src) := by rw [written]
  have stored (k : Nat) (inside : k < src.length) (p : Buffer × Word)
      (here : w.map.bytePlace (addr + BitVec.ofNat 32 k) = some p) : w'.map.bytes p = src[k] := by
    rw [map]
    exact Memmap.bytes_pokeAll_zip nodup length ((at' k inside).symm.trans here)
      (List.getElem?_eq_getElem inside) (Memmap.present_of_bytePlace here)
  have kept (p : Buffer × Word)
      (apart : ∀ k < src.length, w.map.bytePlace (addr + BitVec.ofNat 32 k) ≠ some p) :
      w'.map.bytes p = w.map.bytes p := by
    rw [map]
    refine Memmap.bytes_pokeAll_of_not_mem fun member => ?_
    rw [Memmap.map_fst_zip length] at member
    obtain ⟨k, inside, rfl⟩ := List.getElem_of_mem member
    exact apart k (length ▸ inside)
      ((at' k (length ▸ inside)).trans (List.getElem?_eq_getElem inside))
  have byte (a : Word) : w'.map.byte a = (w.map.bytePlace a).map w'.map.bytes := by
    rw [Memmap.byte_eq, map, same.bytePlace]
  have fetchByte (a : Word) : w'.map.fetchByte a = (w.map.fetchPlace a).map w'.map.bytes := by
    rw [Memmap.fetchByte_eq, map, same.fetchPlace]
  constructor
  case read =>
    intro k inside prot sec' granted
    obtain ⟨p, -, here⟩ := agrees.same k inside
    have shown : (w'.under prot).map.byte (addr + BitVec.ofNat 32 k) = some src[k] := by
      refine (byte _).trans ?_
      rw [here, Option.map_some, stored k inside p here]
    rw [read8_fst, if_pos granted, shown]
  case fetch =>
    intro k inside prot sec' b got
    rw [fetched_eq] at got
    split at got
    · have got := (fetchByte _).symm.trans got
      obtain ⟨p, place, rfl⟩ := Option.map_eq_some_iff.mp got
      exact stored k inside p (agrees.fetched k inside p place)
    · exact nomatch got
  case frame =>
    intro a apart inBuffer prot sec'
    have away (p : Buffer × Word) (shows' : w.map.Shows a p) : w'.map.bytes p = w.map.bytes p :=
      kept p fun k inside here => apart k inside ⟨p, shows', .inl here⟩
    have asked (type : AccessType) (b size : Word) :
        ((w'.under prot).interceptOk env type sec' b size).1 =
          ((w.under prot).interceptOk env type sec' b size).1 := by
      refine interceptOk_congr (w.under prot) (w'.under prot) rfl ?_ ?_ type sec' b size
      · rw [written]
        rfl
      · rw [written]
        rfl
    constructor
    · obtain ⟨p, here⟩ := Option.isSome_iff_exists.mp inBuffer
      have before : (w.under prot).map.byte a = some (w.map.bytes p) := by
        refine (Memmap.byte_eq w.map a).trans ?_
        rw [here, Option.map_some]
      have after : (w'.under prot).map.byte a = some (w.map.bytes p) := by
        refine (byte a).trans ?_
        rw [here, Option.map_some, away p (.inl here)]
      rw [read8_fst, read8_fst, asked, before, after]
    · have before : (w.under prot).map.fetchByte a = (w.map.fetchPlace a).map w.map.bytes :=
        Memmap.fetchByte_eq w.map a
      have after : (w'.under prot).map.fetchByte a = (w.map.fetchPlace a).map w.map.bytes := by
        refine (fetchByte a).trans ?_
        cases here : w.map.fetchPlace a with
        | none => rfl
        | some p => rw [Option.map_some, Option.map_some, away p (.inr here)]
      rw [fetched_eq, fetched_eq, asked, before, after]
  case rest =>
    rw [written]
    exact congrArg (fun m => { w with map := m }) same.eq

end

theorem Touched.closed {w₁ : World δ} (touched : w.Touched env w₁) (sec : SecState) (addr : Word) :
    w₁.Closed env sec addr ↔ w.Closed env sec addr := by
  rw [Closed, Closed, touched.gdbAsk, touched.map.ramPlace]

theorem Touched.stops {w₁ : World δ} (touched : w.Touched env w₁) {sec : SecState} {addr : Word}
    {len : Nat} (stops : w.GdbStops env sec addr len) : w₁.GdbStops env sec addr len := by
  obtain ⟨k, inside, closed, before⟩ := stops
  exact ⟨k, inside, (touched.closed sec _).mpr closed, fun j below => by
    rw [touched.map.ramPlace]
    exact before j below⟩

theorem gdbWrite8_of_closed (closed : w.Closed env sec addr) (b : Byte) :
    (w.gdbWrite8 env sec addr b).1 = false ∧ (w.gdbWrite8 env sec addr b).2.map = w.map := by
  rcases closed with refused | ⟨place, bus⟩
  · exact gdbWrite8_of_refused refused b
  · exact gdbWrite8_of_nowhere place bus sec b

theorem gdbWriteEach_of_stops {src : List Byte} (stops : w.GdbStops env sec addr src.length) :
    (w.gdbWriteEach env sec addr src).1 = false := by
  induction src generalizing w addr with
  | nil =>
    obtain ⟨k, inside, -⟩ := stops
    exact absurd inside (Nat.not_lt_zero k)
  | cons x src ih =>
    obtain ⟨k, inside, closed, before⟩ := stops
    have first : addr + BitVec.ofNat 32 0 = addr := BitVec.add_zero addr
    cases k with
    | zero =>
      rw [first] at closed
      have failed := (gdbWrite8_of_closed closed x).1
      rw [gdbWriteEach]
      generalize w.gdbWrite8 env sec addr x = r at failed
      obtain ⟨ok, w₁⟩ := r
      obtain rfl : ok = false := failed
      rfl
    | succ k =>
      have here := before 0 (Nat.succ_pos k)
      rw [first] at here
      obtain ⟨p, here⟩ := Option.isSome_iff_exists.mp here
      have written := gdbWrite8_of_ramPlace env here sec x
      have next := touched_poked env w sec addr p x
      rw [gdbWriteEach, written]
      cases ok : (w.gdbAsk env sec addr).1 with
      | false => rfl
      | true =>
        have later : w.GdbStops env sec (addr + 1) src.length := by
          refine ⟨k, Nat.lt_of_succ_lt_succ inside, ?_, fun j below => ?_⟩
          · rw [← Memmap.add_ofNat_succ]
            exact closed
          · rw [← Memmap.add_ofNat_succ]
            exact before (j + 1) (Nat.succ_lt_succ below)
        exact ih (next.stops later)

end World

namespace Env.SameRegions

variable {δ : Type u} {env env' : Env δ} (same : env.SameRegions env')

include same

theorem interceptOk (w : World δ) (type : AccessType) (sec : SecState) (addr size : Word) :
    w.interceptOk env' type sec addr size = w.interceptOk env type sec addr size := by
  simp only [World.interceptOk, same.blockSecure]

theorem gdbAsk (w : World δ) (sec : SecState) (addr : Word) :
    w.gdbAsk env' sec addr = w.gdbAsk env sec addr := by
  simp only [World.gdbAsk, same.interceptOk]

theorem gdbAsked (w : World δ) (sec : SecState) (addr : Word) (n : Nat) :
    w.gdbAsked env' sec addr n = w.gdbAsked env sec addr n := by
  induction n generalizing w addr with
  | zero => rfl
  | succ n ih => rw [World.gdbAsked, same.gdbAsk, ih, World.gdbAsked]

theorem busFind (addr : Word) :
    World.busFind env' addr = none ↔ World.busFind env addr = none := by
  have covered (env : Env δ) : World.busFind env addr = none ↔
      ∀ r ∈ env.mmio.map fun r => (r.base, r.size), ¬ (r.1 ≤ addr ∧ addr - r.1 < r.2) := by
    rw [World.busFind, List.find?_eq_none]
    simp
  rw [covered env', covered env, same.ranges]

theorem stops {w : World δ} {sec : SecState} {addr : Word} {len : Nat}
    (stops : w.GdbStops env sec addr len) : w.GdbStops env' sec addr len := by
  obtain ⟨k, inside, closed, before⟩ := stops
  refine ⟨k, inside, ?_, before⟩
  rw [World.Closed, same.gdbAsk, same.busFind]
  exact closed

end Env.SameRegions

namespace World

variable {δ : Type u} {env : Env δ} {w : World δ} {sec : SecState} {addr : Word}

theorem rewritten_filled (w : World δ) (flash ram : Word → Byte) :
    w.map.Rewritten (w.filled flash ram).map :=
  ⟨rfl, Option.isSome_map, Option.isSome_map⟩

theorem gdbWritten_of_done {dflt : RamDefault} {src : List Byte} {w' : World δ}
    (agrees : w.map.Agrees dflt sec addr src.length)
    (quiet : w.map.gdbTaken dflt sec addr src.length = none →
      w.gdbAsked env sec addr src.length = w)
    (done : w.gdbWriteBytes env dflt sec addr src = (true, w')) :
    w.GdbWritten env w' addr src := by
  obtain ⟨ps, stored, shown, nodup⟩ := agrees.exists_places
  have granted (free : w.map.gdbTaken dflt sec addr src.length = none) (k : Nat)
      (inside : k < src.length) : (w.gdbAsk env sec (addr + BitVec.ofNat 32 k)).1 = true := by
    rw [gdbWriteBytes_of_free free] at done
    by_contra refused
    have stops : w.GdbStops env sec addr src.length := by
      refine ⟨k, inside, .inl (eq_false_of_ne_true refused), fun j below => ?_⟩
      obtain ⟨p, here, -⟩ := agrees.same j (Nat.lt_trans below inside)
      rw [Memmap.gdbPlace, free] at here
      exact Option.isSome_of_eq_some here
    have failed := gdbWriteEach_of_stops stops
    rw [done] at failed
    cases failed
  have written := gdbWriteBytes_of_places _ stored granted
  refine gdbWritten_of_agrees agrees shown nodup ?_
  rw [done] at written
  refine (congrArg Prod.snd written).trans ?_
  cases taken : w.map.gdbTaken dflt sec addr src.length with
  | some t => rfl
  | none =>
    simp only [Option.isSome_none, Bool.false_eq_true, if_false, quiet taken]

theorem gdbWriteSeen_of_right {dflt : RamDefault} {len : Nat}
    (right : w.GdbWritesRight env dflt sec addr len) : w.GdbWriteSeen env dflt sec addr len := by
  rintro env' flash ram src w' same rfl done
  have filled := rewritten_filled w flash ram
  have touched : w.Touched env' (w.filled flash ram) := touched_map w filled
  rcases right with ⟨free, stops⟩ | ⟨agrees, quiet⟩
  · rw [gdbWriteBytes_of_free ((filled.gdbTaken dflt sec addr src.length).trans free)] at done
    have failed := gdbWriteEach_of_stops (touched.stops (same.stops stops))
    rw [done] at failed
    exact nomatch failed
  · refine gdbWritten_of_done (agrees.rewritten filled) (fun free => ?_) done
    rw [filled.gdbTaken] at free
    have prot : (w.filled flash ram).map.prot = w.map.prot := rfl
    refine (gdbAsked_withMap w prot sec addr src.length).trans ?_
    rw [same.gdbAsked, quiet free]
    rfl

def openMap : Memmap := { Memmap.init with ram := some fun _ => 0, ramTotalSize := 0xFFFFFFFF }

end World

def Env.deaf {δ : Type u} (env : Env δ) : Env δ :=
  { env with mmio := env.mmio.map fun r =>
      { r with
        read := fun _ _ w => (none, w)
        write := fun _ _ _ w =>
          (true, { w with map := World.openMap, faultPending := !w.faultPending }) } }

namespace World

variable {δ : Type u} {env : Env δ} {w : World δ} {sec : SecState} {addr : Word}

theorem sameRegions_deaf (env : Env δ) : env.SameRegions env.deaf where
  ranges := by simp [Env.deaf]
  blockSecure := rfl

theorem busWrite_deaf (covered : busFind env addr ≠ none) (size value : Word) :
    w.busWrite env.deaf addr size value =
      (true, { w with map := openMap, faultPending := !w.faultPending }) := by
  have found := mt ((sameRegions_deaf env).busFind addr).mp covered
  obtain ⟨r, found⟩ := Option.ne_none_iff_exists'.mp found
  obtain ⟨r', -, rfl⟩ := List.mem_map.mp (List.mem_of_find?_eq_some found)
  rw [busWrite, found]

theorem busRead_deaf (size : Word) : w.busRead env.deaf addr size = (none, w) := by
  cases found : busFind env.deaf addr with
  | none => rw [busRead, found]
  | some r =>
    obtain ⟨r', -, rfl⟩ := List.mem_map.mp (List.mem_of_find?_eq_some found)
    rw [busRead, found]

theorem openMap_ramPlace (addr : Word) : (openMap.ramPlace addr).isSome := by
  have member : (⟨0, 0xFFFFFFFF, 0⟩ : Window) ∈ openMap.ramViews := by decide
  have admits : (⟨0, 0xFFFFFFFF, 0⟩ : Window).Admits addr 1 := by
    rw [Window.Admits]
    bv_omega
  have first : firstView openMap.ramViews addr 1 ≠ none := fun none =>
    firstView_eq_none.mp none _ member admits
  have present : openMap.ram.isSome := rfl
  rw [Memmap.ramPlace, Option.isSome_map, Memmap.ramTaken, if_pos present, Option.isSome_map]
  exact Option.isSome_iff_ne_none.mpr first

variable (env) in
theorem gdbWriteEach_open (opened : openMap.Rewritten w.map) (src : List Byte) :
    ∃ w', w.gdbWriteEach env sec addr src = (true, w') ∧ w'.faultPending = w.faultPending := by
  have prot : w.map.prot = none := by
    rw [opened.eq]
    rfl
  have asked (addr : Word) : w.gdbAsk env sec addr = (true, w) := by
    rw [gdbAsk, interceptOk, prot]
  have quiet (addr : Word) (n : Nat) : w.gdbAsked env sec addr n = w := by
    induction n generalizing addr with
    | zero => rfl
    | succ n ih => rw [gdbAsked, asked, ih]
  obtain ⟨ps, places⟩ := Memmap.exists_placesFrom w.map.ramPlace addr
    (n := src.length) fun k _ => by
      rw [opened.ramPlace]
      exact openMap_ramPlace _
  have written := gdbWriteEach_of_ram env places fun k _ => by rw [asked]
  refine ⟨_, written, ?_⟩
  rw [quiet]

variable (env) in
theorem interceptOk_faultPending (w : World δ) (type : AccessType) (sec : SecState)
    (addr size : Word) :
    (w.interceptOk env type sec addr size).2.faultPending = w.faultPending := by
  rw [interceptOk_eq]

variable (env) in
theorem gdbAsk_faultPending (w : World δ) (sec : SecState) (addr : Word) :
    (w.gdbAsk env sec addr).2.faultPending = w.faultPending := by
  have first := interceptOk_faultPending env w .write sec addr 1
  rw [gdbAsk]
  generalize w.interceptOk env .write sec addr 1 = r at first
  obtain ⟨ok, w₁⟩ := r
  cases ok with
  | true => exact first
  | false => exact (interceptOk_faultPending _ w₁ .write sec.alt addr 1).trans first

variable (env) in
theorem write8_deaf (place : w.map.ramPlace addr = none) (covered : busFind env addr ≠ none)
    (sec : SecState) (b : Byte) :
    ∃ w₁, w.write8 env.deaf sec addr b = ((w.interceptOk env .write sec addr 1).1, w₁) ∧
      w₁.faultPending = (w.faultPending ^^ (w.interceptOk env .write sec addr 1).1) ∧
      ((w.interceptOk env .write sec addr 1).1 = true → w₁.map = openMap) ∧
      ((w.interceptOk env .write sec addr 1).1 = false →
        w₁ = (w.interceptOk env .write sec addr 1).2) := by
  have fault := interceptOk_faultPending env w .write sec addr 1
  rw [write8_eq, (sameRegions_deaf env).interceptOk, place]
  generalize w.interceptOk env .write sec addr 1 = r at fault
  obtain ⟨granted, w₁⟩ := r
  have fault : w₁.faultPending = w.faultPending := fault
  cases granted with
  | true =>
    simp only [busWrite_deaf covered]
    have flipped : (!w₁.faultPending) = (w.faultPending ^^ true) := by rw [fault, Bool.xor_true]
    exact ⟨_, rfl, flipped, fun _ => rfl, nofun⟩
  | false => exact ⟨w₁, rfl, fault.trans (Bool.xor_false _).symm, nofun, fun _ => rfl⟩

theorem gdbWrite8_deaf (place : w.map.ramPlace addr = none) (open' : ¬ w.Closed env sec addr)
    (b : Byte) : ∃ w₁, w.gdbWrite8 env.deaf sec addr b = (true, w₁) ∧ w₁.map = openMap ∧
      w₁.faultPending = !w.faultPending := by
  rw [Closed, place, not_or, not_and] at open'
  have covered := open'.2 rfl
  have ok : (w.gdbAsk env sec addr).1 = true := by simpa using open'.1
  have touched := touched_interceptOk env w .write sec addr 1
  have map := interceptOk_map env w .write sec addr 1
  obtain ⟨w₁, written, flipped, opened, refused⟩ := write8_deaf env place covered sec b
  rw [gdbAsk_fst] at ok
  rw [gdbWrite8, written]
  cases granted : (w.interceptOk env .write sec addr 1).1 with
  | true =>
    rw [granted, Bool.xor_true] at flipped
    exact ⟨w₁, rfl, opened granted, flipped⟩
  | false =>
    rw [granted, Bool.xor_false] at flipped
    rw [granted, Bool.false_or, ← touched.grants] at ok
    rw [← refused granted] at ok map
    obtain ⟨w₂, written, flipped', opened, -⟩ :=
      write8_deaf env (map ▸ place) covered sec.alt b
    rw [ok, Bool.xor_true, flipped] at flipped'
    exact ⟨w₂, written.trans (by rw [ok]), opened ok, flipped'⟩

variable (env) in
theorem gdbWriteEach_deaf {src : List Byte} (running : ¬ w.GdbStops env sec addr src.length)
    (bus : ∃ k < src.length, w.map.ramPlace (addr + BitVec.ofNat 32 k) = none) :
    ∃ w', w.gdbWriteEach env.deaf sec addr src = (true, w') ∧
      w'.faultPending = !w.faultPending := by
  have first : addr + BitVec.ofNat 32 0 = addr := BitVec.add_zero addr
  induction src generalizing w addr with
  | nil =>
    obtain ⟨k, inside, -⟩ := bus
    exact absurd inside (Nat.not_lt_zero k)
  | cons x src ih =>
    have open' : ¬ w.Closed env sec addr := fun closed =>
      running ⟨0, Nat.succ_pos _, first.symm ▸ closed,
        fun j below => absurd below (Nat.not_lt_zero j)⟩
    cases here : w.map.ramPlace addr with
    | none =>
      obtain ⟨w₁, written, opened, flipped⟩ := gdbWrite8_deaf here open' x
      obtain ⟨w', later, kept⟩ :
          ∃ w', w₁.gdbWriteEach env.deaf sec (addr + 1) src = (true, w') ∧
            w'.faultPending = w₁.faultPending :=
        gdbWriteEach_open env.deaf (opened ▸ .refl _) src
      rw [gdbWriteEach, written]
      exact ⟨w', later, kept.trans flipped⟩
    | some p =>
      have ok : (w.gdbAsk env sec addr).1 = true := by
        by_contra refused
        exact open' (.inl (eq_false_of_ne_true refused))
      have written := gdbWrite8_of_ramPlace env.deaf here sec x
      rw [(sameRegions_deaf env).gdbAsk, ok, if_pos rfl] at written
      have next := touched_poked env w sec addr p x
      have fault := gdbAsk_faultPending env w sec addr
      rw [gdbWriteEach, written]
      obtain ⟨k, inside, device⟩ := bus
      cases k with
      | zero =>
        rw [first, here] at device
        cases device
      | succ k =>
        have running' : ¬ World.GdbStops env { (w.gdbAsk env sec addr).2 with
            map := w.map.poke p.1 p.2 x } sec (addr + 1) src.length := by
          rintro ⟨j, below, closed, before⟩
          refine running ⟨j + 1, Nat.succ_lt_succ below, ?_, fun i less => ?_⟩
          · rw [Memmap.add_ofNat_succ]
            exact (next.closed sec _).mp closed
          · cases i with
            | zero =>
              rw [first, here]
              rfl
            | succ i =>
              rw [Memmap.add_ofNat_succ, ← next.map.ramPlace]
              exact before i (Nat.lt_of_succ_lt_succ less)
        rw [Memmap.add_ofNat_succ, ← next.map.ramPlace] at device
        obtain ⟨w', later, flipped⟩ := ih running'
          ⟨k, Nat.lt_of_succ_lt_succ inside, device⟩ (BitVec.add_zero _)
        exact ⟨w', later, flipped.trans (congrArg not fault)⟩

section

variable {w' : World δ} {src : List Byte}

theorem byte_of_written (written : w.GdbWritten env.deaf w' addr src) {k : Nat}
    (inside : k < src.length) : w'.map.byte (addr + BitVec.ofNat 32 k) = some src[k] := by
  have granted : ((w'.under none).interceptOk env.deaf .read .secure
      (addr + BitVec.ofNat 32 k) 1).1 = true := rfl
  have read := written.read k inside none .secure granted
  have byte : (w'.under none).map.byte (addr + BitVec.ofNat 32 k) =
      w'.map.byte (addr + BitVec.ofNat 32 k) := rfl
  rw [read8_fst, if_pos granted, byte] at read
  cases shown : w'.map.byte (addr + BitVec.ofNat 32 k) with
  | some b =>
    rw [shown] at read
    exact read
  | none =>
    rw [shown, busRead_deaf] at read
    exact nomatch read

theorem fetchByte_of_written (written : w.GdbWritten env w' addr src) {k : Nat}
    (inside : k < src.length) {b : Byte}
    (shown : w'.map.fetchByte (addr + BitVec.ofNat 32 k) = some b) : b = src[k] :=
  written.fetch k inside none .secure b ((fetched_eq env _ _ _).trans shown)

end

def probe (len k : Nat) : List Byte := (List.range len).map fun j => if j = k then 1 else 0

theorem length_probe (len k : Nat) : (probe len k).length = len := by
  rw [probe, List.length_map, List.length_range]

theorem getElem?_probe {len j : Nat} (inside : j < len) (k : Nat) :
    (probe len k)[j]? = some (if j = k then 1 else 0) := by
  rw [probe, List.getElem?_map, List.getElem?_range inside]
  rfl

theorem place_of_probe {m : Memmap} (zero : ∀ p, m.bytes p = 0) {ps : List (Buffer × Word)}
    {len k : Nat} {p : Buffer × Word}
    (one : (m.pokeAll (ps.zip (probe len k))).bytes p = 1) : ps[k]? = some p := by
  rcases Memmap.bytes_pokeAll_cases (m := m) (ps.zip (probe len k)) p with same | member
  · rw [same, zero] at one
    exact nomatch one
  · rw [one] at member
    obtain ⟨j, at'⟩ := List.getElem?_of_mem member
    obtain ⟨place, value⟩ := List.getElem?_zip_eq_some.mp at'
    have inside : j < len := by
      have short := (List.getElem?_eq_some_iff.mp value).1
      rwa [length_probe] at short
    rw [getElem?_probe inside] at value
    split at value
    case isTrue here => exact here ▸ place
    case isFalse => exact nomatch value

section

variable {dflt : RamDefault} {len : Nat}

theorem exists_places_of_seen (seen : w.GdbWriteSeen env dflt sec addr len)
    (running : ¬ (w.map.gdbTaken dflt sec addr len = none ∧ w.GdbStops env sec addr len)) :
    ∃ ps, Memmap.placesFrom (w.map.gdbPlace dflt sec addr len) addr len = some ps := by
  refine Memmap.exists_placesFrom _ _ fun k inside => ?_
  rw [Memmap.gdbPlace]
  cases free : w.map.gdbTaken dflt sec addr len with
  | some t => rfl
  | none =>
    by_contra device
    have filled := rewritten_filled w (fun _ => 0) (fun _ => 0)
    have touched : w.Touched env (w.filled (fun _ => 0) (fun _ => 0)) := touched_map w filled
    have length := length_probe len 0
    let zeroed := w.filled (fun _ => 0) (fun _ => 0)
    obtain ⟨w', done, flipped⟩ :
        ∃ w', zeroed.gdbWriteEach env.deaf sec addr (probe len 0) = (true, w') ∧
          w'.faultPending = !zeroed.faultPending := gdbWriteEach_deaf env
      (fun stops => running ⟨free, by
        obtain ⟨j, below, closed, before⟩ := stops
        refine ⟨j, length ▸ below, (touched.closed sec _).mp closed, fun i less => ?_⟩
        rw [← filled.ramPlace]
        exact before i less⟩)
      ⟨k, length.symm ▸ inside, by
        rw [filled.ramPlace]
        exact Option.not_isSome_iff_eq_none.mp device⟩
    rw [← gdbWriteBytes_of_free
      ((filled.gdbTaken dflt sec addr _).trans (length.symm ▸ free))] at done
    have rest := (seen env.deaf _ _ _ w' (sameRegions_deaf env) length done).rest
    have kept : w'.faultPending = (w.filled (fun _ => 0) fun _ => 0).faultPending := by rw [rest]
    exact Bool.eq_not.mp flipped kept

variable (env) in
theorem granted_of_running {ps : List (Buffer × Word)}
    (places : Memmap.placesFrom (w.map.gdbPlace dflt sec addr len) addr len = some ps)
    (free : w.map.gdbTaken dflt sec addr len = none) (running : ¬ w.GdbStops env sec addr len)
    {k : Nat} (inside : k < len) : (w.gdbAsk env sec (addr + BitVec.ofNat 32 k)).1 = true := by
  obtain ⟨length, at'⟩ := Memmap.placesFrom_eq_some.mp places
  by_contra refused
  refine running ⟨k, inside, .inl (eq_false_of_ne_true refused), fun j below => ?_⟩
  have here := at' j (Nat.lt_trans below inside)
  rw [Memmap.gdbPlace, free, List.getElem?_eq_getElem (by omega)] at here
  exact Option.isSome_of_eq_some here

abbrev blank (w : World δ) : World δ := w.filled (fun _ => 0) fun _ => 0

theorem bytes_blank (w : World δ) (p : Buffer × Word) : w.blank.map.bytes p = 0 := by
  obtain ⟨b, i⟩ := p
  cases b
  case flash =>
    simp only [Memmap.bytes, Memmap.contents, World.filled]
    cases w.map.flash <;> rfl
  case ram =>
    simp only [Memmap.bytes, Memmap.contents, World.filled]
    cases w.map.ram <;> rfl

theorem exists_written {ps : List (Buffer × Word)} (seen : w.GdbWriteSeen env dflt sec addr len)
    (places : Memmap.placesFrom (w.map.gdbPlace dflt sec addr len) addr len = some ps)
    (granted : w.map.gdbTaken dflt sec addr len = none → ∀ k < len,
      (w.gdbAsk env sec (addr + BitVec.ofNat 32 k)).1 = true)
    {src : List Byte} (size : src.length = len) :
    ∃ w', w.blank.GdbWritten env.deaf w' addr src ∧
      w'.map = w.blank.map.pokeAll (ps.zip src) ∧
      (w.map.gdbTaken dflt sec addr len = none →
        w' = { w.gdbAsked env sec addr len with map := w'.map }) := by
  subst size
  have filled := rewritten_filled w (fun _ => 0) (fun _ => 0)
  have place : w.blank.map.gdbPlace dflt sec addr src.length =
      w.map.gdbPlace dflt sec addr src.length :=
    funext (filled.gdbPlace dflt sec addr src.length)
  have wrote := gdbWriteBytes_of_places env.deaf (w := w.blank) (place.symm ▸ places)
    fun free k inside => by
      rw [filled.gdbTaken] at free
      rw [(sameRegions_deaf env).gdbAsk]
      exact ((touched_map w filled).gdbAsk sec _).trans (granted free k inside)
  refine ⟨_, seen env.deaf _ _ src _ (sameRegions_deaf env) rfl wrote, rfl, fun free => ?_⟩
  have asked : w.blank.gdbAsked env.deaf sec addr src.length =
      { w.gdbAsked env sec addr src.length with map := w.blank.map } := by
    rw [(sameRegions_deaf env).gdbAsked]
    exact gdbAsked_withMap w (m := w.blank.map) rfl sec addr src.length
  rw [filled.gdbTaken, free, Option.isSome_none, if_neg Bool.false_ne_true, asked]

theorem agrees_of_seen {ps : List (Buffer × Word)} (seen : w.GdbWriteSeen env dflt sec addr len)
    (places : Memmap.placesFrom (w.map.gdbPlace dflt sec addr len) addr len = some ps)
    (granted : w.map.gdbTaken dflt sec addr len = none → ∀ k < len,
      (w.gdbAsk env sec (addr + BitVec.ofNat 32 k)).1 = true) :
    w.map.Agrees dflt sec addr len := by
  obtain ⟨-, at'⟩ := Memmap.placesFrom_eq_some.mp places
  have filled := rewritten_filled w (fun _ => 0) (fun _ => 0)
  -- After the probe at `k`, a place is read as one only if the debugger wrote it there.
  have probed (k : Nat) (inside : k < len) : ∃ m : Memmap, w.map.Rewritten m ∧
      (∀ p, m.bytes p = 1 → w.map.gdbPlace dflt sec addr len (addr + BitVec.ofNat 32 k) = some p) ∧
      (∀ j < len, (m.bytePlace (addr + BitVec.ofNat 32 j)).map m.bytes =
        some (if j = k then 1 else 0)) ∧
      ∀ p, m.fetchPlace (addr + BitVec.ofNat 32 k) = some p → m.bytes p = 1 := by
    have size := length_probe len k
    obtain ⟨w', written, map, -⟩ := exists_written seen places granted size
    have value (j : Nat) (inside : j < len) :
        (probe len k).get ⟨j, size.symm ▸ inside⟩ = if j = k then 1 else 0 := by
      have at' := getElem?_probe inside k
      rw [List.getElem?_eq_getElem (size.symm ▸ inside)] at at'
      exact Option.some.inj at'
    refine ⟨w'.map, map ▸ filled.trans (Memmap.rewritten_pokeAll _ _), fun p one => ?_,
      fun j below => ?_, fun p shown => ?_⟩
    · rw [map] at one
      rw [at' k inside]
      exact place_of_probe (bytes_blank w) one
    · rw [← Memmap.byte_eq, byte_of_written written (size.symm ▸ below)]
      exact congrArg some (value j below)
    · have fetch : w'.map.fetchByte (addr + BitVec.ofNat 32 k) = some (w'.map.bytes p) := by
        rw [Memmap.fetchByte_eq, shown, Option.map_some]
      refine (fetchByte_of_written written (size.symm ▸ inside) fetch).trans ?_
      exact (value k inside).trans (if_pos rfl)
  have same (k : Nat) (inside : k < len) : ∃ p,
      w.map.gdbPlace dflt sec addr len (addr + BitVec.ofNat 32 k) = some p ∧
        w.map.bytePlace (addr + BitVec.ofNat 32 k) = some p := by
    obtain ⟨m, rewritten, placed, read, -⟩ := probed k inside
    have one := read k inside
    rw [if_pos rfl, rewritten.bytePlace] at one
    obtain ⟨p, shown, one⟩ := Option.map_eq_some_iff.mp one
    exact ⟨p, placed p one, shown⟩
  constructor
  · exact same
  · intro k inside p fetched
    obtain ⟨m, rewritten, placed, -, fetch⟩ := probed k inside
    obtain ⟨q, stored, shown⟩ := same k inside
    have one := fetch p ((rewritten.fetchPlace _).trans fetched)
    rw [shown, ← stored, placed p one]
  · intro k inside j below equal
    obtain ⟨m, rewritten, -, read, -⟩ := probed k inside
    have zero := read j (Nat.lt_trans below inside)
    have one := read k inside
    rw [rewritten.bytePlace, equal, ← rewritten.bytePlace, one, if_pos rfl,
      if_neg (Nat.ne_of_lt below)] at zero
    exact absurd zero (by decide)

theorem right_of_gdbWriteSeen (seen : w.GdbWriteSeen env dflt sec addr len) :
    w.GdbWritesRight env dflt sec addr len := by
  by_cases stops : w.map.gdbTaken dflt sec addr len = none ∧ w.GdbStops env sec addr len
  · exact .inl stops
  · obtain ⟨ps, places⟩ := exists_places_of_seen seen stops
    have granted (free : w.map.gdbTaken dflt sec addr len = none) (k : Nat) (inside : k < len) :=
      granted_of_running env places free (fun stop => stops ⟨free, stop⟩) inside
    refine .inr ⟨agrees_of_seen seen places granted, fun free => ?_⟩
    obtain ⟨w', written, -, asked⟩ := exists_written seen places granted (length_probe len 0)
    have before : { w' with map := w.map } = w :=
      congrArg (fun x : World δ => { x with map := w.map }) written.rest
    have after : { w' with map := w.map } = { w.gdbAsked env sec addr len with map := w.map } :=
      congrArg (fun x : World δ => { x with map := w.map }) (asked free)
    rw [before, ← gdbAsked_map env w sec addr len] at after
    exact after.symm

/-- Exactly when the debugger's writes to a map are right. -/
theorem gdb_write_seen_iff (env : Env δ) (dflt : RamDefault) (w : World δ) (sec : SecState)
    (addr : Word) (len : Nat) :
    w.GdbWriteSeen env dflt sec addr len ↔ w.GdbWritesRight env dflt sec addr len :=
  ⟨right_of_gdbWriteSeen, gdbWriteSeen_of_right⟩

end

/-- With the CPU stopped in Secure state, a breakpoint in the Non-secure flash of `mcxw71c` is
stored to RAM, through the low addresses, and reported as set. -/
theorem breakpoint_stored_to_ram :
    ¬ ∀ (env : Env Unit) (dflt : RamDefault) (w w' : World Unit) (sec : SecState) (addr : Word)
      (src : List Byte), w.gdbWriteBytes env dflt sec addr src = (true, w') →
        w.GdbWritten env w' addr src := by
  intro always
  let w := Board.configured Board.mcxw71c (fun _ => 0xFF) fun _ => 0
  let r := w.gdbWriteBytes Board.env ⟨0x30000000, 0x0001C000⟩ .secure 0x100 [0x00, 0xBE]
  have done : r = (true, r.2) := Prod.ext (by decide) rfl
  have read := (always _ _ w r.2 _ _ _ done).read 1 (by decide) none .secure rfl
  have erased : ((r.2.under none).read8 Board.env .secure (0x100 + BitVec.ofNat 32 1)).1 =
      some 0xFF := by decide
  exact absurd (erased.symm.trans read) (by decide)

end World

end M33mu
