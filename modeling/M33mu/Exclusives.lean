import M33mu.Board
import M33mu.Lib.LoadLinked
import M33mu.Lib.Run
import M33mu.RamWord
import M33mu.Signals

namespace M33mu

open Lib

namespace Cpu

def reserved (c : Cpu) : Option Word := if c.exclValid then some c.exclAddr else none

theorem reserved_congr {c c' : Cpu} (same : c'.monitor = c.monitor) : c'.reserved = c.reserved := by
  have valid : c'.exclValid = c.exclValid := congrArg Monitor.valid same
  have addr : c'.exclAddr = c.exclAddr := congrArg Monitor.addr same
  rw [reserved, valid, addr, reserved]

theorem reserved_of_check {c : Cpu} {addr : Word}
    (ok : (c.exclCheckAndClear c.secState addr 4).1 = true) : c.reserved = some addr := by
  simp only [exclCheckAndClear, Bool.and_eq_true, beq_iff_eq] at ok
  rw [reserved, if_pos ok.1.1.1, ok.1.2]

end Cpu

def Event.linkAction : Event → Option (LinkAction Word Word)
  | .enter _ _ _ _ => some .enter
  | .ret _ _ _ _ => some .leave
  | _ => none

namespace Machine

variable {δ : Type u} (env : Env δ) (decode32 : Word → Decoded)

/-- The address and value that the pass stores by `STREX`. -/
def strexStored (m : Machine δ) (h : Host δ) : Option (Word × Word) :=
  match m.executed env decode32 h with
  | some (_, d, a) =>
    let addr := a.cpu.r d.rn
    if d.kind = .strex ∧ (a.cpu.exclCheckAndClear a.cpu.secState addr 4).1 = true ∧
        (a.world.write env a.cpu.secState addr 4 (a.cpu.r d.rm)).1 = true then
      some (addr, a.cpu.r d.rm)
    else none
  | none => none

def exclAction (m : Machine δ) (h : Host δ) : Option (LinkAction Word Word) :=
  match m.executed env decode32 h with
  | some (_, d, a) =>
    match d.kind with
    | .ldrex => (a.world.read env a.cpu.secState (a.cpu.r d.rn) 4).1.map (.load (a.cpu.r d.rn))
    | .clrex | .strex => some .clear
    | _ => none
  | none => none

def linkActions (m : Machine δ) (h : Host δ) : List (LinkAction Word Word) :=
  (m.exclAction env decode32 h).toList ++
    (m.since (m.mainPass env decode32 h)).reverse.filterMap Event.linkAction

end Machine

/-- The machine with what each context has loaded by `LDREX`. -/
structure Exclusives (δ : Type u) where
  machine : Machine δ
  links : Links Word Word

namespace Exclusives

open Machine

variable {δ : Type u} (env : Env δ) (decode32 : Word → Decoded)

def step (x : Exclusives δ) (h : Host δ) : Exclusives δ :=
  ⟨x.machine.mainPass env decode32 h,
    (x.machine.linkActions env decode32 h).foldl .act x.links⟩

def start (m : Machine δ) : Exclusives δ := ⟨m, ⟨[none], true⟩⟩

/-- A `STREX` that stores follows an `LDREX` of the same address in its own context, with no entry
or return in between. -/
def StoresOwn (x : Exclusives δ) (h : Host δ) : Prop :=
  ∀ addr value, x.machine.strexStored env decode32 h = some (addr, value) →
    ∃ v, x.links.current = some ⟨addr, v, true⟩

/-- The first of `LDREX`, `CLREX` and `STREX` after an entry or a return is not a `STREX` that finds
the monitor set and stores. -/
def StoresFresh (x : Exclusives δ) (h : Host δ) : Prop :=
  (x.machine.strexStored env decode32 h).isSome = true → x.links.stale = false

instance (x : Exclusives δ) (h : Host δ) : Decidable (x.StoresFresh env decode32 h) :=
  inferInstanceAs (Decidable (_ → _))

/-- The pass stores at `a` by `STREX`. -/
abbrev Stores (a : Word) (x : Exclusives δ) (h : Host δ) : Prop :=
  (x.machine.strexStored env decode32 h).map Prod.fst = some a

abbrev Untouched (a : Word) (h : Host δ) : Prop :=
  ∀ w, (h.tick w).ramWord a = w.ramWord a ∧ (h.poll w).ramWord a = w.ramWord a

/-- The word at `a` is only changed by `STREX`, which stores one more than its context loaded. -/
structure Increments (a : Word) (x : Exclusives δ) (h : Host δ) : Prop where
  devices : Untouched a h
  loop : x.Stores env decode32 a h →
    x.machine.strexStored env decode32 h = x.links.current.map fun link => (a, link.value + 1)
  other : ¬ x.Stores env decode32 a h →
    (x.machine.mainPass env decode32 h).world.ramWord a = x.machine.world.ramWord a

/-- How many passes of the run store at `a` by `STREX`. -/
def increments (a : Word) : Exclusives δ → List (Host δ) → Nat
  | _, [] => 0
  | x, h :: hs =>
    (if x.Stores env decode32 a h then 1 else 0) +
      increments a (x.step env decode32 h) hs

abbrev Good (x : Exclusives δ) : Prop := x.links.Good x.machine.cpu.reserved

variable {env decode32}

theorem good_start (m : Machine δ) : (start m).Good := ⟨nofun, fun _ _ => nofun⟩

theorem good_events {r : Option Word} {l : Links Word Word} (good : l.Good r) (es : List Event) :
    ((es.filterMap Event.linkAction).foldl .act l).Good r := by
  induction es generalizing l with
  | nil => exact good
  | cons e es ih =>
    cases e with
    | enter => exact ih Links.Good.enter
    | ret => exact ih Links.Good.leave
    | _ => exact ih good

theorem events_of_fresh {l : Links Word Word} {es : List Event}
    (fresh : ((es.filterMap Event.linkAction).foldl .act l).stale = false) :
    (es.filterMap Event.linkAction).foldl .act l = l := by
  have stays {l : Links Word Word} (stale : l.stale = true) (es : List Event) :
      ((es.filterMap Event.linkAction).foldl .act l).stale = true := by
    induction es generalizing l with
    | nil => exact stale
    | cons e es ih =>
      cases e with
      | enter | ret => exact ih rfl
      | _ => exact ih stale
  induction es generalizing l with
  | nil => rfl
  | cons e es ih =>
    cases e with
    | enter => exact absurd (fresh.symm.trans (stays (l := l.act .enter) rfl es)) nofun
    | ret => exact absurd (fresh.symm.trans (stays (l := l.act .leave) rfl es)) nofun
    | _ => exact ih fresh

theorem attend_monitor (m : Machine δ) (h : Host δ) :
    (m.attend h).1.cpu.monitor = m.cpu.monitor := by
  simp only [attend]
  split
  · rfl
  split
  · rfl
  split
  · rfl
  split
  · rfl
  split
  · rw [endPass_cpu]
  · rw [endPass_cpu]
    split <;> rfl

theorem executed_monitor {m a : Machine δ} {h : Host δ} {f : FetchResult} {d : Decoded}
    (executed : m.executed env decode32 h = some (f, d, a)) : a.cpu.monitor = m.cpu.monitor := by
  obtain ⟨-, -, fetched, -⟩ := executed_eq_some.mp executed
  obtain ⟨r, cpu⟩ := (m.attend h).1.ready_cpu env h
  rw [fetched] at cpu
  rw [← attend_monitor m h, show a.cpu = _ from cpu]
  rfl

theorem afterExecute_monitor (h : Host δ) (d : Decoded) (o : Outcome δ) :
    (afterExecute h d o).cpu.monitor = o.2.cpu.monitor := by
  obtain ⟨xpsr, cpu⟩ := afterExecute_cpu h d o
  rw [cpu]
  rfl

variable (env) in
theorem execLdrex_reserved {f : FetchResult} {d : Decoded} (a : Machine δ) :
    (Execute.execLdrex env a f d).2.cpu.reserved =
      if (a.world.read env a.cpu.secState (a.cpu.r d.rn) 4).1.isSome then some (a.cpu.r d.rn)
      else a.cpu.reserved := by
  rcases read : a.world.read env a.cpu.secState (a.cpu.r d.rn) 4 with ⟨_ | v, w⟩
  · simp only [Execute.execLdrex, load, read]
    exact Cpu.reserved_congr (Sys.raiseMemFault_signals { a.toSys with world := w } _ _ _ _).1
  · simp only [Execute.execLdrex, load, read]
    rfl

theorem execStrex_reserved {f : FetchResult} {d : Decoded} (a : Machine δ) :
    (Execute.execStrex env a f d).2.cpu.reserved = none := by
  have cleared (b : Machine δ) (v : Word) (clear : b.cpu.reserved = none) :
      (if d.rd = 15 then b else b.setReg d.rd v).cpu.reserved = none := by
    split <;> exact clear
  rcases hc : a.cpu.exclCheckAndClear a.cpu.secState (a.cpu.r d.rn) 4 with ⟨ok, c⟩
  obtain rfl : a.cpu.exclClear = c := congrArg Prod.snd hc
  simp only [Execute.execStrex, hc]
  cases ok with
  | false => exact cleared _ _ rfl
  | true =>
    simp only [if_true, store]
    split
    · exact cleared _ _ rfl
    · rename_i w _
      exact Cpu.reserved_congr
        (Sys.raiseMemFault_signals ⟨a.cpu.exclClear, w, a.trace⟩ _ _ _ _).1

theorem mainPass_reserved_of_none {m : Machine δ} {h : Host δ}
    (nothing : m.executed env decode32 h = none) :
    (m.mainPass env decode32 h).cpu.reserved = m.cpu.reserved := by
  rcases mainPass_signals env decode32 m h with
    signals | ⟨f, d, a, executed, -⟩
  · exact Cpu.reserved_congr (signals.1.trans (attend_monitor m h))
  · exact absurd (nothing.symm.trans executed) nofun

theorem mainPass_reserved {m a : Machine δ} {h : Host δ} {f : FetchResult} {d : Decoded}
    (executed : m.executed env decode32 h = some (f, d, a)) :
    (m.mainPass env decode32 h).cpu.reserved = (executeDecoded env f d a).2.cpu.reserved := by
  rw [mainPass_of_executed executed]
  exact Cpu.reserved_congr (afterExecute_monitor h d _)

variable (env decode32) in
inductive Exclusive (m : Machine δ) (h : Host δ) : Prop
  | keeps (action : m.exclAction env decode32 h = none)
    (stored : m.strexStored env decode32 h = none)
    (same : (m.mainPass env decode32 h).cpu.reserved = m.cpu.reserved)
  | loads {f : FetchResult} {d : Decoded} {a : Machine δ} {v : Word} {w : World δ}
    (executed : m.executed env decode32 h = some (f, d, a))
    (read : a.world.read env a.cpu.secState (a.cpu.r d.rn) 4 = (some v, w))
    (action : m.exclAction env decode32 h = some (.load (a.cpu.r d.rn) v))
    (stored : m.strexStored env decode32 h = none)
    (sets : (m.mainPass env decode32 h).cpu.reserved = some (a.cpu.r d.rn))
  | clears (action : m.exclAction env decode32 h = some .clear)
    (clear : (m.mainPass env decode32 h).cpu.reserved = none)

variable (env decode32) in
theorem exclusive (m : Machine δ) (h : Host δ) : Exclusive env decode32 m h := by
  rcases executed : m.executed env decode32 h with _ | ⟨f, d, a⟩
  · exact .keeps (by simp only [exclAction, executed]) (by simp only [strexStored, executed])
      (mainPass_reserved_of_none executed)
  have before : a.cpu.reserved = m.cpu.reserved := Cpu.reserved_congr (executed_monitor executed)
  have after := mainPass_reserved executed
  by_cases excl : d.kind = .ldrex ∨ d.kind = .clrex ∨ d.kind = .strex
  · rcases excl with kind | kind | kind
    · have reserved := execLdrex_reserved env (f := f) (d := d) a
      simp only [executeDecoded, kind, reserved] at after
      have stored : m.strexStored env decode32 h = none := by simp [strexStored, executed, kind]
      rcases read : a.world.read env a.cpu.secState (a.cpu.r d.rn) 4 with ⟨_ | v, w⟩
      · rw [read] at after
        exact .keeps (by simp only [exclAction, executed, kind, read, Option.map_none]) stored
          (after.trans before)
      · rw [read] at after
        exact .loads executed read
          (by simp only [exclAction, executed, kind, read, Option.map_some]) stored after
    · simp only [executeDecoded, kind] at after
      exact .clears (by simp [exclAction, executed, kind]) after
    · simp only [executeDecoded, kind, execStrex_reserved] at after
      exact .clears (by simp [exclAction, executed, kind]) after
  · rw [Cpu.reserved_congr ((executeDecoded_steps a).monitor excl)] at after
    simp only [not_or] at excl
    refine .keeps ?_ (by simp [strexStored, executed, excl.2.2]) (after.trans before)
    simp only [exclAction, executed]
    split <;> simp_all

theorem good_exclAction {x : Exclusives δ} (h : Host δ) (good : x.Good) :
    ((x.machine.exclAction env decode32 h).toList.foldl .act x.links).Good
      (x.machine.mainPass env decode32 h).cpu.reserved := by
  cases exclusive env decode32 x.machine h with
  | keeps action _ same =>
    rw [action, same]
    exact good
  | loads _ _ action _ sets =>
    rw [action, sets]
    exact Links.Good.load _ _
  | clears action clear =>
    rw [action, clear]
    exact Links.Good.clear

theorem good_step (x : Exclusives δ) (h : Host δ) (good : x.Good) :
    (x.step env decode32 h).Good := by
  simp only [Good, step, linkActions, List.foldl_append]
  exact good_events (good_exclAction h good) _

theorem reserved_of_strexStored {m : Machine δ} {h : Host δ} {addr value : Word}
    (stored : m.strexStored env decode32 h = some (addr, value)) :
    m.cpu.reserved = some addr := by
  rcases executed : m.executed env decode32 h with _ | ⟨f, d, a⟩
  · simp [strexStored, executed] at stored
  · simp only [strexStored, executed] at stored
    split at stored
    · rename_i stores
      cases stored
      rw [← Cpu.reserved_congr (executed_monitor executed)]
      exact Cpu.reserved_of_check stores.2.1
    · cases stored

theorem storesOwn_iff_storesFresh {x : Exclusives δ} (h : Host δ) (good : x.Good) :
    x.StoresOwn env decode32 h ↔ x.StoresFresh env decode32 h := by
  rcases stored : x.machine.strexStored env decode32 h with _ | ⟨addr, value⟩
  · simp [StoresOwn, StoresFresh, stored]
  · rw [Good, reserved_of_strexStored stored] at good
    rw [StoresFresh, stored, ← good.undisturbed_iff]
    constructor
    · exact fun own _ => own addr value stored
    · intro fresh addr' value' stored'
      cases stored.symm.trans stored'
      exact fresh rfl

theorem endPass_ramWord {h : Host δ} {a : Word} (untouched : Untouched a h) (m : Machine δ) :
    (m.endPass h).world.ramWord a = m.world.ramWord a := by
  have polled : (m.endPass h).world.ramWord a = (h.poll m.world).ramWord a := by
    simp only [endPass]
    split <;> rfl
  exact polled.trans (untouched _).2

theorem attend_ramWord {h : Host δ} {a : Word} (untouched : Untouched a h) (m : Machine δ) :
    (m.attend h).1.world.ramWord a = m.world.ramWord a := by
  simp only [attend]
  split
  · rfl
  split
  · rfl
  split
  · rfl
  split
  · rfl
  split
  · exact endPass_ramWord untouched _
  · rw [endPass_ramWord untouched]
    split <;> exact (untouched _).1

theorem fetch_map (m : Machine δ) : (m.fetch env).2.world.map = m.world.map := by
  have first := World.fetchRead16_map env m.world m.cpu.secState (m.cpu.r 15 &&& ~~~1#32)
  simp only [fetch]
  split
  · rename_i eq
    rwa [eq] at first
  rename_i w eq
  rw [eq] at first
  split
  · have second := World.fetchRead16_map env w m.cpu.secState ((m.cpu.r 15 &&& ~~~1#32) + 2)
    split
    · rename_i eq'
      exact (congrArg (fun r => r.2.map) eq').symm.trans (second.trans first)
    · rename_i eq'
      exact (congrArg (fun r => r.2.map) eq').symm.trans (second.trans first)
  · exact first

variable (env) in
theorem ready_ramWord {h : Host δ} {a : Word} (untouched : Untouched a h) (m : Machine δ) :
    (m.ready env h).2.world.ramWord a = m.world.ramWord a := by
  simp only [ready]
  rw [World.ramWord_congr (fetch_map _)]
  exact (untouched _).1

theorem executed_ramWord {m b : Machine δ} {h : Host δ} {f : FetchResult} {d : Decoded} {a : Word}
    (untouched : Untouched a h) (executed : m.executed env decode32 h = some (f, d, b)) :
    b.world.ramWord a = m.world.ramWord a := by
  obtain ⟨-, -, fetched, -⟩ := executed_eq_some.mp executed
  have ready := ready_ramWord env untouched (m.attend h).1
  rw [fetched] at ready
  exact ready.trans (attend_ramWord untouched m)

theorem afterExecute_ramWord {h : Host δ} {a : Word} (untouched : Untouched a h) (d : Decoded)
    (o : Outcome δ) : (afterExecute h d o).world.ramWord a = o.2.world.ramWord a := by
  obtain ⟨status, m⟩ := o
  cases status with
  | cont => rfl
  | ok =>
    refine (endPass_ramWord untouched _).trans ?_
    split <;> rfl

theorem ramWord_of_strexStored {m : Machine δ} {h : Host δ} {a v value : Word}
    (untouched : Untouched a h) (holds : m.world.ramWord a = some v)
    (stored : m.strexStored env decode32 h = some (a, value)) :
    (m.mainPass env decode32 h).world.ramWord a = some value := by
  rcases executed : m.executed env decode32 h with _ | ⟨f, d, b⟩
  · simp [strexStored, executed] at stored
  have same := executed_ramWord untouched executed
  simp only [strexStored, executed] at stored
  split at stored
  case isFalse => cases stored
  rename_i stores
  obtain ⟨kind, checked, granted⟩ := stores
  obtain ⟨rfl, rfl⟩ : b.cpu.r d.rn = a ∧ b.cpu.r d.rm = value := by simpa using stored
  rw [mainPass_of_executed executed, afterExecute_ramWord untouched]
  rcases hc : b.cpu.exclCheckAndClear b.cpu.secState (b.cpu.r d.rn) 4 with ⟨ok, c⟩
  rcases write : b.world.write env b.cpu.secState (b.cpu.r d.rn) 4 (b.cpu.r d.rm) with ⟨ok', w⟩
  obtain rfl : ok = true := by rw [hc] at checked; exact checked
  obtain rfl : ok' = true := by rw [write] at granted; exact granted
  obtain rfl : b.cpu.exclClear = c := congrArg Prod.snd hc
  have write' : b.world.write env b.cpu.exclClear.secState (b.cpu.r d.rn) 4
    (b.cpu.exclClear.r d.rm) = (true, w) := write
  simp only [executeDecoded, kind, Execute.execStrex, hc, if_true, store, write']
  have word := World.ramWord_of_write env (same.trans holds) write
  split <;> exact word

/-- The word at `a` is `v`, and so is what the current context loaded where the monitor is its
own. -/
structure Holds (a v : Word) (x : Exclusives δ) : Prop where
  good : x.Good
  word : x.machine.world.ramWord a = some v
  loaded : x.links.stale = false → x.machine.cpu.reserved = some a →
    x.links.current = some ⟨a, v, true⟩

theorem holds_start {m : Machine δ} {a v : Word} (word : m.world.ramWord a = some v) :
    (start m).Holds a v := ⟨good_start m, word, nofun⟩

namespace Holds

variable {x : Exclusives δ} {h : Host δ} {a v : Word}

theorem word_step (holds : x.Holds a v) (fresh : x.StoresFresh env decode32 h)
    (inc : x.Increments env decode32 a h) :
    (x.machine.mainPass env decode32 h).world.ramWord a =
      some (if x.Stores env decode32 a h then v + 1 else v) := by
  split
  · rename_i stores
    obtain ⟨⟨_, value⟩, stored, rfl⟩ := Option.map_eq_some_iff.mp stores
    have own := holds.loaded (fresh (by simp [stored])) (reserved_of_strexStored stored)
    have added := inc.loop stores
    rw [stored, own] at added
    obtain rfl : value = v + 1 := congrArg Prod.snd (Option.some.inj added)
    exact ramWord_of_strexStored inc.devices holds.word stored
  · rename_i misses
    exact (inc.other misses).trans holds.word

theorem loaded_exclAction (holds : x.Holds a v) (inc : x.Increments env decode32 a h)
    {l : Links Word Word}
    (links : (x.machine.exclAction env decode32 h).toList.foldl .act x.links = l)
    (fresh : l.stale = false)
    (own : (x.machine.mainPass env decode32 h).cpu.reserved = some a) :
    ¬ x.Stores env decode32 a h ∧ l.current = some ⟨a, v, true⟩ := by
  cases exclusive env decode32 x.machine h with
  | keeps action stored same =>
    rw [action] at links
    subst links
    exact ⟨by simp [Stores, stored], holds.loaded fresh (same.symm.trans own)⟩
  | @loads f d b val w executed read action stored sets =>
    have addr : b.cpu.r d.rn = a := Option.some.inj (sets.symm.trans own)
    rw [addr] at read action
    have word : b.world.ramWord a = some v :=
      (executed_ramWord inc.devices executed).trans holds.word
    obtain ⟨rfl, -⟩ := World.read_of_ramWord env word read
    rw [action] at links
    subst links
    exact ⟨by simp [Stores, stored], rfl⟩
  | clears _ clear => exact absurd (clear.symm.trans own) nofun

theorem step (holds : x.Holds a v) (fresh : x.StoresFresh env decode32 h)
    (inc : x.Increments env decode32 a h) :
    (x.step env decode32 h).Holds a (if x.Stores env decode32 a h then v + 1 else v) where
  good := good_step x h holds.good
  word := holds.word_step fresh inc
  loaded stays own := by
    generalize links : (x.machine.exclAction env decode32 h).toList.foldl .act x.links = l
    simp only [Exclusives.step, linkActions, List.foldl_append, links] at stays ⊢
    have same := events_of_fresh stays
    rw [same] at stays ⊢
    obtain ⟨misses, current⟩ := holds.loaded_exclAction inc links stays own
    rw [if_neg misses]
    exact current

theorem run (holds : x.Holds a v) {hs : List (Host δ)}
    (fresh : Along (Exclusives.step env decode32) (StoresFresh env decode32) x hs)
    (inc : Along (Exclusives.step env decode32) (Increments env decode32 a) x hs) :
    (Lib.run (Exclusives.step env decode32) x hs).Holds a
      (v + BitVec.ofNat 32 (increments env decode32 a x hs)) := by
  induction hs generalizing x v with
  | nil => simpa [increments] using holds
  | cons h hs ih =>
    have next := ih (holds.step fresh.1 inc.1) fresh.2 inc.2
    have total : (if x.Stores env decode32 a h then v + 1 else v) +
        BitVec.ofNat 32 (increments env decode32 a (x.step env decode32 h) hs) =
          v + BitVec.ofNat 32 (increments env decode32 a x (h :: hs)) := by
      simp only [increments, BitVec.ofNat_add]
      split
      · exact BitVec.add_assoc _ _ _
      · rw [BitVec.zero_add]
    rw [← total]
    exact next

end Holds

theorem along_storesOwn_iff (m : Machine δ) (hs : List (Host δ)) :
    Along (step env decode32) (StoresOwn env decode32) (start m) hs ↔
      Along (step env decode32) (StoresFresh env decode32) (start m) hs := by
  constructor
  · exact along_of_invariant (fun x h => good_step x h)
      (fun _ h good => (storesOwn_iff_storesFresh h good).mp) (good_start m)
  · exact along_of_invariant (fun x h => good_step x h)
      (fun _ h good => (storesOwn_iff_storesFresh h good).mpr) (good_start m)

variable (env decode32) in
/-- A `STREX` that stores follows an `LDREX` of its own context, with no entry or return in
between, exactly if none stores while the monitor is left over from before an entry or return.
Loops of `LDREX` and `STREX` then lose no increment. -/
theorem storesOwn_iff_and_increments (m : Machine δ) (hs : List (Host δ)) :
    (Along (step env decode32) (StoresOwn env decode32) (start m) hs ↔
      Along (step env decode32) (StoresFresh env decode32) (start m) hs) ∧
    (Along (step env decode32) (StoresFresh env decode32) (start m) hs →
      ∀ a v, m.world.ramWord a = some v →
        Along (step env decode32) (Increments env decode32 a) (start m) hs →
          (Lib.run (step env decode32) (start m) hs).machine.world.ramWord a =
            some (v + BitVec.ofNat 32 (increments env decode32 a (start m) hs))) :=
  ⟨along_storesOwn_iff m hs, fun fresh _ _ word inc => ((holds_start word).run fresh inc).word⟩

/-- `LDREX` and `STREX` as `decode_32` reads them. -/
def decodeExclusive (insn : Word) : Decoded :=
  let d := Decoded.default 4 insn
  let rn := Fin.ofNat 16 (insn.toNat >>> 16)
  let rt := Fin.ofNat 16 (insn.toNat >>> 12)
  if insn &&& 0xfff00f00 = 0xe8500f00 then
    { d with kind := .ldrex, rn := rn, rd := rt, undefined := false }
  else if insn &&& 0xfff000ff = 0xe8400000 then
    let rd := Fin.ofNat 16 (insn.toNat >>> 8)
    { d with kind := .strex, rn := rn, rm := rt, rd := rd, undefined := false }
  else d

/-- The thread and the handler of `SysTick` both increment the word at `0x20000000`; the handler
then loads it once more. -/
def counter : Machine Unit :=
  .start Board.env Board.cpu (.both 0) <| Board.flashed
    [(0x00, 0x20008000), (0x04, 0x101), (0x3C, 0x201),
      (0x100, 0x06002020), (0x104, 0x1F00E850), (0x108, 0xE8403101), (0x10C, 0xBF001200),
      (0x200, 0x1F00E850), (0x204, 0xE8403101), (0x208, 0xE8501200), (0x20C, 0x47701F00)]

def systick : Host Unit := ⟨fun w => { w with scs := { w.scs with pendSt := true } }, id⟩

/-- `SysTick` fires behind the `LDREX` of the thread. -/
def interleaved : List (Host Unit) :=
  List.replicate 2 ⟨id, id⟩ ++ [systick] ++ List.replicate 8 ⟨id, id⟩

/-- The thread tries until its `STREX` stores, and the handler of `SysTick` adds one as well. -/
def retrying : Machine Unit :=
  .start Board.env Board.cpu (.both 0) <| Board.flashed
    [(0x00, 0x20008000), (0x04, 0x101), (0x3C, 0x201),
      (0x100, 0x06002020), (0x104, 0x1F00E850), (0x108, 0xE8403101), (0x10C, 0x2A001200),
      (0x110, 0xBF00D1F8),
      (0x200, 0x1F00E850), (0x204, 0xE8403101), (0x208, 0x47701200)]

/-- `SysTick` fires behind the `LDREX` of the thread, whose first `STREX` fails. -/
def retried : List (Host Unit) :=
  List.replicate 2 ⟨id, id⟩ ++ [systick] ++ List.replicate 14 ⟨id, id⟩

theorem storesOwn_iff_and_increments_counter :
    Along (step Board.env decodeExclusive) (StoresOwn Board.env decodeExclusive) (start retrying)
      retried ∧
    increments Board.env decodeExclusive 0x20000000 (start retrying) retried = 2 ∧
    (Lib.run (step Board.env decodeExclusive) (start retrying)
      retried).machine.world.ramWord 0x20000000 = some 2 := by
  have fresh : Along (step Board.env decodeExclusive) (StoresFresh Board.env decodeExclusive)
      (start retrying) retried := by decide +kernel
  have devices : Along (step Board.env decodeExclusive) (fun _ h => Untouched 0x20000000 h)
      (start retrying) retried := by
    refine along_of_mem fun h mem => ?_
    have quiet : h = ⟨id, id⟩ ∨ h = systick ∨ h = ⟨id, id⟩ := by simpa [retried] using mem
    rcases quiet with rfl | rfl | rfl <;> exact fun _ => ⟨rfl, rfl⟩
  have stores : Along (step Board.env decodeExclusive) (fun x h =>
      (x.Stores Board.env decodeExclusive 0x20000000 h →
        x.machine.strexStored Board.env decodeExclusive h =
          x.links.current.map fun link => (0x20000000, link.value + 1)) ∧
      (¬ x.Stores Board.env decodeExclusive 0x20000000 h →
        (x.machine.mainPass Board.env decodeExclusive h).world.ramWord 0x20000000 =
          x.machine.world.ramWord 0x20000000)) (start retrying) retried := by decide +kernel
  have inc : Along (step Board.env decodeExclusive)
      (Increments Board.env decodeExclusive 0x20000000) (start retrying) retried :=
    (devices.and stores).imp fun _ _ ⟨devices, loop, other⟩ => ⟨devices, loop, other⟩
  have both : increments Board.env decodeExclusive 0x20000000 (start retrying) retried = 2 := by
    decide +kernel
  obtain ⟨own, added⟩ := storesOwn_iff_and_increments Board.env decodeExclusive retrying retried
  have word := added fresh 0x20000000 0 (by decide +kernel) inc
  rw [both] at word
  exact ⟨own.mpr fresh, both, word⟩

/-- The `STREX` of the thread stores by the monitor that the handler has left set, and the
handler's increment is lost. -/
theorem left_monitor_loses_increment :
    ¬ Along (step Board.env decodeExclusive) (StoresOwn Board.env decodeExclusive)
      (start counter) interleaved ∧
    counter.world.ramWord 0x20000000 = some 0 ∧
    increments Board.env decodeExclusive 0x20000000 (start counter) interleaved = 2 ∧
    (Lib.run (step Board.env decodeExclusive) (start counter)
      interleaved).machine.world.ramWord 0x20000000 = some 1 := by
  refine ⟨fun own => ?_, by decide +kernel, by decide +kernel, by decide +kernel⟩
  have fresh := (along_storesOwn_iff counter interleaved).mp own
  have split : interleaved = interleaved.take 10 ++ interleaved.drop 10 := rfl
  rw [split] at fresh
  have last := along_append.mp fresh
  exact absurd last.2.1 (by decide +kernel)

end Exclusives

end M33mu
