import M33mu.Lib.History
import M33mu.Masking
import M33mu.Signals
import Mathlib.Data.List.Dedup
import Mathlib.Data.List.Perm.Subperm

namespace M33mu

open Lib

abbrev Handler := Word × SecState

def Event.handlerMark : Event → Mark Handler
  | .enter num _ target _ => .opens (num, target)
  | .ret _ _ _ _ => .closes
  | _ => .idle

namespace Vect

def IsAsync (num : Word) : Prop := 14 ≤ num.toNat ∧ num.toNat < 16 + maxIrq

instance (num : Word) : Decidable (IsAsync num) := inferInstanceAs (Decidable (_ ∧ _))

end Vect

def Event.entersAsync : Event → Bool
  | .enter num _ _ _ => decide (Vect.IsAsync num)
  | _ => false

namespace Scs

def priorityByte (w : Word) (i : Nat) : Int := (w >>> (8 * i) &&& 0xff#32).toNat

end Scs

namespace World

variable {δ : Type u}

def priority (w : World δ) (e : Handler) : Int :=
  let (num, target) := e
  match num.toNat with
  | 2 => -2
  | 3 => -1
  | 4 => Scs.priorityByte (w.scs.shpr1.get target) 0
  | 5 => Scs.priorityByte (w.scs.shpr1.get target) 1
  | 6 => Scs.priorityByte (w.scs.shpr1.get target) 2
  | 7 => Scs.priorityByte (w.scs.shpr1.get target) 3
  | 11 => Scs.priorityByte (w.scs.shpr2.get target) 3
  | 14 => Scs.priorityByte (w.scs.shpr3.get target) 2
  | 15 => Scs.priorityByte (w.scs.shpr3.get target) 3
  | n => if h : n - 16 < maxIrq then (w.nvic.priority ⟨n - 16, h⟩).toNat else 256

theorem priority_irq (w : World δ) (n : Irq) (target : SecState) :
    w.priority ((Async.irq n).num, target) = (w.nvic.priority n).toNat := by
  have number := Async.num_irq_toNat n
  rw [priority]
  simp only [number]
  split
  all_goals first
    | omega
    | skip
  have same : 16 + n.val - 16 = n.val := Nat.add_sub_cancel_left 16 n.val
  rw [dif_pos (lt_of_eq_of_lt same n.isLt)]
  congr 3
  exact Fin.ext same

def handlers : List Handler :=
  (Async.systick :: .pendsv :: (List.finRange maxIrq).map .irq).flatMap
    fun e => [(e.num, .secure), (e.num, .nonsecure)]

def levels (w : World δ) : Nat := (handlers.map w.priority).dedup.length

end World

namespace Machine

variable {δ : Type u}

def active (m : Machine δ) : List Handler := openAfter Event.handlerMark m.trace

def activeAsync (m : Machine δ) : List Handler := m.active.filter fun e => decide (Vect.IsAsync e.1)

def Outranks (m : Machine δ) (e : Handler) : Prop :=
  ∀ e' ∈ m.active, m.world.priority e < m.world.priority e'

instance (m : Machine δ) (e : Handler) : Decidable (m.Outranks e) :=
  inferInstanceAs (Decidable (∀ e' ∈ m.active, _))

/-- What `handle_pending` takes: `SysTick`, else `PendSV`, else what the NVIC selects. -/
def picked (m : Machine δ) : Option Async :=
  if m.world.scs.pendSt then some .systick
  else if m.world.scs.pendSv then some .pendsv
  else (m.world.nvic.selectRouted m.cpu).map fun (irq, _) => .irq irq

variable (env : Env δ) (decode32 : Word → Decoded)

def EntersAbove (m : Machine δ) : Input δ → Prop
  | .pass h => ∀ num origin target x,
    .enter num origin target x ∈ m.since (m.mainPass env decode32 h) → Vect.IsAsync num →
      (m.attend h).1.Outranks (num, target) ∧ (num, target) ∉ m.active
  | .restart _ _ => True

def PicksAbove (m : Machine δ) : Input δ → Prop
  | .pass h => (m.attend h).2 = true →
    ∀ e ∈ (m.attend h).1.picked, (m.attend h).1.Outranks (e.num, e.target (m.attend h).1)
  | .restart _ _ => True

/-- The first of what is pending: `SysTick`, then `PendSV`, then of the interrupts that are enabled
and not masked the one of the least priority value, of those with the least number. -/
def Foremost (m : Machine δ) : Async → Prop
  | .systick => m.world.scs.pendSt = true
  | .pendsv => m.world.scs.pendSt = false ∧ m.world.scs.pendSv = true
  | .irq n => m.world.scs.pendSt = false ∧ m.world.scs.pendSv = false ∧
    m.world.nvic.IsFirst m.cpu (some (n, m.world.nvic.irqTargetSec n))

def EntersForemost (m : Machine δ) : Input δ → Prop
  | .pass h => ∀ num origin target x,
    .enter num origin target x ∈ m.since (m.mainPass env decode32 h) → Vect.IsAsync num →
      ∃ e, (m.attend h).1.Foremost e ∧ num = e.num ∧ target = e.target (m.attend h).1
  | .restart _ _ => True

/-- At a dispatch a pending `SysTick` outranks what is active; without one, a pending `PendSV` does;
without both, some interrupt does if any is pending, enabled and not masked. -/
def PendingAbove (m : Machine δ) : Input δ → Prop
  | .pass h =>
    let a := (m.attend h).1
    (m.attend h).2 = true →
      (a.world.scs.pendSt = true → a.Outranks (Vect.systick, a.cpu.secState)) ∧
      (a.world.scs.pendSt = false → a.world.scs.pendSv = true →
        a.Outranks (Vect.pendsv, a.cpu.secState)) ∧
      (a.world.scs.pendSt = false → a.world.scs.pendSv = false →
        (∃ n, a.world.nvic.Deliverable a.cpu n) →
          ∃ n, a.world.nvic.Deliverable a.cpu n ∧
            a.Outranks (16 + BitVec.ofNat 32 n.val, a.world.nvic.irqTargetSec n))
  | .restart _ _ => True

instance : ∀ (m : Machine δ) (i : Input δ), Decidable (m.PendingAbove i)
  | m, .pass h => inferInstanceAs (Decidable ((m.attend h).2 = true → _ ∧ _ ∧ _))
  | _, .restart _ _ => isTrue trivial

def KeepsPriorities (m : Machine δ) : Input δ → Prop
  | .pass h => ∀ e ∈ (m.mainPass env decode32 h).activeAsync,
    (m.attend h).1.world.priority e = m.world.priority e ∧
      (m.mainPass env decode32 h).world.priority e = m.world.priority e
  | .restart _ _ => True

instance : ∀ (m : Machine δ) (i : Input δ), Decidable (m.KeepsPriorities env decode32 i)
  | m, .pass h => inferInstanceAs (Decidable (∀ e ∈ (m.mainPass env decode32 h).activeAsync, _))
  | _, .restart _ _ => isTrue trivial

def StaysUp (m : Machine δ) : Input δ → Prop
  | .pass h => (m.mainPass env decode32 h).done = false
  | .restart _ _ => True

instance : ∀ (m : Machine δ) (i : Input δ), Decidable (m.StaysUp env decode32 i)
  | m, .pass h => inferInstanceAs (Decidable ((m.mainPass env decode32 h).done = false))
  | _, .restart _ _ => isTrue trivial

def Nested (m : Machine δ) : Prop :=
  m.activeAsync.Pairwise fun inner outer => m.world.priority inner < m.world.priority outer

variable {env decode32}

theorem activeAsync_subset {m : Machine δ} {e : Handler} (mem : e ∈ m.activeAsync) : e ∈ m.active :=
  List.mem_of_mem_filter mem

theorem activeAsync_sublist {m m' : Machine δ} {es : List Event} (trace : m'.trace = es ++ m.trace)
    (sync : ∀ e ∈ es, e.entersAsync = false) : m'.activeAsync.Sublist m.activeAsync := by
  simp only [activeAsync, active, trace]
  clear trace
  induction es with
  | nil => exact .refl _
  | cons e es ih =>
    obtain ⟨first, rest⟩ := List.forall_mem_cons.mp sync
    refine .trans ?_ (ih rest)
    cases e with
    | enter num origin target x =>
      have opens : (Event.enter num origin target x).handlerMark = .opens (num, target) := rfl
      have notAsync : decide (Vect.IsAsync num) = false := first
      rw [List.cons_append, openAfter_opens opens, List.filter_cons, notAsync]
      exact .refl _
    | ret => exact (List.tail_sublist _).filter _
    | _ => exact .refl _

end Machine

namespace Sys

variable {δ : Type u} {env : Env δ}

def OnlySync (s s' : Sys δ) : Prop :=
  ∃ es, s'.trace = es ++ s.trace ∧ ∀ e ∈ es, e.entersAsync = false

theorem OnlySync.of_trace {s s' : Sys δ} (same : s'.trace = s.trace) : s.OnlySync s' :=
  ⟨[], same, nofun⟩

theorem OnlySync.of_event {s s' : Sys δ} {e : Event} (sync : e.entersAsync = false)
    (trace : s'.trace = e :: s.trace) : s.OnlySync s' :=
  ⟨[e], trace, fun _ mem => List.mem_singleton.mp mem ▸ sync⟩

theorem OnlySync.trans {a b c : Sys δ} (h : a.OnlySync b) (h' : b.OnlySync c) : a.OnlySync c := by
  obtain ⟨es, trace, sync⟩ := h
  obtain ⟨es', trace', sync'⟩ := h'
  refine ⟨es' ++ es, by rw [trace', trace, List.append_assoc], fun e mem => ?_⟩
  exact (List.mem_append.mp mem).elim (sync' e) (sync e)

theorem enter_onlySync (s : Sys δ) {num : Word} (returnPc xpsrIn xpsr handler : Word)
    (sec : SecState) (sync : ¬ Vect.IsAsync num) :
    s.OnlySync (s.enter env num returnPc xpsrIn xpsr handler sec).2 := by
  simp only [enter]
  split
  · exact .of_event (e := .enter ..) (decide_eq_false sync) rfl
  · exact .of_trace rfl

theorem enterExceptionEx_onlySync (s : Sys δ) {num : Word} (returnPc xpsrIn : Word)
    (sec : SecState) (sync : ¬ Vect.IsAsync num) :
    s.OnlySync (s.enterExceptionEx env num returnPc xpsrIn sec).2 := by
  simp only [enterExceptionEx, enter]
  split
  · exact .of_event (e := .enter ..) (decide_eq_false sync) rfl
  · exact .of_trace rfl

theorem raiseHardFault_onlySync (s : Sys δ) (faultPc faultXpsr : Word) :
    s.OnlySync (s.raiseHardFault env faultPc faultXpsr).2 := by
  simp only [raiseHardFault]
  exact enter_onlySync { s with world := _ } _ _ _ _ _ (by decide)

theorem raiseUsageFault_onlySync (s : Sys δ) (faultPc faultXpsr ufsrBits : Word) :
    s.OnlySync (s.raiseUsageFault env faultPc faultXpsr ufsrBits).2 := by
  simp only [raiseUsageFault]
  split
  · exact .of_trace rfl
  · exact enter_onlySync { s with world := _ } _ _ _ _ _ (by decide)

theorem raiseMemFault_onlySync (s : Sys δ) (faultPc faultXpsr addr : Word) (isExec : Bool) :
    s.OnlySync (s.raiseMemFault env faultPc faultXpsr addr isExec).2 := by
  have securefault (w : World δ) : s.OnlySync
      ({ s with world := w }.enterExceptionEx env Vect.securefault faultPc faultXpsr .secure).2 :=
    enterExceptionEx_onlySync { s with world := w } _ _ _ (by decide)
  have memmanage (w : World δ) : s.OnlySync
      ({ s with world := w }.enterException env Vect.memmanage faultPc faultXpsr).2 :=
    enterExceptionEx_onlySync { s with world := w } _ _ _ (by decide)
  have hardfault (w : World δ) :
      s.OnlySync ({ s with world := w }.raiseHardFault env faultPc faultXpsr).2 :=
    raiseHardFault_onlySync { s with world := w } _ _
  simp only [raiseMemFault]
  split
  · exact securefault _
  split
  · exact memmanage _
  · exact hardfault _

end Sys

namespace Machine

variable {δ : Type u} {env : Env δ} {decode32 : Word → Decoded} {f : FetchResult} {d : Decoded}

abbrev OnlySync (m m' : Machine δ) : Prop := m.toSys.OnlySync m'.toSys

theorem excReturn_onlySync (m : Machine δ) (excRet : Word) : m.OnlySync (m.excReturn env excRet) := by
  cases ok : (m.toSys.excReturnUnstack env excRet).1 with
  | true =>
    obtain ⟨info, frame, w, -, eq⟩ := excReturn_of_ok env ok
    rw [eq]
    exact Sys.OnlySync.of_event rfl rfl
  | false =>
    have same : (m.excReturn env excRet).trace = m.trace := by
      simp only [excReturn, ok, afterCall]
      simp only [Sys.excReturnUnstack] at ok ⊢
      split at ok
      · rfl
      · split at ok
        · cases ok
        · rfl
    exact .of_trace same

theorem Micro.onlySync {m m' : Machine δ} (h : Micro env f d m m') : m.OnlySync m' := by
  have fault (w : World δ) (addr : Word) (isExec : Bool) :
      m.OnlySync ((m.withWorld w).memFault env f addr isExec) :=
    Sys.raiseMemFault_onlySync { m.toSys with world := w } _ _ _ _
  cases h with
  | readRefused addr _ isExec => exact fault _ addr isExec
  | read8Refused addr | writeRefused addr => exact fault _ addr false
  | usageFault ufsrBits => exact Sys.raiseUsageFault_onlySync _ _ _ _
  | svc => exact Sys.enterExceptionEx_onlySync m.toSys _ _ _ (by decide)
  | excReturn excRet => exact excReturn_onlySync m excRet
  | sg | blxns | tzReturn => exact .of_event rfl rfl
  | _ => exact .of_trace rfl

theorem Steps.onlySync {m m' : Machine δ} (h : Steps env f d m m') : m.OnlySync m' :=
  h.keeps (K := fun a => m.OnlySync a) (fun step kept => kept.trans step.onlySync) (.of_trace rfl)

theorem foremost_iff {m : Machine δ} {e : Async} : m.Foremost e ↔ m.picked = some e := by
  simp only [picked]
  split
  · rename_i st
    cases e <;> simp [Foremost, st]
  rename_i st
  rw [Bool.not_eq_true] at st
  split
  · rename_i sv
    cases e <;> simp [Foremost, st, sv]
  rename_i sv
  rw [Bool.not_eq_true] at sv
  cases e with
  | systick | pendsv => simp [Foremost, st, sv]
  | irq n =>
    simp only [Foremost, st, sv, true_and, Option.map_eq_some_iff]
    constructor
    · intro first
      cases chosen : m.world.nvic.selectRouted m.cpu with
      | none =>
        have none := Nvic.selectRouted_eq_none_iff.mp chosen n
        exact absurd ((Nvic.deliverable_iff.mp first.1).symm.trans none) fun is => by cases is
      | some choice =>
        obtain ⟨k, sec⟩ := choice
        have first' := Nvic.isFirst_of_selectRouted chosen
        refine ⟨(k, sec), rfl, ?_⟩
        have same : k = n := by
          rcases first.2.2 k first'.1 with less | ⟨same, le⟩
          · rcases first'.2.2 n first.1 with less' | ⟨same', -⟩
            · exact absurd less (BitVec.lt_asymm less')
            · exact absurd less (same' ▸ BitVec.lt_irrefl _)
          · rcases first'.2.2 n first.1 with less' | ⟨-, le'⟩
            · exact absurd less' (same ▸ BitVec.lt_irrefl _)
            · exact Fin.le_antisymm le' le
        rw [same]
    · rintro ⟨⟨k, sec⟩, chosen, eq⟩
      cases eq
      have first := Nvic.isFirst_of_selectRouted chosen
      exact first.2.1 ▸ first

theorem picked_of_pending {m b : Machine δ} {num : Word} {sec : SecState}
    (accepted : m.pending = some (num, sec, b)) :
    ∃ e, m.picked = some e ∧ num = e.num ∧ sec = e.target m := by
  simp only [pending] at accepted
  simp only [picked]
  split at accepted
  · rename_i st
    cases accepted
    exact ⟨.systick, if_pos st, rfl, rfl⟩
  rename_i st
  rw [if_neg st]
  split at accepted
  · rename_i sv
    cases accepted
    exact ⟨.pendsv, if_pos sv, rfl, rfl⟩
  · rename_i sv
    simp only [Option.map_eq_some_iff, Prod.mk.injEq] at accepted
    obtain ⟨⟨n, target⟩, chosen, rfl, rfl, -⟩ := accepted
    rw [if_neg sv, chosen]
    exact ⟨.irq n, rfl, rfl, (Nvic.of_selectRouted chosen).2.1⟩

theorem pending_of_picked {m : Machine δ} {e : Async} (picked : m.picked = some e) :
    ∃ b, m.pending = some (e.num, e.target m, b) := by
  simp only [Machine.picked] at picked
  simp only [pending]
  split at picked
  · rename_i st
    cases picked
    exact ⟨m, if_pos st⟩
  rename_i st
  rw [if_neg st]
  split at picked
  · rename_i sv
    cases picked
    exact ⟨m, if_pos sv⟩
  · rename_i sv
    obtain ⟨⟨n, target⟩, chosen, rfl⟩ := Option.map_eq_some_iff.mp picked
    rw [if_neg sv, chosen, (Nvic.of_selectRouted chosen).2.1]
    exact ⟨_, rfl⟩

variable (env decode32) in
theorem mainPass_onlySync (m : Machine δ) (h : Host δ) :
    m.OnlySync (m.mainPass env decode32 h) ∨
      ∃ e b, (m.attend h).2 = true ∧ (m.attend h).1.picked = some e ∧
        (m.attend h).1.pending = some (e.num, e.target (m.attend h).1, b) ∧
          m.mainPass env decode32 h = b.dispatch env e.num (e.target (m.attend h).1) := by
  have attended : m.OnlySync (m.attend h).1 := .of_trace (attend_quiet h m).trace
  have fetched {f : FetchResult} {a : Machine δ} (ready : (m.attend h).1.ready env h = (f, a)) :
      m.OnlySync a := by
    refine attended.trans (.of_trace ?_)
    rw [← (ready_quiet env h (m.attend h).1).trace, ready]
  have passes : Passes env decode32 m h (m.mainPass env decode32 h) := mainPass_passes m h
  generalize m.mainPass env decode32 h = m' at passes ⊢
  cases passes with
  | ends => exact .inl attended
  | dispatches goesOn accepted =>
    obtain ⟨e, picked, rfl, rfl⟩ := picked_of_pending accepted
    exact .inr ⟨e, _, goesOn, picked, accepted, rfl⟩
  | fetchFaults _ _ ready => exact .inl ((fetched ready).trans (Sys.raiseMemFault_onlySync _ _ _ _ _))
  | undefined _ _ ready => exact .inl ((fetched ready).trans (Sys.raiseUsageFault_onlySync _ _ _ _))
  | skips _ _ ready => exact .inl ((fetched ready).trans (.of_trace rfl))
  | @executes f d a executed =>
    obtain ⟨-, -, ready, -⟩ := executed_eq_some.mp executed
    have steps : Steps env f d a (executeDecoded env f d a).2 := executeDecoded_steps a
    exact .inl (((fetched ready).trans steps.onlySync).trans
      (.of_trace (afterExecute_trace h d _)))

variable (env decode32) in
theorem mainPass_enters (m : Machine δ) (h : Host δ) :
    (∀ e ∈ m.since (m.mainPass env decode32 h), e.entersAsync = false) ∧
        (m.mainPass env decode32 h).activeAsync.Sublist m.activeAsync ∨
      ∃ e x, (m.attend h).2 = true ∧ (m.attend h).1.picked = some e ∧
        (m.mainPass env decode32 h).trace =
          .enter e.num (m.attend h).1.cpu.secState (e.target (m.attend h).1) x :: m.trace := by
  have none {m' : Machine δ} (h' : m.OnlySync m') :
      (∀ e ∈ m.since m', e.entersAsync = false) ∧ m'.activeAsync.Sublist m.activeAsync := by
    obtain ⟨es, trace, sync⟩ := h'
    rw [since_of_trace trace]
    exact ⟨sync, activeAsync_sublist trace sync⟩
  rcases mainPass_onlySync env decode32 m h with sync | ⟨e, b, goesOn, picked, accepted, eq⟩
  · exact .inl (none sync)
  · obtain ⟨cpu, trace⟩ := pending_cpu accepted
    have before : b.trace = m.trace := trace.trans (attend_quiet h m).trace
    rw [eq]
    rcases b.dispatch_trace env e.num (e.target (m.attend h).1) with ⟨-, same⟩ | ⟨x, enters⟩
    · exact .inl (none (.of_trace (same.trans before)))
    · rw [cpu, before] at enters
      exact .inr ⟨e, x, goesOn, picked, enters⟩

theorem attend_active (m : Machine δ) (h : Host δ) : (m.attend h).1.active = m.active := by
  rw [active, (attend_quiet h m).trace, active]

theorem outranks_of_isFirst {m : Machine δ} {n n' : Irq} {target : SecState}
    (first : m.world.nvic.IsFirst m.cpu (some (n, target)))
    (deliverable : m.world.nvic.Deliverable m.cpu n')
    (outranks : m.Outranks ((Async.irq n').num, m.world.nvic.irqTargetSec n')) :
    m.Outranks ((Async.irq n).num, target) := by
  intro e active
  have below := outranks e active
  rw [World.priority_irq] at below ⊢
  have le : (m.world.nvic.priority n).toNat ≤ (m.world.nvic.priority n').toNat := by
    rcases first.2.2 n' deliverable with less | ⟨same, -⟩
    · exact Nat.le_of_lt (BitVec.lt_def.mp less)
    · exact Nat.le_of_eq (congrArg BitVec.toNat same)
  exact Int.lt_of_le_of_lt (Int.ofNat_le.mpr le) below

theorem picksAbove_iff {m : Machine δ} {i : Input δ} : m.PicksAbove i ↔ m.PendingAbove i := by
  cases i with
  | restart => exact Iff.rfl
  | pass h =>
    refine forall_congr' fun goesOn => ?_
    obtain ⟨a, attended⟩ : ∃ a, (m.attend h).1 = a := ⟨_, rfl⟩
    simp only [attended]
    constructor
    · intro picks
      refine ⟨fun st => ?_, fun st sv => ?_, fun st sv ⟨n, deliverable⟩ => ?_⟩
      · exact picks .systick (foremost_iff.mp st)
      · exact picks .pendsv (foremost_iff.mp ⟨st, sv⟩)
      · cases chosen : a.world.nvic.selectRouted a.cpu with
        | none =>
          have none := Nvic.selectRouted_eq_none_iff.mp chosen n
          exact absurd ((Nvic.deliverable_iff.mp deliverable).symm.trans none) fun is => by cases is
        | some choice =>
          obtain ⟨k, sec⟩ := choice
          have first := Nvic.isFirst_of_selectRouted chosen
          obtain rfl : sec = a.world.nvic.irqTargetSec k := first.2.1
          exact ⟨k, first.1, picks (.irq k) (foremost_iff.mp ⟨st, sv, first⟩)⟩
    · rintro ⟨systick, pendsv, irq⟩ e picked
      have foremost := foremost_iff.mpr picked
      cases e with
      | systick => exact systick foremost
      | pendsv => exact pendsv foremost.1 foremost.2
      | irq n =>
        obtain ⟨st, sv, first⟩ := foremost
        obtain ⟨n', deliverable, outranks⟩ := irq st sv ⟨n, first.1⟩
        exact outranks_of_isFirst first deliverable outranks

theorem entersForemost (m : Machine δ) (i : Input δ) : m.EntersForemost env decode32 i := by
  cases i with
  | restart => trivial
  | pass h =>
    intro num origin target x mem async
    rcases mainPass_enters env decode32 m h with ⟨sync, -⟩ | ⟨e, x', -, picked, trace⟩
    · exact absurd (sync _ mem) (by simp [Event.entersAsync, async])
    · have only : m.since (m.mainPass env decode32 h) = [_] := since_of_trace trace
      rw [only, List.mem_singleton] at mem
      cases mem
      exact ⟨e, foremost_iff.mpr picked, rfl, rfl⟩

theorem entersAbove_of_picksAbove {m : Machine δ} {i : Input δ} (picks : m.PicksAbove i) :
    m.EntersAbove env decode32 i := by
  cases i with
  | restart => trivial
  | pass h =>
    intro num origin target x mem async
    rcases mainPass_enters env decode32 m h with ⟨sync, -⟩ | ⟨e, x', goesOn, picked, trace⟩
    · exact absurd (sync _ mem) (by simp [Event.entersAsync, async])
    · have only : m.since (m.mainPass env decode32 h) = [_] := since_of_trace trace
      rw [only, List.mem_singleton] at mem
      cases mem
      have outranks := picks goesOn e picked
      refine ⟨outranks, fun again => ?_⟩
      rw [← attend_active m h] at again
      exact lt_irrefl _ (outranks _ again)

end Machine

namespace Async

theorem isAsync_num (e : Async) : Vect.IsAsync e.num := by
  cases e with
  | systick | pendsv => decide
  | irq n =>
    have bound := n.isLt
    rw [Vect.IsAsync, num_irq_toNat]
    omega

theorem exists_num {num : Word} (async : Vect.IsAsync num) : ∃ e : Async, e.num = num := by
  obtain ⟨low, high⟩ := async
  rcases Nat.lt_or_ge num.toNat 16 with system | irq
  · rcases (by omega : num.toNat = 15 ∨ num.toNat = 14) with is | is
    · exact ⟨.systick, BitVec.eq_of_toNat_eq is.symm⟩
    · exact ⟨.pendsv, BitVec.eq_of_toNat_eq is.symm⟩
  · refine ⟨.irq ⟨num.toNat - 16, by omega⟩, BitVec.eq_of_toNat_eq ?_⟩
    rw [num_irq_toNat]
    exact Nat.add_sub_of_le irq

end Async

namespace Machine

variable {δ : Type u} {env : Env δ} {decode32 : Word → Decoded}

theorem picksAbove_of_entersAbove {m : Machine δ} {i : Input δ} (up : m.StaysUp env decode32 i)
    (enters : m.EntersAbove env decode32 i) : m.PicksAbove i := by
  cases i with
  | restart => trivial
  | pass h =>
    intro goesOn e picked
    obtain ⟨b, accepted⟩ := pending_of_picked picked
    obtain ⟨cpu, trace⟩ := pending_cpu accepted
    have eq : m.mainPass env decode32 h = b.dispatch env e.num (e.target (m.attend h).1) :=
      mainPass_of_accepted goesOn accepted
    rcases b.dispatch_trace env e.num (e.target (m.attend h).1) with ⟨ends, -⟩ | ⟨x, new⟩
    · have up : (b.dispatch env e.num (e.target (m.attend h).1)).done = false := eq ▸ up
      exact absurd (ends.symm.trans up) nofun
    · rw [← eq, trace, (attend_quiet h m).trace] at new
      have only : m.since (m.mainPass env decode32 h) = [_] := since_of_trace new
      refine (enters e.num b.cpu.secState _ x ?_ e.isAsync_num).1
      rw [only]
      exact List.mem_singleton_self _

variable (env) in
theorem restart_trace {m : Machine δ} (again : m.resetAgain = true) (vtor : Banked Word)
    (w : World δ) : (m.restart env vtor w).trace = [] := by
  have reset (a : Machine δ) : (a.vectorApplyReset env).2.trace = a.trace := by
    simp only [vectorApplyReset]
    split
    · rfl
    split <;> rfl
  exact restart_rule (P := fun a => a.trace = []) env again
    (fun a _ _ trace _ => (reset a).trans trace) (fun _ empty => empty) (fun _ empty => empty)

theorem nested_of_trace {m : Machine δ} (empty : m.trace = []) : m.Nested := by
  rw [Nested, activeAsync, active, empty]
  exact .nil

theorem nested_pass {m : Machine δ} {h : Host δ} (nested : m.Nested)
    (picks : m.PicksAbove (.pass h)) (keeps : m.KeepsPriorities env decode32 (.pass h)) :
    (m.mainPass env decode32 h).Nested := by
  have outer (l : List Handler) (sub : l ⊆ (m.mainPass env decode32 h).activeAsync)
      (pairwise : l.Pairwise fun a b => m.world.priority a < m.world.priority b) :
      l.Pairwise fun a b => (m.mainPass env decode32 h).world.priority a <
        (m.mainPass env decode32 h).world.priority b := by
    refine pairwise.imp_of_mem fun memA memB less => ?_
    rwa [(keeps _ (sub memA)).2, (keeps _ (sub memB)).2]
  rcases mainPass_enters env decode32 m h with ⟨-, sub⟩ | ⟨e, x, goesOn, picked, trace⟩
  · exact outer _ (List.Subset.refl _) (nested.sublist sub)
  · have active : (m.mainPass env decode32 h).activeAsync =
        (e.num, e.target (m.attend h).1) :: m.activeAsync := by
      have opens : (Event.enter e.num (m.attend h).1.cpu.secState (e.target (m.attend h).1)
        x).handlerMark = .opens (e.num, e.target (m.attend h).1) := rfl
      rw [activeAsync, Machine.active, trace, openAfter_opens opens,
        List.filter_cons_of_pos (by simpa using e.isAsync_num)]
      rfl
    rw [Nested, active, List.pairwise_cons]
    rw [KeepsPriorities, active] at keeps
    constructor
    · intro e' mem
      have below := picks goesOn e picked e' (attend_active m h ▸ activeAsync_subset mem)
      obtain ⟨before, after⟩ := keeps _ (.head _)
      obtain ⟨before', after'⟩ := keeps e' (.tail _ mem)
      rw [before, before'] at below
      rwa [after, after']
    · refine outer _ ?_ nested
      rw [active]
      exact List.subset_cons_self _ _

theorem nested_step {m : Machine δ} {i : Input δ} (nested : m.Nested) (picks : m.PicksAbove i)
    (keeps : m.KeepsPriorities env decode32 i) : (m.loopStep env decode32 i).Nested := by
  cases i with
  | pass h => exact nested_pass nested picks keeps
  | restart vtor w =>
    cases again : m.resetAgain with
    | true => exact nested_of_trace (restart_trace env again vtor w)
    | false =>
      rw [loopStep, restart_of_not_resetAgain env again]
      exact nested

theorem mem_handlers {num : Word} (async : Vect.IsAsync num) (target : SecState) :
    (num, target) ∈ World.handlers := by
  obtain ⟨e, rfl⟩ := Async.exists_num async
  have mem : e ∈ Async.systick :: .pendsv :: (List.finRange maxIrq).map .irq := by
    cases e <;> simp [List.mem_finRange]
  refine List.mem_flatMap.mpr ⟨e, mem, ?_⟩
  cases target <;> simp

theorem depth_le_levels {m : Machine δ} (nested : m.Nested) :
    m.activeAsync.length ≤ m.world.levels := by
  have distinct : (m.activeAsync.map m.world.priority).Nodup :=
    List.pairwise_map.mpr (nested.imp ne_of_lt)
  have sub : m.activeAsync.map m.world.priority ⊆ (World.handlers.map m.world.priority).dedup := by
    intro p mem
    obtain ⟨⟨num, target⟩, active, rfl⟩ := List.mem_map.mp mem
    have async : Vect.IsAsync num := by simpa using (List.mem_filter.mp active).2
    exact List.mem_dedup.mpr (List.mem_map_of_mem (mem_handlers async target))
  calc m.activeAsync.length
      = (m.activeAsync.map m.world.priority).length := (List.length_map _).symm
    _ ≤ m.world.levels := (List.Nodup.subperm distinct sub).length_le

variable (env decode32) in
/-- In every run, an asynchronous exception that is entered is the first of what is pending. Where
pending ones outrank the active exceptions at every dispatch, and barely elsewhere, they are entered
only above these and no handler twice. While priorities stay, they are then nested no deeper than
there are priorities. -/
theorem along_pendingAbove (m : Machine δ) (is : List (Input δ)) :
    Along (loopStep env decode32) (EntersForemost env decode32) m is ∧
    (Along (loopStep env decode32) PendingAbove m is →
      Along (loopStep env decode32) (EntersAbove env decode32) m is) ∧
    (Along (loopStep env decode32) (StaysUp env decode32) m is →
      Along (loopStep env decode32) (EntersAbove env decode32) m is →
        Along (loopStep env decode32) PendingAbove m is) ∧
    (m.Nested → Along (loopStep env decode32) PendingAbove m is →
      Along (loopStep env decode32) (KeepsPriorities env decode32) m is →
        Throughout (loopStep env decode32) (fun m' => m'.activeAsync.length ≤ m'.world.levels)
          m is) := by
  refine ⟨along_of_forall entersForemost, fun above => ?_, fun up enters => ?_,
    fun nested above keeps => ?_⟩
  · exact above.imp fun _ _ above => entersAbove_of_picksAbove (picksAbove_iff.mpr above)
  · exact (up.and enters).imp fun _ _ both =>
      picksAbove_iff.mp (picksAbove_of_entersAbove both.1 both.2)
  · have throughout := throughout_of_along
      (fun m' i (nested : Nested m') (both : PendingAbove m' i ∧ m'.KeepsPriorities env decode32 i) =>
        nested_step nested (picksAbove_iff.mpr both.1) both.2) nested (above.and keeps)
    exact throughout.imp fun _ => depth_le_levels

def handlersAt : World Unit :=
  let w := Board.flashed [(0x00, 0x20008000), (0x04, 0x101), (0x3C, 0x201), (0x40, 0x301),
    (0x100, 0xBF00BF00), (0x200, 0xBF00BF00), (0x300, 0xBF00BF00)]
  { w with
    scs := { w.scs with shpr3 := .both 0x80000000 }
    nvic := { w.nvic.setEnable ⟨0, maxIrq_pos⟩ true with priority := fun _ => 0x40 } }

def fireSystick : Input Unit :=
  .pass ⟨fun w => { w with scs := { w.scs with pendSt := true } }, id⟩

def fireIrq : Input Unit :=
  .pass ⟨fun w => { w with nvic := w.nvic.setPending ⟨0, by decide⟩ true }, id⟩

theorem along_pendingAbove_irq :
    Along (loopStep Board.env Board.decode32) (EntersAbove Board.env Board.decode32)
      (start Board.env Board.cpu (.both 0) handlersAt)
      [fireSystick, .pass ⟨id, id⟩, fireIrq, .pass ⟨id, id⟩] ∧
    Throughout (loopStep Board.env Board.decode32)
      (fun m => m.activeAsync.length ≤ m.world.levels)
      (start Board.env Board.cpu (.both 0) handlersAt)
      [fireSystick, .pass ⟨id, id⟩, fireIrq, .pass ⟨id, id⟩] ∧
    (run (loopStep Board.env Board.decode32) (start Board.env Board.cpu (.both 0) handlersAt)
      [fireSystick, .pass ⟨id, id⟩, fireIrq, .pass ⟨id, id⟩]).active =
        [(16, .secure), (15, .secure)] := by
  have above : Along (loopStep Board.env Board.decode32) PendingAbove
      (start Board.env Board.cpu (.both 0) handlersAt)
      [fireSystick, .pass ⟨id, id⟩, fireIrq, .pass ⟨id, id⟩] := by decide +kernel
  obtain ⟨-, enters, -, depth⟩ := along_pendingAbove Board.env Board.decode32
    (start Board.env Board.cpu (.both 0) handlersAt)
    [fireSystick, .pass ⟨id, id⟩, fireIrq, .pass ⟨id, id⟩]
  exact ⟨enters above, depth (nested_of_trace (restart_trace Board.env rfl _ _)) above
    (by decide +kernel), by decide +kernel⟩

theorem systick_reenters :
    ¬ ∀ (w : World Unit) (is : List (Input Unit)),
      Along (loopStep Board.env Board.decode32) (EntersAbove Board.env Board.decode32)
        (start Board.env Board.cpu (.both 0) w) is := by
  intro h
  have along := h handlersAt ([fireSystick, .pass ⟨id, id⟩, fireSystick] ++ [.pass ⟨id, id⟩])
  have enters := (along_append.mp along).2.1
  exact absurd (picksAbove_iff.mp (picksAbove_of_entersAbove (by decide +kernel) enters))
    (by decide +kernel)

end Machine

end M33mu
