import M33mu.Pass

namespace M33mu

structure Monitor where
  valid : Bool
  sec : SecState
  addr : Word
  size : Word
  deriving DecidableEq, Repr

namespace Cpu

def monitor (c : Cpu) : Monitor := ⟨c.exclValid, c.exclSec, c.exclAddr, c.exclSize⟩

structure SameSignals (c c' : Cpu) : Prop where
  eventReg : c'.eventReg = c.eventReg
  monitor : c'.monitor = c.monitor

namespace SameSignals

theorem refl (c : Cpu) : c.SameSignals c := ⟨rfl, rfl⟩

theorem trans {a b c : Cpu} (h : a.SameSignals b) (h' : b.SameSignals c) : a.SameSignals c :=
  ⟨h'.eventReg.trans h.eventReg, h'.monitor.trans h.monitor⟩

end SameSignals

theorem initMspTop_sameSignals (c : Cpu) (sec : SecState) (v : Word) :
    c.SameSignals (c.initMspTop sec v) := by
  simp only [initMspTop]
  split <;> exact ⟨rfl, rfl⟩

theorem updateMspMin_sameSignals (c : Cpu) (sec : SecState) (v : Word) :
    c.SameSignals (c.updateMspMin sec v) := by
  simp only [updateMspMin]
  split <;> exact ⟨rfl, rfl⟩

theorem setActiveSp_sameSignals (c : Cpu) (v : Word) : c.SameSignals (c.setActiveSp v) := by
  obtain ⟨top, low, valid, eq⟩ := c.exists_setActiveSp_eq v
  rw [eq]
  exact ⟨rfl, rfl⟩

theorem tzNoteNsMspTop_sameSignals (c : Cpu) : c.SameSignals c.tzNoteNsMspTop := by
  simp only [tzNoteNsMspTop]
  split
  · exact c.initMspTop_sameSignals _ _
  · exact .refl c

theorem tzExecSg_sameSignals (c : Cpu) : c.SameSignals c.tzExecSg := by
  simp only [tzExecSg]
  split
  · have secure : c.SameSignals { c with secState := .secure } := ⟨rfl, rfl⟩
    exact secure.trans (setActiveSp_sameSignals _ _)
  · exact .refl c

theorem enterNs_sameSignals (c : Cpu) : c.SameSignals c.tzNoteNsMspTop.tzSyncR13FromActiveSp :=
  c.tzNoteNsMspTop_sameSignals.trans (setActiveSp_sameSignals _ _)

theorem tzExecBxns_sameSignals (c : Cpu) (target : Word) :
    c.SameSignals (c.tzExecBxns target) := by
  have entered := enterNs_sameSignals { c with secState := .nonsecure }
  exact ⟨entered.eventReg, entered.monitor⟩

theorem tzExecBlxns_sameSignals (c : Cpu) (target returnAddr : Word) :
    c.SameSignals (c.tzExecBlxns target returnAddr) := by
  have called : c.SameSignals
      { ({ c with tz := c.tz.push ⟨returnAddr ||| 1, c.secState, c.mode⟩ }.setReg 14
        tzRetLrSentinel) with secState := .nonsecure } := ⟨rfl, rfl⟩
  have entered := called.trans (enterNs_sameSignals _)
  exact ⟨entered.eventReg, entered.monitor⟩

theorem setMsp_sameSignals (c : Cpu) (sec : SecState) (v : Word) :
    c.SameSignals (c.setMsp sec v) := by
  have msp : c.SameSignals { c with msp := c.msp.set sec v } := ⟨rfl, rfl⟩
  simp only [setMsp]
  refine .trans ?_ (updateMspMin_sameSignals _ _ _)
  cases sec with
  | nonsecure => exact msp
  | secure => exact msp.trans (initMspTop_sameSignals _ _ _)

theorem execMsr_sameSignals (c : Cpu) (d : Decoded) : c.SameSignals (c.execMsr d) := by
  simp only [execMsr]
  split
  · simp only [writeSpecial]
    split
    case h_1 | h_5 => exact setMsp_sameSignals c _ _
    all_goals exact ⟨rfl, rfl⟩
  split <;> exact ⟨rfl, rfl⟩

theorem execCps_sameSignals (c : Cpu) (d : Decoded) : c.SameSignals (c.execCps d) := by
  simp only [execCps]
  split <;> exact ⟨rfl, rfl⟩

end Cpu

def Event.clearsEvent : Event → Bool
  | .enter num _ _ _ => num != Vect.hardfault && num != Vect.usagefault
  | _ => false

namespace Sys

variable {δ : Type u} (env : Env δ)

/-- The monitor stays, and the event register too unless one of the events since then clears
it. -/
def Signals (s s' : Sys δ) : Prop :=
  s'.cpu.monitor = s.cpu.monitor ∧
    ∃ es, s'.trace = es ++ s.trace ∧
      (s'.cpu.eventReg = s.cpu.eventReg ∨ es.any Event.clearsEvent = true)

variable {env}

theorem Signals.of_same {s s' : Sys δ} (cpu : s.cpu.SameSignals s'.cpu)
    (trace : s'.trace = s.trace) : s.Signals s' :=
  ⟨cpu.monitor, [], trace, .inl cpu.eventReg⟩

theorem Signals.of_event {s s' : Sys δ} {e : Event} (cpu : s.cpu.SameSignals s'.cpu)
    (trace : s'.trace = e :: s.trace) : s.Signals s' :=
  ⟨cpu.monitor, [e], trace, .inl cpu.eventReg⟩

/-- A set event register stays set unless one of the events since then clears it. -/
def KeepsEvent (s s' : Sys δ) : Prop :=
  ∃ es, s'.trace = es ++ s.trace ∧
    (s.cpu.eventReg = true → s'.cpu.eventReg = true ∨ es.any Event.clearsEvent = true)

theorem KeepsEvent.refl (s : Sys δ) : s.KeepsEvent s := ⟨[], rfl, .inl⟩

theorem KeepsEvent.trans {a b c : Sys δ} (h : a.KeepsEvent b) (h' : b.KeepsEvent c) :
    a.KeepsEvent c := by
  obtain ⟨es, trace, kept⟩ := h
  obtain ⟨es', trace', kept'⟩ := h'
  refine ⟨es' ++ es, by rw [trace', trace, List.append_assoc], fun set => ?_⟩
  simp only [List.any_append, Bool.or_eq_true]
  rcases kept set with kept | cleared
  · exact (kept' kept).imp_right .inl
  · exact .inr (.inr cleared)

theorem Signals.keepsEvent {s s' : Sys δ} (h : s.Signals s') : s.KeepsEvent s' := by
  obtain ⟨-, es, trace, kept⟩ := h
  exact ⟨es, trace, fun set => kept.imp_left (·.trans set)⟩

theorem Signals.refl (s : Sys δ) : s.Signals s := .of_same (.refl _) rfl

theorem Signals.trans {a b c : Sys δ} (h : a.Signals b) (h' : b.Signals c) : a.Signals c := by
  obtain ⟨monitor, es, trace, kept⟩ := h
  obtain ⟨monitor', es', trace', kept'⟩ := h'
  refine ⟨monitor'.trans monitor, es' ++ es, by rw [trace', trace, List.append_assoc], ?_⟩
  simp only [List.any_append, Bool.or_eq_true]
  rcases kept with kept | cleared
  · exact kept'.imp (·.trans kept) .inl
  · exact .inr (.inr cleared)

theorem enter_signals (s : Sys δ) (num returnPc xpsrIn xpsr handler : Word) (sec : SecState) :
    s.Signals (s.enter env num returnPc xpsrIn xpsr handler sec).2 := by
  simp only [enter]
  split
  · exact .of_event ⟨rfl, rfl⟩ rfl
  · exact .of_same (.refl _) rfl

theorem raiseHardFault_signals (s : Sys δ) (faultPc faultXpsr : Word) :
    s.Signals (s.raiseHardFault env faultPc faultXpsr).2 := by
  simp only [raiseHardFault]
  exact enter_signals { s with world := _ } _ _ _ _ _ _

theorem raiseUsageFault_signals (s : Sys δ) (faultPc faultXpsr ufsrBits : Word) :
    s.Signals (s.raiseUsageFault env faultPc faultXpsr ufsrBits).2 := by
  simp only [raiseUsageFault]
  split
  · exact .of_same (.refl _) rfl
  · exact enter_signals { s with world := _ } _ _ _ _ _ _

theorem enterExceptionEx_signals (s : Sys δ) {num : Word} (returnPc xpsrIn : Word) (sec : SecState)
    (clears : (num != Vect.hardfault && num != Vect.usagefault) = true) :
    s.Signals (s.enterExceptionEx env num returnPc xpsrIn sec).2 := by
  simp only [enterExceptionEx, enter]
  split
  · refine ⟨rfl, [_], rfl, .inr ?_⟩
    simpa [Event.clearsEvent] using clears
  · exact .of_same (.refl _) rfl

theorem raiseMemFault_signals (s : Sys δ) (faultPc faultXpsr addr : Word) (isExec : Bool) :
    s.Signals (s.raiseMemFault env faultPc faultXpsr addr isExec).2 := by
  have securefault (w : World δ) : s.Signals
      ({ s with world := w }.enterExceptionEx env Vect.securefault faultPc faultXpsr .secure).2 :=
    enterExceptionEx_signals { s with world := w } _ _ _ (by decide)
  have memmanage (w : World δ) : s.Signals
      ({ s with world := w }.enterException env Vect.memmanage faultPc faultXpsr).2 :=
    enterExceptionEx_signals { s with world := w } _ _ _ (by decide)
  have hardfault (w : World δ) :
      s.Signals ({ s with world := w }.raiseHardFault env faultPc faultXpsr).2 :=
    raiseHardFault_signals { s with world := w } _ _
  simp only [raiseMemFault]
  split
  · exact securefault _
  split
  · exact memmanage _
  · exact hardfault _

end Sys

namespace Machine

variable {δ : Type u} {env : Env δ} {decode32 : Word → Decoded} {f : FetchResult} {d : Decoded}

abbrev Signals (m m' : Machine δ) : Prop := m.toSys.Signals m'.toSys

theorem Signals.of_cpu {m : Machine δ} {c : Cpu} (h : m.cpu.SameSignals c) :
    m.Signals { m with cpu := c } := Sys.Signals.of_same h rfl

theorem excReturn_signals (m : Machine δ) (excRet : Word) :
    m.Signals (m.excReturn env excRet) := by
  cases ok : (m.toSys.excReturnUnstack env excRet).1 with
  | true =>
    obtain ⟨info, frame, w, -, eq⟩ := excReturn_of_ok env ok
    rw [eq]
    exact Sys.Signals.of_event ⟨rfl, rfl⟩ rfl
  | false =>
    simp only [excReturn, ok, afterCall, Signals]
    simp only [Sys.excReturnUnstack] at ok ⊢
    split at ok
    · exact .of_same (.refl _) rfl
    · split at ok
      · cases ok
      · exact .of_same ⟨rfl, rfl⟩ rfl

inductive Touches (d : Decoded) (c c' : Cpu) : Prop
  | wfe (kind : d.kind = .wfe) (monitor : c'.monitor = c.monitor)
  | sev (kind : d.kind = .sev) (set : c'.eventReg = true) (monitor : c'.monitor = c.monitor)
  | excl (kind : d.kind = .ldrex ∨ d.kind = .clrex ∨ d.kind = .strex)
    (eventReg : c'.eventReg = c.eventReg)

theorem Micro.signals {m m' : Machine δ} (h : Micro env f d m m') :
    m.Signals m' ∨ m'.trace = m.trace ∧ Touches d m.cpu m'.cpu := by
  have fault (w : World δ) (addr : Word) (isExec : Bool) :
      m.Signals ((m.withWorld w).memFault env f addr isExec) :=
    Sys.raiseMemFault_signals { m.toSys with world := w } _ _ _ _
  cases h with
  | wfe kind =>
    refine .inr ⟨rfl, .wfe kind ?_⟩
    simp only [Cpu.execWfe]
    split <;> rfl
  | sev kind => exact .inr ⟨rfl, .sev kind rfl rfl⟩
  | exclSet kind => exact .inr ⟨rfl, .excl (.inl kind) rfl⟩
  | exclClear kind => exact .inr ⟨rfl, .excl (.inr kind) rfl⟩
  | reg | data | it | wfi => exact .inl (.of_cpu ⟨rfl, rfl⟩)
  | cps => exact .inl (.of_cpu (m.cpu.execCps_sameSignals d))
  | offer | stop | read | read8 | write => exact .inl (Sys.Signals.of_same (.refl _) rfl)
  | sp v => exact .inl (.of_cpu (m.cpu.setActiveSp_sameSignals v))
  | readRefused addr _ isExec => exact .inl (fault _ addr isExec)
  | read8Refused addr | writeRefused addr => exact .inl (fault _ addr false)
  | usageFault ufsrBits => exact .inl (Sys.raiseUsageFault_signals _ _ _ _)
  | svc => exact .inl (Sys.enterExceptionEx_signals m.toSys _ _ _ (by decide))
  | excReturn excRet => exact .inl (excReturn_signals m excRet)
  | sg => exact .inl (Sys.Signals.of_event m.cpu.tzExecSg_sameSignals rfl)
  | bxns _ target => exact .inl (.of_cpu (m.cpu.tzExecBxns_sameSignals target))
  | blxns => exact .inl (Sys.Signals.of_event (m.cpu.tzExecBlxns_sameSignals _ _) rfl)
  | tzReturn => exact .inl (Sys.Signals.of_event ⟨rfl, rfl⟩ rfl)
  | msr => exact .inl (.of_cpu (m.cpu.execMsr_sameSignals d))

abbrev KeepsEvent (m m' : Machine δ) : Prop := m.toSys.KeepsEvent m'.toSys

theorem Micro.keepsEvent {m m' : Machine δ} (h : Micro env f d m m') (wfe : d.kind ≠ .wfe) :
    m.KeepsEvent m' := by
  rcases h.signals with signals | ⟨trace, touches⟩
  · exact signals.keepsEvent
  · refine ⟨[], trace, fun set => .inl ?_⟩
    cases touches with
    | wfe kind => exact absurd kind wfe
    | sev _ set' => exact set'
    | excl _ same => exact same.trans set

theorem Steps.keepsEvent {m m' : Machine δ} (h : Steps env f d m m') (wfe : d.kind ≠ .wfe) :
    m.KeepsEvent m' := by
  induction h with
  | refl => exact .refl _
  | tail _ step ih => exact ih.trans (step.keepsEvent wfe)

theorem Steps.monitor {m m' : Machine δ} (h : Steps env f d m m')
    (excl : ¬ (d.kind = .ldrex ∨ d.kind = .clrex ∨ d.kind = .strex)) :
    m'.cpu.monitor = m.cpu.monitor := by
  refine h.eq_of_same (F := fun a => a.cpu.monitor) fun step => ?_
  rcases step.signals with signals | ⟨-, touches⟩
  · exact signals.1
  · cases touches with
    | wfe _ same => exact same
    | sev _ _ same => exact same
    | excl kind => exact absurd kind excl

theorem ready_signals (h : Host δ) (m : Machine δ) : m.Signals (m.ready env h).2 := by
  obtain ⟨r, cpu⟩ := m.ready_cpu env h
  exact .of_same (cpu ▸ ⟨rfl, rfl⟩) (ready_quiet env h m).trace

theorem afterExecute_signals (h : Host δ) (d : Decoded) (o : Outcome δ) :
    o.2.Signals (afterExecute h d o) := by
  obtain ⟨xpsr, cpu⟩ := afterExecute_cpu h d o
  exact .of_same (cpu ▸ ⟨rfl, rfl⟩) (afterExecute_trace h d o)

theorem pending_cpu {m m' : Machine δ} {num : Word} {sec : SecState}
    (accepted : m.pending = some (num, sec, m')) : m'.cpu = m.cpu ∧ m'.trace = m.trace := by
  simp only [pending] at accepted
  split at accepted
  · cases accepted
    exact ⟨rfl, rfl⟩
  split at accepted
  · cases accepted
    exact ⟨rfl, rfl⟩
  · simp only [Option.map_eq_some_iff, Prod.mk.injEq] at accepted
    obtain ⟨⟨irq, sec'⟩, -, -, -, rfl⟩ := accepted
    exact ⟨rfl, rfl⟩

theorem le_of_pending {m m' : Machine δ} {num : Word} {sec : SecState}
    (accepted : m.pending = some (num, sec, m')) : 14 ≤ num := by
  simp only [pending] at accepted
  split at accepted
  · cases accepted
    decide
  split at accepted
  · cases accepted
    decide
  · simp only [Option.map_eq_some_iff, Prod.mk.injEq] at accepted
    obtain ⟨⟨irq, sec'⟩, -, rfl, -, -⟩ := accepted
    have bound : irq.val < 128 := irq.isLt
    change (14#32).toNat ≤ (16#32 + BitVec.ofNat 32 irq.val).toNat
    simp only [BitVec.toNat_add, BitVec.toNat_ofNat]
    omega

theorem dispatch_signals {m a : Machine δ} {num : Word} {sec : SecState}
    (accepted : m.pending = some (num, sec, a)) : m.Signals (a.dispatch env num sec) := by
  obtain ⟨cpu, trace⟩ := pending_cpu accepted
  have clears : (num != Vect.hardfault && num != Vect.usagefault) = true := by
    have above := le_of_pending accepted
    have apart : ∀ n : Word, n < 14 → num ≠ n := fun n less eq =>
      absurd (eq ▸ above) (BitVec.not_le.mpr less)
    simp [apart Vect.hardfault (by decide), apart Vect.usagefault (by decide)]
  have same : m.Signals a := .of_same (cpu ▸ .refl _) trace
  refine same.trans ?_
  have entered : a.toSys.Signals (a.toSys.enterExceptionEx env num (a.cpu.r 15 &&& ~~~1#32)
    a.cpu.xpsr sec).2 := Sys.enterExceptionEx_signals _ _ _ _ clears
  simp only [dispatch]
  split <;> exact entered

variable (env decode32) in
/-- A pass that executes nothing leaves the event register and the monitor alone once it is awake,
but for the exceptions it enters. -/
theorem mainPass_signals (m : Machine δ) (h : Host δ) :
    (m.attend h).1.Signals (m.mainPass env decode32 h) ∨
      ∃ f d a, m.executed env decode32 h = some (f, d, a) ∧ (m.attend h).1.Signals a ∧
        Steps env f d a (executeDecoded env f d a).2 ∧
          (executeDecoded env f d a).2.Signals (m.mainPass env decode32 h) := by
  have ready : (m.attend h).1.Signals ((m.attend h).1.ready env h).2 := ready_signals h _
  have passes : Passes env decode32 m h (m.mainPass env decode32 h) := mainPass_passes m h
  generalize m.mainPass env decode32 h = m' at passes ⊢
  cases passes with
  | ends => exact .inl (.refl _)
  | dispatches _ accepted => exact .inl (dispatch_signals accepted)
  | fetchFaults _ _ fetched =>
    rw [fetched] at ready
    exact .inl (ready.trans (Sys.raiseMemFault_signals _ _ _ _ _))
  | undefined _ _ fetched =>
    rw [fetched] at ready
    exact .inl (ready.trans (Sys.raiseUsageFault_signals _ _ _ _))
  | skips _ _ fetched =>
    rw [fetched] at ready
    exact .inl (ready.trans (.of_same ⟨rfl, rfl⟩ rfl))
  | @executes f d a executed =>
    obtain ⟨-, -, fetched, -⟩ := executed_eq_some.mp executed
    rw [fetched] at ready
    exact .inr ⟨f, d, a, executed, ready, executeDecoded_steps a, afterExecute_signals h d _⟩

theorem mainPass_keepsEvent {m : Machine δ} {h : Host δ}
    (wfe : ¬ m.Executes env decode32 h .wfe) :
    (m.attend h).1.KeepsEvent (m.mainPass env decode32 h) := by
  rcases mainPass_signals env decode32 m h with
    signals | ⟨f, d, a, executed, before, steps, after⟩
  · exact signals.keepsEvent
  · have kind : d.kind ≠ .wfe := fun is => wfe (is ▸ executes_of_executed executed)
    exact (before.keepsEvent.trans (steps.keepsEvent kind)).trans after.keepsEvent

end Machine

end M33mu
