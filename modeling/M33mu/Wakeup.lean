import M33mu.Board
import M33mu.Lib.Run
import M33mu.NvicSelect
import M33mu.Signals

namespace M33mu.Machine

open Lib

variable {δ : Type u}

def Running (m : Machine δ) : Prop :=
  m.done = false ∧ m.resetAgain = false ∧ m.world.faultPending = false

def WakeupPending (m : Machine δ) : Prop :=
  m.world.scs.pendSt = true ∨ m.world.scs.pendSv = true ∨ ∃ irq, m.world.nvic.Ready irq

def Wakes (m : Machine δ) : Input δ → Prop
  | .pass h => m.Running → m.cpu.sleeping = true → m.WakeupPending →
    (m.attend h).1.cpu.sleeping = false ∧ ((m.attend h).2 = true ∨ (m.attend h).1.resetAgain = true)
  | .restart _ _ => True

def fastForward (m : Machine δ) (h : Host δ) : Option (World δ) :=
  m.world.scs.systickCyclesUntilFire.map fun delta =>
    h.tick { m.world with scs := m.world.scs.systickAdvance delta }

def Idles (m : Machine δ) : Prop :=
  m.Running ∧ m.cpu.sleeping = true ∧ m.cpu.eventReg = false ∧ m.world.scs.pendSt = false ∧
    m.world.scs.pendSv = false ∧ (m.world.nvic.selectRouted m.cpu).isSome = false

/-- An event, a pending system exception, an interrupt that PRIMASK lets through, or one of the
system exceptions by the time of the next `SysTick`. -/
def Rouses (m : Machine δ) (h : Host δ) : Prop :=
  m.cpu.eventReg = true ∨ m.world.scs.pendSt = true ∨ m.world.scs.pendSv = true ∨
    (∃ irq, m.world.nvic.candidate m.cpu irq = true) ∨
    ∃ w ∈ m.fastForward h, w.scs.pendSt = true ∨ w.scs.pendSv = true

def NotMaskedAsleep (m : Machine δ) : Input δ → Prop
  | .pass h => m.Running → m.cpu.sleeping = true → m.WakeupPending → m.Rouses h
  | .restart _ _ => True

theorem attend_of_not_running {m : Machine δ} (stopped : ¬ m.Running) (h : Host δ) :
    (m.attend h).2 = false ∧ (m.attend h).1.cpu = m.cpu := by
  simp only [attend]
  split
  · exact ⟨rfl, rfl⟩
  rename_i looping
  simp only [Bool.or_eq_true, not_or, Bool.not_eq_true] at looping
  split
  · exact ⟨rfl, rfl⟩
  · rename_i fault
    exact absurd ⟨looping.1, looping.2, by simpa using fault⟩ stopped

theorem attend_of_awake {m : Machine δ} (running : m.Running) (awake : m.cpu.sleeping = false)
    (h : Host δ) : m.attend h = (m, true) := by
  obtain ⟨going, again, fault⟩ := running
  simp [attend, going, again, fault, awake]

theorem attend_world_of_not_idles {m : Machine δ} (busy : ¬ m.Idles) (h : Host δ) :
    (m.attend h).1.world = m.world := by
  simp only [attend]
  split
  · rfl
  rename_i looping
  split
  · rfl
  rename_i fault
  split
  · rfl
  rename_i asleep
  split
  · rfl
  · rename_i quiet
    simp only [Bool.or_eq_true, not_or, Bool.not_eq_true, Bool.not_eq_eq_eq_not, Bool.not_true,
      Bool.not_eq_false] at looping fault asleep quiet
    obtain ⟨⟨⟨event, st⟩, sv⟩, irq⟩ := quiet
    exact absurd ⟨⟨looping.1, looping.2, fault⟩, asleep, event, st, sv, irq⟩ busy

theorem attend_of_idles {m : Machine δ} (idles : m.Idles) (h : Host δ) :
    m.attend h = match m.fastForward h with
      | none => (m.endPass h, false)
      | some w =>
        let a := if w.scs.pendSt || w.scs.pendSv then (m.withWorld w).wake else m.withWorld w
        (a.endPass h, !((a.endPass h).resetAgain || (a.endPass h).cpu.sleeping)) := by
  obtain ⟨⟨going, again, fault⟩, asleep, event, st, sv, irq⟩ := idles
  simp only [attend, going, again, fault, asleep, event, st, sv, irq, Bool.or_false,
    Bool.false_eq_true, if_false, Bool.not_true, fastForward]
  cases m.world.scs.systickCyclesUntilFire <;> rfl

theorem attend_wakes_iff {m : Machine δ} {h : Host δ} (running : m.Running)
    (asleep : m.cpu.sleeping = true) :
    ((m.attend h).1.cpu.sleeping = false ∧
      ((m.attend h).2 = true ∨ (m.attend h).1.resetAgain = true)) ↔ m.Rouses h := by
  obtain ⟨going, again, fault⟩ := running
  simp only [attend, going, again, fault, asleep, Bool.or_false, Bool.false_eq_true, if_false,
    Bool.not_true, Rouses, fastForward, Bool.or_eq_true, Nvic.selectRouted_isSome_iff]
  split
  · rename_i rouses
    have woken : m.wake.cpu.sleeping = false := rfl
    simp only [woken, true_or, true_and, true_iff]
    tauto
  · rename_i quiet
    simp only [not_or] at quiet
    split
    · rename_i off
      simp [quiet, off, endPass_cpu, asleep]
    · rename_i delta on
      simp only [quiet, on, false_or, Option.map_some, Option.mem_def, Option.some.injEq,
        exists_eq_left', endPass_cpu]
      split
      · rename_i fires
        refine ⟨fun _ => by simpa [withWorld] using fires, fun _ => ⟨rfl, ?_⟩⟩
        cases Machine.resetAgain _ <;> simp [wake]
      · rename_i no
        simp only [withWorld, asleep] at no ⊢
        simpa using no

theorem along_wakes_iff {env : Env δ} {decode32 : Word → Decoded} {m : Machine δ}
    {is : List (Input δ)} :
    Along (loopStep env decode32) Wakes m is ↔
      Along (loopStep env decode32) NotMaskedAsleep m is :=
  along_congr (H := fun _ _ => True) (fun _ i _ => match i with
    | .pass _ => forall_congr' fun running => forall_congr' fun asleep =>
      forall_congr' fun _ => attend_wakes_iff running asleep
    | .restart _ _ => Iff.rfl) (along_of_forall fun _ _ => trivial)

section Event

variable (env : Env δ) (decode32 : Word → Decoded)

/-- A set event stays set in a pass that executes no `WFE`. -/
def HoldsEvent (m : Machine δ) : Input δ → Prop
  | .pass h => m.cpu.eventReg = true → ¬ m.Executes env decode32 h .wfe →
    (m.mainPass env decode32 h).cpu.eventReg = true
  | .restart _ _ => True

/-- Neither a `WFE` nor a reset. -/
def LeavesEvent (m : Machine δ) : Input δ → Prop
  | .pass h => ¬ m.Executes env decode32 h .wfe
  | .restart _ _ => m.resetAgain = false

/-- A `WFE` after an `SEV`, with no other `WFE` and no reset in between, does not sleep. -/
def SevLasts (m : Machine δ) (is : List (Input δ)) : Prop :=
  ∀ before sev between wfe after,
    is = before ++ .pass sev :: (between ++ .pass wfe :: after) →
    let a := run (loopStep env decode32) m before
    let b := run (loopStep env decode32) (a.mainPass env decode32 sev) between
    a.Executes env decode32 sev .sev →
      Along (loopStep env decode32) (LeavesEvent env decode32) (a.mainPass env decode32 sev) between →
        b.Executes env decode32 wfe .wfe → (b.mainPass env decode32 wfe).cpu.sleeping = false

/-- While an event is set, the CPU is not put to sleep and no exception but HardFault and UsageFault
is entered. -/
def SparesEvent (m : Machine δ) : Input δ → Prop
  | .pass h => m.cpu.eventReg = true → (m.Running → m.cpu.sleeping = false) ∧
    (m.since (m.mainPass env decode32 h)).any Event.clearsEvent = false
  | .restart _ _ => True

instance (m : Machine δ) : Decidable m.Running := inferInstanceAs (Decidable (_ ∧ _))

instance (m : Machine δ) : (i : Input δ) → Decidable (SparesEvent env decode32 m i)
  | .pass _ => inferInstanceAs (Decidable (_ → _))
  | .restart _ _ => isTrue trivial

instance (m : Machine δ) : (i : Input δ) → Decidable (LeavesEvent env decode32 m i)
  | .pass h => inferInstanceAs (Decidable (¬ m.Executes env decode32 h .wfe))
  | .restart _ _ => inferInstanceAs (Decidable (_ = _))

variable {env decode32}

theorem attend_cpu_of_spares {m : Machine δ} {h : Host δ}
    (awake : m.Running → m.cpu.sleeping = false) :
    (m.attend h).1.cpu = m.cpu ∧ (m.attend h).1.trace = m.trace := by
  refine ⟨?_, (attend_quiet h m).trace⟩
  by_cases running : m.Running
  · rw [attend_of_awake running (awake running)]
  · exact (attend_of_not_running running h).2

theorem holdsEvent_of_spares (m : Machine δ) (i : Input δ) (spares : SparesEvent env decode32 m i) :
    HoldsEvent env decode32 m i := by
  cases i with
  | restart => trivial
  | pass h =>
    intro set noWfe
    obtain ⟨awake, clears⟩ := spares set
    obtain ⟨cpu, trace⟩ := attend_cpu_of_spares (h := h) awake
    obtain ⟨es, trace', kept⟩ := mainPass_keepsEvent noWfe
    rw [since_of_trace (trace'.trans (congrArg _ trace))] at clears
    exact (kept (cpu ▸ set)).resolve_right (by simp [clears])

theorem eventReg_of_sev {m : Machine δ} {h : Host δ} (sev : m.Executes env decode32 h .sev) :
    (m.mainPass env decode32 h).cpu.eventReg = true := by
  obtain ⟨f, d, a, executed, kind⟩ := exists_executed sev
  obtain ⟨xpsr, cpu⟩ := afterExecute_cpu h d (executeDecoded env f d a)
  rw [mainPass_of_executed executed, cpu]
  simp only [executeDecoded, kind]

theorem sleeping_of_wfe {m : Machine δ} {h : Host δ} (set : m.cpu.eventReg = true)
    (spares : SparesEvent env decode32 m (.pass h)) (wfe : m.Executes env decode32 h .wfe) :
    (m.mainPass env decode32 h).cpu.sleeping = false := by
  obtain ⟨f, d, a, executed, kind⟩ := exists_executed wfe
  obtain ⟨goesOn, -, fetched, -⟩ := executed_eq_some.mp executed
  have running : m.Running := Classical.byContradiction fun stopped =>
    absurd ((attend_of_not_running stopped h).1.symm.trans goesOn) nofun
  have awake := (spares set).1 running
  rw [attend_of_awake running awake h] at fetched
  obtain ⟨r, same⟩ := m.ready_cpu env h
  rw [fetched] at same
  obtain ⟨xpsr, cpu⟩ := afterExecute_cpu h d (executeDecoded env f d a)
  rw [mainPass_of_executed executed, cpu]
  simp only [executeDecoded, kind, Cpu.execWfe, show a.cpu = _ from same, set, awake, if_true]

theorem sevLasts_of_spares {m : Machine δ} {is : List (Input δ)}
    (spares : Along (loopStep env decode32) (SparesEvent env decode32) m is) :
    SevLasts env decode32 m is := by
  rintro before sev between wfe after rfl a b hsev leaves hwfe
  have rest := (along_append.mp spares).2.2
  have between' := (along_append.mp rest).1.and leaves
  have set : (run (loopStep env decode32) (a.mainPass env decode32 sev) between).cpu.eventReg =
      true := by
    refine (throughout_of_along (Q := fun m => m.cpu.eventReg = true) ?_ (eventReg_of_sev hsev)
      between').last
    rintro m i set ⟨spares, leaves⟩
    cases i with
    | pass h => exact holdsEvent_of_spares m (.pass h) spares set leaves
    | restart vtor w =>
      rw [loopStep, restart_of_not_resetAgain env leaves]
      exact set
  exact sleeping_of_wfe set (along_append.mp rest).2.1 hwfe

/-- A pass wakes the sleeping CPU exactly where PRIMASK does not hold back all that is pending, and
where no exception takes it away, an event lasts until a `WFE` consumes it. -/
theorem wakes_and_holds_event (m : Machine δ) (is : List (Input δ)) :
    (Along (loopStep env decode32) Wakes m is ↔
      Along (loopStep env decode32) NotMaskedAsleep m is) ∧
    (Along (loopStep env decode32) (SparesEvent env decode32) m is →
      Along (loopStep env decode32) (HoldsEvent env decode32) m is ∧ SevLasts env decode32 m is) :=
  ⟨along_wakes_iff, fun spares => ⟨spares.imp holdsEvent_of_spares, sevLasts_of_spares spares⟩⟩

end Event

def quietPass : Input Unit := .pass ⟨id, id⟩

def irqPass : Input Unit := .pass ⟨fun w => { w with nvic := w.nvic.setPending ⟨0, maxIrq_pos⟩ true }, id⟩

/-- `SEV`, `NOP`, `WFE`. -/
def sevWfe : World Unit :=
  Board.flashed [(0x00, 0x20008000), (0x04, 0x101), (0x100, 0xBF00BF40), (0x104, 0xBF00BF20)]

theorem wakes_and_holds_event_sevWfe :
    SevLasts Board.env Board.decode32 (start Board.env Board.cpu (.both 0) sevWfe)
      [quietPass, quietPass, quietPass] :=
  ((wakes_and_holds_event _ _).2 (by decide +kernel)).2

/-- Enables interrupt 0, then `CPSID i` and `WFI`. -/
def ticklessIdle : World Unit :=
  Board.flashed [(0x00, 0x20008000), (0x04, 0x101), (0x100, 0x21014803), (0x104, 0xB6726001),
    (0x108, 0xBF00BF30), (0x110, 0xE000E100)]

/-- `SEV` and `SVC`, whose handler is a `WFE`. -/
def sevSvc : World Unit :=
  Board.flashed [(0x00, 0x20008000), (0x04, 0x101), (0x2C, 0x201), (0x100, 0xDF00BF40),
    (0x200, 0xBF00BF20)]

theorem ticklessIdle_sleeps_on :
    (¬ ∀ (w : World Unit) (is : List (Input Unit)), Along (loopStep Board.scsEnv Board.decode32)
      Wakes (start Board.scsEnv Board.cpu (.both 0) w) is) ∧
    ¬ ∀ (w : World Unit) (is : List (Input Unit)),
      SevLasts Board.scsEnv Board.decode32 (start Board.scsEnv Board.cpu (.both 0) w) is := by
  constructor
  · intro h
    have along := h ticklessIdle ([quietPass, quietPass, quietPass, quietPass, irqPass] ++
      [quietPass])
    have woken := (along_append.mp along).2.1 (by decide +kernel) (by decide +kernel)
      (.inr (.inr ⟨⟨0, by decide⟩, by decide +kernel⟩))
    exact absurd woken.1 (by decide +kernel)
  · intro h
    have awake := h sevSvc [quietPass, quietPass, quietPass] [] _ [quietPass] _ [] rfl
      (by decide +kernel) ⟨by decide +kernel, trivial⟩ (by decide +kernel)
    exact absurd awake (by decide +kernel)

end M33mu.Machine
