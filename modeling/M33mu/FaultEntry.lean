import M33mu.Board
import M33mu.FaultStatus

namespace M33mu

variable {δ : Type u}

namespace World

def forced (w : World δ) : Bool := w.scs.hfsr.getLsbD 30

end World

def Env.ReadsKeepForced (env : Env δ) : Prop :=
  ∀ r ∈ env.mmio, ∀ offset size (w : World δ), (r.read offset size w).2.forced = w.forced

theorem ScsBlock.scsRead_hfsr (b : ScsBlock) (win : SecState) (offset size : Word) :
    (b.scsRead win offset size).2.scs.hfsr = b.scs.hfsr := by
  simp only [scsRead]
  split
  · rfl
  split
  · split
    · rename_i reg _
      cases reg <;> rfl
    · rfl
  · rfl

theorem scsEnv_readsKeepForced : Board.scsEnv.ReadsKeepForced := by
  intro r mem offset size w
  simp only [Board.scsEnv, World.scsRegions, List.mem_cons, List.not_mem_nil, or_false] at mem
  rcases mem with rfl | rfl <;>
    exact congrArg (fun v : Word => v.getLsbD 30) (w.toScsBlock.scsRead_hfsr _ offset size)

namespace World

theorem interceptOk_forced (env : Env δ) (w : World δ) (type : AccessType) (sec : SecState)
    (addr size : Word) : (w.interceptOk env type sec addr size).2.forced = w.forced := by
  simp only [interceptOk, Prot.interceptor]
  repeat' split
  all_goals rfl

variable {env : Env δ}

theorem read_forced (keeps : env.ReadsKeepForced) (w : World δ) (sec : SecState)
    (addr size : Word) :
    (w.read env sec addr size).2.forced = w.forced := by
  have verdict := w.interceptOk_forced env .read sec addr size
  simp only [World.read]
  split
  · exact verdict
  split
  · exact verdict
  · refine Eq.trans ?_ verdict
    simp only [busRead]
    split
    · rename_i r found
      exact keeps r (exists_region found) _ _ _
    · rfl

theorem exceptionReadHandler_forced (keeps : env.ReadsKeepForced) (w : World δ) (sec : SecState)
    (index : Word) :
    (w.exceptionReadHandler env sec index).2.forced = w.forced := by
  have vector := read_forced keeps w sec (w.scs.vtor.get sec + index * 4) 4
  simp only [exceptionReadHandler, vectorRead]
  generalize w.read env sec _ 4 = r at vector ⊢
  obtain ⟨v, w'⟩ := r
  cases v with
  | some handler => exact vector
  | none =>
    simp only
    split
    · split <;> exact vector
    · exact vector

theorem noteQuit_forced (w : World δ) : (w.noteQuit env).forced = w.forced := by
  simp only [noteQuit]
  split <;> rfl

end World

namespace Sys

variable (env : Env δ)

/-- The outcomes of taking the exception `num` into the security state of `s`, the frame being
pushed in a world with `P`: the handler is entered, or a word could not be stacked and the CPU is
as before. -/
inductive Taken (s : Sys δ) (num returnPc xpsrIn : Word) (P : World δ → Prop) :
    Bool × Sys δ → Prop
  | entered {w w' : World δ} {sp : Word} {c : Cpu} (before : P w)
    (pushed : w.pushFrame env s.cpu.secState (s.cpu.bankSp s.cpu.secState s.cpu.usePspEntry)
      (s.cpu.frame returnPc xpsrIn) = (some sp, w'))
    (handler : s.cpu.Entered c num xpsrIn s.cpu.secState) :
    Taken s num returnPc xpsrIn P
      (true, ⟨c, w', .enter num s.cpu.secState s.cpu.secState (xpsrIn ||| 0x01000000) :: s.trace⟩)
  | unstacked {w w' : World δ} (before : P w)
    (pushed : w.pushFrame env s.cpu.secState (s.cpu.bankSp s.cpu.secState s.cpu.usePspEntry)
      (s.cpu.frame returnPc xpsrIn) = (none, w')) :
    Taken s num returnPc xpsrIn P (false, ⟨s.cpu, w', s.trace⟩)

variable {env} {s : Sys δ} {returnPc xpsrIn : Word} {P : World δ → Prop}

theorem Taken.of_world {num : Word} {w : World δ} {r : Bool × Sys δ}
    (h : Taken env { s with world := w } num returnPc xpsrIn P r) :
    Taken env s num returnPc xpsrIn P r := by
  cases h with
  | entered before pushed handler => exact .entered before pushed handler
  | unstacked before pushed => exact .unstacked before pushed

theorem enter_taken {num xpsr handler : Word} {w : World δ} (before : P w)
    (h : xpsr = (xpsrIn &&& 0xF8000000) ||| 0x01000000 ||| (num &&& 0x1FF)) :
    Taken env s num returnPc xpsrIn P
      (enter env { s with world := w } num returnPc xpsrIn xpsr handler s.cpu.secState) := by
  subst h
  simp only [enter]
  rcases push : w.pushFrame env s.cpu.secState (s.cpu.bankSp s.cpu.secState s.cpu.usePspEntry)
    (s.cpu.frame returnPc xpsrIn) with ⟨_ | sp, w'⟩
  · exact .unstacked before push
  · have top := World.pushFrame_fst env push
    subst top
    exact .entered before push ⟨handler, _, _, rfl⟩

theorem enterException_taken {num : Word} :
    Taken env s num returnPc xpsrIn (fun _ => True)
      (s.enterException env num returnPc xpsrIn) := by
  simp only [enterException, enterExceptionEx]
  generalize hr : Sys.enter env _ _ _ _ _ _ _ = r
  have taken : Taken env s num returnPc xpsrIn (fun _ => True) r :=
    hr ▸ enter_taken trivial rfl
  cases taken with
  | entered before pushed handler =>
    obtain ⟨addr, sleeping, eventReg, rfl⟩ := handler
    exact .entered before pushed ⟨addr, false, false, rfl⟩
  | unstacked before pushed => exact .unstacked before pushed

theorem raiseHardFault_taken (keeps : env.ReadsKeepForced) :
    Taken env s Vect.hardfault returnPc xpsrIn (fun w => w.forced = true)
      (s.raiseHardFault env returnPc xpsrIn) := by
  simp only [raiseHardFault]
  refine enter_taken ?_ (by rw [BitVec.or_assoc]; rfl)
  simp only [World.noteQuit_forced, World.read_forced keeps, World.exceptionReadHandler_forced keeps]
  simp [World.forced, World.setShcsr]

theorem raiseUsageFault_taken {bits : Word} (stays : env.quitOnFaults = false) :
    Taken env s Vect.usagefault returnPc xpsrIn (fun _ => True)
      (s.raiseUsageFault env returnPc xpsrIn bits) := by
  simp only [raiseUsageFault, stays, Bool.false_eq_true, if_false]
  exact enter_taken trivial (by rw [BitVec.or_assoc]; rfl)

/-- What `raise_mem_fault` or `raise_usage_fault` is given. -/
inductive Fault
  | mem (addr : Word) (isExec : Bool)
  | usage (ufsrBits : Word)
  deriving DecidableEq, Repr

namespace Fault

def num : Fault → Word
  | .mem _ _ => Vect.memmanage
  | .usage _ => Vect.usagefault

/-- `MEMFAULTENA` or `USGFAULTENA` of a security state. -/
def enabled (scs : Scs) (sec : SecState) : Fault → Bool
  | .mem _ _ => (scs.shcsr.get sec).getLsbD 16
  | .usage _ => (scs.shcsr.get sec).getLsbD 18

end Fault

variable (env) in
def raiseFault (s : Sys δ) (faultPc faultXpsr : Word) : Fault → Bool × Sys δ
  | .mem addr isExec => s.raiseMemFault env faultPc faultXpsr addr isExec
  | .usage ufsrBits => s.raiseUsageFault env faultPc faultXpsr ufsrBits

def securePending (s : Sys δ) : Bool :=
  s.cpu.secState == .secure && s.world.scs.securefaultPending

theorem raiseMemFault_of_pending {addr : Word} {isExec : Bool} (pending : s.securePending = true) :
    Taken env s Vect.securefault returnPc xpsrIn (fun _ => True)
      (s.raiseMemFault env returnPc xpsrIn addr isExec) := by
  simp only [securePending, Bool.and_eq_true, beq_iff_eq] at pending
  obtain ⟨sec, waiting⟩ := pending
  have waits : (s.world.noteQuit env).scs.securefaultPending = true := by
    simp only [World.noteQuit]
    split <;> exact waiting
  simp only [raiseMemFault, sec, waits, and_self, if_true]
  have taken (w : World δ) : Taken env s Vect.securefault returnPc xpsrIn (fun _ => True)
      (enterException env { s with world := w } Vect.securefault returnPc xpsrIn) :=
    enterException_taken.of_world
  simp only [enterException, sec] at taken
  exact taken _

theorem raiseMemFault_taken (keeps : env.ReadsKeepForced) {addr : Word} {isExec : Bool}
    (none : s.securePending = false) :
    if (Fault.mem addr isExec).enabled s.world.scs s.cpu.secState then
      Taken env s Vect.memmanage returnPc xpsrIn (fun _ => True)
        (s.raiseMemFault env returnPc xpsrIn addr isExec)
    else
      Taken env s Vect.hardfault returnPc xpsrIn (fun w => w.forced = true)
        (s.raiseMemFault env returnPc xpsrIn addr isExec) := by
  have noted : ¬ (s.cpu.secState = .secure ∧
      (s.world.noteQuit env).scs.securefaultPending = true) := by
    have same : (s.world.noteQuit env).scs = s.world.scs := by
      simp only [World.noteQuit]
      split <;> rfl
    rw [same]
    simpa [securePending] using none
  have enable : ((((s.world.noteQuit env).noteMemManage s.cpu.secState addr isExec).scs.shcsr.get
      s.cpu.secState).getLsbD 16) = (Fault.mem addr isExec).enabled s.world.scs s.cpu.secState := by
    have same : (s.world.noteQuit env).scs = s.world.scs := by
      simp only [World.noteQuit]
      split <;> rfl
    simp [World.noteMemManage, World.setShcsr, same, Fault.enabled]
  simp only [raiseMemFault, noted, if_false, enable]
  split
  · exact enterException_taken.of_world
  · exact (raiseHardFault_taken keeps).of_world

inductive Routine
  | fault (fault : Fault)
  | hardFault
  | exception (num : Word) (handlerSec : SecState)
  deriving DecidableEq, Repr

variable (env) in
def call (s : Sys δ) (pc xpsr : Word) : Routine → Bool × Sys δ
  | .fault fault => s.raiseFault env pc xpsr fault
  | .hardFault => s.raiseHardFault env pc xpsr
  | .exception num handlerSec => s.enterExceptionEx env num pc xpsr handlerSec

theorem call_cpu_of_failed {pc xpsr : Word} {routine : Routine}
    (failed : (s.call env pc xpsr routine).1 = false) :
    (s.call env pc xpsr routine).2.cpu = s.cpu := by
  have refused {target : SecState} {r : Bool × Sys δ} (raised : Raised s xpsr target r)
      (failed : r.1 = false) : r.2.cpu = s.cpu := by
    cases raised with
    | entered num w entered => cases failed
    | refused w => rfl
  cases routine with
  | fault fault =>
    cases fault with
    | mem addr isExec => exact refused (raiseMemFault_raised env s pc xpsr addr isExec) failed
    | usage bits => exact refused (raiseUsageFault_raised env s pc xpsr bits) failed
  | hardFault => exact refused (raiseHardFault_raised env s pc xpsr) failed
  | exception num handlerSec =>
    exact refused (enterExceptionEx_raised env s num pc xpsr handlerSec) failed

/-- What a fault enters: a waiting SecureFault comes first, MemManage escalates while it is
disabled, and an enabled UsageFault is entered. -/
theorem faults_entered (keeps : env.ReadsKeepForced) (s : Sys δ) (pc xpsr : Word) :
    (∀ addr isExec, s.securePending = true →
      Taken env s Vect.securefault pc xpsr (fun _ => True)
        (s.raiseFault env pc xpsr (.mem addr isExec))) ∧
    (∀ addr isExec, s.securePending = false →
      if (Fault.mem addr isExec).enabled s.world.scs s.cpu.secState then
        Taken env s Vect.memmanage pc xpsr (fun _ => True)
          (s.raiseFault env pc xpsr (.mem addr isExec))
      else
        Taken env s Vect.hardfault pc xpsr (fun w => w.forced = true)
          (s.raiseFault env pc xpsr (.mem addr isExec))) ∧
    (∀ bits, (Fault.usage bits).enabled s.world.scs s.cpu.secState = true →
      env.quitOnFaults = false →
      Taken env s Vect.usagefault pc xpsr (fun _ => True)
        (s.raiseFault env pc xpsr (.usage bits))) ∧
    (∀ bits, env.quitOnFaults = true → (s.raiseFault env pc xpsr (.usage bits)).1 = false) ∧
    ∀ routine, (s.call env pc xpsr routine).1 = false →
      (s.call env pc xpsr routine).2.cpu = s.cpu := by
  refine ⟨fun addr isExec pending => raiseMemFault_of_pending pending,
    fun addr isExec none => raiseMemFault_taken keeps none,
    fun bits _ stays => raiseUsageFault_taken stays, fun bits quits => ?_,
    fun routine failed => call_cpu_of_failed failed⟩
  simp only [raiseFault, raiseUsageFault, quits, if_true]

theorem Taken.trace {num : Word} {r : Bool × Sys δ} (taken : Taken env s num returnPc xpsrIn P r) :
    r.2.trace = s.trace ∨
      r.2.trace = .enter num s.cpu.secState s.cpu.secState (xpsrIn ||| 0x01000000) :: s.trace := by
  cases taken with
  | entered before pushed handler => exact .inr rfl
  | unstacked before pushed => exact .inl rfl

def violated : Sys Unit :=
  { Board.sys with world := { Board.world with
      scs := { Board.world.scs with securefaultPending := true } } }

theorem faults_entered_violated :
    Taken Board.scsEnv violated Vect.securefault 0 0x01000000 (fun _ => True)
      (violated.raiseFault Board.scsEnv 0 0x01000000 (.mem 0 false)) :=
  (faults_entered scsEnv_readsKeepForced violated 0 0x01000000).1 0 false (by decide)

theorem memFault_enters_securefault :
    ¬ ∀ (s : Sys Unit) (pc xpsr : Word) (fault : Fault),
      if fault.enabled s.world.scs s.cpu.secState then
        Taken Board.env s fault.num pc xpsr (fun _ => True) (s.raiseFault Board.env pc xpsr fault)
      else
        Taken Board.env s Vect.hardfault pc xpsr (fun w => w.forced = true)
          (s.raiseFault Board.env pc xpsr fault) := by
  intro delivered
  have taken := delivered violated 0 0 (.mem 0 false)
  rw [if_neg (by decide)] at taken
  have entered : (violated.raiseFault Board.env 0 0 (.mem 0 false)).2.trace =
      [.enter Vect.securefault .secure .secure 0x01000000] := by
    decide +kernel
  rcases taken.trace with same | same <;> rw [entered] at same <;> revert same <;> decide

end Sys

end M33mu
