import M33mu.Effects

/-!
The inner loop of `main`, one pass at a time. The debugger and the terminal interface are not
attached; the devices of the target are what `Host` says they do.
-/

namespace M33mu

/-- What the rest of the target does to the world during one pass. -/
structure Host (δ : Type u) where
  /-- `mm_timer_tick`. -/
  tick : World δ → World δ
  /-- The polls of the UARTs, SPI and network devices; none are due in most passes. -/
  poll : World δ → World δ

namespace Machine

variable {δ : Type u} (env : Env δ) (decode32 : Word → Decoded)

def t32Is32bitPrefix (hw : Word) : Bool := 0xE800 ≤ hw &&& 0xF800

/-- `mm_fetch_t32_memmap`; a fault leaves the PC alone. -/
def fetch (m : Machine δ) : FetchResult × Machine δ :=
  let pcFetch := m.cpu.r 15 &&& ~~~1#32
  match m.world.fetchRead16 env m.cpu.secState pcFetch with
  | (none, w) => (⟨0, 0, true, pcFetch, pcFetch⟩, m.withWorld w)
  | (some hw1, w) =>
    let m := m.withWorld w
    if t32Is32bitPrefix hw1 then
      match m.world.fetchRead16 env m.cpu.secState (pcFetch + 2) with
      | (none, w) => (⟨0, 0, true, pcFetch + 2, pcFetch⟩, m.withWorld w)
      | (some hw2, w) =>
        (⟨hw1 <<< 16 ||| hw2, 4, false, 0, pcFetch⟩, (m.withWorld w).setReg 15 ((pcFetch + 4) ||| 1))
    else (⟨hw1, 2, false, 0, pcFetch⟩, m.setReg 15 ((pcFetch + 2) ||| 1))

/-- The polls at the end of a pass; a pending reset leaves the loop. -/
def endPass (h : Host δ) (m : Machine δ) : Machine δ :=
  let m := m.withWorld (h.poll m.world)
  if m.world.resetPending then
    { m with resetAgain := true, world := { m.world with resetPending := false } }
  else m

def advanceIt (m : Machine δ) : Machine δ :=
  { m with
    it := m.it.advance
    cpu := { m.cpu with
      xpsr := ItState.set m.cpu.xpsr (ItState.advance (ItState.get m.cpu.xpsr)) } }

/-- `it_remaining > 0u && d.kind != MM_OP_IT`. -/
def inBlock (m : Machine δ) (d : Decoded) : Bool := 0 < m.it.remaining && d.kind != .it

def afterExecute (h : Host δ) (d : Decoded) : Outcome δ → Machine δ
  | (.cont, m) => m
  | (.ok, m) => endPass h (if m.inBlock d then m.advanceIt else m)

/-- The fetch of a pass: `SysTick` counts one cycle, and `R13` follows the active stack. -/
def ready (h : Host δ) (m : Machine δ) : FetchResult × Machine δ :=
  let m := m.withWorld { m.world with scs := m.world.scs.systickAdvance 1 }
  let m := m.withWorld (h.tick m.world)
  (m.setReg 13 m.cpu.getActiveSp).fetch env

def executePass (h : Host δ) (m : Machine δ) : Machine δ :=
  let (f, m) := m.ready env h
  let d := Decode.decodeT32 decode32 f
  if f.fault then
    m.afterCall (m.toSys.raiseMemFault env (m.cpu.r 15 &&& ~~~1#32) m.cpu.xpsr f.faultAddr true)
  else if d.undefined then m.usageFault env f (1#32 <<< 16)
  else if m.inBlock d && !m.it.takes (.ofXpsr m.cpu.xpsr) then m.advanceIt
  else afterExecute h d (executeDecoded env f d m)

def dispatch (m : Machine δ) (excNum : Word) (handlerSec : SecState) : Machine δ :=
  let r := m.toSys.enterExceptionEx env excNum (m.cpu.r 15 &&& ~~~1#32) m.cpu.xpsr handlerSec
  let m := m.afterCall r
  if r.1 then m.syncIt else m

def pending (m : Machine δ) : Option (Word × SecState × Machine δ) :=
  if m.world.scs.pendSt then some (Vect.systick, m.cpu.secState, m)
  else if m.world.scs.pendSv then some (Vect.pendsv, m.cpu.secState, m)
  else
    (m.world.nvic.selectRouted m.cpu).map fun (irq, sec) =>
      (16 + BitVec.ofNat 32 irq, sec,
        m.withWorld { m.world with nvic := m.world.nvic.setPending irq false })

def handlePending (h : Host δ) (m : Machine δ) : Machine δ :=
  match m.pending with
  | some (excNum, handlerSec, m) => m.dispatch env excNum handlerSec
  | none => m.executePass env decode32 h

def wake (m : Machine δ) : Machine δ :=
  { m with cpu := { m.cpu with sleeping := false, eventReg := false } }

/-- The head of a pass, and whether it goes on to `handle_pending`. While the CPU sleeps without
an event, time runs to the next `SysTick`. -/
def attend (h : Host δ) (m : Machine δ) : Machine δ × Bool :=
  if m.done || m.resetAgain then (m, false)
  else if m.world.faultPending then ({ m with done := true }, false)
  else if !m.cpu.sleeping then (m, true)
  else if m.cpu.eventReg || m.world.scs.pendSt || m.world.scs.pendSv ||
      (m.world.nvic.selectRouted m.cpu).isSome then (m.wake, true)
  else
    match m.world.scs.systickCyclesUntilFire with
    | none => (m.endPass h, false)
    | some delta =>
      let m := m.withWorld { m.world with scs := m.world.scs.systickAdvance delta }
      let m := m.withWorld (h.tick m.world)
      let m := if m.world.scs.pendSt || m.world.scs.pendSv then m.wake else m
      let m := m.endPass h
      (m, !(m.resetAgain || m.cpu.sleeping))

/-- One pass of the inner loop of `main`. -/
def mainPass (m : Machine δ) (h : Host δ) : Machine δ :=
  match m.attend h with
  | (m, true) => m.handlePending env decode32 h
  | (m, false) => m

/-- `mm_vector_apply_reset` of the Secure state. -/
def vectorApplyReset (m : Machine δ) : Bool × Machine δ :=
  match m.world.vectorRead env .secure (m.cpu.vtor.get .secure) 0 with
  | (none, w) => (false, m.withWorld w)
  | (some initialSp, w) =>
    match w.vectorRead env .secure (m.cpu.vtor.get .secure) 1 with
    | (none, w) => (false, m.withWorld w)
    | (some resetPc, w) =>
      let c := { m.cpu with xpsr := 0x01000000 }.setActiveSp initialSp
      let c := { c.setReg 15 (resetPc ||| 1) with secState := .secure, mode := .thread }
      (true, { m.withWorld w with cpu := c.setPrivileged false })

/-- The way back into the loop after a reset, with the target set up again as `w`. What the loop
caches of an IT block is declared outside and stays. -/
def restart (m : Machine δ) (vtor : Banked Word) (w : World δ) : Machine δ :=
  if !m.resetAgain then m
  else
    let m := { m with
      cpu := m.cpu.reset vtor, world := w, trace := [], done := false, resetAgain := false
      transfers := [] }
    match m.vectorApplyReset env with
    | (false, m) => { m with done := true }
    | (true, m) =>
      { m.setReg 14 0xFFFFFFFF with
        world := { m.world with scs := { m.world.scs with vtor := m.cpu.vtor } } }

def start (c : Cpu) (vtor : Banked Word) (w : World δ) : Machine δ :=
  restart env ⟨⟨c, w, []⟩, ⟨0, 0, 0⟩, false, true, []⟩ vtor w

/-- A pass of the loop, or the way back into it with a vector table and a target set up again. -/
inductive Input (δ : Type u)
  | pass (h : Host δ)
  | restart (vtor : Banked Word) (w : World δ)

def loopStep (m : Machine δ) : Input δ → Machine δ
  | .pass h => m.mainPass env decode32 h
  | .restart vtor w => m.restart env vtor w

theorem restart_of_not_resetAgain {m : Machine δ} (again : m.resetAgain = false)
    (vtor : Banked Word) (w : World δ) : m.restart env vtor w = m := by
  simp [restart, again]

/-- What `mm_vector_apply_reset` leaves of a machine with its records cleared, a restart leaves,
as long as the flag and the registers that are set after it do not matter. -/
theorem restart_rule {P : Machine δ → Prop} {m : Machine δ} (again : m.resetAgain = true)
    {vtor : Banked Word} {w : World δ}
    (reset : ∀ a : Machine δ, a.cpu = m.cpu.reset vtor → a.world = w → a.trace = [] →
      a.it = m.it → P (a.vectorApplyReset env).2)
    (stops : ∀ a : Machine δ, P a → P { a with done := true })
    (goes : ∀ a : Machine δ, P a → P { a.setReg 14 0xFFFFFFFF with
      world := { a.world with scs := { a.world.scs with vtor := a.cpu.vtor } } }) :
    P (m.restart env vtor w) := by
  have left := reset { m with
    cpu := m.cpu.reset vtor, world := w, trace := [], done := false, resetAgain := false
    transfers := [] } rfl rfl rfl rfl
  simp only [restart, again, Bool.not_true, Bool.false_eq_true, if_false]
  split
  · rename_i eq
    rw [eq] at left
    exact stops _ left
  · rename_i eq
    rw [eq] at left
    exact goes _ left

theorem fetch_quiet (m : Machine δ) : m.Quiet (m.fetch env).2 := by
  simp only [fetch]
  split
  · exact withWorld_quiet m _
  · split
    · split
      · exact (withWorld_quiet m _).trans (withWorld_quiet _ _)
      · exact ((withWorld_quiet m _).trans (withWorld_quiet _ _)).trans (setReg_quiet _ _ _)
    · exact (withWorld_quiet m _).trans (setReg_quiet _ _ _)

theorem ready_quiet (h : Host δ) (m : Machine δ) : m.Quiet (m.ready env h).2 :=
  (((withWorld_quiet m _).trans (withWorld_quiet _ _)).trans (setReg_quiet _ _ _)).trans
    (fetch_quiet env _)

theorem endPass_quiet (h : Host δ) (m : Machine δ) : m.Quiet (m.endPass h) := by
  simp only [endPass]
  split <;> exact ⟨.refl _, rfl, rfl⟩

theorem wake_quiet (m : Machine δ) : m.Quiet m.wake :=
  .of_cpu ⟨rfl, rfl, rfl, rfl, fun _ => rfl⟩

theorem pending_quiet {m m' : Machine δ} {excNum : Word} {sec : SecState}
    (accepted : m.pending = some (excNum, sec, m')) : m.Quiet m' := by
  simp only [pending] at accepted
  split at accepted
  · cases accepted
    exact .refl m
  split at accepted
  · cases accepted
    exact .refl m
  · simp only [Option.map_eq_some_iff, Prod.mk.injEq] at accepted
    obtain ⟨⟨irq, sec'⟩, -, -, -, rfl⟩ := accepted
    exact withWorld_quiet m _

theorem attend_quiet (h : Host δ) (m : Machine δ) : m.Quiet (m.attend h).1 := by
  simp only [attend]
  split
  · exact .refl m
  split
  · exact ⟨.refl _, rfl, rfl⟩
  split
  · exact .refl m
  split
  · exact wake_quiet m
  split
  · exact endPass_quiet h m
  · refine .trans ?_ (endPass_quiet h _)
    have ticked (w w' : World δ) : m.Quiet ((m.withWorld w).withWorld w') := ⟨.refl _, rfl, rfl⟩
    split
    · exact (ticked _ _).trans (wake_quiet _)
    · exact ticked _ _

theorem afterExecute_trace (h : Host δ) (d : Decoded) (o : Outcome δ) :
    (afterExecute h d o).trace = o.2.trace := by
  obtain ⟨status, m⟩ := o
  cases status with
  | cont => rfl
  | ok =>
    refine (endPass_quiet h _).trace.trans ?_
    split <;> rfl

theorem dispatch_entered (m : Machine δ) (excNum : Word) (handlerSec : SecState) :
    (m.dispatch env excNum handlerSec).cpu = m.cpu ∧
        (m.dispatch env excNum handlerSec).trace = m.trace ∨
      ∃ num, m.cpu.Entered (m.dispatch env excNum handlerSec).cpu num m.cpu.xpsr handlerSec ∧
        (m.dispatch env excNum handlerSec).trace =
          .enter num m.cpu.secState handlerSec (m.cpu.xpsr ||| 0x01000000) :: m.trace := by
  simp only [dispatch]
  have raised := Sys.enterExceptionEx_raised env m.toSys excNum (m.cpu.r 15 &&& ~~~1#32)
    m.cpu.xpsr handlerSec
  generalize Sys.enterExceptionEx env _ _ _ _ _ = r at raised ⊢
  cases raised with
  | entered num w entered => exact .inr ⟨num, entered, rfl⟩
  | refused w => exact .inl ⟨rfl, rfl⟩

theorem dispatch_onlyEnters (m : Machine δ) (excNum : Word) (handlerSec : SecState) :
    m.OnlyEnters (m.dispatch env excNum handlerSec) := by
  rcases m.dispatch_entered env excNum handlerSec with ⟨-, same⟩ | ⟨num, -, entered⟩
  · exact ⟨[], same, nofun⟩
  · exact ⟨[_], entered, fun e mem => ⟨_, _, _, _, List.mem_singleton.mp mem⟩⟩

end Machine

end M33mu
