import M33mu.Board
import M33mu.FaultStatus
import M33mu.Gdbstub
import M33mu.Lib.Run
import M33mu.Wakeup

namespace M33mu

open Lib

inductive ProgAccess
  | read (addr size : Word)
  | read8 (addr : Word)
  | write (addr size v : Word)

namespace ProgAccess

variable {δ : Type u} (env : Env δ)

def addr : ProgAccess → Word
  | read addr _ | read8 addr | write addr _ _ => addr

def type : ProgAccess → AccessType
  | read _ _ | read8 _ => .read
  | write _ _ _ => .write

def perform (w : World δ) (sec : SecState) : ProgAccess → Bool × World δ
  | read addr size => ((w.read env sec addr size).1.isSome, (w.read env sec addr size).2)
  | read8 addr => ((w.read8 env sec addr).1.isSome, (w.read8 env sec addr).2)
  | write addr size v => w.write env sec addr size v

variable {env}

theorem refused (p : ProgAccess) (keeps : env.KeepsStatus) {w w' : World δ} {sec : SecState}
    (h : p.perform env w sec = (false, w')) : World.Refused env p.type sec p.addr w w' := by
  cases p with
  | read addr size =>
    rcases read : w.read env sec addr size with ⟨_ | v, w₁⟩
    · simp only [perform, read] at h
      obtain rfl : w₁ = w' := congrArg Prod.snd h
      exact World.read_refused keeps read
    · simp only [perform, read] at h
      cases h
  | read8 addr =>
    rcases read : w.read8 env sec addr with ⟨_ | v, w₁⟩
    · simp only [perform, read] at h
      obtain rfl : w₁ = w' := congrArg Prod.snd h
      exact World.read8_refused keeps read
    · simp only [perform, read] at h
      cases h
  | write addr size v => exact World.write_refused keeps h

theorem read_granted (p : ProgAccess) (keeps : env.KeepsStatus) {w w' : World δ} {sec : SecState}
    (type : p.type = .read) (h : p.perform env w sec = (true, w')) : w'.status = w.status := by
  cases p with
  | read addr size =>
    simp only [perform, Prod.mk.injEq] at h
    obtain ⟨some, rfl⟩ := h
    exact World.read_status keeps (World.granted_of_read some)
  | read8 addr =>
    simp only [perform, Prod.mk.injEq] at h
    obtain ⟨some, rfl⟩ := h
    exact World.read8_status keeps (World.granted_of_read8 some)
  | write => cases type

theorem type_ne_exec (p : ProgAccess) : p.type ≠ .exec := by
  cases p <;> nofun

end ProgAccess

namespace World

variable {δ : Type u} (env : Env δ)

def GdbGranted (w : World δ) (sec : SecState) (addr : Word) : Nat → Prop
  | 0 => True
  | n + 1 =>
    let first := w.read8 env sec addr
    let second := first.2.read8 env sec.alt addr
    w.Granted env .read sec addr 1 ∧
      if first.1.isSome then first.2.GdbGranted sec (addr + 1) n
      else first.2.Granted env .read sec.alt addr 1 ∧
        (second.1.isSome = true → second.2.GdbGranted sec (addr + 1) n)

instance instDecidableGdbGranted (sec : SecState) :
    ∀ (w : World δ) (addr : Word) (n : Nat), Decidable (w.GdbGranted env sec addr n)
  | _, _, 0 => isTrue trivial
  | _, addr, n + 1 =>
    have (w : World δ) : Decidable (w.GdbGranted env sec (addr + 1) n) :=
      instDecidableGdbGranted sec w (addr + 1) n
    inferInstanceAs (Decidable (_ ∧ ite _ _ (_ ∧ (_ → _))))

end World

namespace Host

variable {δ : Type u}

/-- `mm_timer_tick` leaves the fault status alone. -/
def TickKeeps (h : Host δ) (w : World δ) : Prop := (h.tick w).status = w.status

def PollKeeps (h : Host δ) (w : World δ) : Prop := (h.poll w).status = w.status

end Host

namespace Execute

variable {δ : Type u}

/-- The first address of `LDRD` and `STRD`. -/
def dualAddr (m : Machine δ) (d : Decoded) : Word :=
  let imm := d.imm &&& 0x3ff
  let base := m.cpu.r d.rn
  let moved := if d.imm.getLsbD 31 then base + imm else base - imm
  if d.imm.getLsbD 29 then moved else base

def words (type : AccessType) (addr : Word) (n : Nat) : List (AccessType × Word) :=
  (World.wordReads addr n).map fun read => (type, read.1)

def accesses (m : Machine δ) (f : FetchResult) (d : Decoded) : List (AccessType × Word) :=
  let c := m.cpu
  match d.kind with
  | .ldrLiteral => [(.read, ((f.pcFetch + 4) &&& ~~~3#32) + d.imm)]
  | .ldrImm | .ldrPreImm | .ldrbImm | .ldrbPreImm | .ldrsbImm | .ldrhImm | .ldrhPreImm |
    .ldrshImm => [(.read, c.r d.rn + d.imm)]
  | .ldrPostImm | .ldrbPostImm | .ldrhPostImm | .ldrex => [(.read, c.r d.rn)]
  | .ldrReg | .ldrhReg | .ldrshReg => [(.read, offsetAddr m d 0x3)]
  | .ldrbReg => [(.read, offsetAddr m d 0x1f)]
  | .ldrsbReg => [(.read, c.r d.rn + c.r d.rm)]
  | .tbb => [(.read, tableBase m f d + c.r d.rm)]
  | .tbh => [(.read, tableBase m f d + c.r d.rm <<< 1)]
  | .strImm | .strPreImm | .strbImm | .strbPreImm | .strhImm | .strhPreImm =>
    [(.write, c.r d.rn + d.imm)]
  | .strPostImm | .strbPostImm | .strhPostImm | .strex => [(.write, c.r d.rn)]
  | .strReg | .strhReg => [(.write, offsetAddr m d 0x3)]
  | .strbReg => [(.write, offsetAddr m d 0x1f)]
  | .ldrd => words .read (dualAddr m d) 2
  | .strd => words .write (dualAddr m d) 2
  | .ldm => words .read (multiple m d).start (multiple m d).regs.length
  | .stm => words .write (multiple m d).start (multiple m d).regs.length
  | .pop => words .read c.getActiveSp (popList d).length
  | .push =>
    words .write (pushSp m d) ((lowRegList d.imm).length + if d.imm.getLsbD 8 then 1 else 0)
  | _ => []

end Execute

namespace Machine

variable {δ : Type u} (env : Env δ) (decode32 : Word → Decoded)

def AccessKeeps (p : ProgAccess) (w w' : World δ) : Prop :=
  p.type = .write ∧ Prot.isSystemControl p.addr = true ∨ w'.status = w.status

/-- An elementary step of an instruction with the given data accesses, whose changes of the fault
status are those of these accesses and of the faults of the program. -/
inductive Accounted (f : FetchResult) (d : Decoded) (accesses : List (AccessType × Word))
    (m : Machine δ) : Machine δ → Prop
  | silent {m' : Machine δ} (micro : Micro env f d m m') (same : m'.world = m.world) :
    Accounted f d accesses m m'
  | granted (p : ProgAccess) (mem : (p.type, p.addr) ∈ accesses) {w : World δ}
    (h : p.perform env m.world m.cpu.secState = (true, w)) (keeps : AccessKeeps p m.world w) :
    Accounted f d accesses m (m.withWorld w)
  | refused (p : ProgAccess) (mem : (p.type, p.addr) ∈ accesses) (isExec : Bool) {w : World δ}
    {m' : Machine δ} (h : p.perform env m.world m.cpu.secState = (false, w))
    (faults : m' = (m.withWorld w).memFault env f p.addr isExec)
    (status : m.world.status.Faults p.type p.addr
      (m.world.violates env p.type m.cpu.secState p.addr) m'.world.status)
    (delivered : ∀ origin target x, .enter Vect.securefault origin target x ∉ m.since m') :
    Accounted f d accesses m m'
  | usageFault (bits : Word) (status : (m.usageFault env f bits).world.status =
      m.world.status.addCfsr (if bits = 0 then Sys.ufsrUndefinstr else bits)) :
    Accounted f d accesses m (m.usageFault env f bits)
  | svc (kind : d.kind = .svc)
    (status : (Execute.execSvc env m f d).2.world.status = m.world.status) :
    Accounted f d accesses m (Execute.execSvc env m f d).2
  | excReturn (excRet : Word) (h : isExcReturn excRet = true)
    (status : (m.excReturn env excRet).world.status = m.world.status) :
    Accounted f d accesses m (m.excReturn env excRet)

/-- An elementary step in which the emulator's own accesses are let through, no SecureFault is left
over, a refused data access is reported as one, and a device that is written changes no status. -/
inductive Calm (f : FetchResult) (d : Decoded) (accesses : List (AccessType × Word))
    (m : Machine δ) : Machine δ → Prop
  | silent {m' : Machine δ} (micro : Micro env f d m m') (same : m'.world = m.world) :
    Calm f d accesses m m'
  | granted (p : ProgAccess) (mem : (p.type, p.addr) ∈ accesses) {w : World δ}
    (h : p.perform env m.world m.cpu.secState = (true, w))
    (device : p.type = .write → Prot.isSystemControl p.addr = false →
      w.status = m.world.status) :
    Calm f d accesses m (m.withWorld w)
  | refused (p : ProgAccess) (mem : (p.type, p.addr) ∈ accesses) {w : World δ}
    (h : p.perform env m.world m.cpu.secState = (false, w))
    (calm : (m.withWorld w).toSys.MemFaultGranted env f.pcFetch m.cpu.xpsr p.addr false) :
    Calm f d accesses m ((m.withWorld w).memFault env f p.addr false)
  | usageFault (bits : Word)
    (calm : m.toSys.UsageFaultGranted env f.pcFetch m.cpu.xpsr bits) :
    Calm f d accesses m (m.usageFault env f bits)
  | svc (kind : d.kind = .svc)
    (calm : m.toSys.EntryGranted env Vect.svcall (f.pcFetch + d.len.setWidth 32) m.cpu.xpsr
      m.cpu.secState) :
    Calm f d accesses m (Execute.execSvc env m f d).2
  | excReturn (excRet : Word) (h : isExcReturn excRet = true)
    (calm : m.toSys.UnstackGranted env excRet) :
    Calm f d accesses m (m.excReturn env excRet)

def FetchAccounted (before : FaultStatus) (f : FetchResult) (b m' : Machine δ) : Prop :=
  let d := Decode.decodeT32 decode32 f
  if f.fault then
    before.Faults .exec f.faultAddr (b.world.violates env .exec b.cpu.secState f.faultAddr)
      m'.world.status ∧
    ∀ origin target x, .enter Vect.securefault origin target x ∉ b.since m'
  else b.world.status = before ∧
    if d.undefined then m'.world.status = before.addCfsr (1#32 <<< 16)
    else if b.inBlock d && !b.it.takes (.ofXpsr b.cpu.xpsr) then m'.world.status = before
    else
      Relation.ReflTransGen (Accounted env f d (Execute.accesses b f d)) b
        (executeDecoded env f d b).2 ∧
      m'.world.status = (executeDecoded env f d b).2.world.status

def FetchCalm (h : Host δ) (f : FetchResult) (b : Machine δ) : Prop :=
  let d := Decode.decodeT32 decode32 f
  if f.fault then
    b.toSys.MemFaultGranted env (b.cpu.r 15 &&& ~~~1#32) b.cpu.xpsr f.faultAddr true
  else if d.undefined then b.toSys.UsageFaultGranted env f.pcFetch b.cpu.xpsr (1#32 <<< 16)
  else if b.inBlock d && !b.it.takes (.ofXpsr b.cpu.xpsr) then True
  else
    Relation.ReflTransGen (Calm env f d (Execute.accesses b f d)) b (executeDecoded env f d b).2 ∧
    ((executeDecoded env f d b).1 = .ok → h.PollKeeps (executeDecoded env f d b).2.world)

def PassAccounted (m : Machine δ) (h : Host δ) : Prop :=
  (m.attend h).1.world.status = m.world.status ∧ ((m.attend h).2 = true →
    match (m.attend h).1.pending with
    | some _ => (m.mainPass env decode32 h).world.status = m.world.status
    | none =>
      let (f, b) := (m.attend h).1.ready env h
      FetchAccounted env decode32 m.world.status f b (m.mainPass env decode32 h))

def IdleCalm (m : Machine δ) (h : Host δ) : Prop :=
  m.Idles →
    match m.world.scs.systickCyclesUntilFire with
    | none => h.PollKeeps m.world
    | some delta =>
      let w := { m.world with scs := m.world.scs.systickAdvance delta }
      h.TickKeeps w ∧ h.PollKeeps (h.tick w)

def PassCalm (m : Machine δ) (h : Host δ) : Prop :=
  m.IdleCalm h ∧ ((m.attend h).2 = true →
    match (m.attend h).1.pending with
    | some (num, sec, b) =>
      b.toSys.EntryGranted env num (b.cpu.r 15 &&& ~~~1#32) b.cpu.xpsr sec
    | none =>
      let a := (m.attend h).1
      h.TickKeeps { a.world with scs := a.world.scs.systickAdvance 1 } ∧
        FetchCalm env decode32 h (a.ready env h).1 (a.ready env h).2)

inductive DebugInput (δ : Type u)
  | step (i : Input δ)
  | read (addr : Word) (len : Nat)

def debugStep (m : Machine δ) : DebugInput δ → Machine δ
  | .step i => m.loopStep env decode32 i
  | .read addr len => m.withWorld (m.world.gdbReadBytes env m.cpu.secState addr len).2

/-- The fault status changes only by the accesses and faults of the program; a reset starts with
that of the new world. -/
def StatusAccounted (m : Machine δ) : DebugInput δ → Prop
  | .step (.pass h) => m.PassAccounted env decode32 h
  | .step (.restart vtor w) =>
    (m.restart env vtor w).world.status = if m.resetAgain then w.status else m.world.status
  | .read addr len =>
    (m.world.gdbReadBytes env m.cpu.secState addr len).2.status = m.world.status

def OwnAccessesGranted (m : Machine δ) : DebugInput δ → Prop
  | .step (.pass h) => m.PassCalm env decode32 h
  | .step (.restart vtor w) => m.resetAgain = true →
    w.Reads env .secure [(vtor.s, 4), (vtor.s + 4, 4)]
  | .read addr len => m.world.GdbGranted env m.cpu.secState addr len

variable {env decode32} {f : FetchResult} {d : Decoded}

theorem Calm.accounted (keeps : env.KeepsStatus) {accesses : List (AccessType × Word)}
    {m m' : Machine δ} (calm : Calm env f d accesses m m') : Accounted env f d accesses m m' := by
  cases calm with
  | silent micro same => exact .silent micro same
  | granted p mem h device =>
    refine .granted p mem h ?_
    cases type : p.type with
    | write =>
      cases control : Prot.isSystemControl p.addr with
      | true => exact .inl ⟨type, control⟩
      | false => exact .inr (device type control)
    | read => exact .inr (p.read_granted keeps type h)
    | exec => exact absurd type p.type_ne_exec
  | @refused p mem w h calm =>
    obtain ⟨status, num, x, trace, other⟩ := Sys.raiseMemFault_status keeps calm
    refine .refused p mem false h rfl ?_ ?_
    · have refused := p.refused keeps h
      have kind : (if false = true then 0x81 else 0x82 : Word) = p.type.cfsrBits := by
        cases p <;> rfl
      rw [kind] at status
      exact status ▸ refused.faults
    · intro origin target x' mem
      have only : m.since ((m.withWorld w).memFault env f p.addr false) = [_] := since_of_trace trace
      rw [only, List.mem_singleton] at mem
      cases mem
      exact other rfl
  | usageFault bits calm => exact .usageFault bits (Sys.raiseUsageFault_status keeps calm)
  | svc kind calm => exact .svc kind (Sys.enterExceptionEx_status keeps calm).1
  | excReturn excRet h calm =>
    refine .excReturn excRet h ?_
    have same := Sys.excReturnUnstack_status keeps calm
    simp only [Machine.excReturn]
    split <;> exact same

theorem endPass_status {m : Machine δ} {h : Host δ} (poll : h.PollKeeps m.world) :
    (m.endPass h).world.status = m.world.status := by
  simp only [endPass]
  split <;> exact poll

theorem systickAdvance_status (scs : Scs) (cycles : BitVec 64) :
    (scs.systickAdvance cycles).faultStatus = scs.faultStatus := by
  simp only [Scs.systickAdvance]
  split
  · rfl
  split <;> rfl

theorem attend_status {m : Machine δ} {h : Host δ} (calm : m.IdleCalm h) :
    (m.attend h).1.world.status = m.world.status := by
  by_cases idles : m.Idles
  · have calm := calm idles
    rw [attend_of_idles idles, fastForward]
    split at calm
    · rename_i off
      rw [off]
      exact endPass_status calm
    · rename_i delta on
      obtain ⟨tick, poll⟩ := calm
      rw [on]
      have advanced := tick.trans (systickAdvance_status m.world.scs delta)
      simp only [Option.map_some]
      split
      · exact (endPass_status poll).trans advanced
      · exact (endPass_status poll).trans advanced
  · rw [attend_world_of_not_idles idles]

theorem fetch_status {m b : Machine δ} {f : FetchResult} (fetched : m.fetch env = (f, b)) :
    b.cpu.secState = m.cpu.secState ∧
      if f.fault then
        World.Refused env .exec m.cpu.secState f.faultAddr m.world b.world ∧
          b.world.violates env .exec m.cpu.secState f.faultAddr =
            m.world.violates env .exec m.cpu.secState f.faultAddr
      else b.world.status = m.world.status := by
  simp only [fetch] at fetched
  have first (next : Word) := World.fetchRead16_violates env m.world m.cpu.secState
    (m.cpu.r 15 &&& ~~~1#32) .exec next
  split at fetched
  · rename_i w eq
    cases fetched
    rw [eq] at first
    exact ⟨rfl, World.fetchRead16_refused eq, first _⟩
  rename_i hw1 w eq
  rw [eq] at first
  have same := World.fetchRead16_status eq
  split at fetched
  · have second (next : Word) := World.fetchRead16_violates env w m.cpu.secState
      ((m.cpu.r 15 &&& ~~~1#32) + 2) .exec next
    split at fetched
    · rename_i w' eq'
      cases fetched
      have violates (next : Word) : w'.violates env .exec m.cpu.secState next = _ :=
        (congrArg (fun r => r.2.violates env .exec m.cpu.secState next) eq').symm.trans (second next)
      refine ⟨rfl, ?_, (violates _).trans (first _)⟩
      have refused : World.Refused env .exec m.cpu.secState _ w w' := World.fetchRead16_refused eq'
      rw [World.Refused, first, same] at refused
      exact refused
    · rename_i eq'
      cases fetched
      have same' := World.fetchRead16_status eq'
      exact ⟨rfl, same'.trans same⟩
  · cases fetched
    exact ⟨rfl, same⟩

theorem pending_status {m b : Machine δ} {num : Word} {sec : SecState}
    (accepted : m.pending = some (num, sec, b)) : b.world.status = m.world.status := by
  simp only [pending] at accepted
  split at accepted
  · cases accepted
    rfl
  split at accepted
  · cases accepted
    rfl
  · simp only [Option.map_eq_some_iff, Prod.mk.injEq] at accepted
    obtain ⟨⟨irq, sec'⟩, -, -, -, rfl⟩ := accepted
    rfl

theorem dispatch_status (keeps : env.KeepsStatus) {m : Machine δ} {num : Word} {sec : SecState}
    (granted : m.toSys.EntryGranted env num (m.cpu.r 15 &&& ~~~1#32) m.cpu.xpsr sec) :
    (m.dispatch env num sec).world.status = m.world.status := by
  have same := (Sys.enterExceptionEx_status keeps granted).1
  simp only [dispatch]
  split <;> exact same

theorem afterExecute_status {h : Host δ} {d : Decoded} {o : Outcome δ}
    (poll : o.1 = .ok → h.PollKeeps o.2.world) :
    (afterExecute h d o).world.status = o.2.world.status := by
  obtain ⟨status, m⟩ := o
  cases status with
  | cont => rfl
  | ok =>
    have poll : h.PollKeeps m.world := poll rfl
    simp only [afterExecute]
    split
    · exact endPass_status (m := m.advanceIt) poll
    · exact endPass_status poll

theorem ready_status {m b : Machine δ} {h : Host δ} {f : FetchResult}
    (tick : h.TickKeeps { m.world with scs := m.world.scs.systickAdvance 1 })
    (fetched : m.ready env h = (f, b)) :
    if f.fault then
      ∃ w : World δ, w.status = m.world.status ∧
        World.Refused env .exec b.cpu.secState f.faultAddr w b.world ∧
          b.world.violates env .exec b.cpu.secState f.faultAddr =
            w.violates env .exec b.cpu.secState f.faultAddr
    else b.world.status = m.world.status := by
  simp only [ready] at fetched
  generalize ticked : setReg _ 13 _ = m₁ at fetched
  have counted : m₁.world.status = m.world.status := by
    rw [← ticked]
    exact tick.trans (systickAdvance_status _ _)
  obtain ⟨secState, status⟩ := fetch_status fetched
  rw [secState]
  cases fault : f.fault with
  | true =>
    rw [fault, if_pos rfl] at status
    exact ⟨_, counted, status⟩
  | false =>
    rw [fault, if_neg Bool.false_ne_true] at status
    exact status.trans counted

theorem fetchAccounted_of_calm (keeps : env.KeepsStatus) {m b : Machine δ} {h : Host δ}
    {f : FetchResult}
    (tick : h.TickKeeps { m.world with scs := m.world.scs.systickAdvance 1 })
    (fetched : m.ready env h = (f, b)) (calm : FetchCalm env decode32 h f b) :
    FetchAccounted env decode32 m.world.status f b (m.executePass env decode32 h) := by
  have status := ready_status tick fetched
  simp only [FetchCalm] at calm
  simp only [FetchAccounted, executePass, fetched]
  cases fault : f.fault with
  | true =>
    simp only [fault, if_true] at status calm ⊢
    obtain ⟨w, before, refused, same⟩ := status
    obtain ⟨after, num, x, trace, other⟩ := Sys.raiseMemFault_status keeps calm
    constructor
    · have faults := refused.faults
      rw [← same, before] at faults
      have noted : _ = ({ b.world.status.addCfsr 0x81 with mmfar := f.faultAddr } : FaultStatus) :=
        after
      exact noted ▸ faults
    · intro origin target x' mem
      have only : b.since (b.afterCall (b.toSys.raiseMemFault env (b.cpu.r 15 &&& ~~~1#32)
        b.cpu.xpsr f.faultAddr true)) = [_] := since_of_trace trace
      rw [only, List.mem_singleton] at mem
      cases mem
      exact other rfl
  | false =>
    simp only [fault, Bool.false_eq_true, if_false] at status calm ⊢
    refine ⟨status, ?_⟩
    split
    · rename_i undefined
      rw [if_pos undefined] at calm
      have noted := Sys.raiseUsageFault_status keeps calm
      rw [status] at noted
      exact noted
    rename_i defined
    rw [if_neg defined] at calm
    split
    · exact status
    · rename_i runs
      rw [if_neg runs] at calm
      obtain ⟨steps, poll⟩ := calm
      exact ⟨steps.lift id fun _ _ step => step.accounted keeps, afterExecute_status poll⟩

theorem mainPass_of_calm {m : Machine δ} {h : Host δ} (goesOn : (m.attend h).2 = true)
    (calm : (m.attend h).1.pending = none) :
    m.mainPass env decode32 h = (m.attend h).1.executePass env decode32 h := by
  rcases eq : m.attend h with ⟨a, go⟩
  simp only [eq] at goesOn calm
  simp only [mainPass, eq, goesOn, handlePending, calm]

theorem passAccounted_of_calm (keeps : env.KeepsStatus) {m : Machine δ} {h : Host δ}
    (calm : m.PassCalm env decode32 h) : m.PassAccounted env decode32 h := by
  obtain ⟨idle, calm⟩ := calm
  have attended := attend_status idle
  refine ⟨attended, fun goesOn => ?_⟩
  have calm := calm goesOn
  cases accepted : (m.attend h).1.pending with
  | some p =>
    obtain ⟨num, sec, b⟩ := p
    rw [accepted] at calm
    simp only
    rw [mainPass_of_accepted goesOn accepted, dispatch_status keeps calm, pending_status accepted,
      attended]
  | none =>
    rw [accepted] at calm
    obtain ⟨tick, calm⟩ := calm
    simp only
    rw [mainPass_of_calm goesOn accepted, ← attended]
    exact fetchAccounted_of_calm keeps tick rfl calm

theorem gdbReadBytes_status (keeps : env.KeepsStatus) {w : World δ} {sec : SecState} {addr : Word}
    {n : Nat} (granted : w.GdbGranted env sec addr n) :
    (w.gdbReadBytes env sec addr n).2.status = w.status := by
  induction n generalizing w addr with
  | zero => rfl
  | succ n ih =>
    obtain ⟨first, rest⟩ := granted
    have same := World.read8_status keeps first
    simp only [World.gdbReadBytes]
    rcases eq : w.read8 env sec addr with ⟨_ | b, w₁⟩
    · rw [eq] at same
      simp only [eq, Option.isSome_none, Bool.false_eq_true, if_false] at rest ⊢
      obtain ⟨second, rest⟩ := rest
      have same' := World.read8_status keeps second
      rcases eq' : w₁.read8 env sec.alt addr with ⟨_ | b, w₂⟩
      · rw [eq'] at same'
        exact same'.trans same
      · rw [eq'] at same' rest
        exact (ih (rest rfl)).trans (same'.trans same)
    · rw [eq] at same
      simp only [eq, Option.isSome_some, if_true] at rest ⊢
      exact (ih rest).trans same

theorem vectorApplyReset_status (keeps : env.KeepsStatus) {m : Machine δ}
    (granted : m.world.Reads env .secure [(m.cpu.vtor.s, 4), (m.cpu.vtor.s + 4, 4)]) :
    (m.vectorApplyReset env).2.world.status = m.world.status := by
  obtain ⟨sp, pc, -⟩ := granted
  have first := World.read_status keeps sp
  have second := World.read_status keeps pc
  simp only [vectorApplyReset, World.vectorRead_zero, World.vectorRead_one, Banked.get_secure]
  rcases eq : m.world.read env .secure m.cpu.vtor.s 4 with ⟨_ | v, w₁⟩
  · rw [eq] at first
    exact first
  · simp only [eq] at first second ⊢
    rcases eq' : w₁.read env .secure (m.cpu.vtor.s + 4) 4 with ⟨_ | v', w₂⟩
    · rw [eq'] at second
      exact second.trans first
    · rw [eq'] at second
      exact second.trans first

theorem restart_status (keeps : env.KeepsStatus) {m : Machine δ} {vtor : Banked Word} {w : World δ}
    (granted : m.resetAgain = true → w.Reads env .secure [(vtor.s, 4), (vtor.s + 4, 4)]) :
    (m.restart env vtor w).world.status = if m.resetAgain then w.status else m.world.status := by
  cases again : m.resetAgain with
  | false => rw [restart_of_not_resetAgain env again, if_neg Bool.false_ne_true]
  | true =>
    rw [if_pos rfl]
    refine restart_rule (P := fun a => a.world.status = w.status) env again
      (fun a cpu world _ _ => ?_) (fun _ status => status) (fun _ status => status)
    subst world
    refine vectorApplyReset_status keeps ?_
    rw [cpu]
    exact granted again

theorem fetchCalm_of_ldr {b : Machine δ} {h : Host δ} (fault : f.fault = false)
    (kind : (Decode.decodeT32 decode32 f).kind = .ldrImm)
    (defined : (Decode.decodeT32 decode32 f).undefined = false)
    (outside : b.it.remaining = 0)
    (refused : (b.world.read env b.cpu.secState (b.cpu.r (Decode.decodeT32 decode32 f).rn +
      (Decode.decodeT32 decode32 f).imm) 4).1.isSome = false)
    (granted : (b.withWorld (b.world.read env b.cpu.secState
      (b.cpu.r (Decode.decodeT32 decode32 f).rn + (Decode.decodeT32 decode32 f).imm) 4).2).toSys
        |>.MemFaultGranted env f.pcFetch b.cpu.xpsr
          (b.cpu.r (Decode.decodeT32 decode32 f).rn + (Decode.decodeT32 decode32 f).imm) false) :
    FetchCalm env decode32 h f b := by
  simp only [FetchCalm, fault, defined, inBlock, outside, Bool.false_eq_true, if_false]
  generalize Decode.decodeT32 decode32 f = d at kind refused granted ⊢
  rcases read : b.world.read env b.cpu.secState (b.cpu.r d.rn + d.imm) 4 with ⟨_ | v, w⟩
  · rw [read] at granted
    have executes : executeDecoded env f d b =
        (.cont, (b.withWorld w).memFault env f (b.cpu.r d.rn + d.imm) false) := by
      simp only [executeDecoded, kind, Execute.loadWord, load, read]
    rw [executes]
    have mem : (AccessType.read, b.cpu.r d.rn + d.imm) ∈ Execute.accesses b f d := by
      simp only [Execute.accesses, kind, List.mem_singleton]
    refine ⟨.single (.refused (.read (b.cpu.r d.rn + d.imm) 4) mem ?_ granted), fun is => by cases is⟩
    simp only [ProgAccess.perform, read, Option.isSome_none]
  · rw [read] at refused
    cases refused

/-- Along every run in which nothing but accesses of the program is refused, no SecureFault is left
over and refused data accesses are reported as such, the fault status is that of the program. -/
theorem along_statusAccounted (keeps : env.KeepsStatus) (m : Machine δ) (is : List (DebugInput δ))
    (granted : Along (debugStep env decode32) (OwnAccessesGranted env decode32) m is) :
    Along (debugStep env decode32) (StatusAccounted env decode32) m is := by
  refine granted.imp fun m i granted => ?_
  cases i with
  | step i =>
    cases i with
    | pass h => exact passAccounted_of_calm keeps granted
    | restart vtor w => exact restart_status keeps granted
  | read addr len => exact gdbReadBytes_status keeps granted

/-- `LDR R1, [SP]` with the stack at the end of RAM. -/
def pastRam : Machine Unit :=
  start Board.scsEnv Board.cpu (.both 0) <| Board.guarded
    [(0x00, 0x20010000), (0x04, 0x41), (0x0C, 0x61), (0x40, 0xBF009900), (0x60, 0xBF00BF00)]

def strayPc : Machine Unit :=
  start Board.scsEnv Board.cpu (.both 0) <| Board.guarded
    [(0x00, 0x20008000), (0x04, 0x30000001), (0x0C, 0x61), (0x60, 0xBF00BF00)]

theorem along_statusAccounted_pastRam :
    Along (debugStep Board.scsEnv Board.decode32)
      (StatusAccounted Board.scsEnv Board.decode32) pastRam
      [.step (.pass ⟨id, id⟩), .read 0x20000000 8] := by
  have first : PassCalm Board.scsEnv Board.decode32 pastRam ⟨id, id⟩ := by
    have calm : (pastRam.attend ⟨id, id⟩).1.pending.isNone = true := by decide +kernel
    refine ⟨fun idles => absurd idles.2.1 (by decide +kernel), fun _ => ?_⟩
    rw [Option.isNone_iff_eq_none.mp calm]
    refine ⟨rfl, fetchCalm_of_ldr ?_ ?_ ?_ ?_ ?_ ?_⟩
    all_goals decide +kernel
  have second : OwnAccessesGranted Board.scsEnv Board.decode32
      (debugStep Board.scsEnv Board.decode32 pastRam (.step (.pass ⟨id, id⟩)))
      (.read 0x20000000 8) := by
    simp only [OwnAccessesGranted]
    decide +kernel
  exact along_statusAccounted (World.scsRegions_keepStatus _ rfl rfl) _ _ ⟨first, second, trivial⟩

theorem debug_reads_add_daccviol :
    ¬ ∀ (m : Machine Unit) (is : List (DebugInput Unit)),
      Along (debugStep Board.scsEnv Board.decode32)
        (StatusAccounted Board.scsEnv Board.decode32) m is := by
  intro h
  obtain ⟨-, accounted⟩ := (h strayPc [.step (.pass ⟨id, id⟩)]).1
  have fetch := accounted (by decide +kernel)
  have calm : (strayPc.attend ⟨id, id⟩).1.pending.isNone = true := by decide +kernel
  rw [Option.isNone_iff_eq_none.mp calm] at fetch
  have fault : ((strayPc.attend ⟨id, id⟩).1.ready Board.scsEnv ⟨id, id⟩).1.fault = true := by
    decide +kernel
  simp only [FetchAccounted, fault, if_true] at fetch
  exact absurd fetch.1.cfsr (by decide +kernel)

end Machine

end M33mu
