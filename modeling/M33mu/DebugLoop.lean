import M33mu.Breakpoints
import M33mu.Pass

/-!
The inner loop of `main` with the debugger attached: what a client that steps or continues gets.
The environment has `optGdb` set.
-/

namespace M33mu

open Lib

/-- `mm_gdb_stub_notify_stop`, beside the report that it sends. -/
def GdbStub.notifyStop (s : GdbStub) : GdbStub := { s with running := false, stepPending := false }

structure Debugged (δ : Type u) where
  machine : Machine δ
  stub : GdbStub

namespace Debugged

variable {δ : Type u} (env : Env δ) (decode32 : Word → Decoded) (dflt : RamDefault)

/-- The head of a pass of the loop, and whether it goes on to `handle_pending`. -/
def head (s : Debugged δ) (h : Host δ) : Debugged δ × Bool :=
  if s.machine.done || s.machine.resetAgain then (s, false)
  else if s.machine.world.faultPending then ({ s with machine := { s.machine with done := true } }, false)
  else if !s.stub.running then ({ s with machine := s.machine.endPass h }, false)
  else if s.stub.breakpointHit (s.machine.cpu.r 15 ||| 1) then
    ({ s with stub := s.stub.notifyStop }, false)
  else
    let (m, goesOn) := s.machine.attend h
    ({ s with machine := m }, goesOn)

/-- The pass after the instruction at `f` was executed, up to the polls at its end, and whether it
gets to what follows them. -/
def afterExecute (s : Debugged δ) (h : Host δ) (d : Decoded) : Outcome δ → Debugged δ × Bool
  | (.cont, m) =>
    let refused := (d.kind = .undefined ∨ d.kind = .udf) ∧ m.done = true
    (⟨m, if refused then s.stub.notifyStop else s.stub⟩, false)
  | (.ok, m) =>
    let m := (if m.inBlock d then m.advanceIt else m).endPass h
    (⟨m, if d.kind = .bkpt then s.stub.notifyStop else s.stub⟩, !m.resetAgain)

def body (s : Debugged δ) (h : Host δ) : Debugged δ × Bool :=
  match s.machine.pending with
  | some (excNum, handlerSec, m) => ({ s with machine := m.dispatch env excNum handlerSec }, false)
  | none =>
    let (f, m) := s.machine.ready env h
    let d := Decode.decodeT32 decode32 f
    if f.fault then
      let r := m.toSys.raiseMemFault env (m.cpu.r 15 &&& ~~~1#32) m.cpu.xpsr f.faultAddr true
      (⟨m.afterCall r, if r.1 then s.stub else s.stub.notifyStop⟩, false)
    else if d.undefined then
      let r := m.toSys.raiseUsageFault env f.pcFetch m.cpu.xpsr (1#32 <<< 16)
      (⟨m.afterCall r, if r.1 then s.stub else s.stub.notifyStop⟩, false)
    else if m.inBlock d && !m.it.takes (.ofXpsr m.cpu.xpsr) then ({ s with machine := m.advanceIt }, false)
    else s.afterExecute h d (executeDecoded env f d m)

def tail (s : Debugged δ) : Debugged δ :=
  let m := s.machine
  let (stub, world) := s.stub.maybeRearm env dflt m.world m.cpu.secState (m.cpu.r 15)
  ⟨m.withWorld world, if stub.stepPending then stub.notifyStop else stub⟩

def reached (s : Debugged δ) (h : Host δ) : Debugged δ × Bool :=
  match s.head h with
  | (s, false) => (s, false)
  | (s, true) => s.body env decode32 h

/-- One pass of the inner loop of `main`, with no packet waiting. -/
def pass (s : Debugged δ) (h : Host δ) : Debugged δ :=
  match s.reached env decode32 h with
  | (s, false) => s
  | (s, true) => s.tail env dflt

/-- `mm_gdb_stub_handle`, for one packet. -/
def packet (s : Debugged δ) (p : GdbPacket) : Option GdbReply × Debugged δ :=
  let (reply, stub, cpu, world) := s.stub.handle env dflt s.machine.cpu s.machine.world p
  (reply, ⟨{ s.machine with cpu := cpu, world := world }, stub⟩)

end Debugged

namespace Machine

variable {δ : Type u} (env : Env δ)

theorem attend_r (m : Machine δ) (h : Host δ) : (m.attend h).1.cpu.r = m.cpu.r := by
  rw [attend]
  split
  · rfl
  split
  · rfl
  split
  · rfl
  split
  · rfl
  split
  · rw [endPass_cpu]
  · dsimp only
    rw [endPass_cpu]
    split <;> rfl

theorem ready_pcFetch (m : Machine δ) (h : Host δ) :
    (m.ready env h).1.pcFetch = m.cpu.r 15 &&& ~~~1#32 := by
  rw [ready, fetch]
  dsimp only
  split
  · rfl
  split
  · split <;> rfl
  · rfl

end Machine

namespace Debugged

variable {δ : Type u} {env : Env δ} {decode32 : Word → Decoded} {dflt : RamDefault}
  {s : Debugged δ} {h : Host δ}

inductive Heads (s : Debugged δ) (h : Host δ) : Debugged δ × Bool → Prop
  | goesOn (running : s.stub.running = true)
    (away : s.stub.breakpointHit (s.machine.cpu.r 15 ||| 1) = false)
    (attends : (s.machine.attend h).2 = true) : Heads s h (⟨(s.machine.attend h).1, s.stub⟩, true)
  | rests {m : Machine δ} (regs : m.cpu.r = s.machine.cpu.r) : Heads s h (⟨m, s.stub⟩, false)
  | stops (running : s.stub.running = true)
    (hit : s.stub.breakpointHit (s.machine.cpu.r 15 ||| 1) = true) :
    Heads s h (⟨s.machine, s.stub.notifyStop⟩, false)

theorem heads (s : Debugged δ) (h : Host δ) : s.Heads h (s.head h) := by
  rw [head]
  split
  · exact .rests rfl
  split
  · exact .rests rfl
  split
  · exact .rests (congrArg Cpu.r (Machine.endPass_cpu h s.machine))
  rename_i runs
  have running : s.stub.running = true := by simpa using runs
  split
  · exact .stops running ‹_›
  · rename_i away
    dsimp only
    cases goesOn : (s.machine.attend h).2 with
    | false => exact .rests (Machine.attend_r s.machine h)
    | true => exact .goesOn running (eq_false_of_ne_true away) goesOn

theorem stub_body (s : Debugged δ) (h : Host δ) :
    (s.body env decode32 h).1.stub = s.stub ∨
      (s.body env decode32 h).1.stub = s.stub.notifyStop := by
  have either (c : Prop) [Decidable c] (stub stub' : GdbStub) :
      (if c then stub else stub') = stub ∨ (if c then stub else stub') = stub' := by
    split
    · exact .inl rfl
    · exact .inr rfl
  rw [body]
  split
  · exact .inl rfl
  dsimp only
  split
  · exact either ..
  split
  · exact either ..
  split
  · exact .inl rfl
  · generalize executeDecoded env _ _ _ = o
    obtain ⟨status, m⟩ := o
    cases status with
    | cont => exact (either ..).symm
    | ok => exact (either ..).symm

theorem body_tail (goesOn : (s.machine.attend h).2 = true)
    (tail : (body env decode32 ⟨(s.machine.attend h).1, s.stub⟩ h).2 = true) :
    ∃ f d m, s.machine.executed env decode32 h = some (f, d, m) := by
  rw [body] at tail
  cases calm : (s.machine.attend h).1.pending with
  | some accepted =>
    rw [calm] at tail
    cases tail
  | none =>
    rw [calm] at tail
    dsimp only at tail
    cases fault : ((s.machine.attend h).1.ready env h).1.fault with
    | true =>
      rw [fault, if_pos rfl] at tail
      cases tail
    | false =>
    rw [fault, if_neg Bool.false_ne_true] at tail
    cases undefined : (Decode.decodeT32 decode32 ((s.machine.attend h).1.ready env h).1).undefined with
    | true =>
      rw [undefined, if_pos rfl] at tail
      cases tail
    | false =>
    rw [undefined, if_neg Bool.false_ne_true] at tail
    split at tail
    · cases tail
    · rename_i runs
      exact ⟨_, _, _, Machine.executed_eq_some.mpr
        ⟨goesOn, calm, rfl, rfl, fault, undefined, eq_false_of_ne_true runs⟩⟩

theorem machine_body (s : Debugged δ) (h : Host δ) :
    (s.body env decode32 h).1.machine = s.machine.handlePending env decode32 h := by
  rw [body, Machine.handlePending]
  cases s.machine.pending with
  | some accepted => rfl
  | none =>
    dsimp only
    rw [Machine.executePass]
    generalize s.machine.ready env h = r
    obtain ⟨f, m⟩ := r
    dsimp only
    split
    · rfl
    split
    · rfl
    split
    · rfl
    · generalize executeDecoded env _ _ _ = o
      obtain ⟨status, m'⟩ := o
      cases status <;> rfl

variable (env decode32) in
theorem stub_reached (s : Debugged δ) (h : Host δ) :
    (s.reached env decode32 h).1.stub = s.stub ∨
      (s.reached env decode32 h).1.stub = s.stub.notifyStop := by
  rw [reached]
  have ends := s.heads h
  generalize s.head h = r at ends
  cases ends with
  | goesOn => exact stub_body _ h
  | rests => exact .inl rfl
  | stops => exact .inr rfl

structure LeftAlone (s : Debugged δ) : Prop where
  running : s.stub.running = true
  away : s.stub.breakpointHit (s.machine.cpu.r 15 ||| 1) = false
  settled : s.stub.rearmValid = false

theorem machine_reached (alone : s.LeftAlone) :
    (s.reached env decode32 h).1.machine = s.machine.mainPass env decode32 h := by
  by_cases ended : (s.machine.done || s.machine.resetAgain) = true
  · simp only [reached, head, Machine.mainPass, Machine.attend, ended, if_true]
  by_cases fault : s.machine.world.faultPending = true
  · simp only [reached, head, Machine.mainPass, Machine.attend, ended, fault, Bool.false_eq_true,
      if_false, if_true]
  have runs : (!s.stub.running) = false := by
    rw [alone.running]
    rfl
  simp only [reached, head, ended, fault, runs, alone.away, Bool.false_eq_true, if_false,
    Machine.mainPass]
  rcases s.machine.attend h with ⟨m, _ | _⟩
  · rfl
  · exact machine_body ⟨m, s.stub⟩ h

theorem machine_pass (alone : s.LeftAlone) :
    (s.pass env decode32 dflt h).machine = s.machine.mainPass env decode32 h := by
  have reaches : (s.reached env decode32 h).1.machine = s.machine.mainPass env decode32 h :=
    machine_reached alone
  have stub := s.stub_reached env decode32 h
  rw [pass]
  generalize s.reached env decode32 h = r at reaches stub
  obtain ⟨t, _ | _⟩ := r
  · exact reaches
  · have settled : t.stub.rearmValid = false := by
      rcases stub with same | told
      · exact (congrArg GdbStub.rearmValid same).trans alone.settled
      · exact (congrArg GdbStub.rearmValid told).trans alone.settled
    have rearms : t.stub.maybeRearm env dflt t.machine.world t.machine.cpu.secState
        (t.machine.cpu.r 15) = (t.stub, t.machine.world) := by
      rw [GdbStub.maybeRearm, settled]
      rfl
    rw [← reaches]
    simp only [tail, rearms]
    rfl

theorem machine_run (s : Debugged δ) {hs : List (Host δ)}
    (alone : Along (fun s h => s.pass env decode32 dflt h) (fun s _ => s.LeftAlone) s hs) :
    (run (fun s h => s.pass env decode32 dflt h) s hs).machine =
      run (fun m h => m.mainPass env decode32 h) s.machine hs := by
  induction hs generalizing s with
  | nil => rfl
  | cons h hs ih =>
    rw [run_cons, run_cons, ih _ alone.2, machine_pass alone.1]

theorem goesOn_of_head (goesOn : (s.head h).2 = true) : s.stub.running = true ∧
    s.stub.breakpointHit (s.machine.cpu.r 15 ||| 1) = false ∧ (s.machine.attend h).2 = true ∧
      s.head h = (⟨(s.machine.attend h).1, s.stub⟩, true) := by
  have ends := s.heads h
  generalize s.head h = r at ends goesOn
  cases ends with
  | goesOn running away attends => exact ⟨running, away, attends, rfl⟩
  | rests => exact nomatch goesOn
  | stops => exact nomatch goesOn

theorem executed_of_tail (tail : (s.reached env decode32 h).2 = true) :
    (s.head h).2 = true ∧ ∃ f d m, s.machine.executed env decode32 h = some (f, d, m) ∧
      f.pcFetch = s.machine.cpu.r 15 &&& ~~~1#32 := by
  have goesOn : (s.head h).2 = true := by
    rw [reached] at tail
    generalize s.head h = r at tail
    obtain ⟨t, goesOn⟩ := r
    cases goesOn with
    | false => exact nomatch tail
    | true => rfl
  obtain ⟨-, -, attends, eq⟩ := goesOn_of_head goesOn
  rw [reached, eq] at tail
  obtain ⟨f, d, m, executed⟩ := body_tail attends tail
  obtain ⟨-, -, fetched, -⟩ := Machine.executed_eq_some.mp executed
  refine ⟨goesOn, f, d, m, executed, ?_⟩
  have at' := Machine.ready_pcFetch env (s.machine.attend h).1 h
  rwa [fetched, Machine.attend_r] at at'

end Debugged

inductive DebugEvent (δ : Type u)
  | packet (p : GdbPacket)
  | pass (h : Host δ)

/-- A session with the program running in it, and the steps since it was last resumed. -/
structure DebugRun (δ : Type u) extends Debugged δ where
  asked : List Word
  own : Buffer × Word → Byte
  steps : Nat

namespace DebugRun

variable {δ : Type u} (env : Env δ) (decode32 : Word → Decoded) (dflt : RamDefault)

def session (s : DebugRun δ) : GdbSession δ := ⟨s.stub, s.machine.world, s.asked, s.own⟩

def attach (m : Machine δ) : DebugRun δ := ⟨⟨m, .init⟩, [], m.world.map.bytes, 0⟩

def stepsAfter (s : DebugRun δ) : GdbPacket → Nat
  | .c _ | .s _ => 0
  | _ => s.steps

def step (s : DebugRun δ) : DebugEvent δ → DebugRun δ
  | .packet p =>
    let (reply, t) := s.packet env dflt p
    ⟨t, s.session.askedAfter reply p, s.own, s.stepsAfter p⟩
  | .pass h =>
    let ran := s.session.step env dflt (.ran (s.reached env decode32 h).1.machine.world)
    ⟨s.pass env decode32 dflt h, s.asked, ran.own, if (s.head h).2 then s.steps + 1 else s.steps⟩

def pc (s : DebugRun δ) : Word := s.machine.cpu.r 15 ||| 1

end DebugRun

def GdbSession.InMemory {δ : Type u} (t : GdbSession δ) (addr : Word) : Prop :=
  ∃ i, (t.stub.breakpoints i).valid = true ∧ (t.stub.breakpoints i).addr = addr ∧
    ∀ k < t.world.map.insnLen t.own (t.stub.breakpoints i).at',
      ∃ p, t.world.map.bytePlace ((t.stub.breakpoints i).at' + BitVec.ofNat 32 k) = some p ∧
        GdbStub.patch[k]? = some (t.world.map.bytes p)

namespace DebugRun

variable {δ : Type u} (env : Env δ) (decode32 : Word → Decoded) (dflt : RamDefault)

/-- What a client is promised of a pass. A command to step is for one step, and none is taken at a
breakpoint but the first of a command to continue, which is the instruction there; a stop comes after
a step, and after exactly one where the command was to step, with all breakpoints in memory but for one
at the PC. -/
structure PassObeys (s : DebugRun δ) (h : Host δ) : Prop where
  once : (s.head h).2 = true → s.stub.stepPending = true → s.steps = 0
  arrival : (s.head h).2 = true → s.pc ∈ s.asked →
    s.steps = 0 ∧ s.stub.breakpointHit s.pc = false ∧ (s.stub.stepPending = false →
      ∃ f d m, s.machine.executed env decode32 h = some (f, d, m) ∧
        f.pcFetch = s.machine.cpu.r 15 &&& ~~~1#32)
  report : s.stub.running = true →
    (s.step env decode32 dflt (.pass h)).stub.running = false →
      0 < (s.step env decode32 dflt (.pass h)).steps ∧
        (s.stub.stepPending = true → (s.step env decode32 dflt (.pass h)).steps = 1 ∧
          ∀ a ∈ s.asked, a = (s.step env decode32 dflt (.pass h)).pc ∨
            (s.step env decode32 dflt (.pass h)).session.InMemory a)

def Obeys (s : DebugRun δ) : DebugEvent δ → Prop
  | .packet _ => True
  | .pass h => s.PassObeys env decode32 dflt h

/-- What a command that resumes at `addr` has to meet: a breakpoint there can be taken out, and no
other is out of the table. -/
def ResumeFits (s : DebugRun δ) (addr : Option Word) : Prop :=
  let cpu := GdbStub.resumeAt s.machine.cpu addr
  s.stub.breakpointHit (cpu.r 15) = true →
    (s.stub.removeBreakpoint env dflt s.machine.world cpu.secState (cpu.r 15)).1 = true ∧
      (s.stub.rearmValid = true → s.stub.rearmAddr ||| 1 = cpu.r 15 ||| 1)

/-- Packets come while the program is stopped. A step for which the client waits, or that is taken
with a breakpoint out of the table, has to get to the tail of the loop, and there the breakpoint has to
go back; a command to continue must not find the PC still on it. -/
def Fits (s : DebugRun δ) : DebugEvent δ → Prop
  | .packet p =>
    s.stub.running = false ∧ s.session.Meets env dflt (.packet s.machine.cpu p) ∧
      match p with
      | .c addr | .s addr => s.ResumeFits env dflt addr
      | _ => True
  | .pass h =>
    let t := (s.reached env decode32 h).1
    s.session.Meets env dflt (.ran t.machine.world) ∧
      ((s.head h).2 = true → s.stub.stepPending = true ∨ s.stub.rearmValid = true →
        (s.reached env decode32 h).2 = true) ∧
      ((s.reached env decode32 h).2 = true → s.stub.rearmValid = true →
        if t.machine.cpu.r 15 ||| 1 = s.stub.rearmAddr then s.stub.stepPending = true
        else
          t.stub.InstallOk env dflt t.machine.world t.machine.cpu.secState
              (t.stub.rearmAddr &&& ~~~1#32) ∧
            (t.stub.installBreakpoint env dflt t.machine.world t.machine.cpu.secState
              t.stub.rearmAddr).1 = true)

end DebugRun

namespace GdbStub

def Held (s : GdbStub) (addr : Word) : Prop :=
  ∃ i, (s.breakpoints i).valid = true ∧ (s.breakpoints i).addr = addr

theorem breakpointHit_iff {s : GdbStub} {pc : Word} :
    s.breakpointHit pc = true ↔ s.Held (pc ||| 1) := by
  rw [breakpointHit, Option.isSome_iff_exists]
  constructor
  · rintro ⟨i, found⟩
    exact ⟨i, slotAt_eq_some found⟩
  · rintro ⟨i, valid, addr⟩
    cases found : s.slotAt (pc ||| 1) with
    | some j => exact ⟨j, rfl⟩
    | none => exact absurd addr (slotAt_eq_none.mp found i valid)

theorem or_one_or_one (a : Word) : (a ||| 1) ||| 1 = a ||| 1 := by
  rw [BitVec.or_assoc, BitVec.or_self]

variable {δ : Type u} {w w' : World δ} {s s' : GdbStub} {addr : Word} {done : Bool}

structure SameRun (s s' : GdbStub) : Prop where
  running : s'.running = s.running
  stepPending : s'.stepPending = s.stepPending
  rearmValid : s'.rearmValid = s.rearmValid
  rearmAddr : s'.rearmAddr = s.rearmAddr

theorem Installed.sameRun (installed : Installed w s addr done s' w') : s.SameRun s' := by
  cases installed <;> exact ⟨rfl, rfl, rfl, rfl⟩

theorem Removed.sameRun (removed : Removed w s addr done s' w') : s.SameRun s' := by
  cases removed <;> exact ⟨rfl, rfl, rfl, rfl⟩

theorem Installed.held (installed : Installed w s addr done s' w') {a : Word} (held : s.Held a) :
    s'.Held a := by
  cases installed with
  | failed => exact held
  | done _ i _ free =>
    obtain ⟨j, valid, at'⟩ := held
    have other : j ≠ i := by
      rintro rfl
      exact absurd valid (by rw [free]; exact Bool.false_ne_true)
    exact ⟨j, by rwa [setBreakpoint_of_ne _ other], by rwa [setBreakpoint_of_ne _ other]⟩

theorem Installed.held_self (installed : Installed w s addr true s' w') : s'.Held (addr ||| 1) := by
  cases installed with
  | done _ i => exact ⟨i, by rw [setBreakpoint_self], by rw [setBreakpoint_self]⟩

theorem Removed.held (removed : Removed w s addr done s' w') {a : Word} (held : s.Held a)
    (other : a ≠ addr ||| 1) : s'.Held a := by
  cases removed with
  | failed => exact held
  | done _ i _ found =>
    obtain ⟨j, valid, at'⟩ := held
    have apart : j ≠ i := by
      rintro rfl
      exact other (at'.symm.trans (slotAt_eq_some found).2)
    exact ⟨j, by rwa [setBreakpoint_of_ne _ apart], by rwa [setBreakpoint_of_ne _ apart]⟩

theorem Removed.not_held (removed : Removed w s addr true s' w') {own : Buffer × Word → Byte}
    {m : Memmap} (laid : Laid own m s.breakpoints) : ¬ s'.Held (addr ||| 1) := by
  cases removed with
  | done _ i _ found =>
    rintro ⟨j, valid, at'⟩
    by_cases same : j = i
    · subst same
      rw [setBreakpoint_self] at valid
      exact nomatch valid
    · rw [setBreakpoint_of_ne _ same] at valid at'
      obtain ⟨valid', at''⟩ := slotAt_eq_some found
      exact same (laid.once valid valid' (by rw [Breakpoint.at', at', Breakpoint.at', at'']))

end GdbStub

theorem GdbSession.Inv.of_stub {δ : Type u} {t : GdbSession δ} (inv : t.Inv) {stub : GdbStub}
    (table : stub.breakpoints = t.stub.breakpoints) (valid : stub.rearmValid = t.stub.rearmValid)
    (addr : stub.rearmAddr = t.stub.rearmAddr) : GdbSession.Inv { t with stub := stub } where
  laid := table.symm ▸ inv.laid
  asked i there := by
    dsimp only at there ⊢
    rw [table] at there ⊢
    exact inv.asked i there
  pending there := by
    dsimp only at there ⊢
    rw [valid] at there
    rw [addr]
    exact inv.pending there

namespace DebugRun

variable {δ : Type u} {env : Env δ} {decode32 : Word → Decoded} {dflt : RamDefault}
  {s : DebugRun δ}

/-- What every event keeps that fits. While the program runs, a breakpoint is out of the table for
the first step only, and none is at the PC that it was resumed at. -/
structure Inv (s : DebugRun δ) : Prop where
  session : s.session.Inv
  held : ∀ a ∈ s.asked, s.stub.Held a ∨ s.stub.rearmValid = true ∧ s.stub.rearmAddr ||| 1 = a
  waiting : s.stub.running = true →
    s.steps = 0 ∨ s.stub.stepPending = false ∧ s.stub.rearmValid = false
  clear : s.stub.running = true → s.steps = 0 → ¬ s.stub.Held s.pc

theorem inv_attach (m : Machine δ) : (attach m).Inv where
  session := GdbSession.inv_attach m.world
  held _ asked := nomatch asked
  waiting running := nomatch running
  clear running := nomatch running

variable (env decode32 dflt) in
theorem session_packet (s : DebugRun δ) (p : GdbPacket) :
    (s.step env decode32 dflt (.packet p)).session =
      s.session.step env dflt (.packet s.machine.cpu p) := rfl

theorem Inv.of_stopped {t : DebugRun δ} (session : t.session.Inv)
    (held : ∀ a ∈ t.asked, t.stub.Held a ∨ t.stub.rearmValid = true ∧ t.stub.rearmAddr ||| 1 = a)
    (stopped : t.stub.running = false) : t.Inv where
  session := session
  held := held
  waiting running := nomatch stopped.symm.trans running
  clear running := nomatch stopped.symm.trans running

theorem inv_Z (inv : s.Inv) {addr : Word} (fits : s.Fits env decode32 dflt (.packet (.Z addr))) :
    (s.step env decode32 dflt (.packet (.Z addr))).Inv := by
  obtain ⟨stopped, meets, -⟩ := fits
  have kept := (GdbSession.inv_step inv.session _ meets).1
  rw [← session_packet env decode32 dflt] at kept
  obtain ⟨done, s', w', ran, installed⟩ :=
    GdbStub.installed_of_ok (inv.session.laid.absent rfl addr) meets
  have same := installed.sameRun
  have next : s.step env decode32 dflt (.packet (.Z addr)) =
      ⟨⟨{ s.machine with world := w' }, s'⟩,
        if done = true then (addr ||| 1) :: s.asked else s.asked, s.own, s.steps⟩ := by
    have ran' : s.stub.installBreakpoint env dflt s.machine.world s.machine.cpu.secState addr =
        (done, s', w') := ran
    simp only [step, Debugged.packet, GdbStub.handle, ran', GdbSession.askedAfter, session,
      GdbSession.replyOf_eq_ok, stepsAfter]
  rw [next] at kept ⊢
  refine .of_stopped kept (fun a asked => ?_) (same.running.trans stopped)
  dsimp only at asked ⊢
  rw [same.rearmValid, same.rearmAddr]
  cases done with
  | false => exact (inv.held a asked).imp_left installed.held
  | true =>
    rw [if_pos rfl] at asked
    rcases List.mem_cons.mp asked with rfl | before
    · exact .inl (clear_or_one addr ▸ installed.held_self)
    · exact (inv.held a before).imp_left installed.held

theorem inv_z (inv : s.Inv) {addr : Word} (fits : s.Fits env decode32 dflt (.packet (.z addr))) :
    (s.step env decode32 dflt (.packet (.z addr))).Inv := by
  obtain ⟨stopped, meets, -⟩ := fits
  have kept := (GdbSession.inv_step inv.session _ meets).1
  rw [← session_packet env decode32 dflt] at kept
  obtain ⟨done, s', w', ran, removed⟩ := GdbStub.removed_of_ok inv.session.laid meets.1
  have same := removed.sameRun
  have next : s.step env decode32 dflt (.packet (.z addr)) =
      ⟨⟨{ s.machine with world := w' }, s'⟩,
        if done = true ∨ (!s.stub.breakpointHit addr) = true then s.asked.filter (· ≠ addr ||| 1)
        else s.asked, s.own, s.steps⟩ := by
    have ran' : s.stub.removeBreakpoint env dflt s.machine.world s.machine.cpu.secState addr =
        (done, s', w') := ran
    simp only [step, Debugged.packet, GdbStub.handle, ran', GdbSession.askedAfter, session,
      GdbSession.replyOf_eq_ok, stepsAfter]
  rw [next] at kept ⊢
  refine .of_stopped kept (fun a asked => ?_) (same.running.trans stopped)
  dsimp only at asked ⊢
  rw [same.rearmValid, same.rearmAddr]
  split at asked
  · obtain ⟨before, other⟩ := List.mem_filter.mp asked
    refine (inv.held a before).imp_left fun held => removed.held held ?_
    rw [clear_or_one]
    exact of_decide_eq_true other
  · rename_i kept'
    cases done with
    | true => exact absurd (.inl rfl) kept'
    | false =>
      cases removed with
      | failed => exact inv.held a asked

theorem stepOver_held (inv : s.Inv) {cpu : Cpu}
    (ok : s.stub.RemoveOk env dflt s.machine.world cpu.secState (cpu.r 15 &&& ~~~1#32))
    (resumes : s.stub.breakpointHit (cpu.r 15) = true →
      (s.stub.removeBreakpoint env dflt s.machine.world cpu.secState (cpu.r 15)).1 = true ∧
        (s.stub.rearmValid = true → s.stub.rearmAddr ||| 1 = cpu.r 15 ||| 1)) :
    let t := (s.stub.stepOver env dflt cpu s.machine.world).1
    (∀ a ∈ s.asked, t.Held a ∨ t.rearmValid = true ∧ t.rearmAddr ||| 1 = a) ∧
      ¬ t.Held (cpu.r 15 ||| 1) := by
  rw [GdbStub.stepOver]
  by_cases hit : s.stub.breakpointHit (cpu.r 15) = true
  · obtain ⟨done, s', w', ran, removed⟩ := GdbStub.removed_of_ok inv.session.laid ok
    have ran' : s.stub.removeBreakpoint env dflt s.machine.world cpu.secState (cpu.r 15) =
        (done, s', w') := ran
    obtain ⟨success, only⟩ := resumes hit
    rw [ran'] at success
    obtain rfl : done = true := success
    rw [if_pos hit, ran']
    have gone := removed.not_held inv.session.laid
    rw [clear_or_one] at gone
    refine ⟨fun a asked => ?_, gone⟩
    by_cases here : a = cpu.r 15 ||| 1
    · exact .inr ⟨rfl, here.symm⟩
    · rcases inv.held a asked with held | ⟨pending, addr⟩
      · exact .inl (removed.held held (by rwa [clear_or_one]))
      · exact absurd (addr.symm.trans (only pending)) here
  · rw [if_neg hit]
    exact ⟨inv.held, mt GdbStub.breakpointHit_iff.mpr hit⟩

theorem inv_resume (inv : s.Inv) {addr : Option Word} {single : Bool} {p : GdbPacket}
    (command : p = if single then .s addr else .c addr)
    (fits : s.Fits env decode32 dflt (.packet p)) :
    (s.step env decode32 dflt (.packet p)).Inv := by
  have kept : (s.step env decode32 dflt (.packet p)).session.Inv :=
    (GdbSession.inv_step inv.session _ fits.2.1).1
  obtain ⟨-, meets, resumes⟩ := fits
  have next : s.step env decode32 dflt (.packet p) =
      ⟨⟨{ s.machine with
          cpu := GdbStub.resumeAt s.machine.cpu addr
          world := (s.stub.stepOver env dflt (GdbStub.resumeAt s.machine.cpu addr)
            s.machine.world).2 },
        { (s.stub.stepOver env dflt (GdbStub.resumeAt s.machine.cpu addr) s.machine.world).1 with
          running := true, stepPending := single }⟩, s.asked, s.own, 0⟩ := by
    subst command
    cases single <;> rfl
  have ok : s.stub.RemoveOk env dflt s.machine.world (GdbStub.resumeAt s.machine.cpu addr).secState
      ((GdbStub.resumeAt s.machine.cpu addr).r 15 &&& ~~~1#32) := by
    have secState : (GdbStub.resumeAt s.machine.cpu addr).secState = s.machine.cpu.secState := by
      cases addr <;> rfl
    rw [secState]
    subst command
    cases single <;> exact meets
  have resumes' : s.ResumeFits env dflt addr := by
    subst command
    cases single <;> exact resumes
  rw [ResumeFits] at resumes'
  rw [next] at kept ⊢
  clear next
  generalize GdbStub.resumeAt s.machine.cpu addr = cpu at *
  obtain ⟨held, away⟩ := stepOver_held inv ok resumes'
  exact ⟨kept, held, fun _ => .inl rfl, fun _ _ => away⟩

theorem inv_reached (inv : s.Inv) {h : Host δ} (meets : s.session.Meets env dflt
    (.ran (s.reached env decode32 h).1.machine.world)) :
    GdbSession.Inv ⟨(s.reached env decode32 h).1.stub, (s.reached env decode32 h).1.machine.world,
      s.asked, (s.session.step env dflt (.ran (s.reached env decode32 h).1.machine.world)).own⟩ := by
  have ran : (s.session.step env dflt (.ran (s.reached env decode32 h).1.machine.world)).Inv :=
    GdbSession.inv_ran inv.session meets.1 meets.2
  rcases Debugged.stub_reached env decode32 s.toDebugged h with same | told
  · exact ran.of_stub (congrArg GdbStub.breakpoints same) (congrArg GdbStub.rearmValid same)
      (congrArg GdbStub.rearmAddr same)
  · rw [told]
    exact ran.of_stub rfl rfl rfl

end DebugRun

namespace Debugged

variable {δ : Type u} {env : Env δ} {decode32 : Word → Decoded} {dflt : RamDefault}
  {s : Debugged δ}

structure Tailed (s t : Debugged δ) (asked : List Word) (own : Buffer × Word → Byte) : Prop where
  session : GdbSession.Inv ⟨t.stub, t.machine.world, asked, own⟩
  held : ∀ a ∈ asked, t.stub.Held a ∨ t.stub.rearmValid = true ∧ t.stub.rearmAddr ||| 1 = a
  cpu : t.machine.cpu = s.machine.cpu
  running : t.stub.running = (s.stub.running && !s.stub.stepPending)
  stepPending : t.stub.stepPending = false
  pending : t.stub.rearmValid = true →
    s.stub.rearmValid = true ∧ s.machine.cpu.r 15 ||| 1 = s.stub.rearmAddr ∧
      t.stub.rearmAddr = s.stub.rearmAddr

theorem Tailed.reported {stub : GdbStub} {w : World δ} {asked : List Word}
    {own : Buffer × Word → Byte} (session : GdbSession.Inv ⟨stub, w, asked, own⟩)
    (held : ∀ a ∈ asked, stub.Held a ∨ stub.rearmValid = true ∧ stub.rearmAddr ||| 1 = a)
    (running : stub.running = s.stub.running) (single : stub.stepPending = s.stub.stepPending)
    (pending : stub.rearmValid = true → s.stub.rearmValid = true ∧
      s.machine.cpu.r 15 ||| 1 = s.stub.rearmAddr ∧ stub.rearmAddr = s.stub.rearmAddr) :
    s.Tailed ⟨s.machine.withWorld w, if stub.stepPending then stub.notifyStop else stub⟩ asked own := by
  cases steps : s.stub.stepPending with
  | false =>
    rw [steps] at single
    rw [single, if_neg Bool.false_ne_true]
    exact ⟨session, held, rfl, by rw [running, steps]; exact (Bool.and_true _).symm, single, pending⟩
  | true =>
    rw [steps] at single
    rw [single, if_pos rfl]
    exact ⟨session.of_stub rfl rfl rfl, held, rfl, by rw [steps]; exact (Bool.and_false _).symm, rfl,
      pending⟩

theorem tailed {asked : List Word} {own : Buffer × Word → Byte}
    (session : GdbSession.Inv ⟨s.stub, s.machine.world, asked, own⟩)
    (held : ∀ a ∈ asked, s.stub.Held a ∨ s.stub.rearmValid = true ∧ s.stub.rearmAddr ||| 1 = a)
    (fits : s.stub.rearmValid = true → s.machine.cpu.r 15 ||| 1 ≠ s.stub.rearmAddr →
      s.stub.InstallOk env dflt s.machine.world s.machine.cpu.secState
          (s.stub.rearmAddr &&& ~~~1#32) ∧
        (s.stub.installBreakpoint env dflt s.machine.world s.machine.cpu.secState
          s.stub.rearmAddr).1 = true) : s.Tailed (s.tail env dflt) asked own := by
  have rearmed : (GdbSession.step env dflt ⟨s.stub, s.machine.world, asked, own⟩
      (.rearm s.machine.cpu.secState (s.machine.cpu.r 15))).Inv :=
    (GdbSession.inv_rearm session fun valid apart => (fits valid apart).1).1
  rw [GdbSession.step] at rearmed
  rw [tail]
  dsimp only at rearmed ⊢
  rw [GdbStub.maybeRearm] at rearmed ⊢
  cases valid : s.stub.rearmValid with
  | false =>
    rw [valid, if_pos (by decide)] at rearmed
    rw [if_pos (by decide)]
    exact .reported session held rfl rfl fun there => by cases valid.symm.trans there
  | true =>
    by_cases here : s.machine.cpu.r 15 ||| 1 = s.stub.rearmAddr
    · rw [if_neg (by decide), if_pos here]
      exact .reported session held rfl rfl fun _ => ⟨valid, here, rfl⟩
    · obtain ⟨ok, success⟩ := fits valid here
      obtain ⟨done, s', w', ran, installed⟩ :=
        GdbStub.installed_of_ok (session.laid.absent rfl s.stub.rearmAddr) ok
      dsimp only at ran
      rw [ran] at success
      obtain rfl : done = true := success
      rw [valid, if_neg (by decide), if_neg here, ran] at rearmed
      rw [if_neg (by decide), if_neg here, ran]
      have same := installed.sameRun
      have back (a : Word) (asked' : a ∈ asked) : s'.Held a := by
        rcases held a asked' with there | ⟨-, addr⟩
        · exact installed.held there
        · rw [← addr, ← clear_or_one]
          exact installed.held_self
      exact .reported rearmed (fun a asked' => .inl (back a asked')) same.running same.stepPending
        fun is => by cases is

end Debugged

namespace DebugRun

variable {δ : Type u} {env : Env δ} {decode32 : Word → Decoded} {dflt : RamDefault}
  {s : DebugRun δ} {h : Host δ}

theorem hit_iff : s.stub.breakpointHit (s.machine.cpu.r 15 ||| 1) = true ↔ s.stub.Held s.pc := by
  rw [GdbStub.breakpointHit_iff, GdbStub.or_one_or_one, pc]

variable (env decode32) in
theorem reached_of_rest (rests : (s.head h).2 = false) :
    s.reached env decode32 h = ((s.head h).1, false) := by
  rw [Debugged.reached]
  generalize s.head h = r at rests
  obtain ⟨t, goesOn⟩ := r
  obtain rfl : goesOn = false := rests
  rfl

theorem keeps_of_rest (inv : s.Inv) (fits : s.Fits env decode32 dflt (.pass h))
    (rests : (s.head h).2 = false) :
    (s.step env decode32 dflt (.pass h)).Inv ∧ s.PassObeys env decode32 dflt h := by
  have kept := inv_reached inv fits.1
  have reached := reached_of_rest env decode32 rests
  have next : s.step env decode32 dflt (.pass h) =
      ⟨(s.head h).1, s.asked, (s.session.step env dflt (.ran (s.head h).1.machine.world)).own,
        s.steps⟩ := by
    rw [step, Debugged.pass, reached, rests]
    rfl
  rw [reached] at kept
  have idle : (s.head h).2 ≠ true := by rw [rests]; exact Bool.false_ne_true
  have ends := s.heads h
  generalize s.head h = r at ends next kept rests
  cases ends with
  | goesOn => exact nomatch rests
  | rests regs =>
    have same : (s.step env decode32 dflt (.pass h)).pc = s.pc := by
      rw [next, pc, pc]
      exact congrArg (fun r : Reg → Word => r 15 ||| 1) regs
    refine ⟨?_, fun goesOn => absurd goesOn idle, fun goesOn => absurd goesOn idle, ?_⟩
    · have clear := inv.clear
      rw [← same] at clear
      rw [next] at clear ⊢
      exact ⟨kept, inv.held, inv.waiting, clear⟩
    · rw [next]
      exact fun running stopped => nomatch running.symm.trans stopped
  | stops running hit =>
    have held := hit_iff.mp hit
    have later : s.steps ≠ 0 := fun first => inv.clear running first held
    refine ⟨?_, fun goesOn => absurd goesOn idle, fun goesOn => absurd goesOn idle, ?_⟩
    · rw [next]
      exact .of_stopped kept inv.held rfl
    · intro _ _
      rw [next]
      refine ⟨Nat.pos_of_ne_zero later, fun single => ?_⟩
      rcases inv.waiting running with first | ⟨continues, -⟩
      · exact absurd first later
      · exact nomatch continues.symm.trans single

theorem begins (inv : s.Inv) (goesOn : (s.head h).2 = true) :
    s.stub.running = true ∧ (s.stub.stepPending = true → s.steps = 0) ∧
      (s.pc ∈ s.asked → s.stub.rearmValid = true ∧ s.steps = 0 ∧
        s.stub.breakpointHit s.pc = false) := by
  obtain ⟨running, away, -, -⟩ := Debugged.goesOn_of_head goesOn
  refine ⟨running, fun single => ?_, fun asked => ?_⟩
  · rcases inv.waiting running with first | ⟨continues, -⟩
    · exact first
    · exact nomatch continues.symm.trans single
  · rcases inv.held s.pc asked with held | ⟨valid, -⟩
    · exact nomatch away.symm.trans (hit_iff.mpr held)
    · refine ⟨valid, ?_, away⟩
      rcases inv.waiting running with first | ⟨-, none'⟩
      · exact first
      · exact nomatch none'.symm.trans valid

theorem keeps_of_restart (inv : s.Inv) (fits : s.Fits env decode32 dflt (.pass h))
    (goesOn : (s.head h).2 = true) (restarts : (s.reached env decode32 h).2 = false) :
    (s.step env decode32 dflt (.pass h)).Inv ∧ s.PassObeys env decode32 dflt h := by
  have kept := inv_reached inv fits.1
  obtain ⟨running, first, arrival⟩ := begins inv goesOn
  have free : ¬ (s.stub.stepPending = true ∨ s.stub.rearmValid = true) := fun waits =>
    nomatch restarts.symm.trans (fits.2.1 goesOn waits)
  obtain ⟨continues, none'⟩ := not_or.mp free
  have next : s.step env decode32 dflt (.pass h) =
      ⟨(s.reached env decode32 h).1, s.asked,
        (s.session.step env dflt (.ran (s.reached env decode32 h).1.machine.world)).own,
        s.steps + 1⟩ := by
    rw [step, Debugged.pass, goesOn]
    generalize s.reached env decode32 h = r at restarts
    obtain ⟨t, tail⟩ := r
    obtain rfl : tail = false := restarts
    rfl
  have stub := Debugged.stub_reached env decode32 s.toDebugged h
  refine ⟨?_, fun _ single => absurd single continues, fun _ asked => ?_, fun _ _ => ?_⟩
  · rw [next]
    generalize (s.reached env decode32 h).1 = t at kept stub
    refine ⟨kept, ?_, fun _ => .inr ⟨?_, ?_⟩, fun _ none' => nomatch none'⟩
    · rcases stub with same | told
      · rw [same]; exact inv.held
      · rw [told]; exact inv.held
    · rcases stub with same | told
      · rw [same]; exact eq_false_of_ne_true continues
      · rw [told]; rfl
    · rcases stub with same | told
      · rw [same]; exact eq_false_of_ne_true none'
      · rw [told]; exact eq_false_of_ne_true none'
  · exact absurd (arrival asked).1 none'
  · rw [next]
    exact ⟨Nat.succ_pos _, fun single => absurd single continues⟩

theorem inMemory_of_held {t : GdbSession δ} (inv : t.Inv) {addr : Word} (held : t.stub.Held addr) :
    t.InMemory addr := by
  obtain ⟨i, valid, addr⟩ := held
  exact ⟨i, valid, addr, inv.sound.put i valid⟩

theorem keeps_of_tail (inv : s.Inv) (fits : s.Fits env decode32 dflt (.pass h))
    (tail : (s.reached env decode32 h).2 = true) :
    (s.step env decode32 dflt (.pass h)).Inv ∧ s.PassObeys env decode32 dflt h := by
  have kept := inv_reached inv fits.1
  have back := fits.2.2 tail
  obtain ⟨goesOn, executed⟩ := Debugged.executed_of_tail tail
  obtain ⟨running, first, arrival⟩ := begins inv goesOn
  have next : s.step env decode32 dflt (.pass h) =
      ⟨(s.reached env decode32 h).1.tail env dflt, s.asked,
        (s.session.step env dflt (.ran (s.reached env decode32 h).1.machine.world)).own,
        s.steps + 1⟩ := by
    rw [step, Debugged.pass, goesOn]
    generalize s.reached env decode32 h = r at tail
    obtain ⟨t, tail'⟩ := r
    obtain rfl : tail' = true := tail
    rfl
  have stub := Debugged.stub_reached env decode32 s.toDebugged h
  generalize (s.reached env decode32 h).1 = t at *
  generalize GdbSession.own _ = own at *
  have same : t.stub.breakpoints = s.stub.breakpoints ∧ t.stub.rearmValid = s.stub.rearmValid ∧
      t.stub.rearmAddr = s.stub.rearmAddr := by
    rcases stub with same | told
    · rw [same]; exact ⟨rfl, rfl, rfl⟩
    · rw [told]; exact ⟨rfl, rfl, rfl⟩
  obtain ⟨table, valid, addr⟩ := same
  have held : ∀ a ∈ s.asked, t.stub.Held a ∨
      t.stub.rearmValid = true ∧ t.stub.rearmAddr ||| 1 = a := by
    rw [valid, addr]
    intro a asked
    refine (inv.held a asked).imp_left fun there => ?_
    rwa [GdbStub.Held, table]
  have tailed : t.Tailed (t.tail env dflt) s.asked own := by
    refine Debugged.tailed kept held fun waits apart => ?_
    have goes := back (valid ▸ waits)
    rwa [if_neg (addr ▸ apart)] at goes
  -- A breakpoint that stays out is at the PC, and the client waits for the step.
  have out (waits : (t.tail env dflt).stub.rearmValid = true) :
      (t.tail env dflt).stub.rearmAddr ||| 1 = (t.tail env dflt).machine.cpu.r 15 ||| 1 ∧
        s.stub.stepPending = true := by
    obtain ⟨before, here, same⟩ := tailed.pending waits
    have goes := back (valid ▸ before)
    rw [if_pos (addr ▸ here)] at goes
    exact ⟨by rw [same, ← here, GdbStub.or_one_or_one, tailed.cpu], goes⟩
  refine ⟨?_, fun _ => first, fun _ asked => ?_, fun _ _ => ?_⟩
  · rw [next]
    refine ⟨tailed.session, tailed.held, fun runs => .inr ⟨tailed.stepPending, ?_⟩,
      fun _ none' => nomatch none'⟩
    have runs' : (t.tail env dflt).stub.running = true := runs
    rw [tailed.running, Bool.and_eq_true, Bool.not_eq_true'] at runs'
    refine eq_false_of_ne_true fun waits => ?_
    rcases stub with same | told
    · rw [same] at runs'
      exact nomatch (out waits).2.symm.trans runs'.2
    · rw [told] at runs'
      exact nomatch runs'.1
  · exact ⟨(arrival asked).2.1, (arrival asked).2.2, fun _ => executed⟩
  · rw [next]
    refine ⟨Nat.succ_pos _, fun single => ⟨congrArg Nat.succ (first single), fun a asked => ?_⟩⟩
    rcases tailed.held a asked with there | ⟨waits, here⟩
    · exact .inr (inMemory_of_held tailed.session there)
    · exact .inl (here.symm.trans (out waits).1)

theorem keeps_step (inv : s.Inv) (e : DebugEvent δ) (fits : s.Fits env decode32 dflt e) :
    (s.step env decode32 dflt e).Inv ∧ s.Obeys env decode32 dflt e := by
  cases e with
  | packet p =>
    refine ⟨?_, trivial⟩
    cases p with
    | c addr => exact inv_resume inv (show _ = if false then _ else _ from rfl) fits
    | s addr => exact inv_resume inv (show _ = if true then _ else _ from rfl) fits
    | Z addr => exact inv_Z inv fits
    | z addr => exact inv_z inv fits
  | pass h =>
    cases goesOn : (s.head h).2 with
    | false => exact keeps_of_rest inv fits goesOn
    | true =>
      cases tail : (s.reached env decode32 h).2 with
      | false => exact keeps_of_restart inv fits goesOn tail
      | true => exact keeps_of_tail inv fits tail

/-- A client that steps and continues gets what it is promised, along every run of packets and passes
that fit, of any machine. -/
theorem debug_run_obeys (env : Env δ) (decode32 : Word → Decoded) (dflt : RamDefault)
    (m : Machine δ) (events : List (DebugEvent δ))
    (fits : Along (step env decode32 dflt) (Fits env decode32 dflt) (attach m) events) :
    Throughout (step env decode32 dflt) (fun s => s.session.Sound) (attach m) events ∧
      Along (step env decode32 dflt) (Obeys env decode32 dflt) (attach m) events := by
  have steps (s : DebugRun δ) (e : DebugEvent δ) (inv : s.Inv)
      (fits : s.Fits env decode32 dflt e) :
      (s.step env decode32 dflt e).Inv ∧ s.Obeys env decode32 dflt e := keeps_step inv e fits
  obtain ⟨keeps, obeys⟩ := throughout_and_along steps (inv_attach m) fits
  exact ⟨keeps.imp fun s inv => inv.session.sound, obeys⟩

end DebugRun

namespace Board

def gdbEnv : Env Unit := { env with optGdb := true }

/-- A flash of `NOP`s, about to be run with the given IT state. -/
def nops (it : ItCache) (xpsr : Word) : Machine Unit where
  cpu := { cpu.setReg 15 0x10000101 with xpsr := xpsr }
  world := configured mcxw71c (fun i => if i.getLsbD 0 then 0xBF else 0x00) fun _ => 0
  trace := []
  it := it
  done := false
  resetAgain := false
  transfers := []

def quiet : Host Unit := ⟨id, id⟩

def stepping : List (DebugEvent Unit) := [.packet (.Z 0x10000100), .packet (.s none), .pass quiet]

def stepped (n : Nat) : DebugRun Unit :=
  run (DebugRun.step gdbEnv decode32 ramDefault) (.attach (nops ⟨0, 0, 0⟩ 0x01000000))
    (stepping.take n)

def skipping : List (DebugEvent Unit) := [.packet (.s none), .pass quiet, .pass quiet]

end Board

namespace DebugRun

theorem debug_run_steps_over :
    Throughout (step Board.gdbEnv Board.decode32 Board.ramDefault) (fun s => s.session.Sound)
        (attach (Board.nops ⟨0, 0, 0⟩ 0x01000000)) Board.stepping ∧
      Along (step Board.gdbEnv Board.decode32 Board.ramDefault)
        (Obeys Board.gdbEnv Board.decode32 Board.ramDefault)
        (attach (Board.nops ⟨0, 0, 0⟩ 0x01000000)) Board.stepping := by
  have set' : (Board.stepped 0).stub.InstallOk Board.gdbEnv Board.ramDefault
      (Board.stepped 0).machine.world .secure 0x10000100 :=
    .inr (.inr ⟨by decide, by decide, by decide, 0, rfl⟩)
  have over' : (Board.stepped 1).stub.RemoveOk Board.gdbEnv Board.ramDefault
      (Board.stepped 1).machine.world .secure 0x10000100 := by decide
  have resumes : (Board.stepped 1).ResumeFits Board.gdbEnv Board.ramDefault none :=
    fun _ => ⟨by decide, fun waits => nomatch waits⟩
  have gone : ∀ i, ((Board.stepped 2).stub.breakpoints i).valid = false := by decide
  have ran : (Board.stepped 2).session.Meets Board.gdbEnv Board.ramDefault
      (.ran ((Board.stepped 2).reached Board.gdbEnv Board.decode32 Board.quiet).1.machine.world) := by
    refine ⟨rfl, fun p covered => ?_⟩
    obtain ⟨i, valid, -⟩ := covered
    exact nomatch (gone i).symm.trans valid
  have tail : ((Board.stepped 2).reached Board.gdbEnv Board.decode32 Board.quiet).2 = true := by
    decide
  have back : ((Board.stepped 2).reached Board.gdbEnv Board.decode32 Board.quiet).1.stub.InstallOk
      Board.gdbEnv Board.ramDefault
      ((Board.stepped 2).reached Board.gdbEnv Board.decode32 Board.quiet).1.machine.world .secure
      0x10000100 :=
    .inr (.inr ⟨by decide, by decide, by decide, 0, by decide⟩)
  refine debug_run_obeys Board.gdbEnv Board.decode32 Board.ramDefault _ Board.stepping
    ⟨⟨rfl, set', trivial⟩, ⟨by decide, over', resumes⟩,
      ⟨ran, fun _ _ => tail, fun _ _ => ?_⟩, trivial⟩
  split
  · rfl
  · exact ⟨back, by decide⟩

/-- The skipped instruction starts the loop again before the step is reported, and a second step
follows. -/
theorem skipped_step_not_reported :
    ¬ ∀ (m : Machine Unit) (events : List (DebugEvent Unit)),
      Along (step Board.gdbEnv Board.decode32 Board.ramDefault)
        (Obeys Board.gdbEnv Board.decode32 Board.ramDefault) (attach m) events := by
  intro always
  obtain ⟨-, -, obeys, -⟩ := always (Board.nops ⟨1, 1, 0⟩ 0x01000800) Board.skipping
  exact absurd (obeys.once (by decide +kernel) (by decide +kernel)) (by decide +kernel)

end DebugRun

end M33mu
