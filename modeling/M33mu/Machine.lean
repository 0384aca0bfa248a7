import M33mu.Decode
import M33mu.Exception
import M33mu.ItState

/-!
The machine that the main loop runs: the CPU in its world, the cached IT triple and the stop
flag. The early returns of the source are continuations that are not called.
-/

namespace M33mu

structure Machine (δ : Type u) extends Sys δ where
  it : ItCache
  done : Bool
  /-- `reset_again`: the loop was left for a system reset. -/
  resetAgain : Bool
  /-- The words offered to the memory map by the loops of `PUSH`, `POP`, `LDM` and `STM`, kept
  for statements about them. -/
  transfers : List Word

/-- `MM_EXEC_OK` and `MM_EXEC_CONTINUE`: whether the main loop goes on with its pass. -/
inductive ExecStatus
  | ok
  | cont
  deriving DecidableEq, Repr

abbrev Outcome (δ : Type u) := ExecStatus × Machine δ

namespace Cpu

def tzRetLrSentinel : Word := 0xDEAD0001

def tzSyncR13FromActiveSp (c : Cpu) : Cpu := c.setActiveSp c.getActiveSp

def tzNoteNsMspTop (c : Cpu) : Cpu :=
  match c.secState with
  | .nonsecure => c.noteMspTop .nonsecure
  | .secure => c

def tzExecSg (c : Cpu) : Cpu :=
  match c.secState with
  | .nonsecure => { c with secState := .secure }.tzSyncR13FromActiveSp
  | .secure => c

def tzExecBxns (c : Cpu) (target : Word) : Cpu :=
  ({ c with secState := .nonsecure }.tzNoteNsMspTop.tzSyncR13FromActiveSp).setReg 15 (target ||| 1)

def tzExecBlxns (c : Cpu) (target returnAddr : Word) : Cpu :=
  let c' := { c with tz := c.tz.push ⟨returnAddr ||| 1, c.secState, c.mode⟩ }.setReg 14 tzRetLrSentinel
  ({ c' with secState := .nonsecure }.tzNoteNsMspTop.tzSyncR13FromActiveSp).setReg 15 (target ||| 1)

/-- `BX LR` back from a call to Non-secure code, up to the update of the stack pointer. -/
def tzReturn (c : Cpu) (rec : TzRecord) : Cpu :=
  ({ c with tz := c.tz.pop.2, secState := rec.sec, mode := rec.mode }.setReg 15 (rec.pc ||| 1)).setReg
    14 (rec.pc ||| 1)

end Cpu

namespace Machine

variable {δ : Type u} (env : Env δ)

def setReg (m : Machine δ) (i : Reg) (v : Word) : Machine δ := { m with cpu := m.cpu.setReg i v }

def withWorld (m : Machine δ) (w : World δ) : Machine δ := { m with world := w }

def record (m : Machine δ) (e : Event) : Machine δ := { m with trace := e :: m.trace }

def offer (m : Machine δ) (addr : Word) : Machine δ := { m with transfers := addr :: m.transfers }

/-- The outcome of a helper of the source that reports success: a failure stops the emulation. -/
def afterCall (m : Machine δ) (r : Bool × Sys δ) : Machine δ :=
  { m with toSys := r.2, done := m.done || !r.1 }

/-- `itstate_sync_from_xpsr` into the cached triple. -/
def syncIt (m : Machine δ) : Machine δ := { m with it := ItState.syncFromXpsr m.cpu.xpsr }

def excReturn (m : Machine δ) (excRet : Word) : Machine δ :=
  let r := m.toSys.excReturnUnstack env excRet
  let m := m.afterCall r
  if r.1 then m.syncIt else m

theorem excReturn_of_frame {m : Machine δ} {excRet : Word} {info : ExcReturnInfo} {frame : Frame}
    {w : World δ} (hd : excReturnDecode excRet = some info)
    (read : m.world.readFrame env info.targetSec (m.cpu.unstackSp info) = (some frame, w)) :
    m.excReturn env excRet = syncIt { m with
      cpu := { m.cpu with exc := m.cpu.exc.pop.2 }.resume info frame (m.cpu.unstackSp info)
      world := w
      trace := .ret excRet m.cpu.mode m.cpu.secState frame.xpsr :: m.trace } := by
  simp [excReturn, afterCall, Sys.excReturnUnstack_of_frame env hd read]

theorem excReturn_of_ok {m : Machine δ} {excRet : Word}
    (ok : (m.toSys.excReturnUnstack env excRet).1 = true) :
    ∃ info frame w, excReturnDecode excRet = some info ∧
      m.excReturn env excRet = syncIt { m with
        cpu := { m.cpu with exc := m.cpu.exc.pop.2 }.resume info frame (m.cpu.unstackSp info)
        world := w
        trace := .ret excRet m.cpu.mode m.cpu.secState frame.xpsr :: m.trace } := by
  obtain ⟨info, frame, w, hd, read⟩ := Sys.exists_frame_of_excReturnUnstack env ok
  exact ⟨info, frame, w, hd, excReturn_of_frame env hd read⟩

theorem done_excReturn_of_failed {m : Machine δ} {excRet : Word}
    (failed : (m.toSys.excReturnUnstack env excRet).1 = false) :
    (m.excReturn env excRet).done = true := by
  simp [excReturn, afterCall, failed]

/-- `handle_pc_write`, with the check of its result that every caller makes. -/
def handlePcWrite (m : Machine δ) (value : Word) : Machine δ :=
  if isExcReturn value then m.excReturn env value else m.setReg 15 (value ||| 1)

def memFault (m : Machine δ) (f : FetchResult) (addr : Word) (isExec : Bool) : Machine δ :=
  m.afterCall (m.toSys.raiseMemFault env f.pcFetch m.cpu.xpsr addr isExec)

def usageFault (m : Machine δ) (f : FetchResult) (ufsrBits : Word) : Machine δ :=
  m.afterCall (m.toSys.raiseUsageFault env f.pcFetch m.cpu.xpsr ufsrBits)

def ufsrDivbyzero : Word := 1#32 <<< 25

def ufsrStkof : Word := 1#32 <<< 20

def spLimited (c : Cpu) (value : Word) : Bool :=
  c.getActiveSplim != 0 && value < c.getActiveSplim

/-- `EXEC_SET_SP`; a value below the limit stops the emulation, whether or not the UsageFault is
entered. -/
def setSp (m : Machine δ) (f : FetchResult) (value : Word) : Outcome δ :=
  if spLimited m.cpu value then (.cont, { m.usageFault env f ufsrStkof with done := true })
  else (.ok, { m with cpu := m.cpu.setActiveSp value })

def setRegOrSp (m : Machine δ) (f : FetchResult) (i : Reg) (value : Word) : Outcome δ :=
  if i = 13 then m.setSp env f value else (.ok, m.setReg i value)

/-- `mm_memmap_read` in the current security state, a refusal of which raises a fault. -/
def load (m : Machine δ) (f : FetchResult) (addr size : Word) (isExec : Bool)
    (k : Word → Machine δ → Outcome δ) : Outcome δ :=
  match m.world.read env m.cpu.secState addr size with
  | (some v, w) => k v (m.withWorld w)
  | (none, w) => (.cont, (m.withWorld w).memFault env f addr isExec)

/-- `mm_memmap_write` in the current security state, a refusal of which raises a fault. -/
def store (m : Machine δ) (f : FetchResult) (addr size value : Word)
    (k : Machine δ → Outcome δ) : Outcome δ :=
  match m.world.write env m.cpu.secState addr size value with
  | (true, w) => k (m.withWorld w)
  | (false, w) => (.cont, (m.withWorld w).memFault env f addr false)

/-- How the transfer loop of a load or store multiple ends: the next address, whether it consumed
an `EXC_RETURN` value, and the machine. -/
structure Transferred (δ : Type u) where
  addr : Word
  excReturnTaken : Bool
  machine : Machine δ
  /-- Where a word was refused, and the machine before the fault was raised, kept for statements
  about it. -/
  refused : Option (Word × Machine δ)

/-- The loop of `LDM` and `POP`. -/
def loadRegs (m : Machine δ) (f : FetchResult) : List Reg → Word → Transferred δ
  | [], addr => ⟨addr, false, m, none⟩
  | reg :: regs, addr =>
    let m := m.offer addr
    match m.world.read env m.cpu.secState addr 4 with
    | (none, w) =>
      let m := m.withWorld w
      ⟨addr, false, m.memFault env f addr false, some (addr, m)⟩
    | (some v, w) =>
      if reg = 15 then
        let m := (m.withWorld w).handlePcWrite env v
        if isExcReturn v then ⟨addr + 4, true, m, none⟩ else m.loadRegs f regs (addr + 4)
      else ((m.withWorld w).setReg reg v).loadRegs f regs (addr + 4)

/-- The loop of `STM` and `PUSH`. -/
def storeRegs (m : Machine δ) (f : FetchResult) : List Reg → Word → Transferred δ
  | [], addr => ⟨addr, false, m, none⟩
  | reg :: regs, addr =>
    let m := m.offer addr
    let val := if reg = 15 then m.cpu.r 15 ||| 1 else m.cpu.r reg
    match m.world.write env m.cpu.secState addr 4 val with
    | (false, w) =>
      let m := m.withWorld w
      ⟨addr, false, m.memFault env f addr false, some (addr, m)⟩
    | (true, w) => (m.withWorld w).storeRegs f regs (addr + 4)

end Machine

end M33mu
