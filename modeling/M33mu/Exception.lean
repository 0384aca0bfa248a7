import M33mu.Memmap

/-!
Exception entry and return. Entry pushes a basic frame and records where; an `EXC_RETURN` value
written to the PC unstacks it again.
-/

namespace M33mu

open Lib

/-- What a run has done to the exception and security state, kept for statements about runs;
no function of the model reads it. -/
inductive Event
  /-- An exception entry: from, to, and the stacked xPSR. -/
  | enter (num : Word) (origin target : SecState) (xpsr : Word)
  /-- A successful `EXC_RETURN`: the value, the mode and security it was consumed in, and the
  unstacked xPSR. -/
  | ret (value : Word) (mode : Mode) (sec : SecState) (xpsr : Word)
  /-- `SG` in Non-secure state, fetched from `pc`. -/
  | sg (pc : Word)
  /-- `BLXNS` from the given state. -/
  | call (sec : SecState)
  /-- `BX LR` back from a `BLXNS` call. -/
  | tzReturn (sec : SecState)
  deriving DecidableEq, Repr

structure Sys (δ : Type u) where
  cpu : Cpu
  world : World δ
  trace : List Event

namespace Vect

def hardfault : Word := 3

def memmanage : Word := 4

def usagefault : Word := 6

def securefault : Word := 7

def svcall : Word := 11

def pendsv : Word := 14

def systick : Word := 15

end Vect

structure Frame where
  r0 : Word
  r1 : Word
  r2 : Word
  r3 : Word
  r12 : Word
  lr : Word
  pc : Word
  xpsr : Word
  deriving DecidableEq, Repr

def Frame.words (f : Frame) : List Word := [f.r0, f.r1, f.r2, f.r3, f.r12, f.lr, f.pc, f.xpsr]

def Cpu.frame (c : Cpu) (returnPc xpsrIn : Word) : Frame :=
  ⟨c.r 0, c.r 1, c.r 2, c.r 3, c.r 12, c.r 14, returnPc ||| 1, xpsrIn ||| 0x01000000⟩

structure ExcReturnInfo where
  usePsp : Bool
  basicFrame : Bool
  toThread : Bool
  targetSec : SecState
  deriving DecidableEq, Repr

def isExcReturn (value : Word) : Bool := value &&& 0xffffff00 == 0xffffff00

def excReturnDecode (value : Word) : Option ExcReturnInfo :=
  if isExcReturn value then
    some
      { basicFrame := value.getLsbD 4
        usePsp := value.getLsbD 2
        toThread := value.getLsbD 3
        targetSec := if value.getLsbD 6 then .secure else .nonsecure }
  else none

def excReturnEncode (sec : SecState) (usePsp toThread : Bool) : Word :=
  let base : Word := match toThread, sec with
    | true, .nonsecure => 0xFFFFFFB9
    | true, .secure => 0xFFFFFFF9
    | false, .nonsecure => 0xFFFFFFB1
    | false, .secure => 0xFFFFFFF1
  if toThread && usePsp then base ||| 0x4 else base

theorem excReturnDecode_encode (sec : SecState) (usePsp toThread : Bool) :
    excReturnDecode (excReturnEncode sec usePsp toThread) =
      some ⟨usePsp && toThread, true, toThread, sec⟩ := by
  cases sec <;> cases usePsp <;> cases toThread <;> decide

namespace Cpu

/-- `(sec == MM_NONSECURE) ? cpu->psp_ns : cpu->psp_s`, or the same for the main stack. -/
def bankSp (c : Cpu) (sec : SecState) (usePsp : Bool) : Word :=
  if usePsp then c.psp.get sec else c.msp.get sec

def setBankSp (c : Cpu) (sec : SecState) (usePsp : Bool) (v : Word) : Cpu :=
  { c with
    psp := if usePsp then c.psp.set sec v else c.psp
    msp := if usePsp then c.msp else c.msp.set sec v }

theorem exists_setActiveSp_eq (c : Cpu) (v : Word) : ∃ top low valid,
    c.setActiveSp v = { c.setBankSp c.secState c.usesPsp v with
      r := Function.update c.r 13 v
      mspTop := top
      mspMin := low
      mspTopValid := valid } := by
  simp only [setActiveSp, setBankSp]
  split
  · exact ⟨_, _, _, rfl⟩
  · simp only [initMspTop, updateMspMin]
    split <;> split <;> exact ⟨_, _, _, rfl⟩

theorem setActiveSp_r_13 (c : Cpu) (v : Word) : (c.setActiveSp v).r 13 = v :=
  setReg_r_self _ 13 v

theorem setActiveSp_r_of_ne (c : Cpu) (v : Word) {i : Reg} (ne : i ≠ 13) :
    (c.setActiveSp v).r i = c.r i := by
  obtain ⟨top, low, valid, eq⟩ := c.exists_setActiveSp_eq v
  rw [eq]
  exact Function.update_of_ne ne v c.r

theorem usesPsp_of_handler {c : Cpu} (handler : c.mode = .handler) : c.usesPsp = false := by
  simp [usesPsp, handler]

theorem getActiveSp_of_handler {c : Cpu} (handler : c.mode = .handler) :
    c.getActiveSp = c.msp.get c.secState := by
  simp [getActiveSp, usesPsp_of_handler handler]

/-- `use_psp_entry`. -/
def usePspEntry (c : Cpu) : Bool := c.mode == .thread && (c.control.get c.secState).getLsbD 1

def enterHandler (c : Cpu) (sp xpsr handler : Word) (handlerSec : SecState) : Cpu :=
  let c' := c.setBankSp c.secState c.usePspEntry sp
  { c' with
    exc := c.exc.push ⟨sp, c.usePspEntry, c.secState⟩
    r := Function.update (Function.update (Function.update c.r 13 (c'.msp.get handlerSec)) 14
      (excReturnEncode c.secState c.usePspEntry (c.mode == .thread))) 15 (handler ||| 1)
    xpsr := xpsr
    mode := .handler
    secState := handlerSec }

def resume (c : Cpu) (info : ExcReturnInfo) (f : Frame) (sp : Word) : Cpu :=
  let c' := c.setBankSp info.targetSec info.usePsp (sp + 32)
  { c' with
    r := fun
      | 0 => f.r0
      | 1 => f.r1
      | 2 => f.r2
      | 3 => f.r3
      | 12 => f.r12
      | 13 => sp + 32
      | 14 => f.lr
      | 15 => f.pc ||| 1
      | i => c.r i
    xpsr := if info.toThread then f.xpsr &&& ~~~0x1FF#32 else f.xpsr
    secState := info.targetSec
    mode := if info.toThread then .thread else .handler }

/-- The stack pointer to unstack from: the recorded one, unless there is no record or it was made
in the other security state. -/
def unstackSp (c : Cpu) (info : ExcReturnInfo) : Word :=
  match c.exc.pop.1 with
  | some rec => if rec.sec = info.targetSec then rec.sp else c.bankSp info.targetSec info.usePsp
  | none => c.bankSp info.targetSec info.usePsp

end Cpu

namespace World

variable {δ : Type u} (env : Env δ)

def readWords (w : World δ) (sec : SecState) (addr : Word) : Nat → Option (List Word) × World δ
  | 0 => (some [], w)
  | n + 1 =>
    match w.read env sec addr 4 with
    | (none, w) => (none, w)
    | (some v, w) =>
      let (vs, w) := w.readWords sec (addr + 4) n
      (vs.map (v :: ·), w)

def readFrame (w : World δ) (sec : SecState) (sp : Word) : Option Frame × World δ :=
  match w.readWords env sec sp 8 with
  | (some [r0, r1, r2, r3, r12, lr, pc, xpsr], w) => (some ⟨r0, r1, r2, r3, r12, lr, pc, xpsr⟩, w)
  | (_, w) => (none, w)

/-- Pushes words downwards from `sp`; the result is the last address written. -/
def pushWords (w : World δ) (sec : SecState) (sp : Word) : List Word → Option Word × World δ
  | [] => (some sp, w)
  | v :: vs =>
    match w.write env sec (sp - 4) 4 v with
    | (true, w) => w.pushWords sec (sp - 4) vs
    | (false, w) => (none, w)

def pushFrame (w : World δ) (sec : SecState) (sp : Word) (f : Frame) : Option Word × World δ :=
  w.pushWords env sec sp f.words.reverse

def vectorRead (w : World δ) (sec : SecState) (vtor index : Word) : Option Word × World δ :=
  w.read env sec (vtor + index * 4) 4

theorem vectorRead_zero (w : World δ) (sec : SecState) (vtor : Word) :
    w.vectorRead env sec vtor 0 = w.read env sec vtor 4 :=
  congrArg (w.read env sec · 4) (BitVec.add_zero vtor)

theorem vectorRead_one (w : World δ) (sec : SecState) (vtor : Word) :
    w.vectorRead env sec vtor 1 = w.read env sec (vtor + 4) 4 := rfl

/-- `mm_exception_read_handler`; a handler that cannot be read stays `0`. -/
def exceptionReadHandler (w : World δ) (sec : SecState) (index : Word) : Word × World δ :=
  let vtor := w.scs.vtor.get sec
  match w.vectorRead env sec vtor index with
  | (some handler, w) => (handler, w)
  | (none, w) =>
    match w.map.flash with
    | some buf =>
      if w.map.flashBase ≤ vtor ∧
          (vtor - w.map.flashBase) + (index + 1) * 4 ≤ w.map.flashLength then
        ((Memmap.readBufLe buf (vtor - w.map.flashBase + index * 4) 4).getD 0, w)
      else (0, w)
    | none => (0, w)

def setShcsr (w : World δ) (sec : SecState) (i : Nat) : World δ :=
  { w with scs := { w.scs with
      shcsr := w.scs.shcsr.set sec (w.scs.shcsr.get sec ||| 1#32 <<< i) } }

def noteQuit (w : World δ) : World δ :=
  if env.quitOnFaults then { w with faultPending := true } else w

/-- The pending and active bits that entry to a system exception updates. -/
def noteEntry (w : World δ) (sec : SecState) (excNum : Word) : World δ :=
  if excNum = Vect.svcall then w.setShcsr sec 7
  else if excNum = Vect.pendsv then
    { w with scs := { w.scs with pendSv := false } }.setShcsr sec 10
  else if excNum = Vect.systick then
    { w with scs := { w.scs with pendSt := false } }.setShcsr sec 11
  else w

def noteMemManage (w : World δ) (sec : SecState) (addr : Word) (isExec : Bool) : World δ :=
  let bits : Word := if isExec then 0x1 else 0x2
  { w with scs := { w.scs with
      cfsr := w.scs.cfsr ||| (bits ||| 1#32 <<< 7)
      mmfar := addr } }.setShcsr sec 0

theorem pushWords_fst {w w' : World δ} {sec : SecState} {sp sp' : Word} {ws : List Word}
    (h : w.pushWords env sec sp ws = (some sp', w')) :
    sp' = sp - 4 * BitVec.ofNat 32 ws.length := by
  induction ws generalizing w sp with
  | nil =>
    simp only [pushWords, Prod.mk.injEq, Option.some.injEq] at h
    simp [h.1]
  | cons v vs ih =>
    simp only [pushWords] at h
    split at h
    · rw [ih h, List.length_cons, BitVec.ofNat_add]
      grind
    · cases h

theorem pushFrame_fst {w w' : World δ} {sec : SecState} {sp sp' : Word} {f : Frame}
    (h : w.pushFrame env sec sp f = (some sp', w')) : sp' = sp - 32 :=
  pushWords_fst env h

end World

namespace Sys

variable {δ : Type u} (env : Env δ)

/-- `exc_return_unstack`; the side stack is popped even when the frame cannot be read. -/
def excReturnUnstack (s : Sys δ) (excRet : Word) : Bool × Sys δ :=
  match excReturnDecode excRet with
  | none => (false, s)
  | some info =>
    let sp := s.cpu.unstackSp info
    let c := { s.cpu with exc := s.cpu.exc.pop.2 }
    match s.world.readFrame env info.targetSec sp with
    | (some f, w) =>
      (true, ⟨c.resume info f sp, w, .ret excRet c.mode c.secState f.xpsr :: s.trace⟩)
    | (none, w) => (false, ⟨c, w, s.trace⟩)

theorem excReturnUnstack_of_frame {s : Sys δ} {excRet : Word} {info : ExcReturnInfo} {f : Frame}
    {w : World δ} (hd : excReturnDecode excRet = some info)
    (hf : s.world.readFrame env info.targetSec (s.cpu.unstackSp info) = (some f, w)) :
    s.excReturnUnstack env excRet =
      (true, ⟨{ s.cpu with exc := s.cpu.exc.pop.2 }.resume info f (s.cpu.unstackSp info), w,
        .ret excRet s.cpu.mode s.cpu.secState f.xpsr :: s.trace⟩) := by
  simp only [excReturnUnstack, hd, hf]

theorem exists_frame_of_excReturnUnstack {s : Sys δ} {excRet : Word}
    (ok : (s.excReturnUnstack env excRet).1 = true) :
    ∃ info f w, excReturnDecode excRet = some info ∧
      s.world.readFrame env info.targetSec (s.cpu.unstackSp info) = (some f, w) := by
  simp only [excReturnUnstack] at ok
  split at ok
  · cases ok
  · rename_i info hd
    split at ok
    · rename_i f w read
      exact ⟨info, f, w, hd, read⟩
    · cases ok

/-- What the three ways of raising an exception share: push the frame and start `handler`. A
failed push leaves the CPU as it was. -/
def enter (s : Sys δ) (num returnPc xpsrIn xpsr handler : Word) (handlerSec : SecState) :
    Bool × Sys δ :=
  let c := s.cpu
  match s.world.pushFrame env c.secState (c.bankSp c.secState c.usePspEntry)
      (c.frame returnPc xpsrIn) with
  | (some sp, w) =>
    (true, ⟨c.enterHandler sp xpsr handler handlerSec, w,
      .enter num c.secState handlerSec (xpsrIn ||| 0x01000000) :: s.trace⟩)
  | (none, w) => (false, ⟨c, w, s.trace⟩)

/-- The reads for the debug output of `raise_hard_fault` stay, since reads have effects. -/
def raiseHardFault (s : Sys δ) (faultPc faultXpsr : Word) : Bool × Sys δ :=
  let sec := s.cpu.secState
  let w := { s.world with scs := { s.world.scs with hfsr := s.world.scs.hfsr ||| 1#32 <<< 30 } }
  let (handler, w) := (w.setShcsr sec 1).exceptionReadHandler env sec Vect.hardfault
  let (_, w) := w.read env sec 0xE000ED28 4
  let (_, w) := w.read env sec 0xE000ED34 4
  let (_, w) := w.read env sec (faultPc &&& ~~~1#32) 2
  let (_, w) := w.read env sec (handler &&& ~~~1#32) 2
  { s with world := w.noteQuit env }.enter env Vect.hardfault faultPc faultXpsr
    ((faultXpsr &&& 0xF8000000) ||| 0x01000003) handler sec

def ufsrUndefinstr : Word := 1#32 <<< 16

def raiseUsageFault (s : Sys δ) (faultPc faultXpsr ufsrBits : Word) : Bool × Sys δ :=
  let sec := s.cpu.secState
  let ufsrBits := if ufsrBits = 0 then ufsrUndefinstr else ufsrBits
  let w := { s.world with scs := { s.world.scs with cfsr := s.world.scs.cfsr ||| ufsrBits } }
  let (handler, w) := (w.setShcsr sec 2).exceptionReadHandler env sec Vect.usagefault
  let (_, w) := w.read env sec 0xE000ED28 4
  let (hw, w) := w.read env sec (faultPc &&& ~~~1#32) 2
  let w := if hw.isSome then (w.read env sec (faultPc &&& ~~~3#32) 4).2 else w
  if env.quitOnFaults then (false, { s with world := w })
  else
    { s with world := w }.enter env Vect.usagefault faultPc faultXpsr
      ((faultXpsr &&& 0xF8000000) ||| 0x01000006) handler sec

def enterExceptionEx (s : Sys δ) (excNum returnPc xpsrIn : Word) (handlerSec : SecState) :
    Bool × Sys δ :=
  let (handler, w) :=
    if 16 ≤ excNum then
      let (v, w) := s.world.vectorRead env handlerSec (s.world.scs.vtor.get handlerSec) excNum
      (v.getD 0, w)
    else s.world.exceptionReadHandler env handlerSec excNum
  let (ok, s) := { s with world := w.noteEntry s.cpu.secState excNum }.enter env excNum returnPc
    xpsrIn ((xpsrIn &&& 0xF8000000) ||| 0x01000000 ||| (excNum &&& 0x1FF)) handler handlerSec
  (ok, if ok then { s with cpu := { s.cpu with sleeping := false, eventReg := false } } else s)

def enterException (s : Sys δ) (excNum returnPc xpsrIn : Word) : Bool × Sys δ :=
  s.enterExceptionEx env excNum returnPc xpsrIn s.cpu.secState

/-- `raise_mem_fault`: SecureFault if one is pending in Secure state, else MemManage, which
escalates to HardFault while it is disabled. -/
def raiseMemFault (s : Sys δ) (faultPc faultXpsr addr : Word) (isExec : Bool) : Bool × Sys δ :=
  let sec := s.cpu.secState
  let w := s.world.noteQuit env
  if sec = .secure ∧ w.scs.securefaultPending = true then
    { s with world := { w with scs := { w.scs with securefaultPending := false } } }.enterExceptionEx
      env Vect.securefault faultPc faultXpsr .secure
  else
    let s := { s with world := w.noteMemManage sec addr isExec }
    if (s.world.scs.shcsr.get sec).getLsbD 16 then
      s.enterException env Vect.memmanage faultPc faultXpsr
    else s.raiseHardFault env faultPc faultXpsr

end Sys

def Cpu.Entered (c c' : Cpu) (num xpsrIn : Word) (handlerSec : SecState) : Prop :=
  ∃ handler sleeping eventReg, c' =
    { c.enterHandler (c.bankSp c.secState c.usePspEntry - 32)
        ((xpsrIn &&& 0xF8000000) ||| 0x01000000 ||| (num &&& 0x1FF)) handler handlerSec with
      sleeping := sleeping
      eventReg := eventReg }

theorem Cpu.Entered.tz {c c' : Cpu} {num xpsrIn : Word} {handlerSec : SecState}
    (h : c.Entered c' num xpsrIn handlerSec) : c'.tz = c.tz := by
  obtain ⟨handler, sleeping, eventReg, rfl⟩ := h
  rfl

/-- The outcomes of raising an exception whose handler runs in `target`: it is entered, or only
the world has changed. -/
inductive Sys.Raised (s : Sys δ) (xpsrIn : Word) (target : SecState) : Bool × Sys δ → Prop
  | entered (num : Word) {c : Cpu} (w : World δ) (h : s.cpu.Entered c num xpsrIn target) :
    Raised s xpsrIn target
      (true, ⟨c, w, .enter num s.cpu.secState target (xpsrIn ||| 0x01000000) :: s.trace⟩)
  | refused (w : World δ) : Raised s xpsrIn target (false, ⟨s.cpu, w, s.trace⟩)

namespace Sys

variable {δ : Type u} (env : Env δ)

theorem Raised.of_world {s : Sys δ} {w : World δ} {xpsrIn : Word} {target : SecState}
    {r : Bool × Sys δ} (h : Raised { s with world := w } xpsrIn target r) :
    Raised s xpsrIn target r := by
  cases h with
  | entered num w' h => exact .entered num w' h
  | refused w' => exact .refused w'

theorem enter_raised (s : Sys δ) (num returnPc xpsrIn xpsr handler : Word) (target : SecState)
    (h : xpsr = (xpsrIn &&& 0xF8000000) ||| 0x01000000 ||| (num &&& 0x1FF)) :
    Raised s xpsrIn target (s.enter env num returnPc xpsrIn xpsr handler target) := by
  subst h
  simp only [enter]
  split
  · rename_i hp
    have hsp := World.pushFrame_fst env hp
    subst hsp
    exact .entered num _ ⟨handler, _, _, rfl⟩
  · exact .refused _

theorem raiseHardFault_raised (s : Sys δ) (faultPc faultXpsr : Word) :
    Raised s faultXpsr s.cpu.secState (s.raiseHardFault env faultPc faultXpsr) :=
  (enter_raised env _ _ _ _ _ _ _ (by rw [BitVec.or_assoc]; rfl)).of_world

theorem raiseUsageFault_raised (s : Sys δ) (faultPc faultXpsr ufsrBits : Word) :
    Raised s faultXpsr s.cpu.secState (s.raiseUsageFault env faultPc faultXpsr ufsrBits) := by
  simp only [raiseUsageFault]
  split
  · exact .refused _
  · exact (enter_raised env _ _ _ _ _ _ _ (by rw [BitVec.or_assoc]; rfl)).of_world

theorem enterExceptionEx_raised (s : Sys δ) (excNum returnPc xpsrIn : Word)
    (handlerSec : SecState) :
    Raised s xpsrIn handlerSec (s.enterExceptionEx env excNum returnPc xpsrIn handlerSec) := by
  simp only [enterExceptionEx]
  generalize hr : Sys.enter env _ _ _ _ _ _ _ = r
  have h : Raised s xpsrIn handlerSec r := hr ▸ (enter_raised env _ _ _ _ _ _ _ rfl).of_world
  cases h with
  | entered num w h =>
    obtain ⟨handler, sleeping, eventReg, rfl⟩ := h
    exact .entered num w ⟨handler, false, false, rfl⟩
  | refused w => exact .refused w

theorem enterException_raised (s : Sys δ) (excNum returnPc xpsrIn : Word) :
    Raised s xpsrIn s.cpu.secState (s.enterException env excNum returnPc xpsrIn) :=
  enterExceptionEx_raised env s excNum returnPc xpsrIn _

theorem raiseMemFault_raised (s : Sys δ) (faultPc faultXpsr addr : Word) (isExec : Bool) :
    Raised s faultXpsr s.cpu.secState (s.raiseMemFault env faultPc faultXpsr addr isExec) := by
  have memmanage (w : World δ) : Raised s faultXpsr s.cpu.secState
      ({ s with world := w }.enterException env Vect.memmanage faultPc faultXpsr) := by
    have h := enterException_raised env { s with world := w } Vect.memmanage faultPc faultXpsr
    exact h.of_world
  have hardfault (w : World δ) : Raised s faultXpsr s.cpu.secState
      ({ s with world := w }.raiseHardFault env faultPc faultXpsr) := by
    have h := raiseHardFault_raised env { s with world := w } faultPc faultXpsr
    exact h.of_world
  simp only [raiseMemFault]
  split
  · rename_i h
    rw [h.1]
    exact (enterExceptionEx_raised env _ _ _ _ _).of_world
  · split
    · exact memmanage _
    · exact hardfault _

end Sys

end M33mu
