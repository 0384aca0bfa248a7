import M33mu.Board
import M33mu.Lib.Bracket

/-!
Nested exceptions: in a well-bracketed run every `EXC_RETURN` restores the context that its
entry interrupted, as long as the side stack of recorded stack pointers has room.
-/

namespace M33mu

open Lib

inductive ExcEntry
  | exception (num returnPc : Word) (handlerSec : SecState)
  | usageFault (faultPc ufsrBits : Word)
  | hardFault (faultPc : Word)
  deriving DecidableEq, Repr

namespace ExcEntry

variable {δ : Type u} (env : Env δ)

def returnPc : ExcEntry → Word
  | .exception _ returnPc _ => returnPc
  | .usageFault faultPc _ => faultPc
  | .hardFault faultPc => faultPc

def raise (s : Sys δ) : ExcEntry → Bool × Sys δ
  | .exception num returnPc handlerSec => s.enterExceptionEx env num returnPc s.cpu.xpsr handlerSec
  | .usageFault faultPc ufsrBits => s.raiseUsageFault env faultPc s.cpu.xpsr ufsrBits
  | .hardFault faultPc => s.raiseHardFault env faultPc s.cpu.xpsr

theorem raise_raised (s : Sys δ) (e : ExcEntry) :
    ∃ target, s.Raised s.cpu.xpsr target (e.raise env s) := by
  cases e with
  | exception num returnPc handlerSec => exact ⟨_, Sys.enterExceptionEx_raised env s _ _ _ _⟩
  | usageFault faultPc ufsrBits => exact ⟨_, Sys.raiseUsageFault_raised env s _ _ _⟩
  | hardFault faultPc => exact ⟨_, Sys.raiseHardFault_raised env s _ _⟩

theorem entered_of_raise {s : Sys δ} {e : ExcEntry} (h : (e.raise env s).1 = true) :
    ∃ num target, s.cpu.Entered (e.raise env s).2.cpu num s.cpu.xpsr target := by
  obtain ⟨target, hr⟩ := raise_raised env s e
  generalize e.raise env s = r at h hr
  cases hr with
  | entered num w hc => exact ⟨num, target, hc⟩
  | refused => cases h

end ExcEntry

structure Cpu.Restored (before after : Cpu) (returnPc : Word) : Prop where
  low : ∀ i : Reg, i.val < 4 → after.r i = before.r i
  r12 : after.r 12 = before.r 12
  lr : after.r 14 = before.r 14
  pc : after.r 15 = returnPc ||| 1
  xpsr : after.xpsr = before.xpsr
  mode : after.mode = before.mode
  secState : after.secState = before.secState
  msp : after.msp = before.msp
  psp : after.psp = before.psp

namespace Nesting

variable {δ : Type u} (env : Env δ)

/-- The bracketing of a run by exception entries and returns. Between them handler and thread
code may do anything; a return uses the `EXC_RETURN` value its entry left in LR. -/
def bracketing : Bracketing (Sys δ) ExcEntry (Sys δ → Sys δ) where
  enter s e := (e.raise env s).2
  body s f := f s
  leave c s := (s.excReturnUnstack env (c.after.cpu.r 14)).2

abbrev Run (δ : Type u) := Bracketed (Sys δ) ExcEntry

abbrev Op (δ : Type u) := BracketOp ExcEntry (Sys δ → Sys δ)

def frameSp (c : Cpu) : Word := c.bankSp c.secState c.usePspEntry - 32

def Ready (c : Call (Sys δ) ExcEntry) (s : Sys δ) : Prop :=
  s.cpu.msp = c.after.cpu.msp ∧ s.cpu.psp = c.after.cpu.psp ∧
    (s.world.readFrame env c.before.cpu.secState (frameSp c.before.cpu)).1 =
      some (c.before.cpu.frame c.input.returnPc c.before.cpu.xpsr)

/-- What is asked of the software and the memory: entries do not fail, Thread mode has a zero
IPSR, the side stack is written by entries and returns only, and returns find what they need. -/
def Lawful (x : Run δ) : Op δ → Prop
  | .enter e => (e.raise env x.state).1 = true ∧
      (x.state.cpu.mode = .thread → x.state.cpu.xpsr &&& 0x1FF = 0)
  | .body f => (f x.state).cpu.exc = x.state.cpu.exc
  | .leave => ∀ c ∈ x.calls.head?, Ready env c x.state

instance (c : Call (Sys δ) ExcEntry) (s : Sys δ) : Decidable (Ready env c s) :=
  inferInstanceAs (Decidable (_ ∧ _ ∧ _))

instance (x : Run δ) (op : Op δ) : Decidable (Lawful env x op) :=
  match op with
  | .enter _ => inferInstanceAs (Decidable (_ ∧ (_ → _)))
  | .body f => inferInstanceAs (Decidable ((f x.state).cpu.exc = x.state.cpu.exc))
  | .leave => inferInstanceAs (Decidable (∀ c ∈ x.calls.head?, Ready env c x.state))

def Room (x : Run δ) : Op δ → Prop
  | .enter _ => x.state.cpu.exc.HasRoom ∧ x.state.cpu.xpsr.getLsbD 24 = true
  | _ => True

instance (x : Run δ) (op : Op δ) : Decidable (Room x op) :=
  match op with
  | .enter _ => inferInstanceAs (Decidable (_ ∧ _))
  | .body _ => isTrue trivial
  | .leave => isTrue trivial

def Restores : Run δ → Op δ → Prop :=
  Bracketing.AtLeave fun c s =>
    (s.excReturnUnstack env (c.after.cpu.r 14)).1 = true ∧
      c.before.cpu.Restored (s.excReturnUnstack env (c.after.cpu.r 14)).2.cpu c.input.returnPc

structure Entry (c : Call (Sys δ) ExcEntry) : Prop where
  entered : ∃ num target, c.before.cpu.Entered c.after.cpu num c.before.cpu.xpsr target
  room : c.before.cpu.exc.HasRoom
  thumb : c.before.cpu.xpsr.getLsbD 24 = true
  ipsr : c.before.cpu.mode = .thread → c.before.cpu.xpsr &&& 0x1FF = 0

theorem usePspEntry_and_thread (c : Cpu) : (c.usePspEntry && c.mode == .thread) = c.usePspEntry := by
  simp only [Cpu.usePspEntry]
  cases c.mode == .thread <;> simp

theorem excReturnDecode_lr {c c' : Cpu} {num xpsrIn : Word} {target : SecState}
    (h : c.Entered c' num xpsrIn target) :
    excReturnDecode (c'.r 14) = some ⟨c.usePspEntry, true, c.mode == .thread, c.secState⟩ := by
  obtain ⟨handler, sleeping, eventReg, rfl⟩ := h
  have lr : ({ c.enterHandler (c.bankSp c.secState c.usePspEntry - 32)
      ((xpsrIn &&& 0xF8000000) ||| 0x01000000 ||| (num &&& 0x1FF)) handler target with
        sleeping := sleeping, eventReg := eventReg }).r 14 =
      excReturnEncode c.secState c.usePspEntry (c.mode == .thread) := rfl
  rw [lr, excReturnDecode_encode, usePspEntry_and_thread]

theorem exc_pop_of_entered {c c' : Cpu} {num xpsrIn : Word} {target : SecState}
    (h : c.Entered c' num xpsrIn target) (room : c.exc.HasRoom) :
    c'.exc.pop = (some ⟨frameSp c, c.usePspEntry, c.secState⟩, c.exc) := by
  obtain ⟨handler, sleeping, eventReg, rfl⟩ := h
  exact BoundedStack.pop_push room _

theorem banks_of_entered {c c' : Cpu} {num xpsrIn : Word} {target : SecState}
    (h : c.Entered c' num xpsrIn target) :
    c'.msp = (c.setBankSp c.secState c.usePspEntry (frameSp c)).msp ∧
      c'.psp = (c.setBankSp c.secState c.usePspEntry (frameSp c)).psp := by
  obtain ⟨handler, sleeping, eventReg, rfl⟩ := h
  exact ⟨rfl, rfl⟩

theorem setBankSp_frameSp_add {before s : Cpu}
    (hm : s.msp = (before.setBankSp before.secState before.usePspEntry (frameSp before)).msp)
    (hp : s.psp = (before.setBankSp before.secState before.usePspEntry (frameSp before)).psp) :
    (s.setBankSp before.secState before.usePspEntry (frameSp before + 32)).msp = before.msp ∧
      (s.setBankSp before.secState before.usePspEntry (frameSp before + 32)).psp = before.psp := by
  simp only [frameSp, BitVec.sub_add_cancel] at *
  cases h : before.usePspEntry <;> simp [Cpu.setBankSp, Cpu.bankSp, hm, hp, h]

theorem xpsr_of_stacked {x : Word} {toThread : Bool} (thumb : x.getLsbD 24 = true)
    (ipsr : toThread = true → x &&& 0x1FF = 0) :
    (if toThread then (x ||| 0x01000000) &&& ~~~0x1FF#32 else x ||| 0x01000000) = x := by
  have stacked : x ||| 0x01000000 = x := or_twoPow_of_getLsbD thumb
  rw [stacked]
  cases toThread with
  | false => rfl
  | true => exact and_not_of_and_eq_zero (ipsr rfl)

/-- A return whose entry had room restores the interrupted context, and takes the entry's record
off the side stack. -/
theorem excReturnUnstack_restores {c : Call (Sys δ) ExcEntry} {s : Sys δ} (hc : Entry c)
    (ready : Ready env c s) (top : s.cpu.exc = c.after.cpu.exc) :
    (s.excReturnUnstack env (c.after.cpu.r 14)).1 = true ∧
      (s.excReturnUnstack env (c.after.cpu.r 14)).2.cpu.exc = c.before.cpu.exc ∧
      c.before.cpu.Restored (s.excReturnUnstack env (c.after.cpu.r 14)).2.cpu c.input.returnPc := by
  obtain ⟨num, target, entered⟩ := hc.entered
  obtain ⟨hm, hp, frame⟩ := ready
  have pop := exc_pop_of_entered entered hc.room
  have banks := banks_of_entered entered
  have restored := setBankSp_frameSp_add (hm.trans banks.1) (hp.trans banks.2)
  generalize hinfo : ExcReturnInfo.mk c.before.cpu.usePspEntry true (c.before.cpu.mode == .thread)
    c.before.cpu.secState = info
  have decoded : excReturnDecode (c.after.cpu.r 14) = some info :=
    hinfo ▸ excReturnDecode_lr entered
  have sp : s.cpu.unstackSp info = frameSp c.before.cpu := by
    simp [Cpu.unstackSp, top, pop, ← hinfo]
  obtain ⟨w, read⟩ : ∃ w, s.world.readFrame env info.targetSec (s.cpu.unstackSp info) =
      (some (c.before.cpu.frame c.input.returnPc c.before.cpu.xpsr), w) := by
    rw [sp, ← hinfo, ← frame]
    exact ⟨_, rfl⟩
  rw [Sys.excReturnUnstack_of_frame env decoded read, sp]
  refine ⟨rfl, by simp [Cpu.resume, Cpu.setBankSp, top, pop], ?_⟩
  subst hinfo
  constructor
  case low =>
    intro i hi
    obtain rfl | rfl | rfl | rfl : i = 0 ∨ i = 1 ∨ i = 2 ∨ i = 3 := by
      revert hi i
      decide
    all_goals rfl
  case pc =>
    have idem : c.input.returnPc ||| 1 ||| 1 = c.input.returnPc ||| 1 := by
      rw [BitVec.or_assoc, BitVec.or_self]
    exact idem
  case xpsr => exact xpsr_of_stacked hc.thumb fun h => hc.ipsr (by simpa using h)
  case mode =>
    simp only [Cpu.resume]
    cases c.before.cpu.mode <;> rfl
  case msp => exact restored.1
  case psp => exact restored.2
  all_goals rfl

/-- In a well-bracketed run whose entries find room on the side stack, every return restores the
context that its entry interrupted. -/
theorem returns_restore {x : Run δ} {ops : List (Op δ)} (hx : x.calls = [])
    (lawful : Along (bracketing env).step (Lawful env) x ops)
    (room : Along (bracketing env).step Room x ops) :
    Along (bracketing env).step (Restores env) x ops := by
  have matched := Bracketing.atLeave_of_along (B := bracketing env) (E := Entry)
    (P := fun x op => Lawful env x op ∧ Room x op) (r := fun s : Sys δ => s.cpu.exc)
    (fun s cs e h => ⟨ExcEntry.entered_of_raise env h.1.1, h.2.1, h.2.2, h.1.2⟩)
    (fun s cs f h => h.1)
    (fun c cs s h hc top => (excReturnUnstack_restores env hc (h.1 c rfl) top).2.1)
    (x := x) (by rw [hx]; trivial) (lawful.and room)
  refine (lawful.and matched).imp fun x op h => ?_
  cases op with
  | leave =>
    intro c hc
    have ready := h.1 c hc
    obtain ⟨entry, top⟩ := h.2 c hc
    have restores := excReturnUnstack_restores env entry ready top
    exact ⟨restores.1, restores.2.2⟩
  | _ => trivial

theorem returns_restore_twice :
    Along (bracketing Board.env).step (Restores Board.env) ⟨Board.sys, []⟩
      [.enter (.exception 16 0x100 .nonsecure), .enter (.usageFault 0x200 0), .leave, .leave] :=
  returns_restore Board.env rfl (by decide) (by decide)

theorem sixty_fifth_return_loses_context :
    ¬ ∀ (x : Run Unit) (ops : List (Op Unit)), x.calls = [] →
      Along (bracketing Board.env).step (Lawful Board.env) x ops →
        Along (bracketing Board.env).step (Restores Board.env) x ops := by
  intro h
  have restores := h ⟨Board.sys, []⟩
    (List.replicate 65 (.enter (.exception 16 0x100 .secure)) ++ [.leave]) rfl (by decide +kernel)
  have msp := restores.imp (Q := Bracketing.AtLeave fun c s =>
    (s.excReturnUnstack Board.env (c.after.cpu.r 14)).2.cpu.msp = c.before.cpu.msp) fun x op h => by
      cases op with
      | leave => exact fun c hc => (h c hc).2.msp
      | _ => trivial
  revert msp
  decide +kernel

end Nesting

end M33mu
