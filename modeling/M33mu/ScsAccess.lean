import M33mu.Lib.Bits
import M33mu.Lib.Run
import M33mu.ScsMmio

namespace M33mu

open Lib

structure ScsAccess where
  /-- The window that was addressed. -/
  win : SecState
  /-- The initiator, noted in `last_access_sec` before the register is reached. -/
  sec : SecState
  offset : Word
  size : Word
  /-- `none` for a read. -/
  value : Option Word
  deriving DecidableEq

def ScsAccess.ByNonsecure (a : ScsAccess) : Prop := a.sec = .nonsecure ∨ a.win = .nonsecure

abbrev NsAccess := { a : ScsAccess // a.ByNonsecure }

inductive ScsResult
  | read (value : Option Word)
  | written (ok : Bool)
  deriving DecidableEq

namespace ScsBlock

def noteAccess (b : ScsBlock) (sec : SecState) : ScsBlock :=
  { b with scs := { b.scs with lastAccessSec := sec } }

def access (b : ScsBlock) (a : ScsAccess) : ScsResult × ScsBlock :=
  let b := b.noteAccess a.sec
  match a.value with
  | none => (.read (b.scsRead a.win a.offset a.size).1, (b.scsRead a.win a.offset a.size).2)
  | some v => (.written (b.scsWrite a.win a.offset a.size v).1,
      (b.scsWrite a.win a.offset a.size v).2)

def nsAccess (b : ScsBlock) (a : NsAccess) : ScsResult × ScsBlock := b.access a

structure SecureBank where
  vtor : Word
  icsr : Word
  aircr : Word
  scr : Word
  shpr : Word × Word × Word
  shcsr : Word
  mpu : Word × Word × (Fin 8 → Word) × (Fin 8 → Word) × Word × Word
  sau : Word × Word × Word × (Fin 8 → Word) × (Fin 8 → Word) × Word × Word

def secureBank (b : ScsBlock) : SecureBank where
  vtor := b.scs.vtor.s
  icsr := b.scs.icsr.s
  aircr := b.scs.aircr.s
  scr := b.scs.scr.s
  shpr := (b.scs.shpr1.s, b.scs.shpr2.s, b.scs.shpr3.s)
  shcsr := b.scs.shcsr.s
  mpu := (b.scs.mpuCtrl.s, b.scs.mpuRnr.s, b.scs.mpuRbar.s, b.scs.mpuRlar.s,
    b.scs.mpuMair0.s, b.scs.mpuMair1.s)
  sau := (b.scs.sauType, b.scs.sauCtrl, b.scs.sauRnr, b.scs.sauRbar, b.scs.sauRlar,
    b.scs.sauSfsr, b.scs.sauSfar)

def scbTarget (offset size : Word) : Option ScbReg :=
  if offset < scsPageSize ∧ scsScbOffset ≤ offset ∧ (size = 1 ∨ size = 2 ∨ size = 4) then
    ScbReg.ofOffset ((offset &&& ~~~3#32) - scsScbOffset)
  else none

theorem scbTarget_eq_some {offset size : Word} {reg : ScbReg} :
    scbTarget offset size = some reg ↔ (offset < scsPageSize ∧ scsScbOffset ≤ offset ∧
      (size = 1 ∨ size = 2 ∨ size = 4)) ∧
        ScbReg.ofOffset ((offset &&& ~~~3#32) - scsScbOffset) = some reg := by
  rw [scbTarget]
  split
  · rename_i inside
    exact (and_iff_right inside).symm
  · rename_i outside
    exact iff_of_false nofun fun h => outside h.1

def merged (offset size cur value : Word) : Word :=
  if size = 1 ∨ size = 2 then insertSubword offset size cur value else value

theorem rmwValue_eq {offset size : Word} {reg : ScbReg} (target : scbTarget offset size = some reg)
    (b : ScsBlock) (win : SecState) (value : Word) : b.rmwValue win offset size value =
      merged offset size (b.scbRead win (b.effSec win) reg) value := by
  obtain ⟨⟨page, scb, -⟩, found⟩ := scbTarget_eq_some.mp target
  have aligned : (offset &&& ~~~3#32).toNat = offset.toNat / 4 * 4 :=
    toNat_and_not_mask offset 2 (by decide)
  have twice : offset &&& ~~~3#32 &&& ~~~3#32 = offset &&& ~~~3#32 := by
    rw [BitVec.and_assoc, BitVec.and_self]
  have read : (b.scsRead win (offset &&& ~~~3#32) 4).1 = some (b.scbRead win (b.effSec win) reg) := by
    have inPage : ¬ scsPageSize ≤ offset &&& ~~~3#32 := by
      simp only [scsPageSize] at page ⊢
      bv_omega
    have inScb : ¬ offset &&& ~~~3#32 < scsScbOffset := by
      simp only [scsScbOffset] at scb ⊢
      bv_omega
    simp only [scsRead, if_neg inPage, if_neg inScb, twice, found, subword]
    rfl
  rw [rmwValue, merged, read]
  rfl

theorem scsWrite_of_target {offset size : Word} {reg : ScbReg}
    (target : scbTarget offset size = some reg) (b : ScsBlock) (win : SecState) (value : Word) :
    b.scsWrite win offset size value = b.scbWrite win (b.effSec win)
      (merged offset size (b.scbRead win (b.effSec win) reg) value) reg := by
  rw [← rmwValue_eq target]
  obtain ⟨⟨page, scb, sized⟩, found⟩ := scbTarget_eq_some.mp target
  simp only [scsWrite, if_neg (BitVec.not_le.mpr page), if_neg (BitVec.not_lt.mpr scb), if_pos sized,
    found]

/-- `ICSR` keeps every written bit but the two SysTick pend bits. -/
def icsrStored (w : Word) : Word := w &&& ~~~(0x3#32 <<< 25)

/-- The write does not reach the Secure bank of `ICSR` or, with an accepted key, of `AIRCR`:
both pick their bank by the window instead of by the initiator. -/
def Spares (b : ScsBlock) (a : ScsAccess) : Prop :=
  ∀ v, a.value = some v → a.win = .secure →
    let w := (b.noteAccess a.sec).rmwValue .secure a.offset a.size v
    (scbTarget a.offset a.size = some .icsr → icsrStored w = b.scs.icsr.s) ∧
    (scbTarget a.offset a.size = some .aircr → aircrKeyOk w → w = b.scs.aircr.s)

theorem effSec_noteAccess (b : ScsBlock) (a : NsAccess) :
    (b.noteAccess a.1.sec).effSec a.1.win = .nonsecure := by
  obtain ⟨⟨win, sec, _, _, _⟩, h⟩ := a
  cases win with
  | nonsecure => rfl
  | secure => exact h.resolve_right (by simp)

@[simp] theorem secureBank_noteAccess (b : ScsBlock) (sec : SecState) :
    (b.noteAccess sec).secureBank = b.secureBank := rfl

theorem secureBank_scsRead (b : ScsBlock) (win : SecState) (offset size : Word) :
    (b.scsRead win offset size).2.secureBank = b.secureBank := by
  simp only [scsRead]
  split
  · rfl
  · split
    · cases SysTickReg.ofOffset (offset &&& ~~~3#32) with
      | none => rfl
      | some reg => cases reg <;> rfl
    · rfl

theorem secureBank_systickWrite (b : ScsBlock) (offset size value : Word) (reg : SysTickReg) :
    (b.systickWrite offset size value reg).secureBank = b.secureBank := by
  cases reg <;> rfl

theorem secureBank_nvicWrite (b : ScsBlock) (eff : SecState) (offset size value : Word) :
    (b.nvicWrite eff offset size value).secureBank = b.secureBank := by
  simp only [nvicWrite]
  split
  · rfl
  · split <;> rfl

theorem secureBank_scbWrite_iff (b : ScsBlock) (win : SecState) (value : Word) (reg : ScbReg) :
    (b.scbWrite win .nonsecure value reg).2.secureBank = b.secureBank ↔
      (win = .secure →
        (reg = .icsr → icsrStored value = b.scs.icsr.s) ∧
        (reg = .aircr → aircrKeyOk value → value = b.scs.aircr.s)) := by
  cases reg with
  | icsr => cases win <;> simp [scbWrite, secureBank, icsrStored]
  | aircr =>
    cases win with
    | nonsecure =>
      simp only [scbWrite]
      split <;> simp [secureBank]
    | secure =>
      by_cases h : aircrKeyOk value
      · simp [scbWrite, secureBank, h]
      · simp [scbWrite, h]
  | _ => simp [scbWrite, sauWrite, secureBank]

theorem secureBank_scsWrite_iff (b : ScsBlock) (win : SecState) (offset size value : Word)
    (heff : b.effSec win = .nonsecure) :
    (b.scsWrite win offset size value).2.secureBank = b.secureBank ↔
      (win = .secure →
        (scbTarget offset size = some .icsr →
          icsrStored (b.rmwValue .secure offset size value) = b.scs.icsr.s) ∧
        (scbTarget offset size = some .aircr →
          aircrKeyOk (b.rmwValue .secure offset size value) →
            b.rmwValue .secure offset size value = b.scs.aircr.s)) := by
  simp only [scsWrite, heff, scbTarget]
  by_cases hpage : scsPageSize ≤ offset
  · simp [hpage, BitVec.not_lt.mpr hpage]
  · by_cases hscb : offset < scsScbOffset
    · simp only [hpage, hscb, BitVec.not_le.mpr hscb, if_true, if_false, false_and, and_false]
      cases SysTickReg.ofOffset (offset &&& ~~~3#32) with
      | none => simp [secureBank_nvicWrite]
      | some reg => cases reg <;> simp [secureBank_nvicWrite, secureBank_systickWrite]
    · by_cases hsize : size = 1 ∨ size = 2 ∨ size = 4
      · simp only [hpage, hscb, hsize, BitVec.not_le.mp hpage, BitVec.not_lt.mp hscb, if_true,
          if_false, and_self]
        cases ScbReg.ofOffset ((offset &&& ~~~3#32) - scsScbOffset) with
        | none => simp
        | some reg =>
          rw [secureBank_scbWrite_iff]
          cases win <;> simp
      · simp only [hpage, hscb, hsize, if_false, and_false]
        simp

theorem secureBank_nsAccess_iff (b : ScsBlock) (a : NsAccess) :
    (b.nsAccess a).2.secureBank = b.secureBank ↔ b.Spares a := by
  have heff := effSec_noteAccess b a
  obtain ⟨a, ha⟩ := a
  simp only [nsAccess, access, Spares]
  cases hv : a.value with
  | none => simp [secureBank_scsRead]
  | some v =>
    rw [← secureBank_noteAccess b a.sec]
    simp only [Option.some.injEq, forall_eq']
    exact secureBank_scsWrite_iff (b.noteAccess a.sec) a.win a.offset a.size v heff

/-- A sequence of Non-secure accesses keeps the Secure bank at its first value throughout exactly
when none of them stores a different word in the Secure `ICSR` or `AIRCR` through the window. -/
theorem secureBank_throughout_iff (b : ScsBlock) (as : List NsAccess) :
    Throughout (fun b a => (b.nsAccess a).2) (fun b' => b'.secureBank = b.secureBank) b as ↔
      Along (fun b a => (b.nsAccess a).2) (fun b a => b.Spares a) b as :=
  throughout_eq_iff_along secureBank_nsAccess_iff b as

def reset : ScsBlock := ⟨Scs.init 0x410fc241, Nvic.init, .unknown, false⟩

/-- Non-secure code sets PENDSVSET in the `ICSR` at `0xE000ED04`. -/
def nsPendSv : NsAccess := ⟨⟨.secure, .nonsecure, 0xD04, 4, some 0x10000000⟩, .inl rfl⟩

theorem nsPendSv_changes_secureBank :
    ¬ ∀ (b : ScsBlock) (as : List NsAccess),
      (run (fun b a => (b.nsAccess a).2) b as).secureBank = b.secureBank := by
  intro h
  have icsr := congrArg SecureBank.icsr (h reset [nsPendSv])
  revert icsr
  decide

end ScsBlock

end M33mu
