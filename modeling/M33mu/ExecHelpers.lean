import M33mu.ItState

namespace M33mu

structure ArithResult where
  value : Word
  carry : Bool
  overflow : Bool
  deriving DecidableEq, Repr

structure ShiftResult where
  value : Word
  carryOut : Bool
  deriving DecidableEq, Repr

inductive FlagMask
  | nz
  | nzc
  | nzcv
  deriving DecidableEq, Repr

def FlagMask.bits : FlagMask → Word
  | .nz => 0xC0000000
  | .nzc => 0xE0000000
  | .nzcv => 0xF0000000

structure FlagWrite where
  mask : FlagMask
  res : Word
  carry : Bool
  overflow : Bool
  deriving DecidableEq, Repr

namespace ExecHelpers

def addWithCarry (a b : Word) (carryIn : Bool) : ArithResult :=
  let ures := a.setWidth 64 + b.setWidth 64 + if carryIn then 1#64 else 0#64
  let res := ures.setWidth 32
  ⟨res, ures >>> 32 != 0, (~~~(a ^^^ b) &&& (a ^^^ res)).getLsbD 31⟩

theorem addWithCarry_value (a b : Word) : (addWithCarry a b false).value = a + b := by
  apply BitVec.eq_of_toNat_eq
  have zero : (0#64).toNat = 0 := rfl
  simp only [addWithCarry, BitVec.toNat_setWidth, BitVec.toNat_add, Bool.false_eq_true, if_false, zero]
  omega

theorem addWithCarry_not (a b : Word) : (addWithCarry a (~~~b) true).value = a - b := by
  have sum : (addWithCarry a (~~~b) true).value = a + ~~~b + 1 := by
    apply BitVec.eq_of_toNat_eq
    have one : (1 : Word).toNat = 1 := rfl
    have one' : (1#64).toNat = 1 := rfl
    simp only [addWithCarry, BitVec.toNat_setWidth, BitVec.toNat_add, if_true, one, one']
    omega
  rw [sum]
  bv_omega

def lsl (value : Word) (amount : Byte) (carryIn : Bool) : ShiftResult :=
  let n := amount.toNat
  if n = 0 then ⟨value, carryIn⟩
  else if n < 32 then ⟨value <<< n, (value >>> (32 - n)).getLsbD 0⟩
  else if n = 32 then ⟨0, value.getLsbD 0⟩
  else ⟨0, false⟩

def lsr (value : Word) (amount : Byte) (carryIn : Bool) : ShiftResult :=
  let n := amount.toNat
  if n = 0 then ⟨value, carryIn⟩
  else if n < 32 then ⟨value >>> n, (value >>> (n - 1)).getLsbD 0⟩
  else if n = 32 then ⟨0, value.getLsbD 31⟩
  else ⟨0, false⟩

def asr (value : Word) (amount : Byte) (carryIn : Bool) : ShiftResult :=
  let n := amount.toNat
  if n = 0 then ⟨value, carryIn⟩
  else if n < 32 then
    ⟨value >>> n ||| (if value.getLsbD 31 then 0xffffffff#32 <<< (32 - n) else 0),
      (value >>> (n - 1)).getLsbD 0⟩
  else ⟨if value.getLsbD 31 then 0xffffffff else 0, value.getLsbD 31⟩

/-- `(value >> rot) | (value << (32u - rot))`, for `rot` from 1 to 31. -/
def rotate (value : Word) (rot : Nat) : Word := value >>> rot ||| value <<< (32 - rot)

def ror (value : Word) (amount : Byte) (carryIn : Bool) : ShiftResult :=
  let rot := (amount &&& 31).toNat
  if amount = 0 then ⟨value, carryIn⟩
  else if rot = 0 then ⟨value, value.getLsbD 31⟩
  else ⟨rotate value rot, (rotate value rot).getLsbD 31⟩

def shiftCImm (value : Word) (type imm5 : Byte) (carryIn : Bool) : ShiftResult :=
  match (type &&& 0x3).toNat with
  | 0 => if imm5 = 0 then ⟨value, carryIn⟩ else lsl value imm5 carryIn
  | 1 => lsr value (if imm5 = 0 then 32 else imm5) carryIn
  | 2 => asr value (if imm5 = 0 then 32 else imm5) carryIn
  | _ =>
    if imm5 = 0 then
      ⟨(if carryIn then 1#32 else 0#32) <<< 31 ||| value >>> 1, value.getLsbD 0⟩
    else ror value imm5 carryIn

def rorRegShiftC (value shiftN : Word) (carryIn : Bool) : ShiftResult :=
  let amount := shiftN &&& 0xff
  let rot := (amount &&& 31).toNat
  if amount = 0 then ⟨value, carryIn⟩
  else if rot = 0 then ⟨value, value.getLsbD 31⟩
  else ⟨rotate value rot, (rotate value rot).getLsbD 31⟩

/-- `shift_reg_operand`: the carry comes in from the xPSR. -/
def shiftRegOperand (rmVal packedShift xpsr : Word) : ShiftResult :=
  shiftCImm rmVal ((packedShift >>> 5 &&& 0x3).setWidth 8) ((packedShift &&& 0x1f).setWidth 8)
    (xpsr.getLsbD 29)

def thumbExpandImm12C (imm12 : Word) (carryIn : Bool) : ShiftResult :=
  let imm8 := imm12 &&& 0xff
  if imm12 >>> 10 &&& 0x3 = 0 then
    let imm32 := match (imm12 >>> 8 &&& 0x3).toNat with
      | 0 => imm8
      | 1 => imm8 <<< 16 ||| imm8
      | 2 => imm8 <<< 24 ||| imm8 <<< 8
      | _ => imm8 <<< 24 ||| imm8 <<< 16 ||| imm8 <<< 8 ||| imm8
    ⟨imm32, carryIn⟩
  else
    let unrot := 1#32 <<< 7 ||| (imm12 &&& 0x7f)
    let rot := (imm12 >>> 7 &&& 0x1f).toNat
    let imm32 := if rot = 0 then unrot else rotate unrot rot
    ⟨imm32, imm32.getLsbD 31⟩

def adrValue (pcFetch imm32 : Word) : Word := ((pcFetch + 4) &&& ~~~3#32) + imm32

def xpsrWriteNzcvq (xpsr regValue : Word) : Word :=
  (xpsr &&& ~~~0xF8000000#32) ||| (regValue &&& 0xF8000000)

def bswap32 (value : Word) : Word :=
  (value &&& 0xff) <<< 24 ||| (value >>> 8 &&& 0xff) <<< 16 ||| (value >>> 16 &&& 0xff) <<< 8 |||
    (value >>> 24 &&& 0xff)

def rev16 (value : Word) : Word :=
  (value &&& 0x00ff00ff) <<< 8 ||| (value &&& 0xff00ff00) >>> 8

def revsh (value : Word) : Word :=
  let half := value &&& 0xffff
  let swapped := (half &&& 0xff) <<< 8 ||| (half >>> 8 &&& 0xff)
  if swapped.getLsbD 15 then swapped ||| 0xffff0000 else swapped

/-- The leading zeros above bit `n`, as the loop of `mm_clz` counts them downwards. -/
def clzFrom (value : Word) : Nat → Nat
  | 0 => if value.getLsbD 0 then 0 else 1
  | n + 1 => if value.getLsbD (n + 1) then 0 else clzFrom value n + 1

def clz (value : Word) : Word := if value = 0 then 32 else BitVec.ofNat 32 (clzFrom value 31)

def rbit (value : Word) : Word :=
  (List.range 32).foldl (fun out i => out <<< 1 ||| (value >>> i &&& 1)) 0

def split64 (x : BitVec 64) : Word × Word := (x.setWidth 32, (x >>> 32).setWidth 32)

def join64 (hi lo : Word) : BitVec 64 := hi.setWidth 64 <<< 32 ||| lo.setWidth 64

def umul64 (a b : Word) : Word × Word := split64 (a.setWidth 64 * b.setWidth 64)

def smul64 (a b : Word) : Word × Word := split64 (a.signExtend 64 * b.signExtend 64)

/-- The mask of `width` low bits, for a width from 1 to 32. -/
def widthMask (width : Nat) : Word := if width = 32 then 0xffffffff else 1#32 <<< width - 1

def badField (lsb width : Nat) : Bool := width = 0 || 32 < width || 32 ≤ lsb || 32 < lsb + width

def ubfx (value : Word) (lsb width : Nat) : Word :=
  if badField lsb width then 0 else value >>> lsb &&& widthMask width

def sbfx (value : Word) (lsb width : Nat) : Word :=
  let extracted := ubfx value lsb width
  if width = 0 ∨ 32 < width then 0
  else if width = 32 then extracted
  else if extracted.getLsbD (width - 1) then extracted ||| ~~~(1#32 <<< (width - 1) <<< 1 - 1)
  else extracted

def bfi (dst src : Word) (lsb width : Nat) : Word :=
  if badField lsb width then dst
  else
    let mask := widthMask width <<< lsb
    (dst &&& ~~~mask) ||| (src <<< lsb &&& mask)

def bfc (dst : Word) (lsb width : Nat) : Word := bfi dst 0 lsb width

end ExecHelpers

namespace FlagWrite

def apply (w : FlagWrite) (xpsr : Word) : Word :=
  (xpsr &&& ~~~w.mask.bits) ||| (if w.res = 0 then 1#32 <<< 30 else 0) |||
    (w.res &&& 0x80000000#32) ||| (if w.carry then 1#32 <<< 29 else 0) |||
    (if w.overflow then 1#32 <<< 28 else 0)

theorem getLsbD_flag (p : Prop) [Decidable p] {i j : Nat} (hj : j < 32) :
    (if p then 1#32 <<< i else 0#32).getLsbD j = (decide p && decide (j = i)) := by
  split
  · rename_i holds
    rw [Bool.eq_iff_iff]
    simp only [BitVec.getLsbD_shiftLeft, BitVec.getLsbD_one, hj, holds, Bool.and_eq_true,
      Bool.not_eq_true', decide_eq_true_eq, decide_eq_false_iff_not, true_and]
    omega
  · rename_i fails
    simp [fails]

theorem getLsbD_sign {res : Word} {j : Nat} (hj : j < 32) :
    (res &&& 0x80000000#32).getLsbD j = (res.getLsbD j && decide (j = 31)) := by
  have sign : (0x80000000#32).getLsbD j = decide (j = 31) := by
    revert j
    decide
  rw [BitVec.getLsbD_and, sign]

theorem getLsbD_apply_eq (w : FlagWrite) (xpsr : Word) {j : Nat} (hj : j < 32) :
    (w.apply xpsr).getLsbD j = (xpsr.getLsbD j && !w.mask.bits.getLsbD j ||
      decide (w.res = 0) && decide (j = 30) || w.res.getLsbD j && decide (j = 31) ||
        w.carry && decide (j = 29) || w.overflow && decide (j = 28)) := by
  simp only [apply, BitVec.getLsbD_or, BitVec.getLsbD_and, BitVec.getLsbD_not, hj, getLsbD_sign hj,
    getLsbD_flag _ hj, BitVec.ofNat_eq_ofNat, decide_true, Bool.true_and, Bool.decide_eq_true]

theorem z_apply (w : FlagWrite) (xpsr : Word) :
    (w.apply xpsr).getLsbD 30 = decide (w.res = 0) := by
  rw [getLsbD_apply_eq w xpsr (by decide)]
  cases w.mask <;> simp [FlagMask.bits]

theorem n_apply (w : FlagWrite) (xpsr : Word) :
    (w.apply xpsr).getLsbD 31 = w.res.getLsbD 31 := by
  rw [getLsbD_apply_eq w xpsr (by decide)]
  cases w.mask <;> simp [FlagMask.bits]

theorem c_apply (w : FlagWrite) (xpsr : Word) :
    (w.apply xpsr).getLsbD 29 = (w.mask = .nz && xpsr.getLsbD 29 || w.carry) := by
  rw [getLsbD_apply_eq w xpsr (by decide)]
  cases w.mask <;> simp [FlagMask.bits]

theorem v_apply (w : FlagWrite) (xpsr : Word) :
    (w.apply xpsr).getLsbD 28 = (w.mask ≠ .nzcv && xpsr.getLsbD 28 || w.overflow) := by
  rw [getLsbD_apply_eq w xpsr (by decide)]
  cases w.mask <;> simp [FlagMask.bits]

theorem getLsbD_apply (w : FlagWrite) (xpsr : Word) {i : Nat} (hi : i < 28) :
    (w.apply xpsr).getLsbD i = xpsr.getLsbD i := by
  have keep : w.mask.bits.getLsbD i = false := by
    revert i
    cases w.mask <;> decide
  rw [getLsbD_apply_eq w xpsr (by omega), keep]
  simp only [decide_eq_false (p := i = 30) (by omega), decide_eq_false (p := i = 31) (by omega),
    decide_eq_false (p := i = 29) (by omega), decide_eq_false (p := i = 28) (by omega),
    Bool.and_false, Bool.or_false, Bool.not_false, Bool.and_true]

end FlagWrite

end M33mu
