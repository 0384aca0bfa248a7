import M33mu.LimbChains
import M33mu.ThumbArch

/-!
The 16-bit instructions that set flags, as the emulator executes them outside an IT block: the
results of the architecture, and the flags of the architecture but for the ones named here.
-/

namespace M33mu

open Lib Decode DataProc ExecHelpers

def Alu.dest (a : Alu) (rd : Option Reg) (r : Regs) : Regs :=
  match rd with
  | some rd => Function.update r rd a.value
  | none => r

theorem sum_addWithCarry (x y : Word) (carry : Bool) :
    Alu.sum (addWithCarry x y carry) = armAdd x y carry := by
  have value : (addWithCarry x y carry).value = BitVec.ofNat 32 (x.toNat + y.toNat + carry.toNat) :=
    BitVec.eq_of_toNat_eq (toNat_addWithCarry x y carry)
  have carries : (addWithCarry x y carry).carry =
      decide ((addWithCarry x y carry).value.toNat ≠ x.toNat + y.toNat + carry.toNat) := by
    rw [carry_addWithCarry, toNat_addWithCarry, Bool.eq_iff_iff, decide_eq_true_iff,
      decide_eq_true_iff]
    have left := x.isLt
    have right := y.isLt
    have small := carry.toNat_le
    omega
  rw [Alu.sum, armAdd, carries, overflow_addWithCarry, value]

theorem armAdd_comm (x y : Word) (carry : Bool) : armAdd x y carry = armAdd y x carry := by
  simp only [armAdd, Nat.add_comm x.toNat, Int.add_comm x.toInt]

structure DataResult.Gives (res : DataResult) (r : Regs) (xpsr : Word) (rd : Option Reg) (a : Alu)
    (f : Flags) : Prop where
  regs : res.r = a.dest rd r
  flags : flagsAfter res xpsr = f

section

variable (r : Regs) (xpsr : Word) (rd : Reg)

theorem gives_arith (x y : Word) (carry : Bool) :
    (arith r rd (addWithCarry x y carry) true).Gives r xpsr (some rd) (armAdd x y carry)
      ((armAdd x y carry).flags (.ofXpsr xpsr)) := by
  rw [← sum_addWithCarry]
  exact ⟨rfl, flagsAfter_sum ..⟩

theorem gives_compare (x y : Word) (carry : Bool) :
    (compare r (addWithCarry x y carry)).Gives r xpsr none (armAdd x y carry)
      ((armAdd x y carry).flags (.ofXpsr xpsr)) := by
  rw [← sum_addWithCarry]
  exact ⟨rfl, flagsAfter_compare ..⟩

theorem plain_flags (value : Word) :
    (Alu.shift value (carryFlag xpsr)).flags (.ofXpsr xpsr) =
      (Alu.plain value).flags (.ofXpsr xpsr) :=
  rfl

theorem gives_logical (value : Word) :
    (logical r rd value (carryFlag xpsr) true).Gives r xpsr (some rd) (.plain value)
      ((Alu.plain value).flags (.ofXpsr xpsr)) :=
  ⟨rfl, (flagsAfter_logical ..).trans (plain_flags xpsr value)⟩

theorem gives_test (value : Word) :
    DataResult.Gives ⟨r, some ⟨.nzc, value, carryFlag xpsr, false⟩⟩ r xpsr none (.plain value)
      ((Alu.plain value).flags (.ofXpsr xpsr)) :=
  ⟨rfl, (flagsAfter_test ..).trans (plain_flags xpsr value)⟩

theorem gives_nz (value : Word) :
    (putFlags r rd value true ⟨.nz, value, false, false⟩).Gives r xpsr (some rd) (.plain value)
      ((Alu.plain value).flags (.ofXpsr xpsr)) :=
  ⟨rfl, flagsAfter_nz ..⟩

variable (x : Word) (type : ShiftType) (n : Nat)

theorem shifted_flags :
    (Alu.shift (armShift x type n (carryFlag xpsr)).value
        (armShift x type n (carryFlag xpsr)).carryOut).flags (.ofXpsr xpsr) =
      (armShifted x type n (carryFlag xpsr)).flags (.ofXpsr xpsr) := by
  rw [armShifted]
  by_cases none : n = 0
  · rw [if_pos none, none]
    rfl
  · rw [if_neg none]
    rfl

variable {x type n}

theorem gives_shifted {out : ShiftResult} (shift : out = armShift x type n (carryFlag xpsr)) :
    (shifted r rd out true).Gives r xpsr (some rd) (armShifted x type n (carryFlag xpsr))
      { (armShifted x type n (carryFlag xpsr)).flags (.ofXpsr xpsr) with v := false } := by
  rw [shift]
  refine ⟨rfl, (flagsAfter_shifted ..).trans ?_⟩
  rw [if_pos rfl, shifted_flags]

theorem gives_rotated {out : ShiftResult} (shift : out = armShift x type n (carryFlag xpsr)) :
    (logical r rd out.value out.carryOut true).Gives r xpsr (some rd)
      (armShifted x type n (carryFlag xpsr))
      ((armShifted x type n (carryFlag xpsr)).flags (.ofXpsr xpsr)) := by
  rw [shift]
  refine ⟨rfl, (flagsAfter_logical ..).trans ?_⟩
  rw [if_pos rfl, shifted_flags]

end

theorem regForm_half (d : Decoded) (hw : Half) (raw : d.raw = hw.setWidth 32) :
    regForm d = false := by
  have top : (d.raw &&& 0xfe000000).getLsbD 31 = false := by
    rw [raw, BitVec.getLsbD_and, BitVec.getLsbD_setWidth, BitVec.getLsbD_of_ge hw 31 (by decide)]
    rfl
  rw [regForm, beq_eq_false_iff_ne]
  intro is
  rw [is] at top
  exact absurd top (by decide)

namespace Thumb

/-- What the emulator shows of the flags of a result: `MOVS` sets none, and shifts other than `ROR`
clear V. -/
def shown (i : Thumb) (a : Alu) (old : Flags) : Flags :=
  match i with
  | immediate .mov _ _ => old
  | shift _ _ _ _ | alu .lsl _ _ | alu .lsr _ _ | alu .asr _ _ => { a.flags old with v := false }
  | _ => a.flags old

theorem armShiftImm_eq (op : ShiftOp) (imm5 : BitVec 5) (x : Word) (carry : Bool) :
    armShiftImm x (op.code.toNat) imm5.toNat carry = armShift x op.type (op.amount imm5) carry := by
  have zero : imm5 = 0 ↔ imm5.toNat = 0 :=
    ⟨fun none => by rw [none]; rfl, fun none => BitVec.eq_of_toNat_eq none⟩
  cases op <;> simp only [armShiftImm, ShiftOp.type, ShiftOp.amount, zero] <;> rfl

theorem toNat_imm5 (imm5 : BitVec 5) : (imm5.setWidth 32 &&& 0x1f).toNat = imm5.toNat := by
  have mask := toNat_and_mask (imm5.setWidth 32) 5 (by decide)
  rw [BitVec.toNat_setWidth_of_le (by decide)] at mask
  exact mask.trans (Nat.mod_eq_of_lt imm5.isLt)

variable {rd : Option Reg} {a : Alu} (pc : Word) {r : Regs} {xpsr : Word}

theorem gives_shift (op : ShiftOp) (imm5 : BitVec 5) (rm rd : BitVec 3) :
    (dataProc (shift op imm5 rm rd).decoded 0 pc r xpsr).Gives r xpsr (some (low rd))
      (armShifted (r (low rm)) op.type (op.amount imm5) (carryFlag xpsr))
      ((shift op imm5 rm rd).shown
        (armShifted (r (low rm)) op.type (op.amount imm5) (carryFlag xpsr)) (.ofXpsr xpsr)) := by
  have amount : immShift (shift op imm5 rm rd).decoded = imm5.toNat := toNat_imm5 imm5
  have same := armShiftImm_eq op imm5 (r (low rm)) (carryFlag xpsr)
  rw [← amount] at same
  have within := immShift_lt (shift op imm5 rm rd).decoded
  cases op with
  | lsl => exact gives_shifted _ _ _ ((constant_lsl _ within _).trans same)
  | lsr => exact gives_shifted _ _ _ ((constant_lsr _ _ _).trans same)
  | asr => exact gives_shifted _ _ _ ((constant_asr _ within _).trans same)

theorem low_ne_pc (r : BitVec 3) : low r ≠ 15 := by
  revert r
  decide

theorem raw_addSub (sub : Bool) (rm rn rd : BitVec 3) :
    ((addSubReg sub rm rn rd).encode.setWidth 32 &&& 0xfc00 != (0x4400 : Word)) = true := by
  have clear : ((addSubReg sub rm rn rd).encode.setWidth 32 &&& (0xfc00 : Word)).getLsbD 14 =
      false := by
    simp only [encode, BitVec.getLsbD_and, BitVec.getLsbD_setWidth, BitVec.getLsbD_append]
    rfl
  rw [bne_iff_ne]
  intro is
  rw [is] at clear
  exact absurd clear (by decide)

theorem setWidth_and_byte (x : Word) : (x &&& 0xff).setWidth 8 = (x.setWidth 8 : Byte) := by
  apply BitVec.eq_of_toNat_eq
  rw [BitVec.toNat_setWidth, BitVec.toNat_setWidth,
    show (x &&& 0xff).toNat = _ from toNat_and_mask x 8 (by decide), Nat.mod_mod]

theorem gives_operation {i : Thumb} (sets : i.operation r (carryFlag xpsr) = some (rd, a)) :
    (dataProc i.decoded 0 pc r xpsr).Gives r xpsr rd a (i.shown a (.ofXpsr xpsr)) := by
  have narrow (d : Decoded) (raw : d.raw = i.encode.setWidth 32) := regForm_half d i.encode raw
  cases i with
  | shift op imm5 rm rd =>
    cases sets
    exact gives_shift pc op imm5 rm rd
  | addSubReg sub rm rn rd =>
    have form := narrow (addSubReg sub rm rn rd).decoded rfl
    cases sets
    cases sub with
    | false =>
      simp only [dataProc, decoded, blank, Decoded.default, Bool.false_eq_true, if_false] at form ⊢
      simp only [addReg, form, raw_addSub, Bool.false_eq_true, if_false]
      exact gives_arith ..
    | true =>
      simp only [dataProc, decoded, blank, if_true] at form ⊢
      simp only [subReg, form, Bool.false_eq_true, if_false]
      exact gives_arith ..
  | addSubImm sub imm3 rn rd => cases sub <;> cases sets <;> exact gives_arith ..
  | immediate op rdn imm8 =>
    cases op with
    | mov =>
      cases sets
      exact ⟨rfl, rfl⟩
    | cmp =>
      cases sets
      exact gives_compare ..
    | add | sub =>
      cases sets
      exact gives_arith ..
  | alu op rm rdn =>
    have form := narrow (alu op rm rdn).decoded (by cases op <;> rfl)
    cases sets
    cases op with
    | rsb =>
      rw [AluOp.arm, armAdd_comm]
      exact gives_arith ..
    | cmn => exact gives_compare ..
    | mul => exact gives_nz ..
    | mvn => exact gives_nz ..
    | and | eor | bic =>
      simp only [dataProc, decoded, blank, AluOp.kind] at form ⊢
      simp only [andReg, eorReg, bicReg, logicalOp, logicalRhs, form, Bool.false_eq_true, if_false]
      exact gives_logical ..
    | orr =>
      simp only [dataProc, decoded, blank, AluOp.kind] at form ⊢
      simp only [orrReg, logicalOp, logicalRhs, form, Bool.false_eq_true, if_false, low_ne_pc]
      exact gives_logical ..
    | lsl => exact gives_shifted _ _ _ (lsl_eq ..)
    | lsr => exact gives_shifted _ _ _ (lsr_eq ..)
    | asr => exact gives_shifted _ _ _ (asr_eq ..)
    | ror =>
      have rotated := rorRegShiftC_eq (r (low rdn)) (r (low rm) &&& 0xff) (carryFlag xpsr)
      rw [setWidth_and_byte] at rotated
      exact gives_rotated _ _ _ rotated
    | adc | sbc =>
      simp only [dataProc, decoded, blank, AluOp.kind] at form ⊢
      simp only [adcsReg, sbcsReg, carryRhs, form, Bool.false_eq_true, if_false]
      exact gives_arith ..
    | tst =>
      simp only [dataProc, decoded, blank, AluOp.kind] at form ⊢
      simp only [tstReg, form, Bool.false_eq_true, if_false]
      exact gives_test ..
    | cmp =>
      simp only [dataProc, decoded, blank, AluOp.kind] at form ⊢
      simp only [cmpReg, form, Bool.false_eq_true, if_false]
      exact gives_compare ..
  | high op rm rdn =>
    cases op with
    | cmp =>
      have form := narrow (high .cmp rm rdn).decoded rfl
      rw [operation] at sets
      split at sets
      · cases sets
      · cases sets
        simp only [dataProc, decoded, blank, HighOp.kind] at form ⊢
        simp only [cmpReg, form, Bool.false_eq_true, if_false]
        exact gives_compare ..
    | add | mov => cases sets
  | _ => cases sets

end Thumb

end M33mu
