import M33mu.DataFlags
import M33mu.Decode32
import M33mu.Lib.Bits
import M33mu.Lib.Shift

namespace M33mu

open Lib

/-- `Shift_C` on words. -/
def armShift (value : Word) (type : ShiftType) (n : Nat) (carry : Bool) : ShiftResult :=
  ⟨(shiftC value type n carry).1, (shiftC value type n carry).2⟩

def armShiftImm (value : Word) (type imm5 : Nat) (carry : Bool) : ShiftResult :=
  armShift value (decodeImmShift type imm5).1 (decodeImmShift type imm5).2 carry

theorem armShift_of_pos (value : Word) {type : ShiftType} {n : Nat} (pos : 0 < n) (carry : Bool) :
    armShift value type n carry = match type with
      | .lsl => ⟨value <<< n, decide (n ≤ 32) && value.getLsbD (32 - n)⟩
      | .lsr => ⟨value >>> n, value.getLsbD (n - 1)⟩
      | .asr => ⟨value.sshiftRight n, if n ≤ 32 then value.getLsbD (n - 1) else value.msb⟩
      | .ror => ⟨(rorC value n).1, (rorC value n).1.msb⟩
      | .rrx => ⟨(rrxC value carry).1, value.getLsbD 0⟩ := by
  rw [armShift, shiftC_of_pos value type pos]
  cases type with
  | lsl => rw [← lslC_value, ← lslC_carry]
  | lsr => rw [← lsrC_value, ← lsrC_carry value pos]
  | asr => rw [← asrC_value, ← asrC_carry value pos]
  | ror => rfl
  | rrx => rfl

theorem sshiftRight_beyond (value : Word) {n : Nat} (beyond : 32 ≤ n) :
    value.sshiftRight n = if value.getLsbD 31 then 0xffffffff else 0 := by
  apply BitVec.eq_of_getLsbD_eq
  intro i inside
  rw [BitVec.getLsbD_sshiftRight, if_neg (by omega), decide_eq_false (by omega),
    BitVec.msb_eq_getLsbD_last]
  cases value.getLsbD 31 with
  | false => simp
  | true =>
    have ones : (0xffffffff#32).getLsbD i = true := by
      revert i
      decide
    exact ones.symm

theorem sshiftRight_within (value : Word) {n : Nat} (within : n < 32) :
    value.sshiftRight n =
      value >>> n ||| (if value.getLsbD 31 then 0xffffffff#32 <<< (32 - n) else 0) := by
  apply BitVec.eq_of_getLsbD_eq
  intro i inside
  rw [BitVec.getLsbD_sshiftRight, BitVec.getLsbD_or, BitVec.getLsbD_ushiftRight,
    BitVec.msb_eq_getLsbD_last, decide_eq_false (show ¬ 32 ≤ i by omega)]
  have sign : value.getLsbD (32 - 1) = value.getLsbD 31 := rfl
  by_cases low : n + i < 32
  · have none : (0xffffffff#32 <<< (32 - n)).getLsbD i = false := by
      rw [BitVec.getLsbD_shiftLeft, decide_eq_true (show i < 32 - n by omega)]
      simp
    rw [if_pos low]
    cases value.getLsbD 31 <;> simp [none]
  · have ones : (0xffffffff#32).getLsbD (i - (32 - n)) = true := by
      have small : i - (32 - n) < 32 := by omega
      revert small
      generalize i - (32 - n) = k
      revert k
      decide
    have sign' : (0xffffffff#32 <<< (32 - n)).getLsbD i = true := by
      rw [BitVec.getLsbD_shiftLeft, ones, decide_eq_true inside,
        decide_eq_false (show ¬ i < 32 - n by omega)]
      rfl
    have out : value.getLsbD (n + i) = false := BitVec.getLsbD_of_ge value _ (by omega)
    rw [if_neg low, out, sign]
    cases value.getLsbD 31 <;> simp [sign']

namespace ExecHelpers

theorem lsl_eq (value : Word) (amount : Byte) (carry : Bool) :
    lsl value amount carry = armShift value .lsl amount.toNat carry := by
  simp only [lsl]
  generalize amount.toNat = n
  split
  · rename_i none
    rw [none]
    rfl
  · rename_i some
    rw [armShift_of_pos value (by omega)]
    split
    · rename_i small
      simp [Nat.le_of_lt small]
    split
    · rename_i all
      simp [all]
    · rename_i within beyond
      rw [BitVec.shiftLeft_eq_zero (by omega), decide_eq_false (by omega)]
      rfl

theorem lsr_eq (value : Word) (amount : Byte) (carry : Bool) :
    lsr value amount carry = armShift value .lsr amount.toNat carry := by
  simp only [lsr]
  generalize amount.toNat = n
  split
  · rename_i none
    rw [none]
    rfl
  · rename_i some
    rw [armShift_of_pos value (by omega)]
    split
    · simp
    split
    · rename_i all
      rw [all, BitVec.ushiftRight_eq_zero (Nat.le_refl 32)]
      rfl
    · rename_i within beyond
      rw [BitVec.ushiftRight_eq_zero (x := value) (n := n) (by omega),
        BitVec.getLsbD_of_ge value (n - 1) (by omega)]
      rfl

theorem asr_eq (value : Word) (amount : Byte) (carry : Bool) :
    asr value amount carry = armShift value .asr amount.toNat carry := by
  simp only [asr]
  generalize amount.toNat = n
  split
  · rename_i none
    rw [none]
    rfl
  · rename_i some
    rw [armShift_of_pos value (by omega)]
    split
    · rename_i within
      simp [sshiftRight_within value within, Nat.le_of_lt within]
    · rename_i beyond
      rw [sshiftRight_beyond value (by omega)]
      by_cases all : n = 32
      · simp [all]
      · simp [show ¬ n ≤ 32 by omega, BitVec.msb_eq_getLsbD_last]

theorem rotate_eq {value : Word} {rot : Nat} (within : rot < 32) :
    rotate value rot = (rorC value rot).1 := by
  rw [rotate, rorC_value, Nat.mod_eq_of_lt within]

theorem armShift_ror (value : Word) {n rot : Nat} (pos : 0 < n) (low : rot = n % 32) (carry : Bool) :
    armShift value .ror n carry =
      if rot = 0 then ⟨value, value.getLsbD 31⟩
      else ⟨rotate value rot, (rotate value rot).getLsbD 31⟩ := by
  have sign (v : Word) : v.msb = v.getLsbD 31 := BitVec.msb_eq_getLsbD_last v
  rw [armShift_of_pos value pos]
  by_cases turns : rot = 0
  · simp only [if_pos turns, rorC_value_of_dvd value (low.symm.trans turns), sign]
  · have within : rot < 32 := low ▸ Nat.mod_lt n (by decide)
    have same : (rorC value n).1 = (rorC value rot).1 := by
      rw [rorC_value, rorC_value, low, Nat.mod_mod]
    simp only [if_neg turns, same, rotate_eq within, sign]

theorem toNat_low5 (amount : Byte) : (amount &&& 31).toNat = amount.toNat % 32 :=
  toNat_and_mask amount 5 (by decide)

theorem ror_eq (value : Word) (amount : Byte) (carry : Bool) :
    ror value amount carry = armShift value .ror amount.toNat carry := by
  rw [ror]
  by_cases none : amount = 0
  · rw [if_pos none, none]
    rfl
  · have pos : 0 < amount.toNat := Nat.pos_of_ne_zero fun zero => none (BitVec.eq_of_toNat_eq zero)
    rw [if_neg none, armShift_ror value pos (toNat_low5 amount)]

theorem rorRegShiftC_eq (value shiftN : Word) (carry : Bool) :
    rorRegShiftC value shiftN carry = armShift value .ror (shiftN.setWidth 8).toNat carry := by
  have byte : (shiftN &&& 0xff).toNat = (shiftN.setWidth 8).toNat := by
    rw [BitVec.toNat_setWidth]
    exact toNat_and_mask shiftN 8 (by decide)
  have low : ((shiftN &&& 0xff) &&& 31).toNat = (shiftN.setWidth 8).toNat % 32 := by
    rw [← byte]
    exact toNat_and_mask (shiftN &&& 0xff) 5 (by decide)
  rw [rorRegShiftC]
  by_cases none : shiftN &&& 0xff = 0
  · rw [if_pos none, ← byte, none]
    rfl
  · have pos : 0 < (shiftN.setWidth 8).toNat :=
      Nat.pos_of_ne_zero fun zero => none (BitVec.eq_of_toNat_eq (byte.trans zero))
    rw [if_neg none, armShift_ror value pos low]

theorem rrx_eq (value : Word) (carry : Bool) :
    (⟨(if carry then 1#32 else 0#32) <<< 31 ||| value >>> 1, value.getLsbD 0⟩ : ShiftResult) =
      armShift value .rrx 1 carry := by
  rw [armShift_of_pos value Nat.one_pos]
  refine congrArg (ShiftResult.mk · _) ?_
  apply BitVec.eq_of_getLsbD_eq
  intro i inside
  rw [rrxC_value value carry inside, BitVec.getLsbD_or, BitVec.getLsbD_ushiftRight, Nat.add_comm 1]
  by_cases top : i = 31
  · have out : value.getLsbD (i + 1) = false := BitVec.getLsbD_of_ge value _ (by omega)
    rw [if_pos top, out, top]
    cases carry <;> decide
  · have none : ((if carry then 1#32 else 0#32) <<< 31).getLsbD i = false := by
      rw [BitVec.getLsbD_shiftLeft, decide_eq_true (show i < 31 by omega)]
      simp
    rw [if_neg top, none, Bool.false_or]

theorem shiftCImm_eq (value : Word) (type imm5 : Byte) (carry : Bool) :
    shiftCImm value type imm5 carry =
      armShiftImm value (type.toNat % 4) imm5.toNat carry := by
  have field : (type &&& 0x3).toNat = type.toNat % 4 := toNat_and_mask type 2 (by decide)
  have small := Nat.mod_lt type.toNat (show 0 < 4 by decide)
  have zero : imm5 = 0 ↔ imm5.toNat = 0 :=
    ⟨fun none => by rw [none]; rfl, fun none => BitVec.eq_of_toNat_eq none⟩
  have whole : (if imm5 = 0 then 32 else imm5 : Byte).toNat =
      if imm5.toNat = 0 then 32 else imm5.toNat := by
    simp only [← zero]
    split <;> rfl
  simp only [shiftCImm, field, armShiftImm]
  generalize type.toNat % 4 = k at small
  match k with
  | 0 =>
    simp only [decodeImmShift, lsl_eq, zero]
    split
    · rename_i none
      rw [none]
      rfl
    · rfl
  | 1 => simp only [decodeImmShift, lsr_eq, whole]
  | 2 => simp only [decodeImmShift, asr_eq, whole]
  | 3 =>
    simp only [decodeImmShift, ror_eq, rrx_eq, zero]
    split <;> rfl
  | k + 4 => omega

theorem constant_lsl (value : Word) {sh : Nat} (within : sh < 32) (carry : Bool) :
    (if sh = 0 then ⟨value, carry⟩
      else ⟨value <<< sh, (value >>> (32 - sh)).getLsbD 0⟩ : ShiftResult) =
      armShiftImm value 0 sh carry := by
  rw [armShiftImm, decodeImmShift]
  split
  · rename_i none
    rw [none]
    rfl
  · rename_i some
    rw [armShift_of_pos value (Nat.pos_of_ne_zero some)]
    simp [Nat.le_of_lt within]

theorem constant_lsr (value : Word) (sh : Nat) (carry : Bool) :
    (if sh = 0 then ⟨0, value.getLsbD 31⟩
      else ⟨value >>> sh, (value >>> (sh - 1)).getLsbD 0⟩ : ShiftResult) =
      armShiftImm value 1 sh carry := by
  simp only [armShiftImm, decodeImmShift]
  split
  · rw [armShift_of_pos value (by decide), BitVec.ushiftRight_eq_zero (Nat.le_refl 32)]
    rfl
  · rename_i some
    rw [armShift_of_pos value (Nat.pos_of_ne_zero some)]
    simp

theorem constant_asr (value : Word) {sh : Nat} (within : sh < 32) (carry : Bool) :
    (if sh = 0 then ⟨if value.getLsbD 31 then 0xffffffff else 0, value.getLsbD 31⟩
      else ⟨value.sshiftRight sh, (value >>> (sh - 1)).getLsbD 0⟩ : ShiftResult) =
      armShiftImm value 2 sh carry := by
  simp only [armShiftImm, decodeImmShift]
  split
  · rw [armShift_of_pos value (by decide), sshiftRight_beyond value (Nat.le_refl 32)]
    rfl
  · rename_i some
    rw [armShift_of_pos value (Nat.pos_of_ne_zero some)]
    simp [Nat.le_of_lt within]

end ExecHelpers

/-- The instruction writes the result of a shift to `rd`, and its carry where it writes flags. -/
structure DataResult.Shifted (res : DataResult) (r : Regs) (rd : Reg) (out : ShiftResult) : Prop where
  value : res.r = Function.update r rd out.value
  carry : ∀ w ∈ res.flags, w.mask ≠ .nz ∧ w.carry = out.carryOut

namespace DataProc

open ExecHelpers

def constantShift : OpKind → Option Nat
  | .lslImm => some 0
  | .lsrImm => some 1
  | .asrImm => some 2
  | .rorImm => some 3
  | _ => none

def registerShift : OpKind → Option ShiftType
  | .lslReg => some .lsl
  | .lsrReg => some .lsr
  | .asrReg => some .asr
  | .rorReg | .rorRegNf => some .ror
  | _ => none

def regAmount (d : Decoded) (r : Regs) : Nat := ((r d.rm).setWidth 8).toNat

variable (r : Regs) (rd : Reg) (setflags : Bool)

theorem putFlags_shifted (res : ShiftResult) {w : FlagWrite} (mask : w.mask ≠ .nz)
    (carry : w.carry = res.carryOut) : (putFlags r rd res.value setflags w).Shifted r rd res := by
  refine ⟨rfl, fun w' mem => ?_⟩
  simp only [putFlags] at mem
  split at mem
  · obtain rfl := Option.some.inj mem
    exact ⟨mask, carry⟩
  · exact nomatch mem

theorem shifted_shifted (res : ShiftResult) : (shifted r rd res setflags).Shifted r rd res :=
  putFlags_shifted r rd setflags res nofun rfl

theorem immShift_lt (d : Decoded) : immShift d < 32 := by
  rw [immShift, show (0x1f : Word) = BitVec.ofNat 32 (2 ^ 5 - 1) from rfl,
    toNat_and_mask d.imm 5 (by decide)]
  exact Nat.mod_lt _ (by decide)

variable {r} {d : Decoded} {itRemaining : Byte} {pcFetch xpsr : Word}

theorem constant_shifted {type : Nat} (constant : constantShift d.kind = some type) :
    (dataProc d itRemaining pcFetch r xpsr).Shifted r d.rd
      (armShiftImm (r d.rm) type (immShift d) (carryFlag xpsr)) := by
  have within := immShift_lt d
  unfold constantShift at constant
  split at constant
  case h_5 => exact nomatch constant
  all_goals
    rename_i kind
    obtain rfl := Option.some.inj constant
    simp only [dataProc, kind]
  · rw [← constant_lsl _ within]
    exact shifted_shifted ..
  · rw [← constant_lsr]
    exact shifted_shifted ..
  · rw [← constant_asr _ within]
    exact shifted_shifted ..
  · have amount : ((d.imm &&& 0x1f).setWidth 8).toNat = immShift d := by
      rw [BitVec.toNat_setWidth]
      exact Nat.mod_eq_of_lt (Nat.lt_trans within (by decide))
    have same := shiftCImm_eq (r d.rm) 3 ((d.imm &&& 0x1f).setWidth 8) (carryFlag xpsr)
    rw [amount] at same
    rw [show armShiftImm (r d.rm) 3 (immShift d) (carryFlag xpsr) = _ from same.symm]
    exact shifted_shifted ..

theorem register_shifted {type : ShiftType} (register : registerShift d.kind = some type) :
    (dataProc d itRemaining pcFetch r xpsr).Shifted r d.rd
      (armShift (r d.rn) type (regAmount d r) (carryFlag xpsr)) := by
  have low : (r d.rm &&& 0xff).setWidth 8 = (r d.rm).setWidth 8 := by
    apply BitVec.eq_of_toNat_eq
    rw [BitVec.toNat_setWidth, BitVec.toNat_setWidth,
      show (0xff : Word) = BitVec.ofNat 32 (2 ^ 8 - 1) from rfl,
      toNat_and_mask (r d.rm) 8 (by decide), Nat.mod_mod]
  have rotated := rorRegShiftC_eq (r d.rn) (r d.rm &&& 0xff) (carryFlag xpsr)
  rw [low] at rotated
  unfold registerShift at register
  split at register
  case h_6 => cases register
  all_goals
    rename_i kind
    obtain rfl := Option.some.inj register
    simp only [dataProc, kind, regAmount]
  · rw [← lsl_eq]
    exact shifted_shifted ..
  · rw [← lsr_eq]
    exact shifted_shifted ..
  · rw [← asr_eq]
    exact shifted_shifted ..
  · rw [← rotated]
    exact putFlags_shifted _ _ _ _ (fun is => by cases is) rfl
  · rw [← rotated]
    exact ⟨rfl, fun _ is => by cases is⟩

theorem isSome_shift (shift : (constantShift d.kind).isSome ∨ (registerShift d.kind).isSome) :
    (dataProc d itRemaining pcFetch r xpsr).flags.isSome = writes d itRemaining := by
  have put (rd : Reg) (v : Word) (setflags : Bool) (w : FlagWrite) :
      (putFlags r rd v setflags w).flags.isSome = setflags := by
    cases setflags <;> rfl
  cases kind : d.kind
  case lslImm | lsrImm | asrImm | rorImm | lslReg | lsrReg | asrReg | rorReg =>
    simp only [dataProc, writes, kind]
    exact put ..
  case rorRegNf =>
    simp only [dataProc, writes, kind]
    rfl
  all_goals
    rw [kind] at shift
    rcases shift with out | out <;> cases out

theorem c_of_shifted {res : DataResult} {rd : Reg} {out : ShiftResult} {setflags : Bool}
    (shifted : res.Shifted r rd out) (isSome : res.flags.isSome = setflags) :
    (flagsAfter res xpsr).c = if setflags then out.carryOut else carryFlag xpsr := by
  cases written : res.flags with
  | none =>
    rw [written] at isSome
    subst isSome
    simp only [flagsAfter, written]
    rfl
  | some w =>
    rw [written] at isSome
    subst isSome
    obtain ⟨mask, carry⟩ := shifted.carry w written
    simp only [flagsAfter, written, Flags.ofXpsr, FlagWrite.c_apply, carry, decide_eq_false mask]
    rfl

theorem constant_c {type : Nat} (constant : constantShift d.kind = some type) :
    (flagsAfter (dataProc d itRemaining pcFetch r xpsr) xpsr).c =
      if writes d itRemaining then
        (armShiftImm (r d.rm) type (immShift d) (carryFlag xpsr)).carryOut
      else carryFlag xpsr :=
  c_of_shifted (constant_shifted constant) (isSome_shift (.inl (by rw [constant]; rfl)))

theorem register_c {type : ShiftType} (register : registerShift d.kind = some type) :
    (flagsAfter (dataProc d itRemaining pcFetch r xpsr) xpsr).c =
      if writes d itRemaining then
        (armShift (r d.rn) type (regAmount d r) (carryFlag xpsr)).carryOut
      else carryFlag xpsr :=
  c_of_shifted (register_shifted register) (isSome_shift (.inr (by rw [register]; rfl)))

/-- The shift `d` by a constant and the shift `d'` by a register that holds `n` give the same
register and the same C, whatever value and carry they get. -/
def SameShift (d d' : Decoded) (n : Nat) (it it' : Byte) : Prop :=
  ∀ (pc pc' : Word) (r r' : Regs) (xpsr xpsr' : Word), regAmount d' r' = n → r d.rm = r' d'.rn →
    carryFlag xpsr = carryFlag xpsr' →
      (dataProc d it pc r xpsr).r d.rd = (dataProc d' it' pc' r' xpsr').r d'.rd ∧
        (flagsAfter (dataProc d it pc r xpsr) xpsr).c =
          (flagsAfter (dataProc d' it' pc' r' xpsr') xpsr').c

theorem decodeImmShift_le (field : Nat) {imm : Nat} (small : imm < 32) :
    (decodeImmShift field imm).2 ≤ 32 := by
  unfold decodeImmShift
  split
  · exact Nat.le_of_lt small
  all_goals split <;> first | exact Nat.le_of_lt small | decide

theorem carryOut_armShift_ne (value : Word) {type : ShiftType} {n : Nat} (pos : 0 < n)
    (plain : type ≠ .rrx) :
    ∃ carry, (armShift value type n carry).carryOut ≠ carry := by
  have same : ∀ carry, (armShift value type n carry).carryOut =
      (armShift value type n false).carryOut := by
    intro carry
    rw [armShift_of_pos value pos, armShift_of_pos value pos]
    cases type with
    | rrx => exact absurd rfl plain
    | lsl | lsr | asr | ror => rfl
  refine ⟨!(armShift value type n false).carryOut, ?_⟩
  rw [same]
  cases (armShift value type n false).carryOut <;> decide

theorem sameShift_iff {d d' : Decoded} {field n : Nat} {type : ShiftType}
    (constant : constantShift d.kind = some field) (register : registerShift d'.kind = some type)
    (amount : decodeImmShift field (immShift d) = (type, n)) (it it' : Byte) :
    SameShift d d' n it it' ↔ writes d it = writes d' it' ∨ n = 0 := by
  have equal (value : Word) (carry : Bool) :
      armShiftImm value field (immShift d) carry = armShift value type n carry := by
    rw [armShiftImm, amount]
  constructor
  · intro same
    rcases Nat.eq_zero_or_pos n with zero | pos
    · exact .inr zero
    have plain : type ≠ .rrx := by
      rintro rfl
      unfold registerShift at register
      split at register <;> cases register
    have byte : n ≤ 32 := by
      have small := decodeImmShift_le field (immShift_lt d)
      rw [amount] at small
      exact small
    -- the amount stands in every register, so also where the value and the amount are one register
    let value : Word := BitVec.ofNat 32 n
    have holds : regAmount d' (fun _ => value) = n := by
      simp only [regAmount, value, BitVec.toNat_setWidth, BitVec.toNat_ofNat]
      omega
    obtain ⟨carry, differs⟩ := carryOut_armShift_ne value pos plain
    have set : carryFlag (if carry then 1#32 <<< 29 else 0) = carry := by
      cases carry <;> decide
    have c := (same 0 0 (fun _ => value) (fun _ => value) (if carry then 1#32 <<< 29 else 0)
      (if carry then 1#32 <<< 29 else 0) holds rfl rfl).2
    rw [constant_c constant, register_c register, holds, set, equal] at c
    left
    cases left : writes d it with
    | false =>
      cases right : writes d' it' with
      | false => rfl
      | true =>
        rw [left, right] at c
        exact absurd c.symm differs
    | true =>
      cases right : writes d' it' with
      | false =>
        rw [left, right] at c
        exact absurd c differs
      | true => rfl
  · intro alike pc pc' r r' xpsr xpsr' amount' value carry
    have out : armShiftImm (r d.rm) field (immShift d) (carryFlag xpsr) =
        armShift (r' d'.rn) type (regAmount d' r') (carryFlag xpsr') := by
      rw [equal, amount', value, carry]
    constructor
    · rw [(constant_shifted constant).value, (register_shifted register).value, out,
        Function.update_self, Function.update_self]
    rw [constant_c constant, register_c register, out, carry]
    rcases alike with alike | zero
    · rw [alike]
    · have kept : (armShift (r' d'.rn) type (regAmount d' r') (carryFlag xpsr')).carryOut =
          carryFlag xpsr' := by
        rw [amount', zero]
        rfl
      rw [kept, ite_self, ite_self]

/-- Every implementation of a shift computes `Shift_C`, for all values, amounts and carries, and
gives it to C where the instruction writes flags. So a shift by a constant and the same shift by a
register give the same register and the same C, exactly if both write flags or neither does, or the
amount is zero. -/
theorem shifts_agree_iff (value shiftN : Word) (amount type imm5 : Byte) (carry : Bool)
    (d d' : Decoded) (it it' : Byte) (pcFetch : Word) (r : Regs) (xpsr : Word) :
    (lsl value amount carry = armShift value .lsl amount.toNat carry ∧
      lsr value amount carry = armShift value .lsr amount.toNat carry ∧
      asr value amount carry = armShift value .asr amount.toNat carry) ∧
    rorRegShiftC value shiftN carry = armShift value .ror (shiftN.setWidth 8).toNat carry ∧
    shiftCImm value type imm5 carry = armShiftImm value (type.toNat % 4) imm5.toNat carry ∧
    (∀ field, constantShift d.kind = some field →
      (dataProc d it pcFetch r xpsr).Shifted r d.rd
        (armShiftImm (r d.rm) field (immShift d) (carryFlag xpsr)) ∧
      (flagsAfter (dataProc d it pcFetch r xpsr) xpsr).c =
        if writes d it then (armShiftImm (r d.rm) field (immShift d) (carryFlag xpsr)).carryOut
        else carryFlag xpsr) ∧
    (∀ shift, registerShift d'.kind = some shift →
      (dataProc d' it' pcFetch r xpsr).Shifted r d'.rd
        (armShift (r d'.rn) shift (regAmount d' r) (carryFlag xpsr)) ∧
      (flagsAfter (dataProc d' it' pcFetch r xpsr) xpsr).c =
        if writes d' it' then (armShift (r d'.rn) shift (regAmount d' r) (carryFlag xpsr)).carryOut
        else carryFlag xpsr) ∧
    ∀ field n shift, constantShift d.kind = some field → registerShift d'.kind = some shift →
      decodeImmShift field (immShift d) = (shift, n) →
        (SameShift d d' n it it' ↔ writes d it = writes d' it' ∨ n = 0) :=
  ⟨⟨lsl_eq .., lsr_eq .., asr_eq ..⟩, rorRegShiftC_eq .., shiftCImm_eq ..,
    fun _ constant => ⟨constant_shifted constant, constant_c constant⟩,
    fun _ register => ⟨register_shifted register, register_c register⟩,
    fun _ _ _ constant register amount => sameShift_iff constant register amount it it'⟩

/-- `ASRS.W` by the constant 1 and by a register that holds 1: both have the S bit, and only the
first writes flags. -/
theorem not_sameShift_asrs : ¬ ∀ (d d' : Decoded) (field n : Nat) (type : ShiftType),
    constantShift d.kind = some field → registerShift d'.kind = some type →
    decodeImmShift field (immShift d) = (type, n) → d.len = d'.len → sBit d = sBit d' →
      SameShift d d' n 0 0 := by
  intro all
  have constant : constantShift (Decode.decode32 0xea5f0061).kind = some 2 := by decide +kernel
  have register : registerShift (Decode.decode32 0xfa51f002).kind = some .asr := by decide +kernel
  have amount : decodeImmShift 2 (immShift (Decode.decode32 0xea5f0061)) = (.asr, 1) := by
    decide +kernel
  have same := all _ _ 2 1 .asr constant register amount (by decide +kernel) (by decide +kernel)
  exact absurd ((sameShift_iff constant register amount 0 0).mp same) (by decide +kernel)

end DataProc

end M33mu
