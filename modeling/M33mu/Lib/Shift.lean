import Mathlib.Data.Nat.Bitwise

/-!
Shifts with a carry out, as the Arm architecture defines them: the value is extended on the side
that it is shifted to, and the last bit that leaves it is the carry.
-/

namespace M33mu.Lib

inductive ShiftType
  | lsl
  | lsr
  | asr
  | ror
  | rrx
  deriving DecidableEq, Repr

variable {w : Nat}

def lslC (x : BitVec w) (n : Nat) : BitVec w × Bool :=
  let extended := x ++ 0#n
  (extended.setWidth w, extended.getLsbD w)

def lsrC (x : BitVec w) (n : Nat) : BitVec w × Bool :=
  let extended := x.setWidth (n + w)
  (extended.extractLsb' n w, extended.getLsbD (n - 1))

def asrC (x : BitVec w) (n : Nat) : BitVec w × Bool :=
  let extended := x.signExtend (n + w)
  (extended.extractLsb' n w, extended.getLsbD (n - 1))

def rorC (x : BitVec w) (n : Nat) : BitVec w × Bool :=
  let m := n % w
  let result := (lsrC x m).1 ||| (lslC x (w - m)).1
  (result, result.msb)

def rrxC (x : BitVec w) (carry : Bool) : BitVec w × Bool :=
  ((BitVec.ofBool carry ++ x.extractLsb' 1 (w - 1)).setWidth w, x.getLsbD 0)

/-- `Shift_C`; the amount of `rrx` is 1. -/
def shiftC (x : BitVec w) (type : ShiftType) (n : Nat) (carry : Bool) : BitVec w × Bool :=
  if n = 0 then (x, carry)
  else
    match type with
    | .lsl => lslC x n
    | .lsr => lsrC x n
    | .asr => asrC x n
    | .ror => rorC x n
    | .rrx => rrxC x carry

/-- `DecodeImmShift`: what the type and amount fields of an instruction stand for. -/
def decodeImmShift (type imm5 : Nat) : ShiftType × Nat :=
  match type with
  | 0 => (.lsl, imm5)
  | 1 => (.lsr, if imm5 = 0 then 32 else imm5)
  | 2 => (.asr, if imm5 = 0 then 32 else imm5)
  | _ => if imm5 = 0 then (.rrx, 1) else (.ror, imm5)

@[simp] theorem shiftC_zero (x : BitVec w) (type : ShiftType) (carry : Bool) :
    shiftC x type 0 carry = (x, carry) := rfl

theorem shiftC_of_pos (x : BitVec w) (type : ShiftType) {n : Nat} (pos : 0 < n) (carry : Bool) :
    shiftC x type n carry = match type with
      | .lsl => lslC x n
      | .lsr => lsrC x n
      | .asr => asrC x n
      | .ror => rorC x n
      | .rrx => rrxC x carry :=
  if_neg (Nat.ne_of_gt pos)

theorem lslC_value (x : BitVec w) (n : Nat) : (lslC x n).1 = x <<< n := by
  apply BitVec.eq_of_getLsbD_eq
  intro i inside
  rw [lslC]
  simp only [BitVec.getLsbD_setWidth, BitVec.getLsbD_append, BitVec.getLsbD_shiftLeft, inside]
  by_cases low : i < n <;> simp [low]

theorem lslC_carry (x : BitVec w) (n : Nat) : (lslC x n).2 = (decide (n ≤ w) && x.getLsbD (w - n)) := by
  rw [lslC]
  simp only [BitVec.getLsbD_append]
  by_cases low : w < n
  · simp [low, Nat.not_le.mpr low]
  · simp [low, Nat.not_lt.mp low]

theorem lsrC_value (x : BitVec w) (n : Nat) : (lsrC x n).1 = x >>> n := by
  apply BitVec.eq_of_getLsbD_eq
  intro i inside
  rw [lsrC]
  simp [inside]

theorem lsrC_carry (x : BitVec w) {n : Nat} (pos : 0 < n) : (lsrC x n).2 = x.getLsbD (n - 1) := by
  rw [lsrC, BitVec.getLsbD_setWidth, decide_eq_true (by omega), Bool.true_and]

theorem asrC_value (x : BitVec w) (n : Nat) : (asrC x n).1 = x.sshiftRight n := by
  apply BitVec.eq_of_getLsbD_eq
  intro i inside
  rw [asrC, BitVec.getLsbD_extractLsb', BitVec.getLsbD_signExtend, BitVec.getLsbD_sshiftRight,
    decide_eq_true inside, decide_eq_true (show n + i < n + w by omega),
    decide_eq_false (show ¬ w ≤ i by omega)]
  rfl

theorem asrC_carry (x : BitVec w) {n : Nat} (pos : 0 < n) :
    (asrC x n).2 = if n ≤ w then x.getLsbD (n - 1) else x.msb := by
  have within : n - 1 < w ↔ n ≤ w := by omega
  rw [asrC, BitVec.getLsbD_signExtend, decide_eq_true (by omega), Bool.true_and]
  simp only [within]

theorem rorC_value (x : BitVec w) (n : Nat) :
    (rorC x n).1 = x >>> (n % w) ||| x <<< (w - n % w) := by
  rw [rorC, lsrC_value, lslC_value]

theorem rorC_value_of_dvd (x : BitVec w) {n : Nat} (turns : n % w = 0) : (rorC x n).1 = x := by
  rw [rorC_value, turns, Nat.sub_zero, BitVec.shiftLeft_eq_zero (Nat.le_refl w),
    BitVec.ushiftRight_zero]
  exact BitVec.or_zero

theorem rrxC_value (x : BitVec w) (carry : Bool) {i : Nat} (inside : i < w) :
    (rrxC x carry).1.getLsbD i = if i = w - 1 then carry else x.getLsbD (i + 1) := by
  rw [rrxC, BitVec.getLsbD_setWidth, BitVec.getLsbD_append, decide_eq_true inside, Bool.true_and]
  by_cases top : i = w - 1
  · rw [if_neg (by omega), if_pos top, top, Nat.sub_self]
    cases carry <;> rfl
  · rw [if_pos (by omega), if_neg top, BitVec.getLsbD_extractLsb',
      decide_eq_true (show i < w - 1 by omega), Bool.true_and, Nat.add_comm]

end M33mu.Lib
