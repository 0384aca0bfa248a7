import Mathlib.Algebra.Group.Nat.Defs

namespace M33mu.Lib

theorem getLsbD_twoPow_sub_one (n k i : Nat) (hk : k ≤ n) :
    (BitVec.ofNat n (2 ^ k - 1)).getLsbD i = decide (i < k) := by
  rw [BitVec.getLsbD_ofNat, Nat.testBit_two_pow_sub_one]
  by_cases hi : i < k
  · simp [hi, Nat.lt_of_lt_of_le hi hk]
  · simp [hi]

theorem toNat_and_not_mask (x : BitVec n) (k : Nat) (hk : k ≤ n) :
    (x &&& ~~~BitVec.ofNat n (2 ^ k - 1)).toNat = x.toNat / 2 ^ k * 2 ^ k := by
  have hshift : x &&& ~~~BitVec.ofNat n (2 ^ k - 1) = (x >>> k) <<< k := by
    apply BitVec.eq_of_getLsbD_eq
    intro i hi
    rw [BitVec.getLsbD_and, BitVec.getLsbD_not, getLsbD_twoPow_sub_one n k i hk,
      BitVec.getLsbD_shiftLeft, BitVec.getLsbD_ushiftRight]
    by_cases hik : i < k
    · simp [hik]
    · simp [hik, hi, Nat.add_sub_cancel' (Nat.not_lt.mp hik)]
  rw [hshift, BitVec.toNat_shiftLeft, BitVec.toNat_ushiftRight, Nat.shiftLeft_eq,
    Nat.shiftRight_eq_div_pow]
  exact Nat.mod_eq_of_lt (Nat.lt_of_le_of_lt (Nat.div_mul_le_self _ _) x.isLt)

theorem toNat_or_mask (x : BitVec n) (k : Nat) (hk : k ≤ n) :
    ((x &&& ~~~BitVec.ofNat n (2 ^ k - 1)) ||| BitVec.ofNat n (2 ^ k - 1)).toNat =
      x.toNat / 2 ^ k * 2 ^ k + (2 ^ k - 1) := by
  have pos := Nat.two_pow_pos k
  have small : 2 ^ k - 1 < 2 ^ n :=
    Nat.lt_of_lt_of_le (Nat.sub_lt pos Nat.zero_lt_one) (Nat.pow_le_pow_right (by decide) hk)
  rw [BitVec.toNat_or, toNat_and_not_mask x k hk, BitVec.toNat_ofNat, Nat.mod_eq_of_lt small,
    Nat.mul_comm]
  exact (Nat.two_pow_add_eq_or_of_lt (Nat.sub_lt pos Nat.zero_lt_one) _).symm

theorem toNat_and_mask (x : BitVec n) (k : Nat) (hk : k < n) :
    (x &&& BitVec.ofNat n (2 ^ k - 1)).toNat = x.toNat % 2 ^ k := by
  have hlt : 2 ^ k - 1 < 2 ^ n :=
    Nat.lt_of_le_of_lt (Nat.sub_le _ _) (Nat.pow_lt_pow_right (by decide) hk)
  rw [BitVec.toNat_and, BitVec.toNat_ofNat, Nat.mod_eq_of_lt hlt, Nat.and_two_pow_sub_one_eq_mod]

theorem and_not_of_and_eq_zero {x m : BitVec n} (h : x &&& m = 0) : x &&& ~~~m = x := by
  apply BitVec.eq_of_getLsbD_eq
  intro i hi
  have hbit := congrArg (fun v : BitVec n => v.getLsbD i) h
  simp only [BitVec.getLsbD_and, BitVec.ofNat_eq_ofNat, BitVec.getLsbD_zero] at hbit
  rw [BitVec.getLsbD_and, BitVec.getLsbD_not]
  cases hx : x.getLsbD i <;> simp_all

theorem or_twoPow_of_getLsbD {x : BitVec n} {i : Nat} (h : x.getLsbD i = true) :
    x ||| BitVec.twoPow n i = x := by
  apply BitVec.eq_of_getLsbD_eq
  intro j hj
  rw [BitVec.getLsbD_or, BitVec.getLsbD_twoPow]
  by_cases hij : i = j
  · simp [← hij, h]
  · simp [hij]

theorem and_not_twoPow_eq_self_iff {x : BitVec n} {i : Nat} (low : i < n) :
    x &&& ~~~BitVec.twoPow n i = x ↔ x.getLsbD i = false := by
  constructor
  · intro same
    rw [← same, BitVec.getLsbD_and, BitVec.getLsbD_not, BitVec.getLsbD_twoPow, decide_eq_true low,
      decide_eq_true rfl, Bool.true_and, Bool.true_and, Bool.not_true, Bool.and_false]
  · intro clear
    refine BitVec.eq_of_getLsbD_eq fun j small => ?_
    rw [BitVec.getLsbD_and, BitVec.getLsbD_not, BitVec.getLsbD_twoPow, decide_eq_true low,
      decide_eq_true small, Bool.true_and, Bool.true_and]
    by_cases here : i = j
    · rw [← here, clear, Bool.false_and]
    · rw [decide_eq_false here, Bool.not_false, Bool.and_true]

theorem shift_bit (v : BitVec 32) (i : Nat) : decide (v >>> i &&& 1 ≠ 0) = v.getLsbD i := by
  have mask := BitVec.and_twoPow (v >>> i) 0
  have low : (1 : BitVec 32) = BitVec.twoPow 32 0 := rfl
  rw [BitVec.getLsbD_ushiftRight, Nat.add_zero] at mask
  rw [low, mask]
  cases v.getLsbD i <;> decide

theorem and_bit_ne (v : BitVec 32) {i : Nat} (within : i < 32) :
    (v &&& (1 : BitVec 32) <<< i ≠ 0) = (v.getLsbD i = true) := by
  have set : BitVec.twoPow 32 i ≠ 0 := by
    intro none
    have bit := BitVec.getLsbD_twoPow (w := 32) i i
    rw [none, decide_eq_true within, decide_eq_true rfl] at bit
    simp at bit
  rw [show (1 : BitVec 32) <<< i = BitVec.twoPow 32 i from (BitVec.twoPow_eq ..).symm,
    BitVec.and_twoPow, eq_iff_iff]
  cases v.getLsbD i with
  | false => simp
  | true => exact iff_of_true set rfl

theorem and_pair (x : BitVec n) (i j : Nat) :
    x &&& (BitVec.twoPow n i ||| BitVec.twoPow n j) =
      (if x.getLsbD i then BitVec.twoPow n i else 0) |||
        (if x.getLsbD j then BitVec.twoPow n j else 0) := by
  rw [BitVec.and_or_distrib_left, BitVec.and_twoPow, BitVec.and_twoPow]
  rfl

theorem clear_of_masked {x mask value : BitVec n} (head : x &&& mask = value) {i : Nat}
    (asked : mask.getLsbD i = true) (clear : value.getLsbD i = false) : x.getLsbD i = false := by
  rw [← head, BitVec.getLsbD_and, asked, Bool.and_true] at clear
  exact clear

theorem and_field (x : BitVec n) (lo len : Nat) :
    x &&& (BitVec.allOnes len).setWidth n <<< lo = (x.extractLsb' lo len).setWidth n <<< lo := by
  apply BitVec.eq_of_getLsbD_eq
  intro i hi
  simp only [BitVec.getLsbD_and, BitVec.getLsbD_shiftLeft, BitVec.getLsbD_setWidth,
    BitVec.getLsbD_allOnes, BitVec.getLsbD_extractLsb', hi]
  by_cases low : i < lo
  · simp [low]
  · have back : lo + (i - lo) = i := by omega
    have inside : i - lo < n := by omega
    simp [low, back, inside, Bool.and_comm]

theorem signExtend_eq_or (x : BitVec n) (k : Nat) :
    x.signExtend k = if x.msb then x.setWidth k ||| BitVec.allOnes k <<< n else x.setWidth k := by
  apply BitVec.eq_of_getLsbD_eq
  intro i hi
  rw [BitVec.getLsbD_signExtend]
  by_cases hin : i < n
  · cases x.msb <;> simp [hi, hin]
  · have high : x.getLsbD i = false := BitVec.getLsbD_of_ge x i (Nat.not_lt.mp hin)
    cases x.msb <;> simp [hi, hin, high]

theorem signExtend_double (off : BitVec n) (k : Nat) (pos : 0 < n) :
    (off ++ 0#1).signExtend k =
      if off.msb then off.setWidth k <<< 1 ||| BitVec.allOnes k <<< (n + 1)
      else off.setWidth k <<< 1 := by
  have sign : (off ++ 0#1).msb = off.msb := by
    rw [BitVec.msb_append, if_neg (Nat.ne_of_gt pos)]
  rw [signExtend_eq_or, sign, BitVec.setWidth_append_eq_shiftLeft_setWidth_or]
  simp

end M33mu.Lib
