import M33mu.Lib.Bits

namespace M33mu.Lib

def blend (mask cur w : BitVec n) : BitVec n := (cur &&& ~~~mask) ||| (w &&& mask)

@[simp] theorem getLsbD_blend (mask cur w : BitVec n) (i : Nat) :
    (blend mask cur w).getLsbD i = if mask.getLsbD i then w.getLsbD i else cur.getLsbD i := by
  simp only [blend, BitVec.getLsbD_or, BitVec.getLsbD_and, BitVec.getLsbD_not]
  by_cases inside : i < n
  · cases mask.getLsbD i <;> simp [inside]
  · have past (x : BitVec n) : x.getLsbD i = false := BitVec.getLsbD_of_ge x i (Nat.not_lt.mp inside)
    simp [past]

theorem blend_inj_left {mask cur cur' w : BitVec n} :
    blend mask cur w = blend mask cur' w ↔ cur &&& ~~~mask = cur' &&& ~~~mask := by
  constructor
  · intro same
    apply BitVec.eq_of_getLsbD_eq
    intro i inside
    have bit := congrArg (·.getLsbD i) same
    simp only [getLsbD_blend] at bit
    cases lane : mask.getLsbD i <;> simp_all
  · intro same
    rw [blend, blend, same]

theorem blend_eq_self_iff {mask cur w : BitVec n} :
    blend mask cur w = cur ↔ w &&& mask = cur &&& mask := by
  constructor
  · intro same
    apply BitVec.eq_of_getLsbD_eq
    intro i inside
    have bit := congrArg (·.getLsbD i) same
    simp only [getLsbD_blend] at bit
    rw [BitVec.getLsbD_and, BitVec.getLsbD_and]
    cases lane : mask.getLsbD i <;> simp_all
  · intro same
    apply BitVec.eq_of_getLsbD_eq
    intro i inside
    have bit := congrArg (·.getLsbD i) same
    simp only [BitVec.getLsbD_and] at bit
    rw [getLsbD_blend]
    cases lane : mask.getLsbD i with
    | false => rfl
    | true => simpa [lane] using bit

theorem clear_blend_iff {mask cur w : BitVec n} :
    cur &&& ~~~blend mask cur w = cur &&& ~~~(w &&& mask) ↔ cur &&& ~~~mask = 0 := by
  constructor
  · intro same
    apply BitVec.eq_of_getLsbD_eq
    intro i inside
    have bit := congrArg (·.getLsbD i) same
    simp only [BitVec.getLsbD_and, BitVec.getLsbD_not, getLsbD_blend] at bit
    cases lane : mask.getLsbD i <;> cases set : cur.getLsbD i <;> simp_all
  · intro alone
    apply BitVec.eq_of_getLsbD_eq
    intro i inside
    have bit := congrArg (·.getLsbD i) alone
    simp only [BitVec.getLsbD_and, BitVec.getLsbD_not] at bit
    simp only [BitVec.getLsbD_and, BitVec.getLsbD_not, getLsbD_blend]
    cases lane : mask.getLsbD i <;> cases set : cur.getLsbD i <;> simp_all

theorem or_eq_self_iff {cur w : BitVec n} : cur ||| w = cur ↔ w &&& ~~~cur = 0 := by
  constructor
  · intro same
    apply BitVec.eq_of_getLsbD_eq
    intro i inside
    have bit := congrArg (·.getLsbD i) same
    simp only [BitVec.getLsbD_or] at bit
    simp only [BitVec.getLsbD_and, BitVec.getLsbD_not]
    cases set : cur.getLsbD i <;> simp_all
  · intro none
    apply BitVec.eq_of_getLsbD_eq
    intro i inside
    have bit := congrArg (·.getLsbD i) none
    simp only [BitVec.getLsbD_and, BitVec.getLsbD_not] at bit
    rw [BitVec.getLsbD_or]
    cases set : cur.getLsbD i <;> simp_all

theorem and_not_eq_self_iff {cur w : BitVec n} : cur &&& ~~~w = cur ↔ w &&& cur = 0 := by
  constructor
  · intro same
    apply BitVec.eq_of_getLsbD_eq
    intro i inside
    have bit := congrArg (·.getLsbD i) same
    simp only [BitVec.getLsbD_and, BitVec.getLsbD_not] at bit
    rw [BitVec.getLsbD_and]
    cases set : cur.getLsbD i <;> simp_all
  · intro none
    rw [BitVec.and_comm] at none
    exact and_not_of_and_eq_zero none

theorem and_mask_eq_blend_iff {mask cur w keep : BitVec n} :
    w &&& mask &&& keep = blend mask cur w &&& keep ↔ cur &&& ~~~mask &&& keep = 0 := by
  constructor
  · intro same
    apply BitVec.eq_of_getLsbD_eq
    intro i inside
    have bit := congrArg (·.getLsbD i) same
    simp only [BitVec.getLsbD_and, getLsbD_blend] at bit
    simp only [BitVec.getLsbD_and, BitVec.getLsbD_not]
    cases lane : mask.getLsbD i <;> cases kept : keep.getLsbD i <;> simp_all
  · intro alone
    apply BitVec.eq_of_getLsbD_eq
    intro i inside
    have bit := congrArg (·.getLsbD i) alone
    simp only [BitVec.getLsbD_and, BitVec.getLsbD_not] at bit
    simp only [BitVec.getLsbD_and, getLsbD_blend]
    cases lane : mask.getLsbD i <;> cases kept : keep.getLsbD i <;> simp_all

end M33mu.Lib
