import M33mu.ArmArithmetic

namespace M33mu.ExecHelpers

open Lib

variable {lsb width : Nat}

theorem badField_of_fits (pos : 1 ≤ width) (fits : lsb + width ≤ 32) : badField lsb width = false := by
  simp only [badField, Bool.or_eq_false_iff, decide_eq_false_iff_not]
  omega

theorem getLsbD_ubfx (v : Word) (good : badField lsb width = false) (i : Nat) :
    (ubfx v lsb width).getLsbD i = (decide (i < width) && v.getLsbD (lsb + i)) := by
  obtain ⟨-, within, -, -⟩ := Host.badField_false good
  rw [ubfx_arm v good, BitVec.getLsbD_setWidth, BitVec.getLsbD_extractLsb']
  by_cases low : i < width
  · rw [decide_eq_true (show i < 32 by omega), Bool.true_and]
  · rw [decide_eq_false low, Bool.false_and, Bool.and_false]

/-- The field holds the low bits of the source, and the rest is the destination's. -/
theorem getLsbD_bfi (dst src : Word) (good : badField lsb width = false) (i : Nat) :
    (bfi dst src lsb width).getLsbD i =
      if lsb ≤ i ∧ i < lsb + width then src.getLsbD (i - lsb) else dst.getLsbD i := by
  obtain ⟨-, within, -, fits⟩ := Host.badField_false good
  by_cases inside : i < 32
  · rw [bfi_arm dst src good, armInsert]
    simp only [BitVec.getLsbD_setWidth, BitVec.getLsbD_append, BitVec.getLsbD_extractLsb', inside,
      decide_true, Bool.true_and]
    by_cases low : i < lsb
    · simp [low]
    · by_cases field : i - lsb < width
      · simp [low, field, show lsb ≤ i ∧ i < lsb + width by omega]
      · simp [low, field, show ¬ (lsb ≤ i ∧ i < lsb + width) by omega,
          show i - lsb - width < 32 by omega, show lsb + width + (i - lsb - width) = i by omega]
  · rw [BitVec.getLsbD_of_ge _ _ (Nat.le_of_not_lt inside), if_neg (by omega),
      BitVec.getLsbD_of_ge _ _ (Nat.le_of_not_lt inside)]

theorem ubfx_bfi (x y : Word) (good : badField lsb width = false) :
    ubfx (bfi x y lsb width) lsb width = (y.setWidth width).setWidth 32 := by
  apply BitVec.eq_of_getLsbD_eq
  intro i inside
  rw [getLsbD_ubfx _ good, getLsbD_bfi x y good, BitVec.getLsbD_setWidth, BitVec.getLsbD_setWidth,
    decide_eq_true inside, Bool.true_and]
  by_cases low : i < width
  · rw [if_pos (by omega), Nat.add_sub_cancel_left]
  · rw [decide_eq_false low, Bool.false_and, Bool.false_and]

theorem bfi_outside (x y : Word) (good : badField lsb width = false) {i : Nat}
    (outside : i < lsb ∨ lsb + width ≤ i) : (bfi x y lsb width).getLsbD i = x.getLsbD i := by
  rw [getLsbD_bfi x y good, if_neg (by omega)]

theorem bfi_ubfx (x : Word) (good : badField lsb width = false) :
    bfi x (ubfx x lsb width) lsb width = x := by
  apply BitVec.eq_of_getLsbD_eq
  intro i _
  rw [getLsbD_bfi x _ good]
  split
  · rename_i field
    rw [getLsbD_ubfx x good, decide_eq_true (by omega), Bool.true_and,
      Nat.add_sub_cancel' field.1]
  · rfl

theorem bfi_bfi (x y z : Word) (good : badField lsb width = false) :
    bfi (bfi x y lsb width) z lsb width = bfi x z lsb width := by
  apply BitVec.eq_of_getLsbD_eq
  intro i _
  rw [getLsbD_bfi _ z good, getLsbD_bfi x y good, getLsbD_bfi x z good]
  split <;> rfl

theorem sbfx_ubfx (x : Word) (good : badField lsb width = false) :
    sbfx x lsb width = ((ubfx x lsb width).setWidth width).signExtend 32 := by
  obtain ⟨-, within, -, -⟩ := Host.badField_false good
  rw [sbfx_arm x good, ubfx_arm x good, BitVec.setWidth_setWidth_of_le _ within, BitVec.setWidth_eq]

/-- Reading and inserting a field of at least one bit that lies inside the word; no step of it is
left undefined by C. -/
theorem field_laws (x y z : Word) (pos : 1 ≤ width) (fits : lsb + width ≤ 32) :
    ubfx (bfi x y lsb width) lsb width = (y.setWidth width).setWidth 32 ∧
      (∀ i, i < lsb ∨ lsb + width ≤ i → (bfi x y lsb width).getLsbD i = x.getLsbD i ∧
        (bfc x lsb width).getLsbD i = x.getLsbD i) ∧
      bfi x (ubfx x lsb width) lsb width = x ∧
      bfi (bfi x y lsb width) z lsb width = bfi x z lsb width ∧
      bfc x lsb width = bfi x 0 lsb width ∧
      sbfx x lsb width = ((ubfx x lsb width).setWidth width).signExtend 32 ∧
      Host.ubfx x lsb width = some (ubfx x lsb width) ∧
      Host.sbfx x lsb width = some (sbfx x lsb width) ∧
      Host.bfi x y lsb width = some (bfi x y lsb width) ∧
      Host.bfc x lsb width = some (bfc x lsb width) := by
  have good := badField_of_fits pos fits
  refine ⟨ubfx_bfi x y good, fun i outside => ?_, bfi_ubfx x good, bfi_bfi x y z good, rfl,
    sbfx_ubfx x good, Host.ubfx_eq x lsb width, Host.sbfx_eq x lsb width,
    Host.bfi_eq x y lsb width, Host.bfi_eq x 0 lsb width⟩
  exact ⟨bfi_outside x y good outside, bfi_outside x 0 good outside⟩

theorem field_laws_byte :
    (1 ≤ 8 ∧ 24 + 8 ≤ 32) ∧ ubfx (bfi 0x12345678 0xfff 24 8) 24 8 = 0xff ∧
      bfi (bfi 0x12345678 0xfff 24 8) 0x9a 24 8 = 0x9a345678 ∧
      ubfx (bfi 0x12345678 0x9abcdef0 0 32) 0 32 = 0x9abcdef0 := by
  have byte := @field_laws 24 8 0x12345678 0xfff 0x9a (by decide) (by decide)
  have whole := @field_laws 0 32 0x12345678 0x9abcdef0 0 (by decide) (by decide)
  refine ⟨by decide, byte.1.trans (by decide), byte.2.2.2.1.trans (by decide),
    whole.1.trans (by decide)⟩

end M33mu.ExecHelpers
