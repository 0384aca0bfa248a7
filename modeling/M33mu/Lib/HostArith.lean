import Mathlib.Algebra.Order.Ring.Int

namespace M33mu.Lib.HostArith

variable {w : ℕ}

/-- `a << n` of an unsigned value. -/
def shl (a : BitVec w) (n : ℕ) : Option (BitVec w) := if n < w then some (a <<< n) else none

/-- `a >> n` of an unsigned value. -/
def shr (a : BitVec w) (n : ℕ) : Option (BitVec w) := if n < w then some (a >>> n) else none

/-- `a >> n` of a signed value, which fills with the sign. -/
def sar (a : BitVec w) (n : ℕ) : Option (BitVec w) := if n < w then some (a.sshiftRight n) else none

def divU (a b : BitVec w) : Option (BitVec w) := if b = 0 then none else some (a / b)

def InRange (w : ℕ) (v : ℤ) : Prop := -2 ^ (w - 1) ≤ v ∧ v < 2 ^ (w - 1)

instance (w : ℕ) (v : ℤ) : Decidable (InRange w v) := inferInstanceAs (Decidable (_ ∧ _))

def signed (w : ℕ) (v : ℤ) : Option (BitVec w) :=
  if InRange w v then some (BitVec.ofInt w v) else none

def addS (a b : BitVec w) : Option (BitVec w) := signed w (a.toInt + b.toInt)

def mulS (a b : BitVec w) : Option (BitVec w) := signed w (a.toInt * b.toInt)

def divS (a b : BitVec w) : Option (BitVec w) :=
  if b = 0 then none else signed w (a.toInt.tdiv b.toInt)

@[simp] theorem shl_of_lt (a : BitVec w) {n : ℕ} (within : n < w) : shl a n = some (a <<< n) :=
  if_pos within

@[simp] theorem shr_of_lt (a : BitVec w) {n : ℕ} (within : n < w) : shr a n = some (a >>> n) :=
  if_pos within

@[simp] theorem sar_of_lt (a : BitVec w) {n : ℕ} (within : n < w) :
    sar a n = some (a.sshiftRight n) :=
  if_pos within

theorem divU_of_ne (a : BitVec w) {b : BitVec w} (some' : b ≠ 0) : divU a b = some (a / b) :=
  if_neg some'

theorem addS_eq (a b : BitVec w) :
    addS a b = if InRange w (a.toInt + b.toInt) then some (a + b) else none := by
  rw [addS, signed, BitVec.ofInt_add, BitVec.ofInt_toInt, BitVec.ofInt_toInt]

theorem mulS_eq (a b : BitVec w) :
    mulS a b = if InRange w (a.toInt * b.toInt) then some (a * b) else none := by
  rw [mulS, signed, BitVec.ofInt_mul, BitVec.ofInt_toInt, BitVec.ofInt_toInt]

theorem toInt_of_signed (pos : 0 < w) {v : ℤ} {c : BitVec w} (defined : signed w v = some c) :
    c.toInt = v := by
  rw [signed] at defined
  split at defined
  · rename_i range
    obtain rfl := Option.some.inj defined
    exact BitVec.toInt_ofInt_eq_self pos range.1 range.2
  · exact nomatch defined

theorem inRange_toInt (a : BitVec w) : InRange w a.toInt :=
  ⟨BitVec.le_toInt a, BitVec.toInt_lt⟩

theorem mulS_signExtend {v : ℕ} (pos : 0 < v) (fits : v * 2 ≤ w) (a b : BitVec v) :
    mulS (a.signExtend w) (b.signExtend w) = some (a.signExtend w * b.signExtend w) := by
  have above := BitVec.toInt_mul_toInt_le (x := a) (y := b)
  have below := BitVec.le_toInt_mul_toInt (x := a) (y := b)
  have room : (2 : ℤ) ^ (v * 2 - 2) < 2 ^ (w - 1) := pow_lt_pow_right₀ (by decide) (by omega)
  rw [mulS_eq, BitVec.toInt_signExtend_of_le (by omega), BitVec.toInt_signExtend_of_le (by omega),
    if_pos]
  constructor <;> omega

theorem divS_eq (pos : 0 < w) (a b : BitVec w) :
    divS a b = if b = 0 ∨ a = BitVec.intMin w ∧ b = -1#w then none else some (a.sdiv b) := by
  rw [divS]
  by_cases zero : b = 0
  · rw [if_pos zero, if_pos (.inl zero)]
  by_cases large : a = BitVec.intMin w ∧ b = -1#w
  · rw [if_neg zero, if_pos (.inr large), signed, if_neg]
    rintro ⟨-, above⟩
    rw [large.1, large.2, BitVec.toInt_intMin_of_pos pos, BitVec.neg_one_eq_allOnes,
      BitVec.toInt_allOnes, if_pos pos, Int.tdiv_neg, Int.tdiv_one, Int.neg_neg] at above
    exact absurd above (Int.lt_irrefl _)
  · have quotient : (a.sdiv b).toInt = a.toInt.tdiv b.toInt :=
      BitVec.toInt_sdiv_of_ne_or_ne a b (Decidable.not_and_iff_not_or_not.mp large)
    rw [if_neg zero, if_neg (not_or.mpr ⟨zero, large⟩), signed, ← quotient,
      if_pos (inRange_toInt _), BitVec.ofInt_toInt]

end M33mu.Lib.HostArith
