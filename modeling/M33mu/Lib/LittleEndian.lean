namespace M33mu.Lib

variable {w : Nat} {b b' : Nat → BitVec 8}

def little (w : Nat) (b : Nat → BitVec 8) : Nat → BitVec w
  | 0 => 0
  | n + 1 => little w b n ||| (b n).setWidth w <<< (8 * n)

theorem getLsbD_little (b : Nat → BitVec 8) (n : Nat) {k i : Nat} (inByte : i < 8)
    (inWord : 8 * k + i < w) :
    (little w b n).getLsbD (8 * k + i) = (decide (k < n) && (b k).getLsbD i) := by
  induction n with
  | zero => simp [little]
  | succ n ih =>
    rw [little, BitVec.getLsbD_or, ih, BitVec.getLsbD_shiftLeft, BitVec.getLsbD_setWidth]
    rcases Nat.lt_trichotomy k n with below | rfl | above
    · have first : 8 * k + i < 8 * n := by omega
      simp [below, first, Nat.lt_succ_of_lt below]
    · have here : 8 * k + i - 8 * k = i := by omega
      have room : i < w := by omega
      simp [inWord, here, room]
    · have past : 8 ≤ 8 * k + i - 8 * n := by omega
      have out : ¬ k < n := by omega
      have out' : ¬ k < n + 1 := by omega
      simp [out, out', BitVec.getLsbD_of_ge (b n) _ past]

theorem byte_little {n k : Nat} (below : k < n) (room : 8 * n ≤ w) :
    ((little w b n) >>> (8 * k)).setWidth 8 = b k := by
  apply BitVec.eq_of_getLsbD_eq
  intro i inByte
  have inWord : 8 * k + i < w := by omega
  rw [BitVec.getLsbD_setWidth, BitVec.getLsbD_ushiftRight, getLsbD_little b n inByte inWord]
  simp [inByte, below]

theorem little_truncate (b : Nat → BitVec 8) (n : Nat) :
    ((little w b n).setWidth (8 * n)).setWidth w = little w b n := by
  apply BitVec.eq_of_getLsbD_eq
  intro j inWord
  rw [BitVec.getLsbD_setWidth, BitVec.getLsbD_setWidth]
  by_cases low : j < 8 * n
  · simp [low, inWord]
  · have split : 8 * (j / 8) + j % 8 = j := Nat.div_add_mod j 8
    have bit := getLsbD_little (w := w) b n (Nat.mod_lt j (by decide)) (split.symm ▸ inWord)
    have above : ¬ j / 8 < n := by omega
    rw [split, decide_eq_false above, Bool.false_and] at bit
    simp [low, bit]

theorem little_congr {n : Nat} (same : ∀ k < n, b k = b' k) : little w b n = little w b' n := by
  induction n with
  | zero => rfl
  | succ n ih =>
    rw [little, little, ih fun k below => same k (Nat.lt_succ_of_lt below),
      same n (Nat.lt_succ_self n)]

theorem little_inj {n : Nat} (room : 8 * n ≤ w) :
    little w b n = little w b' n ↔ ∀ k < n, b k = b' k := by
  constructor
  · intro same k below
    have here : ((little w b n) >>> (8 * k)).setWidth 8 = b k := byte_little below room
    rw [← here, same, byte_little below room]
  · exact little_congr

end M33mu.Lib
