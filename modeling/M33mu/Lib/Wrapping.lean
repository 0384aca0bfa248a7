namespace M33mu.Lib

variable {m cnt k k' x : Nat}

def Reaches (m cnt k x : Nat) : Prop := ∃ j, 0 < j ∧ j ≤ k ∧ (cnt + j) % m = x

def crosses (cnt now x : Nat) : Bool :=
  if cnt ≤ now then decide (cnt < x ∧ x ≤ now) else decide (cnt < x ∨ x ≤ now)

theorem crosses_iff {now : Nat} : crosses cnt now x = true ↔
    cnt ≤ now ∧ cnt < x ∧ x ≤ now ∨ now < cnt ∧ (cnt < x ∨ x ≤ now) := by
  rw [crosses]
  split <;> rw [decide_eq_true_eq] <;> omega

theorem not_reaches_zero : ¬ Reaches m cnt 0 x := by
  rintro ⟨j, pos, le, -⟩
  omega

theorem Reaches.mono (le : k ≤ k') (h : Reaches m cnt k x) : Reaches m cnt k' x := by
  obtain ⟨j, pos, hj, eq⟩ := h
  exact ⟨j, pos, Nat.le_trans hj le, eq⟩

theorem reaches_mod : Reaches m (cnt % m) k x ↔ Reaches m cnt k x := by
  simp only [Reaches, Nat.mod_add_mod]

theorem reaches_add (a b : Nat) :
    Reaches m cnt (a + b) x ↔ Reaches m cnt a x ∨ Reaches m (cnt + a) b x := by
  constructor
  · rintro ⟨j, pos, le, eq⟩
    by_cases first : j ≤ a
    · exact .inl ⟨j, pos, first, eq⟩
    · refine .inr ⟨j - a, by omega, by omega, ?_⟩
      rw [← eq]
      congr 1
      omega
  · rintro (⟨j, pos, le, eq⟩ | ⟨j, pos, le, eq⟩)
    · exact ⟨j, pos, by omega, eq⟩
    · exact ⟨a + j, by omega, by omega, by rw [← eq, Nat.add_assoc]⟩

theorem reaches_iff (hc : cnt < m) (hk : k ≤ m) (hx : x < m) :
    Reaches m cnt k x ↔ cnt < x ∧ x ≤ cnt + k ∨ x + m ≤ cnt + k := by
  constructor
  · rintro ⟨j, pos, le, eq⟩
    by_cases wraps : cnt + j < m
    · rw [Nat.mod_eq_of_lt wraps] at eq
      omega
    · rw [Nat.mod_eq_sub_mod (by omega), Nat.mod_eq_of_lt (by omega)] at eq
      omega
  · rintro (⟨lt, le⟩ | le)
    · refine ⟨x - cnt, by omega, by omega, ?_⟩
      rw [Nat.add_sub_cancel' (Nat.le_of_lt lt), Nat.mod_eq_of_lt hx]
    · refine ⟨x + m - cnt, by omega, by omega, ?_⟩
      rw [Nat.add_sub_cancel' (by omega), Nat.add_mod_right, Nat.mod_eq_of_lt hx]

theorem reaches_turn (hk : m ≤ k) (hx : x < m) : Reaches m cnt k x := by
  have pos : 0 < m := Nat.lt_of_le_of_lt (Nat.zero_le x) hx
  have below := Nat.mod_lt cnt pos
  refine Reaches.mono hk (reaches_mod.mp ((reaches_iff below (Nat.le_refl m) hx).mpr ?_))
  omega

theorem add_mod_cases (hc : cnt < m) (hk : k < m) :
    cnt + k < m ∧ (cnt + k) % m = cnt + k ∨ m ≤ cnt + k ∧ (cnt + k) % m = cnt + k - m := by
  by_cases wraps : cnt + k < m
  · exact .inl ⟨wraps, Nat.mod_eq_of_lt wraps⟩
  · refine .inr ⟨Nat.le_of_not_lt wraps, ?_⟩
    rw [Nat.mod_eq_sub_mod (Nat.le_of_not_lt wraps), Nat.mod_eq_of_lt (by omega)]

theorem crosses_iff_reaches (hc : cnt < m) (hx : x < m) :
    crosses cnt ((cnt + k) % m) x = true ↔ Reaches m cnt (k % m) x := by
  have hk : k % m < m := Nat.mod_lt _ (Nat.lt_of_le_of_lt (Nat.zero_le x) hx)
  rw [← Nat.add_mod_mod, crosses_iff, reaches_iff hc (Nat.le_of_lt hk) hx]
  obtain ⟨lt, eq⟩ | ⟨le, eq⟩ := add_mod_cases hc hk
  · rw [eq]
    omega
  · rw [eq]
    omega

theorem crosses_of_le (hc : m ≤ cnt) (hx : x < m) :
    crosses cnt ((cnt + k) % m) x = true ↔ x ≤ (cnt + k) % m := by
  have := Nat.mod_lt (cnt + k) (Nat.lt_of_le_of_lt (Nat.zero_le x) hx)
  rw [crosses_iff]
  omega

theorem reaches_parts (hx : x < m) (le : k ≤ k') (h : Reaches m cnt (k' % m) x) :
    Reaches m cnt (k % m) x ∨ Reaches m (cnt + k) (k' - k) x := by
  obtain ⟨j, pos, hj, eq⟩ := h
  have hm : 0 < m := Nat.lt_of_le_of_lt (Nat.zero_le x) hx
  have turns := Nat.mod_add_div k' m
  have last := Nat.mod_lt k' hm
  have again : (cnt + (j + m * (k' / m))) % m = x := by
    rw [← Nat.add_assoc, Nat.add_mul_mod_self_left, eq]
  by_cases later : k < j + m * (k' / m)
  · refine .inr ⟨j + m * (k' / m) - k, by omega, by omega, ?_⟩
    rw [Nat.add_assoc, Nat.add_sub_cancel' (Nat.le_of_lt later), again]
  · refine .inl ⟨j, pos, ?_, eq⟩
    have rest : k = (k - m * (k' / m)) + m * (k' / m) := by omega
    rw [rest, Nat.add_mul_mod_self_left, Nat.mod_eq_of_lt (by omega)]
    omega

/-- Comparing once after `k` counts, comparing after `first` and then after each, and the values
taken agree on `x`. -/
def Reports (m cnt first k x : Nat) : Prop :=
  (crosses cnt ((cnt + k) % m) x = true ↔
      crosses cnt ((cnt + first) % m) x = true ∨ Reaches m (cnt + first) (k - first) x) ∧
    (crosses cnt ((cnt + k) % m) x = true ↔ Reaches m cnt k x)

theorem reports_iff_of_lt {first : Nat} (hc : cnt < m) (hx : x < m) (le : first ≤ k) :
    Reports m cnt first k x ↔ k < m ∨ Reaches m cnt (k % m) x := by
  have split : k = first + (k - first) := by omega
  rw [Reports, crosses_iff_reaches hc hx, crosses_iff_reaches hc hx]
  constructor
  · rintro ⟨-, taken⟩
    by_cases turn : k < m
    · exact .inl turn
    · exact .inr (taken.mpr (reaches_turn (Nat.le_of_not_lt turn) hx))
  · rintro (turn | last)
    · rw [Nat.mod_eq_of_lt turn, Nat.mod_eq_of_lt (Nat.lt_of_le_of_lt le turn)]
      refine ⟨?_, Iff.rfl⟩
      conv => lhs; rw [split]
      exact reaches_add _ _
    · exact ⟨iff_of_true last (reaches_parts hx le last),
        iff_of_true last (last.mono (Nat.mod_le _ _))⟩

def ReportsBeyond (m cnt first k x : Nat) : Prop :=
  if m ≤ k then x ≤ (cnt + k) % m
  else if cnt % m + k < m then cnt % m < x
  else x ≤ cnt % m ∧ (cnt % m + first < m → x ≤ (cnt + k) % m)

instance : Decidable (ReportsBeyond m cnt first k x) := by
  unfold ReportsBeyond
  infer_instance

theorem seen_or_reaches (hx : x < m) : x ≤ cnt % m ∨ Reaches m cnt k x ↔ x ≤ cnt % m + k := by
  have below := Nat.mod_lt cnt (Nat.lt_of_le_of_lt (Nat.zero_le x) hx)
  by_cases turn : m ≤ k
  · exact iff_of_true (.inr (reaches_turn turn hx)) (by omega)
  · rw [← reaches_mod, reaches_iff below (by omega) hx]
    omega

theorem reports_iff_of_le {first : Nat} (hc : m ≤ cnt) (hx : x < m) (le : first ≤ k) :
    Reports m cnt first k x ↔ ReportsBeyond m cnt first k x := by
  have hm : 0 < m := Nat.lt_of_le_of_lt (Nat.zero_le x) hx
  have below := Nat.mod_lt cnt hm
  have start := Nat.mod_lt (cnt + first) hm
  have rest : (cnt + k) % m = ((cnt + first) % m + (k - first)) % m := by
    rw [Nat.mod_add_mod]
    congr 1
    omega
  rw [Reports, crosses_of_le hc hx, crosses_of_le hc hx, seen_or_reaches hx, ReportsBeyond]
  by_cases turn : m ≤ k
  · rw [if_pos turn, iff_true_right (reaches_turn turn hx), and_iff_right_iff_imp]
    intro seen
    have := Nat.mod_le ((cnt + first) % m + (k - first)) m
    exact iff_of_true seen (by omega)
  · rw [if_neg turn, ← reaches_mod, reaches_iff below (by omega) hx, ← Nat.mod_add_mod cnt m k,
      ← Nat.mod_add_mod cnt m first]
    have ends : cnt % m + k < m ∧ (cnt % m + k) % m = cnt % m + k ∨
      m ≤ cnt % m + k ∧ (cnt % m + k) % m = cnt % m + k - m := add_mod_cases below (by omega)
    have firsts : cnt % m + first < m ∧ (cnt % m + first) % m = cnt % m + first ∨
        m ≤ cnt % m + first ∧ (cnt % m + first) % m = cnt % m + first - m :=
      add_mod_cases below (by omega)
    split <;> omega

end M33mu.Lib
