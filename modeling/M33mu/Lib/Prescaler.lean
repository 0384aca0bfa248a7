/-!
Counters behind a prescaler: after `n` more cycles on top of the `acc` it has kept, a prescaler of
`d` has counted `(acc + n) / d` times and keeps `(acc + n) % d`. Counters that count down to 0 and
reload.
-/

namespace M33mu.Lib

def cyclesTo (k d acc : Nat) : Nat := max 1 (k * d - acc)

theorem cyclesTo_pos (k d acc : Nat) : 0 < cyclesTo k d acc :=
  Nat.lt_of_lt_of_le Nat.zero_lt_one (Nat.le_max_left _ _)

theorem cyclesTo_le_iff {k d acc n : Nat} (hd : 0 < d) (hn : 0 < n) :
    cyclesTo k d acc ≤ n ↔ k ≤ (acc + n) / d := by
  rw [Nat.le_div_iff_mul_le hd, cyclesTo]
  omega

theorem prescaled_add (d acc a b : Nat) :
    (acc + (a + b)) / d = (acc + a) / d + ((acc + a) % d + b) / d ∧
      (acc + (a + b)) % d = ((acc + a) % d + b) % d := by
  have split : acc + (a + b) = ((acc + a) % d + b) + d * ((acc + a) / d) := by
    have := Nat.mod_add_div (acc + a) d
    omega
  constructor
  · rcases Nat.eq_zero_or_pos d with rfl | hd
    · simp
    · rw [split, Nat.add_mul_div_left _ _ hd]
      omega
  · rw [split, Nat.add_mul_mod_self_left]

theorem prescaled_left (k d acc n : Nat) :
    (k - (acc + n) / d) * d - (acc + n) % d = k * d - acc - n := by
  have parts := Nat.mod_add_div (acc + n) d
  rw [Nat.sub_mul, Nat.mul_comm ((acc + n) / d), Nat.sub_sub, Nat.sub_sub, Nat.add_comm (d * _),
    parts]

theorem prescaled_mod_eq_iff {d c a b : Nat} (le : a ≤ b) :
    (c + b) % d = (c + a) % d ↔ d ∣ b - a := by
  have split : c + b = c + a + (b - a) := by omega
  constructor
  · intro same
    have divides := Nat.sub_mod_eq_zero_of_mod_eq same
    rw [split, Nat.add_sub_cancel_left] at divides
    exact Nat.dvd_of_mod_eq_zero divides
  · rintro ⟨k, eq⟩
    rw [split, eq, Nat.add_mul_mod_self_left]

/-- What a counter of reload value `load` that has `cur` left to count has left after `n` counts. -/
def countLeft (load cur n : Nat) : Nat := if n < cur then cur - n else load - (n - cur) % load

def reloads (load cur n : Nat) : Nat := if n < cur then 0 else (n - cur) / load + 1

theorem countLeft_bounds {load cur : Nat} (hl : 0 < load) (n : Nat) :
    0 < countLeft load cur n ∧ countLeft load cur n ≤ max load cur := by
  have := Nat.mod_lt (n - cur) hl
  rw [countLeft]
  split <;> omega

theorem countLeft_one {load cur : Nat} (hc : 0 < cur) :
    countLeft load cur 1 = if cur = 1 then load else cur - 1 := by
  rw [countLeft]
  by_cases last : cur = 1
  · subst last
    simp
  · rw [if_pos (by omega), if_neg last]

theorem reloads_one {load cur : Nat} (hc : 0 < cur) :
    reloads load cur 1 = if cur = 1 then 1 else 0 := by
  rw [reloads]
  by_cases last : cur = 1
  · subst last
    simp
  · rw [if_pos (by omega), if_neg last]

theorem reloads_le (load cur n : Nat) (hc : 0 < cur) : reloads load cur n ≤ n := by
  have := Nat.div_le_self (n - cur) load
  rw [reloads]
  split <;> omega

theorem reloads_self {load : Nat} (hl : 0 < load) (n : Nat) :
    reloads load load n = n / load := by
  rw [reloads]
  by_cases early : n < load
  · rw [if_pos early, Nat.div_eq_of_lt early]
  · have split : n = n - load + load := by omega
    conv => rhs; rw [split, Nat.add_div_right _ hl]
    rw [if_neg early]

theorem div_eq_div_succ_iff {l : Nat} (hl : 0 < l) (n : Nat) :
    n / l = n / (l + 1) ↔ n % (l + 1) + n / (l + 1) < l := by
  have parts : n = n % (l + 1) + n / (l + 1) + l * (n / (l + 1)) := by
    have := Nat.mod_add_div n (l + 1)
    rw [Nat.add_mul, Nat.one_mul] at this
    omega
  have quotient : n / l = (n % (l + 1) + n / (l + 1)) / l + n / (l + 1) := by
    conv => lhs; rw [parts]
    exact Nat.add_mul_div_left _ _ hl
  rw [quotient, Nat.add_eq_right, Nat.div_eq_zero_iff_lt hl]

theorem countLeft_add {load : Nat} (hl : 0 < load) (cur a b : Nat) :
    countLeft load (countLeft load cur a) b = countLeft load cur (a + b) ∧
      reloads load cur a + reloads load (countLeft load cur a) b = reloads load cur (a + b) := by
  by_cases early : a < cur
  · have left : countLeft load cur a = cur - a := if_pos early
    have none : reloads load cur a = 0 := if_pos early
    have rest : b - (cur - a) = a + b - cur := by omega
    rw [left, none, Nat.zero_add]
    simp only [countLeft, reloads, rest]
    by_cases late : a + b < cur
    · have inner : b < cur - a := by omega
      simp only [if_pos inner, if_pos late, and_true]
      omega
    · have inner : ¬ b < cur - a := by omega
      simp only [if_neg inner, if_neg late, and_self]
  · have left : countLeft load cur a = load - (a - cur) % load := if_neg early
    have some : reloads load cur a = (a - cur) / load + 1 := if_neg early
    have below := Nat.mod_lt (a - cur) hl
    have parts := Nat.mod_add_div (a - cur) load
    have sum : a + b - cur = (a - cur) % load + b + load * ((a - cur) / load) := by omega
    rw [left, some]
    simp only [countLeft, reloads, if_neg (show ¬ a + b < cur by omega), sum,
      Nat.add_mul_mod_self_left, Nat.add_mul_div_left _ _ hl]
    by_cases again : b < load - (a - cur) % load
    · rw [if_pos again, if_pos again, Nat.mod_eq_of_lt (a := (a - cur) % load + b) (by omega),
        Nat.div_eq_of_lt (a := (a - cur) % load + b) (by omega)]
      omega
    · have passed : (a - cur) % load + b = b - (load - (a - cur) % load) + load := by omega
      rw [if_neg again, if_neg again, passed, Nat.add_mod_right, Nat.add_div_right _ hl]
      omega

end M33mu.Lib
