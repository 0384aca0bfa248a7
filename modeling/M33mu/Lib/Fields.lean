import M33mu.Lib.Pattern

namespace M33mu.Lib

namespace Pattern

variable {w v : Nat} {p : Pattern w} {x : BitVec w}

def any (n : Nat) : Pattern n := ⟨0, 0⟩

def exactly (x : BitVec w) : Pattern w := ⟨BitVec.allOnes w, x⟩

def append (p : Pattern w) (q : Pattern v) : Pattern (w + v) :=
  ⟨p.mask ++ q.mask, p.value ++ q.value⟩

theorem matches_any (x : BitVec w) : (any w).Matches x := BitVec.and_zero

theorem matches_exactly (x : BitVec w) : (exactly x).Matches x := BitVec.and_allOnes

theorem Matches.append {p : Pattern w} {q : Pattern v} {x : BitVec w} {y : BitVec v}
    (here : p.Matches x) (there : q.Matches y) : (p.append q).Matches (x ++ y) := by
  show (x ++ y) &&& (p.mask ++ q.mask) = p.value ++ q.value
  rw [BitVec.and_append, here, there]

theorem Matches.free (here : p.Matches x) (y : BitVec v) : (p.append (any v)).Matches (x ++ y) :=
  here.append (matches_any y)

theorem Matches.fixed (here : p.Matches x) (y : BitVec v) :
    (p.append (exactly y)).Matches (x ++ y) :=
  here.append (matches_exactly y)

theorem Matches.and_true (here : p.Matches x) {m u : BitVec w} (within : p.Within ⟨m, u⟩) :
    (x &&& m = u) = True :=
  eq_true (within.matches here)

theorem Matches.and_false (here : p.Matches x) {m u : BitVec w} (apart : p.Apart ⟨m, u⟩) :
    (x &&& m = u) = False :=
  eq_false (apart.not_matches here)

theorem Matches.other (here : p.Matches x) {u : BitVec w} (apart : u &&& p.mask ≠ p.value) :
    (x = u) = False :=
  eq_false fun same => apart (same ▸ here)

theorem Matches.extract (here : p.Matches x) (lo n : Nat)
    (fixed : p.mask.extractLsb' lo n = BitVec.allOnes n) :
    x.extractLsb' lo n = p.value.extractLsb' lo n := by
  have bits := congrArg (·.extractLsb' lo n) here
  simp only [BitVec.extractLsb'_and, fixed, BitVec.and_allOnes] at bits
  exact bits

def field (w lo : Nat) {n : Nat} (value : BitVec n) : Pattern w :=
  ⟨(BitVec.allOnes n).setWidth w <<< lo, value.setWidth w <<< lo⟩

theorem matches_field {lo n : Nat} {value : BitVec n} (is : x.extractLsb' lo n = value) :
    (field w lo value).Matches x := by
  refine BitVec.eq_of_getLsbD_eq fun i low => ?_
  have bit := congrArg (·.getLsbD (i - lo)) is
  simp only [BitVec.getLsbD_extractLsb'] at bit
  simp only [field, BitVec.getLsbD_and, BitVec.getLsbD_shiftLeft, BitVec.getLsbD_setWidth,
    BitVec.getLsbD_allOnes, ← bit, low, decide_true, Bool.true_and]
  by_cases before : i < lo
  · simp [before]
  · have inside : i - lo < w := by omega
    have here : lo + (i - lo) = i := by omega
    simp [before, inside, here, Bool.and_comm]

end Pattern

theorem extract_skip {n k lo m : Nat} (x : BitVec n) (y : BitVec k) (past : k ≤ lo) :
    (x ++ y).extractLsb' lo m = x.extractLsb' (lo - k) m :=
  BitVec.extractLsb'_append_eq_of_le past

theorem extract_low {n k : Nat} (x : BitVec n) (y : BitVec k) : (x ++ y).extractLsb' 0 k = y :=
  BitVec.extractLsb'_append_eq_right

theorem extract_one {w : Nat} (x : BitVec w) (i : Nat) :
    x.extractLsb' i 1 = BitVec.ofBool (x.getLsbD i) := by
  refine BitVec.eq_of_getLsbD_eq fun j low => ?_
  obtain rfl : j = 0 := Nat.lt_one_iff.mp low
  simp

end M33mu.Lib
