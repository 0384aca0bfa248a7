namespace M33mu.Lib

structure Pattern (w : Nat) where
  mask : BitVec w
  value : BitVec w
  deriving DecidableEq, Repr

namespace Pattern

variable {w : Nat}

def Matches (p : Pattern w) (x : BitVec w) : Prop := x &&& p.mask = p.value

instance (p : Pattern w) (x : BitVec w) : Decidable (p.Matches x) :=
  inferInstanceAs (Decidable (_ = _))

def Apart (p q : Pattern w) : Prop := p.value &&& q.mask ≠ q.value &&& p.mask

instance (p q : Pattern w) : Decidable (p.Apart q) := inferInstanceAs (Decidable (_ ≠ _))

def Within (p q : Pattern w) : Prop := p.mask &&& q.mask = q.mask ∧ p.value &&& q.mask = q.value

instance (p q : Pattern w) : Decidable (p.Within q) := inferInstanceAs (Decidable (_ ∧ _))

theorem Apart.not_matches {p q : Pattern w} (apart : p.Apart q) {x : BitVec w} (here : p.Matches x) :
    ¬ q.Matches x := by
  intro there
  apply apart
  rw [← here, ← there, BitVec.and_assoc, BitVec.and_assoc, BitVec.and_comm p.mask]

theorem Within.matches {p q : Pattern w} (within : p.Within q) {x : BitVec w} (here : p.Matches x) :
    q.Matches x := by
  have same : (x &&& p.mask) &&& q.mask = p.value &&& q.mask := congrArg (· &&& q.mask) here
  rw [BitVec.and_assoc, within.1, within.2] at same
  exact same

def both (p q : Pattern w) : Pattern w := ⟨p.mask ||| q.mask, p.value ||| q.value⟩

theorem Matches.both {p q : Pattern w} {x : BitVec w} (left : p.Matches x) (right : q.Matches x) :
    (p.both q).Matches x := by
  show x &&& (p.mask ||| q.mask) = p.value ||| q.value
  rw [BitVec.and_or_distrib_left, left, right]

end Pattern

end M33mu.Lib
