import M33mu.Lib.ByteMem

namespace M33mu.Lib.ByteMem

variable {w : Nat} {m m' : ByteMem w} {a x : BitVec w} {n : Nat} {v : BitVec 32}

def value (m : ByteMem w) (a : BitVec w) (n : Nat) : BitVec 32 :=
  little 32 (fun k => m (a + BitVec.ofNat w k)) n

def putValue (m : ByteMem w) (a : BitVec w) (v : BitVec 32) (n : Nat) : ByteMem w := fun x =>
  if dist a x < n then (v >>> (8 * dist a x)).setWidth 8 else m x

theorem putValue_apart (apart : n ≤ dist a x) : m.putValue a v n x = m x :=
  if_neg (Nat.not_lt.mpr apart)

end M33mu.Lib.ByteMem
