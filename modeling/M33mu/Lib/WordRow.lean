import M33mu.Lib.ByteMem

namespace M33mu.Lib.ByteMem

variable {w : Nat} {m m' : ByteMem w} {a x : BitVec w} {n : Nat} {vs : List (BitVec 32)}

def words (m : ByteMem w) (a : BitVec w) : Nat → List (BitVec 32)
  | 0 => []
  | n + 1 => m.word a :: m.words (a + BitVec.ofNat w 4) n

def putWords (m : ByteMem w) (a : BitVec w) : List (BitVec 32) → ByteMem w
  | [] => m
  | v :: vs => (m.putWord a v).putWords (a + BitVec.ofNat w 4) vs

theorem dist_trans {b : BitVec w} (room : dist b a + dist a x < 2 ^ w) :
    dist b x = dist b a + dist a x := by
  have sum := dist_add_right (a := b) (x := a) (k := dist a x) room
  rwa [add_dist] at sum

theorem dist_between {b : BitVec w} (past : dist b a ≤ dist b x) :
    dist a x = dist b x - dist b a := by
  have step := dist_skip (a := b) (dist_lt b a) past
  rwa [add_dist] at step

theorem length_words (m : ByteMem w) (a : BitVec w) (n : Nat) : (m.words a n).length = n := by
  induction n generalizing a with
  | zero => rfl
  | succ n ih => exact congrArg (· + 1) (ih _)

theorem words_succ (m : ByteMem w) (a : BitVec w) (n : Nat) :
    m.words a (n + 1) = m.words a n ++ [m.word (a + BitVec.ofNat w (4 * n))] := by
  induction n generalizing a with
  | zero => simp [words]
  | succ n ih =>
    have past : a + BitVec.ofNat w (4 * (n + 1)) =
        a + BitVec.ofNat w 4 + BitVec.ofNat w (4 * n) := by
      rw [BitVec.add_assoc, ← BitVec.ofNat_add, Nat.mul_succ, Nat.add_comm]
    rw [words, ih, past]
    rfl

theorem words_congr (same : ∀ x, dist a x < 4 * n → m' x = m x) (room : 4 * n ≤ 2 ^ w) :
    m'.words a n = m.words a n := by
  induction n generalizing a with
  | zero => rfl
  | succ n ih =>
    have first : m'.word a = m.word a := word_congr fun k low => same _ (by
      rw [dist_add (by omega)]
      omega)
    rw [words, words, first]
    refine congrArg _ (ih (fun x near => ?_) (by omega))
    rcases Nat.lt_or_ge 4 (2 ^ w) with wide | tight
    · by_cases past : 4 ≤ dist a x
      · rw [dist_skip wide past] at near
        exact same x (by omega)
      · exact same x (by omega)
    · exact same x (Nat.lt_of_lt_of_le (dist_lt a x) (by omega))

theorem putWords_apart (apart : 4 * vs.length ≤ dist a x) : putWords m a vs x = m x := by
  induction vs generalizing m a with
  | nil => rfl
  | cons v vs ih =>
    rw [List.length_cons] at apart
    have room := dist_lt a x
    rw [putWords, ih, putWord_apart (by omega)]
    rw [dist_skip (by omega) (by omega)]
    omega

theorem words_putWords (wide : 3 ≤ w) (room : 4 * vs.length ≤ 2 ^ w) :
    words (putWords m a vs) a vs.length = vs := by
  induction vs generalizing m a with
  | nil => rfl
  | cons v vs ih =>
    rw [List.length_cons] at room
    have four : 4 < 2 ^ w := Nat.lt_of_lt_of_le (by decide : 4 < 2 ^ 3)
      (Nat.pow_le_pow_right Nat.two_pos wide)
    have kept : word (putWords m a (v :: vs)) a = word (putWord m a v) a := by
      refine word_congr fun k low => ?_
      have here : dist a (a + BitVec.ofNat w k) = k := dist_add (by omega) a
      rw [putWords]
      apply putWords_apart
      rw [dist_short four (by omega), here]
      omega
    rw [List.length_cons, words, kept, word_putWord (by omega)]
    exact congrArg _ (ih (by omega))

end M33mu.Lib.ByteMem
