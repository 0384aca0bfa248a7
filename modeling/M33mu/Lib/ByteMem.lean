import Mathlib.Algebra.Group.Nat.Defs
import Mathlib.Logic.Function.Basic
import Mathlib.Data.List.GetD
import M33mu.Lib.LittleEndian

/-!
A memory of bytes with addresses of `w` bits, by words in little endian and by runs of bytes. An
access may go over the end of the addresses to the first ones.
-/

namespace M33mu.Lib

abbrev ByteMem (w : Nat) := BitVec w → BitVec 8

namespace ByteMem

variable {w : Nat} {m : ByteMem w} {a b x : BitVec w}

def dist (a x : BitVec w) : Nat := (x - a).toNat

def word (m : ByteMem w) (a : BitVec w) : BitVec 32 :=
  little 32 (fun k => m (a + BitVec.ofNat w k)) 4

def putWord (m : ByteMem w) (a : BitVec w) (v : BitVec 32) : ByteMem w := fun x =>
  if dist a x < 4 then (v >>> (8 * dist a x)).setWidth 8 else m x

def bytes (m : ByteMem w) (a : BitVec w) (n : Nat) : List (BitVec 8) :=
  (List.range n).map fun i => m (a + BitVec.ofNat w i)

def putBytes (m : ByteMem w) (a : BitVec w) (data : List (BitVec 8)) : ByteMem w := fun x =>
  data.getD (dist a x) (m x)

theorem dist_lt (a x : BitVec w) : dist a x < 2 ^ w := (x - a).isLt

theorem dist_add {i : Nat} (low : i < 2 ^ w) (a : BitVec w) : dist a (a + BitVec.ofNat w i) = i := by
  rw [dist, BitVec.add_comm, BitVec.add_sub_cancel, BitVec.toNat_ofNat, Nat.mod_eq_of_lt low]

theorem add_dist (a x : BitVec w) : a + BitVec.ofNat w (dist a x) = x := by
  rw [dist, BitVec.ofNat_toNat, BitVec.setWidth_eq, BitVec.add_comm, BitVec.sub_add_cancel]

theorem dist_add_right {k : Nat} (room : dist a x + k < 2 ^ w) :
    dist a (x + BitVec.ofNat w k) = dist a x + k := by
  have shift : x + BitVec.ofNat w k - a = x - a + BitVec.ofNat w k := by grind
  have low : k < 2 ^ w := by omega
  rw [dist, shift, BitVec.toNat_add, BitVec.toNat_ofNat, Nat.mod_eq_of_lt low]
  exact Nat.mod_eq_of_lt room

theorem dist_from (a b x : BitVec w) : dist b x = (2 ^ w - dist a b + dist a x) % 2 ^ w := by
  have shift : x - b = (x - a) - (b - a) := by grind
  rw [dist, shift, BitVec.toNat_sub]
  rfl

@[simp] theorem dist_self (a : BitVec w) : dist a a = 0 := by simp [dist]

theorem dist_back (apart : dist a b ≠ 0) : dist b a = 2 ^ w - dist a b := by
  have room := dist_lt a b
  rw [dist_from a b a, dist_self, Nat.add_zero, Nat.mod_eq_of_lt (by omega)]

theorem dist_apart {n : Nat} (behind : n ≤ dist a b) (ahead : n ≤ dist b a)
    (near : dist a x < n) : n ≤ dist b x := by
  have room := dist_lt a b
  rw [dist_back (by omega)] at ahead
  rw [dist_from a b x, Nat.mod_eq_of_lt (by omega)]
  omega

theorem dist_skip {k : Nat} (low : k < 2 ^ w) (past : k ≤ dist a x) :
    dist (a + BitVec.ofNat w k) x = dist a x - k := by
  have room := dist_lt a x
  rw [dist_from a, dist_add low, ← Nat.sub_add_comm (Nat.le_of_lt low), Nat.add_sub_assoc past,
    Nat.add_mod_left, Nat.mod_eq_of_lt (by omega)]

theorem dist_short {k : Nat} (low : k < 2 ^ w) (before : dist a x < k) :
    dist (a + BitVec.ofNat w k) x = 2 ^ w - k + dist a x := by
  rw [dist_from a, dist_add low, Nat.mod_eq_of_lt (by omega)]

theorem word_ext {u v : BitVec 32}
    (same : ∀ k < 4, (u >>> (8 * k)).setWidth 8 = ((v >>> (8 * k)).setWidth 8 : BitVec 8)) :
    u = v := by
  refine BitVec.eq_of_getLsbD_eq fun i low => ?_
  have here := congrArg (·.getLsbD (i % 8)) (same (i / 8) (by omega))
  have small : i % 8 < 8 := Nat.mod_lt _ (by decide)
  simp only [BitVec.getLsbD_setWidth, BitVec.getLsbD_ushiftRight, decide_eq_true small,
    Bool.true_and, Nat.div_add_mod] at here
  exact here

theorem byte_word {k : Nat} (low : k < 4) (m : ByteMem w) (a : BitVec w) :
    (word m a >>> (8 * k)).setWidth 8 = m (a + BitVec.ofNat w k) :=
  byte_little (b := fun k => m (a + BitVec.ofNat w k)) low (by decide)

theorem putWord_near {k : Nat} (low : k < 4) (wide : 2 ≤ w) (m : ByteMem w) (a : BitVec w)
    (v : BitVec 32) : putWord m a v (a + BitVec.ofNat w k) = (v >>> (8 * k)).setWidth 8 := by
  have room : k < 2 ^ w := Nat.lt_of_lt_of_le low (Nat.pow_le_pow_right Nat.two_pos wide)
  rw [putWord, dist_add room, if_pos low]

theorem putWord_apart (apart : 4 ≤ dist a x) (v : BitVec 32) : putWord m a v x = m x :=
  if_neg (Nat.not_lt.mpr apart)

theorem word_putWord (wide : 2 ≤ w) (m : ByteMem w) (a : BitVec w) (v : BitVec 32) :
    word (putWord m a v) a = v :=
  word_ext fun k low => by rw [byte_word low, putWord_near low wide]

theorem word_congr {m' : ByteMem w}
    (same : ∀ k < 4, m' (a + BitVec.ofNat w k) = m (a + BitVec.ofNat w k)) : word m' a = word m a :=
  little_congr same

theorem word_putWord_apart (wide : 2 ≤ w) (behind : 4 ≤ dist b a) (ahead : 4 ≤ dist a b)
    (m : ByteMem w) (v : BitVec 32) : word (putWord m a v) b = word m b := by
  refine word_congr fun k low => putWord_apart (dist_apart behind ahead ?_) v
  rwa [dist_add (Nat.lt_of_lt_of_le low (Nat.pow_le_pow_right Nat.two_pos wide))]

theorem putWord_word (m : ByteMem w) (a : BitVec w) : putWord m a (word m a) = m := by
  funext x
  rw [putWord]
  split
  · rename_i low
    rw [byte_word low, add_dist]
  · rfl

theorem byte_patch {j k : Nat} (low : k < 4) (low' : j < 4) (v : BitVec 32) (b : BitVec 8) :
    ((v &&& ~~~(0xFF#32 <<< (8 * k)) ||| b.setWidth 32 <<< (8 * k)) >>> (8 * j)).setWidth 8 =
      if j = k then b else (v >>> (8 * j)).setWidth 8 := by
  refine BitVec.eq_of_getLsbD_eq fun i small => ?_
  have ones (n : Nat) : (0xFF#32).getLsbD n = decide (n < 8) := by
    rw [show 0xFF#32 = (BitVec.allOnes 8).setWidth 32 by decide, BitVec.getLsbD_setWidth,
      BitVec.getLsbD_allOnes]
    rcases Nat.lt_or_ge n 8 with low | high
    · have inside : n < 32 := by omega
      simp [low, inside]
    · simp [Nat.not_lt.mpr high]
  have inWord : 8 * j + i < 32 := by omega
  simp only [BitVec.getLsbD_setWidth, BitVec.getLsbD_ushiftRight, BitVec.getLsbD_or,
    BitVec.getLsbD_and, BitVec.getLsbD_not, BitVec.getLsbD_shiftLeft, ones, inWord, small,
    decide_true, Bool.true_and]
  rcases Nat.lt_trichotomy j k with before | rfl | past
  · have ahead : 8 * j + i < 8 * k := by omega
    simp [Nat.ne_of_lt before, ahead, small]
  · have here : ¬ 8 * j + i < 8 * j := by omega
    have low : i < 32 := by omega
    simp [here, low, Nat.not_le.mpr small]
  · have behind : ¬ 8 * j + i < 8 * k := by omega
    have out : 8 ≤ 8 * j + i - 8 * k := by omega
    have high : b.getLsbD (8 * j + i - 8 * k) = false := BitVec.getLsbD_of_ge b _ out
    simp [Nat.ne_of_gt past, behind, Nat.not_lt.mpr out, small, high]

theorem putWord_byte {k : Nat} (low : k < 4) (wide : 2 ≤ w) (m : ByteMem w) (a : BitVec w)
    (b : BitVec 8) :
    putWord m a (word m a &&& ~~~(0xFF#32 <<< (8 * k)) ||| b.setWidth 32 <<< (8 * k)) =
      Function.update m (a + BitVec.ofNat w k) b := by
  have room : k < 2 ^ w := Nat.lt_of_lt_of_le low (Nat.pow_le_pow_right Nat.two_pos wide)
  funext x
  rw [putWord, Function.update_apply]
  by_cases near : dist a x < 4
  · rw [if_pos near, byte_patch low near, byte_word near, add_dist]
    have here : x = a + BitVec.ofNat w k ↔ dist a x = k :=
      ⟨fun eq => by rw [eq, dist_add room], fun eq => by rw [← eq, add_dist]⟩
    simp only [here]
  · rw [if_neg near, if_neg]
    rintro rfl
    exact near ((dist_add room a).symm ▸ low)

theorem putBytes_nil (m : ByteMem w) (a : BitVec w) : putBytes m a [] = m := rfl

theorem putBytes_apart {data : List (BitVec 8)} (apart : data.length ≤ dist a x) :
    putBytes m a data x = m x := by
  rw [putBytes, List.getD_eq_default _ _ apart]

theorem putBytes_near {data : List (BitVec 8)} {i : Nat} (low : i < data.length)
    (room : data.length ≤ 2 ^ w) (m : ByteMem w) (a : BitVec w) :
    putBytes m a data (a + BitVec.ofNat w i) = data[i] := by
  rw [putBytes, dist_add (Nat.lt_of_lt_of_le low room), List.getD_eq_getElem _ _ low]

theorem putBytes_cons {data : List (BitVec 8)} (wide : 0 < w) (room : data.length < 2 ^ w)
    (m : ByteMem w) (a : BitVec w) (b : BitVec 8) : putBytes m a (b :: data) =
      putBytes (Function.update m a b) (a + BitVec.ofNat w 1) data := by
  have two : 1 < 2 ^ w := Nat.one_lt_two_pow (Nat.ne_of_gt wide)
  funext x
  have place := add_dist a x
  cases behind : dist a x with
  | zero =>
    rw [behind, BitVec.add_zero] at place
    have last : data.length ≤ dist (a + BitVec.ofNat w 1) x := by
      rw [dist_short two (by omega), behind]
      omega
    rw [putBytes_apart last, putBytes, behind, ← place, Function.update_self]
    rfl
  | succ k =>
    have other : x ≠ a := by
      rintro rfl
      rw [dist_self] at behind
      exact absurd behind (Nat.succ_ne_zero k).symm
    rw [putBytes, putBytes, dist_skip two (by omega), behind, Function.update_of_ne other]
    rfl

theorem length_bytes (m : ByteMem w) (a : BitVec w) (n : Nat) : (bytes m a n).length = n := by
  rw [bytes, List.length_map, List.length_range]

theorem getElem_bytes {i n : Nat} (m : ByteMem w) (a : BitVec w) (low : i < (bytes m a n).length) :
    (bytes m a n)[i] = m (a + BitVec.ofNat w i) := by
  simp only [bytes, List.getElem_map, List.getElem_range]

theorem getD_bytes {i n : Nat} (low : i < n) (m : ByteMem w) (a : BitVec w) (other : BitVec 8) :
    (bytes m a n).getD i other = m (a + BitVec.ofNat w i) := by
  rw [List.getD_eq_getElem _ _ (by rwa [length_bytes]), getElem_bytes]

end ByteMem

end M33mu.Lib
