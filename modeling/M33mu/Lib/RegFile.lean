import Mathlib.Logic.Function.Basic

namespace M33mu.Lib

abbrev RegFile := Nat → BitVec 8

namespace RegFile

def zero : RegFile := fun _ => 0

def word (r : RegFile) (off : Nat) : BitVec 32 := r (off + 3) ++ r (off + 2) ++ r (off + 1) ++ r off

/-- `memcpy((u8 *)regs + off, &v, n)`. -/
def copy (r : RegFile) (off n : Nat) (v : BitVec 32) : RegFile := fun i =>
  if off ≤ i ∧ i < off + n then v.extractLsb' (8 * (i - off)) 8 else r i

def setWord (r : RegFile) (off : Nat) (v : BitVec 32) : RegFile := r.copy off 4 v

/-- `memcpy(&v, (u8 *)regs + off, n)`, into a `v` of zero. -/
def slice (r : RegFile) (off n : Nat) : BitVec 32 :=
  (if 3 < n then r (off + 3) else 0) ++ (if 2 < n then r (off + 2) else 0) ++
    (if 1 < n then r (off + 1) else 0) ++ if 0 < n then r off else 0

theorem getLsbD_append (a b c d : BitVec 8) {i : Nat} (low : i < 32) :
    (a ++ b ++ c ++ d).getLsbD i =
      (if i < 8 then d else if i < 16 then c else if i < 24 then b else a).getLsbD (i % 8) := by
  simp only [BitVec.getLsbD_append]
  by_cases first : i < 8
  · rw [if_pos first, if_pos first, Nat.mod_eq_of_lt first]
  rw [if_neg first, if_neg first]
  by_cases second : i < 16
  · rw [if_pos (by omega), if_pos second]
    congr 1
    omega
  rw [if_neg (by omega), if_neg second]
  by_cases third : i < 24
  · rw [if_pos (by omega), if_pos third]
    congr 1
    omega
  · rw [if_neg (by omega), if_neg third]
    congr 1
    omega

theorem getLsbD_word (r : RegFile) (off : Nat) {i : Nat} (low : i < 32) :
    (r.word off).getLsbD i = (r (off + i / 8)).getLsbD (i % 8) := by
  rw [word, getLsbD_append _ _ _ _ low]
  by_cases first : i < 8
  · rw [if_pos first, Nat.div_eq_of_lt first, Nat.add_zero]
  rw [if_neg first]
  by_cases second : i < 16
  · have byte : i / 8 = 1 := by omega
    rw [if_pos second, byte]
  rw [if_neg second]
  by_cases third : i < 24
  · have byte : i / 8 = 2 := by omega
    rw [if_pos third, byte]
  · have byte : i / 8 = 3 := by omega
    rw [if_neg third, byte]

def bit (r : RegFile) (b : Nat) : Bool := (r (b / 8)).getLsbD (b % 8)

theorem bit_byte (r : RegFile) (a : Nat) {j : Nat} (low : j < 8) :
    r.bit (8 * a + j) = (r a).getLsbD j := by
  rw [bit, Nat.mul_add_div (by decide), Nat.div_eq_of_lt low, Nat.add_zero, Nat.mul_add_mod,
    Nat.mod_eq_of_lt low]

theorem bit_word (r : RegFile) (off : Nat) {i : Nat} (low : i < 32) :
    (r.word off).getLsbD i = r.bit (8 * off + i) := by
  have byte : (8 * off + i) / 8 = off + i / 8 := by omega
  have rest : (8 * off + i) % 8 = i % 8 := by omega
  rw [getLsbD_word _ _ low, bit, byte, rest]

theorem bit_copy (r : RegFile) (off n : Nat) (v : BitVec 32) (b : Nat) :
    (r.copy off n v).bit b =
      if 8 * off ≤ b ∧ b < 8 * (off + n) then v.getLsbD (b - 8 * off) else r.bit b := by
  rw [bit, copy]
  by_cases inside : 8 * off ≤ b ∧ b < 8 * (off + n)
  · have place : 8 * (b / 8 - off) + b % 8 = b - 8 * off := by omega
    rw [if_pos inside, if_pos (by omega), BitVec.getLsbD_extractLsb', place,
      decide_eq_true (Nat.mod_lt _ (by decide)), Bool.true_and]
  · rw [if_neg inside, if_neg (by omega), bit]

theorem bit_slice (r : RegFile) (off n : Nat) {i : Nat} (low : i < 32) :
    (r.slice off n).getLsbD i = (decide (i < 8 * n) && r.bit (8 * off + i)) := by
  have byte : (8 * off + i) / 8 = off + i / 8 := by omega
  have rest : (8 * off + i) % 8 = i % 8 := by omega
  rw [slice, getLsbD_append _ _ _ _ low, bit, byte, rest]
  have last (k : Nat) (here : i / 8 = k) :
      (if k < n then r (off + k) else 0).getLsbD (i % 8) =
        (decide (i < 8 * n) && (r (off + i / 8)).getLsbD (i % 8)) := by
    by_cases reached : k < n
    · rw [if_pos reached, decide_eq_true (by omega), Bool.true_and, here]
    · rw [if_neg reached, decide_eq_false (by omega), Bool.false_and]
      exact BitVec.getLsbD_zero
  by_cases first : i < 8
  · rw [if_pos first]
    exact last 0 (by omega)
  rw [if_neg first]
  by_cases second : i < 16
  · rw [if_pos second]
    exact last 1 (by omega)
  rw [if_neg second]
  by_cases third : i < 24
  · rw [if_pos third]
    exact last 2 (by omega)
  · rw [if_neg third]
    exact last 3 (by omega)

def flip (r : RegFile) (b : Nat) : RegFile :=
  Function.update r (b / 8) (r (b / 8) ^^^ BitVec.twoPow 8 (b % 8))

theorem bit_flip (r : RegFile) (b c : Nat) : (r.flip b).bit c = (r.bit c ^^ decide (c = b)) := by
  rw [bit, flip, Function.update_apply]
  by_cases byte : c / 8 = b / 8
  · rw [if_pos byte, BitVec.getLsbD_xor, BitVec.getLsbD_twoPow, bit, byte,
      decide_eq_true (Nat.mod_lt _ (by decide)), Bool.true_and]
    congr 1
    exact decide_eq_decide.mpr ⟨by omega, by omega⟩
  · rw [if_neg byte, decide_eq_false fun same => byte (congrArg (· / 8) same), Bool.xor_false, bit]

theorem word_congr {r r' : RegFile} {off : Nat} (same : ∀ i, off ≤ i → i < off + 4 → r' i = r i) :
    r'.word off = r.word off := by
  rw [word, word, same off (Nat.le_refl _) (by omega), same (off + 1) (by omega) (by omega),
    same (off + 2) (by omega) (by omega), same (off + 3) (by omega) (by omega)]

theorem copy_of_apart (r : RegFile) {off n i : Nat} (v : BitVec 32)
    (apart : i < off ∨ off + n ≤ i) : r.copy off n v i = r i :=
  if_neg fun inside => by omega

theorem word_copy_of_apart (r : RegFile) {off n off' : Nat} (v : BitVec 32)
    (apart : off' + 4 ≤ off ∨ off + n ≤ off') : (r.copy off n v).word off' = r.word off' :=
  word_congr fun i low high => r.copy_of_apart v (by omega)

theorem word_setWord_of_apart (r : RegFile) {off off' : Nat} (v : BitVec 32)
    (apart : off' + 4 ≤ off ∨ off + 4 ≤ off') : (r.setWord off v).word off' = r.word off' :=
  word_copy_of_apart r v apart

theorem getLsbD_word_copy (r : RegFile) (off n off' : Nat) (v : BitVec 32) {i : Nat} (low : i < 32) :
    ((r.copy off n v).word off').getLsbD i =
      if off ≤ off' + i / 8 ∧ off' + i / 8 < off + n then
        decide (i % 8 < 8) && v.getLsbD (8 * (off' + i / 8 - off) + i % 8)
      else (r.word off').getLsbD i := by
  rw [getLsbD_word _ _ low, copy]
  split
  · rw [BitVec.getLsbD_extractLsb']
  · rw [getLsbD_word _ _ low]

@[simp] theorem word_setWord (r : RegFile) (off : Nat) (v : BitVec 32) :
    (r.setWord off v).word off = v := by
  apply BitVec.eq_of_getLsbD_eq
  intro i low
  rw [setWord, getLsbD_word_copy r off 4 off v low, if_pos (by omega),
    decide_eq_true (Nat.mod_lt _ (by decide)), Bool.true_and]
  congr 1
  omega

theorem apply_of_word {r r' : RegFile} {off : Nat} (same : r'.word off = r.word off) {i : Nat}
    (low : off ≤ i) (high : i < off + 4) : r' i = r i := by
  apply BitVec.eq_of_getLsbD_eq
  intro j small
  have bit := congrArg (fun v : BitVec 32 => v.getLsbD (8 * (i - off) + j)) same
  have byte : off + (8 * (i - off) + j) / 8 = i := by omega
  have rest : (8 * (i - off) + j) % 8 = j := by omega
  rwa [getLsbD_word _ _ (by omega), getLsbD_word _ _ (by omega), byte, rest] at bit

theorem copy_eq_self {r : RegFile} {off n : Nat} {v : BitVec 32} (inside : n ≤ 4)
    (same : (r.copy off n v).word off = r.word off) : r.copy off n v = r := by
  funext i
  by_cases reached : off ≤ i ∧ i < off + n
  · exact apply_of_word same reached.1 (by omega)
  · exact if_neg reached

theorem eq_of_bit_eq {r r' : RegFile} (same : ∀ b, r'.bit b = r.bit b) : r' = r := by
  funext i
  apply BitVec.eq_of_getLsbD_eq
  intro j low
  rw [← bit_byte r' i low, ← bit_byte r i low, same]

theorem copy_eq_self_iff {r : RegFile} {off n : Nat} {v : BitVec 32} :
    r.copy off n v = r ↔
      ∀ b, 8 * off ≤ b → b < 8 * (off + n) → v.getLsbD (b - 8 * off) = r.bit b := by
  constructor
  · intro same b first last
    rw [← congrArg (fun r : RegFile => r.bit b) same, bit_copy, if_pos ⟨first, last⟩]
  · intro there
    refine eq_of_bit_eq fun b => ?_
    rw [bit_copy]
    split
    · rename_i reached
      exact there b reached.1 reached.2
    · rfl

@[simp] theorem setWord_self (r : RegFile) (off : Nat) : r.setWord off (r.word off) = r :=
  copy_eq_self (Nat.le_refl 4) (r.word_setWord off _)

end RegFile

end M33mu.Lib
