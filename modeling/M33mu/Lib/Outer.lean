import M33mu.Lib.RegFile

/-!
A file of registers and what follows it in memory: what stays inside of the file neither reads nor
writes what follows.
-/

namespace M33mu.Lib.RegFile

def followedBy (r : RegFile) (size : Nat) (o : RegFile) : RegFile := fun i =>
  if i < size then r i else o i

variable {r o : RegFile} {size off n : Nat}

@[simp] theorem followedBy_self (r : RegFile) (size : Nat) : r.followedBy size r = r := by
  funext i
  exact ite_self _

theorem followedBy_of_lt {i : Nat} (low : i < size) : r.followedBy size o i = r i := if_pos low

theorem followedBy_of_le {i : Nat} (high : size ≤ i) : r.followedBy size o i = o i :=
  if_neg (Nat.not_lt.mpr high)

theorem word_followedBy (inside : off + 4 ≤ size) : (r.followedBy size o).word off = r.word off :=
  word_congr fun _ _ above => followedBy_of_lt (by omega)

theorem slice_followedBy (inside : off + n ≤ size) :
    (r.followedBy size o).slice off n = r.slice off n := by
  have byte {k : Nat} : (if k < n then r.followedBy size o (off + k) else 0) =
      if k < n then r (off + k) else 0 := by
    split
    · exact followedBy_of_lt (by omega)
    · rfl
  have first : (if 0 < n then r.followedBy size o off else 0) = if 0 < n then r off else 0 :=
    byte (k := 0)
  rw [slice, byte, byte, byte, first, slice]

theorem copy_followedBy (inside : off + n ≤ size) (v : BitVec 32) :
    (r.followedBy size o).copy off n v = (r.copy off n v).followedBy size o := by
  funext i
  rw [copy]
  by_cases low : i < size
  · rw [followedBy_of_lt low, followedBy_of_lt low, copy]
  · have high := Nat.le_of_not_lt low
    rw [followedBy_of_le high, followedBy_of_le high, if_neg (by omega)]

theorem setWord_followedBy (inside : off + 4 ≤ size) (v : BitVec 32) :
    (r.followedBy size o).setWord off v = (r.setWord off v).followedBy size o :=
  copy_followedBy inside v

theorem slice_shows (low : off < size) (reaches : size < off + n) (few : n ≤ 4) :
    ∃ o o' : RegFile, (r.followedBy size o).slice off n ≠ (r.followedBy size o').slice off n := by
  refine ⟨fun _ => 0, fun _ => 1, fun same => ?_⟩
  have shown (o : RegFile) : ((r.followedBy size o).slice off n).getLsbD (8 * (size - off)) =
      (o size).getLsbD 0 := by
    have place : 8 * off + 8 * (size - off) = 8 * size := by omega
    rw [bit_slice _ _ _ (by omega), decide_eq_true (by omega), Bool.true_and, place, bit,
      Nat.mul_div_cancel_left _ (by decide), Nat.mul_mod_right, followedBy_of_le (Nat.le_refl _)]
  have bits := congrArg (fun v : BitVec 32 => v.getLsbD (8 * (size - off))) same
  simp only [shown] at bits
  exact absurd bits (by decide)

theorem copy_reaches (low : off ≤ size) (reaches : size < off + n) (v : BitVec 32) :
    ∃ o : RegFile, (r.followedBy size o).copy off n v size ≠ o size := by
  refine ⟨fun _ => ~~~v.extractLsb' (8 * (size - off)) 8, fun same => ?_⟩
  rw [copy, if_pos ⟨low, reaches⟩] at same
  have bit := congrArg (fun b : BitVec 8 => b.getLsbD 0) same
  simp at bit

end M33mu.Lib.RegFile
