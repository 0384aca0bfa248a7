import M33mu.EthMemory
import M33mu.Lib.Ring

namespace M33mu

open Lib

namespace Eth

section Turn

variable {α : Type u} (put : ByteMem 32 → Word → ByteMem 32) (out : ByteMem 32 → EthDesc → α)

/-- One turn over the slots of a ring, up to the first descriptor that the DMA does not own: what is
made of each descriptor, and of the memory. -/
def turn (m : ByteMem 32) : List Word → List α × ByteMem 32
  | [] => ([], m)
  | s :: slots =>
    if (EthDesc.get m s).Owned then
      let (made, m') := turn (put m s) slots
      (out m (.get m s) :: made, m')
    else ([], m)

def Local : Prop := ∀ m s x, 16 ≤ ByteMem.dist s x → put m s x = m x

variable {put} {out} {m : ByteMem 32} {s x : Word} {slots : List Word}

theorem turn_cons (owned : (EthDesc.get m s).Owned) : turn put out m (s :: slots) =
    (out m (.get m s) :: (turn put out (put m s) slots).1, (turn put out (put m s) slots).2) := by
  rw [turn, if_pos owned]

theorem turn_stop (free : ¬ (EthDesc.get m s).Owned) : turn put out m (s :: slots) = ([], m) := by
  rw [turn, if_neg free]

theorem turn_apart (kept : Local put) (out' : ∀ t ∈ slots, 16 ≤ ByteMem.dist t x) :
    (turn put out m slots).2 x = m x := by
  induction slots generalizing m with
  | nil => rfl
  | cons t slots ih =>
    by_cases owned : (EthDesc.get m t).Owned
    · rw [turn_cons owned]
      exact (ih fun t' later => out' t' (.tail t later)).trans (kept m t x (out' t (.head slots)))
    · rw [turn_stop owned]

theorem get_put_of_apart (kept : Local put) {t : Word} (apart : EthDesc.Apart s t) :
    EthDesc.get (put m s) t = EthDesc.get m t :=
  EthDesc.get_congr fun x near => kept m s x (apart.far near)

theorem length_turn {β : Type v} {put' : ByteMem 32 → Word → ByteMem 32}
    {out' : ByteMem 32 → EthDesc → β} {m' : ByteMem 32} (kept : Local put) (kept' : Local put')
    (apart : slots.Pairwise EthDesc.Apart) (same : ∀ t ∈ slots, EthDesc.get m' t = EthDesc.get m t) :
    (turn put' out' m' slots).1.length = (turn put out m slots).1.length := by
  induction slots generalizing m m' with
  | nil => rfl
  | cons s slots ih =>
    obtain ⟨first, rest⟩ := List.pairwise_cons.mp apart
    have here : EthDesc.get m' s = EthDesc.get m s := same s (.head slots)
    by_cases owned : (EthDesc.get m s).Owned
    · have later (t : Word) (mem : t ∈ slots) :
          EthDesc.get (put' m' s) t = EthDesc.get (put m s) t := by
        rw [get_put_of_apart kept (first t mem), get_put_of_apart kept' (first t mem),
          same t (.tail s mem)]
      rw [turn_cons owned, turn_cons (here ▸ owned), List.length_cons, List.length_cons,
        ih rest later]
    · rw [turn_stop owned, turn_stop (here ▸ owned)]
      rfl

theorem turn_first (kept : Local put) (apart : (s :: slots).Pairwise EthDesc.Apart)
    (owned : (EthDesc.get m s).Owned) :
    EthDesc.get (turn put out m (s :: slots)).2 s = EthDesc.get (put m s) s := by
  obtain ⟨first, -⟩ := List.pairwise_cons.mp apart
  rw [turn_cons owned]
  refine EthDesc.get_congr fun x near => turn_apart kept fun t mem => ?_
  exact ByteMem.dist_apart (first t mem).1 (first t mem).2 near

end Turn

/-- A descriptor's part of a frame: whether the frame starts in it and ends in it, and its bytes. -/
structure Part where
  first : Bool
  last : Bool
  data : List Byte

def part (m : ByteMem 32) (desc : EthDesc) : Part where
  first := desc.des3 &&& desFd ≠ 0
  last := desc.des3 &&& desLd ≠ 0
  data := m.bytes desc.des0 (desc.des2 &&& lengthMask).toNat

def frames : Option (List Byte) → List Part → List (List Byte)
  | _, [] => []
  | before, p :: ps =>
    let data := if p.first then some p.data else before.map (· ++ p.data)
    if p.last then data.toList ++ frames none ps else frames data ps

theorem length_frames (before : Option (List Byte)) (ps : List Part) :
    (frames before ps).length ≤ ps.length := by
  induction ps generalizing before with
  | nil => exact Nat.le_refl 0
  | cons p ps ih =>
    rw [frames, List.length_cons]
    split
    · rw [List.length_append]
      have one : (if p.first then some p.data else before.map (· ++ p.data)).toList.length ≤ 1 :=
        Option.length_toList_le
      have rest := ih none
      omega
    · exact Nat.le_succ_of_le (ih _)

def clearOwn (m : ByteMem 32) (s : Word) : ByteMem 32 :=
  m.putWord (s + 12) (m.word (s + 12) &&& ~~~desOwn)

def scratch (m : ByteMem 32) (desc : EthDesc) : Word :=
  if txLength desc = 0 then desc.des1
  else m.word (desc.des0 + BitVec.ofNat 32 (4 * ((txLength desc - 1) / 4)))

def writeBack (m : ByteMem 32) (s : Word) : ByteMem 32 :=
  (m.putWord (s + 4) (scratch m (.get m s))).putWord (s + 12) (m.word (s + 12) &&& ~~~desOwn)

def sent (m : ByteMem 32) (desc : EthDesc) : List Byte := m.bytes desc.des0 (txLength desc)

/-- The descriptor holds a whole frame that fits in `buf`, and the word read last was in its second
word before. -/
structure Whole (m : ByteMem 32) (desc : EthDesc) : Prop where
  first : desc.des3 &&& desFd ≠ 0
  last : desc.des3 &&& desLd ≠ 0
  fits : (desc.des2 &&& lengthMask).toNat ≤ 1600
  kept : scratch m desc = desc.des1

def AllWhole (m : ByteMem 32) : List Word → Prop
  | [] => True
  | s :: slots => (EthDesc.get m s).Owned → Whole m (.get m s) ∧ AllWhole (clearOwn m s) slots

theorem clearOwn_local : Local clearOwn := fun _ _ _ out =>
  ByteMem.putWord_apart (EthDesc.dist_word (k := 12) (by decide) out (by decide)) _

theorem writeBack_local : Local writeBack := fun m s x out => by
  have fourth : 4 ≤ ByteMem.dist (s + 12) x := EthDesc.dist_word (by decide) out (by decide)
  have second : 4 ≤ ByteMem.dist (s + 4) x := EthDesc.dist_word (by decide) out (by decide)
  rw [writeBack, ByteMem.putWord_apart fourth, ByteMem.putWord_apart second]

theorem writeBack_eq {m : ByteMem 32} {s : Word}
    (kept : scratch m (.get m s) = (EthDesc.get m s).des1) : writeBack m s = clearOwn m s := by
  have back : m.putWord (s + 4) (EthDesc.get m s).des1 = m := ByteMem.putWord_word m (s + 4)
  rw [writeBack, kept, back, clearOwn]

theorem des1_writeBack (m : ByteMem 32) (s : Word) :
    (EthDesc.get (writeBack m s) s).des1 = scratch m (.get m s) := by
  have other := EthDesc.word_putWord_other (m := m.putWord (s + 4) (scratch m (.get m s)))
    (s := s + 12) (t := s + 4) (by bv_omega) (by bv_omega) (m.word (s + 12) &&& ~~~desOwn)
  exact other.trans (ByteMem.word_putWord (by decide) m (s + 4) _)

theorem des1_clearOwn (m : ByteMem 32) (s : Word) :
    (EthDesc.get (clearOwn m s) s).des1 = (EthDesc.get m s).des1 :=
  EthDesc.word_putWord_other (by bv_omega) (by bv_omega) _

theorem length_frames_lt {p : Part} (part : ¬ (p.first ∧ p.last)) (ps : List Part) :
    (frames none (p :: ps)).length ≤ ps.length := by
  rw [frames]
  split
  · rename_i last
    have first : ¬ p.first := fun first => part ⟨first, last⟩
    rw [if_neg first]
    exact length_frames none ps
  · exact length_frames _ ps

/-- The frames are those of the marks, and the memory is left as it should, exactly when each
descriptor holds a whole frame with the right second word. -/
theorem turn_right_iff {m : ByteMem 32} {slots : List Word} (apart : slots.Pairwise EthDesc.Apart) :
    (turn writeBack sent m slots).1 = frames none (turn clearOwn part m slots).1 ∧
      (turn writeBack sent m slots).2 = (turn clearOwn part m slots).2 ↔ AllWhole m slots := by
  induction slots generalizing m with
  | nil => exact iff_of_true ⟨rfl, rfl⟩ trivial
  | cons s slots ih =>
    obtain ⟨first, rest⟩ := List.pairwise_cons.mp apart
    by_cases owned : (EthDesc.get m s).Owned
    case neg =>
      rw [turn_stop owned, turn_stop owned]
      exact iff_of_true ⟨rfl, rfl⟩ fun owned' => absurd owned' owned
    constructor
    · rintro ⟨sentEq, memEq⟩ -
      have code : EthDesc.get (turn writeBack sent m (s :: slots)).2 s =
          EthDesc.get (writeBack m s) s := turn_first writeBack_local apart owned
      have kept : scratch m (.get m s) = (EthDesc.get m s).des1 := by
        rw [← des1_writeBack, ← code, memEq, turn_first clearOwn_local apart owned, des1_clearOwn]
      rw [turn_cons owned, turn_cons owned, writeBack_eq kept] at sentEq memEq
      have counts : (turn writeBack sent (clearOwn m s) slots).1.length =
          (turn clearOwn part (clearOwn m s) slots).1.length :=
        length_turn clearOwn_local writeBack_local rest fun _ _ => rfl
      have marks : (part m (.get m s)).first ∧ (part m (.get m s)).last := by
        by_contra less
        have fewer := length_frames_lt less (turn clearOwn part (clearOwn m s) slots).1
        rw [← sentEq, List.length_cons, counts] at fewer
        exact absurd fewer (Nat.not_succ_le_self _)
      obtain ⟨starts, ends⟩ := marks
      rw [frames, if_pos starts, if_pos ends] at sentEq
      obtain ⟨same, later⟩ := List.cons.inj sentEq
      have lengths := congrArg List.length same
      rw [sent, part, ByteMem.length_bytes, ByteMem.length_bytes, txLength] at lengths
      exact ⟨⟨of_decide_eq_true starts, of_decide_eq_true ends, by omega, kept⟩,
        (ih rest).mp ⟨later, memEq⟩⟩
    · intro whole
      obtain ⟨⟨starts, ends, fits, kept⟩, later⟩ := whole owned
      obtain ⟨sentEq, memEq⟩ := (ih rest).mpr later
      rw [turn_cons owned, turn_cons owned, writeBack_eq kept]
      refine ⟨?_, memEq⟩
      have first : (part m (.get m s)).first := decide_eq_true starts
      have last : (part m (.get m s)).last := decide_eq_true ends
      rw [frames, if_pos first, if_pos last, sentEq, sent, txLength, Nat.min_eq_left fits]
      rfl

def ring (base rlr : Word) : Nat → Fin 1024 → List Word
  | 0, _ => []
  | n + 1, idx => (base + BitVec.ofNat 32 (16 * idx)) :: ring base rlr n (next rlr idx)

theorem ring_eq {base rlr : Word} {n : Nat} {idx : Fin 1024} (inside : idx < descCount rlr) :
    ring base rlr n idx =
      (List.range n).map fun k => base + BitVec.ofNat 32 (16 * ((idx + k) % descCount rlr)) := by
  induction n generalizing idx with
  | zero => rfl
  | succ n ih =>
    have next : (next rlr idx).val < descCount rlr := Nat.mod_lt _ (descCount_pos rlr)
    rw [ring, ih next, List.range_succ_eq_map, List.map_cons, List.map_map, Nat.add_zero,
      Nat.mod_eq_of_lt inside]
    refine congrArg _ (List.map_congr_left fun k _ => ?_)
    rw [Function.comp_apply, Eth.next, Nat.mod_add_mod, Nat.succ_eq_add_one, Nat.add_right_comm,
      Nat.add_assoc]

theorem pairwise_ring {base rlr : Word} {idx : Fin 1024} (inside : idx < descCount rlr) :
    (ring base rlr (descCount rlr) idx).Pairwise EthDesc.Apart := by
  have few := descCount_le rlr
  rw [ring_eq inside, List.pairwise_map]
  refine List.pairwise_lt_range.imp_of_mem fun {i j} first second before => ?_
  have low := List.mem_range.mp first
  have low' := List.mem_range.mp second
  have left : (idx + i) % descCount rlr < descCount rlr := Nat.mod_lt _ (descCount_pos rlr)
  have right : (idx + j) % descCount rlr < descCount rlr := Nat.mod_lt _ (descCount_pos rlr)
  have other : (idx + i) % descCount rlr ≠ (idx + j) % descCount rlr := by
    rw [Ring.wrap_eq (by omega), Ring.wrap_eq (by omega)]
    split <;> split <;> omega
  exact EthDesc.apart_of_ne base (by omega) (by omega) other

section Ram

variable {μ : Type u} {bus : DmaBus μ} {R : DmaRam bus} {m : μ}

theorem gather_ram (valid : R.Valid m) {des0 : Word} {n j : Nat} (des1 : Word)
    (inRam : ∀ k < n, R.ram (des0 + BitVec.ofNat 32 (4 * ((j + k) / 4)))) :
    ∃ m', gather bus des0 n j des1 m =
        ((List.range n).map fun k => R.byte m (des0 + BitVec.ofNat 32 (j + k)),
          if n = 0 then des1 else (R.byte m).word (des0 + BitVec.ofNat 32 (4 * ((j + n - 1) / 4))),
          m') ∧
      R.Valid m' ∧ R.byte m' = R.byte m := by
  induction n generalizing j des1 m with
  | zero => exact ⟨m, rfl, valid, rfl⟩
  | succ n ih =>
    have here := inRam 0 (Nat.succ_pos n)
    rw [Nat.add_zero] at here
    obtain ⟨m₁, read, valid₁, same⟩ := DmaRam.read32 valid here
    obtain ⟨m₂, rest, valid₂, same'⟩ := ih valid₁ ((R.byte m).word
      (des0 + BitVec.ofNat 32 (4 * (j / 4)))) (j := j + 1) fun k low => by
        rw [Nat.add_assoc, Nat.add_comm 1 k]
        exact inRam (k + 1) (Nat.succ_lt_succ low)
    refine ⟨m₂, ?_, valid₂, same'.trans same⟩
    have byte : (((R.byte m).word (des0 + BitVec.ofNat 32 (4 * (j / 4)))) >>> (8 * (j % 4))).setWidth 8 =
        R.byte m (des0 + BitVec.ofNat 32 j) := by
      rw [ByteMem.byte_word (Nat.mod_lt j (by decide)), BitVec.add_assoc, ← BitVec.ofNat_add,
        Nat.div_add_mod]
    have later : (List.range (n + 1)).map (fun k => R.byte m (des0 + BitVec.ofNat 32 (j + k))) =
        R.byte m (des0 + BitVec.ofNat 32 j) ::
          (List.range n).map fun k => R.byte m (des0 + BitVec.ofNat 32 (j + 1 + k)) := by
      rw [List.range_succ_eq_map, List.map_cons, List.map_map, Nat.add_zero]
      refine congrArg _ (List.map_congr_left fun k _ => ?_)
      rw [Function.comp_apply, Nat.succ_eq_add_one, Nat.add_assoc, Nat.add_comm 1 k]
    have last : (if n = 0 then (R.byte m).word (des0 + BitVec.ofNat 32 (4 * (j / 4)))
        else (R.byte m).word (des0 + BitVec.ofNat 32 (4 * ((j + 1 + n - 1) / 4)))) =
          (R.byte m).word (des0 + BitVec.ofNat 32 (4 * ((j + (n + 1) - 1) / 4))) := by
      split
      · rename_i none
        rw [none]
        rfl
      · rw [Nat.add_assoc j 1 n, Nat.add_comm 1 n]
    simp only [gather, read, rest]
    rw [byte, same, last, later, if_neg (Nat.succ_ne_zero n)]

def Covered (R : DmaRam bus) (m : ByteMem 32) : List Word → Prop
  | [] => True
  | s :: slots => R.Slot s ∧ ((EthDesc.get m s).Owned →
      R.Buffer (EthDesc.get m s).des0 ((EthDesc.get m s).des2 &&& lengthMask).toNat ∧
        Covered R m slots)

theorem Covered.congr {b b' : ByteMem 32} {slots : List Word}
    (same : ∀ t ∈ slots, EthDesc.get b' t = EthDesc.get b t) (covered : Covered R b slots) :
    Covered R b' slots := by
  induction slots with
  | nil => trivial
  | cons s slots ih =>
    rw [Covered, same s (.head slots)]
    refine ⟨covered.1, fun owned => ?_⟩
    obtain ⟨buffer, later⟩ := covered.2 owned
    exact ⟨buffer, ih (fun t mem => same t (.tail s mem)) later⟩

theorem send_ram (valid : R.Valid m) {s : Word} (rlr : Word) (buf : Nat → Byte) (e : Eth)
    (slot : R.Slot s)
    (buffer : R.Buffer (EthDesc.get (R.byte m) s).des0
      ((EthDesc.get (R.byte m) s).des2 &&& lengthMask).toNat) :
    ∃ m', e.send bus rlr buf s (.get (R.byte m) s) m =
        (sent (R.byte m) (.get (R.byte m) s), { e.raise dmacsrTi with txIdx := next rlr e.txIdx }, m') ∧
      R.Valid m' ∧ R.byte m' = writeBack (R.byte m) s := by
  have short : txLength (.get (R.byte m) s) ≤ ((EthDesc.get (R.byte m) s).des2 &&& lengthMask).toNat :=
    Nat.min_le_left _ _
  obtain ⟨m₁, gathered, valid₁, same₁⟩ := gather_ram valid (j := 0) (EthDesc.get (R.byte m) s).des1
    fun k low => by
      rw [Nat.zero_add]
      exact buffer k (Nat.lt_of_lt_of_le low short)
  simp only [Nat.zero_add] at gathered
  have last : (if txLength (.get (R.byte m) s) = 0 then (EthDesc.get (R.byte m) s).des1 else
      (R.byte m).word ((EthDesc.get (R.byte m) s).des0 +
        BitVec.ofNat 32 (4 * ((txLength (.get (R.byte m) s) - 1) / 4)))) =
      scratch (R.byte m) (.get (R.byte m) s) := rfl
  rw [last] at gathered
  obtain ⟨m₂, written, valid₂, same₂⟩ := DmaRam.writeDesc valid₁ slot
    { EthDesc.get (R.byte m) s with
      des1 := scratch (R.byte m) (.get (R.byte m) s)
      des3 := (EthDesc.get (R.byte m) s).des3 &&& ~~~desOwn }
  refine ⟨m₂, ?_, valid₂, by rw [same₂, same₁, EthDesc.put_get]; rfl⟩
  have frame : ((List.range (txLength (.get (R.byte m) s))).map fun j =>
      ((R.byte m).bytes (EthDesc.get (R.byte m) s).des0 (txLength (.get (R.byte m) s))).getD j (buf j)) =
        sent (R.byte m) (.get (R.byte m) s) :=
    List.map_congr_left fun j low => ByteMem.getD_bytes (List.mem_range.mp low) _ _ _
  simp only [send]
  rw [gathered]
  dsimp only
  rw [written]
  exact congrArg (·, _) frame

theorem txLoop_ram (valid : R.Valid m) (base rlr : Word) (buf : Nat → Nat → Byte) (n : Nat)
    (e : Eth)
    (apart : (EthDesc.get (R.byte m) (base + BitVec.ofNat 32 (16 * e.txIdx))).Owned →
      (ring base rlr n e.txIdx).Pairwise EthDesc.Apart)
    (covered : Covered R (R.byte m) (ring base rlr n e.txIdx)) :
    (txLoop bus base rlr buf n e m).1 =
        (turn writeBack sent (R.byte m) (ring base rlr n e.txIdx)).1 ∧
      R.Valid (txLoop bus base rlr buf n e m).2.2 ∧
      R.byte (txLoop bus base rlr buf n e m).2.2 =
        (turn writeBack sent (R.byte m) (ring base rlr n e.txIdx)).2 := by
  induction n generalizing e m with
  | zero => exact ⟨rfl, valid, rfl⟩
  | succ n ih =>
    obtain ⟨slot, later⟩ := covered
    obtain ⟨m₁, read, valid₁, same⟩ := DmaRam.readDesc valid slot
    rw [txLoop, ring]
    dsimp only
    rw [read]
    dsimp only
    by_cases owned : (EthDesc.get (R.byte m) (base + BitVec.ofNat 32 (16 * e.txIdx))).Owned
    case neg =>
      rw [if_pos (not_not.mp owned), turn_stop owned]
      exact ⟨rfl, valid₁, same⟩
    rw [if_neg owned, turn_cons owned]
    obtain ⟨first, rest⟩ := List.pairwise_cons.mp (apart owned)
    obtain ⟨buffer, others⟩ := later owned
    rw [← same] at buffer ⊢
    obtain ⟨m₂, step, valid₂, same₂⟩ := send_ram valid₁ rlr (buf n) e slot buffer
    rw [step]
    dsimp only
    have next := ih valid₂ { e.raise dmacsrTi with txIdx := next rlr e.txIdx } (fun _ => rest)
      (.congr (fun t mem => ?_) others)
    · rw [same₂] at next
      exact ⟨congrArg _ next.1, next.2⟩
    · rw [same₂, same]
      exact get_put_of_apart writeBack_local (first t mem)

def txRing (e : Eth) : List Word :=
  ring (e.reg dmactxdlar) (e.reg dmactxrlr) (descCount (e.reg dmactxrlr)) e.txIdx

def StartsInRing (e : Eth) (b : ByteMem 32) : Prop :=
  e.txIdx < descCount (e.reg dmactxrlr) ∨
    ¬ (EthDesc.get b (e.reg dmactxdlar + BitVec.ofNat 32 (16 * e.txIdx))).Owned

/-- A poll sends the frames that the ring marks, in its order and each once, and only clears the
marks of ownership of the descriptors it takes: those of the ring, up to the first that is not owned
or for one turn. -/
def TransmitsRight (R : DmaRam bus) (buf : Nat → Nat → Byte) (e : Eth) (m : μ) : Prop :=
  if e.txEnabled then
    e.StartsInRing (R.byte m) ∧
      (e.txPoll bus buf m).1 = frames none (turn clearOwn part (R.byte m) e.txRing).1 ∧
      R.byte (e.txPoll bus buf m).2.2 = (turn clearOwn part (R.byte m) e.txRing).2
  else (e.txPoll bus buf m).1 = [] ∧ R.byte (e.txPoll bus buf m).2.2 = R.byte m

theorem transmitsRight_iff (buf : Nat → Nat → Byte) {e : Eth} (valid : R.Valid m)
    (covered : e.txEnabled → Covered R (R.byte m) e.txRing) :
    TransmitsRight R buf e m ↔
      (e.txEnabled → e.StartsInRing (R.byte m) ∧ AllWhole (R.byte m) e.txRing) := by
  by_cases enabled : e.txEnabled
  case neg =>
    rw [TransmitsRight, if_neg enabled, txPoll, if_neg enabled]
    exact iff_of_true ⟨rfl, rfl⟩ fun enabled' => absurd enabled' enabled
  have apart (starts : e.StartsInRing (R.byte m))
      (owned : (EthDesc.get (R.byte m) (e.reg dmactxdlar + BitVec.ofNat 32 (16 * e.txIdx))).Owned) :
      e.txRing.Pairwise EthDesc.Apart :=
    pairwise_ring (starts.resolve_right (not_not_intro owned))
  rw [TransmitsRight, if_pos enabled, txPoll, if_pos enabled, forall_prop_of_true enabled]
  refine and_congr_right fun starts => ?_
  obtain ⟨sentEq, -, memEq⟩ := txLoop_ram valid (e.reg dmactxdlar) (e.reg dmactxrlr) buf
    (descCount (e.reg dmactxrlr)) e (apart starts) (covered enabled)
  rw [sentEq, memEq]
  by_cases owned :
    (EthDesc.get (R.byte m) (e.reg dmactxdlar + BitVec.ofNat 32 (16 * e.txIdx))).Owned
  · exact turn_right_iff (apart starts owned)
  · obtain ⟨k, count⟩ := Nat.exists_eq_add_one.mpr (descCount_pos (e.reg dmactxrlr))
    rw [txRing, count, ring, turn_stop owned, turn_stop owned]
    exact iff_of_true ⟨rfl, rfl⟩ fun owned' => absurd owned' owned

/-- Polls are right exactly where they start in the ring, with descriptors that each hold a whole
frame that fits and whose second word is the one read last. -/
theorem transmits_right_iff (R : DmaRam bus) (buf : Nat → Nat → Byte) {e : Eth} {m : μ}
    (valid : R.Valid m) (covered : e.txEnabled → Covered R (R.byte m) e.txRing) :
    TransmitsRight R buf e m ↔
      (e.txEnabled → e.StartsInRing (R.byte m) ∧ AllWhole (R.byte m) e.txRing) :=
  transmitsRight_iff buf valid covered

end Ram

theorem covered_flat (m : ByteMem 32) (slots : List Word) : Covered flatRam m slots := by
  induction slots with
  | nil => trivial
  | cons s slots ih =>
    exact ⟨⟨trivial, trivial, trivial, trivial⟩, fun _ => ⟨fun _ _ => trivial, ih⟩⟩

instance (m : ByteMem 32) (desc : EthDesc) : Decidable (Whole m desc) :=
  decidable_of_iff (desc.des3 &&& desFd ≠ 0 ∧ desc.des3 &&& desLd ≠ 0 ∧
      (desc.des2 &&& lengthMask).toNat ≤ 1600 ∧ scratch m desc = desc.des1)
    ⟨fun ⟨first, last, fits, kept⟩ => ⟨first, last, fits, kept⟩,
      fun ⟨first, last, fits, kept⟩ => ⟨first, last, fits, kept⟩⟩

instance instDecidableAllWhole : ∀ m slots, Decidable (AllWhole m slots)
  | _, [] => isTrue trivial
  | m, s :: slots =>
    have : Decidable (AllWhole (clearOwn m s) slots) := instDecidableAllWhole (clearOwn m s) slots
    inferInstanceAs (Decidable (_ → _ ∧ _))

instance (e : Eth) (b : ByteMem 32) : Decidable (e.StartsInRing b) :=
  inferInstanceAs (Decidable (_ ∨ ¬ _))

def sending (rlr : Word) : Eth where
  regs i :=
    if i = maccr / 4 then maccrTe
    else if i = dmactxcr / 4 then 1
    else if i = dmactxrlr / 4 then rlr
    else 0
  phyRegs _ := 0
  mac _ := 0
  txIdx := 0
  rxIdx := 0
  ahb1enr := none
  irq := false

def withDescs (des1 : Word) : List Word → ByteMem 32
  | [] => ByteMem.putWord (fun _ => 0) 0x100 0xAB
  | des3 :: before =>
    (⟨0x100, des1, 1, des3⟩ : EthDesc).put (withDescs des1 before)
      (BitVec.ofNat 32 (16 * before.length))

theorem transmits_right_whole :
    TransmitsRight flatRam (fun _ _ => 0) { sending 3 with txIdx := 2 }
      (withDescs 0xAB [0, desOwn ||| desFd ||| desLd, 0, 0]) :=
  (transmits_right_iff flatRam _ trivial fun _ => covered_flat _ _).mpr (by decide +kernel)

/-- A poll changes the second word of a descriptor that holds a frame of its own, and sends a frame
in two descriptors as two frames. -/
theorem transmits_wrong :
    ¬ TransmitsRight flatRam (fun _ _ => 0) (sending 0) (withDescs 0 [desOwn ||| desFd ||| desLd]) ∧
      ¬ TransmitsRight flatRam (fun _ _ => 0) (sending 1)
        (withDescs 0xAB [desOwn ||| desLd, desOwn ||| desFd]) := by
  refine ⟨fun ⟨_, _, same⟩ => ?_, fun ⟨_, same, _⟩ => ?_⟩
  · exact absurd (congrFun same 4) (by decide +kernel)
  · exact absurd same (by decide +kernel)

end Eth

end M33mu
