import Mathlib.Data.List.Basic

namespace M33mu.Lib

variable {α : Type u}

/-- An answer to a request: text with more to come, the last of the text, or neither. -/
inductive Chunk (α : Type u)
  | more (data : List α)
  | last (data : List α)
  | refused

/-- A chunk that begins what is left of the text, and is marked last where it is all of it. -/
def Chunk.Right (left : List α) : Chunk α → Prop
  | .more data => data <+: left ∧ data ≠ left
  | .last data => data = left
  | .refused => False

inductive Transfer (α : Type u)
  | reading (received : List α)
  | finished (text : List α)
  | failed

namespace Transfer

def next (serve : Nat → Chunk α) : Transfer α → Transfer α
  | reading received =>
    match serve received.length with
    | .more data => reading (received ++ data)
    | .last data => finished (received ++ data)
    | .refused => failed
  | finished text => finished text
  | failed => failed

variable (serve : Nat → Nat → Chunk α)

def after : Nat → Transfer α
  | 0 => reading []
  | n + 1 => next (serve n) (after n)

variable {serve} {text : List α}

theorem finished_mono {n m : Nat} (order : n ≤ m) (done : after serve n = finished text) :
    after serve m = finished text := by
  induction order with
  | refl => exact done
  | step _ ih => rw [after, ih, next]

theorem failed_mono {n m : Nat} (order : n ≤ m) (down : after serve n = failed) :
    after serve m = failed := by
  induction order with
  | refl => exact down
  | step _ ih => rw [after, ih, next]

/-- A transfer with a request that is refused never finishes. -/
theorem not_finished_of_refused {n : Nat} {received : List α}
    (reads : after serve n = reading received)
    (refused : serve n received.length = .refused) (m : Nat) : after serve m ≠ finished text := by
  intro done
  have down : after serve (n + 1) = failed := by
    rw [after, reads, next, refused]
  rcases Nat.le_total m n with before | later
  · rw [finished_mono before done] at reads
    exact nomatch reads
  · have both := failed_mono (Nat.le_add_right (n + 1) m) down
    rw [finished_mono (by omega) done] at both
    exact nomatch both

theorem exists_finished
    (right : ∀ n received, after serve n = reading received → received <+: text →
      (serve n received.length).Right (text.drop received.length))
    (grows : ∀ n received data, after serve n = reading received →
      serve n received.length = .more data → data ≠ []) :
    ∃ n, after serve n = finished text := by
  suffices ∀ left n received, after serve n = reading received → received <+: text →
      text.length - received.length = left → ∃ n, after serve n = finished text from
    this _ 0 [] rfl List.nil_prefix rfl
  intro left
  -- on the text that is left
  induction left using Nat.strongRecOn with
  | ind left ih =>
    rintro n received reads ⟨rest, rfl⟩ size
    have this := right n received reads ⟨rest, rfl⟩
    rw [List.drop_left] at this
    cases chunk : serve n received.length with
    | more data =>
      rw [chunk] at this
      obtain ⟨⟨later, is⟩, -⟩ := this
      have some := List.length_pos_of_ne_nil (grows n received data reads chunk)
      subst is
      simp only [List.length_append] at size
      refine ih (left - data.length) (by omega) (n + 1) (received ++ data) ?_ ?_ ?_
      · rw [after, reads, next, chunk]
      · exact ⟨later, List.append_assoc ..⟩
      · simp only [List.length_append]
        omega
    | last data =>
      rw [chunk] at this
      obtain rfl : data = rest := this
      refine ⟨n + 1, ?_⟩
      rw [after, reads, next, chunk]
    | refused =>
      rw [chunk] at this
      exact this.elim

end Transfer

end M33mu.Lib
