namespace M33mu.Lib

variable {κ : Type u}

def Marks (tracked marked : κ → Prop) (stack : List κ) : Prop :=
  ∀ k, tracked k → (marked k ↔ k ∈ stack)

def mark (marked : κ → Prop) (k : κ) : κ → Prop := fun j => marked j ∨ j = k

theorem mark_eq {marked : κ → Prop} {k : κ} (already : marked k) : mark marked k = marked := by
  funext j
  apply propext
  refine ⟨fun marks => ?_, .inl⟩
  rcases marks with marks | rfl
  · exact marks
  · exact already

namespace Marks

variable {tracked marked marked' : κ → Prop} {stack : List κ} {k : κ}

theorem congr (right : Marks tracked marked stack)
    (same : ∀ j, tracked j → (marked' j ↔ marked j)) : Marks tracked marked' stack :=
  fun j track => (same j track).trans (right j track)

theorem push (right : Marks tracked marked stack) (k : κ) :
    Marks tracked (mark marked k) (k :: stack) := by
  intro j track
  rw [mark, right j track, List.mem_cons, or_comm]

theorem again (right : Marks tracked marked stack) (already : tracked k → marked k) :
    Marks tracked (mark marked k) stack := by
  apply right.congr
  intro j track
  refine ⟨fun marks => ?_, .inl⟩
  rcases marks with marks | rfl
  · exact marks
  · exact already track

/-- Where the innermost ends and its mark stays, the marks are right exactly if it is not tracked
or is under way further out. -/
theorem tail_iff (right : Marks tracked marked (k :: stack)) :
    Marks tracked marked stack ↔ (tracked k → k ∈ stack) := by
  constructor
  · intro left track
    exact (left k track).mp ((right k track).mpr List.mem_cons_self)
  · intro within j track
    rw [right j track, List.mem_cons]
    refine ⟨fun mem => ?_, .inr⟩
    rcases mem with rfl | mem
    · exact within track
    · exact mem

end Marks

end M33mu.Lib
