import Mathlib.Data.List.Infix
import M33mu.Lib.Run

namespace M33mu.Lib

section Since

variable {σ : Type u} {ι : Type v} (step : σ → ι → σ) (sets clears : σ → ι → Prop)

def Since (s : σ) (is : List ι) : Prop :=
  ∃ pre i post, is = pre ++ i :: post ∧ sets (run step s pre) i ∧
    Along step (fun t j => ¬ clears t j) (step (run step s pre) i) post

/-- After the step the flag is set if the step sets it, or it was set and the step does not clear
it. -/
def Latches (flag : σ → Prop) (s : σ) (i : ι) : Prop :=
  flag (step s i) ↔ sets s i ∨ flag s ∧ ¬ clears s i

def Tells (flag : σ → Prop) (s : σ) (is : List ι) : Prop :=
  ∀ pre, pre <+: is → (flag (run step s pre) ↔ Since step sets clears s pre)

variable {step sets clears} {flag : σ → Prop} {s : σ}

theorem not_since_nil : ¬ Since step sets clears s [] := by
  rintro ⟨pre, i, post, split, -⟩
  exact List.append_ne_nil_of_right_ne_nil _ (List.cons_ne_nil _ _) split.symm

theorem since_concat {is : List ι} {i : ι} :
    Since step sets clears s (is ++ [i]) ↔
      sets (run step s is) i ∨ Since step sets clears s is ∧ ¬ clears (run step s is) i := by
  constructor
  · rintro ⟨pre, j, post, split, set, kept⟩
    rcases List.eq_nil_or_concat post with rfl | ⟨post, k, rfl⟩
    · obtain ⟨rfl, same⟩ := List.append_inj' split rfl
      obtain rfl : i = j := List.head_eq_of_cons_eq same
      exact .inl set
    · rw [List.concat_eq_append, ← List.cons_append, ← List.append_assoc] at split
      obtain ⟨rfl, same⟩ := List.append_inj' split rfl
      obtain rfl : i = k := List.head_eq_of_cons_eq same
      rw [List.concat_eq_append, along_append] at kept
      refine .inr ⟨⟨pre, j, post, rfl, set, kept.1⟩, ?_⟩
      rw [run_append]
      exact kept.2.1
  · rintro (set | ⟨⟨pre, j, post, rfl, set, kept⟩, here⟩)
    · exact ⟨is, i, [], rfl, set, trivial⟩
    · refine ⟨pre, j, post ++ [i], by rw [List.append_assoc, List.cons_append], set, ?_⟩
      rw [run_append] at here
      exact along_append.mpr ⟨kept, here, trivial⟩

theorem tells_iff_along (start : ¬ flag s) (is : List ι) :
    Tells step sets clears flag s is ↔ Along step (Latches step sets clears flag) s is := by
  induction is using List.reverseRecOn with
  | nil =>
    refine iff_of_true (fun pre prefix' => ?_) trivial
    rw [List.prefix_nil.mp prefix']
    exact iff_of_false start not_since_nil
  | append_singleton is i ih =>
    have next : run step s (is ++ [i]) = step (run step s is) i := run_append s is [i]
    rw [along_append, ← ih]
    constructor
    · intro tells
      have before : Tells step sets clears flag s is := fun pre part =>
        tells pre (part.trans (List.prefix_append is [i]))
      have after := tells (is ++ [i]) (List.prefix_refl _)
      rw [next, since_concat, ← before is (List.prefix_refl _)] at after
      exact ⟨before, after, trivial⟩
    · rintro ⟨before, latches, -⟩ pre part
      rcases List.prefix_concat_iff.mp part with rfl | part
      · rw [next, since_concat, ← before is (List.prefix_refl _)]
        exact latches
      · exact before pre part

end Since

end M33mu.Lib
