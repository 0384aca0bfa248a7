import Mathlib.Order.Lattice
import Mathlib.Data.List.Induction
import Mathlib.Order.Defs.LinearOrder

namespace M33mu.Lib

variable {α : Type u} {κ : Type v} [LinearOrder κ] {ok : α → Bool} {cost : α → κ}

def keepBest (ok : α → Bool) (cost : α → κ) (best : Option α) (a : α) : Option α :=
  if ok a && best.all (fun b => decide (cost a < cost b)) then some a else best

def IsBest (ok : α → Bool) (cost : α → κ) (seen : List α) : Option α → Prop
  | none => ∀ a ∈ seen, ok a = false
  | some b => b ∈ seen ∧ ok b = true ∧ ∀ a ∈ seen, ok a = true → cost b ≤ cost a

theorem IsBest.keepBest {seen : List α} {best : Option α} (h : IsBest ok cost seen best) (a : α) :
    IsBest ok cost (seen ++ [a]) (keepBest ok cost best a) := by
  have last {p : α → Prop} (past : ∀ c ∈ seen, p c) (new : p a) : ∀ c ∈ seen ++ [a], p c := by
    simpa [or_imp, forall_and] using And.intro past new
  cases best with
  | none =>
    cases accepted : ok a with
    | false => simpa [Lib.keepBest, accepted, IsBest] using last h accepted
    | true =>
      have kept : Lib.keepBest ok cost none a = some a := by simp [Lib.keepBest, accepted]
      rw [kept]
      refine ⟨by simp, accepted, last (fun c mem yes => ?_) fun _ => le_refl _⟩
      exact absurd ((h c mem).symm.trans yes) nofun
  | some b =>
    obtain ⟨mem, yes, least⟩ := h
    by_cases cheaper : ok a = true ∧ cost a < cost b
    · have kept : Lib.keepBest ok cost (some b) a = some a := by simp [Lib.keepBest, cheaper]
      rw [kept]
      refine ⟨by simp, cheaper.1, last (fun c mem yes => ?_) fun _ => le_refl _⟩
      exact le_trans (le_of_lt cheaper.2) (least c mem yes)
    · have kept : Lib.keepBest ok cost (some b) a = some b := by
        simpa [Lib.keepBest] using fun accepted less => absurd ⟨accepted, less⟩ cheaper
      rw [kept]
      refine ⟨List.mem_append_left _ mem, yes, last least fun accepted => ?_⟩
      exact le_of_not_gt fun less => cheaper ⟨accepted, less⟩

variable (ok cost) in
theorem isBest_foldl (l : List α) : IsBest ok cost l (l.foldl (keepBest ok cost) none) := by
  induction l using List.reverseRecOn with
  | nil => exact nofun
  | append_singleton l a ih =>
    rw [List.foldl_append]
    exact ih.keepBest a

theorem first_foldl {before : α → α → Prop} {l : List α} (sorted : l.Pairwise before) {b : α}
    (best : l.foldl (keepBest ok cost) none = some b) :
    ∀ a ∈ l, ok a = true → cost a = cost b → a = b ∨ before b a := by
  induction l using List.reverseRecOn generalizing b with
  | nil => exact nofun
  | append_singleton l x ih =>
    have least := isBest_foldl ok cost l
    obtain ⟨sorted, -, ordered⟩ := List.pairwise_append.mp sorted
    rw [List.foldl_append, List.foldl_cons, List.foldl_nil, keepBest] at best
    split at best
    · rename_i accepted
      obtain rfl : x = b := Option.some.inj best
      intro a mem yes same
      rcases List.mem_append.mp mem with past | last
      · simp only [Bool.and_eq_true, Option.all_eq_true, decide_eq_true_eq] at accepted
        cases kept : l.foldl (keepBest ok cost) none with
        | none =>
          rw [kept] at least
          exact nomatch yes.symm.trans (least a past)
        | some c =>
          rw [kept] at least
          have cheaper := lt_of_lt_of_le (accepted.2 c kept) (least.2.2 a past yes)
          exact absurd same.symm (ne_of_lt cheaper)
      · exact .inl (List.mem_singleton.mp last)
    · intro a mem yes same
      rcases List.mem_append.mp mem with past | last
      · exact ih sorted best a past yes same
      · rw [best] at least
        exact .inr (ordered b least.1 a last)

theorem find_first {before : α → α → Prop} {l : List α} (sorted : l.Pairwise before) {p : α → Bool}
    {b : α} (found : l.find? p = some b) : ∀ a ∈ l, p a = true → a = b ∨ before b a := by
  obtain ⟨-, skipped, rest, rfl, none⟩ := List.find?_eq_some_iff_append.mp found
  obtain ⟨-, sorted, -⟩ := List.pairwise_append.mp sorted
  intro a mem yes
  rcases List.mem_append.mp mem with past | here
  · exact absurd yes (by simpa using none a past)
  · rcases List.mem_cons.mp here with same | later
    · exact .inl same
    · exact .inr ((List.pairwise_cons.mp sorted).1 a later)

end M33mu.Lib
