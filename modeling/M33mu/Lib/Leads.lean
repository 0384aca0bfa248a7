import M33mu.Lib.Run

/-!
Pre- and postconditions of programs that are given by their steps, some of which cannot be taken.
The steps are deterministic, so a postcondition says that the program gets there.
-/

namespace M33mu.Lib

variable {σ : Type u} {step : σ → Option σ} {P Q R : σ → Prop}

def steps (step : σ → Option σ) : Nat → σ → Option σ
  | 0, s => some s
  | n + 1, s => (step s).bind (steps step n)

theorem steps_add {n k : Nat} {s t : σ} (first : steps step n s = some t) :
    steps step (n + k) s = steps step k t := by
  induction n generalizing s with
  | zero =>
    cases first
    rw [Nat.zero_add]
  | succ n ih =>
    rw [steps] at first
    rw [Nat.add_right_comm, steps]
    cases next : step s with
    | none =>
      rw [next, Option.bind_none] at first
      cases first
    | some u =>
      rw [next] at first
      exact ih first

def Leads (step : σ → Option σ) (n : Nat) (P Q : σ → Prop) : Prop :=
  ∀ s, P s → ∃ t, steps step n s = some t ∧ Q t

namespace Leads

theorem refl (step : σ → Option σ) (P : σ → Prop) : Leads step 0 P P := fun s pre => ⟨s, rfl, pre⟩

theorem trans {n k : Nat} (first : Leads step n P Q) (second : Leads step k Q R) :
    Leads step (n + k) P R := by
  intro s pre
  obtain ⟨t, reached, mid⟩ := first s pre
  obtain ⟨u, reached', post⟩ := second t mid
  exact ⟨u, (steps_add reached).trans reached', post⟩

theorem count {c : Nat} {I : Nat → σ → Prop} (body : ∀ k, Leads step c (I (k + 1)) (I k))
    (n : Nat) : Leads step (c * n) (I n) (I 0) := by
  induction n with
  | zero => exact refl step (I 0)
  | succ n ih =>
    rw [Nat.mul_succ, Nat.add_comm]
    exact (body n).trans ih

end Leads

section Follows

variable {τ : Type v} {ι : Type w} {move : τ → ι → τ} {G : τ → ι → Prop} {Shows : τ → σ → Prop}

theorem follows_steps
    (sim : ∀ t s s' i, Shows t s → step s = some s' → G t i → Shows (move t i) s')
    {n : Nat} {s s' : σ} (reached : steps step n s = some s') {t : τ} (shows' : Shows t s)
    {is : List ι} (length : is.length = n) (along : Along move G t is) :
    Shows (run move t is) s' := by
  induction is generalizing n s t with
  | nil =>
    cases length
    cases reached
    exact shows'
  | cons i is ih =>
    cases length
    rw [List.length_cons, steps] at reached
    cases next : step s with
    | none =>
      rw [next, Option.bind_none] at reached
      cases reached
    | some u =>
      rw [next] at reached
      exact ih reached (sim t s u i shows' next along.1) rfl along.2

end Follows

end M33mu.Lib
