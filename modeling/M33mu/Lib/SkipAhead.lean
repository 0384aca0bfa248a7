import Mathlib.Logic.Function.Iterate

namespace M33mu.Lib

variable {σ : Type u} {step fast : σ → σ} {live : σ → Prop} {s t t' : σ}

def Leaves (step : σ → σ) (live : σ → Prop) (s t : σ) : Prop :=
  ∃ k, (∀ j < k, live (step^[j] s)) ∧ ¬ live t ∧ step^[k] s = t

def Jumps (step fast : σ → σ) (live : σ → Prop) (s : σ) : Prop :=
  ∃ n, 0 < n ∧ (∀ j < n, live (step^[j] s)) ∧ fast s = step^[n] s

theorem leaves_of_not_live (out : ¬ live s) : Leaves step live s t ↔ s = t := by
  constructor
  · rintro ⟨_ | k, lives, -, rfl⟩
    · rfl
    · exact absurd (lives 0 (Nat.succ_pos k)) out
  · rintro rfl
    exact ⟨0, fun _ => nofun, out, rfl⟩

theorem le_of_live {k n : Nat} (lives : ∀ j < n, live (step^[j] s)) (out : ¬ live (step^[k] s)) :
    n ≤ k :=
  Nat.le_of_not_lt fun lt => out (lives k lt)

theorem leaves_iterate {n : Nat} (lives : ∀ j < n, live (step^[j] s)) :
    Leaves step live s t ↔ Leaves step live (step^[n] s) t := by
  constructor
  · rintro ⟨k, before, out, rfl⟩
    have le := le_of_live lives out
    refine ⟨k - n, fun j lt => ?_, out, ?_⟩
    · rw [← Function.iterate_add_apply]
      exact before _ (by omega)
    · rw [← Function.iterate_add_apply, Nat.sub_add_cancel le]
  · rintro ⟨k, before, out, rfl⟩
    refine ⟨k + n, fun j lt => ?_, out, Function.iterate_add_apply _ _ _ _⟩
    by_cases early : j < n
    · exact lives j early
    · rw [← Nat.sub_add_cancel (Nat.le_of_not_lt early), Function.iterate_add_apply]
      exact before _ (by omega)

theorem leaves_step (lives : live s) : Leaves step live s t ↔ Leaves step live (step s) t :=
  leaves_iterate (n := 1) fun j lt => by
    obtain rfl : j = 0 := by omega
    exact lives

theorem Leaves.unique (h : Leaves step live s t) (h' : Leaves step live s t') : t = t' := by
  obtain ⟨k, lives, out, rfl⟩ := h
  exact (leaves_of_not_live out).mp ((leaves_iterate lives).mp h')

theorem Leaves.keeps {I : σ → Prop} (keeps : ∀ s, live s → I s → I (step s)) (first : I s)
    (h : Leaves step live s t) : I t := by
  obtain ⟨k, lives, -, rfl⟩ := h
  induction k with
  | zero => exact first
  | succ k ih =>
    rw [Function.iterate_succ_apply']
    exact keeps _ (lives k (Nat.lt_succ_self k)) (ih fun j lt => lives j (Nat.lt_succ_of_lt lt))

theorem not_leaves_of_invariant {I : σ → Prop} (keeps : ∀ s, I s → live s ∧ I (step s))
    (first : I s) : ¬ Leaves step live s t := fun h =>
  h.choose_spec.2.1 (keeps t (h.keeps (fun s _ hs => (keeps s hs).2) first)).1

def Agree (step fast : σ → σ) (live : σ → Prop) (s : σ) : Prop :=
  ∀ t, Leaves fast live s t ↔ Leaves step live s t

theorem agree_of_not_live (out : ¬ live s) : Agree step fast live s := fun _ =>
  (leaves_of_not_live out).trans (leaves_of_not_live out).symm

namespace Jumps

variable (jumps : Jumps step fast live s)
include jumps

theorem live_start : live s := by
  obtain ⟨n, pos, through, -⟩ := jumps
  exact through 0 pos

theorem leaves_iff : Leaves step live (fast s) t ↔ Leaves step live s t := by
  obtain ⟨n, -, through, eq⟩ := jumps
  rw [eq, leaves_iterate through]

theorem agree_iff : Agree step fast live (fast s) ↔ Agree step fast live s :=
  forall_congr' fun _ => iff_congr (leaves_step jumps.live_start).symm jumps.leaves_iff

end Jumps

/-- A loop each of whose steps jumps ahead in another one agrees with it. A step after which the
two are known to agree needs not. -/
theorem agree_of_jumps (jumps : ∀ k, (∀ j ≤ k, live (fast^[j] s)) →
      Jumps step fast live (fast^[k] s) ∨ Agree step fast live (fast^[k] s)) :
    Agree step fast live s := by
  have tail (s : σ) (lives : live s) (jumps : ∀ k, (∀ j ≤ k, live (fast^[j] s)) →
      Jumps step fast live (fast^[k] s) ∨ Agree step fast live (fast^[k] s)) :
      (Jumps step fast live s ∨ Agree step fast live s) ∧
        ∀ k, (∀ j ≤ k, live (fast^[j] (fast s))) →
          Jumps step fast live (fast^[k] (fast s)) ∨ Agree step fast live (fast^[k] (fast s)) := by
    refine ⟨jumps 0 fun j le => ?_, fun k lives' => jumps (k + 1) fun j le => ?_⟩
    · obtain rfl : j = 0 := by omega
      exact lives
    · cases j with
      | zero => exact lives
      | succ j => exact lives' j (Nat.le_of_succ_le_succ le)
  refine fun t => ⟨?_, ?_⟩
  · rintro ⟨k, lives, out, rfl⟩
    -- on the steps of the faster loop
    induction k generalizing s with
    | zero => exact (leaves_of_not_live out).mpr rfl
    | succ k ih =>
      have start := lives 0 (Nat.succ_pos k)
      obtain ⟨first | agree, rest⟩ := tail s start jumps
      · exact first.leaves_iff.mp
          (ih rest (fun j lt => lives (j + 1) (Nat.succ_lt_succ lt)) out)
      · exact (agree _).mp ⟨k + 1, lives, out, rfl⟩
  · rintro ⟨k, before, out, rfl⟩
    -- on the steps that are left to the loop that is jumped ahead in
    induction k using Nat.strongRecOn generalizing s with
    | _ k ih =>
      by_cases start : live s
      · obtain ⟨first | agree, rest⟩ := tail s start jumps
        · obtain ⟨n, pos, through, eq⟩ := first
          have le := le_of_live through out
          have same : step^[k - n] (fast s) = step^[k] s := by
            rw [eq, ← Function.iterate_add_apply, Nat.sub_add_cancel le]
          rw [leaves_step start, ← same]
          refine ih (k - n) (by omega) rest (fun j lt => ?_) (same ▸ out)
          rw [eq, ← Function.iterate_add_apply]
          exact before _ (by omega)
        · exact (agree _).mpr ⟨k, before, out, rfl⟩
      · exact (leaves_of_not_live start).mpr ((leaves_of_not_live start).mp
          ⟨k, before, out, rfl⟩)

theorem Agree.iterate
    (jumps : ∀ s, live s → Agree step fast live s → Leaves step live s t → Jumps step fast live s)
    (agree : Agree step fast live s) (left : Leaves step live s t) {k : Nat}
    (lives : ∀ j < k, live (fast^[j] s)) :
    Agree step fast live (fast^[k] s) ∧ Leaves step live (fast^[k] s) t := by
  induction k with
  | zero => exact ⟨agree, left⟩
  | succ k ih =>
    obtain ⟨agree, left⟩ := ih fun j lt => lives j (Nat.lt_succ_of_lt lt)
    have jump := jumps _ (lives k (Nat.lt_succ_self k)) agree left
    rw [Function.iterate_succ_apply']
    exact ⟨jump.agree_iff.mpr agree, jump.leaves_iff.mpr left⟩

end M33mu.Lib
