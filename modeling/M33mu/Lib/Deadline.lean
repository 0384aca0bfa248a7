import M33mu.Lib.Run

namespace M33mu.Lib

variable {σ : Type u} {ρ : Type v}

structure Deadline (tick : Nat → σ → σ × Bool) (budget : σ → Option Nat) : Prop where
  fires : ∀ s n, (tick n s).2 = true ↔ ∃ e ∈ budget s, e ≤ n
  after : ∀ s n, (tick n s).2 = false → budget (tick n s).1 = (budget s).map (· - n)

structure Patient (tick : Nat → σ → σ × Bool) (budget : σ → Option Nat) : Prop where
  quiet : ∀ s n, (∀ e ∈ budget s, n < e) → (tick n s).2 = false
  left : ∀ s n, (∀ e ∈ budget s, n < e) → ∀ e' ∈ budget (tick n s).1, ∃ e ∈ budget s, e ≤ e' + n

/-- `tick` may lose cycles: it advances as `advance` does by so many as leave no less. -/
def Loses (tick advance : Nat → σ → σ × Bool) (budget : σ → Option Nat) : Prop :=
  ∀ s n, (∀ e ∈ budget s, n < e) → ∃ s₀ m, tick n s = advance m s₀ ∧
    ∀ e₀ ∈ budget s₀, ∃ e ∈ budget s, e + m ≤ e₀ + n

theorem Deadline.patient {tick advance : Nat → σ → σ × Bool} {budget : σ → Option Nat}
    (deadline : Deadline advance budget) (loses : Loses tick advance budget) :
    Patient tick budget := by
  have early : ∀ s n, (∀ e ∈ budget s, n < e) → ∃ s₀ m, tick n s = advance m s₀ ∧
      (∀ e₀ ∈ budget s₀, ∃ e ∈ budget s, e + m ≤ e₀ + n) ∧ (advance m s₀).2 = false := by
    intro s n inTime
    obtain ⟨s₀, m, eq, left⟩ := loses s n inTime
    refine ⟨s₀, m, eq, left, ?_⟩
    rw [← Bool.not_eq_true, deadline.fires]
    rintro ⟨e₀, mem₀, passed⟩
    obtain ⟨e, mem, le⟩ := left e₀ mem₀
    have := inTime e mem
    omega
  refine ⟨fun s n inTime => ?_, fun s n inTime e' mem' => ?_⟩
  · obtain ⟨s₀, m, eq, -, quiet⟩ := early s n inTime
    rw [eq, quiet]
  · obtain ⟨s₀, m, eq, left, quiet⟩ := early s n inTime
    rw [eq, deadline.after s₀ m quiet] at mem'
    obtain ⟨e₀, mem₀, rfl⟩ := Option.map_eq_some_iff.mp mem'
    obtain ⟨e, mem, le⟩ := left e₀ mem₀
    have late : ¬ e₀ ≤ m := fun passed =>
      absurd ((deadline.fires s₀ m).mpr ⟨e₀, mem₀, passed⟩) (by rw [quiet]; exact Bool.false_ne_true)
    exact ⟨e, mem, by omega⟩

inductive Refreshing (ρ : Type v)
  | tick (n : Nat)
  | refresh (r : ρ)

/-- A component, whether it has fired, the cycles since it was refreshed, and those it had then. -/
structure Watched (σ : Type u) where
  state : σ
  fired : Bool
  since : Nat
  limit : Option Nat

def Watched.start (budget : σ → Option Nat) (s : σ) : Watched σ := ⟨s, false, 0, budget s⟩

def watch (tick : Nat → σ → σ × Bool) (refresh : ρ → σ → σ) (budget : σ → Option Nat)
    (w : Watched σ) : Refreshing ρ → Watched σ
  | .tick n =>
    { w with
      state := (tick n w.state).1
      fired := w.fired || (tick n w.state).2
      since := w.since + n }
  | .refresh r =>
    { w with
      state := refresh r w.state
      since := 0
      limit := budget (refresh r w.state) }

def Watched.InTime (w : Watched σ) : Refreshing ρ → Prop
  | .tick n => ∀ e ∈ w.limit, w.since + n < e
  | .refresh _ => True

variable {tick : Nat → σ → σ × Bool} {refresh : ρ → σ → σ} {budget : σ → Option Nat}

/-- What is left is no less than what the last refresh gave, less the cycles since. -/
structure Watched.Kept (budget : σ → Option Nat) (w : Watched σ) : Prop where
  quiet : w.fired = false
  left : ∀ e' ∈ budget w.state, ∃ e ∈ w.limit, e ≤ e' + w.since

theorem Watched.kept_start (s : σ) : (Watched.start budget s).Kept budget where
  quiet := rfl
  left := fun e mem => ⟨e, mem, Nat.le_refl e⟩

theorem Watched.Kept.watch (patient : Patient tick budget) {w : Watched σ} (kept : w.Kept budget)
    {op : Refreshing ρ} (inTime : w.InTime op) : (watch tick refresh budget w op).Kept budget := by
  cases op with
  | tick n =>
    have early : ∀ e' ∈ budget w.state, n < e' := by
      intro e' mem'
      obtain ⟨e, mem, le⟩ := kept.left e' mem'
      have := inTime e mem
      omega
    refine ⟨?_, fun e'' mem'' => ?_⟩
    · simp only [Lib.watch, kept.quiet, patient.quiet _ n early, Bool.or_self]
    · obtain ⟨e', mem', le'⟩ := patient.left _ n early e'' mem''
      obtain ⟨e, mem, le⟩ := kept.left e' mem'
      refine ⟨e, mem, ?_⟩
      simp only [Lib.watch]
      omega
  | refresh r => exact ⟨kept.quiet, fun e mem => ⟨e, mem, Nat.le_refl e⟩⟩

theorem Watched.Kept.run (patient : Patient tick budget) {w : Watched σ} (kept : w.Kept budget)
    (ops : List (Refreshing ρ))
    (inTime : Along (Lib.watch tick refresh budget) Watched.InTime w ops) :
    (Lib.run (Lib.watch tick refresh budget) w ops).Kept budget := by
  induction ops generalizing w with
  | nil => exact kept
  | cons op ops ih =>
    rw [along_cons] at inTime
    rw [run_cons]
    exact ih (kept.watch patient inTime.1) inTime.2

theorem Patient.not_fired (patient : Patient tick budget) (s : σ) (ops : List (Refreshing ρ))
    (inTime : Along (watch tick refresh budget) Watched.InTime (Watched.start budget s) ops) :
    (run (watch tick refresh budget) (Watched.start budget s) ops).fired = false :=
  ((Watched.kept_start s).run patient ops inTime).quiet

end M33mu.Lib
