import Mathlib.Order.CompletePartialOrder
import Mathlib.Data.Fintype.Order
import Mathlib.Order.BoundedOrder.Basic
import Mathlib.Order.Lattice

namespace M33mu.Lib

variable {σ : Type u} {ε : Type v} {α : Type w} [SemilatticeSup ε] [OrderBot ε]

def cycles (tick : Nat → σ → σ × ε) : Nat → σ → σ × ε
  | 0, s => (s, ⊥)
  | n + 1, s =>
    let r := cycles tick n (tick 1 s).1
    (r.1, (tick 1 s).2 ⊔ r.2)

def Splits (tick : Nat → σ → σ × ε) (s : σ) (a b : Nat) : Prop :=
  tick (a + b) s = ((tick b (tick a s).1).1, (tick a s).2 ⊔ (tick b (tick a s).1).2)

def Halted (tick : Nat → σ → σ × ε) (s : σ) : Prop := ∀ n, tick n s = (s, ⊥)

def SignalsSplit (tick : Nat → σ → σ × ε) : Prop :=
  ∀ s a b, 0 < a → 0 < b → (tick (a + b) s).2 = (tick a s).2 ⊔ (tick b (tick a s).1).2

variable {tick : Nat → σ → σ × ε} {s : σ}

theorem cycles_one : cycles tick 1 s = tick 1 s := by
  simp [cycles]

theorem cycles_succ (n : Nat) : cycles tick (n + 1) s =
    ((tick 1 (cycles tick n s).1).1, (cycles tick n s).2 ⊔ (tick 1 (cycles tick n s).1).2) := by
  induction n generalizing s with
  | zero => simp [cycles]
  | succ n ih =>
    rw [cycles, ih]
    simp only [cycles, sup_assoc]

theorem cycles_snd (splits : SignalsSplit tick) {n : Nat} (hn : 0 < n) :
    (cycles tick n s).2 = (tick n s).2 := by
  induction n generalizing s with
  | zero => cases hn
  | succ n ih =>
    rcases Nat.eq_zero_or_pos n with rfl | pos
    · rw [cycles_one]
    · rw [cycles, ih pos, Nat.add_comm n 1, splits s 1 n Nat.zero_lt_one pos]

theorem cycles_eq_tick {n : Nat} (hn : 0 < n) (splits : ∀ a, 0 < a → a < n → Splits tick s a 1) :
    cycles tick n s = tick n s := by
  induction n with
  | zero => cases hn
  | succ n ih =>
    rcases Nat.eq_zero_or_pos n with rfl | pos
    · rw [cycles_one]
    · rw [cycles_succ, ih pos fun a ha lt => splits a ha (Nat.lt_succ_of_lt lt)]
      exact (splits n pos (Nat.lt_succ_self n)).symm

theorem cycles_of_halted (halted : Halted tick s) (n : Nat) : cycles tick n s = (s, ⊥) := by
  induction n with
  | zero => rfl
  | succ n ih => rw [cycles_succ, ih, halted 1, sup_idem]

theorem cycles_congr {tick' : Nat → σ → σ × ε} {n : Nat}
    (same : ∀ k < n, tick' 1 (cycles tick k s).1 = tick 1 (cycles tick k s).1) :
    cycles tick' n s = cycles tick n s := by
  induction n with
  | zero => rfl
  | succ n ih =>
    rw [cycles_succ, cycles_succ, ih fun k lt => same k (Nat.lt_succ_of_lt lt),
      same n (Nat.lt_succ_self n)]

theorem cycles_add (a b : Nat) : cycles tick (a + b) s =
    ((cycles tick b (cycles tick a s).1).1,
      (cycles tick a s).2 ⊔ (cycles tick b (cycles tick a s).1).2) := by
  induction b with
  | zero => simp [cycles]
  | succ b ih =>
    rw [← Nat.add_assoc, cycles_succ, ih, cycles_succ]
    simp only [sup_assoc]

theorem cycles_of_halts {u n : Nat} (le : u ≤ n) (halts : Halted tick (cycles tick u s).1) :
    cycles tick n s = cycles tick u s := by
  obtain ⟨b, rfl⟩ := Nat.exists_eq_add_of_le le
  rw [cycles_add, cycles_of_halted halts]
  simp

def twice (tick : Nat → σ → σ × ε) (a b : Nat) (s : σ) : σ × ε :=
  ((tick b (tick a s).1).1, (tick a s).2 ⊔ (tick b (tick a s).1).2)

/-- `a` cycles and then `b` signal what `a + b` do and, unless that ends the run, leave the same in
`view`. -/
structure SplitsUnless (tick : Nat → σ → σ × ε) (ends : ε → Prop) (view : σ → α) (a b : Nat)
    (s : σ) : Prop where
  signals : (twice tick a b s).2 = (tick (a + b) s).2
  left : ¬ ends (tick (a + b) s).2 → view (twice tick a b s).1 = view (tick (a + b) s).1

omit [OrderBot ε] in
theorem Splits.unless {a b : Nat} (splits : Splits tick s a b) (ends : ε → Prop) (view : σ → α) :
    SplitsUnless tick ends view a b s :=
  ⟨(congrArg Prod.snd splits).symm, fun _ => (congrArg (fun r => view r.1) splits).symm⟩

omit [OrderBot ε] in
theorem splitsUnless_congr {tick' : Nat → σ → σ × ε} {ends : ε → Prop} {view : σ → α} {a b : Nat}
    (first : tick' a s = tick a s) (second : tick' b (tick a s).1 = tick b (tick a s).1)
    (whole : tick' (a + b) s = tick (a + b) s) :
    SplitsUnless tick' ends view a b s ↔ SplitsUnless tick ends view a b s := by
  have twice_eq : twice tick' a b s = twice tick a b s := by rw [twice, first, second, twice]
  constructor
  · intro splits
    have signals := splits.signals
    have left := splits.left
    rw [twice_eq, whole] at signals left
    exact ⟨signals, left⟩
  · intro splits
    refine ⟨?_, ?_⟩
    · rw [twice_eq, whole]
      exact splits.signals
    · rw [twice_eq, whole]
      exact splits.left

end M33mu.Lib
