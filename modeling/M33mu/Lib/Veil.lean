import M33mu.Lib.Run

/-!
Noninterference by rewriting. A veil rewrites the part of a state that an observer must not
learn; what cannot tell commutes with it for as long as the observer is in charge.
-/

namespace M33mu.Lib

structure Veil (σ : Type u) where
  /-- The observer is in charge. -/
  low : σ → Prop
  /-- What keeps the hidden part out of reach. -/
  inv : σ → Prop
  blur : σ → σ

namespace Veil

variable {σ : Type u} {β : Type v} {γ : Type w} {ι : Type x} {V : Veil σ}

structure Veiled (V : Veil σ) (s s' : σ) : Prop where
  low : V.low s' ↔ V.low s
  inv : V.low s → V.inv s
  eq : V.low s → s' = V.blur s

structure Agree (V : Veil σ) (o o' : β × σ) : Prop extends V.Veiled o.2 o'.2 where
  output : V.low o.2 → o'.1 = o.1

/-- From a state inside and from its rewriting, the step leads to veiled states. -/
def Blind (V : Veil σ) (f : σ → σ) : Prop := ∀ s, V.low s → V.inv s → V.Veiled (f s) (f (V.blur s))

def BlindTo (V : Veil σ) (f : σ → β × σ) : Prop :=
  ∀ s, V.low s → V.inv s → V.Agree (f s) (f (V.blur s))

/-- Once the observer is not in charge, the step does not put it in charge again. -/
def StaysOut (V : Veil σ) (f : σ → σ) : Prop := ∀ s, ¬ V.low s → ¬ V.low (f s)

theorem Veiled.of_out {s s' : σ} (out : ¬ V.low s) (out' : ¬ V.low s') : V.Veiled s s' :=
  ⟨iff_of_false out' out, fun low => absurd low out, fun low => absurd low out⟩

theorem Veiled.then {s s' : σ} {f : σ → σ} (h : V.Veiled s s') (blind : V.Blind f)
    (out : V.StaysOut f) : V.Veiled (f s) (f s') := by
  by_cases low : V.low s
  · rw [h.eq low]
    exact blind s low (h.inv low)
  · exact .of_out (out s low) (out s' (mt h.low.mp low))

theorem Agree.then {o o' : β × σ} {k : β → σ → γ × σ} (h : V.Agree o o')
    (blind : ∀ b, V.BlindTo (k b)) (out : ∀ b, V.StaysOut fun s => (k b s).2) :
    V.Agree (k o.1 o.2) (k o'.1 o'.2) := by
  by_cases low : V.low o.2
  · rw [h.eq low, h.output low]
    exact blind o.1 o.2 low (h.inv low)
  · have gone := out o.1 o.2 low
    exact ⟨.of_out gone (out o'.1 o'.2 (mt h.low.mp low)), fun back => absurd back gone⟩

theorem Agree.of_veiled {s s' : σ} (h : V.Veiled s s') (b : β) : V.Agree (b, s) (b, s') :=
  ⟨h, fun _ => rfl⟩

theorem run_blur {step : σ → ι → σ} {P : ι → Prop} (blind : ∀ i, P i → V.Blind (step · i)) {s : σ}
    {is : List ι} (admitted : ∀ i ∈ is, P i) (inv : V.inv s) (low : Throughout step V.low s is) :
    run step (V.blur s) is = V.blur (run step s is) := by
  induction is generalizing s with
  | nil => rfl
  | cons i is ih =>
    have first := blind i (admitted i (.head is)) s low.1 inv
    have next : V.low (step s i) := low.2.head
    have same : step (V.blur s) i = V.blur (step s i) := first.eq next
    rw [run_cons, run_cons, same]
    exact ih (fun j later => admitted j (.tail i later)) (first.inv next) low.2

theorem throughout_blur_eq_self {step : σ → ι → σ} {P : ι → Prop}
    (blind : ∀ i, P i → V.Blind (step · i)) {s : σ} {is : List ι} (admitted : ∀ i ∈ is, P i)
    (inv : V.inv s) (low : Throughout step V.low s is) (same : V.blur s = s) :
    Throughout step (fun t => V.inv t ∧ V.blur t = t) s is := by
  induction is generalizing s with
  | nil => exact ⟨inv, same⟩
  | cons i is ih =>
    have first := blind i (admitted i (.head is)) s low.1 inv
    have next : V.low (step s i) := low.2.head
    have stays : V.blur (step s i) = step s i := by
      have moved : step (V.blur s) i = V.blur (step s i) := first.eq next
      rw [← moved, same]
    exact ⟨⟨inv, same⟩, ih (fun j later => admitted j (.tail i later)) (first.inv next) low.2 stays⟩

end Veil

end M33mu.Lib
