/-!
Runs of a deterministic step function over a list of inputs, and the two ways of lifting a
fact about one step to a whole run: a guarded invariant, and a pair of runs kept related.
-/

namespace M33mu.Lib

section Run

variable {σ : Type u} {ι : Type v} {step : σ → ι → σ} {P : σ → ι → Prop}

def run (step : σ → ι → σ) (s : σ) (is : List ι) : σ := is.foldl step s

def Along (step : σ → ι → σ) (P : σ → ι → Prop) : σ → List ι → Prop
  | _, [] => True
  | s, i :: is => P s i ∧ Along step P (step s i) is

/-- `Q` holds in every state the run passes through, its first and last included. -/
def Throughout (step : σ → ι → σ) (Q : σ → Prop) : σ → List ι → Prop
  | s, [] => Q s
  | s, i :: is => Q s ∧ Throughout step Q (step s i) is

instance instDecidableAlong [∀ s i, Decidable (P s i)] : ∀ s is, Decidable (Along step P s is)
  | _, [] => isTrue trivial
  | s, i :: is =>
    have : Decidable (Along step P (step s i) is) := instDecidableAlong (step s i) is
    inferInstanceAs (Decidable (P s i ∧ Along step P (step s i) is))

@[simp] theorem run_nil (s : σ) : run step s [] = s := rfl

@[simp] theorem run_cons (s : σ) (i : ι) (is : List ι) :
    run step s (i :: is) = run step (step s i) is := rfl

theorem run_append (s : σ) (is js : List ι) :
    run step s (is ++ js) = run step (run step s is) js :=
  List.foldl_append

@[simp] theorem along_nil (s : σ) : Along step P s [] := trivial

@[simp] theorem along_cons (s : σ) (i : ι) (is : List ι) :
    Along step P s (i :: is) ↔ P s i ∧ Along step P (step s i) is := Iff.rfl

theorem along_of_forall (h : ∀ s i, P s i) {s : σ} {is : List ι} : Along step P s is := by
  induction is generalizing s with
  | nil => trivial
  | cons i is ih => exact ⟨h s i, ih⟩

theorem along_of_mem {P : ι → Prop} {s : σ} {is : List ι} (h : ∀ i ∈ is, P i) :
    Along step (fun _ i => P i) s is := by
  induction is generalizing s with
  | nil => trivial
  | cons i is ih => exact ⟨h i (.head is), ih fun j later => h j (.tail i later)⟩

theorem along_append {s : σ} {is js : List ι} :
    Along step P s (is ++ js) ↔ Along step P s is ∧ Along step P (run step s is) js := by
  induction is generalizing s with
  | nil => simp
  | cons i is ih => simp only [List.cons_append, along_cons, run_cons, ih, and_assoc]

theorem Along.imp {Q : σ → ι → Prop} (hPQ : ∀ s i, P s i → Q s i) {s : σ} {is : List ι}
    (h : Along step P s is) : Along step Q s is := by
  induction is generalizing s with
  | nil => trivial
  | cons i is ih => exact ⟨hPQ _ _ h.1, ih h.2⟩

theorem Along.and {Q : σ → ι → Prop} {s : σ} {is : List ι} (h : Along step P s is)
    (h' : Along step Q s is) : Along step (fun s i => P s i ∧ Q s i) s is := by
  induction is generalizing s with
  | nil => trivial
  | cons i is ih => exact ⟨⟨h.1, h'.1⟩, ih h.2 h'.2⟩

theorem along_and {Q : σ → ι → Prop} {s : σ} {is : List ι} :
    Along step (fun s i => P s i ∧ Q s i) s is ↔ Along step P s is ∧ Along step Q s is :=
  ⟨fun h => ⟨h.imp fun _ _ => And.left, h.imp fun _ _ => And.right⟩, fun h => h.1.and h.2⟩

theorem along_forall {κ : Type w} {P : κ → σ → ι → Prop} {s : σ} {is : List ι} :
    Along step (fun s i => ∀ k, P k s i) s is ↔ ∀ k, Along step (P k) s is := by
  induction is generalizing s with
  | nil => exact iff_of_true trivial fun _ => trivial
  | cons i is ih =>
    simp only [along_cons, ih]
    exact forall_and.symm

theorem along_congr {H Q : σ → ι → Prop} (hPQ : ∀ s i, H s i → (P s i ↔ Q s i)) {s : σ}
    {is : List ι} (h : Along step H s is) : Along step P s is ↔ Along step Q s is := by
  induction is generalizing s with
  | nil => exact Iff.rfl
  | cons i is ih => exact and_congr (hPQ s i h.1) (ih h.2)

theorem Throughout.head {Q : σ → Prop} {s : σ} {is : List ι}
    (h : Throughout step Q s is) : Q s := by
  cases is with
  | nil => exact h
  | cons => exact h.1

theorem Throughout.last {Q : σ → Prop} {s : σ} {is : List ι}
    (h : Throughout step Q s is) : Q (run step s is) := by
  induction is generalizing s with
  | nil => exact h
  | cons i is ih => exact ih h.2

theorem Throughout.imp {Q R : σ → Prop} (hQR : ∀ s, Q s → R s) {s : σ} {is : List ι}
    (h : Throughout step Q s is) : Throughout step R s is := by
  induction is generalizing s with
  | nil => exact hQR s h
  | cons i is ih => exact ⟨hQR s h.1, ih h.2⟩

theorem Throughout.append_left {Q : σ → Prop} {s : σ} {is js : List ι}
    (h : Throughout step Q s (is ++ js)) : Throughout step Q s is := by
  induction is generalizing s with
  | nil => exact h.head
  | cons i is ih => exact ⟨h.1, ih h.2⟩

theorem throughout_of_along {Q : σ → Prop} (hstep : ∀ s i, Q s → P s i → Q (step s i)) :
    ∀ {s : σ} {is : List ι}, Q s → Along step P s is → Throughout step Q s is
  | _, [], hs, _ => hs
  | _, _ :: _, hs, h => ⟨hs, throughout_of_along hstep (hstep _ _ hs h.1) h.2⟩

theorem throughout_and_along {Q : σ → Prop} {R : σ → ι → Prop}
    (hstep : ∀ s i, Q s → P s i → Q (step s i) ∧ R s i) {s : σ} {is : List ι} (hs : Q s)
    (h : Along step P s is) : Throughout step Q s is ∧ Along step R s is := by
  induction is generalizing s with
  | nil => exact ⟨hs, trivial⟩
  | cons i is ih =>
    obtain ⟨next, now⟩ := hstep s i hs h.1
    obtain ⟨keeps, along⟩ := ih next h.2
    exact ⟨⟨hs, keeps⟩, now, along⟩

/-- Where, from a state with `Q`, `P` is exactly what a step needs to keep `Q` and to meet `R`, it
is exactly what a run needs. -/
theorem throughout_along_iff {Q : σ → Prop} {R : σ → ι → Prop}
    (hstep : ∀ s i, Q s → (Q (step s i) ∧ R s i ↔ P s i)) {s : σ} {is : List ι} (hs : Q s) :
    Throughout step Q s is ∧ Along step R s is ↔ Along step P s is := by
  induction is generalizing s with
  | nil => exact ⟨fun _ => trivial, fun _ => ⟨hs, trivial⟩⟩
  | cons i is ih =>
    constructor
    · rintro ⟨keeps, meets⟩
      have next : Q (step s i) := keeps.2.head
      exact ⟨(hstep s i hs).mp ⟨next, meets.1⟩, (ih next).mp ⟨keeps.2, meets.2⟩⟩
    · rintro ⟨first, rest⟩
      obtain ⟨next, meets⟩ := (hstep s i hs).mpr first
      obtain ⟨keeps, along⟩ := (ih next).mpr rest
      exact ⟨⟨hs, keeps⟩, meets, along⟩

/-- Where, from a state with `Q` that `P` keeps, `P` is exactly what a step that meets `H` needs to
reach `G` and to meet `R`, it is exactly what a run of such steps needs. -/
theorem throughout_along_iff_of {H R : σ → ι → Prop} {Q G : σ → Prop} (hQG : ∀ s, Q s → G s)
    (hkeep : ∀ s i, Q s → H s i → P s i → Q (step s i))
    (hstep : ∀ s i, Q s → H s i → (G (step s i) ∧ R s i ↔ P s i)) {s : σ} {is : List ι} (hs : Q s)
    (h : Along step H s is) :
    Throughout step G s is ∧ Along step R s is ↔ Along step P s is := by
  induction is generalizing s with
  | nil => exact iff_of_true ⟨hQG s hs, trivial⟩ trivial
  | cons i is ih =>
    have first := hstep s i hs h.1
    constructor
    · rintro ⟨reaches, meets⟩
      have now := first.mp ⟨reaches.2.head, meets.1⟩
      exact ⟨now, (ih (hkeep s i hs h.1 now) h.2).mp ⟨reaches.2, meets.2⟩⟩
    · rintro ⟨now, later⟩
      obtain ⟨reaches, meets⟩ := (ih (hkeep s i hs h.1 now) h.2).mpr later
      exact ⟨⟨hQG s hs, reaches⟩, (first.mpr now).2, meets⟩

theorem throughout_iff_along {Q : σ → Prop} (hstep : ∀ s i, Q s → (Q (step s i) ↔ P s i)) {s : σ}
    {is : List ι} (hs : Q s) : Throughout step Q s is ↔ Along step P s is := by
  induction is generalizing s with
  | nil => exact iff_of_true hs trivial
  | cons i is ih =>
    constructor
    · intro h
      have next := (hstep s i hs).mp h.2.head
      exact ⟨next, (ih h.2.head).mp h.2⟩
    · intro h
      exact ⟨hs, (ih ((hstep s i hs).mpr h.1)).mpr h.2⟩

theorem throughout_congr {Q R : σ → Prop} (hQR : ∀ s, Q s ↔ R s) {s : σ} {is : List ι} :
    Throughout step Q s is ↔ Throughout step R s is :=
  ⟨.imp fun s => (hQR s).mp, .imp fun s => (hQR s).mpr⟩

theorem along_of_invariant {I : σ → Prop} {Q : σ → ι → Prop} (hI : ∀ s i, I s → I (step s i))
    (hQ : ∀ s i, I s → P s i → Q s i) {s : σ} {is : List ι} (hs : I s) (h : Along step P s is) :
    Along step Q s is := by
  induction is generalizing s with
  | nil => trivial
  | cons i is ih => exact ⟨hQ s i hs h.1, ih (hI s i hs) h.2⟩

/-- Where `P` is exactly what keeps `f` fixed in one step that meets `H`, it is exactly what keeps
`f` at its first value throughout a run of such steps. -/
theorem throughout_eq_iff_along_of {H : σ → ι → Prop} {f : σ → β}
    (hstep : ∀ s i, H s i → (f (step s i) = f s ↔ P s i)) {s : σ} {is : List ι}
    (h : Along step H s is) : Throughout step (fun t => f t = f s) s is ↔ Along step P s is := by
  induction is generalizing s with
  | nil => exact ⟨fun _ => trivial, fun _ => rfl⟩
  | cons i is ih =>
    constructor
    · intro keeps
      have first : f (step s i) = f s := keeps.2.head
      have rest := keeps.2
      rw [← first] at rest
      exact ⟨(hstep s i h.1).mp first, (ih h.2).mp rest⟩
    · intro meets
      have first : f (step s i) = f s := (hstep s i h.1).mpr meets.1
      have rest := (ih h.2).mpr meets.2
      rw [first] at rest
      exact ⟨rfl, rest⟩

theorem throughout_eq_iff_along {f : σ → β} (hstep : ∀ s i, f (step s i) = f s ↔ P s i)
    (s : σ) (is : List ι) :
    Throughout step (fun t => f t = f s) s is ↔ Along step P s is :=
  throughout_eq_iff_along_of (H := fun _ _ => True) (fun s i _ => hstep s i)
    (along_of_forall fun _ _ => trivial)

end Run

section Pair

variable {σ : Type u} {ι : Type v} {o : Type w} {step : σ → ι → o × σ}

def outputs (step : σ → ι → o × σ) : σ → List ι → List o
  | _, [] => []
  | s, i :: is => (step s i).1 :: outputs step (step s i).2 is

theorem length_outputs (s : σ) (is : List ι) : (outputs step s is).length = is.length := by
  induction is generalizing s with
  | nil => rfl
  | cons i is ih => rw [outputs, List.length_cons, ih, List.length_cons]

/-- Two runs over the same inputs from related states give the same outputs, as soon as every
step that meets `P` gives equal outputs and keeps the states related. -/
theorem outputs_eq_of_unwinding {R : σ → σ → Prop} {P : σ → ι → Prop}
    (hstep : ∀ s t i, R s t → P s i → (step s i).1 = (step t i).1 ∧ R (step s i).2 (step t i).2) :
    ∀ {s t : σ} {is : List ι}, R s t → Along (fun s i => (step s i).2) P s is →
      outputs step s is = outputs step t is
  | _, _, [], _, _ => rfl
  | s, t, i :: is, h, hP => by
    have first := hstep s t i h hP.1
    simp only [outputs]
    rw [first.1, outputs_eq_of_unwinding hstep first.2 hP.2]

end Pair

end M33mu.Lib
