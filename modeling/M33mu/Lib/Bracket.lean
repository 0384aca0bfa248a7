import M33mu.Lib.Run

/-!
Calls and returns that are matched by a ghost stack, over a machine that keeps its own record of
the open calls. Where every call adds to that record, every return takes off what its call added,
and nothing in between touches it, each return finds the record as its call left it.
-/

namespace M33mu.Lib

/-- An open call: the state and input it was made from, and the state it led to. -/
structure Call (σ : Type u) (ι : Type v) where
  before : σ
  input : ι
  after : σ

inductive BracketOp (ι : Type v) (β : Type w)
  | enter (i : ι)
  | body (b : β)
  | leave

structure Bracketed (σ : Type u) (ι : Type v) where
  state : σ
  calls : List (Call σ ι)

structure Bracketing (σ : Type u) (ι : Type v) (β : Type w) where
  enter : σ → ι → σ
  body : σ → β → σ
  leave : Call σ ι → σ → σ

namespace Bracketing

variable {σ : Type u} {ι : Type v} {β : Type w} {τ : Type t} (B : Bracketing σ ι β)

def step (x : Bracketed σ ι) : BracketOp ι β → Bracketed σ ι
  | .enter i => ⟨B.enter x.state i, ⟨x.state, i, B.enter x.state i⟩ :: x.calls⟩
  | .body b => ⟨B.body x.state b, x.calls⟩
  | .leave =>
    match x.calls with
    | [] => x
    | c :: cs => ⟨B.leave c x.state, cs⟩

def AtLeave (R : Call σ ι → σ → Prop) (x : Bracketed σ ι) : BracketOp ι β → Prop
  | .leave => ∀ c ∈ x.calls.head?, R c x.state
  | _ => True

instance (R : Call σ ι → σ → Prop) [∀ c s, Decidable (R c s)] (x : Bracketed σ ι)
    (op : BracketOp ι β) : Decidable (AtLeave R x op) :=
  match op with
  | .leave => inferInstanceAs (Decidable (∀ c ∈ x.calls.head?, R c x.state))
  | .enter _ => isTrue trivial
  | .body _ => isTrue trivial

def Recorded (record : σ → τ) (E : Call σ ι → Prop) (t : τ) : List (Call σ ι) → Prop
  | [] => True
  | c :: cs => t = record c.after ∧ E c ∧ Recorded record E (record c.before) cs

variable {B} {r : σ → τ} {E : Call σ ι → Prop}
  {P : Bracketed σ ι → BracketOp ι β → Prop}

theorem atLeave_of_along
    (hcall : ∀ s cs i, P ⟨s, cs⟩ (.enter i) → E ⟨s, i, B.enter s i⟩)
    (hbody : ∀ s cs b, P ⟨s, cs⟩ (.body b) → r (B.body s b) = r s)
    (hleave : ∀ c cs s, P ⟨s, c :: cs⟩ .leave → E c → r s = r c.after →
      r (B.leave c s) = r c.before)
    {x : Bracketed σ ι} {ops : List (BracketOp ι β)} (hx : Recorded r E (r x.state) x.calls)
    (h : Along B.step P x ops) :
    Along B.step (AtLeave fun c s => E c ∧ r s = r c.after) x ops := by
  induction ops generalizing x with
  | nil => trivial
  | cons op ops ih =>
    obtain ⟨s, cs⟩ := x
    cases op with
    | enter i => exact ⟨trivial, ih ⟨rfl, hcall _ _ _ h.1, hx⟩ h.2⟩
    | body b => exact ⟨trivial, ih (hbody _ _ _ h.1 ▸ hx) h.2⟩
    | leave =>
      cases cs with
      | nil => exact ⟨by rintro c ⟨⟩, ih hx h.2⟩
      | cons c cs =>
        obtain ⟨top, call, rest⟩ := hx
        refine ⟨by rintro c ⟨⟩; exact ⟨call, top⟩, ih ?_ h.2⟩
        simp only [step]
        exact hleave c cs s h.1 call top ▸ rest

end Bracketing

end M33mu.Lib
