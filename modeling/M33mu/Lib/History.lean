import M33mu.Lib.BoundedStack

namespace M33mu.Lib

inductive Mark (α : Type u)
  | opens (a : α)
  | closes
  | idle

section History

variable {ε : Type u} {α : Type v} {mark : ε → Mark α}

/-- What was opened and not closed since, innermost first. A closing with nothing open is lost. -/
def openAfter (mark : ε → Mark α) : List ε → List α
  | [] => []
  | e :: es =>
    match mark e with
    | .opens a => a :: openAfter mark es
    | .closes => (openAfter mark es).tail
    | .idle => openAfter mark es

theorem openAfter_opens {e : ε} {a : α} (h : mark e = .opens a) (es : List ε) :
    openAfter mark (e :: es) = a :: openAfter mark es := by
  simp [openAfter, h]

theorem openAfter_closes {e : ε} (h : mark e = .closes) (es : List ε) :
    openAfter mark (e :: es) = (openAfter mark es).tail := by
  simp [openAfter, h]

theorem openAfter_idle {e : ε} (h : mark e = .idle) (es : List ε) :
    openAfter mark (e :: es) = openAfter mark es := by
  simp [openAfter, h]

theorem openAfter_append_of_idle {later : List ε} (h : ∀ e ∈ later, mark e = .idle)
    (es : List ε) : openAfter mark (later ++ es) = openAfter mark es := by
  induction later with
  | nil => rfl
  | cons e later ih =>
    obtain ⟨first, rest⟩ := List.forall_mem_cons.mp h
    rw [List.cons_append, openAfter_idle first, ih rest]

end History

namespace BoundedStack

variable {cap : Nat} {ε : Type u} {α : Type v} {β : Type w} {mark : ε → Mark α} {f : β → α}

/-- The stack records what is open, in order; what was pushed past its limit is missing. -/
def Records (mark : ε → Mark α) (f : β → α) (s : BoundedStack cap β) (es : List ε) : Prop :=
  (s.items.map f).Sublist (openAfter mark es)

theorem records_empty : (empty : BoundedStack cap β).Records mark f ([] : List ε) :=
  List.Sublist.slnil

namespace Records

variable {s : BoundedStack cap β} {es : List ε} {e : ε}

theorem push {b : β} (h : s.Records mark f es) (opens : mark e = .opens (f b)) :
    (s.push b).Records mark f (e :: es) := by
  rw [Records, openAfter_opens opens]
  by_cases room : s.HasRoom
  · rw [push_of_hasRoom room]
    exact h.cons_cons (f b)
  · rw [push_of_full room]
    exact h.cons (f b)

theorem pop (h : s.Records mark f es) (closes : mark e = .closes) :
    s.pop.2.Records mark f (e :: es) := by
  rw [Records, openAfter_closes closes, pop_snd_items, List.map_tail]
  exact h.tail

theorem append_of_idle {later : List ε} (h : s.Records mark f es)
    (idle : ∀ e ∈ later, mark e = .idle) : s.Records mark f (later ++ es) := by
  rw [Records, openAfter_append_of_idle idle]
  exact h

theorem mem_of_pop {b : β} {t : BoundedStack cap β} (h : s.Records mark f es)
    (top : s.pop = (some b, t)) : f b ∈ openAfter mark es := by
  apply h.mem
  rw [items_of_pop_eq top]
  exact .head _

end Records

end BoundedStack

end M33mu.Lib
