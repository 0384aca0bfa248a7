import Mathlib.Logic.Function.Basic

/-!
Patches over a memory: a family of disjoint sets of cells that hold something else than the
memory underneath, each cell with the value it hides.
-/

namespace M33mu.Lib

structure Cell (P : Type u) (B : Type v) where
  place : P
  put : B
  saved : B

/-- `mem` is `own` but for the cells of the patches, which hold what was put there and know what
they hide. A patch of no cells is none. -/
structure Overlaid {P : Type u} {B : Type v} {ι : Type w} (own mem : P → B)
    (patches : ι → List (Cell P B)) : Prop where
  put : ∀ i, ∀ c ∈ patches i, mem c.place = c.put
  saved : ∀ i, ∀ c ∈ patches i, own c.place = c.saved
  apart : ∀ i j, i ≠ j → ∀ c ∈ patches i, ∀ d ∈ patches j, c.place ≠ d.place
  rest : ∀ p, (∀ i, ∀ c ∈ patches i, c.place ≠ p) → mem p = own p

namespace Overlaid

variable {P : Type u} {B : Type v} {ι : Type w} {own mem mem' : P → B}
  {patches : ι → List (Cell P B)}

theorem of_none (own : P → B) {patches : ι → List (Cell P B)} (none : ∀ i, patches i = []) :
    Overlaid own own patches where
  put i c member := absurd member (by simp [none i])
  saved i c member := absurd member (by simp [none i])
  apart i j _ c member := absurd member (by simp [none i])
  rest _ _ := rfl

theorem eq_own (overlaid : Overlaid own mem patches) (none : ∀ i, patches i = []) : mem = own := by
  funext p
  exact overlaid.rest p fun i c member => absurd member (by simp [none i])

theorem own_of_fresh (overlaid : Overlaid own mem patches) {p : P}
    (fresh : ∀ i, ∀ c ∈ patches i, c.place ≠ p) : own p = mem p :=
  (overlaid.rest p fresh).symm

theorem rebase {own' : P → B} (overlaid : Overlaid own mem patches)
    (kept : ∀ i, ∀ c ∈ patches i, mem' c.place = mem c.place)
    (hidden : ∀ i, ∀ c ∈ patches i, own' c.place = own c.place)
    (rest : ∀ p, (∀ i, ∀ c ∈ patches i, c.place ≠ p) → mem' p = own' p) :
    Overlaid own' mem' patches where
  put i c member := (kept i c member).trans (overlaid.put i c member)
  saved i c member := (hidden i c member).trans (overlaid.saved i c member)
  apart := overlaid.apart
  rest := rest

theorem patch [DecidableEq ι] (overlaid : Overlaid own mem patches) {i : ι}
    {cells : List (Cell P B)} (free : patches i = [])
    (fresh : ∀ c ∈ cells, ∀ j, ∀ d ∈ patches j, d.place ≠ c.place)
    (saved : ∀ c ∈ cells, mem c.place = c.saved) (put : ∀ c ∈ cells, mem' c.place = c.put)
    (frame : ∀ p, (∀ c ∈ cells, c.place ≠ p) → mem' p = mem p) :
    Overlaid own mem' (Function.update patches i cells) := by
  have others {j : ι} (other : j ≠ i) : Function.update patches i cells j = patches j :=
    Function.update_of_ne other cells patches
  have here : Function.update patches i cells i = cells := Function.update_self i cells patches
  constructor
  case put =>
    intro j c member
    by_cases same : j = i
    · subst same
      rw [here] at member
      exact put c member
    · rw [others same] at member
      refine (frame c.place fun d inside eq => fresh d inside j c member eq.symm).trans ?_
      exact overlaid.put j c member
  case saved =>
    intro j c member
    by_cases same : j = i
    · subst same
      rw [here] at member
      exact (overlaid.own_of_fresh fun k d inside => fresh c member k d inside).trans
        (saved c member)
    · rw [others same] at member
      exact overlaid.saved j c member
  case apart =>
    intro j k apart c member d member'
    by_cases first : j = i
    · subst first
      rw [here] at member
      rw [others apart.symm] at member'
      exact (fresh c member k d member').symm
    · rw [others first] at member
      by_cases second : k = i
      · subst second
        rw [here] at member'
        exact fresh d member' j c member
      · rw [others second] at member'
        exact overlaid.apart j k apart c member d member'
  case rest =>
    intro p away
    have outside : ∀ c ∈ cells, c.place ≠ p := fun c member => away i c (here.symm ▸ member)
    refine (frame p outside).trans (overlaid.rest p fun j c member => ?_)
    by_cases same : j = i
    · subst same
      rw [free] at member
      exact nomatch member
    · exact away j c ((others same).symm ▸ member)

theorem restore [DecidableEq ι] (overlaid : Overlaid own mem patches) {i : ι}
    (back : ∀ c ∈ patches i, mem' c.place = c.saved)
    (frame : ∀ p, (∀ c ∈ patches i, c.place ≠ p) → mem' p = mem p) :
    Overlaid own mem' (Function.update patches i []) := by
  have member_of {j : ι} {c : Cell P B} (member : c ∈ Function.update patches i [] j) :
      j ≠ i ∧ c ∈ patches j := by
    by_cases same : j = i
    · subst same
      rw [Function.update_self] at member
      exact nomatch member
    · rw [Function.update_of_ne same] at member
      exact ⟨same, member⟩
  constructor
  case put =>
    intro j c member
    obtain ⟨other, member⟩ := member_of member
    refine (frame c.place fun d inside => ?_).trans (overlaid.put j c member)
    exact overlaid.apart i j other.symm d inside c member
  case saved => exact fun j c member => overlaid.saved j c (member_of member).2
  case apart =>
    intro j k apart c member d member'
    exact overlaid.apart j k apart c (member_of member).2 d (member_of member').2
  case rest =>
    intro p away
    by_cases inside : ∃ c ∈ patches i, c.place = p
    · obtain ⟨c, member, rfl⟩ := inside
      exact (back c member).trans (overlaid.saved i c member).symm
    · have outside : ∀ c ∈ patches i, c.place ≠ p := fun c member eq => inside ⟨c, member, eq⟩
      refine (frame p outside).trans (overlaid.rest p fun j c member => ?_)
      by_cases same : j = i
      · subst same
        exact outside c member
      · refine away j c ?_
        rw [Function.update_of_ne same]
        exact member

end Overlaid

end M33mu.Lib
