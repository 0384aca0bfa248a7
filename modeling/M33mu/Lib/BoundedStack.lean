namespace M33mu.Lib

structure BoundedStack (cap : Nat) (α : Type u) where
  items : List α
  bounded : items.length ≤ cap
  deriving DecidableEq

namespace BoundedStack

variable {cap : Nat} {α : Type u}

def empty : BoundedStack cap α := ⟨[], Nat.zero_le cap⟩

def depth (s : BoundedStack cap α) : Nat := s.items.length

def HasRoom (s : BoundedStack cap α) : Prop := s.items.length < cap

instance (s : BoundedStack cap α) : Decidable s.HasRoom :=
  inferInstanceAs (Decidable (s.items.length < cap))

def push (s : BoundedStack cap α) (a : α) : BoundedStack cap α :=
  if h : s.items.length < cap then ⟨a :: s.items, h⟩ else s

def pop (s : BoundedStack cap α) : Option α × BoundedStack cap α :=
  match s with
  | ⟨[], h⟩ => (none, ⟨[], h⟩)
  | ⟨a :: as, h⟩ => (some a, ⟨as, Nat.le_of_succ_le h⟩)

@[ext] theorem ext {s t : BoundedStack cap α} (h : s.items = t.items) : s = t := by
  cases s; cases t; cases h; rfl

theorem push_of_hasRoom {s : BoundedStack cap α} (h : s.HasRoom) (a : α) :
    (s.push a).items = a :: s.items := by
  simp [push, show s.items.length < cap from h]

theorem push_of_full {s : BoundedStack cap α} (h : ¬ s.HasRoom) (a : α) : s.push a = s := by
  simp [push, show ¬ s.items.length < cap from h]

theorem pop_push {s : BoundedStack cap α} (h : s.HasRoom) (a : α) :
    (s.push a).pop = (some a, s) := by
  simp [push, pop, show s.items.length < cap from h]

@[simp] theorem pop_empty : (empty : BoundedStack cap α).pop = (none, empty) := rfl

theorem pop_fst (s : BoundedStack cap α) : s.pop.1 = s.items.head? := by
  obtain ⟨items, h⟩ := s
  cases items <;> rfl

theorem pop_snd_items (s : BoundedStack cap α) : s.pop.2.items = s.items.tail := by
  obtain ⟨items, h⟩ := s
  cases items <;> rfl

theorem items_of_pop_eq {s t : BoundedStack cap α} {a : α} (h : s.pop = (some a, t)) :
    s.items = a :: t.items := by
  obtain ⟨items, hs⟩ := s
  cases items with
  | nil => cases h
  | cons b bs => cases h; rfl

end BoundedStack

end M33mu.Lib
