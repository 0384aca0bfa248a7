import Mathlib.Logic.Function.Basic

namespace M33mu.Lib

/-- The queue is from `head` up to `tail`, around the end of the slots below `cap`. -/
structure Ring (α : Type u) (cap : Nat) where
  slots : Nat → α
  head : Nat
  tail : Nat

namespace Ring

variable {α : Type u} {cap : Nat}

def Inside (r : Ring α cap) : Prop := r.head < cap ∧ r.tail < cap

def count (r : Ring α cap) : Nat := (r.tail + (cap - r.head)) % cap

def item (r : Ring α cap) (i : Nat) : α := r.slots ((r.head + i) % cap)

def items (r : Ring α cap) : List α := (List.range r.count).map r.item

def push (r : Ring α cap) (a : α) : Ring α cap :=
  { r with slots := Function.update r.slots r.tail a, tail := (r.tail + 1) % cap }

def skip (r : Ring α cap) (n : Nat) : Ring α cap := { r with head := (r.head + n) % cap }

theorem wrap_eq {x : Nat} (twice : x < 2 * cap) : x % cap = if x < cap then x else x - cap := by
  split
  · exact Nat.mod_eq_of_lt ‹_›
  · rw [Nat.mod_eq_sub_mod (by omega), Nat.mod_eq_of_lt (by omega)]

@[simp] theorem length_items (r : Ring α cap) : r.items.length = r.count := by
  rw [items, List.length_map, List.length_range]

variable {r : Ring α cap}

theorem count_eq (inside : r.Inside) :
    r.count = if r.head ≤ r.tail then r.tail - r.head else r.tail + cap - r.head := by
  obtain ⟨head, tail⟩ := inside
  rw [count, wrap_eq (by omega)]
  split <;> split <;> omega

theorem count_lt (inside : r.Inside) : r.count < cap :=
  Nat.mod_lt _ (Nat.zero_lt_of_lt inside.1)

theorem tail_eq (inside : r.Inside) : r.tail = (r.head + r.count) % cap := by
  have low := count_lt inside
  obtain ⟨head, tail⟩ := inside
  rw [wrap_eq (by omega), count_eq ⟨head, tail⟩]
  split <;> split <;> omega

theorem inside_push (inside : r.Inside) (a : α) : (r.push a).Inside :=
  ⟨inside.1, Nat.mod_lt _ (Nat.zero_lt_of_lt inside.1)⟩

theorem inside_skip (inside : r.Inside) (n : Nat) : (r.skip n).Inside :=
  ⟨Nat.mod_lt _ (Nat.zero_lt_of_lt inside.1), inside.2⟩

theorem full_iff (inside : r.Inside) : (r.tail + 1) % cap = r.head ↔ r.count + 1 = cap := by
  obtain ⟨head, tail⟩ := inside
  rw [count_eq ⟨head, tail⟩, wrap_eq (by omega)]
  split <;> split <;> omega

theorem items_eq_nil_iff (inside : r.Inside) : r.items = [] ↔ r.head = r.tail := by
  rw [← List.length_eq_zero_iff, length_items, count_eq inside]
  obtain ⟨head, tail⟩ := inside
  split <;> omega

theorem count_push (inside : r.Inside) (room : r.count + 1 < cap) (a : α) :
    (r.push a).count = r.count + 1 := by
  have next := inside_push inside a
  rw [count_eq next]
  rw [count_eq inside] at room ⊢
  obtain ⟨head, tail⟩ := inside
  change (if r.head ≤ (r.tail + 1) % cap then (r.tail + 1) % cap - r.head
    else (r.tail + 1) % cap + cap - r.head) = _
  rw [wrap_eq (by omega)]
  split at room <;> split <;> split <;> omega

theorem slot_ne_tail (inside : r.Inside) {i : Nat} (held : i < r.count) :
    (r.head + i) % cap ≠ r.tail := by
  have low := count_lt inside
  rw [tail_eq inside]
  obtain ⟨head, tail⟩ := inside
  rw [wrap_eq (by omega), wrap_eq (by omega)]
  split <;> split <;> omega

theorem items_push (inside : r.Inside) (room : r.count + 1 < cap) (a : α) :
    (r.push a).items = r.items ++ [a] := by
  rw [items, count_push inside room, List.range_succ, List.map_append, items, List.map_singleton]
  congr 1
  · apply List.map_congr_left
    intro i held
    exact Function.update_of_ne (slot_ne_tail inside (List.mem_range.mp held)) ..
  · apply congrArg (fun x => [x])
    change Function.update r.slots r.tail a ((r.head + r.count) % cap) = a
    rw [← tail_eq inside]
    exact Function.update_self ..

theorem count_skip (inside : r.Inside) {n : Nat} (held : n ≤ r.count) :
    (r.skip n).count = r.count - n := by
  have small : n < cap := Nat.lt_of_le_of_lt held (count_lt inside)
  rw [count_eq (inside_skip inside n)]
  rw [count_eq inside] at held ⊢
  obtain ⟨head, tail⟩ := inside
  change (if (r.head + n) % cap ≤ r.tail then r.tail - (r.head + n) % cap
    else r.tail + cap - (r.head + n) % cap) = _
  rw [wrap_eq (by omega)]
  split at held <;> split <;> split <;> omega

theorem items_skip (inside : r.Inside) {n : Nat} (held : n ≤ r.count) :
    (r.skip n).items = r.items.drop n := by
  apply List.ext_getElem
  · rw [List.length_drop, length_items, length_items, count_skip inside held]
  · intro i _ _
    rw [List.getElem_drop]
    simp only [items, List.getElem_map, List.getElem_range]
    change r.slots (((r.head + n) % cap + i) % cap) = r.slots ((r.head + (n + i)) % cap)
    rw [Nat.mod_add_mod, Nat.add_assoc]

theorem take_items {n : Nat} (held : n ≤ r.count) (piece : r.head + n ≤ cap) :
    r.items.take n = (List.range n).map fun i => r.slots (r.head + i) := by
  apply List.ext_getElem
  · rw [List.length_take, length_items, List.length_map, List.length_range]
    exact Nat.min_eq_left held
  · intro i _ below
    rw [List.length_map, List.length_range] at below
    rw [List.getElem_take]
    simp only [items, List.getElem_map, List.getElem_range]
    change r.slots ((r.head + i) % cap) = _
    rw [Nat.mod_eq_of_lt (by omega)]

theorem head_items (inside : r.Inside) (some' : r.head ≠ r.tail) :
    r.items.head? = some (r.slots r.head) := by
  have held : r.count ≠ 0 := by
    rw [← length_items, Ne, List.length_eq_zero_iff, items_eq_nil_iff inside]
    exact some'
  obtain ⟨n, eq⟩ := Nat.exists_eq_succ_of_ne_zero held
  rw [items, eq, List.range_succ_eq_map, List.map_cons, List.head?_cons]
  change some (r.slots ((r.head + 0) % cap)) = _
  rw [Nat.add_zero, Nat.mod_eq_of_lt inside.1]

end Ring

end M33mu.Lib
