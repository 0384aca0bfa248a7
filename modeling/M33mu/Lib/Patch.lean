import Mathlib.Data.List.Count
import Mathlib.Data.List.Pairwise

/-!
Stores as partial functions, and a memory that is programmed once after it was erased.
-/

namespace M33mu.Lib

universe u v w

abbrev Patch (α : Type u) (β : Type v) := α → Option β

namespace Patch

variable {α : Type u} {β : Type v} {σ : Type w}

def put (p : Patch α β) (f : α → β) : α → β := fun a => (p a).getD (f a)

def Apart (p q : Patch α β) : Prop := ∀ a, p a = none ∨ q a = none

theorem Apart.none_of_mem {p q : Patch α β} (apart : p.Apart q) {a : α} {b : β} (has : b ∈ p a) :
    q a = none :=
  (apart a).resolve_left fun none' => by
    rw [none'] at has
    cases has

theorem Apart.symm {p q : Patch α β} (apart : p.Apart q) : q.Apart p := fun a => (apart a).symm

theorem put_of_mem {p : Patch α β} {a : α} {b : β} (has : b ∈ p a) (f : α → β) : p.put f a = b := by
  rw [put, Option.mem_def.mp has, Option.getD_some]

theorem put_of_none {p : Patch α β} {a : α} (none' : p a = none) (f : α → β) :
    p.put f a = f a := by
  rw [put, none', Option.getD_none]

def Blank (blank : β) (p : Patch α β) : Prop := ∀ a, ∀ b ∈ p a, b = blank

structure Took (ps : List (Patch α β)) (f f' : α → β) : Prop where
  stored : ∀ p ∈ ps, ∀ a, ∀ b ∈ p a, f' a = b
  kept : ∀ a, (∀ p ∈ ps, p a = none) → f' a = f a

theorem took_nil (f : α → β) : Took [] f f := ⟨nofun, fun _ _ => rfl⟩

variable {p : Patch α β} {ps : List (Patch α β)} {f f' : α → β} {blank : β}

theorem took_cons_of_blank (blank' : p.Blank blank) (apart : ∀ q ∈ ps, p.Apart q)
    (erased : ∀ a, p a ≠ none → f a = blank) : Took (p :: ps) f f' ↔ Took ps f f' := by
  constructor
  · rintro ⟨stored, kept⟩
    refine ⟨fun q mem => stored q (List.mem_cons_of_mem _ mem), fun a none' => ?_⟩
    cases here : p a with
    | none => exact kept a (List.forall_mem_cons.mpr ⟨here, none'⟩)
    | some b =>
      have some' : p a ≠ none := fun eq => nomatch eq.symm.trans here
      rw [stored p List.mem_cons_self a b here, erased a some', blank' a b here]
  · rintro ⟨stored, kept⟩
    refine ⟨List.forall_mem_cons.mpr ⟨fun a b has => ?_, stored⟩, fun a none' =>
      kept a (List.forall_mem_cons.mp none').2⟩
    have some' : p a ≠ none := fun eq => nomatch eq.symm.trans has
    rw [kept a fun q mem => (apart q mem).none_of_mem has, erased a some', blank' a b has]

theorem took_put_iff (apart : ∀ q ∈ ps, p.Apart q)
    (erased : ∀ q ∈ ps, ∀ a, q a ≠ none → f a = blank) :
    Took (p :: ps) f (p.put f) ↔ ∀ q ∈ ps, q.Blank blank := by
  have others {q : Patch α β} (mem : q ∈ ps) {a : α} {b : β} (has : b ∈ q a) :
      p.put f a = blank := by
    have some' : q a ≠ none := fun eq => nomatch eq.symm.trans has
    rw [put_of_none ((apart q mem).symm.none_of_mem has), erased q mem a some']
  constructor
  · rintro ⟨stored, -⟩ q mem a b has
    rw [← stored q (List.mem_cons_of_mem _ mem) a b has, others mem has]
  · intro all
    refine ⟨List.forall_mem_cons.mpr ⟨fun a b has => put_of_mem has f, fun q mem a b has => ?_⟩,
      fun a none' => put_of_none (List.forall_mem_cons.mp none').1 f⟩
    rw [others mem has, all q mem a b has]

section

variable (patch : σ → Patch α β) (isBlank : σ → Bool)

/-- The stores up to the first that is not blank are made, and the others are ignored. -/
def once : List σ → (α → β) → α → β
  | [], f => f
  | s :: ss, f => if isBlank s then once ss f else (patch s).put f

variable {patch isBlank}

/-- All stores to an erased memory that is programmed once take effect exactly if at most one has
something to program. -/
theorem took_once_iff {ss : List σ}
    (decides : ∀ s ∈ ss, isBlank s = true ↔ (patch s).Blank blank)
    (apart : ss.Pairwise fun s t => (patch s).Apart (patch t))
    (erased : ∀ s ∈ ss, ∀ a, patch s a ≠ none → f a = blank) :
    Took (ss.map patch) f (once patch isBlank ss f) ↔ ss.countP (!isBlank ·) ≤ 1 := by
  induction ss with
  | nil => exact iff_of_true (took_nil f) (Nat.zero_le 1)
  | cons s ss ih =>
    obtain ⟨first, apart⟩ := List.pairwise_cons.mp apart
    obtain ⟨here, erased⟩ := List.forall_mem_cons.mp erased
    obtain ⟨decides', decides⟩ := List.forall_mem_cons.mp decides
    have first' : ∀ q ∈ ss.map patch, (patch s).Apart q := List.forall_mem_map.mpr first
    rw [List.map_cons, once, List.countP_cons]
    cases eq : isBlank s with
    | true =>
      rw [if_pos rfl, took_cons_of_blank (decides'.mp eq) first' here]
      exact ih decides apart erased
    | false =>
      have least : ss.countP (!isBlank ·) + 1 ≤ 1 ↔ ss.countP (!isBlank ·) = 0 := by omega
      rw [if_neg Bool.false_ne_true, took_put_iff first' (List.forall_mem_map.mpr erased)]
      refine List.forall_mem_map.trans (.trans ?_ (least.trans List.countP_eq_zero).symm)
      exact forall₂_congr fun t mem => (decides t mem).symm.trans (by simp)

end

end Patch

end M33mu.Lib
