import Mathlib.Data.List.Basic
import Mathlib.Logic.Function.Basic

namespace M33mu.Lib

variable {α : Type u} {null : α} {next next' : α → α}

def Linked (null : α) (next : α → α) : α → List α → Prop
  | a, [] => a = null
  | a, b :: l => a = b ∧ b ≠ null ∧ Linked null next (next b) l

def places [DecidableEq α] (null : α) (next : α → α) : (fuel : Nat) → α → List α
  | 0, _ => []
  | fuel + 1, a => if a = null then [] else a :: places null next fuel (next a)

/-- The search for the first place that fails a test, with the place of the link to it: none where
it is the one that the list begins with. -/
def seek [DecidableEq α] (null : α) (next : α → α) (pass : α → Bool) :
    (fuel : Nat) → Option α → α → Option (Option α × α)
  | 0, _, _ => none
  | fuel + 1, link, a =>
    if a ≠ null ∧ pass a then seek null next pass fuel (some a) (next a) else some (link, a)

namespace Linked

variable {a b : α} {l l' p q : List α}

theorem head_eq (linked : Linked null next a l) : a = l.headD null := by
  cases l with
  | nil => exact linked
  | cons b l => exact linked.1

theorem null_notMem (linked : Linked null next a l) : null ∉ l := by
  induction l generalizing a with
  | nil => exact List.not_mem_nil
  | cons b l ih =>
    intro member
    rcases List.mem_cons.mp member with rfl | later
    · exact linked.2.1 rfl
    · exact ih linked.2.2 later

theorem unique (linked : Linked null next a l) (linked' : Linked null next a l') : l = l' := by
  induction l generalizing a l' with
  | nil =>
    cases l' with
    | nil => rfl
    | cons b l' => exact absurd (linked'.1.symm.trans linked) linked'.2.1
  | cons b l ih =>
    cases l' with
    | nil => exact absurd (linked.1.symm.trans linked') linked.2.1
    | cons c l' =>
      obtain ⟨rfl, -, rest⟩ := linked
      obtain ⟨rfl, -, rest'⟩ := linked'
      rw [ih rest rest']

theorem of_append (linked : Linked null next a (p ++ b :: q)) : Linked null next b (b :: q) := by
  induction p generalizing a with
  | nil =>
    obtain ⟨rfl, rest⟩ := linked
    exact ⟨rfl, rest⟩
  | cons c p ih => exact ih linked.2.2

theorem nodup (linked : Linked null next a l) : l.Nodup := by
  induction l generalizing a with
  | nil => exact List.nodup_nil
  | cons b l ih =>
    refine List.nodup_cons.mpr ⟨fun again => ?_, ih linked.2.2⟩
    obtain ⟨p, q, rfl⟩ := List.append_of_mem again
    have first : Linked null next b (b :: (p ++ b :: q)) := ⟨rfl, linked.2⟩
    have shorter := congrArg List.length (first.unique linked.2.2.of_append)
    simp only [List.length_cons, List.length_append] at shorter
    omega

theorem congr (same : ∀ b ∈ l, next' b = next b) (linked : Linked null next a l) :
    Linked null next' a l := by
  induction l generalizing a with
  | nil => exact linked
  | cons b l ih =>
    obtain ⟨here, some', rest⟩ := linked
    refine ⟨here, some', ?_⟩
    rw [same b (.head l)]
    exact ih (fun c later => same c (.tail b later)) rest

theorem splice (linked : Linked null next a (p ++ q)) (new : b ≠ null)
    (first : next' b = q.headD null) (link : ∀ c ∈ p.getLast?, next' c = b)
    (same : ∀ c ∈ p ++ q, c ∉ p.getLast? → next' c = next c) :
    Linked null next' (if p.isEmpty then b else a) (p ++ b :: q) := by
  induction p generalizing a with
  | nil =>
    have linked : Linked null next a q := linked
    refine ⟨rfl, new, ?_⟩
    rw [first, ← linked.head_eq]
    exact linked.congr fun c member => same c member nofun
  | cons c p ih =>
    obtain ⟨here, some', rest⟩ := linked
    have fresh := nodup (l := c :: (p ++ q)) ⟨rfl, some', rest⟩
    refine ⟨here, some', ?_⟩
    cases p with
    | nil =>
      rw [link c rfl]
      have none' : c ∉ q := (List.nodup_cons.mp fresh).1
      refine ih rest nofun fun d member _ => same d (.tail c member) fun last => ?_
      cases last
      exact none' member
    | cons d p =>
      have none' : c ∉ (d :: p).getLast? := fun last =>
        (List.nodup_cons.mp fresh).1 (List.mem_append_left q (List.mem_of_getLast? last))
      have keep : next' c = next c := same c (.head _) fun last => none' <| by
        rwa [List.getLast?_cons_cons] at last
      rw [keep]
      exact ih rest (fun e last => link e (by rwa [List.getLast?_cons_cons]))
        fun e member inner => same e (.tail c member) (by rwa [List.getLast?_cons_cons])

variable [DecidableEq α] {fuel : Nat}

theorem places_eq (linked : Linked null next a l) (enough : l.length ≤ fuel) :
    places null next fuel a = l := by
  induction l generalizing a fuel with
  | nil =>
    cases fuel with
    | zero => rfl
    | succ fuel => exact if_pos linked
  | cons b l ih =>
    obtain ⟨rfl, some', rest⟩ := linked
    cases fuel with
    | zero => exact absurd enough (Nat.not_succ_le_zero _)
    | succ fuel =>
      rw [places, if_neg some', ih rest (Nat.le_of_succ_le_succ enough)]

theorem seek_eq (linked : Linked null next a l) (enough : l.length < fuel) (pass : α → Bool)
    (link : Option α) : seek null next pass fuel link a =
      some ((l.takeWhile pass).getLast?.or link, (l.dropWhile pass).headD null) := by
  induction l generalizing a fuel link with
  | nil =>
    obtain ⟨fuel, rfl⟩ := Nat.exists_eq_add_of_lt enough
    rw [seek, if_neg fun more => more.1 linked, linked]
    rfl
  | cons b l ih =>
    obtain ⟨rfl, some', rest⟩ := linked
    obtain ⟨fuel, rfl⟩ := Nat.exists_eq_add_of_lt enough
    by_cases more : pass a
    · rw [seek, if_pos ⟨some', more⟩, ih rest (by rw [List.length_cons]; omega),
        List.takeWhile_cons_of_pos more, List.dropWhile_cons_of_pos more, List.getLast?_cons]
      congr 2
      cases (l.takeWhile pass).getLast? <;> rfl
    · rw [seek, if_neg fun found => more found.2, List.takeWhile_cons_of_neg more,
        List.dropWhile_cons_of_neg more]
      rfl

end Linked

end M33mu.Lib
