import Mathlib.Data.List.TakeWhile
import Mathlib.Logic.Hydra

/-!
An agenda of jobs that fall due: what waits is in the order of the due times, and of entry where
these are equal, and a run takes what is due from the front.
-/

namespace M33mu.Lib

structure Job (κ : Type u) (β : Type v) where
  /-- How many jobs were entered before. -/
  serial : Nat
  due : κ
  what : β

structure Dispatch (κ : Type u) (β : Type v) where
  job : Job κ β
  now : κ
  run : Nat

/-- All the jobs that were entered, those that wait, the calls that were made, and how many runs
have begun. -/
structure Agenda (κ : Type u) (β : Type v) where
  made : List (Job κ β)
  waiting : List (Job κ β)
  calls : List (Dispatch κ β)
  runs : Nat

variable {κ : Type u} {β : Type v} [LinearOrder κ]

namespace Job

variable {j k l : Job κ β}

def early (due : κ) (j : Job κ β) : Bool := j.due ≤ due

def Before (j k : Job κ β) : Prop := j.due < k.due ∨ j.due = k.due ∧ j.serial < k.serial

theorem Before.trans (first : j.Before k) (second : k.Before l) : j.Before l := by
  rcases first with first | ⟨same, first⟩
  · rcases second with second | ⟨same', -⟩
    · exact .inl (lt_trans first second)
    · exact .inl (same' ▸ first)
  · rcases second with second | ⟨same', second⟩
    · exact .inl (same ▸ second)
    · exact .inr ⟨same.trans same', Nat.lt_trans first second⟩

theorem Before.due_le (before : j.Before k) : j.due ≤ k.due :=
  before.elim le_of_lt fun same => le_of_eq same.1

end Job

namespace Agenda

def empty : Agenda κ β := ⟨[], [], [], 0⟩

def add (a : Agenda κ β) (due : κ) (what : β) : Agenda κ β :=
  let job := ⟨a.made.length, due, what⟩
  { a with
    made := a.made ++ [job]
    waiting := a.waiting.takeWhile (Job.early due) ++ job :: a.waiting.dropWhile (Job.early due) }

def start (a : Agenda κ β) : Agenda κ β := { a with runs := a.runs + 1 }

def take (a : Agenda κ β) (now : κ) : Agenda κ β :=
  match a.waiting with
  | [] => a
  | job :: rest => { a with waiting := rest, calls := a.calls ++ [⟨job, now, a.runs⟩] }

/-- What waits is in order and is, with what was called, all that was entered, each job once; none
was called early, and those of one run in order. -/
structure Kept (a : Agenda κ β) : Prop where
  sorted : a.waiting.Pairwise Job.Before
  once : (a.calls.map Dispatch.job ++ a.waiting).Perm a.made
  numbered : a.made.map Job.serial = List.range a.made.length
  notEarly : ∀ c ∈ a.calls, c.job.due ≤ c.now
  inOrder : a.calls.Pairwise fun c d => c.run = d.run → c.job.Before d.job
  begun : ∀ c ∈ a.calls, c.run ≤ a.runs

def Ahead (a : Agenda κ β) : Prop :=
  ∀ c ∈ a.calls, c.run = a.runs → ∀ j ∈ a.waiting, c.job.Before j

def Reached (a : Agenda κ β) (due : κ) : Prop :=
  ∀ c ∈ a.calls, c.run = a.runs → c.job.due ≤ due

variable {a : Agenda κ β} {due now : κ} {what : β}

theorem kept_empty : (empty : Agenda κ β).Kept := ⟨.nil, .nil, rfl, nofun, .nil, nofun⟩

theorem perm_waiting_add (a : Agenda κ β) (due : κ) (what : β) :
    (a.add due what).waiting.Perm (⟨a.made.length, due, what⟩ :: a.waiting) := by
  refine List.perm_middle.trans (.cons _ ?_)
  rw [List.takeWhile_append_dropWhile]

theorem serial_lt (kept : a.Kept) {j : Job κ β} (waits : j ∈ a.waiting) :
    j.serial < a.made.length := by
  have made := kept.once.mem_iff.mp (List.mem_append_right _ waits)
  have serial := List.mem_map_of_mem (f := Job.serial) made
  rw [kept.numbered] at serial
  exact List.mem_range.mp serial

theorem sorted_add (kept : a.Kept) (due : κ) (what : β) :
    (a.add due what).waiting.Pairwise Job.Before := by
  have sorted := kept.sorted
  rw [← List.takeWhile_append_dropWhile (p := Job.early due) (l := a.waiting)] at sorted
  obtain ⟨front, back, across⟩ := List.pairwise_append.mp sorted
  have first : ∀ j ∈ a.waiting.takeWhile (Job.early due),
      j.Before ⟨a.made.length, due, what⟩ := by
    intro j waits
    have isEarly : Job.early due j := List.mem_takeWhile_imp waits
    have isEarly : j.due ≤ due := of_decide_eq_true isEarly
    refine (lt_or_eq_of_le isEarly).imp_right fun same => ⟨same, ?_⟩
    exact serial_lt kept ((List.takeWhile_sublist _).subset waits)
  refine List.pairwise_append.mpr ⟨front, List.pairwise_cons.mpr ⟨?_, back⟩, ?_⟩
  · -- the first of the rest is due later, and the others come after it
    cases later : a.waiting.dropWhile (Job.early due) with
    | nil => exact nofun
    | cons k rest =>
      have late : due < k.due := by
        have fails := List.head_dropWhile_not (p := Job.early due) (l := a.waiting)
          (by rw [later]; exact List.cons_ne_nil _ _)
        simp only [later, List.head_cons, Job.early, decide_eq_false_iff_not] at fails
        exact lt_of_not_ge fails
      rw [later] at back
      intro j member
      rcases List.mem_cons.mp member with rfl | behind
      · exact .inl late
      · exact .trans (.inl late) ((List.pairwise_cons.mp back).1 j behind)
  · intro j waits k member
    rcases List.mem_cons.mp member with rfl | behind
    · exact first j waits
    · exact across j waits k behind

theorem kept_add (kept : a.Kept) (due : κ) (what : β) : (a.add due what).Kept := by
  refine ⟨sorted_add kept due what, ?_, ?_, kept.notEarly, kept.inOrder, kept.begun⟩
  · refine ((perm_waiting_add a due what).append_left _).trans ?_
    refine List.perm_middle.trans ?_
    refine (kept.once.cons _).trans ?_
    exact (List.perm_append_singleton _ _).symm
  · change (a.made ++ [_]).map Job.serial = _
    rw [List.map_append, kept.numbered]
    change _ = List.range (a.made ++ [_]).length
    rw [List.length_append, List.length_singleton, List.range_succ]
    rfl

theorem kept_start (kept : a.Kept) : a.start.Kept :=
  { kept with begun := fun c called => Nat.le_succ_of_le (kept.begun c called) }

theorem ahead_start (kept : a.Kept) : a.start.Ahead := fun c called this' =>
  absurd (this' ▸ kept.begun c called) (Nat.not_succ_le_self _)

theorem ahead_add {reached : κ} (ahead : a.Ahead) (all : a.Reached reached)
    (later : reached < due) : (a.add due what).Ahead := by
  intro c called this' j waits
  rcases List.mem_cons.mp ((perm_waiting_add a due what).mem_iff.mp waits) with rfl | waited
  · exact .inl (lt_of_le_of_lt (all c called this') later)
  · exact ahead c called this' j waited

variable {job : Job κ β} {rest : List (Job κ β)}

omit [LinearOrder κ] in
theorem take_eq (front : a.waiting = job :: rest) (now : κ) : a.take now =
    { a with waiting := rest, calls := a.calls ++ [⟨job, now, a.runs⟩] } := by
  rw [take, front]

theorem kept_take (kept : a.Kept) (ahead : a.Ahead) (front : a.waiting = job :: rest)
    (isDue : job.due ≤ now) : (a.take now).Kept := by
  rw [take_eq front]
  have sorted := kept.sorted
  rw [front] at sorted
  constructor
  case sorted => exact (List.pairwise_cons.mp sorted).2
  case once =>
    have once := kept.once
    rw [front, ← List.singleton_append, ← List.append_assoc] at once
    rwa [List.map_append]
  case numbered => exact kept.numbered
  case notEarly =>
    intro c called
    rcases List.mem_append.mp called with before | now'
    · exact kept.notEarly c before
    · rw [List.mem_singleton.mp now']
      exact isDue
  case inOrder =>
    refine List.pairwise_append.mpr ⟨kept.inOrder, List.pairwise_singleton _ _, ?_⟩
    intro c called d last same
    rw [List.mem_singleton.mp last] at same ⊢
    exact ahead c called same job (front ▸ .head rest)
  case begun =>
    intro c called
    rcases List.mem_append.mp called with before | now'
    · exact kept.begun c before
    · rw [List.mem_singleton.mp now']

theorem ahead_take (kept : a.Kept) (ahead : a.Ahead) (front : a.waiting = job :: rest) :
    (a.take now).Ahead ∧ (a.take now).Reached job.due := by
  rw [take_eq front]
  have sorted := kept.sorted
  rw [front] at sorted
  constructor
  · intro c called this' j waits
    rcases List.mem_append.mp called with before | now'
    · exact ahead c before this' j (front ▸ .tail job waits)
    · rw [List.mem_singleton.mp now']
      exact (List.pairwise_cons.mp sorted).1 j waits
  · intro c called this'
    rcases List.mem_append.mp called with before | now'
    · exact (ahead c before this' job (front ▸ .head rest)).due_le
    · rw [List.mem_singleton.mp now']

def Expands (waiting' waiting : List κ) : Prop :=
  ∃ due rest added, waiting = due :: rest ∧ waiting'.Perm (rest ++ added) ∧ ∀ d ∈ added, due < d

theorem wellFounded_expands [WellFoundedGT κ] : WellFounded (@Expands κ _) := by
  have hydra : WellFounded (Relation.CutExpand ((· > ·) : κ → κ → Prop)) :=
    wellFounded_gt.cutExpand
  refine Subrelation.wf ?_ (InvImage.wf (fun waiting : List κ => (waiting : Multiset κ)) hydra)
  rintro waiting' _ ⟨due, rest, added, rfl, perm, later⟩
  refine ⟨added, due, later, ?_⟩
  change (waiting' : Multiset κ) + {due} = ((due :: rest : List κ) : Multiset κ) + added
  rw [Multiset.coe_eq_coe.mpr perm, ← Multiset.coe_add, ← Multiset.cons_coe,
    ← Multiset.singleton_add, add_comm, add_assoc]

end Agenda

end M33mu.Lib
