import Mathlib.Data.Fintype.Card
import M33mu.Lib.Agenda
import M33mu.Lib.Linked
import M33mu.Lib.Run

/-!
`mm_scheduler`, the list of the events that are to come, in the order of the cycles they are due at;
while a run calls what is due, the callbacks add to the list.
-/

namespace M33mu

open Lib

/-- A count of cycles, `mm_u64`: the scheduler only compares them. -/
abbrev Cycle := Fin (2 ^ 64)

abbrev Pointer := Fin (2 ^ 64)

/-- `mm_sched_event`; what the callback is given stands in `arg`. -/
structure SchedEvent where
  dueCycle : Cycle
  cb : Pointer
  arg : Pointer
  next : Pointer

/-- `mm_scheduler`, and the memory of the events. -/
structure Scheduler where
  head : Pointer
  events : Pointer → SchedEvent

namespace Scheduler

def init (s : Scheduler) : Scheduler := { s with head := 0 }

def next (s : Scheduler) (ev : Pointer) : Pointer := (s.events ev).next

def due (s : Scheduler) (ev : Pointer) : Cycle := (s.events ev).dueCycle

def what (s : Scheduler) (ev : Pointer) : Pointer × Pointer := ((s.events ev).cb, (s.events ev).arg)

def setNext (s : Scheduler) (ev cur : Pointer) : Scheduler :=
  { s with events := Function.update s.events ev { s.events ev with next := cur } }

def setLink (s : Scheduler) (link : Option Pointer) (ev : Pointer) : Scheduler :=
  match link with
  | none => { s with head := ev }
  | some before => s.setNext before ev

/-- `mm_scheduler_schedule`; a list that does not end would keep it from returning. -/
def schedule (s : Scheduler) (ev : Pointer) : Option (Bool × Scheduler) :=
  if ev = 0 ∨ (s.events ev).cb = 0 then some (false, s)
  else
    let s := s.setNext ev 0
    (seek 0 s.next (fun cur => s.due cur ≤ s.due ev) (2 ^ 64) none s.head).map fun (link, cur) =>
      (true, (s.setNext ev cur).setLink link ev)

def nextDue (s : Scheduler) : Cycle := if s.head = 0 then -1 else s.due s.head

/-- The turn of the loop of `mm_scheduler_run_due` up to the call, if there is one. -/
def takeDue (s : Scheduler) (now : Cycle) : Option (Pointer × Scheduler) :=
  if s.head ≠ 0 ∧ s.due s.head ≤ now then
    let ev := s.head
    let s := { s with head := s.next ev }
    some (ev, s.setNext ev 0)
  else none

def fill (s : Scheduler) (ev : Pointer) (due : Cycle) (cb arg : Pointer) : Scheduler :=
  if ev = 0 then s
  else
    { s with
      events := Function.update s.events ev
        { s.events ev with dueCycle := due, cb := cb, arg := arg } }

def queue (s : Scheduler) : List Pointer := places 0 s.next (2 ^ 64) s.head

variable {s : Scheduler} {ev cur : Pointer} {l : List Pointer}

@[simp] theorem head_setNext (s : Scheduler) (ev cur : Pointer) : (s.setNext ev cur).head = s.head :=
  rfl

@[simp] theorem next_setNext (s : Scheduler) (ev cur : Pointer) :
    (s.setNext ev cur).next = Function.update s.next ev cur := by
  funext a
  rw [next, setNext]
  dsimp only
  by_cases here : a = ev
  · rw [here, Function.update_self, Function.update_self]
  · rw [Function.update_of_ne here, Function.update_of_ne here, next]

@[simp] theorem due_setNext (s : Scheduler) (ev cur : Pointer) : (s.setNext ev cur).due = s.due := by
  funext a
  rw [due, setNext]
  dsimp only
  by_cases here : a = ev
  · rw [here, Function.update_self, due]
  · rw [Function.update_of_ne here, due]

@[simp] theorem what_setNext (s : Scheduler) (ev cur : Pointer) :
    (s.setNext ev cur).what = s.what := by
  funext a
  rw [what, setNext]
  dsimp only
  by_cases here : a = ev
  · rw [here, Function.update_self, what]
  · rw [Function.update_of_ne here, what]

@[simp] theorem due_setLink (s : Scheduler) (link : Option Pointer) (ev : Pointer) :
    (s.setLink link ev).due = s.due := by
  cases link with
  | none => rfl
  | some before => exact due_setNext s before ev

@[simp] theorem what_setLink (s : Scheduler) (link : Option Pointer) (ev : Pointer) :
    (s.setLink link ev).what = s.what := by
  cases link with
  | none => rfl
  | some before => exact what_setNext s before ev

def Sound (s : Scheduler) : Prop := Linked 0 s.next s.head s.queue

theorem length_lt {next : Pointer → Pointer} {a : Pointer} (linked : Linked 0 next a l) :
    l.length < 2 ^ 64 := by
  have fresh : (0 :: l).Nodup := List.nodup_cons.mpr ⟨linked.null_notMem, linked.nodup⟩
  have few := fresh.length_le_card
  rwa [Fintype.card_fin] at few

theorem queue_eq (linked : Linked 0 s.next s.head l) : s.queue = l :=
  linked.places_eq (Nat.le_of_lt (length_lt linked))

theorem sound_of_linked (linked : Linked 0 s.next s.head l) : s.Sound := by
  rwa [Sound, queue_eq linked]

theorem events_fill_of_ne {a : Pointer} (other : a ≠ ev) (due : Cycle) (cb arg : Pointer) :
    (s.fill ev due cb arg).events a = s.events a := by
  rw [fill]
  split
  · rfl
  · exact Function.update_of_ne other _ _

theorem events_fill (some' : ev ≠ 0) (s : Scheduler) (due : Cycle) (cb arg : Pointer) :
    (s.fill ev due cb arg).events ev =
      { s.events ev with dueCycle := due, cb := cb, arg := arg } := by
  rw [fill, if_neg some']
  exact Function.update_self _ _ _

theorem next_fill (s : Scheduler) (ev : Pointer) (due : Cycle) (cb arg : Pointer) :
    (s.fill ev due cb arg).next = s.next := by
  funext a
  rw [next, next]
  by_cases here : a = ev
  · by_cases some' : ev = 0
    · rw [fill, if_pos some']
    · rw [here, events_fill some']
  · rw [events_fill_of_ne here]

theorem head_fill (s : Scheduler) (ev : Pointer) (due : Cycle) (cb arg : Pointer) :
    (s.fill ev due cb arg).head = s.head := by
  rw [fill]
  split <;> rfl

theorem queue_fill (s : Scheduler) (ev : Pointer) (due : Cycle) (cb arg : Pointer) :
    (s.fill ev due cb arg).queue = s.queue := by
  rw [queue, next_fill, head_fill, queue]

theorem sound_fill (sound : s.Sound) (ev : Pointer) (due : Cycle) (cb arg : Pointer) :
    (s.fill ev due cb arg).Sound := by
  rwa [Sound, next_fill, head_fill, queue_fill]

theorem linked_setLink {p q : List Pointer} (linked : Linked 0 s.next s.head (p ++ q))
    (some' : ev ≠ 0) (fresh : ev ∉ p ++ q) :
    Linked 0 ((s.setNext ev (q.headD 0)).setLink p.getLast? ev).next
      ((s.setNext ev (q.headD 0)).setLink p.getLast? ev).head (p ++ ev :: q) := by
  have other {a : Pointer} (member : a ∈ p ++ q) : a ≠ ev := fun here => fresh (here ▸ member)
  cases last : p.getLast? with
  | none =>
    obtain rfl := List.getLast?_eq_none_iff.mp last
    change Linked 0 (s.setNext ev (q.headD 0)).next ev (ev :: q)
    rw [next_setNext]
    refine linked.splice some' (Function.update_self _ _ _) nofun fun a member _ => ?_
    rw [Function.update_of_ne (other member)]
  | some before =>
    have inside : before ∈ p := List.mem_of_getLast? last
    have occupied : p.isEmpty = false := by
      cases p with
      | nil => cases inside
      | cons _ _ => rfl
    have spliced (first : _) (link : _) (same : _) :
        Linked 0 ((s.setNext ev (q.headD 0)).setNext before ev).next
          (if p.isEmpty then ev else s.head) (p ++ ev :: q) :=
      linked.splice some' first link same
    rw [occupied, if_neg Bool.false_ne_true] at spliced
    refine spliced ?_ ?_ ?_
    · rw [next_setNext, next_setNext,
        Function.update_of_ne (other (List.mem_append_left q inside)).symm, Function.update_self]
    · rw [last]
      rintro _ ⟨⟩
      rw [next_setNext, Function.update_self]
    · intro a member inner
      have inner : a ≠ before := fun here => inner (here ▸ last)
      rw [next_setNext, next_setNext, Function.update_of_ne inner,
        Function.update_of_ne (other member)]

theorem schedule_eq (sound : s.Sound) (some' : ev ≠ 0) (cb : (s.events ev).cb ≠ 0)
    (fresh : ev ∉ s.queue) :
    ∃ s', s.schedule ev = some (true, s') ∧ s'.due = s.due ∧ s'.what = s.what ∧ s'.Sound ∧
      s'.queue = s.queue.takeWhile (fun a => s.due a ≤ s.due ev) ++
        ev :: s.queue.dropWhile (fun a => s.due a ≤ s.due ev) := by
  generalize split : (fun a => decide (s.due a ≤ s.due ev)) = keep
  have whole : s.queue.takeWhile keep ++ s.queue.dropWhile keep = s.queue :=
    List.takeWhile_append_dropWhile
  have linked : Linked 0 (s.setNext ev 0).next s.head s.queue := by
    refine sound.congr fun b member => ?_
    have other : b ≠ ev := fun here => fresh (here ▸ member)
    rw [next_setNext, Function.update_of_ne other]
  have walk := linked.seek_eq (length_lt linked) keep none
  rw [Option.or_none] at walk
  have spliced := linked_setLink (s := s.setNext ev 0) (p := s.queue.takeWhile keep)
    (q := s.queue.dropWhile keep) (by rwa [whole]) some' (by rwa [whole])
  refine ⟨_, ?_, ?_, ?_, sound_of_linked spliced, queue_eq spliced⟩
  · rw [schedule, if_neg (not_or_intro some' cb)]
    dsimp only
    rw [due_setNext, split, head_setNext, walk]
    rfl
  · rw [due_setLink, due_setNext, due_setNext]
  · rw [what_setLink, what_setNext, what_setNext]

theorem takeDue_eq (sound : s.Sound) (now : Cycle) :
    (s.takeDue now = none ∧ ∀ ev ∈ s.queue.head?, now < s.due ev) ∨
    ∃ ev rest s', s.queue = ev :: rest ∧ s.due ev ≤ now ∧ s.takeDue now = some (ev, s') ∧
      s'.due = s.due ∧ s'.what = s.what ∧ s'.Sound ∧ s'.queue = rest := by
  rw [Sound] at sound
  cases list : s.queue with
  | nil =>
    rw [list] at sound
    exact .inl ⟨if_neg fun found => found.1 sound, nofun⟩
  | cons ev rest =>
    rw [list] at sound
    have fresh := sound.nodup
    obtain ⟨here, some', linked⟩ := sound
    by_cases isDue : s.due ev ≤ now
    · refine .inr ⟨ev, rest, setNext { s with head := s.next ev } ev 0, rfl, isDue, ?_,
        due_setNext _ ev 0, what_setNext _ ev 0, ?_⟩
      · rw [takeDue, here, if_pos ⟨some', isDue⟩]
      · have rested : Linked 0 (setNext { s with head := s.next ev } ev 0).next (s.next ev) rest := by
          refine linked.congr fun b member => ?_
          have other : b ≠ ev := fun here => (List.nodup_cons.mp fresh).1 (here ▸ member)
          rw [next_setNext, Function.update_of_ne other]
          rfl
        exact ⟨sound_of_linked rested, queue_eq rested⟩
    · refine .inl ⟨?_, ?_⟩
      · rw [takeDue, here, if_neg fun found => isDue found.2]
      · rintro _ ⟨⟩
        exact lt_of_not_ge isDue

/-- Where the control is: outside the scheduler, at the loop of a run, or in the callback of an
event of that run. -/
inductive Phase
  | idle
  | draining (now : Cycle)
  | calling (now due : Cycle)
  deriving DecidableEq

/-- The scheduler in use, with the jobs that were scheduled, the calls that were made, the runs that
were begun, and the serial number of the job that each event was last scheduled for. -/
structure Machine where
  sched : Scheduler
  phase : Phase
  serial : Pointer → Nat
  made : List (Job Cycle (Pointer × Pointer))
  calls : List (Dispatch Cycle (Pointer × Pointer))
  runs : Nat

/-- A call of `mm_scheduler_schedule` or `mm_scheduler_run_due`, the next turn of a run, and the
return of a callback. -/
inductive Act
  | schedule (ev : Pointer) (due : Cycle) (cb arg : Pointer)
  | runDue (now : Cycle)
  | turn
  | ret

def Act.event : Act → Option Pointer
  | .schedule ev _ _ _ => some ev
  | _ => none

def Phase.allows : Phase → Act → Bool
  | .idle, .schedule _ _ _ _ => true
  | .idle, .runDue _ => true
  | .draining _, .turn => true
  | .calling _ own, .schedule _ due _ _ => own < due
  | .calling _ _, .ret => true
  | _, _ => false

theorem Phase.draining_of_allows {p : Phase} (allowed : p.allows .turn) :
    ∃ now, p = .draining now := by
  cases p with
  | draining now => exact ⟨now, rfl⟩
  | idle => cases allowed
  | calling _ _ => cases allowed

theorem Phase.calling_of_allows {p : Phase} (allowed : p.allows .ret) :
    ∃ now own, p = .calling now own := by
  cases p with
  | calling now own => exact ⟨now, own, rfl⟩
  | idle => cases allowed
  | draining _ => cases allowed

namespace Machine

def init (s : Scheduler) : Machine := ⟨s.init, .idle, fun _ => 0, [], [], 0⟩

def job (m : Machine) (ev : Pointer) : Job Cycle (Pointer × Pointer) :=
  ⟨m.serial ev, m.sched.due ev, m.sched.what ev⟩

def queued (m : Machine) : List (Job Cycle (Pointer × Pointer)) := m.sched.queue.map m.job

def agenda (m : Machine) : Agenda Cycle (Pointer × Pointer) := ⟨m.made, m.queued, m.calls, m.runs⟩

def step (m : Machine) : Act → Machine
  | .schedule ev due cb arg =>
    match (m.sched.fill ev due cb arg).schedule ev with
    | some (true, s) =>
      { m with
        sched := s
        serial := Function.update m.serial ev m.made.length
        made := m.made ++ [⟨m.made.length, due, (cb, arg)⟩] }
    | some (false, s) => { m with sched := s }
    | none => m
  | .runDue now => { m with phase := .draining now, runs := m.runs + 1 }
  | .turn =>
    match m.phase with
    | .draining now =>
      match m.sched.takeDue now with
      | some (ev, s) =>
        { m with
          sched := s
          phase := .calling now (s.due ev)
          calls := m.calls ++ [⟨⟨m.serial ev, s.due ev, s.what ev⟩, now, m.runs⟩] }
      | none => { m with phase := .idle }
    | _ => m
  | .ret =>
    match m.phase with
    | .calling now _ => { m with phase := .draining now }
    | _ => m

def Legal (m : Machine) (act : Act) : Prop :=
  m.phase.allows act ∧ ∀ ev ∈ act.event, ev ∉ m.sched.queue

def legal (m : Machine) (act : Act) : Bool :=
  m.phase.allows act && act.event.all fun ev => !m.sched.queue.contains ev

theorem legal_iff (m : Machine) (act : Act) : m.legal act = true ↔ m.Legal act := by
  rw [legal, Legal, Bool.and_eq_true]
  refine and_congr_right fun _ => ?_
  cases act.event <;> simp

instance (m : Machine) (act : Act) : Decidable (m.Legal act) :=
  decidable_of_iff _ (m.legal_iff act)

variable {m : Machine} {due now : Cycle} {arg cb : Pointer}

structure Good (m : Machine) : Prop where
  sound : m.sched.Sound
  kept : m.agenda.Kept
  ordered : match m.phase with
    | .idle => True
    | .draining _ => m.agenda.Ahead
    | .calling _ own => m.agenda.Ahead ∧ m.agenda.Reached own

theorem good_init (s : Scheduler) : (init s).Good := by
  have linked : Linked 0 s.init.next s.init.head [] := rfl
  have none' : (init s).agenda = Agenda.empty := by
    change (⟨[], s.init.queue.map (init s).job, [], 0⟩ : Agenda _ _) = _
    rw [queue_eq linked]
    rfl
  refine ⟨sound_of_linked linked, ?_, trivial⟩
  rw [none']
  exact Agenda.kept_empty

theorem schedule_refused (sound : m.sched.Sound) (fresh : ev ∉ m.sched.queue)
    (refused : ¬ (ev ≠ 0 ∧ cb ≠ 0)) (due : Cycle) (arg : Pointer) :
    ∃ s', (m.sched.fill ev due cb arg).schedule ev = some (false, s') ∧ s'.Sound ∧
      (m.step (.schedule ev due cb arg)).sched = s' ∧
      (m.step (.schedule ev due cb arg)).phase = m.phase ∧
      (m.step (.schedule ev due cb arg)).agenda = m.agenda := by
  have result : (m.sched.fill ev due cb arg).schedule ev =
      some (false, m.sched.fill ev due cb arg) := by
    refine if_pos (or_iff_not_imp_left.mpr fun some' => ?_)
    rw [events_fill some']
    exact not_not.mp fun called => refused ⟨some', called⟩
  have stepped : m.step (.schedule ev due cb arg) =
      { m with sched := m.sched.fill ev due cb arg } := by
    rw [step, result]
  have same : ({ m with sched := m.sched.fill ev due cb arg } : Machine).queued = m.queued := by
    rw [queued, queued, queue_fill]
    refine List.map_congr_left fun a member => ?_
    have other : a ≠ ev := fun here => fresh (here ▸ member)
    rw [job, job, Scheduler.due, Scheduler.due, what, what, events_fill_of_ne other]
  refine ⟨_, result, sound_fill sound ev due cb arg, ?_⟩
  rw [stepped]
  refine ⟨rfl, rfl, ?_⟩
  rw [agenda, same]
  rfl

theorem schedule_taken (sound : m.sched.Sound) (fresh : ev ∉ m.sched.queue) (some' : ev ≠ 0)
    (called : cb ≠ 0) (due : Cycle) (arg : Pointer) :
    ∃ s', (m.sched.fill ev due cb arg).schedule ev = some (true, s') ∧ s'.Sound ∧
      (m.step (.schedule ev due cb arg)).sched = s' ∧
      (m.step (.schedule ev due cb arg)).phase = m.phase ∧
      (m.step (.schedule ev due cb arg)).agenda = m.agenda.add due (cb, arg) := by
  have filled : (m.sched.fill ev due cb arg).events ev =
      { m.sched.events ev with dueCycle := due, cb := cb, arg := arg } := events_fill some' _ _ _ _
  have own : (m.sched.fill ev due cb arg).due ev = due := by rw [Scheduler.due, filled]
  obtain ⟨s', result, sameDue, sameWhat, sound', queue'⟩ := schedule_eq
    (sound_fill sound ev due cb arg) some' (by rw [filled]; exact called)
    (by rwa [queue_fill])
  have stepped : m.step (.schedule ev due cb arg) = { m with
      sched := s'
      serial := Function.update m.serial ev m.made.length
      made := m.made ++ [⟨m.made.length, due, (cb, arg)⟩] } := by
    rw [step, result]
  refine ⟨s', result, sound', ?_⟩
  rw [stepped]
  refine ⟨rfl, rfl, ?_⟩
  generalize after : ({ m with
      sched := s'
      serial := Function.update m.serial ev m.made.length
      made := m.made ++ [⟨m.made.length, due, (cb, arg)⟩] } : Machine) = m'
  have jobs : ∀ a, m'.job a =
      ⟨Function.update m.serial ev m.made.length a, (m.sched.fill ev due cb arg).due a,
        (m.sched.fill ev due cb arg).what a⟩ := by
    intro a
    rw [← after, job, sameDue, sameWhat]
  have new : m'.job ev = ⟨m.made.length, due, (cb, arg)⟩ := by
    rw [jobs, own, Function.update_self, what, filled]
  have old : m.queued = m.sched.queue.map m'.job := by
    refine List.map_congr_left fun a member => ?_
    have other : a ≠ ev := fun here => fresh (here ▸ member)
    rw [jobs, job, Function.update_of_ne other, Scheduler.due, Scheduler.due, what, what,
      events_fill_of_ne other]
  have early : (fun a => decide ((m.sched.fill ev due cb arg).due a ≤
      (m.sched.fill ev due cb arg).due ev)) = Job.early due ∘ m'.job := by
    funext a
    rw [Function.comp_apply, jobs, own, Job.early]
  rw [queue_fill, early] at queue'
  have waiting : m'.queued = m.queued.takeWhile (Job.early due) ++
      ⟨m.made.length, due, (cb, arg)⟩ :: m.queued.dropWhile (Job.early due) := by
    rw [old, List.takeWhile_map, List.dropWhile_map, ← new, ← List.map_cons, ← List.map_append,
      ← queue', queued, ← after]
  rw [agenda, waiting, ← after]
  rfl

theorem turn_cases (good : m.Good) (run : m.phase = .draining now) :
    ((m.step .turn) = { m with phase := .idle } ∧ ∀ j ∈ m.queued, now < j.due) ∨
    ∃ job rest, m.queued = job :: rest ∧ job.due ≤ now ∧ (m.step .turn).sched.Sound ∧
      (m.step .turn).phase = .calling now job.due ∧
      (m.step .turn).agenda = m.agenda.take now := by
  rcases takeDue_eq good.sound now with ⟨result, late⟩ |
    ⟨ev, rest, s', list, isDue, result, sameDue, sameWhat, sound', queue'⟩
  · refine .inl ⟨?_, fun j waits => ?_⟩
    · rw [step, run]
      dsimp only
      rw [result]
    · have sorted : m.queued.Pairwise Job.Before := good.kept.sorted
      rw [queued] at sorted waits
      cases list : m.sched.queue with
      | nil =>
        rw [list] at waits
        cases waits
      | cons ev rest =>
        rw [list] at sorted waits late
        have first : now < (m.job ev).due := late ev rfl
        rcases List.mem_cons.mp waits with rfl | behind
        · exact first
        · exact lt_of_lt_of_le first ((List.pairwise_cons.mp sorted).1 j behind).due_le
  · have front : m.queued = m.job ev :: rest.map m.job := by
      rw [queued, list]
      rfl
    have stepped : m.step .turn = { m with
        sched := s'
        phase := .calling now (s'.due ev)
        calls := m.calls ++ [⟨⟨m.serial ev, s'.due ev, s'.what ev⟩, now, m.runs⟩] } := by
      rw [step, run]
      dsimp only
      rw [result]
    refine .inr ⟨m.job ev, rest.map m.job, front, isDue, ?_⟩
    rw [stepped]
    refine ⟨sound', ?_, ?_⟩
    · dsimp only
      rw [sameDue]
      rfl
    · rw [Agenda.take_eq (a := m.agenda) front, agenda, queued]
      dsimp only
      rw [queue', sameDue, sameWhat]
      congr 1
      refine List.map_congr_left fun a _ => ?_
      rw [job, job, sameDue, sameWhat]

theorem good_step (good : m.Good) {act : Act} (legal : m.Legal act) : (m.step act).Good := by
  cases act with
  | schedule ev due cb arg =>
    obtain ⟨allowed, fresh⟩ := legal
    have fresh : ev ∉ m.sched.queue := fresh ev rfl
    by_cases taken : ev ≠ 0 ∧ cb ≠ 0
    · obtain ⟨s', -, sound', sched, phase, added⟩ :=
        schedule_taken good.sound fresh taken.1 taken.2 due arg
      refine ⟨by rwa [sched], ?_, ?_⟩
      · rw [added]
        exact Agenda.kept_add good.kept due (cb, arg)
      · have ordered := good.ordered
        rw [phase, added]
        cases here : m.phase with
        | idle => trivial
        | draining now =>
          rw [here] at allowed
          cases allowed
        | calling now own =>
          rw [here] at allowed ordered
          exact ⟨Agenda.ahead_add ordered.1 ordered.2 (of_decide_eq_true allowed), ordered.2⟩
    · obtain ⟨s', -, sound', sched, phase, same⟩ :=
        schedule_refused good.sound fresh taken due arg
      refine ⟨by rwa [sched], ?_, ?_⟩
      · rw [same]
        exact good.kept
      · rw [phase, same]
        exact good.ordered
  | runDue now => exact ⟨good.sound, Agenda.kept_start good.kept, Agenda.ahead_start good.kept⟩
  | turn =>
    obtain ⟨now, run⟩ := Phase.draining_of_allows legal.1
    have ahead : m.agenda.Ahead := by
      have ordered := good.ordered
      rwa [run] at ordered
    rcases turn_cases good run with ⟨stepped, -⟩ | ⟨job, rest, front, isDue, sound, phase, taken⟩
    · rw [stepped]
      exact ⟨good.sound, good.kept, trivial⟩
    · refine ⟨sound, ?_, ?_⟩
      · rw [taken]
        exact Agenda.kept_take good.kept ahead front isDue
      · rw [phase, taken]
        exact Agenda.ahead_take good.kept ahead front
  | ret =>
    obtain ⟨now, own, run⟩ := Phase.calling_of_allows legal.1
    have ordered := good.ordered
    rw [run] at ordered
    rw [step, run]
    exact ⟨good.sound, good.kept, ordered.1⟩

def Around (m' m : Machine) : Prop :=
  ∃ now own requests, m.phase = .draining now ∧ (m.step .turn).phase = .calling now own ∧
    (∀ act ∈ requests, act.event.isSome) ∧ Along step Legal (m.step .turn) requests ∧
    m' = run step (m.step .turn) (requests ++ [.ret])

def dues (m : Machine) : List Cycle := m.queued.map Job.due

theorem good_run (good : m.Good) {acts : List Act} (legal : Along step Legal m acts) :
    (run step m acts).Good :=
  (throughout_of_along (P := Legal) (Q := Good) (fun _ _ good legal => good_step good legal)
    good legal).last

theorem dues_ret {own : Cycle} (calling : m.phase = .calling now own) :
    (m.step .ret).dues = m.dues := by
  rw [step, calling]
  rfl

theorem dues_run {own : Cycle} (good : m.Good) (calling : m.phase = .calling now own)
    {requests : List Act} (all : ∀ act ∈ requests, act.event.isSome)
    (legal : Along step Legal m requests) :
    (run step m requests).phase = .calling now own ∧
      ∃ added, (run step m requests).dues.Perm (m.dues ++ added) ∧ ∀ d ∈ added, own < d := by
  induction requests generalizing m with
  | nil => exact ⟨calling, [], by rw [List.append_nil]; exact .refl _, nofun⟩
  | cons act requests ih =>
    have good' := good_step good legal.1
    have rest := fun act member => all act (.tail _ member)
    cases act with
    | schedule ev due cb arg =>
      obtain ⟨allowed, fresh⟩ := legal.1
      have fresh : ev ∉ m.sched.queue := fresh ev rfl
      rw [calling] at allowed
      have later : own < due := of_decide_eq_true allowed
      by_cases taken : ev ≠ 0 ∧ cb ≠ 0
      · obtain ⟨s', -, -, -, phase, added'⟩ :=
          schedule_taken good.sound fresh taken.1 taken.2 due arg
        obtain ⟨still, added, perm, above⟩ := ih good' (phase.trans calling) rest legal.2
        have first : (m.step (.schedule ev due cb arg)).dues.Perm (due :: m.dues) := by
          have waiting := congrArg Agenda.waiting added'
          have perm := (Agenda.perm_waiting_add m.agenda due (cb, arg)).map Job.due
          rwa [← waiting] at perm
        refine ⟨still, due :: added, perm.trans ?_, ?_⟩
        · exact (first.append_right added).trans List.perm_middle.symm
        · exact List.forall_mem_cons.mpr ⟨later, above⟩
      · obtain ⟨s', -, -, -, phase, same⟩ :=
          schedule_refused good.sound fresh taken due arg
        obtain ⟨still, added, perm, above⟩ := ih good' (phase.trans calling) rest legal.2
        have kept : (m.step (.schedule ev due cb arg)).dues = m.dues :=
          congrArg (fun a : Agenda _ _ => a.waiting.map Job.due) same
        exact ⟨still, added, kept ▸ perm, above⟩
    | runDue _ => cases all _ (.head _)
    | turn => cases all _ (.head _)
    | ret => cases all _ (.head _)

theorem expands_of_around (good : m.Good) {m' : Machine} (around : Around m' m) :
    m'.Good ∧ Agenda.Expands m'.dues m.dues := by
  obtain ⟨now, own, requests, draining, calling, all, legal, rfl⟩ := around
  have turns : m.Legal .turn := ⟨by rw [draining]; rfl, nofun⟩
  have good' := good_step good turns
  obtain ⟨still, added, perm, above⟩ := dues_run good' calling all legal
  rw [run_append]
  have returned := good_run good' legal
  have returns : (run step (m.step .turn) requests).Legal .ret := ⟨by rw [still]; rfl, nofun⟩
  refine ⟨good_step returned returns, ?_⟩
  rw [run_cons, run_nil, dues_ret still]
  rcases turn_cases good draining with ⟨idle, -⟩ | ⟨job, rest, front, -, -, phase, taken⟩
  · rw [idle] at calling
    cases calling
  · obtain ⟨-, rfl⟩ := Phase.calling.inj (phase.symm.trans calling)
    have left : (m.step .turn).dues = rest.map Job.due := by
      have waiting := congrArg (fun a : Agenda _ _ => a.waiting.map Job.due) taken
      rwa [Agenda.take_eq (a := m.agenda) front] at waiting
    rw [left] at perm
    refine ⟨job.due, rest.map Job.due, added, ?_, perm, above⟩
    rw [dues, front, List.map_cons]

theorem acc_around (good : m.Good) : Acc Around m := by
  have hydra : WellFounded (@Agenda.Expands Cycle _) := Agenda.wellFounded_expands
  generalize list : m.dues = waiting
  induction waiting using hydra.induction generalizing m with
  | _ waiting ih =>
    refine ⟨m, fun m' around => ?_⟩
    obtain ⟨good', expands⟩ := expands_of_around good around
    exact ih m'.dues (list ▸ expands) good' rfl

/-- What holds in every state: the list ends and is in order, what it holds was scheduled and not
yet called, the rest was called once, in time and in order, the least due cycle is told, and every
run comes to its end. -/
structure Conforms (m : Machine) : Prop where
  sound : m.sched.Sound
  kept : m.agenda.Kept
  nextDue : ∀ t, t ≤ m.sched.nextDue ↔ ∀ j ∈ m.queued, t ≤ j.due
  attained : m.queued ≠ [] → ∃ j ∈ m.queued, j.due = m.sched.nextDue
  ends : Acc Around m

def Answers (m : Machine) : Act → Prop
  | .schedule ev due cb arg => ∃ s, (m.sched.fill ev due cb arg).schedule ev =
      some (decide (ev ≠ 0 ∧ cb ≠ 0), s)
  | .turn => ∀ now, m.phase = .draining now → (m.step .turn).phase = .idle →
      ∀ j ∈ m.made, j.due ≤ now → ∃ c ∈ m.calls, c.job = j
  | _ => True

theorem nextDue_eq (sound : m.sched.Sound) :
    m.sched.nextDue = (m.queued.head?.map Job.due).getD (-1) := by
  rw [Sound] at sound
  rw [Scheduler.nextDue, queued]
  cases list : m.sched.queue with
  | nil =>
    rw [list] at sound
    exact if_pos sound
  | cons ev rest =>
    rw [list] at sound
    obtain ⟨here, some', -⟩ := sound
    rw [here, if_neg some']
    rfl

theorem conforms_of_good (good : m.Good) : m.Conforms := by
  have next := nextDue_eq good.sound
  have sorted : m.queued.Pairwise Job.Before := good.kept.sorted
  refine ⟨good.sound, good.kept, fun t => ?_, fun some' => ?_, acc_around good⟩
  · rw [next]
    cases list : m.queued with
    | nil =>
      refine iff_of_true ?_ nofun
      exact Fin.le_last t
    | cons job rest =>
      rw [list] at sorted
      refine ⟨fun least j waits => ?_, fun all => all job (.head rest)⟩
      rcases List.mem_cons.mp waits with rfl | behind
      · exact least
      · exact le_trans least ((List.pairwise_cons.mp sorted).1 j behind).due_le
  · obtain ⟨job, rest, list⟩ := List.exists_cons_of_ne_nil some'
    rw [next, list]
    exact ⟨job, .head rest, rfl⟩

theorem answers (good : m.Good) {act : Act} (legal : m.Legal act) : m.Answers act := by
  cases act with
  | schedule ev due cb arg =>
    have fresh : ev ∉ m.sched.queue := legal.2 ev rfl
    by_cases taken : ev ≠ 0 ∧ cb ≠ 0
    · obtain ⟨s', result, -⟩ := schedule_taken good.sound fresh taken.1 taken.2 due arg
      exact ⟨s', by rw [result, decide_eq_true taken]⟩
    · obtain ⟨s', result, -⟩ := schedule_refused good.sound fresh taken due arg
      exact ⟨s', by rw [result, decide_eq_false taken]⟩
  | turn =>
    intro now draining idle j made isDue
    rcases turn_cases good draining with ⟨-, late⟩ | ⟨_, _, _, _, _, phase, _⟩
    · rcases List.mem_append.mp (good.kept.once.mem_iff.mpr made) with called | waits
      · exact List.mem_map.mp called
      · exact absurd isDue (not_le_of_gt (late j waits))
    · rw [phase] at idle
      cases idle
  | runDue _ => trivial
  | ret => trivial

/-- Whatever is scheduled that is not in the list, by the callbacks for later than their own events,
and whatever the times of the runs: the list stays in order, each scheduling is called once, not
before its cycle and by the end of the first run at it or after it, the calls of a run are in the
order of the due cycles, and each run ends. -/
theorem events_called_once (s : Scheduler) (acts : List Act)
    (legal : Along step Legal (init s) acts) :
    Throughout step Conforms (init s) acts ∧ Along step Answers (init s) acts := by
  obtain ⟨good, meets⟩ := throughout_and_along (P := Legal) (Q := Good) (R := Answers)
    (fun _ _ good legal => ⟨good_step good legal, answers good legal⟩) (good_init s) legal
  exact ⟨good.imp fun _ => conforms_of_good, meets⟩

/-- Two events of one cycle with an earlier one between them, whose callback schedules a fourth
before the second is called. -/
def nested : List Act :=
  [.schedule 1 5 7 0, .schedule 2 3 7 0, .schedule 3 5 7 0, .runDue 5, .turn, .schedule 4 4 7 0, .ret,
    .turn, .ret, .turn, .ret, .turn, .ret, .turn]

theorem events_called_once_nested :
    Throughout step Conforms (init ⟨0, fun _ => ⟨0, 0, 0, 0⟩⟩) nested ∧
      Along step Answers (init ⟨0, fun _ => ⟨0, 0, 0, 0⟩⟩) nested :=
  events_called_once _ nested (by decide +kernel)

example : (run step (init ⟨0, fun _ => ⟨0, 0, 0, 0⟩⟩) nested).calls.map (·.job.serial) =
    [1, 3, 0, 2] := by decide +kernel

end Machine

end Scheduler

end M33mu
