import M33mu.ItAgreement
import M33mu.Pass

namespace M33mu

open Lib

def ItCache.next (it : ItCache) : ItCache := if it.remaining = 0 then it else it.advance

def Event.isSwitch : Event → Bool
  | .enter _ _ _ _ | .ret _ _ _ _ => true
  | _ => false

def Event.isRet : Event → Bool
  | .ret _ _ _ _ => true
  | _ => false

namespace Machine

variable {δ : Type u}

/-- From `m` on, a handler starts with an empty IT state, what is stacked describes `expected`, and a
return goes on with what it unstacked. -/
structure ItEntered (expected : ItCache) (m m' : Machine δ) : Prop where
  empty : m.EntersLast m' → m'.it.remaining = 0 ∧ ItState.get m'.cpu.xpsr = 0
  stacked : ∀ num origin target x, .enter num origin target x ∈ m.since m' →
    (ItState.syncFromXpsr x).Same expected
  resumed : ∀ x, m.Unstacks m' x → m'.it = ItState.syncFromXpsr x

variable (env : Env δ) (decode32 : Word → Decoded)

/-- The IT state of the next instruction for `SVC`, of the current one for every other entry. -/
def itExpected (m : Machine δ) (h : Host δ) : ItCache :=
  if m.Executes env decode32 h .svc then (ItState.syncFromXpsr m.cpu.xpsr).next
  else ItState.syncFromXpsr m.cpu.xpsr

def EntersClean (m : Machine δ) : Input δ → Prop
  | .pass h => ItEntered (m.itExpected env decode32 h) m (m.mainPass env decode32 h)
  | .restart _ _ => True

structure EntersOutside (d : Decoded) (m : Machine δ) (o : Outcome δ) : Prop where
  enters : m.EntersLast o.2 → ¬ m.Returns o.2 →
    m.it.remaining = 0 ∨ m.it.remaining = 1 ∧ o.1 = .ok
  pushes : m.EntersLast o.2 → d.kind = .svc ∨ 2 ≤ (m.since o.2).countP Event.isSwitch →
    (ItState.syncFromXpsr m.cpu.xpsr).remaining = 0
  returns : ∀ x, m.Unstacks o.2 x → o.1 = .ok ∨ m.EntersLast o.2 →
    (ItState.syncFromXpsr x).remaining = 0

def SyncOutside (m : Machine δ) : Input δ → Prop
  | .pass h =>
    match m.executed env decode32 h with
    | some (f, d, a) => EntersOutside d a (executeDecoded env f d a)
    | none => (m.attend h).1.pending = none → m.EntersLast (m.mainPass env decode32 h) →
      m.it.remaining = 0
  | .restart _ _ => True

variable {env decode32} {f : FetchResult} {d : Decoded} {P : Request → Prop}

theorem syncOutside_of_executed {m a : Machine δ} {h : Host δ}
    (executed : m.executed env decode32 h = some (f, d, a)) :
    SyncOutside env decode32 m (.pass h) = EntersOutside d a (executeDecoded env f d a) := by
  rw [SyncOutside, executed]

theorem syncOutside_of_none {m : Machine δ} {h : Host δ}
    (none : m.executed env decode32 h = none) : SyncOutside env decode32 m (.pass h) =
      ((m.attend h).1.pending = .none → m.EntersLast (m.mainPass env decode32 h) →
        m.it.remaining = 0) := by
  rw [SyncOutside, none]

/-- The events of quiet steps and entries: the first entry stacks the current block, a later one
finds nothing of it. -/
structure Stacks (base : Byte) (m m' : Machine δ) (es : List Event) : Prop where
  trace : m'.trace = es ++ m.trace
  enters : ∀ e ∈ es, ∃ num origin target x, e = .enter num origin target x ∧
    (ItState.get x = base ∨ ItState.get x = 0 ∧ 2 ≤ es.length)
  itState : ItState.get m'.cpu.xpsr = if es = [] then base else 0

theorem Local.pushed {m m' : Machine δ} (h : m.Local m') :
    ∃ es, Stacks (ItState.get m.cpu.xpsr) m m' es := by
  induction h with
  | refl => exact ⟨[], rfl, nofun, rfl⟩
  | tail _ step ih =>
    obtain ⟨es, trace, enters, itState⟩ := ih
    cases step with
    | inl quiet =>
      exact ⟨es, quiet.trace.trans trace, enters, quiet.cpu.itState.trans itState⟩
    | inr entry =>
      obtain ⟨num, -, entered⟩ := entry.entered
      refine ⟨_ :: es, entered.trans (congrArg _ trace), fun e mem => ?_, by simp [entry.itState]⟩
      cases mem with
      | head =>
        refine ⟨_, _, _, _, rfl, ?_⟩
        rw [ItState.get_or_thumb, itState]
        split
        · exact .inl rfl
        · rename_i any
          exact .inr ⟨rfl, Nat.succ_le_succ (List.length_pos_iff.mpr any)⟩
      | tail _ mem =>
        obtain ⟨num, origin, target, x, rfl, stacked⟩ := enters e mem
        exact ⟨num, origin, target, x, rfl, stacked.imp id fun ⟨left, two⟩ =>
          ⟨left, Nat.le_succ_of_le two⟩⟩

theorem Transfer.itState {a b : Machine δ} (h : Transfer env f P a b) :
    (∃ value mode sec x, b.trace = .ret value mode sec x :: a.trace ∧
      ItState.get b.cpu.xpsr = ItState.get x ∧ b.it = ItState.syncFromXpsr x) ∨
    ∃ ts, b.trace = ts ++ a.trace ∧ (∀ e ∈ ts, e.isSwitch = false) ∧
      ItState.get b.cpu.xpsr = ItState.get a.cpu.xpsr ∧ b.it = a.it := by
  have one (e : Event) (idle : e.isSwitch = false) : ∀ e' ∈ [e], e'.isSwitch = false :=
    fun e' mem => List.mem_singleton.mp mem ▸ idle
  cases h with
  | ret excRet _ ok =>
    obtain ⟨info, frame, w, -, eq⟩ := excReturn_of_ok env ok
    rw [eq]
    have unstacked := Cpu.itState_resume { a.cpu with exc := a.cpu.exc.pop.2 } info frame
      (a.cpu.unstackSp info)
    exact .inl ⟨_, _, _, frame.xpsr, rfl, unstacked, congrArg ItState.decode unstacked⟩
  | sg _ ns =>
    refine .inr ⟨[_], rfl, one _ rfl, ?_, rfl⟩
    simp only [record, Cpu.tzExecSg, ns]
    exact (Cpu.setActiveSp_quiet _ _).itState
  | bxns target => exact .inr ⟨[], rfl, List.forall_mem_nil _, (Cpu.enterNs_quiet _ rfl).itState, rfl⟩
  | blxns target returnAddr =>
    exact .inr ⟨[_], rfl, one _ rfl, (Cpu.enterNs_quiet _ rfl).itState, rfl⟩
  | tzReturn rec => exact .inr ⟨[_], rfl, one _ rfl, rfl, rfl⟩

/-- The events of an instruction: what its entries stack, and what it leaves of the block. -/
structure Leaves (base : Byte) (m m' : Machine δ) (es : List Event) : Prop where
  trace : m'.trace = es ++ m.trace
  enters : ∀ num origin target x, .enter num origin target x ∈ es →
    ItState.get x = base ∨ ItState.get x = 0 ∧ 2 ≤ es.countP Event.isSwitch
  last : m.EntersLast m' → ItState.get m'.cpu.xpsr = 0
  any : ∀ num origin target x, .enter num origin target x ∈ es → m.EntersLast m'
  block : ¬ m.Returns m' ∧ base = ItState.get m.cpu.xpsr ∧ m'.it = m.it ∨
    ∃ x, m.Unstacks m' x ∧ base = ItState.get x ∧ m'.it = ItState.syncFromXpsr x ∧
      (m.EntersLast m' → 2 ≤ es.countP Event.isSwitch)

theorem Stacks.countP {base : Byte} {m m' : Machine δ} {es : List Event}
    (h : Stacks base m m' es) : es.countP Event.isSwitch = es.length := by
  rw [List.countP_eq_length]
  intro e mem
  obtain ⟨num, origin, target, x, rfl, -⟩ := h.enters e mem
  rfl

theorem Stacks.onlyEnters {base : Byte} {m m' : Machine δ} {es : List Event}
    (h : Stacks base m m' es) : m.OnlyEnters m' :=
  ⟨es, h.trace, fun e mem => by
    obtain ⟨num, origin, target, x, eq, -⟩ := h.enters e mem
    exact ⟨num, origin, target, x, eq⟩⟩

theorem not_entersLast {m m' : Machine δ} {ts : List Event} (trace : m'.trace = ts ++ m.trace)
    (idle : ∀ e ∈ ts, e.isEnter = false) : ¬ m.EntersLast m' := by
  rintro ⟨longer, last⟩
  cases ts with
  | nil => rw [trace] at longer; exact absurd longer (Nat.lt_irrefl _)
  | cons e ts =>
    rw [trace] at last
    exact absurd (last.symm.trans (idle e (.head _))) nofun

theorem entersLast_of_enters {m m' : Machine δ} {es ts : List Event} (any : es ≠ [])
    (enters : ∀ e ∈ es, e.isEnter = true) (trace : m'.trace = (es ++ ts) ++ m.trace) :
    m.EntersLast m' := by
  cases es with
  | nil => exact absurd rfl any
  | cons e es =>
    rw [EntersLast, trace]
    refine ⟨by simp only [List.length_append, List.length_cons]; omega, ?_⟩
    simpa using enters e (.head _)

theorem Stacks.isEnter {base : Byte} {m m' : Machine δ} {es : List Event}
    (h : Stacks base m m' es) : ∀ e ∈ es, e.isEnter = true := by
  intro e mem
  obtain ⟨num, origin, target, x, rfl, -⟩ := h.enters e mem
  rfl

theorem isEnter_of_isSwitch {e : Event} (idle : e.isSwitch = false) : e.isEnter = false := by
  cases e with
  | enter => cases idle
  | _ => rfl

theorem Effect.leaves {m m' : Machine δ} (h : Effect env f P m m') :
    ∃ base es, Leaves base m m' es := by
  cases h with
  | stays h =>
    obtain ⟨es, pushed⟩ := h.pushed
    refine ⟨_, es, pushed.trace, fun num origin target x mem => ?_, fun last => ?_,
      fun num origin target x mem => ?_,
      .inl ⟨fun ⟨x, unstacks⟩ => pushed.onlyEnters.not_unstacks x unstacks, rfl, h.it⟩⟩
    · obtain ⟨_, _, _, _, eq, stacked⟩ := pushed.enters _ mem
      cases eq
      rw [pushed.countP]
      exact stacked
    · rw [pushed.itState, if_neg]
      rintro rfl
      exact absurd last (not_entersLast pushed.trace nofun)
    · exact entersLast_of_enters (List.ne_nil_of_mem mem) pushed.isEnter
        (by rw [List.append_nil, pushed.trace])
  | @transfers a b _ before transfer after =>
    obtain ⟨es, pushed⟩ := after.pushed
    rcases transfer.itState with ⟨value, mode, sec, x, trace, itState, it⟩ |
      ⟨ts, trace, idle, itState, it⟩
    · have whole : m'.trace = (es ++ [.ret value mode sec x]) ++ m.trace := by
        rw [pushed.trace, trace, before.trace, List.append_assoc]
        rfl
      have count : (es ++ [Event.ret value mode sec x]).countP Event.isSwitch = es.length + 1 := by
        rw [List.countP_append, pushed.countP]
        rfl
      have some_of_last (last : m.EntersLast m') : es ≠ [] := by
        rintro rfl
        refine absurd last (not_entersLast whole fun e mem => ?_)
        rw [List.mem_singleton.mp mem]
        rfl
      refine ⟨_, _, whole, fun num origin target y mem => ?_, fun last => ?_,
        fun num origin target y mem => ?_,
        .inr ⟨x, ⟨es, value, mode, sec, by rw [whole]; simp⟩, itState, after.it.trans it,
          fun last => ?_⟩⟩
      · rw [count]
        rcases List.mem_append.mp mem with mem | mem
        · obtain ⟨_, _, _, _, eq, stacked⟩ := pushed.enters _ mem
          cases eq
          exact stacked.imp id fun ⟨left, two⟩ => ⟨left, Nat.le_succ_of_le two⟩
        · cases List.mem_singleton.mp mem
      · rw [pushed.itState, if_neg (some_of_last last)]
      · have mem : Event.enter num origin target y ∈ es := by simpa using mem
        exact entersLast_of_enters (List.ne_nil_of_mem mem) pushed.isEnter whole
      · rw [count]
        exact Nat.succ_le_succ (List.length_pos_iff.mpr (some_of_last last))
    · have whole : m'.trace = (es ++ ts) ++ m.trace := by
        rw [pushed.trace, trace, before.trace, List.append_assoc]
      have count : (es ++ ts).countP Event.isSwitch = es.length := by
        rw [List.countP_append, pushed.countP, List.countP_eq_zero.mpr, Nat.add_zero]
        exact fun e mem => by simp [idle e mem]
      refine ⟨_, _, whole, fun num origin target y mem => ?_, fun last => ?_,
        fun num origin target y mem => ?_,
        .inl ⟨?_, itState.trans before.cpu.itState, after.it.trans (it.trans before.it)⟩⟩
      · rw [count]
        rcases List.mem_append.mp mem with mem | mem
        · obtain ⟨_, _, _, _, eq, stacked⟩ := pushed.enters _ mem
          cases eq
          exact stacked
        · cases idle _ mem
      · rw [pushed.itState, if_neg]
        rintro rfl
        exact absurd last (not_entersLast whole fun e mem => isEnter_of_isSwitch (idle e mem))
      · rcases List.mem_append.mp mem with mem | mem
        · exact entersLast_of_enters (List.ne_nil_of_mem mem) pushed.isEnter whole
        · cases idle _ mem
      · rintro ⟨x, later, value, mode, sec, eq⟩
        rw [whole, List.append_cons later] at eq
        have mem : Event.ret value mode sec x ∈ es ++ ts := by
          rw [List.append_cancel_right eq]
          simp
        rcases List.mem_append.mp mem with mem | mem
        · obtain ⟨_, _, _, _, eq, -⟩ := pushed.enters _ mem
          cases eq
        · cases idle _ mem

theorem executeDecoded_leaves (m : Machine δ) {d : Decoded} (it : d.kind ≠ .it) :
    ∃ base es, Leaves base m (executeDecoded env f d m).2 es := by
  by_cases msr : d.kind = .msr
  · simp only [executeDecoded, msr]
    have trace : ({ m with cpu := m.cpu.execMsr d } : Machine δ).trace = [] ++ m.trace := rfl
    exact ⟨_, [], trace, (fun _ _ _ _ is => by cases is),
      fun last => absurd last (not_entersLast trace (List.forall_mem_nil _)),
      (fun _ _ _ _ is => by cases is),
      .inl ⟨fun is => is.elim (not_unstacks_of_trace rfl), rfl, rfl⟩⟩
  · exact (executeDecoded_effect m it msr).leaves

theorem itEntered_of_trace {m m' : Machine δ} (same : m'.trace = m.trace) (expected : ItCache) :
    ItEntered expected m m' where
  empty last := by
    have none : m'.trace = [] ++ m.trace := same
    exact absurd last (not_entersLast none nofun)
  stacked num origin target x mem := by
    have none : m'.trace = [] ++ m.trace := same
    rw [since_of_trace none] at mem
    cases mem
  resumed x unstacks := absurd unstacks (not_unstacks_of_trace same x)

theorem itEntered_of_raised {m a : Machine δ} {r : Bool × Sys δ} (quiet : m.Quiet a)
    (raised : a.toSys.Raised a.cpu.xpsr a.cpu.secState r)
    (outside : m.EntersLast (a.afterCall r) → m.it.remaining = 0) :
    ItEntered (ItState.syncFromXpsr m.cpu.xpsr) m (a.afterCall r) := by
  cases raised with
  | refused w =>
    have same : (a.afterCall (false, ⟨a.cpu, w, a.trace⟩)).trace = m.trace := quiet.trace
    exact itEntered_of_trace same _
  | entered num w entered =>
    obtain ⟨handler, sleeping, eventReg, rfl⟩ := entered
    have trace : (.enter num a.cpu.secState a.cpu.secState (a.cpu.xpsr ||| 0x01000000)) :: a.trace =
        [.enter num a.cpu.secState a.cpu.secState (a.cpu.xpsr ||| 0x01000000)] ++ m.trace :=
      congrArg (List.cons _) quiet.trace
    refine ⟨fun last => ⟨?_, ItState.get_entry _ _⟩, fun num origin target x mem => ?_, fun x => ?_⟩
    · exact (congrArg _ quiet.it).trans (outside last)
    · rw [since_of_trace trace] at mem
      cases List.mem_singleton.mp mem
      rw [ItState.syncFromXpsr, ItState.get_or_thumb, quiet.cpu.itState]
      exact .refl _
    · refine fun unstacks => absurd unstacks (OnlyEnters.not_unstacks ⟨_, trace, ?_⟩ x)
      exact fun e mem => ⟨_, _, _, _, List.mem_singleton.mp mem⟩

theorem itEntered_of_dispatch {m a : Machine δ} (quiet : m.Quiet a) (num : Word)
    (sec : SecState) :
    ItEntered (ItState.syncFromXpsr m.cpu.xpsr) m (a.dispatch env num sec) := by
  simp only [dispatch]
  have raised := Sys.enterExceptionEx_raised env a.toSys num (a.cpu.r 15 &&& ~~~1#32) a.cpu.xpsr sec
  generalize Sys.enterExceptionEx env _ _ _ _ _ = r at raised ⊢
  cases raised with
  | refused w =>
    have same : (a.afterCall (false, ⟨a.cpu, w, a.trace⟩)).trace = m.trace := quiet.trace
    exact itEntered_of_trace same _
  | entered num w entered =>
    obtain ⟨handler, sleeping, eventReg, rfl⟩ := entered
    have trace : (.enter num a.cpu.secState sec (a.cpu.xpsr ||| 0x01000000)) :: a.trace =
        [.enter num a.cpu.secState sec (a.cpu.xpsr ||| 0x01000000)] ++ m.trace :=
      congrArg (List.cons _) quiet.trace
    have none := ItState.get_entry a.cpu.xpsr num
    refine ⟨fun _ => ⟨?_, none⟩, fun _ _ _ x mem => ?_, fun x => ?_⟩
    · exact (congrArg (fun raw => (ItState.decode raw).remaining) none).trans (by decide)
    · rw [since_of_trace trace] at mem
      cases List.mem_singleton.mp mem
      rw [ItState.syncFromXpsr, ItState.get_or_thumb, quiet.cpu.itState]
      exact .refl _
    · refine fun unstacks => absurd unstacks (OnlyEnters.not_unstacks ⟨_, trace, ?_⟩ x)
      exact fun e mem => ⟨_, _, _, _, List.mem_singleton.mp mem⟩

theorem afterExecute_empty {h : Host δ} {d : Decoded} {o : Outcome δ} (it : d.kind ≠ .it)
    (itState : ItState.get o.2.cpu.xpsr = 0)
    (left : o.2.it.remaining = 0 ∨ o.2.it.remaining = 1 ∧ o.1 = .ok) :
    (afterExecute h d o).it.remaining = 0 ∧
      ItState.get (afterExecute h d o).cpu.xpsr = 0 := by
  obtain ⟨status, m⟩ := o
  have itState : ItState.get m.cpu.xpsr = 0 := itState
  cases status with
  | cont => exact ⟨left.resolve_right nofun, itState⟩
  | ok =>
    have quiet := endPass_quiet h (if m.inBlock d then m.advanceIt else m)
    rw [afterExecute, quiet.it, quiet.cpu.itState]
    split
    · rename_i block
      have pos := inBlock_pos block
      rcases left with zero | ⟨one, -⟩
      · exact absurd (zero ▸ pos) (by decide)
      · have one : m.it.remaining = 1 := one
        simp only [advanceIt, ItCache.advance, one, itState, ItState.get_set]
        exact ⟨by decide, by decide⟩
    · rename_i block
      exact ⟨by simpa [inBlock, it] using block, itState⟩

theorem afterExecute_it_of_none {h : Host δ} {d : Decoded} {o : Outcome δ}
    (left : o.1 = .ok → o.2.it.remaining = 0) : (afterExecute h d o).it = o.2.it := by
  obtain ⟨status, m⟩ := o
  cases status with
  | cont => rfl
  | ok =>
    have zero : m.it.remaining = 0 := left rfl
    simp only [afterExecute, inBlock, zero]
    exact (endPass_quiet h m).it

theorem itEntered_of_executes {m a : Machine δ} {h : Host δ} {d : Decoded} (quiet : m.Quiet a)
    (outside : EntersOutside d a (executeDecoded env f d a)) :
    ItEntered (if d.kind = .svc then (ItState.syncFromXpsr m.cpu.xpsr).next
      else ItState.syncFromXpsr m.cpu.xpsr) m (afterExecute h d (executeDecoded env f d a)) := by
  have traces := afterExecute_trace h d (executeDecoded env f d a)
  by_cases it : d.kind = .it
  · refine itEntered_of_trace (traces.trans (Eq.trans ?_ quiet.trace)) _
    simp only [executeDecoded, it]
    rfl
  obtain ⟨base, es, leaves⟩ : ∃ base es, Leaves base a (executeDecoded env f d a).2 es :=
    executeDecoded_leaves a it
  have unstacked : ∀ x, a.Unstacks (executeDecoded env f d a).2 x →
      (executeDecoded env f d a).2.it = ItState.syncFromXpsr x :=
    fun _ => executeDecoded_it_of_unstacks
  generalize executeDecoded env f d a = o at *
  have whole : (afterExecute h d o).trace = es ++ m.trace :=
    traces.trans (leaves.trace.trans (congrArg _ quiet.trace))
  have current : ItState.get a.cpu.xpsr = ItState.get m.cpu.xpsr := quiet.cpu.itState
  refine ⟨fun last => ?_, fun num origin target x mem => ?_, fun x unstacks => ?_⟩
  · have last : a.EntersLast o.2 := by rwa [EntersLast, traces, ← quiet.trace] at last
    refine afterExecute_empty it (leaves.last last) ?_
    rcases leaves.block with ⟨still, -, same⟩ | ⟨x, unstacks, -, same, -⟩
    · rw [same]
      exact outside.enters last still
    · rw [same]
      exact .inl (outside.returns x unstacks (.inr last))
  · rw [since_of_trace whole] at mem
    have last := leaves.any _ _ _ _ mem
    by_cases early : d.kind = .svc ∨ 2 ≤ es.countP Event.isSwitch
    · have zero : (ItState.syncFromXpsr m.cpu.xpsr).remaining = 0 := by
        rw [ItState.syncFromXpsr, ← current]
        exact outside.pushes last (by rwa [since_of_trace leaves.trace])
      have expected : (if d.kind = .svc then (ItState.syncFromXpsr m.cpu.xpsr).next
          else ItState.syncFromXpsr m.cpu.xpsr) = ItState.syncFromXpsr m.cpu.xpsr := by
        rw [ItCache.next, if_pos zero, ite_self]
      rw [expected]
      refine ItCache.same_of_remaining_eq_zero ?_ zero
      rcases leaves.enters _ _ _ _ mem with eq | ⟨eq, -⟩
      · rw [ItState.syncFromXpsr, eq]
        rcases leaves.block with ⟨-, eq, -⟩ | ⟨x', unstacks, eq, -⟩
        · rw [eq, current]
          exact zero
        · rw [eq]
          exact outside.returns x' unstacks (.inr last)
      · rw [ItState.syncFromXpsr, eq]
        decide
    · have eq := (leaves.enters _ _ _ _ mem).resolve_right fun two => early (.inr two.2)
      rw [if_neg fun svc => early (.inl svc), ItState.syncFromXpsr, eq]
      rcases leaves.block with ⟨-, eq, -⟩ | ⟨_, _, _, _, two⟩
      · rw [eq, current]
        exact .refl _
      · exact absurd (.inr (two last)) early
  · have unstacks : a.Unstacks o.2 x := unstacks.of_trace quiet.trace traces.symm
    rw [afterExecute_it_of_none, unstacked x unstacks]
    intro ok
    rw [unstacked x unstacks]
    exact outside.returns x unstacks (.inl ok)

theorem entersClean_of_outside (m : Machine δ) (i : Input δ) (safe : SyncOutside env decode32 m i) :
    EntersClean env decode32 m i := by
  cases i with
  | restart => trivial
  | pass h =>
    have attended := attend_quiet h m
    have idle (none : m.executed env decode32 h = none) :
        m.itExpected env decode32 h = ItState.syncFromXpsr m.cpu.xpsr := by
      simp [itExpected, Executes, none]
    simp only [EntersClean]
    have passes : Passes env decode32 m h (m.mainPass env decode32 h) := mainPass_passes m h
    have inside := @syncOutside_of_none _ env decode32 m h
    generalize m.mainPass env decode32 h = m' at passes inside ⊢
    cases passes with
    | ends => exact itEntered_of_trace attended.trace _
    | @dispatches num sec b _ accepted =>
      rw [idle (executed_of_accepted accepted)]
      exact itEntered_of_dispatch (attended.trans (pending_quiet accepted)) num sec
    | fetchFaults _ calm fetched fault =>
      have none : m.executed env decode32 h = none :=
        executed_of_not_runs fetched (.inl fault)
      rw [inside none] at safe
      rw [idle none]
      have quiet := attended.trans (ready_quiet env h (m.attend h).1)
      rw [fetched] at quiet
      exact itEntered_of_raised quiet (Sys.raiseMemFault_raised env _ _ _ _ _) (safe calm)
    | undefined _ calm fetched _ undefined =>
      have none : m.executed env decode32 h = none :=
        executed_of_not_runs fetched (.inr (.inl undefined))
      rw [inside none] at safe
      rw [idle none]
      have quiet := attended.trans (ready_quiet env h (m.attend h).1)
      rw [fetched] at quiet
      exact itEntered_of_raised quiet (Sys.raiseUsageFault_raised env _ _ _ _) (safe calm)
    | @skips f a _ _ fetched =>
      have quiet := attended.trans (ready_quiet env h (m.attend h).1)
      rw [fetched] at quiet
      have same : a.advanceIt.trace = m.trace := quiet.trace
      exact itEntered_of_trace same _
    | @executes f d a executed =>
      obtain ⟨-, -, fetched, -⟩ := executed_eq_some.mp executed
      have quiet := attended.trans (ready_quiet env h (m.attend h).1)
      rw [fetched] at quiet
      rw [syncOutside_of_executed executed] at safe
      have kind : m.itExpected env decode32 h = if d.kind = .svc then
          (ItState.syncFromXpsr m.cpu.xpsr).next else ItState.syncFromXpsr m.cpu.xpsr := by
        simp [itExpected, Executes, executed]
      rw [kind]
      exact itEntered_of_executes quiet safe

/-- Along a run whose synchronous exceptions are entered outside IT blocks, or at their end, no
handler sees anything of the block it interrupts, and the block resumes where it stopped. -/
theorem along_entersClean {m : Machine δ} {is : List (Input δ)}
    (outside : Along (loopStep env decode32) (SyncOutside env decode32) m is) :
    Along (loopStep env decode32) (EntersClean env decode32) m is :=
  outside.imp entersClean_of_outside

theorem syncOutside_of_calm {m : Machine δ} {h : Host δ}
    (calm : ¬ m.EntersLast (m.mainPass env decode32 h))
    (leaves : (m.since (m.mainPass env decode32 h)).any Event.isRet = true →
      ∀ e ∈ m.executed env decode32 h, (executeDecoded env e.1 e.2.1 e.2.2).1 ≠ .ok) :
    SyncOutside env decode32 m (.pass h) := by
  rcases executed : m.executed env decode32 h with _ | ⟨f, d, a⟩
  · rw [syncOutside_of_none executed]
    exact fun _ enters => absurd enters calm
  · rw [syncOutside_of_executed executed]
    obtain ⟨-, -, fetched, -⟩ := executed_eq_some.mp executed
    have quiet := (attend_quiet h m).trans (ready_quiet env h (m.attend h).1)
    rw [fetched] at quiet
    have trace : (m.mainPass env decode32 h).trace = (executeDecoded env f d a).2.trace := by
      rw [mainPass_of_executed executed, afterExecute_trace]
    have calm' : ¬ a.EntersLast (executeDecoded env f d a).2 := by
      rwa [EntersLast, trace, ← quiet.trace] at calm
    refine ⟨fun enters => absurd enters calm', fun enters => absurd enters calm',
      fun x unstacks ended => ?_⟩
    obtain ⟨later, value, mode, sec, eq⟩ := unstacks
    have whole : (m.mainPass env decode32 h).trace =
        (later ++ [.ret value mode sec x]) ++ m.trace := by
      rw [trace, eq, quiet.trace, List.append_assoc]
      rfl
    have returns : (m.since (m.mainPass env decode32 h)).any Event.isRet = true := by
      rw [since_of_trace whole]
      simp [Event.isRet]
    exact absurd (ended.resolve_right calm') (leaves returns _ executed)

theorem syncOutside_of_accepted {m : Machine δ} {h : Host δ}
    (accepted : (m.attend h).1.pending.isSome = true) : SyncOutside env decode32 m (.pass h) := by
  obtain ⟨p, accepted⟩ := Option.isSome_iff_exists.mp accepted
  rw [syncOutside_of_none (executed_of_accepted accepted)]
  intro none
  rw [accepted] at none
  cases none

/-- `ITT EQ` is interrupted after its first instruction, and the handler returns by an `LDR` to the
PC. -/
theorem along_entersClean_systick :
    Along (loopStep Board.env Board.decode32) (EntersClean Board.env Board.decode32)
      (itStart 0x04) [.pass idle, .pass systick, .pass idle, .pass idle, .pass idle] := by
  refine along_entersClean ⟨?it, ?first, ?entry, ?exit, ?second, trivial⟩
  case entry => exact syncOutside_of_accepted (by decide +kernel)
  all_goals exact syncOutside_of_calm (by decide +kernel) (by decide +kernel)

/-- `ITT AL` in front of `SVC` and `NOP`. -/
def svcImage : World Unit :=
  Board.flashed [(0x00, 0x20008000), (0x04, 0x101), (0x2C, 0x201), (0x100, 0xDF00BFE4),
    (0x104, 0xBF00BF00), (0x200, 0xBF00BF00)]

/-- The handler of an `SVC` in front of another instruction of its block starts inside the block. -/
theorem svc_in_block_leaves_block :
    ¬ ∀ (w : World Unit) (is : List (Input Unit)),
      Along (loopStep Board.env Board.decode32) (EntersClean Board.env Board.decode32)
        (start Board.env Board.cpu (.both 0) w) is := by
  intro h
  have along := h svcImage ([.pass idle] ++ [.pass idle])
  have entered := (along_append.mp along).2.1
  exact absurd (entered.empty (by decide +kernel)).1 (by decide +kernel)

end Machine

end M33mu
