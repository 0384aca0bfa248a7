import M33mu.MainLoop
import M33mu.Micro

namespace M33mu.Machine

variable {δ : Type u} (env : Env δ) (decode32 : Word → Decoded)

def since (m m' : Machine δ) : List Event := m'.trace.take (m'.trace.length - m.trace.length)

def executed (m : Machine δ) (h : Host δ) : Option (FetchResult × Decoded × Machine δ) :=
  if (m.attend h).2 && (m.attend h).1.pending.isNone then
    let (f, a) := (m.attend h).1.ready env h
    let d := Decode.decodeT32 decode32 f
    if f.fault || d.undefined || (a.inBlock d && !a.it.takes (.ofXpsr a.cpu.xpsr)) then none
    else some (f, d, a)
  else none

def Executes (m : Machine δ) (h : Host δ) (kind : OpKind) : Prop :=
  (m.executed env decode32 h).any (fun x => x.2.1.kind = kind) = true

instance (m : Machine δ) (h : Host δ) (kind : OpKind) :
    Decidable (m.Executes env decode32 h kind) := inferInstanceAs (Decidable (_ = _))

inductive Passes (m : Machine δ) (h : Host δ) : Machine δ → Prop
  | ends (stops : (m.attend h).2 = false) : Passes m h (m.attend h).1
  | dispatches {num : Word} {sec : SecState} {a : Machine δ} (goesOn : (m.attend h).2 = true)
    (accepted : (m.attend h).1.pending = some (num, sec, a)) : Passes m h (a.dispatch env num sec)
  | fetchFaults {f : FetchResult} {a : Machine δ} (goesOn : (m.attend h).2 = true)
    (calm : (m.attend h).1.pending = none) (fetched : (m.attend h).1.ready env h = (f, a))
    (fault : f.fault = true) :
    Passes m h (a.afterCall
      (a.toSys.raiseMemFault env (a.cpu.r 15 &&& ~~~1#32) a.cpu.xpsr f.faultAddr true))
  | undefined {f : FetchResult} {a : Machine δ} (goesOn : (m.attend h).2 = true)
    (calm : (m.attend h).1.pending = none) (fetched : (m.attend h).1.ready env h = (f, a))
    (fault : f.fault = false) (undefined : (Decode.decodeT32 decode32 f).undefined = true) :
    Passes m h (a.usageFault env f (1#32 <<< 16))
  | skips {f : FetchResult} {a : Machine δ} (goesOn : (m.attend h).2 = true)
    (calm : (m.attend h).1.pending = none) (fetched : (m.attend h).1.ready env h = (f, a))
    (skipped : (a.inBlock (Decode.decodeT32 decode32 f) && !a.it.takes (.ofXpsr a.cpu.xpsr)) = true) :
    Passes m h a.advanceIt
  | executes {f : FetchResult} {d : Decoded} {a : Machine δ}
    (executed : m.executed env decode32 h = some (f, d, a)) :
    Passes m h (afterExecute h d (executeDecoded env f d a))

variable {env decode32}

theorem since_of_trace {m m' : Machine δ} {es : List Event} (trace : m'.trace = es ++ m.trace) :
    m.since m' = es := by
  simp [since, trace]

theorem executed_eq_some {m a : Machine δ} {h : Host δ} {f : FetchResult} {d : Decoded} :
    m.executed env decode32 h = some (f, d, a) ↔
      (m.attend h).2 = true ∧ (m.attend h).1.pending = none ∧
        (m.attend h).1.ready env h = (f, a) ∧ d = Decode.decodeT32 decode32 f ∧
        f.fault = false ∧ d.undefined = false ∧
        (a.inBlock d && !a.it.takes (.ofXpsr a.cpu.xpsr)) = false := by
  rcases fetched : (m.attend h).1.ready env h with ⟨g, b⟩
  simp only [executed, fetched, Bool.and_eq_true, Option.isNone_iff_eq_none]
  constructor
  · intro eq
    split at eq
    · rename_i reached
      split at eq
      · cases eq
      · rename_i runs
        simp only [Bool.or_eq_true, not_or, Bool.not_eq_true] at runs
        cases eq
        exact ⟨reached.1, reached.2, rfl, rfl, runs.1.1, runs.1.2, runs.2⟩
    · cases eq
  · rintro ⟨goesOn, calm, eq, rfl, fault, undefined, runs⟩
    cases eq
    rw [if_pos ⟨goesOn, calm⟩, fault, undefined, runs]
    rfl

theorem executed_of_accepted {m : Machine δ} {h : Host δ} {p : Word × SecState × Machine δ}
    (accepted : (m.attend h).1.pending = some p) : m.executed env decode32 h = none := by
  simp [executed, accepted]

theorem executed_of_not_runs {m a : Machine δ} {h : Host δ} {f : FetchResult}
    (fetched : (m.attend h).1.ready env h = (f, a))
    (stops : f.fault = true ∨ (Decode.decodeT32 decode32 f).undefined = true ∨
      (a.inBlock (Decode.decodeT32 decode32 f) && !a.it.takes (.ofXpsr a.cpu.xpsr)) = true) :
    m.executed env decode32 h = none := by
  rw [Option.eq_none_iff_forall_ne_some]
  rintro ⟨g, d, b⟩ eq
  obtain ⟨-, -, fetched', rfl, fault, undefined, runs⟩ := executed_eq_some.mp eq
  cases fetched.symm.trans fetched'
  simp [fault, undefined, runs] at stops

theorem executes_of_executed {m a : Machine δ} {h : Host δ} {f : FetchResult} {d : Decoded}
    (executed : m.executed env decode32 h = some (f, d, a)) :
    m.Executes env decode32 h d.kind := by
  simp [Executes, executed]

theorem exists_executed {m : Machine δ} {h : Host δ} {kind : OpKind}
    (executes : m.Executes env decode32 h kind) :
    ∃ f d a, m.executed env decode32 h = some (f, d, a) ∧ d.kind = kind := by
  obtain ⟨⟨f, d, a⟩, executed, is⟩ := (Option.any_eq_true _ _).mp executes
  exact ⟨f, d, a, executed, by simpa using is⟩

theorem mainPass_of_executed {m a : Machine δ} {h : Host δ} {f : FetchResult} {d : Decoded}
    (executed : m.executed env decode32 h = some (f, d, a)) :
    m.mainPass env decode32 h = afterExecute h d (executeDecoded env f d a) := by
  obtain ⟨goesOn, calm, fetched, rfl, fault, undefined, runs⟩ := executed_eq_some.mp executed
  rcases eq : m.attend h with ⟨b, go⟩
  simp only [eq] at goesOn calm fetched
  simp only [mainPass, eq, goesOn, handlePending, calm, executePass, fetched, fault, undefined, runs,
    Bool.false_eq_true, if_false]

theorem mainPass_of_accepted {m b : Machine δ} {h : Host δ} {num : Word} {sec : SecState}
    (goesOn : (m.attend h).2 = true) (accepted : (m.attend h).1.pending = some (num, sec, b)) :
    m.mainPass env decode32 h = b.dispatch env num sec := by
  rcases eq : m.attend h with ⟨a, go⟩
  simp only [eq] at goesOn accepted
  simp only [mainPass, eq, goesOn, handlePending, accepted]

theorem mainPass_passes (m : Machine δ) (h : Host δ) :
    Passes env decode32 m h (m.mainPass env decode32 h) := by
  rcases eq : m.attend h with ⟨a, goesOn⟩
  cases goesOn with
  | false =>
    have stops : Passes env decode32 m h (m.attend h).1 := .ends (congrArg Prod.snd eq)
    simpa only [mainPass, eq] using stops
  | true =>
    have goesOn : (m.attend h).2 = true := congrArg Prod.snd eq
    simp only [mainPass, eq, handlePending]
    obtain rfl : (m.attend h).1 = a := congrArg Prod.fst eq
    clear eq
    split
    · rename_i accepted
      exact .dispatches goesOn accepted
    rename_i calm
    rcases fetched : (m.attend h).1.ready env h with ⟨f, b⟩
    simp only [executePass, fetched]
    split
    · rename_i fault
      exact .fetchFaults goesOn calm fetched fault
    rename_i fault
    split
    · rename_i undefined
      exact .undefined goesOn calm fetched (by simpa using fault) undefined
    rename_i undefined
    split
    · rename_i skipped
      exact .skips goesOn calm fetched skipped
    · rename_i runs
      simp only [Bool.not_eq_true] at fault undefined runs
      exact .executes (executed_eq_some.mpr
        ⟨goesOn, calm, fetched, rfl, fault, undefined, runs⟩)

variable (env) in
theorem ready_cpu (h : Host δ) (m : Machine δ) :
    ∃ r, (m.ready env h).2.cpu = { m.cpu with r := r } := by
  simp only [ready, fetch]
  split
  · exact ⟨_, rfl⟩
  split
  · split <;> exact ⟨_, rfl⟩
  · exact ⟨_, rfl⟩

theorem endPass_cpu (h : Host δ) (m : Machine δ) : (m.endPass h).cpu = m.cpu := by
  simp only [endPass]
  split <;> rfl

theorem afterExecute_cpu (h : Host δ) (d : Decoded) (o : Outcome δ) :
    ∃ xpsr, (afterExecute h d o).cpu = { o.2.cpu with xpsr := xpsr } := by
  obtain ⟨status, m⟩ := o
  cases status with
  | cont => exact ⟨m.cpu.xpsr, rfl⟩
  | ok =>
    simp only [afterExecute, endPass_cpu]
    split
    · exact ⟨_, rfl⟩
    · exact ⟨m.cpu.xpsr, rfl⟩

end M33mu.Machine
