import M33mu.ActiveBits
import M33mu.Board
import M33mu.FaultRecords
import M33mu.Lib.Run
import M33mu.Wakeup

namespace M33mu

open Lib

namespace ProgAccess

variable {δ : Type u} (env : Env δ)

def size : ProgAccess → Word
  | read _ size | write _ size _ => size
  | read8 _ => 1

def Leaves (w : World δ) (sec : SecState) : ProgAccess → Prop
  | read _ _ | read8 _ => True
  | write addr size v => ¬ w.WritesShcsr env sec addr size v

variable {env}

theorem perform_active (keeps : env.KeepsShcsr) {p : ProgAccess} {w : World δ} {sec : SecState}
    (leaves : p.Leaves env w sec) :
    (p.perform env w sec).2.active = (w.interceptOk env p.type sec p.addr p.size).2.active := by
  cases p with
  | read addr size => exact World.read_active keeps w sec addr size
  | read8 addr => exact World.read8_active keeps w sec addr
  | write addr size v => exact World.write_active leaves

theorem granted_of_perform {p : ProgAccess} {w : World δ} {sec : SecState}
    (done : (p.perform env w sec).1 = true) : w.Granted env p.type sec p.addr p.size := by
  cases p with
  | read addr size => exact World.granted_of_read done
  | read8 addr => exact World.granted_of_read8 done
  | write addr size v => exact World.granted_of_write done

end ProgAccess

theorem Sys.ActiveMarked.of_eq {δ : Type u} {s s' : Sys δ} (marked : s.ActiveMarked)
    (active : s'.world.active = s.world.active) (trace : entered s'.trace = entered s.trace) :
    s'.ActiveMarked := by
  rw [Sys.ActiveMarked, active, trace]
  exact marked

namespace Host

variable {δ : Type u}

/-- `mm_timer_tick` leaves SHCSR alone. -/
def TickLeaves (h : Host δ) (w : World δ) : Prop := (h.tick w).scs.shcsr = w.scs.shcsr

def PollLeaves (h : Host δ) (w : World δ) : Prop := (h.poll w).scs.shcsr = w.scs.shcsr

end Host

def World.StartsClear {δ : Type u} (env : Env δ) (w : World δ) (vtor : Banked Word) : Prop :=
  w.scs.shcsr = .both 0 ∧ w.WordsSpare env .secure vtor.s 2

namespace Machine

variable {δ : Type u} (env : Env δ) (decode32 : Word → Decoded)

inductive Matched (f : FetchResult) (d : Decoded) (m : Machine δ) : Machine δ → Prop
  | silent {m' : Machine δ} (micro : Micro env f d m m') (same : m'.world = m.world)
    (trace : entered m'.trace = entered m.trace) : Matched f d m m'
  | granted (p : ProgAccess) {w : World δ} (h : p.perform env m.world m.cpu.secState = (true, w))
    (leaves : p.Leaves env m.world m.cpu.secState) : Matched f d m (m.withWorld w)
  | refused (p : ProgAccess) (isExec : Bool) {w : World δ}
    (h : p.perform env m.world m.cpu.secState = (false, w))
    (leaves : p.Leaves env m.world m.cpu.secState)
    (matched : (m.withWorld w).toSys.MemFaultMatched env m.world.scs.shcsr
      (m.world.Granted env p.type m.cpu.secState p.addr p.size) f.pcFetch m.cpu.xpsr p.addr
      isExec) :
    Matched f d m ((m.withWorld w).memFault env f p.addr isExec)
  | usageFault (bits : Word)
    (matched : m.toSys.UsageFaultMatched env f.pcFetch m.cpu.xpsr bits) :
    Matched f d m (m.usageFault env f bits)
  | svc (kind : d.kind = .svc)
    (matched : m.toSys.EntryMatched env m.world.scs.shcsr Vect.svcall
      (f.pcFetch + d.len.setWidth 32) m.cpu.xpsr m.cpu.secState) :
    Matched f d m (Execute.execSvc env m f d).2
  | excReturn (excRet : Word) (h : isExcReturn excRet = true)
    (matched : m.toSys.UnstackMatched env excRet) : Matched f d m (m.excReturn env excRet)

def ticked (m : Machine δ) (h : Host δ) : Machine δ :=
  let m := m.withWorld { m.world with scs := m.world.scs.systickAdvance 1 }
  let m := m.withWorld (h.tick m.world)
  m.setReg 13 m.cpu.getActiveSp

def FetchGranted (m : Machine δ) : Prop :=
  let pc := m.cpu.r 15 &&& ~~~1#32
  let first := m.world.fetchRead16 env m.cpu.secState pc
  if first.1.isSome then first.2.Granted env .exec m.cpu.secState (pc + 2) 2
  else m.world.Granted env .exec m.cpu.secState pc 2

def FetchMatched (m : Machine δ) (h : Host δ) (f : FetchResult) (b : Machine δ) : Prop :=
  let d := Decode.decodeT32 decode32 f
  if f.fault then
    b.toSys.MemFaultMatched env (m.ticked h).world.scs.shcsr ((m.ticked h).FetchGranted env)
      (b.cpu.r 15 &&& ~~~1#32) b.cpu.xpsr f.faultAddr true
  else if d.undefined then b.toSys.UsageFaultMatched env f.pcFetch b.cpu.xpsr (1#32 <<< 16)
  else if b.inBlock d && !b.it.takes (.ofXpsr b.cpu.xpsr) then True
  else
    Relation.ReflTransGen (Matched env f d) b (executeDecoded env f d b).2 ∧
    ((executeDecoded env f d b).1 = .ok → h.PollLeaves (executeDecoded env f d b).2.world)

def IdleLeaves (m : Machine δ) (h : Host δ) : Prop :=
  m.Idles →
    match m.world.scs.systickCyclesUntilFire with
    | none => h.PollLeaves m.world
    | some delta =>
      let w := { m.world with scs := m.world.scs.systickAdvance delta }
      h.TickLeaves w ∧ h.PollLeaves (h.tick w)

def PassMatched (m : Machine δ) (h : Host δ) : Prop :=
  m.IdleLeaves h ∧ ((m.attend h).2 = true →
    match (m.attend h).1.pending with
    | some (num, sec, b) =>
      b.toSys.EntryMatched env b.world.scs.shcsr num (b.cpu.r 15 &&& ~~~1#32) b.cpu.xpsr sec
    | none =>
      let a := (m.attend h).1
      h.TickLeaves { a.world with scs := a.world.scs.systickAdvance 1 } ∧
        FetchMatched env decode32 a h (a.ready env h).1 (a.ready env h).2)

/-- Software does not write SHCSR; a refused access enters MemManage or finds its bit set; what is
marked is entered or was marked before; what returns has no active bit, or is under way further out
as well. -/
def InputMatched (m : Machine δ) : Input δ → Prop
  | .pass h => m.PassMatched env decode32 h
  | .restart vtor w => m.resetAgain = true → w.StartsClear env vtor

variable {env decode32} {f : FetchResult} {d : Decoded}

theorem afterCall_marked {m : Machine δ} {r : Bool × Sys δ} (marked : r.2.ActiveMarked) :
    (m.afterCall r).toSys.ActiveMarked := marked

theorem Matched.marked (keeps : env.KeepsShcsr) {m m' : Machine δ} (step : Matched env f d m m')
    (marked : m.toSys.ActiveMarked) : m'.toSys.ActiveMarked := by
  cases step with
  | silent micro same trace => exact marked.of_eq (congrArg World.active same) trace
  | granted p h leaves =>
    have active := p.perform_active keeps leaves
    have through := p.granted_of_perform (congrArg Prod.fst h)
    rw [h, World.interceptOk_active, if_pos through] at active
    exact marked.of_eq active rfl
  | refused p isExec h leaves matched =>
    have active := p.perform_active keeps leaves
    rw [h, World.interceptOk_active] at active
    refine afterCall_marked (Sys.raiseMemFault_marked keeps marked ?_ ?_ matched)
    · intro through
      rw [if_pos through] at active
      exact active
    · intro denied
      rw [if_neg denied] at active
      exact active
  | usageFault bits matched =>
    exact afterCall_marked (Sys.raiseUsageFault_marked keeps marked matched)
  | svc kind matched =>
    refine afterCall_marked (Sys.enterExceptionEx_marked keeps marked ?_ matched)
    exact World.noteEntry_mark (by decide) m.world m.cpu.secState
  | excReturn excRet h matched =>
    have after := Sys.excReturnUnstack_marked keeps marked matched
    simp only [Machine.excReturn]
    split <;> exact after

theorem fetch_active {m b : Machine δ} {f : FetchResult} (fetched : m.fetch env = (f, b)) :
    b.cpu.secState = m.cpu.secState ∧ b.trace = m.trace ∧
      if f.fault then
        (m.FetchGranted env → b.world.active = m.world.active) ∧
          (¬ m.FetchGranted env →
            b.world.active = mark m.world.active ⟨Vect.memmanage, m.cpu.secState⟩)
      else b.world.active = m.world.active := by
  have let_through {w w' : World δ} {pc v : Word}
      (eq : w.fetchRead16 env m.cpu.secState pc = (some v, w')) : w'.active = w.active := by
    have active : (w.fetchRead16 env m.cpu.secState pc).2.active = _ :=
      World.fetchRead16_active w m.cpu.secState pc
    rw [eq, World.interceptOk_active, if_pos (World.granted_of_fetchRead16 eq)] at active
    exact active
  have failed {w w' : World δ} {pc : Word}
      (eq : w.fetchRead16 env m.cpu.secState pc = (none, w')) :
      (w.Granted env .exec m.cpu.secState pc 2 → w'.active = w.active) ∧
        (¬ w.Granted env .exec m.cpu.secState pc 2 →
          w'.active = mark w.active ⟨Vect.memmanage, m.cpu.secState⟩) := by
    have active : (w.fetchRead16 env m.cpu.secState pc).2.active = _ :=
      World.fetchRead16_active w m.cpu.secState pc
    rw [eq, World.interceptOk_active] at active
    exact ⟨fun through => by rw [if_pos through] at active; exact active,
      fun denied => by rw [if_neg denied] at active; exact active⟩
  simp only [fetch] at fetched
  split at fetched
  · rename_i w eq
    cases fetched
    simp only [FetchGranted, eq, Option.isSome_none, Bool.false_eq_true, if_false, if_true]
    exact ⟨rfl, rfl, failed eq⟩
  rename_i hw1 w eq
  have first := let_through eq
  split at fetched
  · split at fetched
    · rename_i w' eq'
      cases fetched
      simp only [FetchGranted, eq, Option.isSome_some, if_true]
      refine ⟨rfl, rfl, ?_⟩
      rw [← first]
      exact failed eq'
    · rename_i eq'
      cases fetched
      exact ⟨rfl, rfl, (let_through eq').trans first⟩
  · cases fetched
    exact ⟨rfl, rfl, first⟩

theorem endPass_marked {m : Machine δ} {h : Host δ} (marked : m.toSys.ActiveMarked)
    (poll : h.PollLeaves m.world) : (m.endPass h).toSys.ActiveMarked := by
  apply marked.of_eq
  · simp only [endPass]
    split <;> exact congrArg Activation.Active poll
  · rw [(endPass_quiet h m).trace]

theorem systickAdvance_shcsr (scs : Scs) (cycles : BitVec 64) :
    (scs.systickAdvance cycles).shcsr = scs.shcsr := by
  simp only [Scs.systickAdvance]
  split
  · rfl
  split <;> rfl

theorem attend_marked {m : Machine δ} {h : Host δ} (marked : m.toSys.ActiveMarked)
    (leaves : m.IdleLeaves h) : (m.attend h).1.toSys.ActiveMarked := by
  refine marked.of_eq (congrArg Activation.Active ?_) (congrArg entered (attend_quiet h m).trace)
  by_cases idles : m.Idles
  · have leaves := leaves idles
    rw [attend_of_idles idles, fastForward]
    have polled (a : Machine δ) (poll : h.PollLeaves a.world) :
        (a.endPass h).world.scs.shcsr = a.world.scs.shcsr := by
      simp only [endPass]
      split <;> exact poll
    split at leaves
    · rename_i off
      rw [off]
      exact polled _ leaves
    · rename_i delta on
      obtain ⟨tick, poll⟩ := leaves
      have advanced := tick.trans (systickAdvance_shcsr m.world.scs delta)
      rw [on]
      simp only [Option.map_some]
      split
      · exact (polled _ poll).trans advanced
      · exact (polled _ poll).trans advanced
  · rw [attend_world_of_not_idles idles]

theorem pending_marked {m b : Machine δ} {num : Word} {sec : SecState}
    (accepted : m.pending = some (num, sec, b)) (marked : m.toSys.ActiveMarked) :
    b.toSys.ActiveMarked ∧
      num ≠ Vect.memmanage ∧ num ≠ Vect.hardfault ∧ num ≠ Vect.usagefault := by
  simp only [pending] at accepted
  split at accepted
  · cases accepted
    exact ⟨marked, by decide⟩
  split at accepted
  · cases accepted
    exact ⟨marked, by decide⟩
  · simp only [Option.map_eq_some_iff, Prod.mk.injEq] at accepted
    obtain ⟨⟨irq, sec'⟩, -, rfl, -, rfl⟩ := accepted
    have large : 16 ≤ (16 + BitVec.ofNat 32 irq : Word).toNat := by
      have few : irq.val < 128 := irq.isLt
      have base : (16 : Word).toNat = 16 := rfl
      rw [BitVec.toNat_add, BitVec.toNat_ofNat, base]
      omega
    refine ⟨marked, ?_, ?_, ?_⟩
    all_goals
      intro fault
      rw [fault] at large
      exact absurd large (by decide)

theorem dispatch_marked (keeps : env.KeepsShcsr) {m : Machine δ} {num : Word} {sec : SecState}
    (marked : m.toSys.ActiveMarked)
    (other : num ≠ Vect.memmanage ∧ num ≠ Vect.hardfault ∧ num ≠ Vect.usagefault)
    (matched : m.toSys.EntryMatched env m.world.scs.shcsr num (m.cpu.r 15 &&& ~~~1#32) m.cpu.xpsr
      sec) : (m.dispatch env num sec).toSys.ActiveMarked := by
  have after : (m.toSys.enterExceptionEx env num (m.cpu.r 15 &&& ~~~1#32) m.cpu.xpsr sec).2
      |>.ActiveMarked :=
    Sys.enterExceptionEx_marked keeps marked
      (World.noteEntry_mark other m.world m.cpu.secState) matched
  simp only [dispatch]
  split <;> exact after

theorem afterExecute_marked {h : Host δ} {d : Decoded} {o : Outcome δ}
    (marked : o.2.toSys.ActiveMarked) (poll : o.1 = .ok → h.PollLeaves o.2.world) :
    (afterExecute h d o).toSys.ActiveMarked := by
  obtain ⟨status, m⟩ := o
  cases status with
  | cont => exact marked
  | ok =>
    have poll : h.PollLeaves m.world := poll rfl
    simp only [afterExecute]
    split
    · exact endPass_marked (m := m.advanceIt) marked poll
    · exact endPass_marked marked poll

theorem executePass_marked (keeps : env.KeepsShcsr) {m : Machine δ} {h : Host δ}
    (marked : m.toSys.ActiveMarked)
    (tick : h.TickLeaves { m.world with scs := m.world.scs.systickAdvance 1 })
    (matched : FetchMatched env decode32 m h (m.ready env h).1 (m.ready env h).2) :
    (m.executePass env decode32 h).toSys.ActiveMarked := by
  have ticked : (m.ticked h).toSys.ActiveMarked :=
    marked.of_eq (congrArg Activation.Active (tick.trans (systickAdvance_shcsr _ _))) rfl
  rcases fetched : m.ready env h with ⟨f, b⟩
  obtain ⟨secState, trace, active⟩ := fetch_active (m := m.ticked h) fetched
  rw [fetched] at matched
  simp only [FetchMatched] at matched
  simp only [executePass, fetched]
  cases fault : f.fault with
  | true =>
    simp only [fault, if_true] at active matched ⊢
    rw [← secState] at active
    apply afterCall_marked
    refine Sys.raiseMemFault_marked keeps ?_ active.1 active.2 matched
    rw [trace]
    exact ticked
  | false =>
    simp only [fault, Bool.false_eq_true, if_false] at active matched ⊢
    have ready : b.toSys.ActiveMarked := ticked.of_eq active (congrArg entered trace)
    split
    · rename_i undefined
      rw [if_pos undefined] at matched
      exact afterCall_marked (Sys.raiseUsageFault_marked keeps ready matched)
    rename_i defined
    rw [if_neg defined] at matched
    split
    · exact ready
    · rename_i runs
      rw [if_neg runs] at matched
      obtain ⟨steps, poll⟩ := matched
      refine afterExecute_marked ?_ poll
      -- by induction on the elementary steps of the instruction
      generalize (executeDecoded env f _ b).2 = m' at steps
      induction steps with
      | refl => exact ready
      | tail _ step ih => exact step.marked keeps ih

theorem mainPass_marked (keeps : env.KeepsShcsr) {m : Machine δ} {h : Host δ}
    (marked : m.toSys.ActiveMarked) (matched : m.PassMatched env decode32 h) :
    (m.mainPass env decode32 h).toSys.ActiveMarked := by
  obtain ⟨idle, matched⟩ := matched
  have attended := attend_marked marked idle
  cases goesOn : (m.attend h).2 with
  | false =>
    rcases eq : m.attend h with ⟨a, go⟩
    rw [eq] at goesOn attended
    obtain rfl : go = false := goesOn
    simp only [mainPass, eq]
    exact attended
  | true =>
    have matched := matched goesOn
    cases accepted : (m.attend h).1.pending with
    | some p =>
      obtain ⟨num, sec, b⟩ := p
      rw [accepted] at matched
      obtain ⟨ready, other⟩ := pending_marked accepted attended
      rw [mainPass_of_accepted goesOn accepted]
      exact dispatch_marked keeps ready other matched
    | none =>
      rw [accepted] at matched
      rw [mainPass_of_calm goesOn accepted]
      exact executePass_marked keeps attended matched.1 matched.2

theorem vectorApplyReset_active (keeps : env.KeepsShcsr) {m : Machine δ}
    (spare : m.world.WordsSpare env .secure m.cpu.vtor.s 2) :
    (m.vectorApplyReset env).2.world.active = m.world.active ∧
      (m.vectorApplyReset env).2.trace = m.trace := by
  obtain ⟨sp, rest⟩ := spare
  have first := World.read_spared keeps sp
  simp only [vectorApplyReset, World.vectorRead_zero, World.vectorRead_one, Banked.get_secure]
  rcases eq : m.world.read env .secure m.cpu.vtor.s 4 with ⟨_ | v, w₁⟩
  · rw [eq] at first
    exact ⟨first, rfl⟩
  · rw [eq] at first rest
    have second := World.read_spared keeps (rest rfl).1
    simp only
    rcases eq' : w₁.read env .secure (m.cpu.vtor.s + 4) 4 with ⟨_ | v', w₂⟩
    · rw [eq'] at second
      exact ⟨second.trans first, rfl⟩
    · rw [eq'] at second
      exact ⟨second.trans first, rfl⟩

theorem restart_marked (keeps : env.KeepsShcsr) {m : Machine δ} {vtor : Banked Word} {w : World δ}
    (marked : m.resetAgain = false → m.toSys.ActiveMarked)
    (clear : m.resetAgain = true → w.StartsClear env vtor) :
    (m.restart env vtor w).toSys.ActiveMarked := by
  cases again : m.resetAgain with
  | false =>
    rw [restart_of_not_resetAgain env again]
    exact marked again
  | true =>
    obtain ⟨zero, spare⟩ := clear again
    have unmarked (s : Sys δ) (active : s.world.active = w.active) (trace : s.trace = []) :
        s.ActiveMarked := by
      intro k _
      rw [active, trace, World.active, zero]
      exact ⟨fun set => absurd set (Activation.active_zero k), nofun⟩
    refine restart_rule (P := fun a => a.toSys.ActiveMarked) env again
      (fun a cpu world empty _ => ?_) (fun _ marked => marked) (fun _ marked => marked)
    subst world
    obtain ⟨active, trace⟩ := vectorApplyReset_active keeps
      (show a.world.WordsSpare env .secure a.cpu.vtor.s 2 by rw [cpu]; exact spare)
    exact unmarked _ active (trace.trans empty)

/-- In every run from reset in which each step keeps them right, the active bits say which
exceptions have been entered and not yet returned from. -/
theorem throughout_activeMarked (keeps : env.KeepsShcsr) {c : Cpu} {vtor : Banked Word}
    {w : World δ} (clear : w.StartsClear env vtor) {is : List (Input δ)}
    (matched : Along (loopStep env decode32) (InputMatched env decode32) (start env c vtor w) is) :
    Throughout (loopStep env decode32) (fun m => m.toSys.ActiveMarked) (start env c vtor w) is := by
  refine throughout_of_along (fun m i marked matched => ?_)
    (restart_marked keeps nofun fun _ => clear) matched
  cases i with
  | pass h => exact mainPass_marked keeps marked matched
  | restart vtor w => exact restart_marked keeps (fun _ => marked) matched

theorem passMatched_of_none {m : Machine δ} {h : Host δ} (awake : m.cpu.sleeping = false)
    (calm : (m.attend h).1.pending.isNone = true)
    (tick : h.TickLeaves { (m.attend h).1.world with
      scs := (m.attend h).1.world.scs.systickAdvance 1 })
    (fetched : FetchMatched env decode32 (m.attend h).1 h ((m.attend h).1.ready env h).1
      ((m.attend h).1.ready env h).2) : PassMatched env decode32 m h := by
  refine ⟨fun idles => absurd (idles.2.1.symm.trans awake) (by decide), fun _ => ?_⟩
  rw [Option.isNone_iff_eq_none.mp calm]
  exact ⟨tick, fetched⟩

theorem passMatched_of_some {m : Machine δ} {h : Host δ} (awake : m.cpu.sleeping = false)
    (matched : ∀ p ∈ (m.attend h).1.pending, p.2.2.toSys.EntryMatched env p.2.2.world.scs.shcsr p.1
      (p.2.2.cpu.r 15 &&& ~~~1#32) p.2.2.cpu.xpsr p.2.1)
    (accepted : (m.attend h).1.pending.isSome = true) : PassMatched env decode32 m h := by
  obtain ⟨p, accepted⟩ := Option.isSome_iff_exists.mp accepted
  refine ⟨fun idles => absurd (idles.2.1.symm.trans awake) (by decide), fun _ => ?_⟩
  have entry := matched p accepted
  rw [accepted]
  exact entry

theorem fetchMatched_of_steps {m b : Machine δ} {h : Host δ} {o : Outcome δ}
    (fault : f.fault = false) (defined : (Decode.decodeT32 decode32 f).undefined = false)
    (outside : b.it.remaining = 0)
    (executes : executeDecoded env f (Decode.decodeT32 decode32 f) b = o)
    (steps : Relation.ReflTransGen (Matched env f (Decode.decodeT32 decode32 f)) b o.2)
    (poll : h.PollLeaves o.2.world) : FetchMatched env decode32 m h f b := by
  subst executes
  simp only [FetchMatched, fault, defined, inBlock, outside, Bool.false_eq_true, if_false]
  exact ⟨steps, fun _ => poll⟩

theorem fetchMatched_of_svc {m b : Machine δ} {h : Host δ} (fault : f.fault = false)
    (kind : (Decode.decodeT32 decode32 f).kind = .svc)
    (defined : (Decode.decodeT32 decode32 f).undefined = false) (outside : b.it.remaining = 0)
    (matched : b.toSys.EntryMatched env b.world.scs.shcsr Vect.svcall
      (f.pcFetch + (Decode.decodeT32 decode32 f).len.setWidth 32) b.cpu.xpsr b.cpu.secState)
    (poll : h.PollLeaves (Execute.execSvc env b f (Decode.decodeT32 decode32 f)).2.world) :
    FetchMatched env decode32 m h f b :=
  fetchMatched_of_steps fault defined outside (by simp only [executeDecoded, kind])
    (.single (.svc kind matched)) poll

theorem fetchMatched_of_nop {m b : Machine δ} {h : Host δ} (fault : f.fault = false)
    (kind : (Decode.decodeT32 decode32 f).kind = .nop)
    (defined : (Decode.decodeT32 decode32 f).undefined = false) (outside : b.it.remaining = 0)
    (poll : h.PollLeaves b.world) : FetchMatched env decode32 m h f b :=
  fetchMatched_of_steps (o := (.ok, b)) fault defined outside (by simp only [executeDecoded, kind])
    .refl poll

theorem fetchMatched_of_bxLr {m b : Machine δ} {h : Host δ} (fault : f.fault = false)
    (kind : (Decode.decodeT32 decode32 f).kind = .bx)
    (lr : (Decode.decodeT32 decode32 f).rm = 14)
    (defined : (Decode.decodeT32 decode32 f).undefined = false) (outside : b.it.remaining = 0)
    (returns : isExcReturn (b.cpu.r 14) = true) (matched : b.toSys.UnstackMatched env (b.cpu.r 14))
    (poll : h.PollLeaves (b.excReturn env (b.cpu.r 14)).world) :
    FetchMatched env decode32 m h f b := by
  have executes : executeDecoded env f (Decode.decodeT32 decode32 f) b =
      (.ok, b.excReturn env (b.cpu.r 14)) := by
    simp only [executeDecoded, kind, Execute.execBx, lr, returns, and_self, if_true]
  exact fetchMatched_of_steps fault defined outside executes
    (.single (.excReturn _ returns matched)) poll

/-- `SVC` with its handler at `0x200`. -/
def callImage (handler : Word) : World Unit :=
  Board.guarded [(0x00, 0x20008000), (0x04, 0x101), (0x2C, 0x201), (0x100, 0xBF00DF00),
    (0x200, handler)]

/-- `SVC`, and an interrupt that comes in its handler and goes again. -/
def nestedImage : World Unit :=
  Board.guarded [(0x00, 0x20008000), (0x04, 0x101), (0x2C, 0x201), (0x40, 0x211),
    (0x100, 0xBF00DF00), (0x200, 0xBF00BF00), (0x210, 0xBF004770)]

def interrupts : Host Unit :=
  ⟨fun w => { w with
    nvic := (w.nvic.setEnable ⟨0, maxIrq_pos⟩ true).setPending ⟨0, maxIrq_pos⟩ true }, id⟩

theorem throughout_activeMarked_svc :
    Throughout (loopStep Board.scsEnv Board.decode32) (fun m => m.toSys.ActiveMarked)
      (start Board.scsEnv Board.cpu (.both 0) nestedImage)
      [.pass ⟨id, id⟩, .pass interrupts, .pass ⟨id, id⟩, .pass ⟨id, id⟩, .pass ⟨id, id⟩] := by
  refine throughout_activeMarked (World.scsRegions_keepShcsr _ rfl) ⟨rfl, by decide +kernel⟩
    ⟨?svc, ?inside, ?interrupt, ?returns, ?after, trivial⟩
  case svc =>
    refine passMatched_of_none ?_ ?_ rfl (fetchMatched_of_svc ?_ ?_ ?_ ?_ ?_ rfl)
    all_goals decide +kernel
  case inside | after =>
    refine passMatched_of_none ?_ ?_ rfl (fetchMatched_of_nop ?_ ?_ ?_ ?_ rfl)
    all_goals decide +kernel
  case interrupt =>
    change PassMatched Board.scsEnv Board.decode32 _ _
    refine passMatched_of_some ?_ ?_ ?_
    all_goals decide +kernel
  case returns =>
    refine passMatched_of_none ?_ ?_ rfl (fetchMatched_of_bxLr ?_ ?_ ?_ ?_ ?_ ?_ ?_ rfl)
    all_goals decide +kernel

/-- `BX LR` at the start of the handler leaves SVCALLACT set; no store reaches SHCSR on a board
without a bus. -/
theorem svcallact_survives_return :
    ¬ ∀ (w : World Unit) (is : List (Input Unit)), w.StartsClear Board.env (.both 0) →
      Throughout (loopStep Board.env Board.decode32) (fun m => m.toSys.ActiveMarked)
        (start Board.env Board.cpu (.both 0) w) is := by
  intro h
  have marked := (h (callImage 0xBF004770) [.pass ⟨id, id⟩, .pass ⟨id, id⟩]
    ⟨rfl, by decide +kernel⟩).last
  have left := (marked ⟨Vect.svcall, .secure⟩ (by decide)).mp (by decide +kernel)
  revert left
  decide +kernel

end Machine

end M33mu
