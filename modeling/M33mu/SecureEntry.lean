import M33mu.Board
import M33mu.CpuIsolation
import M33mu.Lib.History
import M33mu.Lib.Run
import M33mu.MainLoop

namespace M33mu

open Lib

namespace Event

def entryMark : Event → Mark SecState
  | .enter _ origin _ _ => .opens origin
  | .ret _ _ _ _ => .closes
  | _ => .idle

def callMark : Event → Mark SecState
  | .call sec => .opens sec
  | .tzReturn _ => .closes
  | _ => .idle

/-- An event that may change Non-secure into Secure state after `past`, where `nsc` tells the
addresses that are Non-secure callable. -/
def Entitled (nsc : Word → Prop) (past : List Event) : Event → Prop
  | .sg pc => nsc pc
  | .enter _ origin target _ => origin = .nonsecure ∧ target = .secure
  | .ret _ mode sec _ =>
    sec = .nonsecure ∧ mode = .handler ∧ (openAfter entryMark past).head? = some .secure
  | .tzReturn sec => sec = .secure ∧ .secure ∈ openAfter callMark past
  | .call _ => False

end Event

def World.attribution {δ : Type u} (env : Env δ) (w : World δ) (addr : Word) : Option SauAttr :=
  w.map.prot.map fun ctx =>
    Prot.attrForAddr ctx (env.blockSecure.map fun f => f w.dev) w.scs addr

namespace Machine

variable {δ : Type u} (env : Env δ) (decode32 : Word → Decoded)

def fetched (m : Machine δ) (h : Host δ) : FetchResult × Machine δ := (m.attend h).1.ready env h

def TurnsSecureEntitled (m : Machine δ) : Input δ → Prop
  | .pass h =>
    m.cpu.secState = .nonsecure → (m.mainPass env decode32 h).cpu.secState = .secure →
      ∃ e later, (m.mainPass env decode32 h).trace = later ++ e :: m.trace ∧
        e.Entitled (fun pc => (m.fetched env h).2.world.attribution env pc = some .nsc) m.trace
  | .restart _ _ => True

def toSecure (value : Word) : Bool :=
  (excReturnDecode value).any fun info => info.targetSec == .secure

/-- `SG` lies in Non-secure callable memory, and an EXC_RETURN to Secure state is written to the PC
in the handler of an exception taken from there. -/
def Proper (f : FetchResult) (m : Machine δ) : Request → Prop
  | .sg => m.world.attribution env f.pcFetch = some .nsc
  | .pcWrite value => toSecure value = true →
    m.cpu.mode = .handler ∧ (openAfter Event.entryMark m.trace).head? = some .secure

instance (f : FetchResult) (m : Machine δ) : (r : Request) → Decidable (Proper env f m r)
  | .sg => inferInstanceAs (Decidable (_ = _))
  | .pcWrite _ => inferInstanceAs (Decidable (_ → _))

def Guarded (m : Machine δ) : Input δ → Prop
  | .pass h =>
    let f := (m.fetched env h).1
    let m' := (m.fetched env h).2
    let d := Decode.decodeT32 decode32 f
    (m.attend h).2 = true → (m.attend h).1.pending.isNone → f.fault = false →
      d.undefined = false → (m'.inBlock d && !m'.it.takes (.ofXpsr m'.cpu.xpsr)) = false →
        m'.cpu.secState = .nonsecure → ∀ r ∈ Execute.requested env f d m', Proper env f m' r
  | .restart _ _ => True

instance (m : Machine δ) : (i : Input δ) → Decidable (Guarded env decode32 m i)
  | .pass _ => inferInstanceAs (Decidable (_ → _))
  | .restart _ _ => isTrue trivial

/-- The side stack of `BLXNS` records the open calls, innermost on top. -/
def CallsRecorded (m : Machine δ) : Prop :=
  m.cpu.tz.Records Event.callMark (fun rec => rec.sec) m.trace

variable {env decode32} {f : FetchResult} {P : Request → Prop}

theorem CallsRecorded.congr {m m' : Machine δ} (h : m.CallsRecorded) (tz : m'.cpu.tz = m.cpu.tz)
    (trace : m'.trace = m.trace) : m'.CallsRecorded := by
  rw [CallsRecorded, tz, trace]
  exact h

theorem CallsRecorded.of_event {m m' : Machine δ} (h : m.CallsRecorded)
    (tz : m'.cpu.tz = m.cpu.tz) {e : Event} (idle : e.callMark = .idle)
    (trace : m'.trace = e :: m.trace) : m'.CallsRecorded := by
  rw [CallsRecorded, tz, trace]
  have only : ∀ e' ∈ [e], e'.callMark = .idle := fun _ mem => List.mem_singleton.mp mem ▸ idle
  exact h.append_of_idle only

theorem Quiet.callsRecorded {m m' : Machine δ} (h : m.Quiet m') (recorded : m.CallsRecorded) :
    m'.CallsRecorded := recorded.congr h.cpu.tz h.trace

theorem Local.callsRecorded {m m' : Machine δ} (h : m.Local m') (recorded : m.CallsRecorded) :
    m'.CallsRecorded := by
  induction h with
  | refl => exact recorded
  | tail _ step ih =>
    cases step with
    | inl quiet => exact quiet.callsRecorded ih
    | inr entry =>
      obtain ⟨num, entered, trace⟩ := entry.entered
      exact ih.of_event entered.tz rfl trace

theorem Transfer.callsRecorded {m m' : Machine δ} (h : Transfer env f P m m')
    (recorded : m.CallsRecorded) : m'.CallsRecorded := by
  cases h with
  | ret excRet _ ok =>
    obtain ⟨info, frame, w, -, eq⟩ := excReturn_of_ok env ok
    rw [eq]
    exact recorded.of_event rfl rfl rfl
  | sg _ ns =>
    refine recorded.of_event ?_ rfl rfl
    simp only [record, Cpu.tzExecSg, ns]
    exact (Cpu.setActiveSp_quiet _ _).tz
  | bxns => exact recorded.congr (Cpu.enterNs_quiet { m.cpu with secState := .nonsecure } rfl).tz rfl
  | blxns target returnAddr =>
    have pushed : (m.cpu.tzExecBlxns target returnAddr).tz =
        m.cpu.tz.push ⟨returnAddr ||| 1, m.cpu.secState, m.cpu.mode⟩ :=
      (Cpu.enterNs_quiet _ rfl).tz
    change (m.cpu.tzExecBlxns target returnAddr).tz.Records _ _ _
    rw [pushed]
    exact BoundedStack.Records.push recorded rfl
  | tzReturn rec ns pop => exact BoundedStack.Records.pop recorded rfl

theorem Effect.callsRecorded {m m' : Machine δ} (h : Effect env f P m m')
    (recorded : m.CallsRecorded) : m'.CallsRecorded := by
  cases h with
  | stays h => exact h.callsRecorded recorded
  | transfers before transfer after =>
    exact after.callsRecorded (transfer.callsRecorded (before.callsRecorded recorded))

theorem executeDecoded_callsRecorded {m : Machine δ} (d : Decoded) (recorded : m.CallsRecorded) :
    (executeDecoded env f d m).2.CallsRecorded := by
  by_cases it : d.kind = .it
  · simp only [executeDecoded, it]
    exact recorded.congr rfl rfl
  by_cases msr : d.kind = .msr
  · simp only [executeDecoded, msr]
    exact recorded.congr (m.cpu.execMsr_still d).tz rfl
  · exact (executeDecoded_effect m it msr).callsRecorded recorded

theorem afterExecute_callsRecorded {h : Host δ} {d : Decoded} {o : Outcome δ}
    (recorded : o.2.CallsRecorded) : (afterExecute h d o).CallsRecorded := by
  obtain ⟨status, m⟩ := o
  cases status with
  | cont => exact recorded
  | ok =>
    refine (endPass_quiet h _).callsRecorded ?_
    split <;> exact recorded.congr rfl rfl

theorem executePass_callsRecorded {m : Machine δ} (h : Host δ) (recorded : m.CallsRecorded) :
    (m.executePass env decode32 h).CallsRecorded := by
  have recorded := (ready_quiet env h m).callsRecorded recorded
  simp only [executePass]
  split
  · exact (afterCall_local (Sys.raiseMemFault_raised env _ _ _ _ _)).callsRecorded recorded
  split
  · exact (usageFault_local _ _ _).callsRecorded recorded
  split
  · exact recorded.congr rfl rfl
  · exact afterExecute_callsRecorded (executeDecoded_callsRecorded _ recorded)

theorem dispatch_callsRecorded {m : Machine δ} (excNum : Word) (handlerSec : SecState)
    (recorded : m.CallsRecorded) : (m.dispatch env excNum handlerSec).CallsRecorded := by
  rcases m.dispatch_entered env excNum handlerSec with ⟨cpu, trace⟩ | ⟨num, entered, trace⟩
  · exact recorded.congr (congrArg _ cpu) trace
  · exact recorded.of_event entered.tz rfl trace

theorem mainPass_callsRecorded {m : Machine δ} (h : Host δ) (recorded : m.CallsRecorded) :
    (m.mainPass env decode32 h).CallsRecorded := by
  have recorded := (attend_quiet h m).callsRecorded recorded
  simp only [mainPass]
  generalize m.attend h = r at recorded ⊢
  obtain ⟨a, goesOn⟩ := r
  cases goesOn with
  | false => exact recorded
  | true =>
    simp only [handlePending]
    split
    · rename_i accepted
      exact dispatch_callsRecorded _ _ ((pending_quiet accepted).callsRecorded recorded)
    · exact executePass_callsRecorded h recorded

variable (env) in
theorem vectorApplyReset_callsRecorded {m : Machine δ} (recorded : m.CallsRecorded) :
    (m.vectorApplyReset env).2.CallsRecorded := by
  simp only [vectorApplyReset]
  split
  · exact recorded.congr rfl rfl
  split
  · exact recorded.congr rfl rfl
  · exact recorded.congr (Cpu.setActiveSp_quiet { m.cpu with xpsr := 0x01000000 } _).tz rfl

theorem callsRecorded_restart {m : Machine δ} (vtor : Banked Word) (w : World δ)
    (again : m.resetAgain = true) : (m.restart env vtor w).CallsRecorded := by
  refine restart_rule env again (fun a cpu _ trace _ => ?_) (fun _ recorded => recorded.congr rfl rfl)
    (fun _ recorded => recorded.congr rfl rfl)
  have empty : a.CallsRecorded := by
    rw [CallsRecorded, cpu, trace]
    exact BoundedStack.records_empty
  exact vectorApplyReset_callsRecorded env empty

theorem loopStep_callsRecorded (m : Machine δ) (i : Input δ) (recorded : m.CallsRecorded) :
    (m.loopStep env decode32 i).CallsRecorded := by
  cases i with
  | pass h => exact mainPass_callsRecorded h recorded
  | restart vtor w =>
    cases again : m.resetAgain with
    | true => exact callsRecorded_restart vtor w again
    | false =>
      rw [loopStep, restart_of_not_resetAgain env again]
      exact recorded

theorem Transfer.entitled {a b m : Machine δ} {nsc : Word → Prop}
    (h : Transfer env f P a b) (ns : a.cpu.secState = .nonsecure) (secure : b.cpu.secState = .secure)
    (trace : a.trace = m.trace) (recorded : m.CallsRecorded)
    (tz : a.cpu.tz = m.cpu.tz) (sg : P .sg → nsc f.pcFetch)
    (ret : ∀ value, P (.pcWrite value) → toSecure value = true →
      a.cpu.mode = .handler ∧ (openAfter Event.entryMark m.trace).head? = some .secure) :
    ∃ e, b.trace = e :: m.trace ∧ e.Entitled nsc m.trace := by
  rw [← trace]
  cases h with
  | ret excRet requested ok =>
    obtain ⟨info, frame, w, hd, eq⟩ := excReturn_of_ok env ok
    rw [eq] at secure ⊢
    have target : info.targetSec = .secure := secure
    obtain ⟨handler, matching⟩ := ret excRet requested (by simp [toSecure, hd, target])
    exact ⟨_, rfl, ns, handler, trace ▸ matching⟩
  | sg requested => exact ⟨_, rfl, sg requested⟩
  | bxns target =>
    have stays := (Cpu.enterNs_quiet { a.cpu with secState := .nonsecure } rfl).secState
    cases secure.symm.trans stays
  | blxns target returnAddr => cases secure.symm.trans (Cpu.enterNs_quiet _ rfl).secState
  | tzReturn rec _ pop =>
    have sec : rec.sec = .secure := secure
    refine ⟨_, rfl, sec, ?_⟩
    rw [← sec, trace]
    rw [tz] at pop
    exact BoundedStack.Records.mem_of_pop recorded (Prod.ext pop rfl)

theorem Effect.entitled {m m' : Machine δ} {nsc : Word → Prop} (h : Effect env f P m m')
    (ns : m.cpu.secState = .nonsecure) (secure : m'.cpu.secState = .secure)
    (recorded : m.CallsRecorded) (sg : P .sg → nsc f.pcFetch)
    (ret : ∀ value, P (.pcWrite value) → toSecure value = true →
      m.cpu.mode = .handler ∧ (openAfter Event.entryMark m.trace).head? = some .secure) :
    ∃ e later, m'.trace = later ++ e :: m.trace ∧ e.Entitled nsc m.trace := by
  cases h with
  | stays h => cases secure.symm.trans (h.secState.trans ns)
  | transfers before transfer after =>
    obtain ⟨e, trace, entitled⟩ := transfer.entitled (before.cpu.secState.trans ns)
      (after.secState.symm.trans secure) before.trace recorded before.cpu.tz sg
      (before.cpu.mode ▸ ret)
    obtain ⟨later, eq, -⟩ := after.onlyEnters
    exact ⟨e, later, eq.trans (congrArg _ trace), entitled⟩

theorem afterExecute_secState (h : Host δ) (d : Decoded) (o : Outcome δ) :
    (afterExecute h d o).cpu.secState = o.2.cpu.secState := by
  obtain ⟨status, m⟩ := o
  cases status with
  | cont => rfl
  | ok =>
    refine (endPass_quiet h _).cpu.secState.trans ?_
    split <;> rfl

theorem executeDecoded_entitled {m : Machine δ} {d : Decoded}
    (ns : m.cpu.secState = .nonsecure)
    (secure : (executeDecoded env f d m).2.cpu.secState = .secure) (recorded : m.CallsRecorded)
    (proper : ∀ r ∈ Execute.requested env f d m, Proper env f m r) :
    ∃ e later, (executeDecoded env f d m).2.trace = later ++ e :: m.trace ∧
      e.Entitled (fun pc => m.world.attribution env pc = some .nsc) m.trace := by
  by_cases it : d.kind = .it
  · simp only [executeDecoded, it] at secure
    cases secure.symm.trans ns
  by_cases msr : d.kind = .msr
  · simp only [executeDecoded, msr] at secure
    cases secure.symm.trans ((m.cpu.execMsr_still d).secState.trans ns)
  · exact (executeDecoded_effect m it msr).entitled ns secure recorded (proper .sg)
      fun value => proper (.pcWrite value)

theorem dispatch_entitled {m : Machine δ} {nsc : Word → Prop} (excNum : Word)
    (handlerSec : SecState) (ns : m.cpu.secState = .nonsecure)
    (secure : (m.dispatch env excNum handlerSec).cpu.secState = .secure) :
    ∃ e later, (m.dispatch env excNum handlerSec).trace = later ++ e :: m.trace ∧
      e.Entitled nsc m.trace := by
  rcases m.dispatch_entered env excNum handlerSec with ⟨cpu, -⟩ | ⟨num, entered, trace⟩
  · rw [cpu] at secure
    cases secure.symm.trans ns
  · exact ⟨_, [], trace, ns, entered.secState.symm.trans secure⟩

theorem mainPass_entitled {m : Machine δ} (h : Host δ) (recorded : m.CallsRecorded)
    (guarded : Guarded env decode32 m (.pass h)) :
    TurnsSecureEntitled env decode32 m (.pass h) := by
  intro ns secure
  have attended := attend_quiet h m
  have ready := ready_quiet env h (m.attend h).1
  simp only [Guarded, fetched] at guarded
  simp only [fetched]
  simp only [mainPass] at secure ⊢
  generalize m.attend h = r at attended ready guarded secure ⊢
  obtain ⟨a, goesOn⟩ := r
  have ns := attended.cpu.secState.trans ns
  cases goesOn with
  | false => cases secure.symm.trans ns
  | true =>
    rw [← attended.trace]
    simp only [handlePending] at secure ⊢
    cases accepted : a.pending with
    | some p =>
      obtain ⟨excNum, handlerSec, b⟩ := p
      simp only [accepted] at secure ⊢
      have quiet := pending_quiet accepted
      rw [← quiet.trace]
      exact dispatch_entitled excNum handlerSec (quiet.cpu.secState.trans ns) secure
    | none =>
      simp only [accepted, executePass] at secure ⊢
      have ns := ready.cpu.secState.trans ns
      have recorded := ready.callsRecorded (attended.callsRecorded recorded)
      have guarded := guarded rfl (by simp [accepted])
      rw [← ready.trace]
      split at secure
      · refine absurd (secure.symm.trans ((Local.secState ?_).trans ns)) nofun
        exact afterCall_local (Sys.raiseMemFault_raised env _ _ _ _ _)
      rename_i fault
      split at secure
      · cases secure.symm.trans ((usageFault_local _ _ _).secState.trans ns)
      rename_i undefined
      split at secure
      · cases secure.symm.trans ns
      rename_i skip
      simp only [fault, undefined, skip, Bool.false_eq_true, if_false]
      rw [afterExecute_secState] at secure
      rw [afterExecute_trace]
      simp only [Bool.not_eq_true] at fault undefined skip
      exact executeDecoded_entitled ns secure recorded (guarded fault undefined skip ns)

theorem callsRecorded_start (c : Cpu) (vtor : Banked Word) (w : World δ) :
    (start env c vtor w).CallsRecorded := callsRecorded_restart vtor w rfl

/-- Along a run of the main loop whose instructions ask for nothing improper, Non-secure state
turns into Secure state only by what is entitled to. -/
theorem turnsSecure_entitled (c : Cpu) (vtor : Banked Word) (w : World δ) {is : List (Input δ)}
    (guarded : Along (loopStep env decode32) (Guarded env decode32) (start env c vtor w) is) :
    Along (loopStep env decode32) (TurnsSecureEntitled env decode32) (start env c vtor w) is :=
  along_of_invariant loopStep_callsRecorded
    (fun _ i recorded guarded => match i with
      | .pass h => mainPass_entitled h recorded guarded
      | .restart _ _ => trivial)
    (callsRecorded_start c vtor w) guarded

/-- An `SG` at `0xF0` in an NSC region of the SAU, and Secure code that sets it up and branches
there with `BXNS`. -/
def veneer : World Unit :=
  Board.guarded [(0x00, 0x20008000), (0x04, 0x101), (0xF0, 0xE97FE97F), (0x100, 0x21E04804),
    (0x104, 0x21E36081), (0x108, 0x210160C1), (0x10C, 0x21F06001), (0x110, 0xBF00470C),
    (0x114, 0xE000EDD0)]

def nsGateway : World Unit :=
  Board.guarded [(0x00, 0x20008000), (0x04, 0x101), (0xF0, 0xE97FE97F), (0x100, 0x21034802),
    (0x104, 0x21F06001), (0x108, 0xBF00470C), (0x10C, 0xE000EDD0)]

def undisturbed (n : Nat) : List (Input Unit) := List.replicate n (.pass ⟨id, id⟩)

theorem turnsSecure_entitled_veneer :
    Along (loopStep Board.scsEnv Board.decode32) (TurnsSecureEntitled Board.scsEnv Board.decode32)
      (start Board.scsEnv Board.cpu (.both 0) veneer) (undisturbed 10) :=
  turnsSecure_entitled _ _ _ (by decide +kernel)

theorem nsGateway_turns_secure :
    ¬ ∀ (c : Cpu) (vtor : Banked Word) (w : World Unit) (is : List (Input Unit)),
      Along (loopStep Board.scsEnv Board.decode32)
        (TurnsSecureEntitled Board.scsEnv Board.decode32) (start Board.scsEnv c vtor w) is := by
  intro h
  have along := h Board.cpu (.both 0) nsGateway (undisturbed 5 ++ undisturbed 1)
  have turns := (along_append.mp along).2.1
  obtain ⟨e, later, trace, entitled⟩ := turns (by decide +kernel) (by decide +kernel)
  have mem : e ∈ [Event.sg 0xF0] := by
    rw [show [Event.sg 0xF0] = _ from Eq.trans (by decide +kernel) trace]
    simp
  cases List.mem_singleton.mp mem
  simp only [Event.Entitled] at entitled
  revert entitled
  decide +kernel

end Machine

end M33mu
