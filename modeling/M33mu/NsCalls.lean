import M33mu.Board
import M33mu.Lib.Run
import M33mu.Pass

namespace M33mu

open Lib

namespace Machine

variable {δ : Type u} (env : Env δ) (decode32 : Word → Decoded)

/-- What a `BLXNS` that the pass executes has to be returned to. -/
def nsCall (m : Machine δ) (h : Host δ) : Option TzRecord :=
  match m.executed env decode32 h with
  | some (f, d, a) =>
    if d.kind = .blxns then some ⟨f.pcFetch + d.len.setWidth 32 ||| 1, a.cpu.secState, a.cpu.mode⟩
    else none
  | none => none

/-- The instruction writes the value of a call's LR to the PC in Non-secure state: by `BX`, by a
move, or by a load. -/
def WritesSentinel (f : FetchResult) (d : Decoded) (a : Machine δ) : Prop :=
  a.cpu.secState = .nonsecure ∧
    (d.kind = .bx ∧ a.cpu.r d.rm = Cpu.tzRetLrSentinel ∨
      .pcWrite Cpu.tzRetLrSentinel ∈ Execute.requested env f d a)

instance (f : FetchResult) (d : Decoded) (a : Machine δ) : Decidable (WritesSentinel env f d a) :=
  inferInstanceAs (Decidable (_ ∧ _))

def ReturnsNs (m : Machine δ) (h : Host δ) : Prop :=
  ∃ x ∈ m.executed env decode32 h, WritesSentinel env x.1 x.2.1 x.2.2

instance (m : Machine δ) (h : Host δ) : Decidable (m.ReturnsNs env decode32 h) :=
  decidable_of_iff ((m.executed env decode32 h).any fun x => WritesSentinel env x.1 x.2.1 x.2.2) <| by
    simp [ReturnsNs, Option.any_eq_true]

def openCalls (calls : List TzRecord) (m : Machine δ) : Input δ → List TzRecord
  | .pass h =>
    match m.nsCall env decode32 h with
    | some rec => rec :: calls
    | none => if m.ReturnsNs env decode32 h then calls.tail else calls
  | .restart _ _ => if m.resetAgain then [] else calls

end Machine

structure NsCalls (δ : Type u) where
  machine : Machine δ
  calls : List TzRecord

namespace NsCalls

open Machine

variable {δ : Type u} (env : Env δ) (decode32 : Word → Decoded)

def step (x : NsCalls δ) (i : Input δ) : NsCalls δ :=
  ⟨x.machine.loopStep env decode32 i, x.machine.openCalls env decode32 x.calls i⟩

def ReturnsMatch (x : NsCalls δ) : Input δ → Prop
  | .pass h => x.machine.ReturnsNs env decode32 h → ∀ rec ∈ x.calls.head?,
    let c := (x.machine.mainPass env decode32 h).cpu
    c.r 15 = rec.pc ||| 1 ∧ c.secState = rec.sec ∧ c.mode = rec.mode
  | .restart _ _ => True

/-- A `BLXNS` finds room on the side stack, and a return is a `BX LR` to a stack that is not below
its limit. -/
structure Supported (f : FetchResult) (d : Decoded) (a : Machine δ) : Prop where
  call : d.kind = .blxns → a.cpu.tz.HasRoom
  ret : WritesSentinel env f d a → d.kind = .bx ∧ d.rm = 14 ∧
    ∀ rec ∈ a.cpu.tz.pop.1,
      spLimited (a.cpu.tzReturn rec) (a.cpu.tzReturn rec).getActiveSp = false

instance (f : FetchResult) (d : Decoded) (a : Machine δ) : Decidable (Supported env f d a) :=
  decidable_of_iff (_ ∧ _) ⟨fun ⟨call, ret⟩ => ⟨call, ret⟩, fun ⟨call, ret⟩ => ⟨call, ret⟩⟩

def CallsSupported (x : NsCalls δ) : Input δ → Prop
  | .pass h => ∀ e ∈ x.machine.executed env decode32 h, Supported env e.1 e.2.1 e.2.2
  | .restart _ _ => True

instance (x : NsCalls δ) : (i : Input δ) → Decidable (CallsSupported env decode32 x i)
  | .pass _ => inferInstanceAs (Decidable (∀ _ ∈ _, _))
  | .restart _ _ => isTrue trivial

end NsCalls

namespace Machine

variable {δ : Type u} {env : Env δ} {decode32 : Word → Decoded} {f : FetchResult} {d : Decoded}

theorem afterCall_tz {m : Machine δ} {x : Word} {sec : SecState} {r : Bool × Sys δ}
    (raised : m.toSys.Raised x sec r) : (m.afterCall r).cpu.tz = m.cpu.tz := by
  cases raised with
  | entered num w entered => exact entered.tz
  | refused w => rfl

theorem excReturn_tz (m : Machine δ) (excRet : Word) :
    (m.excReturn env excRet).cpu.tz = m.cpu.tz := by
  cases ok : (m.toSys.excReturnUnstack env excRet).1 with
  | true =>
    obtain ⟨info, frame, w, -, eq⟩ := excReturn_of_ok env ok
    rw [eq]
    rfl
  | false =>
    simp only [excReturn, ok, afterCall]
    simp only [Sys.excReturnUnstack] at ok ⊢
    split at ok
    · rfl
    split at ok
    · cases ok
    · rfl

theorem Micro.tz {m m' : Machine δ} (h : Micro env f d m m') (blxns : d.kind ≠ .blxns)
    (bx : d.kind ≠ .bx) : m'.cpu.tz = m.cpu.tz := by
  cases h with
  | blxns kind => exact absurd kind blxns
  | tzReturn kind => exact absurd kind bx
  | sp v => exact (m.cpu.setActiveSp_quiet v).tz
  | readRefused | read8Refused | writeRefused =>
    exact afterCall_tz (Sys.raiseMemFault_raised env _ _ _ _ _)
  | usageFault => exact afterCall_tz (Sys.raiseUsageFault_raised env _ _ _ _)
  | svc => exact afterCall_tz (Sys.enterException_raised env _ _ _ _)
  | excReturn excRet => exact excReturn_tz m excRet
  | sg _ ns =>
    simp only [record, Cpu.tzExecSg, ns]
    exact (Cpu.setActiveSp_quiet _ _).tz
  | bxns => exact (Cpu.enterNs_quiet { m.cpu with secState := .nonsecure } rfl).tz
  | msr => exact (m.cpu.execMsr_still d).tz
  | cps => exact (m.cpu.execCps_quiet d).tz
  | wfe => exact m.cpu.execWfe_quiet.tz
  | _ => rfl

theorem execBlxns_tz (a : Machine δ) :
    (Execute.execBlxns a f d).2.cpu.tz =
      a.cpu.tz.push ⟨f.pcFetch + d.len.setWidth 32 ||| 1, a.cpu.secState, a.cpu.mode⟩ :=
  (Cpu.enterNs_quiet _ rfl).tz

theorem execBx_tz {a : Machine δ} (bx : d.kind = .bx) (other : ¬ WritesSentinel env f d a) :
    (Execute.execBx env a f d).2.cpu.tz = a.cpu.tz := by
  simp only [Execute.execBx]
  split
  · exact excReturn_tz a _
  split
  · rfl
  split
  · rename_i h
    exact absurd ⟨h.2.1, .inl ⟨bx, h.2.2⟩⟩ other
  · rfl

theorem executeDecoded_tz {a : Machine δ} (blxns : d.kind ≠ .blxns)
    (other : ¬ WritesSentinel env f d a) : (executeDecoded env f d a).2.cpu.tz = a.cpu.tz := by
  by_cases bx : d.kind = .bx
  · simp only [executeDecoded, bx]
    exact execBx_tz bx other
  · exact (executeDecoded_steps a).eq_of_same (F := fun b => b.cpu.tz) fun step =>
      step.tz blxns bx

variable (env) in
theorem execBx_returns {a : Machine δ} (ns : a.cpu.secState = .nonsecure) (lr : d.rm = 14)
    (sentinel : a.cpu.r 14 = Cpu.tzRetLrSentinel) {rec : TzRecord}
    (top : a.cpu.tz.pop.1 = some rec)
    (room : spLimited (a.cpu.tzReturn rec) (a.cpu.tzReturn rec).getActiveSp = false) :
    let c := (Execute.execBx env a f d).2.cpu
    c.tz = a.cpu.tz.pop.2 ∧ c.r 15 = rec.pc ||| 1 ∧ c.secState = rec.sec ∧ c.mode = rec.mode := by
  have exc : isExcReturn Cpu.tzRetLrSentinel = false := by decide
  have high : ¬ (Cpu.tzRetLrSentinel &&& 0xF0000000 = 0xF0000000) := by decide
  simp only [Execute.execBx, lr, ns, sentinel, exc, high, top, record, setSp, room, if_false,
    if_true, true_and, Bool.false_eq_true]
  have quiet := (a.cpu.tzReturn rec).setActiveSp_quiet (a.cpu.tzReturn rec).getActiveSp
  refine ⟨quiet.tz, ?_, quiet.secState, quiet.mode⟩
  exact Cpu.setActiveSp_r_of_ne _ _ (by decide)

theorem dispatch_tz (m : Machine δ) (num : Word) (sec : SecState) :
    (m.dispatch env num sec).cpu.tz = m.cpu.tz := by
  rcases m.dispatch_entered env num sec with ⟨cpu, -⟩ | ⟨_, entered, -⟩
  · exact congrArg _ cpu
  · exact entered.tz

theorem mainPass_tz_of_none {m : Machine δ} {h : Host δ}
    (none : m.executed env decode32 h = none) : (m.mainPass env decode32 h).cpu.tz = m.cpu.tz := by
  have attended := (attend_quiet h m).cpu.tz
  have ready := (ready_quiet env h (m.attend h).1).cpu.tz.trans attended
  have passes : Passes env decode32 m h (m.mainPass env decode32 h) := mainPass_passes m h
  generalize m.mainPass env decode32 h = m' at passes ⊢
  cases passes with
  | ends => exact attended
  | @dispatches num sec a _ accepted =>
    rw [dispatch_tz, (pending_quiet accepted).cpu.tz, attended]
  | fetchFaults _ _ fetched =>
    rw [fetched] at ready
    exact (afterCall_tz (Sys.raiseMemFault_raised env _ _ _ _ _)).trans ready
  | undefined _ _ fetched =>
    rw [fetched] at ready
    exact (afterCall_tz (Sys.raiseUsageFault_raised env _ _ _ _)).trans ready
  | skips _ _ fetched =>
    rw [fetched] at ready
    exact ready
  | executes executed => cases none.symm.trans executed

variable (env) in
theorem vectorApplyReset_tz (m : Machine δ) : (m.vectorApplyReset env).2.cpu.tz = m.cpu.tz := by
  simp only [vectorApplyReset]
  split
  · rfl
  split
  · rfl
  · exact (Cpu.setActiveSp_quiet { m.cpu with xpsr := 0x01000000 } _).tz

variable (env) in
theorem restart_tz {m : Machine δ} (again : m.resetAgain = true) (vtor : Banked Word)
    (w : World δ) : (m.restart env vtor w).cpu.tz = .empty := by
  refine restart_rule (P := fun a => a.cpu.tz = .empty) env again (fun a cpu _ _ _ => ?_)
    (fun _ empty => empty) (fun _ empty => empty)
  rw [vectorApplyReset_tz, cpu]
  rfl

end Machine

namespace NsCalls

open Machine

variable {δ : Type u} {env : Env δ} {decode32 : Word → Decoded}

def Recorded (x : NsCalls δ) : Prop := x.machine.cpu.tz.items = x.calls

theorem executeDecoded_returns {f : FetchResult} {d : Decoded} {a : Machine δ}
    (ret : WritesSentinel env f d a) (bx : d.kind = .bx) (lr : d.rm = 14)
    (room : ∀ rec ∈ a.cpu.tz.pop.1,
      spLimited (a.cpu.tzReturn rec) (a.cpu.tzReturn rec).getActiveSp = false) :
    let c := (executeDecoded env f d a).2.cpu
    c.tz.items = a.cpu.tz.items.tail ∧ ∀ rec ∈ a.cpu.tz.items.head?,
      c.r 15 = rec.pc ||| 1 ∧ c.secState = rec.sec ∧ c.mode = rec.mode := by
  obtain ⟨ns, sentinel⟩ := ret
  have sentinel : a.cpu.r 14 = Cpu.tzRetLrSentinel := by
    rcases sentinel with ⟨-, eq⟩ | mem
    · exact lr ▸ eq
    · simp only [Execute.requested, bx, lr, if_true, List.mem_singleton, Request.pcWrite.injEq] at mem
      exact mem.symm
  simp only [executeDecoded, bx]
  cases top : a.cpu.tz.pop.1 with
  | some rec =>
    obtain ⟨tz, resumed⟩ := execBx_returns env (f := f) ns lr sentinel top (room rec top)
    rw [BoundedStack.pop_fst] at top
    refine ⟨by rw [tz, BoundedStack.pop_snd_items], fun rec' mem => ?_⟩
    cases top.symm.trans mem
    exact resumed
  | none =>
    have exc : isExcReturn Cpu.tzRetLrSentinel = false := by decide
    have high : ¬ (Cpu.tzRetLrSentinel &&& 0xF0000000 = 0xF0000000) := by decide
    have empty : a.cpu.tz.items = [] := by
      rw [BoundedStack.pop_fst] at top
      exact List.head?_eq_none_iff.mp top
    simp only [Execute.execBx, lr, ns, sentinel, exc, high, top, if_false, if_true, true_and,
      Bool.false_eq_true]
    exact ⟨by rw [empty]; exact empty, by rw [empty]; exact fun _ is => by cases is⟩

theorem mainPass_calls {m : Machine δ} {h : Host δ}
    (supported : ∀ e ∈ m.executed env decode32 h, Supported env e.1 e.2.1 e.2.2) :
    (m.mainPass env decode32 h).cpu.tz.items = m.openCalls env decode32 m.cpu.tz.items (.pass h) ∧
      (m.ReturnsNs env decode32 h → ∀ rec ∈ m.cpu.tz.items.head?,
        let c := (m.mainPass env decode32 h).cpu
        c.r 15 = rec.pc ||| 1 ∧ c.secState = rec.sec ∧ c.mode = rec.mode) := by
  cases executed : m.executed env decode32 h with
  | none =>
    simp [openCalls, nsCall, ReturnsNs, executed, mainPass_tz_of_none executed]
  | some e =>
    obtain ⟨f, d, a⟩ := e
    have safe := supported _ executed
    obtain ⟨-, -, fetched, -⟩ := executed_eq_some.mp executed
    have quiet := (attend_quiet h m).trans (ready_quiet env h (m.attend h).1)
    rw [fetched] at quiet
    have tz : a.cpu.tz = m.cpu.tz := quiet.cpu.tz
    obtain ⟨xpsr, cpu⟩ := afterExecute_cpu h d (executeDecoded env f d a)
    have returns : m.ReturnsNs env decode32 h ↔ WritesSentinel env f d a := by
      simp [ReturnsNs, executed]
    rw [mainPass_of_executed executed, cpu, returns]
    simp only [openCalls, nsCall, executed, returns, ← tz]
    by_cases blxns : d.kind = .blxns
    · have other : ¬ WritesSentinel env f d a := by
        simp [WritesSentinel, Execute.requested, blxns]
      refine ⟨?_, fun ret => absurd ret other⟩
      simp only [blxns, if_true, executeDecoded, execBlxns_tz]
      exact BoundedStack.push_of_hasRoom (safe.call blxns) _
    by_cases ret : WritesSentinel env f d a
    · obtain ⟨bx, lr, room⟩ := safe.ret ret
      simp only [blxns, ret, if_false, if_true, true_imp_iff]
      exact executeDecoded_returns ret bx lr room
    · simp only [blxns, ret, if_false, false_imp_iff, and_true]
      exact congrArg _ (executeDecoded_tz blxns ret)

theorem recorded_step (x : NsCalls δ) (i : Input δ) (recorded : x.Recorded)
    (supported : CallsSupported env decode32 x i) : (x.step env decode32 i).Recorded := by
  cases i with
  | pass h =>
    have eq := (mainPass_calls supported).1
    rw [recorded] at eq
    exact eq
  | restart vtor w =>
    simp only [Recorded, step, loopStep, openCalls]
    cases again : x.machine.resetAgain with
    | true =>
      rw [restart_tz env again]
      rfl
    | false =>
      rw [restart_of_not_resetAgain env again]
      exact recorded

theorem along_of_recorded {x : NsCalls δ} {is : List (Input δ)} (recorded : x.Recorded)
    (supported : Along (step env decode32) (CallsSupported env decode32) x is) :
    Along (step env decode32) (ReturnsMatch env decode32) x is := by
  induction is generalizing x with
  | nil => trivial
  | cons i is ih =>
    refine ⟨?_, ih (recorded_step x i recorded supported.1) supported.2⟩
    cases i with
    | restart => trivial
    | pass h =>
      intro ret rec mem
      rw [← recorded] at mem
      exact (mainPass_calls supported.1).2 ret rec mem

/-- Along a run whose calls find room and whose returns are `BX LR`, every return resumes the
innermost open call. -/
theorem returns_match (c : Cpu) (vtor : Banked Word) (w : World δ) {is : List (Input δ)}
    (supported : Along (step env decode32) (CallsSupported env decode32)
      ⟨start env c vtor w, []⟩ is) :
    Along (step env decode32) (ReturnsMatch env decode32) ⟨start env c vtor w, []⟩ is :=
  along_of_recorded (congrArg _ (restart_tz env rfl vtor w)) supported

/-- Secure code calls `0x120` with `BLXNS`, where the given instruction returns. -/
def nsCallee (ret : Word) : World Unit :=
  Board.flashed [(0x00, 0x20008000), (0x04, 0x101), (0x100, 0x47844801), (0x104, 0xBF00BF00),
    (0x108, 0x121), (0x120, ret)]

def called : List (Input Unit) := List.replicate 2 (.pass ⟨id, id⟩)

/-- The callee comes back to the Secure state by `SG`, calls `0x140`, goes to `0x150` by `BXNS` and
returns from there: two calls, one inside the other. -/
def nestedCalls : World Unit :=
  Board.flashed [(0x00, 0x20008000), (0x04, 0x101), (0x100, 0x47844801), (0x104, 0xBF00BF00),
    (0x108, 0x121), (0x120, 0xE97FE97F), (0x124, 0x48034674), (0x128, 0x46A64784),
    (0x12C, 0x47044802), (0x130, 0xBF00BF00), (0x134, 0x141), (0x138, 0x151), (0x140, 0xBF004770),
    (0x150, 0xBF004770)]

theorem returns_match_bxLr :
    Along (step Board.env Board.decode32) (ReturnsMatch Board.env Board.decode32)
        ⟨start Board.env Board.cpu (.both 0) nestedCalls, []⟩ (List.replicate 11 (.pass ⟨id, id⟩)) ∧
      ([6, 7, 11].map fun n => (Lib.run (step Board.env Board.decode32)
        ⟨start Board.env Board.cpu (.both 0) nestedCalls, []⟩
          (List.replicate n (.pass ⟨id, id⟩))).calls.length) = [2, 1, 0] :=
  ⟨returns_match _ _ _ (by decide +kernel), by decide +kernel⟩

theorem movPcLr_does_not_return :
    ¬ ∀ (w : World Unit) (is : List (Input Unit)),
      Along (step Board.env Board.decode32) (ReturnsMatch Board.env Board.decode32)
        ⟨start Board.env Board.cpu (.both 0) w, []⟩ is := by
  intro h
  have along := h (nsCallee 0x46F7) (called ++ [.pass ⟨id, id⟩])
  have resumed := (along_append.mp along).2.1 (by decide +kernel) ⟨0x105, .secure, .thread⟩
    (by decide +kernel)
  exact absurd resumed.2.1 (by decide +kernel)

end NsCalls

end M33mu
