import M33mu.Board
import M33mu.Lib.Run
import M33mu.MainLoop

namespace M33mu

open Lib

namespace ItCache

def decides (it : ItCache) (k : Nat) (f : Flags) : Bool :=
  if it.pattern.getLsbD k then condPassed f it.cond else !condPassed f it.cond

structure Same (a b : ItCache) : Prop where
  remaining : a.remaining = b.remaining
  decides : ∀ k < a.remaining.toNat, ∀ f, a.decides k f = b.decides k f

namespace Same

theorem refl (a : ItCache) : a.Same a := ⟨rfl, fun _ _ _ => rfl⟩

theorem symm {a b : ItCache} (h : a.Same b) : b.Same a :=
  ⟨h.remaining.symm, fun k hk f => (h.decides k (h.remaining ▸ hk) f).symm⟩

theorem trans {a b c : ItCache} (h : a.Same b) (h' : b.Same c) : a.Same c :=
  ⟨h.remaining.trans h'.remaining, fun k hk f =>
    (h.decides k hk f).trans (h'.decides k (h.remaining ▸ hk) f)⟩

end Same

theorem decides_advance (it : ItCache) (k : Nat) (f : Flags) :
    it.advance.decides k f = it.decides (k + 1) f := by
  simp only [decides, advance, BitVec.getLsbD_ushiftRight, Nat.add_comm 1 k]

theorem Same.advance {a b : ItCache} (h : a.Same b) (pos : 0 < a.remaining) :
    a.advance.Same b.advance where
  remaining := congrArg (· - 1) h.remaining
  decides k hk f := by
    have bound : k + 1 < a.remaining.toNat := by
      have one : (1 : Byte) ≤ a.remaining := pos
      have sub : a.advance.remaining.toNat = a.remaining.toNat - 1 := BitVec.toNat_sub_of_le one
      omega
    rw [decides_advance, decides_advance]
    exact h.decides _ bound f

theorem same_of_remaining_eq_zero {a b : ItCache} (ha : a.remaining = 0) (hb : b.remaining = 0) :
    a.Same b :=
  ⟨ha.trans hb.symm, fun k hk => by simp [ha] at hk⟩

end ItCache

namespace ItState

def Clean (raw : Byte) : Prop :=
  ¬ (raw.getLsbD 4 = true ∧ raw.getLsbD 5 = false ∧ raw &&& 0x7 ≠ 0)

instance (raw : Byte) : Decidable (Clean raw) := inferInstanceAs (Decidable (¬ _))

theorem condPassed_flip : ∀ cond : Byte, cond < 16 → ∀ n z c v,
    condPassed ⟨n, z, c, v⟩ (cond ^^^ 1) = !condPassed ⟨n, z, c, v⟩ cond := by
  decide +kernel

theorem decides_flip {a b : ItCache} {k : Nat} {f : Flags} (real : b.cond < 16)
    (cond : a.cond = b.cond ^^^ 1) (bit : a.pattern.getLsbD k = !b.pattern.getLsbD k) :
    a.decides k f = b.decides k f := by
  rw [ItCache.decides, ItCache.decides, cond, bit, condPassed_flip _ real f.n f.z f.c f.v]
  cases b.pattern.getLsbD k <;> simp

theorem cond_decode_lt (raw : Byte) : (decode raw).cond < 16 := by
  apply BitVec.lt_def.mpr
  have small := raw.isLt
  show (raw >>> 4).toNat < 16
  rw [BitVec.toNat_ushiftRight, Nat.shiftRight_eq_div_pow]
  omega

-- The shift of the byte takes the low bit of the condition from the mask. Where it turns, the bits
-- of the pattern turn with it.
theorem bits_decode_advance : ∀ raw : Byte, Clean raw → 0 < (decode raw).remaining →
    (decode (advance raw)).remaining = (decode raw).advance.remaining ∧
      ∀ k < 4, k < (decode (advance raw)).remaining.toNat →
        (decode (advance raw)).cond = (decode raw).cond ∧
            (decode (advance raw)).pattern.getLsbD k = (decode raw).advance.pattern.getLsbD k ∨
          (decode (advance raw)).cond = (decode raw).cond ^^^ 1 ∧
            (decode (advance raw)).pattern.getLsbD k = !(decode raw).advance.pattern.getLsbD k := by
  decide +kernel

theorem remaining_decode_le : ∀ raw : Byte, (decode raw).remaining ≤ 4 := by decide +kernel

theorem decode_advance {raw : Byte} (clean : Clean raw) (pos : 0 < (decode raw).remaining) :
    (decode (advance raw)).Same (decode raw).advance where
  remaining := (bits_decode_advance raw clean pos).1
  decides k hk f := by
    have most : (decode (advance raw)).remaining.toNat ≤ 4 :=
      BitVec.le_def.mp (remaining_decode_le _)
    rcases (bits_decode_advance raw clean pos).2 k (by omega) hk with ⟨cond, bit⟩ | ⟨cond, bit⟩
    · rw [ItCache.decides, ItCache.decides, cond, bit]
      rfl
    · exact decides_flip (cond_decode_lt raw) cond bit

end ItState

theorem Cpu.itState_resume (c : Cpu) (info : ExcReturnInfo) (f : Frame) (sp : Word) :
    ItState.get (c.resume info f sp).xpsr = ItState.get f.xpsr := by
  simp only [resume]
  split
  · exact ItState.get_and_not_ipsr _
  · rfl

def Event.isEnter : Event → Bool
  | .enter _ _ _ _ => true
  | _ => false

namespace Machine

variable {δ : Type u} {env : Env δ} {f : FetchResult} {P : Request → Prop}

/-- The cached triple and the `ITSTATE` of xPSR describe the same remaining block. -/
def Agree (m : Machine δ) : Prop := (ItState.syncFromXpsr m.cpu.xpsr).Same m.it

theorem Agree.congr {m m' : Machine δ} (h : m.Agree)
    (xpsr : ItState.get m'.cpu.xpsr = ItState.get m.cpu.xpsr) (it : m'.it = m.it) : m'.Agree := by
  rw [Agree, ItState.syncFromXpsr, xpsr, it]
  exact h

theorem Quiet.agree {m m' : Machine δ} (h : m.Quiet m') (agree : m.Agree) : m'.Agree :=
  agree.congr h.cpu.itState h.it

theorem agree_syncIt (m : Machine δ) : m.syncIt.Agree := .refl _

/-- The newest thing that happened since `m` is an exception entry. -/
def EntersLast (m m' : Machine δ) : Prop :=
  m.trace.length < m'.trace.length ∧ m'.trace.head?.any Event.isEnter = true

instance (m m' : Machine δ) : Decidable (m.EntersLast m') := inferInstanceAs (Decidable (_ ∧ _))

def Unstacks (m m' : Machine δ) (x : Word) : Prop :=
  ∃ later value mode sec, m'.trace = later ++ .ret value mode sec x :: m.trace

theorem Entry.itState {m m' : Machine δ} (h : m.Entry m') : ItState.get m'.cpu.xpsr = 0 := by
  obtain ⟨num, ⟨handler, sleeping, eventReg, eq⟩, -⟩ := h.entered
  rw [eq]
  exact ItState.get_entry _ _

theorem Local.it {m m' : Machine δ} (h : m.Local m') : m'.it = m.it := by
  induction h with
  | refl => rfl
  | tail _ step ih =>
    cases step with
    | inl quiet => exact quiet.it.trans ih
    | inr entry => exact entry.it.trans ih

theorem Local.itState {m m' : Machine δ} (h : m.Local m') :
    ItState.get m'.cpu.xpsr = ItState.get m.cpu.xpsr ∨
      ItState.get m'.cpu.xpsr = 0 ∧ m.EntersLast m' := by
  induction h with
  | refl => exact .inl rfl
  | tail before step ih =>
    cases step with
    | inl quiet =>
      rcases ih with kept | ⟨none, length, last⟩
      · exact .inl (quiet.cpu.itState.trans kept)
      · exact .inr ⟨quiet.cpu.itState.trans none, by rw [quiet.trace]; exact length,
          by rw [quiet.trace]; exact last⟩
    | inr entry =>
      obtain ⟨num, -, trace⟩ := entry.entered
      obtain ⟨es, eq, -⟩ := Local.onlyEnters before
      refine .inr ⟨entry.itState, ?_, by rw [trace]; rfl⟩
      rw [trace, eq, List.length_cons, List.length_append]
      omega

theorem Transfer.trace {m m' : Machine δ} (h : Transfer env f P m m') :
    ∃ es, es.length ≤ 1 ∧ m'.trace = es ++ m.trace := by
  cases h with
  | ret excRet _ ok =>
    obtain ⟨info, frame, w, -, eq⟩ := excReturn_of_ok env ok
    rw [eq]
    exact ⟨[_], Nat.le_refl 1, rfl⟩
  | bxns target => exact ⟨[], Nat.zero_le 1, rfl⟩
  | sg | blxns | tzReturn => exact ⟨[_], Nat.le_refl 1, rfl⟩

theorem Transfer.agree {m m' : Machine δ} (h : Transfer env f P m m') (agree : m.Agree) :
    m'.Agree := by
  cases h with
  | ret excRet _ ok =>
    obtain ⟨info, frame, w, -, eq⟩ := excReturn_of_ok env ok
    rw [eq]
    exact agree_syncIt _
  | sg _ ns =>
    refine agree.congr ?_ rfl
    simp only [record, Cpu.tzExecSg, ns]
    exact (Cpu.setActiveSp_quiet _ _).itState
  | bxns target =>
    exact agree.congr (Cpu.enterNs_quiet { m.cpu with secState := .nonsecure } rfl).itState rfl
  | blxns target returnAddr => exact agree.congr (Cpu.enterNs_quiet _ rfl).itState rfl
  | tzReturn rec ns pop => exact agree.congr rfl rfl

theorem Effect.agree {m m' : Machine δ} (h : Effect env f P m m') (agree : m.Agree) :
    m'.Agree ∨ ItState.get m'.cpu.xpsr = 0 ∧ m.EntersLast m' := by
  cases h with
  | stays h => exact h.itState.imp (fun kept => agree.congr kept h.it) id
  | transfers before transfer after =>
    have agree' := transfer.agree (before.agree agree)
    obtain ⟨es, -, trace⟩ := transfer.trace
    refine after.itState.imp (fun kept => agree'.congr kept after.it) ?_
    rintro ⟨none, length, last⟩
    refine ⟨none, ?_, last⟩
    rw [trace, List.length_append, before.trace] at length
    omega

theorem OnlyEnters.not_unstacks {m m' : Machine δ} (h : m.OnlyEnters m') (x : Word) :
    ¬ m.Unstacks m' x := by
  rintro ⟨later, value, mode, sec, eq'⟩
  obtain ⟨es, eq, only⟩ := h
  rw [eq, List.append_cons later] at eq'
  have mem : .ret value mode sec x ∈ es := by
    rw [List.append_cancel_right eq']
    simp
  obtain ⟨num, origin, target, x', enter⟩ := only _ mem
  cases enter

theorem Effect.it_of_unstacks {m m' : Machine δ} {x : Word} (h : Effect env f P m m')
    (unstacks : m.Unstacks m' x) : m'.it = ItState.syncFromXpsr x := by
  cases h with
  | stays h => exact absurd unstacks (h.onlyEnters.not_unstacks x)
  | @transfers a b _ before transfer after =>
    obtain ⟨later, value, mode, sec, eq'⟩ := id unstacks
    obtain ⟨es, eq, only⟩ := after.onlyEnters
    -- the event of the change of context is the return
    have event (e : Event) (trace : b.trace = e :: a.trace) : e = .ret value mode sec x := by
      rw [trace, before.trace, eq'] at eq
      exact (List.cons.inj (List.append_inj' eq rfl).2).1.symm
    cases transfer with
    | ret excRet _ ok =>
      obtain ⟨info, frame, w, -, ret⟩ := excReturn_of_ok env ok
      cases event (.ret excRet a.cpu.mode a.cpu.secState frame.xpsr) (by rw [ret]; rfl)
      rw [after.it, ret]
      exact congrArg ItState.decode (Cpu.itState_resume _ info frame _)
    | bxns target =>
      have only' : m.OnlyEnters m' := ⟨es, eq.trans (congrArg _ before.trace), only⟩
      exact absurd unstacks (only'.not_unstacks x)
    | sg | blxns | tzReturn => cases event _ rfl

def Returns (m m' : Machine δ) : Prop := ∃ x, m.Unstacks m' x

theorem Effect.kept_of_not_returns {m m' : Machine δ} (h : Effect env f P m m')
    (still : ¬ m.Returns m') :
    m'.it = m.it ∧ (ItState.get m'.cpu.xpsr = ItState.get m.cpu.xpsr ∨
      ItState.get m'.cpu.xpsr = 0 ∧ m.EntersLast m') := by
  cases h with
  | stays h => exact ⟨h.it, h.itState⟩
  | @transfers a b _ before transfer after =>
    have quiet : b.it = a.it ∧ ItState.get b.cpu.xpsr = ItState.get a.cpu.xpsr := by
      cases transfer with
      | ret excRet _ ok =>
        obtain ⟨info, frame, w, -, ret⟩ := excReturn_of_ok env ok
        obtain ⟨es, eq, -⟩ := after.onlyEnters
        refine absurd ⟨frame.xpsr, es, excRet, a.cpu.mode, a.cpu.secState, ?_⟩ still
        rw [eq, ret, ← before.trace]
        rfl
      | sg _ ns =>
        refine ⟨rfl, ?_⟩
        simp only [record, Cpu.tzExecSg, ns]
        exact (Cpu.setActiveSp_quiet _ _).itState
      | bxns => exact ⟨rfl, (Cpu.enterNs_quiet _ rfl).itState⟩
      | blxns => exact ⟨rfl, (Cpu.enterNs_quiet _ rfl).itState⟩
      | tzReturn => exact ⟨rfl, rfl⟩
    obtain ⟨es, -, trace⟩ := transfer.trace
    refine ⟨after.it.trans (quiet.1.trans before.it), after.itState.imp ?_ ?_⟩
    · exact fun kept => kept.trans (quiet.2.trans before.cpu.itState)
    · rintro ⟨none, length, last⟩
      refine ⟨none, ?_, last⟩
      rw [trace, List.length_append, before.trace] at length
      omega

variable (env) (decode32 : Word → Decoded)

/-- An instruction keeps the block. A synchronous exception leaves no instruction behind that the
pass does not count off, a return is followed by counting none off, and what is counted off is
clean. -/
structure ExecutesSafely (d : Decoded) (m : Machine δ) (o : Outcome δ) : Prop where
  enters : m.EntersLast o.2 → ¬ m.Returns o.2 →
    m.it.remaining = 0 ∨ m.it.remaining = 1 ∧ o.1 = .ok
  returns : ∀ x, m.Unstacks o.2 x → o.1 = .ok ∨ m.EntersLast o.2 →
    (ItState.syncFromXpsr x).remaining = 0
  clean : m.inBlock d = true → o.1 = .ok → ¬ m.Returns o.2 → ItState.Clean (ItState.get m.cpu.xpsr)

def FetchesSafely (h : Host δ) (m : Machine δ) : Prop :=
  let f := (m.ready env h).1
  let m := (m.ready env h).2
  let d := Decode.decodeT32 decode32 f
  if f.fault then
    m.EntersLast (m.afterCall (m.toSys.raiseMemFault env (m.cpu.r 15 &&& ~~~1#32) m.cpu.xpsr
      f.faultAddr true)) → m.it.remaining = 0
  else if d.undefined then
    m.EntersLast (m.usageFault env f (1#32 <<< 16)) → m.it.remaining = 0
  else if m.inBlock d && !m.it.takes (.ofXpsr m.cpu.xpsr) then
    ItState.Clean (ItState.get m.cpu.xpsr)
  else ExecutesSafely d m (executeDecoded env f d m)

def ItSafe (m : Machine δ) : Input δ → Prop
  | .pass h => (m.attend h).2 = true → (m.attend h).1.pending = none →
      FetchesSafely env decode32 h (m.attend h).1
  | .restart _ _ => m.resetAgain = true → m.it.remaining = 0

theorem agree_advanceIt {m : Machine δ} (agree : m.Agree) (pos : 0 < m.it.remaining)
    (clean : ItState.Clean (ItState.get m.cpu.xpsr)) : m.advanceIt.Agree := by
  have count : 0 < (ItState.decode (ItState.get m.cpu.xpsr)).remaining := by
    rw [show (ItState.decode _).remaining = m.it.remaining from agree.remaining]
    exact pos
  simp only [Agree, ItState.syncFromXpsr, advanceIt, ItState.get_set]
  exact (ItState.decode_advance clean count).trans (ItCache.Same.advance agree count)

variable {env decode32}

theorem inBlock_pos {m : Machine δ} {d : Decoded} (block : m.inBlock d = true) :
    0 < m.it.remaining := by
  simp only [inBlock, Bool.and_eq_true, decide_eq_true_eq] at block
  exact block.1

theorem agree_of_none {m : Machine δ} (none : ItState.get m.cpu.xpsr = 0)
    (remaining : m.it.remaining = 0) : m.Agree := by
  rw [Agree, ItState.syncFromXpsr, none]
  exact ItCache.same_of_remaining_eq_zero (by decide) remaining

theorem agree_of_local {m m' : Machine δ} (agree : m.Agree) (h : m.Local m')
    (safe : m.EntersLast m' → m.it.remaining = 0) : m'.Agree := by
  rcases h.itState with kept | ⟨none, enters⟩
  · exact agree.congr kept h.it
  · exact agree_of_none none ((congrArg _ h.it).trans (safe enters))

theorem agree_execIt (m : Machine δ) (d : Decoded) : (Execute.execIt m d).2.Agree := by
  simp only [Agree, Execute.execIt, ItState.syncFromXpsr, ItState.get_set]
  exact .refl _

/-- What an instruction other than `IT` leaves of the block: the one of the frame that it
unstacked, or its own; and nothing of it in xPSR when it ends in an exception entry. -/
inductive BlockAfter (m m' : Machine δ) : Prop
  | returns (x : Word) (unstacks : m.Unstacks m' x) (it : m'.it = ItState.syncFromXpsr x)
    (agree : m'.Agree ∨ ItState.get m'.cpu.xpsr = 0 ∧ m.EntersLast m')
  | stays (still : ¬ m.Returns m') (it : m'.it = m.it)
    (xpsr : ItState.get m'.cpu.xpsr = ItState.get m.cpu.xpsr ∨
      ItState.get m'.cpu.xpsr = 0 ∧ m.EntersLast m')

theorem executeDecoded_blockAfter {m : Machine δ} (agree : m.Agree) {d : Decoded}
    (it : d.kind ≠ .it) : BlockAfter m (executeDecoded env f d m).2 := by
  by_cases msr : d.kind = .msr
  · simp only [executeDecoded, msr]
    have same : m.OnlyEnters { m with cpu := m.cpu.execMsr d } := ⟨[], rfl, List.forall_mem_nil _⟩
    exact .stays (fun is => is.elim same.not_unstacks) rfl (.inl (m.cpu.execMsr_still d).itState)
  have effect : Effect env f _ m (executeDecoded env f d m).2 := executeDecoded_effect m it msr
  by_cases returns : m.Returns (executeDecoded env f d m).2
  · obtain ⟨x, unstacks⟩ := returns
    exact .returns x unstacks (effect.it_of_unstacks unstacks) (effect.agree agree)
  · obtain ⟨kept, xpsr⟩ := effect.kept_of_not_returns returns
    exact .stays returns kept xpsr

theorem agree_endPass {m : Machine δ} (h : Host δ) (agree : m.Agree) : (m.endPass h).Agree :=
  (endPass_quiet h m).agree agree

theorem agree_afterExecute {m : Machine δ} (h : Host δ) {d : Decoded} {o : Outcome δ}
    (agree : m.Agree) (after : BlockAfter m o.2) (it : d.kind ≠ .it)
    (safe : ExecutesSafely d m o) : (afterExecute h d o).Agree := by
  obtain ⟨status, m'⟩ := o
  cases after with
  | returns x unstacks eq agree' =>
    have none (ended : status = .ok ∨ m.EntersLast m') : m'.it.remaining = 0 :=
      (congrArg _ eq).trans (safe.returns x unstacks ended)
    have kept : m'.Agree := agree'.elim id fun ⟨xpsr, last⟩ => agree_of_none xpsr (none (.inr last))
    cases status with
    | cont => exact kept
    | ok =>
      have out : m'.inBlock d = false := by simp [inBlock, none (.inl rfl)]
      simp only [afterExecute, out]
      exact agree_endPass h kept
  | stays still eq xpsr =>
    cases status with
    | cont =>
      rcases xpsr with kept | ⟨none, last⟩
      · exact agree.congr kept eq
      · exact agree_of_none none
          ((congrArg _ eq).trans ((safe.enters last still).resolve_right nofun))
    | ok =>
      refine agree_endPass h ?_
      have eq : m'.it = m.it := eq
      have same : m'.inBlock d = m.inBlock d := by simp only [inBlock, eq]
      split
      · rename_i block
        have pos := inBlock_pos block
        rcases xpsr with kept | ⟨none, last⟩
        · exact agree_advanceIt (agree.congr kept eq) pos
            (kept ▸ safe.clean (same ▸ block) rfl still)
        · have one : m'.it.remaining = 1 := by
            rw [eq] at pos ⊢
            rcases safe.enters last still with zero | ⟨one, -⟩
            · exact absurd pos (by rw [zero]; decide)
            · exact one
          refine agree_of_none ?_ ?_
          · simp only [advanceIt, none, ItState.get_set]
            decide
          · simp only [advanceIt, ItCache.advance, one]
            decide
      · rename_i block
        rcases xpsr with kept | ⟨none, -⟩
        · exact agree.congr kept eq
        · refine agree_of_none none ?_
          simpa [inBlock, it] using block

theorem agree_afterIt (h : Host δ) (m : Machine δ) {d : Decoded} (it : d.kind = .it) :
    (afterExecute h d (executeDecoded env f d m)).Agree := by
  have eq : executeDecoded env f d m = (.ok, (Execute.execIt m d).2) := by
    simp only [executeDecoded, it]
    rfl
  have out (m' : Machine δ) : m'.inBlock d = false := by simp [inBlock, it]
  rw [eq]
  simp only [afterExecute, out]
  exact agree_endPass h (agree_execIt m d)

theorem agree_executePass {m : Machine δ} (h : Host δ) (agree : m.Agree)
    (safe : FetchesSafely env decode32 h m) : (m.executePass env decode32 h).Agree := by
  have agree := (ready_quiet env h m).agree agree
  simp only [FetchesSafely] at safe
  simp only [executePass]
  split at safe
  · rename_i fault
    simp only [fault, if_true]
    exact agree_of_local agree (afterCall_local (Sys.raiseMemFault_raised env _ _ _ _ _)) safe
  rename_i fault
  split at safe
  · rename_i undefined
    simp only [fault, undefined, if_true]
    exact agree_of_local agree (usageFault_local _ _ _) safe
  rename_i undefined
  split at safe
  · rename_i skip
    simp only [fault, undefined, skip, if_true]
    exact agree_advanceIt agree (inBlock_pos (Bool.and_eq_true_iff.mp skip).1) safe
  · rename_i skip
    simp only [fault, undefined, skip]
    by_cases it : (Decode.decodeT32 decode32 (m.ready env h).1).kind = .it
    · exact agree_afterIt h _ it
    · exact agree_afterExecute h agree (executeDecoded_blockAfter agree it) it safe

theorem agree_dispatch {m : Machine δ} (agree : m.Agree) (excNum : Word) (handlerSec : SecState) :
    (m.dispatch env excNum handlerSec).Agree := by
  simp only [dispatch]
  split
  · exact agree_syncIt _
  · rename_i refused
    have raised := Sys.enterExceptionEx_raised env m.toSys excNum (m.cpu.r 15 &&& ~~~1#32)
      m.cpu.xpsr handlerSec
    generalize Sys.enterExceptionEx env _ _ _ _ _ = r at raised refused ⊢
    cases raised with
    | entered => exact absurd rfl refused
    | refused w => exact agree

theorem agree_mainPass {m : Machine δ} (h : Host δ) (agree : m.Agree)
    (safe : ItSafe env decode32 m (.pass h)) : (m.mainPass env decode32 h).Agree := by
  have agree := (attend_quiet h m).agree agree
  simp only [ItSafe] at safe
  simp only [mainPass]
  generalize m.attend h = r at agree safe ⊢
  obtain ⟨a, goesOn⟩ := r
  cases goesOn with
  | false => exact agree
  | true =>
    simp only [handlePending]
    cases accepted : a.pending with
    | none => exact agree_executePass h agree (safe rfl accepted)
    | some p =>
      obtain ⟨excNum, handlerSec, b⟩ := p
      refine agree_dispatch ?_ excNum handlerSec
      exact (pending_quiet accepted).agree agree

variable (env) in
theorem vectorApplyReset_none {m : Machine δ} (none : ItState.get m.cpu.xpsr = 0) :
    (m.vectorApplyReset env).2.it = m.it ∧
      ItState.get (m.vectorApplyReset env).2.cpu.xpsr = 0 := by
  simp only [vectorApplyReset]
  split
  · exact ⟨rfl, none⟩
  split
  · exact ⟨rfl, none⟩
  · refine ⟨rfl, Eq.trans ?_ (show ItState.get 0x01000000 = 0 by decide)⟩
    exact (Cpu.setActiveSp_quiet { m.cpu with xpsr := 0x01000000 } _).itState

theorem agree_restart {m : Machine δ} (vtor : Banked Word) (w : World δ)
    (again : m.resetAgain = true) (safe : m.it.remaining = 0) : (m.restart env vtor w).Agree := by
  refine restart_rule env again (fun a cpu _ _ it => ?_) (fun _ agree => agree) (fun _ agree => agree)
  have none : ItState.get a.cpu.xpsr = 0 := by
    rw [cpu]
    exact (show ItState.get 0 = 0 by decide)
  obtain ⟨same, none⟩ := vectorApplyReset_none env none
  exact agree_of_none none ((congrArg _ (same.trans it)).trans safe)

theorem agree_start (c : Cpu) (vtor : Banked Word) (w : World δ) : (start env c vtor w).Agree :=
  agree_restart vtor w rfl rfl

theorem agree_loopStep (m : Machine δ) (i : Input δ) (agree : m.Agree)
    (safe : ItSafe env decode32 m i) : (m.loopStep env decode32 i).Agree := by
  cases i with
  | pass h => exact agree_mainPass h agree safe
  | restart vtor w =>
    cases again : m.resetAgain with
    | true => exact agree_restart vtor w again (safe again)
    | false =>
      rw [loopStep, restart_of_not_resetAgain env again]
      exact agree

theorem Unstacks.of_trace {m m' a a' : Machine δ} {x : Word} (h : m.Unstacks m' x)
    (first : a.trace = m.trace) (last : a'.trace = m'.trace) : a.Unstacks a' x := by
  obtain ⟨later, value, mode, sec, eq⟩ := h
  exact ⟨later, value, mode, sec, by rw [first, last, eq]⟩

theorem not_unstacks_of_trace {m m' : Machine δ} (same : m'.trace = m.trace) (x : Word) :
    ¬ m.Unstacks m' x :=
  OnlyEnters.not_unstacks ⟨[], same, nofun⟩ x

theorem executeDecoded_it_of_unstacks {m : Machine δ} {d : Decoded} {x : Word}
    (unstacks : m.Unstacks (executeDecoded env f d m).2 x) :
    (executeDecoded env f d m).2.it = ItState.syncFromXpsr x := by
  by_cases it : d.kind = .it
  · simp only [executeDecoded, it] at unstacks
    exact absurd unstacks (not_unstacks_of_trace rfl x)
  by_cases msr : d.kind = .msr
  · simp only [executeDecoded, msr] at unstacks
    exact absurd unstacks (not_unstacks_of_trace rfl x)
  · exact (executeDecoded_effect m it msr).it_of_unstacks unstacks

theorem executePass_it_of_unstacks {m : Machine δ} {h : Host δ} {x : Word}
    (safe : FetchesSafely env decode32 h m) (unstacks : m.Unstacks (m.executePass env decode32 h) x) :
    (m.executePass env decode32 h).it = ItState.syncFromXpsr x := by
  have unstacks := unstacks.of_trace (ready_quiet env h m).trace rfl
  simp only [FetchesSafely] at safe
  simp only [executePass] at unstacks ⊢
  split at unstacks
  · refine absurd unstacks (OnlyEnters.not_unstacks (Local.onlyEnters ?_) x)
    exact afterCall_local (Sys.raiseMemFault_raised env _ _ _ _ _)
  rename_i fault
  split at unstacks
  · exact absurd unstacks ((usageFault_local _ _ _).onlyEnters.not_unstacks x)
  rename_i undefined
  split at unstacks
  · exact absurd unstacks (not_unstacks_of_trace rfl x)
  rename_i skip
  simp only [fault, undefined, skip] at safe ⊢
  have unstacks := unstacks.of_trace rfl (afterExecute_trace h _ _).symm
  have it := executeDecoded_it_of_unstacks unstacks
  have none := safe.returns x unstacks
  generalize executeDecoded env _ _ _ = o at it none ⊢
  obtain ⟨status, m'⟩ := o
  cases status with
  | cont => exact it
  | ok =>
    have zero : m'.it.remaining = 0 := (congrArg _ it).trans (none (.inl rfl))
    simp only [afterExecute, inBlock, zero]
    exact (endPass_quiet h m').it.trans it

theorem mainPass_it_of_unstacks {m : Machine δ} {h : Host δ} {x : Word}
    (safe : ItSafe env decode32 m (.pass h)) (unstacks : m.Unstacks (m.mainPass env decode32 h) x) :
    (m.mainPass env decode32 h).it = ItState.syncFromXpsr x := by
  have quiet := attend_quiet h m
  simp only [ItSafe] at safe
  simp only [mainPass] at unstacks ⊢
  generalize m.attend h = r at quiet safe unstacks ⊢
  obtain ⟨a, goesOn⟩ := r
  cases goesOn with
  | false => exact absurd unstacks (not_unstacks_of_trace quiet.trace x)
  | true =>
    have unstacks := unstacks.of_trace quiet.trace rfl
    simp only [handlePending] at unstacks ⊢
    cases accepted : a.pending with
    | none =>
      simp only [accepted] at unstacks
      exact executePass_it_of_unstacks (safe rfl accepted) unstacks
    | some p =>
      obtain ⟨excNum, handlerSec, b⟩ := p
      simp only [accepted] at unstacks
      have unstacks := unstacks.of_trace (pending_quiet accepted).trace rfl
      exact absurd unstacks ((b.dispatch_onlyEnters env excNum handlerSec).not_unstacks x)

variable (env decode32)

def Interrupts (m : Machine δ) (h : Host δ) (x : Word) : Prop :=
  (m.attend h).2 = true ∧ (m.attend h).1.pending.isSome = true ∧
    ∃ num origin target, (m.mainPass env decode32 h).trace = .enter num origin target x :: m.trace

/-- Along the run, an exception taken at any boundary and returned from leaves the remaining block
as it was: its count, and the decision for each of its instructions. -/
def Transparent (m : Machine δ) (is : List (Input δ)) : Prop :=
  ∀ before entry between exit after x,
    is = before ++ .pass entry :: (between ++ .pass exit :: after) →
    let a := run (loopStep env decode32) m before
    let b := run (loopStep env decode32) (a.mainPass env decode32 entry) between
    a.Interrupts env decode32 entry x → b.Unstacks (b.mainPass env decode32 exit) x →
      (b.mainPass env decode32 exit).it.Same a.it

variable {env decode32}

theorem Interrupts.itState {m : Machine δ} {h : Host δ} {x : Word}
    (interrupts : m.Interrupts env decode32 h x) : ItState.get x = ItState.get m.cpu.xpsr := by
  have quiet := attend_quiet h m
  obtain ⟨goesOn, accepted, num, origin, target, trace⟩ := interrupts
  simp only [mainPass] at trace
  generalize m.attend h = r at quiet goesOn accepted trace
  obtain ⟨a, goesOn'⟩ := r
  cases goesOn
  obtain ⟨⟨excNum, handlerSec, b⟩, accepted⟩ := Option.isSome_iff_exists.mp accepted
  simp only [handlePending, accepted] at trace
  have quiet := quiet.trans (pending_quiet accepted)
  rw [← quiet.cpu.itState]
  rcases b.dispatch_entered env excNum handlerSec with ⟨-, same⟩ | ⟨num', -, entered⟩
  · exact absurd (trace.symm.trans (same.trans quiet.trace)) (List.cons_ne_self _ _)
  · have event := (List.cons.inj (trace.symm.trans entered)).1
    cases event
    exact ItState.get_or_thumb _

theorem transparent_of_agree {m : Machine δ} {is : List (Input δ)}
    (agree : Throughout (loopStep env decode32) Agree m is)
    (safe : Along (loopStep env decode32) (ItSafe env decode32) m is) :
    Transparent env decode32 m is := by
  rintro before entry between exit after x rfl a b interrupts unstacks
  have agreeAt : a.Agree := agree.append_left.last
  have safeAt : b.ItSafe env decode32 (.pass exit) := (along_append.mp (along_append.mp safe).2.2).2.1
  rw [mainPass_it_of_unstacks safeAt unstacks]
  simpa only [Agree, ItState.syncFromXpsr, interrupts.itState] using agreeAt

/-- Along a run of the main loop, the cached triple and xPSR describe the same block, and no
interrupt changes what is left of it. -/
theorem it_block_survives (c : Cpu) (vtor : Banked Word) (w : World δ) {is : List (Input δ)}
    (safe : Along (loopStep env decode32) (ItSafe env decode32) (start env c vtor w) is) :
    Throughout (loopStep env decode32) Agree (start env c vtor w) is ∧
      Transparent env decode32 (start env c vtor w) is :=
  have agree := throughout_of_along agree_loopStep (agree_start c vtor w) safe
  ⟨agree, transparent_of_agree agree safe⟩

theorem executesSafely_of_trace {d : Decoded} {m : Machine δ} {o : Outcome δ}
    (same : o.2.trace = m.trace) (clean : ItState.Clean (ItState.get m.cpu.xpsr)) :
    ExecutesSafely d m o where
  enters last := by
    have longer := last.1
    rw [same] at longer
    exact absurd longer (Nat.lt_irrefl _)
  returns x unstacks := absurd unstacks (not_unstacks_of_trace same x)
  clean _ _ _ := clean

theorem executesSafely_of_cont {d : Decoded} {m : Machine δ} {o : Outcome δ} (cont : o.1 = .cont)
    (last : ¬ m.EntersLast o.2) : ExecutesSafely d m o where
  enters h := absurd h last
  returns _ _ ended := by simp [cont, last] at ended
  clean _ ok := by simp [cont] at ok

theorem fetchesSafely_of_executes {m : Machine δ} {h : Host δ}
    (fetched : (m.ready env h).1.fault = false)
    (defined : (Decode.decodeT32 decode32 (m.ready env h).1).undefined = false)
    (clean : ItState.Clean (ItState.get (m.ready env h).2.cpu.xpsr))
    (safe : ExecutesSafely (Decode.decodeT32 decode32 (m.ready env h).1) (m.ready env h).2
      (executeDecoded env (m.ready env h).1 (Decode.decodeT32 decode32 (m.ready env h).1)
        (m.ready env h).2)) : FetchesSafely env decode32 h m := by
  simp only [FetchesSafely, fetched, defined, Bool.false_eq_true, if_false]
  split
  · exact clean
  · exact safe

/-- `IT` with the given operand and three `NOP`s; the `SysTick` handler is an `LDR` of its
EXC_RETURN value. -/
def itImage (operand : Word) : World Unit :=
  Board.flashed [(0x00, 0x20008000), (0x04, 0x101), (0x3C, 0x201), (0x100, 0xBF00BF00 ||| operand),
    (0x104, 0xBF00BF00), (0x200, 0xF000F8DF), (0x204, 0xFFFFFFF9)]

def itStart (operand : Word) : Machine Unit :=
  start Board.env Board.cpu (.both 0) (itImage operand)

def idle : Host Unit := ⟨id, id⟩

def systick : Host Unit := ⟨fun w => { w with scs := { w.scs with pendSt := true } }, id⟩

theorem it_block_survives_systick :
    let is := [.pass idle, .pass systick, .pass idle, .pass idle, .pass idle]
    Throughout (loopStep Board.env Board.decode32) Agree (itStart 0x04) is ∧
      Transparent Board.env Board.decode32 (itStart 0x04) is := by
  refine it_block_survives _ _ _ ⟨?it, ?first, ?entry, ?exit, ?second, trivial⟩
  case it | first | second =>
    refine fun _ _ => fetchesSafely_of_executes ?_ ?_ ?_ (executesSafely_of_trace ?_ ?_)
    all_goals decide +kernel
  case entry =>
    intro _ none
    exact absurd (congrArg Option.isSome none) (by decide +kernel)
  case exit =>
    refine fun _ _ => fetchesSafely_of_executes ?_ ?_ ?_ (executesSafely_of_cont ?_ ?_)
    all_goals decide +kernel

theorem itt_ne_disagrees :
    ¬ ∀ (c : Cpu) (vtor : Banked Word) (w : World Unit) (is : List (Input Unit)),
      Throughout (loopStep Board.env Board.decode32) Agree (start Board.env c vtor w) is := by
  intro h
  have agree := (h Board.cpu (.both 0) (itImage 0x1C) [.pass idle, .pass idle]).last
  have equal := agree.decides 0 (by decide +kernel) ⟨false, true, false, false⟩
  revert equal
  decide +kernel

end Machine

end M33mu
