import M33mu.Board
import M33mu.Lib.Run
import M33mu.NvicSelect
import M33mu.Pass

namespace M33mu

open Lib

inductive Async
  | systick
  | pendsv
  | irq (n : Irq)
  deriving DecidableEq

namespace Async

def num : Async → Word
  | systick => Vect.systick
  | pendsv => Vect.pendsv
  | irq n => 16 + BitVec.ofNat 32 n

variable {δ : Type u}

def target (m : Machine δ) : Async → SecState
  | systick | pendsv => m.cpu.secState
  | irq n => m.world.nvic.irqTargetSec n

def held (w : World δ) : Async → Bool
  | systick => w.scs.pendSt
  | pendsv => w.scs.pendSv
  | irq n => w.nvic.isPending n

def enabled (w : World δ) : Async → Bool
  | systick | pendsv => true
  | irq n => Nvic.testBit w.nvic.enableMask n

def Open (m : Machine δ) (e : Async) : Prop :=
  e.held m.world = true ∧ e.enabled m.world = true ∧ m.cpu.primask.get (e.target m) = 0

theorem num_irq_toNat (n : Irq) : (irq n).num.toNat = 16 + n := by
  have bound : n.val < 128 := n.isLt
  change (16#32 + BitVec.ofNat 32 n.val).toNat = _
  simp only [BitVec.toNat_add, BitVec.toNat_ofNat]
  omega

end Async

theorem Nvic.isPending_setPending_of_ne (n : Nvic) {irq other : Irq} (ne : other ≠ irq)
    (pending : Bool) : (n.setPending irq pending).isPending other = n.isPending other := by
  simp only [isPending, testBit, setPending, bitop, Function.update_apply]
  split
  · rename_i same
    have apart : bit other ≠ bit irq := by
      intro eq
      have word : other.val / 32 = irq.val / 32 := congrArg Fin.val same
      have bit : other.val % 32 = irq.val % 32 := eq
      exact ne (Fin.ext (by omega))
    have mask : (1#32 <<< bit irq).getLsbD (bit other) = false := by
      simp only [BitVec.getLsbD_shiftLeft, BitVec.getLsbD_one]
      grind
    have low : bit other < 32 := Nat.mod_lt _ (by decide)
    rw [same]
    split
    · rw [BitVec.getLsbD_or, mask, Bool.or_false]
    · rw [BitVec.getLsbD_and, BitVec.getLsbD_not, mask]
      simp [low]
  · rfl

namespace Machine

variable {δ : Type u} (env : Env δ) (decode32 : Word → Decoded)

structure Accepts (m : Machine δ) (num : Word) (sec : SecState) (b : Machine δ) : Prop where
  unmasked : ∃ e : Async, e.num = num ∧ e.target m = sec ∧ e.Open m
  kept : ∀ e : Async, e.num ≠ num → e.held b.world = e.held m.world ∧
    ∀ (w : World δ) (origin : SecState), e.held (w.noteEntry origin num) = e.held w

/-- The dispatch enters nothing masked and drops nothing else that is pending; where something is
let through, it enters an exception or, where the frame cannot be pushed, the emulation stops. -/
def MaskObeyed (m : Machine δ) : Input δ → Prop
  | .pass h => (m.attend h).2 = true →
    (∀ num sec b, (m.attend h).1.pending = some (num, sec, b) →
      (m.attend h).1.Accepts num sec b) ∧
    ((∃ e : Async, e.Open (m.attend h).1) →
      (m.mainPass env decode32 h).done = true ∨
        ∃ e : Async, e.Open (m.attend h).1 ∧ ∃ x, (m.mainPass env decode32 h).trace =
          .enter e.num m.cpu.secState (e.target (m.attend h).1) x :: m.trace)
  | .restart _ _ => True

def SystemUnmasked (m : Machine δ) : Input δ → Prop
  | .pass h => (m.attend h).2 = true →
    (m.attend h).1.world.scs.pendSt = true ∨ (m.attend h).1.world.scs.pendSv = true →
      (m.attend h).1.cpu.primask.get (m.attend h).1.cpu.secState = 0
  | .restart _ _ => True

variable {env decode32}

theorem pending_of_open {m : Machine δ} (quiet : m.pending = none) (e : Async) : ¬ e.Open m := by
  simp only [pending] at quiet
  split at quiet
  · cases quiet
  rename_i st
  split at quiet
  · cases quiet
  rename_i sv
  rintro ⟨held, enabled, unmasked⟩
  cases e with
  | systick => exact st held
  | pendsv => exact sv held
  | irq n =>
    rw [Option.map_eq_none_iff, Nvic.selectRouted_eq_none_iff] at quiet
    have candidate := Nvic.candidate_iff.mpr ⟨⟨enabled, held⟩, unmasked⟩
    exact absurd (candidate.symm.trans (quiet n)) fun is => by cases is

theorem exists_of_pending {m b : Machine δ} {num : Word} {sec : SecState}
    (accepted : m.pending = some (num, sec, b)) :
    ∃ e : Async, e.num = num ∧ e.target m = sec ∧ e.held m.world = true ∧
      e.enabled m.world = true ∧
      ((∃ n, e = .irq n) → m.cpu.primask.get sec = 0) ∧
      ∀ other : Async, other ≠ e → other.held b.world = other.held m.world := by
  simp only [pending] at accepted
  split at accepted
  · rename_i st
    cases accepted
    exact ⟨.systick, rfl, rfl, st, rfl, (by rintro ⟨n, ⟨⟩⟩), fun _ _ => rfl⟩
  split at accepted
  · rename_i sv
    cases accepted
    exact ⟨.pendsv, rfl, rfl, sv, rfl, (by rintro ⟨n, ⟨⟩⟩), fun _ _ => rfl⟩
  · simp only [Option.map_eq_some_iff, Prod.mk.injEq] at accepted
    obtain ⟨⟨n, target⟩, chosen, rfl, rfl, rfl⟩ := accepted
    obtain ⟨candidate, rfl, -⟩ := Nvic.of_selectRouted chosen
    obtain ⟨⟨enabled, held⟩, unmasked⟩ := Nvic.candidate_iff.mp candidate
    refine ⟨.irq n, rfl, rfl, held, enabled, fun _ => unmasked, fun other ne => ?_⟩
    cases other with
    | systick | pendsv => rfl
    | irq k => exact Nvic.isPending_setPending_of_ne _ (fun eq => ne (congrArg _ eq)) _

theorem held_noteEntry (w : World δ) {e : Async} {num : Word} (ne : e.num ≠ num)
    (origin : SecState) : e.held (w.noteEntry origin num) = e.held w := by
  simp only [World.noteEntry]
  split
  · cases e <;> rfl
  split
  · rename_i pendsv
    cases e with
    | pendsv => exact absurd pendsv.symm ne
    | systick | irq => rfl
  split
  · rename_i systick
    cases e with
    | systick => exact absurd systick.symm ne
    | pendsv | irq => rfl
  · rfl

variable (env) in
theorem dispatch_trace (m : Machine δ) (num : Word) (sec : SecState) :
    (m.dispatch env num sec).done = true ∧ (m.dispatch env num sec).trace = m.trace ∨
      ∃ x, (m.dispatch env num sec).trace = .enter num m.cpu.secState sec x :: m.trace := by
  simp only [dispatch, Sys.enterExceptionEx, Sys.enter]
  split
  · exact .inr ⟨_, rfl⟩
  · exact .inl ⟨by simp [afterCall], rfl⟩

theorem maskObeyed_iff (m : Machine δ) (i : Input δ) :
    MaskObeyed env decode32 m i ↔ SystemUnmasked m i := by
  cases i with
  | restart => exact Iff.rfl
  | pass h =>
    refine forall_congr' fun goesOn => ?_
    constructor
    · rintro ⟨accepts, -⟩ system
      obtain ⟨num, b, accepted⟩ : ∃ num b,
          (m.attend h).1.pending = some (num, (m.attend h).1.cpu.secState, b) := by
        simp only [pending]
        split
        · exact ⟨_, _, rfl⟩
        · rename_i st
          rw [if_pos (system.resolve_left st)]
          exact ⟨_, _, rfl⟩
      obtain ⟨e, -, target, -, -, unmasked⟩ := (accepts _ _ _ accepted).unmasked
      rw [← target]
      exact unmasked
    · intro system
      have accepts (num : Word) (sec : SecState) (b : Machine δ)
          (accepted : (m.attend h).1.pending = some (num, sec, b)) :
          (m.attend h).1.Accepts num sec b := by
        obtain ⟨e, rfl, rfl, held, enabled, irq, kept⟩ := exists_of_pending accepted
        refine ⟨⟨e, rfl, rfl, held, enabled, ?_⟩, fun other ne => ?_⟩
        · cases e with
          | systick => exact system (.inl held)
          | pendsv => exact system (.inr held)
          | irq n => exact irq ⟨n, rfl⟩
        · exact ⟨kept other fun eq => ne (congrArg _ eq),
            fun w origin => held_noteEntry w ne origin⟩
      refine ⟨accepts, fun open' => ?_⟩
      obtain ⟨e, isOpen⟩ := open'
      cases accepted : (m.attend h).1.pending with
      | none => exact absurd isOpen (pending_of_open accepted e)
      | some p =>
        obtain ⟨num, sec, b⟩ := p
        obtain ⟨e', rfl, rfl, isOpen'⟩ := (accepts _ _ _ accepted).unmasked
        have quiet := (attend_quiet h m).trans (pending_quiet accepted)
        rw [mainPass_of_accepted goesOn accepted]
        refine (b.dispatch_trace env _ _).imp And.left fun enters => ?_
        obtain ⟨x, trace⟩ := enters
        refine ⟨e', isOpen', x, ?_⟩
        rw [trace, quiet.cpu.secState, quiet.trace]

/-- Along a run, PRIMASK holds back what it masks and nothing is lost, exactly where no dispatch finds
a masked `SysTick` or `PendSV`. -/
theorem along_maskObeyed_iff (m : Machine δ) (is : List (Input δ)) :
    Along (loopStep env decode32) (MaskObeyed env decode32) m is ↔
      Along (loopStep env decode32) SystemUnmasked m is :=
  along_congr (H := fun _ _ => True) (fun m i _ => maskObeyed_iff m i)
    (along_of_forall fun _ _ => trivial)

/-- `CPSID i`. -/
def critical : World Unit :=
  Board.flashed [(0x00, 0x20008000), (0x04, 0x101), (0x3C, 0x201), (0x100, 0xBF00B672),
    (0x104, 0xBF00BF00)]

theorem systick_enters_critical :
    ¬ ∀ (w : World Unit) (is : List (Input Unit)), Along (loopStep Board.env Board.decode32)
      (MaskObeyed Board.env Board.decode32) (start Board.env Board.cpu (.both 0) w) is := by
  intro h
  have along := h critical
    ([.pass ⟨id, id⟩, .pass ⟨fun w => { w with scs := { w.scs with pendSt := true } }, id⟩] ++
      [.pass ⟨id, id⟩])
  have unmasked := (maskObeyed_iff _ _).mp (along_append.mp along).2.1
  exact absurd (unmasked (by decide +kernel) (by decide +kernel)) (by decide +kernel)

end Machine

end M33mu
