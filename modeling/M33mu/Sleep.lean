import M33mu.Board
import M33mu.Lib.SkipAhead
import M33mu.Stm32h563
import M33mu.SysTick
import M33mu.Wakeup
import Mathlib.Data.Nat.Find

namespace M33mu

open Lib

namespace World

def cycle (w : World Stm32h563) : World Stm32h563 :=
  timersTick 1 { w with scs := w.scs.systickAdvance 1 }

theorem iterate_cycle (n : Nat) (w : World Stm32h563) : cycle^[n] w =
    ({ w with
        scs := Scs.systickStep^[n] w.scs
        dev := (cycles Stm32h563.tick n w.dev).1 } : World Stm32h563).raise
      (cycles Stm32h563.tick n w.dev).2 := by
  induction n with
  | zero => exact (raise_bot w).symm
  | succ n ih =>
    rw [Function.iterate_succ_apply', ih, cycle, timersTick_eq, cycles_succ, ← raise_raise,
      Function.iterate_succ_apply']
    rfl

def skip (delta : BitVec 64) (w : World Stm32h563) : World Stm32h563 :=
  timersTick delta.toNat { w with scs := w.scs.systickAdvance delta }

theorem skip_eq (delta : BitVec 64) (w : World Stm32h563) : w.skip delta =
    ({ w with scs := w.scs.systickAdvance delta, dev := (w.dev.tick delta.toNat).1 } :
      World Stm32h563).raise (w.dev.tick delta.toNat).2 :=
  timersTick_eq _ _

end World

namespace Machine

variable {m : Machine Stm32h563} {v : Nat} {delta : BitVec 64}

def WakesOn (m : Machine Stm32h563) (irq : Irq) : Prop :=
  Nvic.testBit m.world.nvic.enableMask irq = true ∧
    m.cpu.primask.get (m.world.nvic.irqTargetSec irq) = 0

inductive Due (m : Machine Stm32h563) : Nat → Prop
  | systick {delta : BitVec 64} (on : m.world.scs.systickCyclesUntilFire = some delta)
      (tickint : m.world.scs.systickCtrl.getLsbD 1 = true) : Due m delta.toNat
  | reset (requested : m.world.resetPending = true) : Due m 1
  | timer (i : Fin 4) {e} (wakes : m.WakesOn (Stm32h563.timIrq i))
      (raises : e ∈ (m.world.dev.tim i).raisesIn (Stm32h563.timSize i)
        (m.world.dev.timClockEnabled i)) : Due m e
  | warning {e} (wakes : m.WakesOn Stm32h563.wwdgIrq)
      (warns : e ∈ m.world.dev.wwdg.warnsIn m.world.dev.wwdgClockEnabled) : Due m e
  | windowReset {e} (expires : e ∈ m.world.dev.wwdg.expiresIn m.world.dev.wwdgClockEnabled) : Due m e
  | watchdogReset {e} (expires : e ∈ m.world.dev.iwdg.expiresIn m.world.dev.cpuHz) : Due m e

/-- Nothing is due before the next SysTick expiry, or at all while SysTick is off, and every timer
and watchdog may be advanced to it at once. -/
def SkipsExactly (m : Machine Stm32h563) : Prop :=
  m.Idles → match m.world.scs.systickCyclesUntilFire with
    | none => ∀ e, ¬ m.Due e
    | some delta => (∀ e, m.Due e → delta.toNat ≤ e) ∧
      (∀ i, (m.world.dev.tim i).SkipsExactly (Stm32h563.timSize i) (m.world.dev.timClockEnabled i)
        delta.toNat) ∧
      m.world.dev.wwdg.SkipsExactly m.world.dev.wwdgClockEnabled delta.toNat

instance (m : Machine Stm32h563) : Decidable m.Idles := inferInstanceAs (Decidable (_ ∧ _))

def Asleep (s : Machine Stm32h563 × Nat) : Prop := s.1.Running ∧ s.1.cpu.sleeping = true

def sleepPass (s : Machine Stm32h563 × Nat) : Machine Stm32h563 × Nat :=
  let delta := if s.1.Idles then (s.1.world.scs.systickCyclesUntilFire.getD 0).toNat else 0
  ((s.1.attend ⟨World.timersTick delta, id⟩).1, s.2 + delta)

def letRun (m : Machine Stm32h563) (w : World Stm32h563) : Machine Stm32h563 :=
  let m := m.withWorld w
  let m := if w.scs.pendSt || w.scs.pendSv then m.wake else m
  m.endPass ⟨id, id⟩

def cyclePass (s : Machine Stm32h563 × Nat) : Machine Stm32h563 × Nat :=
  if s.1.Idles then (s.1.letRun s.1.world.cycle, s.2 + 1)
  else ((s.1.attend ⟨id, id⟩).1, s.2)

theorem Due.pos {e : Nat} (due : m.Due e) : 0 < e := by
  cases due with
  | systick on => exact (Scs.toNat_of_on on).2
  | reset => exact Nat.zero_lt_one
  | timer i _ raises =>
    rw [Tim.raisesIn, Option.mem_def, Option.ite_none_right_eq_some, Option.some.injEq] at raises
    exact raises.2 ▸ cyclesTo_pos _ _ _
  | warning _ warns =>
    rw [Wwdg.warnsIn, Option.mem_def, Option.ite_none_right_eq_some, Option.some.injEq] at warns
    exact warns.2 ▸ cyclesTo_pos _ _ _
  | windowReset expires =>
    rw [Wwdg.expiresIn, Option.mem_def, Option.ite_none_right_eq_some, Option.some.injEq] at expires
    exact expires.2 ▸ cyclesTo_pos _ _ _
  | watchdogReset expires =>
    rw [Iwdg.expiresIn, Option.mem_def, Option.ite_none_right_eq_some, Option.some.injEq] at expires
    exact expires.2 ▸ cyclesTo_pos _ _ _

theorem due_le_iff {n : Nat} (hn : 0 < n) : (∃ e, m.Due e ∧ e ≤ n) ↔
    (∃ delta, m.world.scs.systickCyclesUntilFire = some delta ∧
      m.world.scs.systickCtrl.getLsbD 1 = true ∧ delta.toNat ≤ n) ∨
    m.world.resetPending = true ∨
    (∃ irq, m.WakesOn irq ∧ (m.world.dev.tick n).2.1 irq = true) ∨
    (m.world.dev.tick n).2.2 = true := by
  simp only [Stm32h563.tick_irq_iff hn, Stm32h563.tick_reset_iff hn]
  constructor
  · rintro ⟨e, due, le⟩
    cases due with
    | systick on tickint => exact .inl ⟨_, on, tickint, le⟩
    | reset requested => exact .inr (.inl requested)
    | timer i wakes raises => exact .inr (.inr (.inl ⟨_, wakes, .inl ⟨i, ⟨e, raises, le⟩, rfl⟩⟩))
    | warning wakes warns => exact .inr (.inr (.inl ⟨_, wakes, .inr ⟨⟨e, warns, le⟩, rfl⟩⟩))
    | windowReset expires => exact .inr (.inr (.inr (.inl ⟨e, expires, le⟩)))
    | watchdogReset expires => exact .inr (.inr (.inr (.inr ⟨e, expires, le⟩)))
  · rintro (⟨delta, on, tickint, le⟩ | requested | ⟨irq, wakes, ⟨i, ⟨e, raises, le⟩, rfl⟩ |
      ⟨⟨e, warns, le⟩, rfl⟩⟩ | ⟨e, expires, le⟩ | ⟨e, expires, le⟩)
    · exact ⟨_, .systick on tickint, le⟩
    · exact ⟨1, .reset requested, hn⟩
    · exact ⟨e, .timer i wakes raises, le⟩
    · exact ⟨e, .warning wakes warns, le⟩
    · exact ⟨e, .windowReset expires, le⟩
    · exact ⟨e, .watchdogReset expires, le⟩

theorem iterate_cycle_of_early {n : Nat} (hn : 0 < n) (early : ∀ e, m.Due e → n < e) :
    (World.cycle^[n] m.world).resetPending = false ∧
    (World.cycle^[n] m.world).scs.pendSt = m.world.scs.pendSt ∧
    (World.cycle^[n] m.world).scs.pendSv = m.world.scs.pendSv ∧
    ∀ irq, m.WakesOn irq → (cycles Stm32h563.tick n m.world.dev).2.1 irq = false := by
  have quiet : ¬ ∃ e, m.Due e ∧ e ≤ n := fun ⟨e, due, le⟩ => absurd (early e due) (by omega)
  simp only [due_le_iff hn, not_or, not_exists, not_and, Bool.not_eq_true] at quiet
  obtain ⟨systick, requested, irqs, resets⟩ := quiet
  rw [World.iterate_cycle, World.raise, cycles_snd Stm32h563.tick_signalsSplit hn]
  refine ⟨?_, Scs.pendSt_iterate_systickStep fun delta on tickint => ?_,
    (Scs.iterate_systickStep_keeps _ n).1, irqs⟩
  · change (m.world.resetPending || _) = false
    rw [requested, resets, Bool.or_false]
  · exact Nat.lt_of_not_le (systick delta on tickint)

theorem idles_raise (idles : m.Idles) {scs : Scs} (dev : Stm32h563) {e : Stm32h563.Raised}
    (st : scs.pendSt = m.world.scs.pendSt) (sv : scs.pendSv = m.world.scs.pendSv)
    (irqs : ∀ irq, m.WakesOn irq → e.1 irq = false) :
    (m.withWorld (({ m.world with scs := scs, dev := dev } : World Stm32h563).raise e)).Idles := by
  obtain ⟨running, asleep, event, st', sv', none⟩ := idles
  refine ⟨running, asleep, event, st.trans st', sv.trans sv', ?_⟩
  rw [Bool.eq_false_iff, Ne, Nvic.selectRouted_isSome_iff] at none ⊢
  rintro ⟨irq, candidate⟩
  obtain ⟨⟨enabled, pending⟩, unmasked⟩ := Nvic.candidate_iff.mp candidate
  have wakes : m.WakesOn irq := ⟨enabled, unmasked⟩
  have before := Nvic.isPending_pend m.world.nvic e.1 irq
  rw [irqs irq wakes, Bool.or_false] at before
  exact none ⟨irq, Nvic.candidate_iff.mpr ⟨⟨enabled, before.symm.trans pending⟩, unmasked⟩⟩

theorem idles_of_early (idles : m.Idles) {n : Nat} (early : ∀ e, m.Due e → n < e) :
    (m.withWorld (World.cycle^[n] m.world)).Idles := by
  rcases Nat.eq_zero_or_pos n with rfl | hn
  · exact idles
  · obtain ⟨-, st, sv, irqs⟩ := iterate_cycle_of_early hn early
    rw [World.iterate_cycle] at st sv ⊢
    exact idles_raise idles _ st sv irqs

theorem letRun_of_quiet {w : World Stm32h563} (reset : w.resetPending = false)
    (st : w.scs.pendSt = false) (sv : w.scs.pendSv = false) : m.letRun w = m.withWorld w := by
  have calm : (w.scs.pendSt || w.scs.pendSv) = false := by rw [st, sv, Bool.or_false]
  simp only [letRun, calm, Bool.false_eq_true, if_false, endPass]
  exact if_neg (by simp [withWorld, reset])

theorem cyclePass_of_idles (idles : m.Idles) (v : Nat) :
    cyclePass (m, v) = (m.letRun m.world.cycle, v + 1) := if_pos idles

theorem iterate_cyclePass (idles : m.Idles) {n : Nat} (early : ∀ e, m.Due e → n < e) :
    cyclePass^[n] (m, v) = (m.withWorld (World.cycle^[n] m.world), v + n) := by
  induction n with
  | zero => rfl
  | succ n ih =>
    have early' (e : Nat) (due : m.Due e) : n < e := Nat.lt_of_succ_lt (early e due)
    obtain ⟨reset, st, sv, -⟩ := iterate_cycle_of_early (Nat.succ_pos n) early
    have next : (m.withWorld (World.cycle^[n] m.world)).world.cycle = World.cycle^[n + 1] m.world :=
      (Function.iterate_succ_apply' _ _ _).symm
    rw [Function.iterate_succ_apply', ih early', cyclePass_of_idles (idles_of_early idles early'),
      next, letRun_of_quiet reset (st.trans idles.2.2.2.1) (sv.trans idles.2.2.2.2.1)]
    rfl

theorem attend_of_busy {s : Machine Stm32h563 × Nat} (asleep : Asleep s) (busy : ¬ s.1.Idles)
    (h : Host Stm32h563) : s.1.attend h = (s.1.wake, true) := by
  obtain ⟨⟨going, again, fault⟩, sleeping⟩ := asleep
  simp only [attend, going, again, fault, sleeping, Bool.or_false, Bool.false_eq_true, if_false,
    Bool.not_true]
  split
  · rfl
  · rename_i quiet
    simp only [Bool.or_eq_true, not_or, Bool.not_eq_true] at quiet
    obtain ⟨⟨⟨event, st⟩, sv⟩, irq⟩ := quiet
    exact absurd ⟨⟨going, again, fault⟩, sleeping, event, st, sv, irq⟩ busy

theorem pass_of_busy {s : Machine Stm32h563 × Nat} (asleep : Asleep s) (busy : ¬ s.1.Idles) :
    sleepPass s = (s.1.wake, s.2) ∧ cyclePass s = (s.1.wake, s.2) := by
  constructor
  · rw [sleepPass, if_neg busy, attend_of_busy asleep busy]
    rfl
  · rw [cyclePass, if_neg busy, attend_of_busy asleep busy]

theorem not_asleep_wake (m : Machine Stm32h563) (v : Nat) : ¬ Asleep (m.wake, v) := fun asleep =>
  absurd asleep.2 Bool.false_ne_true

theorem letRun_spec (m : Machine Stm32h563) (w : World Stm32h563) :
    (w.resetPending = true → (m.letRun w).resetAgain = true) ∧
    (w.scs.pendSt = true → (m.letRun w).cpu.sleeping = false) ∧
    (m.letRun w).world.nvic = w.nvic ∧ (m.letRun w).cpu.primask = m.cpu.primask ∧
    (m.letRun w).world.dev = w.dev := by
  cases st : w.scs.pendSt <;> cases sv : w.scs.pendSv <;> cases reset : w.resetPending <;>
    simp [letRun, endPass, withWorld, wake, st, sv, reset]

theorem not_idles_letRun {n : Nat} (hn : 0 < n) {v : Nat}
    (due : ∃ e, m.Due e ∧ e ≤ n) (first : ∀ e, m.Due e → n ≤ e)
    (asleep : Asleep (m.letRun (World.cycle^[n] m.world), v)) :
    ¬ (m.letRun (World.cycle^[n] m.world)).Idles := by
  intro idles
  obtain ⟨again, woken, nvic, primask, -⟩ := m.letRun_spec (World.cycle^[n] m.world)
  have noReset : (World.cycle^[n] m.world).resetPending = false :=
    Bool.eq_false_iff.mpr fun reset => absurd ((again reset).symm.trans asleep.1.2.1) nofun
  have noSt : (World.cycle^[n] m.world).scs.pendSt = false :=
    Bool.eq_false_iff.mpr fun st => absurd ((woken st).symm.trans asleep.2) nofun
  have none := idles.2.2.2.2.2
  obtain ⟨c, cpu⟩ : ∃ c, (m.letRun (World.cycle^[n] m.world)).cpu = c := ⟨_, rfl⟩
  rw [cpu] at primask
  rw [Bool.eq_false_iff, Ne, Nvic.selectRouted_isSome_iff, nvic, cpu] at none
  rw [World.iterate_cycle, cycles_snd Stm32h563.tick_signalsSplit hn] at none noReset noSt
  rcases (due_le_iff hn).mp due with ⟨delta, on, tickint, le⟩ | requested | ⟨irq, wakes, raised⟩ | reset
  · have last : delta.toNat = n := Nat.le_antisymm le (first _ (.systick on tickint))
    have st := Scs.pendSt_at_expiry on tickint
    rw [last] at st
    exact absurd (st.symm.trans noSt) nofun
  · exact absurd (Bool.or_eq_false_iff.mp noReset).1 (by simp [requested])
  · refine none ⟨irq, Nvic.candidate_iff.mpr ⟨⟨wakes.1, ?_⟩, ?_⟩⟩
    · have pending := Nvic.isPending_pend m.world.nvic (m.world.dev.tick n).2.1 irq
      rw [raised, Bool.or_true] at pending
      exact pending
    · rw [primask]
      exact wakes.2
  · exact absurd (Bool.or_eq_false_iff.mp noReset).2 (by simp [reset])

theorem asleep_iterate_cyclePass (idles : m.Idles) {n : Nat} (first : ∀ e, m.Due e → n ≤ e) :
    ∀ j < n, Asleep (cyclePass^[j] (m, v)) := fun j lt => by
  have early (e : Nat) (due : m.Due e) : j < e := Nat.lt_of_lt_of_le lt (first e due)
  have still := idles_of_early idles early
  rw [iterate_cyclePass idles early]
  exact ⟨still.1, still.2.1⟩

theorem iterate_cyclePass_last (idles : m.Idles) {n : Nat} (hn : 0 < n)
    (first : ∀ e, m.Due e → n ≤ e) :
    cyclePass^[n] (m, v) = (m.letRun (World.cycle^[n] m.world), v + n) := by
  obtain ⟨n, rfl⟩ := Nat.exists_eq_add_of_le' hn
  have early (e : Nat) (due : m.Due e) : n < e := first e due
  have next : (m.withWorld (World.cycle^[n] m.world)).world.cycle = World.cycle^[n + 1] m.world :=
    (Function.iterate_succ_apply' _ _ _).symm
  rw [Function.iterate_succ_apply', iterate_cyclePass idles early,
    cyclePass_of_idles (idles_of_early idles early), next]
  rfl

theorem exists_leaves_at_due (idles : m.Idles) {e : Nat} (due : m.Due e)
    (first : ∀ e', m.Due e' → e ≤ e') (v : Nat) :
    ∃ t, Lib.Leaves cyclePass Asleep (m, v) t ∧ t.2 = v + e := by
  simp only [leaves_iterate (asleep_iterate_cyclePass idles first),
    iterate_cyclePass_last idles due.pos first]
  by_cases asleep : Asleep (m.letRun (World.cycle^[e] m.world), v + e)
  · have busy := not_idles_letRun due.pos ⟨_, due, Nat.le_refl _⟩ first asleep
    refine ⟨_, (leaves_step asleep).mpr ((leaves_of_not_live ?_).mpr rfl), ?_⟩
    · rw [(pass_of_busy asleep busy).2]
      exact not_asleep_wake _ _
    · rw [(pass_of_busy asleep busy).2]
  · exact ⟨_, (leaves_of_not_live asleep).mpr rfl, rfl⟩

theorem exists_leaves_of_due {e : Nat} (idles : m.Idles) (due : m.Due e) (v : Nat) :
    ∃ t e', Lib.Leaves cyclePass Asleep (m, v) t ∧ t.2 = v + e' ∧ 0 < e' ∧ e' ≤ e := by
  classical
  have some : ∃ e, m.Due e := ⟨e, due⟩
  obtain ⟨t, leaves, at'⟩ := exists_leaves_at_due idles (Nat.find_spec some)
    (fun _ due => Nat.find_min' some due) v
  exact ⟨t, _, leaves, at', (Nat.find_spec some).pos, Nat.find_min' some due⟩

theorem not_leaves_of_never (idles : m.Idles) (never : ∀ e, ¬ m.Due e)
    (t : Machine Stm32h563 × Nat) : ¬ Lib.Leaves cyclePass Asleep (m, v) t := by
  rintro ⟨k, -, out, rfl⟩
  have late (n : Nat) : ∀ e, m.Due e → n ≤ e := fun e due => absurd due (never e)
  exact out (asleep_iterate_cyclePass idles (late (k + 1)) k (Nat.lt_succ_self k))

theorem sleepPass_of_on (idles : m.Idles)
    (on : m.world.scs.systickCyclesUntilFire = some delta) (v : Nat) :
    sleepPass (m, v) = (m.letRun (m.world.skip delta), v + delta.toNat) := by
  have dist : (m.world.scs.systickCyclesUntilFire.getD 0).toNat = delta.toNat := by rw [on]; rfl
  simp only [sleepPass, if_pos idles, dist]
  rw [attend_of_idles idles, fastForward, on]
  rfl

theorem sleepPass_of_off (idles : m.Idles) (off : m.world.scs.systickCyclesUntilFire = none)
    (v : Nat) : sleepPass (m, v) = (m.endPass ⟨id, id⟩, v) := by
  have dist : (m.world.scs.systickCyclesUntilFire.getD 0).toNat = 0 := by rw [off]; rfl
  simp only [sleepPass, if_pos idles, dist]
  rw [attend_of_idles idles, fastForward, off]
  rfl

theorem cycles_eq_skip_iff (on : m.world.scs.systickCyclesUntilFire = some delta) :
    World.cycle^[delta.toNat] m.world = m.world.skip delta ↔
      (cycles Stm32h563.tick delta.toNat m.world.dev).1 = (m.world.dev.tick delta.toNat).1 := by
  have pos := (Scs.toNat_of_on on).2
  rw [World.skip_eq, World.iterate_cycle, cycles_snd Stm32h563.tick_signalsSplit pos,
    Scs.iterate_systickStep _ delta.isLt, BitVec.ofNat_toNat, BitVec.setWidth_eq]
  constructor
  · intro same
    exact congrArg World.dev same
  · intro same
    rw [same]

theorem jumps_of_exact (idles : m.Idles)
    (on : m.world.scs.systickCyclesUntilFire = some delta)
    (late : ∀ e, m.Due e → delta.toNat ≤ e)
    (same : World.cycle^[delta.toNat] m.world = m.world.skip delta) (v : Nat) :
    Jumps cyclePass sleepPass Asleep (m, v) := by
  have pos := (Scs.toNat_of_on on).2
  refine ⟨delta.toNat, pos, asleep_iterate_cyclePass idles late, ?_⟩
  rw [sleepPass_of_on idles on, iterate_cyclePass_last idles pos late, same]

theorem jumps_of_busy {s : Machine Stm32h563 × Nat} (asleep : Asleep s) (busy : ¬ s.1.Idles) :
    Jumps cyclePass sleepPass Asleep s ∧ ¬ Asleep (cyclePass s) := by
  obtain ⟨fast, slow⟩ := pass_of_busy asleep busy
  refine ⟨⟨1, Nat.zero_lt_one, fun j lt => ?_, fast.trans slow.symm⟩, ?_⟩
  · obtain rfl : j = 0 := by omega
    exact asleep
  · rw [slow]
    exact not_asleep_wake _ _

theorem never_skip (idles : m.Idles) (on : m.world.scs.systickCyclesUntilFire = some delta)
    (never : ∀ e, ¬ m.Due e) : m.letRun (m.world.skip delta) = m.withWorld (m.world.skip delta) ∧
      (m.withWorld (m.world.skip delta)).Idles ∧
      ∀ e, ¬ (m.withWorld (m.world.skip delta)).Due e := by
  have pos := (Scs.toNat_of_on on).2
  have quiet (n : Nat) (hn : 0 < n) := mt (due_le_iff (m := m) hn).mpr fun ⟨e, due, _⟩ => never e due
  simp only [not_or, not_exists, not_and, Bool.not_eq_true] at quiet
  obtain ⟨-, requested, irqs, resets⟩ := quiet _ pos
  have silent : m.world.scs.Silent := fun tickint => absurd (Due.systick on tickint) (never _)
  obtain ⟨silent', st⟩ := silent.advance delta
  have sv := (m.world.scs.systickAdvance_keeps delta).1
  have idles' := idles_raise idles (m.world.dev.tick delta.toNat).1 st sv irqs
  have reset : (m.world.skip delta).resetPending = false := by
    rw [World.skip_eq]
    change (m.world.resetPending || _) = false
    rw [requested, resets, Bool.or_false]
  rw [World.skip_eq] at reset ⊢
  refine ⟨letRun_of_quiet reset (st.trans idles.2.2.2.1) (sv.trans idles.2.2.2.2.1), idles',
    fun e due => ?_⟩
  have rings := (due_le_iff due.pos).mp ⟨e, due, Nat.le_refl e⟩
  obtain ⟨-, -, irqs', resets'⟩ := quiet (delta.toNat + e) (Nat.add_pos_left pos e)
  have signals := Stm32h563.tick_signalsSplit m.world.dev _ _ pos due.pos
  rw [signals] at irqs' resets'
  rcases rings with ⟨delta', on', tickint, -⟩ | requested' | ⟨irq, wakes, raised⟩ | expired
  · exact absurd (on'.symm.trans (silent' tickint)) nofun
  · exact absurd (requested'.symm.trans reset) nofun
  · exact absurd (raised.symm.trans (Bool.or_eq_false_iff.mp (irqs' irq wakes)).2) nofun
  · exact absurd (expired.symm.trans (Bool.or_eq_false_iff.mp resets').2) nofun

theorem agree_of_never (idles : m.Idles) (never : ∀ e, ¬ m.Due e) (v : Nat) :
    Lib.Agree cyclePass sleepPass Asleep (m, v) := by
  have stays (s : Machine Stm32h563 × Nat) (hs : s.1.Idles ∧ ∀ e, ¬ s.1.Due e) :
      Asleep s ∧ (sleepPass s).1.Idles ∧ ∀ e, ¬ (sleepPass s).1.Due e := by
    obtain ⟨m, v⟩ := s
    obtain ⟨idles, never⟩ := hs
    refine ⟨⟨idles.1, idles.2.1⟩, ?_⟩
    cases dist : m.world.scs.systickCyclesUntilFire with
    | none =>
      have reset : m.world.resetPending = false :=
        Bool.eq_false_iff.mpr fun requested => never _ (.reset requested)
      have same : m.endPass ⟨id, id⟩ = m := if_neg (by simp [withWorld, reset])
      rw [sleepPass_of_off idles dist, same]
      exact ⟨idles, never⟩
    | some delta =>
      obtain ⟨same, idles', never'⟩ := never_skip idles dist never
      rw [sleepPass_of_on idles dist, same]
      exact ⟨idles', never'⟩
  exact fun t => ⟨fun leaves => absurd leaves (not_leaves_of_invariant stays ⟨idles, never⟩),
    fun leaves => absurd leaves (not_leaves_of_never idles never t)⟩

theorem dev_cyclePass {P : Stm32h563 → Prop} (frozen : Stm32h563.Frozen P)
    {s : Machine Stm32h563 × Nat} (h : P s.1.world.dev) : P (cyclePass s).1.world.dev := by
  by_cases idles : s.1.Idles
  · rw [cyclePass, if_pos idles, (s.1.letRun_spec _).2.2.2.2, World.cycle, World.timersTick_eq]
    exact frozen _ 1 h
  · rw [cyclePass, if_neg idles, attend_world_of_not_idles idles]
    exact h

theorem dev_sleepPass {P : Stm32h563 → Prop} (frozen : Stm32h563.Frozen P)
    {s : Machine Stm32h563 × Nat} (h : P s.1.world.dev) : P (sleepPass s).1.world.dev := by
  obtain ⟨m, v⟩ := s
  by_cases idles : m.Idles
  · cases dist : m.world.scs.systickCyclesUntilFire with
    | none =>
      rw [sleepPass_of_off idles dist, endPass]
      split <;> exact h
    | some delta =>
      rw [sleepPass_of_on idles dist, (m.letRun_spec _).2.2.2.2, World.skip_eq]
      exact frozen _ delta.toNat h
  · rw [sleepPass, attend_world_of_not_idles idles]
    exact h

theorem vcycles_le_sleepPass (s : Machine Stm32h563 × Nat) : s.2 ≤ (sleepPass s).2 :=
  Nat.le_add_right _ _

theorem off_sleepPass {s : Machine Stm32h563 × Nat}
    (off : s.1.world.scs.systickCyclesUntilFire = none) :
    (sleepPass s).1.world.scs.systickCyclesUntilFire = none ∧ (sleepPass s).2 = s.2 := by
  obtain ⟨m, v⟩ := s
  by_cases idles : m.Idles
  · rw [sleepPass_of_off idles off, endPass]
    split <;> exact ⟨off, rfl⟩
  · rw [sleepPass, if_neg idles, attend_world_of_not_idles idles]
    exact ⟨off, rfl⟩

theorem skipsExactly_of_agree {s t : Machine Stm32h563 × Nat}
    (agree : Lib.Agree cyclePass sleepPass Asleep s) (left : Lib.Leaves cyclePass Asleep s t) :
    s.1.SkipsExactly := by
  obtain ⟨m, v⟩ := s
  intro idles
  have asleep : Asleep (m, v) := ⟨idles.1, idles.2.1⟩
  cases dist : m.world.scs.systickCyclesUntilFire with
  | none =>
    intro e due
    obtain ⟨t, e', leaves, time, pos, -⟩ := exists_leaves_of_due idles due v
    have still : t.1.world.scs.systickCyclesUntilFire = none ∧ t.2 = v :=
      ((agree t).mpr leaves).keeps
        (I := fun s => s.1.world.scs.systickCyclesUntilFire = none ∧ s.2 = v)
        (fun s _ hs => ⟨(off_sleepPass hs.1).1, (off_sleepPass hs.1).2.trans hs.2⟩) ⟨dist, rfl⟩
    omega
  | some delta =>
    have late (e : Nat) (due : m.Due e) : delta.toNat ≤ e := by
      obtain ⟨t, e', leaves, time, -, le⟩ := exists_leaves_of_due idles due v
      have fast := (leaves_step asleep).mp ((agree t).mpr leaves)
      rw [sleepPass_of_on idles dist] at fast
      have passed : v + delta.toNat ≤ t.2 :=
        fast.keeps (I := fun s => v + delta.toNat ≤ s.2)
          (fun s _ le => Nat.le_trans le (vcycles_le_sleepPass s)) (Nat.le_refl _)
      omega
    refine ⟨late, Classical.byContradiction fun parts => ?_⟩
    have pos := (Scs.toNat_of_on dist).2
    obtain ⟨P, Q, slow, fast, slowNow, fastNow, apart⟩ :=
      Stm32h563.exists_frozen_of_parts pos (fun e mem => late e (.windowReset mem)) parts
    have slowLeaves := (leaves_iterate (asleep_iterate_cyclePass idles late)).mp left
    have fastLeaves := (leaves_step asleep).mp ((agree t).mpr left)
    rw [iterate_cyclePass_last idles pos late] at slowLeaves
    rw [sleepPass_of_on idles dist] at fastLeaves
    refine apart t.1.world.dev (slowLeaves.keeps (I := fun s => P s.1.world.dev)
      (fun s _ => dev_cyclePass slow) ?_) (fastLeaves.keeps (I := fun s => Q s.1.world.dev)
      (fun s _ => dev_sleepPass fast) ?_)
    · rw [(m.letRun_spec _).2.2.2.2, World.iterate_cycle]
      exact slowNow
    · rw [(m.letRun_spec _).2.2.2.2, World.skip_eq]
      exact fastNow

theorem jumps_or_never {s : Machine Stm32h563 × Nat} (asleep : Asleep s)
    (exact : s.1.SkipsExactly) : Jumps cyclePass sleepPass Asleep s ∨
      s.1.Idles ∧ ∀ e, ¬ s.1.Due e := by
  obtain ⟨m, v⟩ := s
  by_cases idles : m.Idles
  · have exact := exact idles
    cases dist : m.world.scs.systickCyclesUntilFire with
    | none =>
      rw [dist] at exact
      exact .inr ⟨idles, exact⟩
    | some delta =>
      rw [dist] at exact
      obtain ⟨late, parts⟩ := exact
      have same := (Stm32h563.cycles_eq_tick_iff (Scs.toNat_of_on dist).2
        (fun e mem => late e (.windowReset mem)) (fun e mem => late e (.watchdogReset mem))).mpr parts
      exact .inl (jumps_of_exact idles dist late ((cycles_eq_skip_iff dist).mpr same) v)
  · exact .inl (jumps_of_busy asleep idles).1

theorem exists_leaves {e : Nat} (due : m.Due e) (v : Nat) (asleep : Asleep (m, v)) :
    ∃ t, Lib.Leaves cyclePass Asleep (m, v) t := by
  by_cases idles : m.Idles
  · obtain ⟨t, -, leaves, -⟩ := exists_leaves_of_due idles due v
    exact ⟨t, leaves⟩
  · exact ⟨_, (leaves_step asleep).mpr ((leaves_of_not_live (jumps_of_busy asleep idles).2).mpr rfl)⟩

/-- The sleep branch is left as the loop that counts single cycles is, if nothing is ever due, and
otherwise exactly if all of its passes skip exactly. -/
theorem sleepPass_agrees_iff (m : Machine Stm32h563) (v : Nat) :
    (∀ t, Lib.Leaves sleepPass Asleep (m, v) t ↔ Lib.Leaves cyclePass Asleep (m, v) t) ↔
      (∀ e, ¬ m.Due e) ∨ ∀ k, (∀ j ≤ k, Asleep (sleepPass^[j] (m, v))) →
        (sleepPass^[k] (m, v)).1.SkipsExactly := by
  change Lib.Agree cyclePass sleepPass Asleep (m, v) ↔ _
  by_cases asleep : Asleep (m, v)
  · constructor
    · intro agree
      by_cases never : ∀ e, ¬ m.Due e
      · exact .inl never
      · refine .inr fun k lives => ?_
        obtain ⟨e, due⟩ := Classical.not_forall_not.mp never
        obtain ⟨t, left⟩ := exists_leaves due v asleep
        have jumps (s : Machine Stm32h563 × Nat) (asleep : Asleep s)
            (agree : Lib.Agree cyclePass sleepPass Asleep s) (left : Lib.Leaves cyclePass Asleep s t) :
            Jumps cyclePass sleepPass Asleep s :=
          (jumps_or_never asleep (skipsExactly_of_agree agree left)).resolve_right
            fun ⟨idles, never⟩ => not_leaves_of_never idles never t left
        obtain ⟨agree', left'⟩ := agree.iterate jumps left fun j lt => lives j (Nat.le_of_lt lt)
        exact skipsExactly_of_agree agree' left'
    · rintro (never | exact)
      · by_cases idles : m.Idles
        · exact agree_of_never idles never v
        · have woken : ¬ Asleep (sleepPass (m, v)) := by
            rw [(pass_of_busy asleep idles).1]
            exact not_asleep_wake _ _
          exact (jumps_of_busy asleep idles).1.agree_iff.mp (agree_of_not_live woken)
      · exact agree_of_jumps fun k lives =>
          (jumps_or_never (lives k (Nat.le_refl k)) (exact k lives)).imp_right
            fun ⟨idles, never⟩ => agree_of_never idles never _
  · exact ⟨fun _ => .inr fun k lives => absurd (lives 0 (Nat.zero_le k)) asleep,
      fun _ => agree_of_not_live asleep⟩

def overtaken (systickCtrl : Word) : Machine Stm32h563 where
  cpu := { Board.cpu with sleeping := true }
  world :=
    { Board.world with
      scs := { Board.world.scs with systickCtrl := systickCtrl, systickLoad := 100 }
      nvic := Board.world.nvic.setEnable (Stm32h563.timIrq 0) true
      dev :=
        { tim := fun i => ⟨if i = 0 then 1 else 0, 1, 0, 0, 0, 9, 0⟩
          apb1lenr := 1
          cpuHz := 64000000
          wwdg := ⟨0x7F, 0x7F, 0, 0x7F, 0⟩
          iwdg := ⟨0, false, 0, 0⟩ } }
  trace := []
  it := ⟨0, 0, 0⟩
  done := false
  resetAgain := false
  transfers := []

theorem sleepPass_overtakes :
    (¬ ∀ (m : Machine Stm32h563) (v : Nat), Asleep (m, v) →
      m.world.scs.systickCyclesUntilFire ≠ none →
        ∀ t, Lib.Leaves sleepPass Asleep (m, v) t ↔ Lib.Leaves cyclePass Asleep (m, v) t) ∧
    ¬ ∀ (m : Machine Stm32h563) (v : Nat), Asleep (m, v) →
      m.world.scs.systickCyclesUntilFire = none →
        ∀ t, Lib.Leaves sleepPass Asleep (m, v) t ↔ Lib.Leaves cyclePass Asleep (m, v) t := by
  have asleep (ctrl : Word) : Asleep (overtaken ctrl, 0) := ⟨⟨rfl, rfl, rfl⟩, rfl⟩
  have due : ∀ ctrl ∈ [0, 3], (overtaken ctrl).Due 10 := by
    simp only [List.forall_mem_cons, List.not_mem_nil, false_imp_iff, implies_true, and_true]
    exact ⟨.timer 0 ⟨by decide, by decide⟩ (by decide),
      .timer 0 ⟨by decide, by decide⟩ (by decide)⟩
  constructor
  · intro h
    have on : (overtaken 3).world.scs.systickCyclesUntilFire = some 100 := by decide
    obtain ⟨t, left⟩ := exists_leaves (due 3 (by decide)) 0 (asleep 3)
    have exact := skipsExactly_of_agree (h _ 0 (asleep 3) (by rw [on]; nofun)) left (by decide)
    rw [on] at exact
    exact absurd (exact.1 10 (due 3 (by decide))) (by decide)
  · intro h
    have off : (overtaken 0).world.scs.systickCyclesUntilFire = none := by decide
    obtain ⟨t, left⟩ := exists_leaves (due 0 (by decide)) 0 (asleep 0)
    have exact := skipsExactly_of_agree (h _ 0 (asleep 0) off) left (by decide)
    rw [off] at exact
    exact exact 10 (due 0 (by decide))

end Machine

end M33mu
