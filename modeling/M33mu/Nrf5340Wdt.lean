import M33mu.Watchdogs

namespace M33mu

open Lib

/-- `wdt_state`; `regs` is by `offset / 4`. -/
@[ext] structure Wdt where
  regs : Word → Word
  crv : Word
  counter : Nat
  accum : Nat
  running : Bool

namespace Wdt

def size : Word := 0x1000

def tasksStart : Word := 0x000

def tasksStop : Word := 0x004

def eventsTimeout : Word := 0x100

def intenset : Word := 0x304

def intenclr : Word := 0x308

def crvOffset : Word := 0x504

def rren : Word := 0x508

def rr0 : Word := 0x600

/-- `wdt_cycles_per_tick`, which the tick takes for at least 1. -/
def cyclesPerTick (cpuHz : Nat) : Nat :=
  let perTick := if cpuHz = 0 then 1 else cpuHz / 32768
  if perTick = 0 then 1 else perTick

def setReg (w : Wdt) (offset value : Word) : Wdt :=
  { w with regs := fun i => if i = offset / 4 then value else w.regs i }

def reload (w : Wdt) : Wdt := { w.setReg eventsTimeout 0 with counter := w.crv.toNat }

def write (w : Wdt) (offset sizeBytes value : Word) : Bool × Wdt :=
  if sizeBytes = 0 ∨ 4 < sizeBytes then (false, w)
  else if size < offset + sizeBytes then (false, w)
  else if offset = tasksStart ∧ sizeBytes = 4 then
    (true, if value.getLsbD 0 then { w with running := true }.reload else w)
  else if offset = tasksStop ∧ sizeBytes = 4 then
    (true, if value.getLsbD 0 then { w with running := false } else w)
  else if offset = crvOffset ∧ sizeBytes = 4 then (true, { w with crv := value })
  else if offset = rren ∧ sizeBytes = 4 then (true, w.setReg rren (value &&& 0xFF))
  else if offset = intenset ∧ sizeBytes = 4 then
    (true, w.setReg intenset (w.regs (intenset / 4) ||| value))
  else if offset = intenclr ∧ sizeBytes = 4 then
    (true, w.setReg intenset (w.regs (intenset / 4) &&& ~~~value))
  else if offset = eventsTimeout ∧ sizeBytes = 4 then (true, w.setReg eventsTimeout value)
  else if offset = rr0 ∧ sizeBytes = 4 then (true, w.reload)
  else (true, w.setReg offset value)

/-- `mm_nrf5340_wdt_tick` for one watchdog: the state, whether the timeout interrupt is pended, and
whether a reset is requested. The sum is of 64 bits. -/
def tick (cpuHz cycles : Nat) (w : Wdt) : Wdt × Bool × Bool :=
  if w.running then
    let total := (w.accum + cycles) % 2 ^ 64
    let ticks := total / cyclesPerTick cpuHz
    let w := { w with accum := total % cyclesPerTick cpuHz }
    if ticks = 0 then (w, false, false)
    else if w.counter ≤ ticks then
      ({ w.setReg eventsTimeout 1 with counter := 0 }, (w.regs (intenset / 4)).getLsbD 0, true)
    else ({ w with counter := w.counter - ticks }, false, false)
  else (w, false, false)

def advance (cpuHz cycles : Nat) (w : Wdt) : Wdt × Bool × Bool :=
  if w.running then
    let total := w.accum + cycles
    let ticks := total / cyclesPerTick cpuHz
    let w := { w with accum := total % cyclesPerTick cpuHz }
    if ticks = 0 then (w, false, false)
    else if w.counter ≤ ticks then
      ({ w.setReg eventsTimeout 1 with counter := 0 }, (w.regs (intenset / 4)).getLsbD 0, true)
    else ({ w with counter := w.counter - ticks }, false, false)
  else (w, false, false)

def expires (w : Wdt) (k : Nat) : Bool := decide (k ≠ 0 ∧ w.counter ≤ k)

def counted (w : Wdt) (k : Nat) : Wdt :=
  { w with
    counter := w.counter - k
    regs := if w.expires k then (w.setReg eventsTimeout 1).regs else w.regs }

def intTimeout (w : Wdt) : Bool := (w.regs (intenset / 4)).getLsbD 0

variable {cpuHz : Nat} {w : Wdt}

theorem cyclesPerTick_pos (cpuHz : Nat) : 0 < cyclesPerTick cpuHz := by
  have pos (n : Nat) : 0 < if n = 0 then 1 else n := by
    split <;> omega
  exact pos _

variable (cpuHz) in
theorem advance_of_running (running : w.running = true) (n : Nat) : w.advance cpuHz n =
    ({ w.counted ((w.accum + n) / cyclesPerTick cpuHz) with
        accum := (w.accum + n) % cyclesPerTick cpuHz },
      w.expires ((w.accum + n) / cyclesPerTick cpuHz) && w.intTimeout,
      w.expires ((w.accum + n) / cyclesPerTick cpuHz)) := by
  obtain ⟨k, hk⟩ : ∃ k, (w.accum + n) / cyclesPerTick cpuHz = k := ⟨_, rfl⟩
  rw [advance, if_pos running]
  simp only [counted, expires, hk]
  by_cases none : k = 0
  · simp [none]
  · by_cases late : w.counter ≤ k
    · simp [none, late, intTimeout, Nat.sub_eq_zero_of_le late, setReg]
    · simp [none, late]

theorem halted_of_not_running (cpuHz : Nat) (idle : w.running = false) :
    Halted (Wdt.advance cpuHz) w := fun n => by
  rw [advance, if_neg (by simp [idle])]
  rfl

theorem counted_add (w : Wdt) (p q : Nat) : (w.counted p).counted q = w.counted (p + q) ∧
    w.expires (p + q) = (w.expires p || (w.counted p).expires q) := by
  have expires : w.expires (p + q) = (w.expires p || (w.counted p).expires q) := by
    have counter : (w.counted p).counter = w.counter - p := rfl
    rw [Wdt.expires, Wdt.expires, Wdt.expires, counter, ← Bool.decide_or]
    exact decide_eq_decide.mpr (by omega)
  refine ⟨Wdt.ext ?_ rfl (Nat.sub_sub ..) rfl rfl, expires⟩
  change (if (w.counted p).expires q then ((w.counted p).setReg eventsTimeout 1).regs
    else (w.counted p).regs) = if w.expires (p + q) then (w.setReg eventsTimeout 1).regs else w.regs
  have regs : (w.counted p).regs =
    if w.expires p then (w.setReg eventsTimeout 1).regs else w.regs := rfl
  simp only [expires, setReg, regs]
  funext i
  by_cases event : i = eventsTimeout / 4
  · cases w.expires p <;> cases (w.counted p).expires q <;> simp [event]
  · cases w.expires p <;> cases (w.counted p).expires q <;>
      simp only [Bool.or_true, Bool.or_false, Bool.false_eq_true, if_true, if_false, if_neg event]

theorem intTimeout_counted (w : Wdt) (p : Nat) : (w.counted p).intTimeout = w.intTimeout := by
  simp only [intTimeout, counted]
  split
  · have other : (intenset / 4 : Word) ≠ eventsTimeout / 4 := by decide
    simp only [setReg, if_neg other]
  · rfl

theorem advance_splits (cpuHz : Nat) (w : Wdt) (a b : Nat) : Splits (Wdt.advance cpuHz) w a b := by
  rw [Splits]
  cases running : w.running with
  | false =>
    have halted := halted_of_not_running cpuHz running
    rw [halted, halted, halted, sup_idem]
  | true =>
    obtain ⟨ticks, acc⟩ := prescaled_add (cyclesPerTick cpuHz) w.accum a b
    have first := advance_of_running cpuHz running a
    have second := advance_of_running cpuHz (w := (w.advance cpuHz a).1)
      (by rw [first]; exact running) b
    have whole := advance_of_running cpuHz running (a + b)
    rw [ticks, acc] at whole
    rw [first] at second
    obtain ⟨p, hp⟩ : ∃ p, (w.accum + a) / cyclesPerTick cpuHz = p := ⟨_, rfl⟩
    obtain ⟨q, hq⟩ : ∃ q, ((w.accum + a) % cyclesPerTick cpuHz + b) / cyclesPerTick cpuHz = q :=
      ⟨_, rfl⟩
    obtain ⟨state, expires⟩ := counted_add w p q
    rw [hp] at first second whole
    simp only [hq] at second whole
    refine Prod.ext ?_ (Prod.ext ?_ ?_)
    · change (w.advance cpuHz (a + b)).1 = ((w.advance cpuHz a).1.advance cpuHz b).1
      rw [first, second, whole, ← state]
      rfl
    · change (w.advance cpuHz (a + b)).2.1 =
        ((w.advance cpuHz a).2.1 || ((w.advance cpuHz a).1.advance cpuHz b).2.1)
      rw [first, second, whole, expires, Bool.and_or_distrib_right]
      exact congrArg (fun int => w.expires p && w.intTimeout || (w.counted p).expires q && int)
        (intTimeout_counted w p).symm
    · change (w.advance cpuHz (a + b)).2.2 =
        ((w.advance cpuHz a).2.2 || ((w.advance cpuHz a).1.advance cpuHz b).2.2)
      rw [first, second, whole]
      exact expires

def left (w : Wdt) : Nat := max 1 w.counter

def budget (cpuHz : Nat) (w : Wdt) : Option Nat :=
  if w.running then some (w.left * cyclesPerTick cpuHz - w.accum) else none

def refresh (value : Word) (w : Wdt) : Wdt := (w.write rr0 4 value).2

def resetTick (cpuHz cycles : Nat) (w : Wdt) : Wdt × Bool :=
  ((w.tick cpuHz cycles).1, (w.tick cpuHz cycles).2.2)

theorem expires_iff (w : Wdt) (k : Nat) : w.expires k = true ↔ w.left ≤ k := by
  rw [expires, left, decide_eq_true_eq]
  omega

theorem deadline (cpuHz : Nat) :
    Deadline (fun n w => ((w.advance cpuHz n).1, (w.advance cpuHz n).2.2)) (Wdt.budget cpuHz) where
  fires w n := by
    simp only [budget]
    cases running : w.running with
    | false =>
      rw [halted_of_not_running cpuHz running]
      simp
    | true =>
      rw [advance_of_running cpuHz running, expires_iff, Nat.le_div_iff_mul_le (cyclesPerTick_pos cpuHz)]
      simp
      omega
  after w n quiet := by
    change (w.advance cpuHz n).2.2 = false at quiet
    change (w.advance cpuHz n).1.budget cpuHz = (w.budget cpuHz).map (· - n)
    cases running : w.running with
    | false =>
      rw [halted_of_not_running cpuHz running]
      simp [budget, running]
    | true =>
      obtain ⟨q, hq⟩ : ∃ q, (w.accum + n) / cyclesPerTick cpuHz = q := ⟨_, rfl⟩
      have next := advance_of_running cpuHz running n
      simp only [hq] at next
      rw [next, ← Bool.not_eq_true, expires_iff] at quiet
      have left : (w.advance cpuHz n).1.left = w.left - q := by
        rw [next]
        simp only [left, counted] at quiet ⊢
        omega
      have before : w.budget cpuHz = some (w.left * cyclesPerTick cpuHz - w.accum) :=
        if_pos running
      have after : (w.advance cpuHz n).1.budget cpuHz =
          some ((w.left - q) * cyclesPerTick cpuHz - (w.accum + n) % cyclesPerTick cpuHz) := by
        rw [← left, next]
        exact if_pos running
      rw [before, after, ← hq, Option.map_some, prescaled_left]

theorem tick_eq_advance {n : Nat} (room : w.accum + n < 2 ^ 64) :
    w.tick cpuHz n = w.advance cpuHz n := by
  rw [tick, advance, Nat.mod_eq_of_lt room]

theorem patient (cpuHz : Nat) : Patient (Wdt.resetTick cpuHz) (Wdt.budget cpuHz) := by
  refine (deadline cpuHz).patient fun w n inTime => ?_
  cases running : w.running with
  | false =>
    refine ⟨w, n, ?_, fun e mem => ⟨e, mem, Nat.le_refl _⟩⟩
    simp only [resetTick, tick, advance, running, Bool.false_eq_true, if_false]
  | true =>
    have given : budget cpuHz { w with accum := 0 } = some (w.left * cyclesPerTick cpuHz - 0) :=
      if_pos running
    have before : w.budget cpuHz = some (w.left * cyclesPerTick cpuHz - w.accum) := if_pos running
    refine ⟨{ w with accum := 0 }, (w.accum + n) % 2 ^ 64, ?_, fun e₀ mem₀ => ?_⟩
    · simp only [resetTick, tick, advance, running, if_true, Nat.zero_add]
    have less := Nat.mod_le (w.accum + n) (2 ^ 64)
    have := inTime _ before
    obtain rfl := Option.some.inj (mem₀.symm.trans given)
    exact ⟨_, before, by omega⟩

theorem accum_advance_le (cpuHz : Nat) (w : Wdt) (n : Nat) :
    (w.advance cpuHz n).1.accum ≤ w.accum + n := by
  cases running : w.running with
  | false =>
    rw [halted_of_not_running cpuHz running]
    exact Nat.le_add_right ..
  | true =>
    rw [advance_of_running cpuHz running]
    exact Nat.mod_le ..

end Wdt

/-- Advancing the watchdogs by `a` cycles and then `b` requests resets and interrupts as `a + b` does
and without a reset leaves the same counters; refreshed in time, they request none. -/
structure WatchdogsAgree (clock : Bool) (stmHz nrfHz a b : Nat) (w : Wwdg) (i : Iwdg) (d : Wdt) :
    Prop where
  window : SplitsUnless (Wwdg.tick clock) (fun signals => signals.2 = true)
    (fun w => (w.counter, w.accum)) a b w
  independent : SplitsUnless (Iwdg.tick stmHz) (fun reset => reset = true)
    (fun w => (w.counter, w.accum)) a b i
  nrf : SplitsUnless (Wdt.tick nrfHz) (fun signals => signals.2 = true)
    (fun w => (w.counter, w.accum)) a b d
  windowRefreshed (ops : List (Refreshing Word)) :
    Along (watch (Wwdg.resetTick clock) (Wwdg.writeCr clock) (Wwdg.budget clock)) Watched.InTime
        (Watched.start (Wwdg.budget clock) w) ops →
      (run (watch (Wwdg.resetTick clock) (Wwdg.writeCr clock) (Wwdg.budget clock))
        (Watched.start (Wwdg.budget clock) w) ops).fired = false
  independentRefreshed (ops : List (Refreshing Word)) :
    Along (watch (Iwdg.tick stmHz) (Iwdg.applyKey · 0xAAAA) (Iwdg.budget stmHz)) Watched.InTime
        (Watched.start (Iwdg.budget stmHz) i) ops →
      (run (watch (Iwdg.tick stmHz) (Iwdg.applyKey · 0xAAAA) (Iwdg.budget stmHz))
        (Watched.start (Iwdg.budget stmHz) i) ops).fired = false
  nrfRefreshed (ops : List (Refreshing Word)) :
    Along (watch (Wdt.resetTick nrfHz) Wdt.refresh (Wdt.budget nrfHz)) Watched.InTime
        (Watched.start (Wdt.budget nrfHz) d) ops →
      (run (watch (Wdt.resetTick nrfHz) Wdt.refresh (Wdt.budget nrfHz))
        (Watched.start (Wdt.budget nrfHz) d) ops).fired = false

/-- While their sums do not wrap they do, but for a window watchdog that has been started below its
reset value and gets to 0 in the first part. -/
theorem watchdogsAgree_iff (clock : Bool) (stmHz nrfHz a b : Nat) (w : Wwdg) (i : Iwdg) (d : Wdt)
    (window : w.accum + a + b < 2 ^ 64) (independent : i.accum + a + b < 2 ^ 64)
    (nrf : d.accum + a + b < 2 ^ 64) :
    WatchdogsAgree clock stmHz nrfHz a b w i d ↔
      (w.active clock = true → w.counter ≤ 0x3F → w.counter ≤ (w.accum + a) / w.step →
        w.step ∣ b) := by
  have leftW := w.accum_advance_le clock a
  have leftI := i.accum_advance_le stmHz a
  have leftD := d.accum_advance_le nrfHz a
  rw [← Wwdg.splitsUnless_iff clock w a b]
  have same : SplitsUnless (Wwdg.tick clock) (fun signals => signals.2 = true)
      (fun w => (w.counter, w.accum)) a b w ↔
        SplitsUnless (Wwdg.advance clock) (fun signals => signals.2 = true)
          (fun w => (w.counter, w.accum)) a b w :=
    splitsUnless_congr (Wwdg.tick_eq_advance (by omega)) (Wwdg.tick_eq_advance (by omega))
      (Wwdg.tick_eq_advance (by omega))
  refine ⟨fun agree => same.mp agree.window, fun splits => ?_⟩
  exact
    { window := same.mpr splits
      independent := (splitsUnless_congr (Iwdg.tick_eq_advance (by omega))
        (Iwdg.tick_eq_advance (by omega)) (Iwdg.tick_eq_advance (by omega))).mpr
          (Iwdg.splitsUnless stmHz i a b)
      nrf := (splitsUnless_congr (Wdt.tick_eq_advance (by omega)) (Wdt.tick_eq_advance (by omega))
        (Wdt.tick_eq_advance (by omega))).mpr ((Wdt.advance_splits nrfHz d a b).unless _ _)
      windowRefreshed := (Wwdg.patient clock).not_fired w
      independentRefreshed := (Iwdg.patient stmHz).not_fired i
      nrfRefreshed := (Wdt.patient nrfHz).not_fired d }

/-- Started at 1, a window watchdog with 95 cycles on its prescaler agrees in whole counts only. -/
theorem watchdogsAgree_counts :
    let w : Wwdg := { cr := 0x81, cfr := 0, sr := 0, counter := 1, accum := 95 }
    let i : Iwdg := { pr := 0, running := true, counter := 0xFFF, accum := 7 }
    let d : Wdt :=
      { regs := fun _ => 0, crv := 0xFFFFFFFF, counter := 2 ^ 32 - 1, accum := 1, running := true }
    WatchdogsAgree true 32000000 128000000 4001 (4096 * 2 ^ 40) w i d ∧
      ¬ WatchdogsAgree true 32000000 128000000 4001 (2 ^ 52 + 1) w i d :=
  ⟨(watchdogsAgree_iff true _ _ 4001 (4096 * 2 ^ 40) _ _ _ (by decide) (by decide)
      (by decide)).mpr fun _ _ _ => by decide,
    fun agree => absurd ((watchdogsAgree_iff true _ _ 4001 (2 ^ 52 + 1) _ _ _ (by decide)
      (by decide) (by decide)).mp agree (by decide) (by decide) (by decide)) (by decide)⟩

/-- Started at 1, the window watchdog is at 0 after 4096 cycles; one cycle more is kept or not. -/
theorem not_watchdogsAgree :
    let w : Wwdg := { cr := 0x81, cfr := 0, sr := 0, counter := 1, accum := 0 }
    let i : Iwdg := { pr := 0, running := false, counter := 0, accum := 0 }
    let d : Wdt :=
      { regs := fun _ => 0, crv := 0xFFFFFFFF, counter := 0, accum := 0, running := false }
    (twice (Wwdg.tick true) 4096 1 w).1.accum = 0 ∧ (w.tick true 4097).1.accum = 1 ∧
      ¬ WatchdogsAgree true 32000000 128000000 4096 1 w i d := by
  refine ⟨by decide, by decide, fun agree => ?_⟩
  exact absurd (congrArg Prod.snd (agree.window.left (by decide))) (by decide)

example :
    let d : Wdt :=
      { regs := fun _ => 0, crv := 0xFFFFFFFF, counter := 2 ^ 32 - 1, accum := 1, running := true }
    (d.tick 128000000 (2 ^ 64 - 2)).2.2 = true ∧ (d.tick 128000000 (2 ^ 64 - 1)).2.2 = false := by
  decide

end M33mu
