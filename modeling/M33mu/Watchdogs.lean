import M33mu.Lib.Deadline
import M33mu.Lib.Prescaler
import M33mu.Lib.Ticker
import M33mu.Types
import Mathlib.Order.BooleanAlgebra.Basic

namespace M33mu

open Lib

/-- `wwdg_state`, with the registers that the tick reads or writes. -/
@[ext] structure Wwdg where
  cr : Word
  cfr : Word
  sr : Word
  counter : Nat
  accum : Nat
  deriving DecidableEq

namespace Wwdg

def step (w : Wwdg) : Nat := 4096 * 2 ^ (w.cfr >>> 11 &&& 0x7).toNat

def cfrEwi (w : Wwdg) : Bool := w.cfr.getLsbD 9

def setCounter (w : Wwdg) (counter : Nat) : Wwdg :=
  { w with
    counter := counter
    cr := (w.cr &&& ~~~0x7F#32) ||| (BitVec.ofNat 32 counter &&& 0x7F) }

def count (w : Wwdg) : Wwdg × Bool :=
  let w := w.setCounter (w.counter - 1)
  if w.counter = 0x40 && w.cfrEwi then ({ w with sr := w.sr ||| 1 }, true) else (w, false)

/-- The given number of rounds of the loop, which a reset ends: the state, whether the early
interrupt is pended, and whether a reset is requested. -/
def loop (step : Nat) : Nat → Wwdg → Wwdg × Bool × Bool
  | 0, w => (w, false, false)
  | n + 1, w =>
    let w := { w with accum := w.accum - step }
    if w.counter = 0 then loop step n w
    else
      let r := w.count
      if r.1.counter = 0x3F then (r.1, r.2, true)
      else
        let rest := loop step n r.1
        (rest.1, r.2 || rest.2.1, rest.2.2)

def active (clock : Bool) (w : Wwdg) : Bool := clock && w.counter != 0 && w.cr.getLsbD 7

/-- The part of `mm_stm32h563_watchdog_tick` for the window watchdog; the sum is of 64 bits. -/
def tick (clock : Bool) (cycles : Nat) (w : Wwdg) : Wwdg × Bool × Bool :=
  if w.active clock then
    let total := (w.accum + cycles) % 2 ^ 64
    loop w.step (total / w.step) { w with accum := total }
  else (w, false, false)

def advance (clock : Bool) (cycles : Nat) (w : Wwdg) : Wwdg × Bool × Bool :=
  if w.active clock then
    loop w.step ((w.accum + cycles) / w.step) { w with accum := w.accum + cycles }
  else (w, false, false)

def expires (w : Wwdg) (k : Nat) : Bool := decide (0x3F < w.counter ∧ w.counter - 0x3F ≤ k)

def warns (w : Wwdg) (k : Nat) : Bool :=
  decide (0x40 < w.counter ∧ w.counter - 0x40 ≤ k) && w.cfrEwi

def made (w : Wwdg) (k : Nat) : Nat := if w.expires k then w.counter - 0x3F else k

def counted (w : Wwdg) (k : Nat) : Wwdg :=
  { w with
    counter := w.counter - w.made k
    cr := if k = 0 ∨ w.counter = 0 then w.cr else (w.setCounter (w.counter - w.made k)).cr
    sr := if w.warns k then w.sr ||| 1 else w.sr }

theorem setCounter_cr (w : Wwdg) (c c' : Nat) :
    ((w.setCounter c).setCounter c').cr = (w.setCounter c').cr := by
  refine BitVec.eq_of_getLsbD_eq fun i hi => ?_
  simp only [setCounter, BitVec.getLsbD_or, BitVec.getLsbD_and, BitVec.getLsbD_not]
  cases (0x7F#32).getLsbD i <;> simp

theorem count_eq (w : Wwdg) : w.count =
    ({ w.setCounter (w.counter - 1) with
        sr := if decide (w.counter = 0x41) && w.cfrEwi then w.sr ||| 1 else w.sr },
      decide (w.counter = 0x41) && w.cfrEwi) := by
  have same : decide (w.counter - 1 = 0x40) = decide (w.counter = 0x41) := decide_eq_decide.mpr (by omega)
  have ewi : (w.setCounter (w.counter - 1)).cfrEwi = w.cfrEwi := rfl
  have counter : (w.setCounter (w.counter - 1)).counter = w.counter - 1 := rfl
  simp only [count, ewi, counter, same]
  cases decide (w.counter = 0x41) && w.cfrEwi <;> rfl

theorem expires_zero (w : Wwdg) : w.expires 0 = false := decide_eq_false (by omega)

theorem warns_zero (w : Wwdg) : w.warns 0 = false := by
  rw [warns, decide_eq_false (by omega), Bool.false_and]

theorem made_zero (w : Wwdg) : w.made 0 = 0 := by
  rw [made, expires_zero, if_neg Bool.false_ne_true]

theorem loop_eq (w : Wwdg) (s k : Nat) : loop s k w =
    ({ w.counted k with accum := w.accum - w.made k * s }, w.warns k, w.expires k) := by
  induction k generalizing w with
  | zero =>
    simp [loop, counted, made_zero, warns_zero, expires_zero]
  | succ k ih =>
    have split (n : Nat) : w.accum - s - n * s = w.accum - (n + 1) * s := by
      rw [Nat.sub_sub, Nat.succ_mul, Nat.add_comm]
    rw [loop]
    by_cases zero : w.counter = 0
    · have late (n : Nat) : w.expires n = false := decide_eq_false (by omega)
      have early (n : Nat) : w.warns n = false := by
        rw [warns, decide_eq_false (by omega), Bool.false_and]
      rw [if_pos zero, ih]
      refine Prod.ext ?_ (Prod.ext (early k |>.trans (early _).symm) (late k |>.trans (late _).symm))
      refine Wwdg.ext ?_ rfl ?_ ?_ ?_
      · simp [counted, zero]
      · change (if w.warns k then w.sr ||| 1 else w.sr) = if w.warns (k + 1) then w.sr ||| 1 else w.sr
        rw [early, early]
      · simp [counted, zero]
      · change w.accum - s - w.made k * s = w.accum - w.made (k + 1) * s
        simp only [made, late, Bool.false_eq_true, if_false, split]
    rw [if_neg zero]
    obtain ⟨w', warned, one⟩ : ∃ w' warned, count { w with accum := w.accum - s } = (w', warned) :=
      ⟨_, _, rfl⟩
    have next := one.symm.trans (count_eq _)
    have counter : w'.counter = w.counter - 1 := congrArg (·.1.counter) next
    have cfr : w'.cfr = w.cfr := congrArg (·.1.cfr) next
    have cr : w'.cr = (w.setCounter (w.counter - 1)).cr := congrArg (·.1.cr) next
    have sr : w'.sr = if decide (w.counter = 0x41) && w.cfrEwi then w.sr ||| 1 else w.sr :=
      congrArg (·.1.sr) next
    have accum : w'.accum = w.accum - s := congrArg (·.1.accum) next
    obtain rfl : (decide (w.counter = 0x41) && w.cfrEwi) = warned := (congrArg (·.2) next).symm
    simp only [one]
    have ewi : w'.cfrEwi = w.cfrEwi := by rw [cfrEwi, cfr, cfrEwi]
    by_cases last : w.counter = 0x40
    · have expired : w.expires (k + 1) = true := decide_eq_true (by omega)
      have early : w.warns (k + 1) = false := by
        rw [warns, decide_eq_false (by omega), Bool.false_and]
      have not : decide (w.counter = 0x41) = false := decide_eq_false (by omega)
      have single : w.made (k + 1) = 1 := by
        rw [made, if_pos expired]
        omega
      rw [if_pos (by omega), not, early, expired, Bool.false_and]
      refine Prod.ext (Wwdg.ext ?_ cfr ?_ ?_ ?_) rfl
      · rw [cr]
        simp [counted, single, zero]
      · rw [sr, not]
        simp [counted, early]
      · rw [counter]
        simp [counted, single]
      · rw [accum]
        simp only [single, Nat.one_mul]
    · have later : w'.expires k = w.expires (k + 1) := by
        rw [expires, expires, counter]
        exact decide_eq_decide.mpr (by omega)
      have earlier : (decide (w.counter = 0x41) && w.cfrEwi || w'.warns k) = w.warns (k + 1) := by
        rw [warns, warns, counter, ewi, ← Bool.and_or_distrib_right, ← Bool.decide_or]
        congr 1
        exact decide_eq_decide.mpr (by omega)
      have rounds : w.made (k + 1) = w'.made k + 1 := by
        rw [made, made, later, counter]
        have := @decide_eq_true_iff (0x3F < w.counter ∧ w.counter - 0x3F ≤ k + 1) _
        split
        · rename_i expired
          have := this.mp expired
          omega
        · rfl
      rw [if_neg (by omega), ih, later, earlier]
      refine Prod.ext (Wwdg.ext ?_ cfr ?_ ?_ ?_) rfl
      · have cr' (c : Nat) : (w'.setCounter c).cr = (w.setCounter c).cr := by
          rw [← setCounter_cr w (w.counter - 1) c, setCounter, cr]
          rfl
        change (if k = 0 ∨ w'.counter = 0 then w'.cr
          else (w'.setCounter (w'.counter - w'.made k)).cr) =
          if k + 1 = 0 ∨ w.counter = 0 then w.cr
          else (w.setCounter (w.counter - w.made (k + 1))).cr
        rw [if_neg (by omega : ¬ (k + 1 = 0 ∨ w.counter = 0)), cr', counter, rounds]
        split
        · rename_i done
          have same : w.counter - (w'.made k + 1) = w.counter - 1 := by
            rcases done with none | none
            · rw [none, made_zero]
            · omega
          rw [cr, same]
        · congr 2
          omega
      · change (if w'.warns k then w'.sr ||| 1 else w'.sr) = if w.warns (k + 1) then w.sr ||| 1 else w.sr
        rw [← earlier, sr]
        cases decide (w.counter = 0x41) && w.cfrEwi <;> cases w'.warns k <;> simp [BitVec.or_assoc]
      · change w'.counter - w'.made k = w.counter - w.made (k + 1)
        rw [counter, rounds]
        omega
      · change w'.accum - w'.made k * s = w.accum - w.made (k + 1) * s
        rw [accum, rounds, split]

theorem step_pos (w : Wwdg) : 0 < w.step := Nat.mul_pos (by decide) (Nat.two_pow_pos _)

variable {clock : Bool} {w : Wwdg}

theorem advance_of_active (active : w.active clock = true) (n : Nat) : w.advance clock n =
    ({ w.counted ((w.accum + n) / w.step) with
        accum := w.accum + n - w.made ((w.accum + n) / w.step) * w.step },
      w.warns ((w.accum + n) / w.step), w.expires ((w.accum + n) / w.step)) := by
  rw [advance, if_pos active, loop_eq]
  rfl

theorem halted_of_not_active (idle : w.active clock = false) : Halted (Wwdg.advance clock) w :=
  fun n => by
    rw [advance, if_neg (by simp [idle])]
    rfl

def reachesIn (w : Wwdg) (c : Nat) : Nat := cyclesTo (w.counter - c) w.step w.accum

def warnsIn (clock : Bool) (w : Wwdg) : Option Nat :=
  if w.active clock && w.cfrEwi && 0x40 < w.counter then some (w.reachesIn 0x40) else none

def expiresIn (clock : Bool) (w : Wwdg) : Option Nat :=
  if w.active clock && 0x3F < w.counter then some (w.reachesIn 0x3F) else none

def SkipsExactly (clock : Bool) (cycles : Nat) (w : Wwdg) : Prop :=
  w.active clock = true → w.counter ≤ 0x3F → w.reachesIn 0 < cycles →
    w.step ∣ cycles - w.reachesIn 0

theorem reachesIn_le_iff (w : Wwdg) (c : Nat) {n : Nat} (hn : 0 < n) :
    w.reachesIn c ≤ n ↔ w.counter - c ≤ (w.accum + n) / w.step :=
  cyclesTo_le_iff w.step_pos hn

theorem signals_iff {n : Nat} (hn : 0 < n) :
    ((w.advance clock n).2.1 = true ↔ ∃ e ∈ w.warnsIn clock, e ≤ n) ∧
      ((w.advance clock n).2.2 = true ↔ ∃ e ∈ w.expiresIn clock, e ≤ n) := by
  cases active : w.active clock with
  | false =>
    rw [halted_of_not_active active n]
    simp [warnsIn, expiresIn, active]
  | true =>
    rw [advance_of_active active, warnsIn, expiresIn, active]
    have warn := w.reachesIn_le_iff 0x40 hn
    have expire := w.reachesIn_le_iff 0x3F hn
    constructor
    · cases ewi : w.cfrEwi <;> by_cases high : 0x40 < w.counter <;> simp [warns, ewi, high, warn]
    · by_cases high : 0x3F < w.counter <;> simp [expires, high, expire]

theorem made_of_not_expires {k : Nat} (runs : w.expires k = false) : w.made k = k := by
  rw [made, runs, if_neg Bool.false_ne_true]

theorem counted_add {p : Nat} (runs : w.expires p = false) (q : Nat) :
    (w.counted p).counted q = w.counted (p + q) ∧ w.made (p + q) = p + (w.counted p).made q ∧
      w.warns (p + q) = (w.warns p || (w.counted p).warns q) ∧
      w.expires (p + q) = (w.counted p).expires q := by
  have counter : (w.counted p).counter = w.counter - p := by
    rw [counted, made_of_not_expires runs]
  have ewi : (w.counted p).cfrEwi = w.cfrEwi := rfl
  have early : ¬ (0x3F < w.counter ∧ w.counter - 0x3F ≤ p) := of_decide_eq_false runs
  have later : w.expires (p + q) = (w.counted p).expires q := by
    rw [expires, expires, counter]
    exact decide_eq_decide.mpr (by omega)
  have made : w.made (p + q) = p + (w.counted p).made q := by
    rw [made, later, made, counter]
    have := @decide_eq_true_iff (0x3F < w.counter ∧ w.counter - 0x3F ≤ p + q) _
    split
    · rename_i expired
      have := this.mp (later.trans expired)
      omega
    · rfl
  have warned : w.warns (p + q) = (w.warns p || (w.counted p).warns q) := by
    rw [warns, warns, warns, counter, ewi, ← Bool.and_or_distrib_right, ← Bool.decide_or]
    congr 1
    exact decide_eq_decide.mpr (by omega)
  refine ⟨Wwdg.ext ?_ rfl ?_ ?_ rfl, made, warned, later⟩
  · have first : (w.counted p).cr =
        if p = 0 ∨ w.counter = 0 then w.cr else (w.setCounter (w.counter - p)).cr := by
      rw [counted, made_of_not_expires runs]
    have moved (c : Nat) : ((w.counted p).setCounter c).cr = (w.setCounter c).cr := by
      by_cases none : p = 0 ∨ w.counter = 0
      · rw [if_pos none] at first
        rw [setCounter, first]
        rfl
      · rw [if_neg none] at first
        rw [← setCounter_cr w (w.counter - p) c, setCounter, first]
        rfl
    change (if q = 0 ∨ (w.counted p).counter = 0 then (w.counted p).cr
      else ((w.counted p).setCounter ((w.counted p).counter - (w.counted p).made q)).cr) =
      if p + q = 0 ∨ w.counter = 0 then w.cr
      else (w.setCounter (w.counter - w.made (p + q))).cr
    rw [counter, made, moved, first]
    by_cases second : q = 0
    · rw [if_pos (.inl second), second, made_zero, Nat.add_zero]
    by_cases none : w.counter = 0
    · rw [if_pos (.inr (by omega)), if_pos (.inr none), if_pos (.inr none)]
    rw [if_neg (by omega : ¬ (p + q = 0 ∨ w.counter = 0))]
    by_cases done : w.counter - p = 0
    · rw [if_pos (.inr done), if_neg (by omega)]
      congr 2
      omega
    · rw [if_neg (by omega), Nat.sub_sub]
  · change (if (w.counted p).warns q then (w.counted p).sr ||| 1 else (w.counted p).sr) =
      if w.warns (p + q) then w.sr ||| 1 else w.sr
    rw [warned]
    change (if _ then (if w.warns p then w.sr ||| 1 else w.sr) ||| 1
      else if w.warns p then w.sr ||| 1 else w.sr) = _
    cases w.warns p <;> cases (w.counted p).warns q <;> simp [BitVec.or_assoc]
  · change (w.counted p).counter - (w.counted p).made q = w.counter - w.made (p + q)
    rw [counter, made]
    omega

theorem active_counted {p : Nat} (active : w.active clock = true) (runs : w.expires p = false) :
    (w.counted p).active clock = decide (p < w.counter) := by
  simp only [Wwdg.active, Bool.and_eq_true, bne_iff_ne, ne_eq] at active
  obtain ⟨⟨clocked, -⟩, wdga⟩ := active
  have kept : (w.counted p).cr.getLsbD 7 = true := by
    simp only [counted, setCounter]
    split
    · exact wdga
    · simp [wdga]
  have counter : (w.counted p).counter = w.counter - p := by
    rw [counted, made_of_not_expires runs]
  rw [Wwdg.active, counter, kept, clocked, Bool.true_and, Bool.and_true, Bool.eq_iff_iff,
    decide_eq_true_iff, bne_iff_ne]
  omega

theorem advance_splits {a : Nat} (runs : w.active clock = true →
      w.expires ((w.accum + a) / w.step) = false ∧ (w.accum + a) / w.step < w.counter) (b : Nat) :
    Splits (Wwdg.advance clock) w a b := by
  rw [Splits]
  cases active : w.active clock with
  | false =>
    have halted := halted_of_not_active active
    rw [halted, halted, halted, sup_idem]
  | true =>
    obtain ⟨early, low⟩ := runs active
    obtain ⟨ticks, acc⟩ := prescaled_add w.step w.accum a b
    obtain ⟨state, made, warned, expired⟩ := counted_add early
      (((w.accum + a) % w.step + b) / w.step)
    have first := advance_of_active active a
    have kept : w.accum + a - w.made ((w.accum + a) / w.step) * w.step = (w.accum + a) % w.step := by
      rw [made_of_not_expires early, Nat.mul_comm]
      exact (Nat.mod_eq_sub_mul_div ..).symm
    have still : (w.advance clock a).1.active clock = true := by
      rw [first]
      exact (active_counted active early).trans (decide_eq_true low)
    have second := advance_of_active still b
    rw [first, kept] at second
    have whole := advance_of_active active (a + b)
    rw [ticks, made] at whole
    have accum : w.accum + (a + b) - ((w.accum + a) / w.step + (w.counted ((w.accum + a) / w.step)).made
          (((w.accum + a) % w.step + b) / w.step)) * w.step =
        (w.accum + a) % w.step + b - (w.counted ((w.accum + a) / w.step)).made
          (((w.accum + a) % w.step + b) / w.step) * w.step := by
      have parts := Nat.mod_add_div (w.accum + a) w.step
      rw [Nat.add_mul, Nat.mul_comm ((w.accum + a) / w.step)]
      omega
    refine Prod.ext ?_ (Prod.ext ?_ ?_)
    · change (w.advance clock (a + b)).1 = ((w.advance clock a).1.advance clock b).1
      rw [first, kept, second, whole, accum, ← state]
      rfl
    · change (w.advance clock (a + b)).2.1 =
        ((w.advance clock a).2.1 || ((w.advance clock a).1.advance clock b).2.1)
      rw [first, kept, second, whole]
      exact warned
    · change (w.advance clock (a + b)).2.2 =
        ((w.advance clock a).2.2 || ((w.advance clock a).1.advance clock b).2.2)
      rw [first, kept, second, whole, early, Bool.false_or]
      exact expired

theorem quiet_of_low (low : w.counter ≤ 0x3F) (n : Nat) : (w.advance clock n).2 = ⊥ := by
  cases active : w.active clock with
  | false => rw [halted_of_not_active active n]
  | true =>
    rw [advance_of_active active, warns, expires, decide_eq_false (by omega), decide_eq_false (by omega),
      Bool.false_and]
    rfl

theorem counter_advance (active : w.active clock = true) (n : Nat) :
    (w.advance clock n).1.counter = w.counter - w.made ((w.accum + n) / w.step) := by
  rw [advance_of_active active]
  rfl

variable (clock) in
theorem signals_advance_add (w : Wwdg) (a b : Nat) :
    (w.advance clock (a + b)).2 = (w.advance clock a).2 ⊔ ((w.advance clock a).1.advance clock b).2 := by
  by_cases runs : w.active clock = true →
      w.expires ((w.accum + a) / w.step) = false ∧ (w.accum + a) / w.step < w.counter
  · exact congrArg Prod.snd (advance_splits runs b)
  rw [Classical.not_imp] at runs
  obtain ⟨active, ends⟩ := runs
  have counter := counter_advance active a
  rcases Nat.lt_or_ge 0x3F w.counter with high | low
  · -- the reset has been requested
    have expired : w.expires ((w.accum + a) / w.step) = true := by
      cases expires : w.expires ((w.accum + a) / w.step) with
      | true => rfl
      | false =>
        have := of_decide_eq_false expires
        exact absurd ⟨expires, by omega⟩ ends
    rw [made, if_pos expired] at counter
    have reached := of_decide_eq_true expired
    rw [quiet_of_low (w := (w.advance clock a).1) (by omega), sup_bot_eq, advance_of_active active,
      advance_of_active active, (prescaled_add w.step w.accum a b).1]
    generalize ((w.accum + a) % w.step + b) / w.step = more
    refine Prod.ext ?_ ?_
    · simp only [warns]
      congr 1
      exact decide_eq_decide.mpr (by omega)
    · simp only [expires]
      exact decide_eq_decide.mpr (by omega)
  · rw [quiet_of_low low, quiet_of_low low, quiet_of_low (w := (w.advance clock a).1) (by omega),
      sup_idem]

variable (clock) in
theorem advance_signalsSplit : SignalsSplit (Wwdg.advance clock) :=
  fun w a b _ _ => signals_advance_add clock w a b

theorem halted_of_ended (low : w.counter ≤ 0x3F) (active : w.active clock = true) {n : Nat}
    (hn : 0 < n) (ended : w.reachesIn 0 ≤ n) : Halted (Wwdg.advance clock) (w.advance clock n).1 := by
  refine halted_of_not_active ?_
  have counter := counter_advance active n
  have done := (w.reachesIn_le_iff 0 hn).mp ended
  have runs : w.expires ((w.accum + n) / w.step) = false := decide_eq_false (by omega)
  rw [made_of_not_expires runs] at counter
  have zero : (w.advance clock n).1.counter = 0 := by omega
  simp [Wwdg.active, zero]

theorem splits_before {n : Nat} (reset : ∀ e ∈ w.expiresIn clock, n ≤ e)
    (runs : w.active clock = true → w.counter ≤ 0x3F → n ≤ w.reachesIn 0) :
    ∀ a, 0 < a → a < n → Splits (Wwdg.advance clock) w a 1 := by
  intro a ha lt
  refine advance_splits (fun active => ?_) 1
  rcases Nat.lt_or_ge 0x3F w.counter with high | low
  · have late := reset (w.reachesIn 0x3F) (by simp [expiresIn, active, high])
    have := mt (w.reachesIn_le_iff 0x3F ha).mpr (by omega)
    exact ⟨decide_eq_false (by omega), by omega⟩
  · have late := runs active low
    have := mt (w.reachesIn_le_iff 0 ha).mpr (by omega)
    exact ⟨decide_eq_false (by omega), by omega⟩

theorem cycles_of_ended (low : w.counter ≤ 0x3F) (active : w.active clock = true) {n : Nat}
    (ended : w.reachesIn 0 ≤ n) :
    cycles (Wwdg.advance clock) n w = w.advance clock (w.reachesIn 0) := by
  have hz : 0 < w.reachesIn 0 := cyclesTo_pos _ _ _
  have first : cycles (Wwdg.advance clock) (w.reachesIn 0) w = w.advance clock (w.reachesIn 0) := by
    refine cycles_eq_tick hz (splits_before (fun e mem => ?_) fun _ _ => Nat.le_refl _)
    simp only [expiresIn] at mem
    rw [if_neg (by simp; omega)] at mem
    cases mem
  rw [cycles_of_halts ended, first]
  rw [first]
  exact halted_of_ended low active hz (Nat.le_refl _)

theorem advance_of_ended (low : w.counter ≤ 0x3F) (active : w.active clock = true) {n : Nat}
    (done : w.counter ≤ (w.accum + n) / w.step) : (w.advance clock n).1 =
      { w with counter := 0, cr := (w.setCounter 0).cr, accum := (w.accum + n) % w.step } := by
  have runs (k : Nat) : w.expires k = false := decide_eq_false (by omega)
  have quiet (k : Nat) : w.warns k = false := by
    rw [warns, decide_eq_false (by omega), Bool.false_and]
  have some : w.counter ≠ 0 := fun none => by
    rw [Wwdg.active, none] at active
    simp at active
  have left (m : Nat) : w.accum + m - (w.accum + m) / w.step * w.step = (w.accum + m) % w.step := by
    rw [Nat.mul_comm]
    exact (Nat.mod_eq_sub_mul_div ..).symm
  rw [advance_of_active active]
  simp only [counted, made_of_not_expires (runs _), quiet, Bool.false_eq_true, if_false, left]
  rw [if_neg (by omega), Nat.sub_eq_zero_of_le done]

theorem accum_advance_eq_iff (low : w.counter ≤ 0x3F) (active : w.active clock = true) {z n : Nat}
    (done : w.counter ≤ (w.accum + z) / w.step) (le : z ≤ n) :
    (w.advance clock z).1.accum = (w.advance clock n).1.accum ↔ w.step ∣ n - z := by
  have later := Nat.le_trans done (Nat.div_le_div_right (c := w.step) (Nat.add_le_add_left le w.accum))
  rw [advance_of_ended low active done, advance_of_ended low active later]
  exact eq_comm.trans (prescaled_mod_eq_iff le)

theorem advance_eq_advance_iff (low : w.counter ≤ 0x3F) (active : w.active clock = true) {z n : Nat}
    (done : w.counter ≤ (w.accum + z) / w.step) (le : z ≤ n) :
    (w.advance clock z).1 = (w.advance clock n).1 ↔ w.step ∣ n - z := by
  have later := Nat.le_trans done (Nat.div_le_div_right (c := w.step) (Nat.add_le_add_left le w.accum))
  rw [← accum_advance_eq_iff low active done le, advance_of_ended low active done,
    advance_of_ended low active later, Wwdg.mk.injEq]
  simp only [true_and]

theorem cycles_eq_advance_iff {n : Nat} (hn : 0 < n) (reset : ∀ e ∈ w.expiresIn clock, n ≤ e) :
    (cycles (Wwdg.advance clock) n w).1 = (w.advance clock n).1 ↔ w.SkipsExactly clock n := by
  by_cases ends : w.active clock = true ∧ w.counter ≤ 0x3F ∧ w.reachesIn 0 < n
  · obtain ⟨active, low, lt⟩ := ends
    have hz : 0 < w.reachesIn 0 := cyclesTo_pos _ _ _
    have done := (w.reachesIn_le_iff 0 hz).mp (Nat.le_refl _)
    rw [cycles_of_ended low active (Nat.le_of_lt lt),
      advance_eq_advance_iff low active done (Nat.le_of_lt lt)]
    exact ⟨fun divides _ _ _ => divides, fun exact => exact active low lt⟩
  · refine ⟨fun _ active low lt => absurd ⟨active, low, lt⟩ ends, fun _ => ?_⟩
    rw [cycles_eq_tick hn]
    refine splits_before reset fun active low => Nat.le_of_not_lt fun lt => ?_
    exact ends ⟨active, low, lt⟩

theorem halted_of_not_skipsExactly {n : Nat} (hn : 0 < n) (parts : ¬ w.SkipsExactly clock n) :
    Halted (Wwdg.advance clock) (cycles (Wwdg.advance clock) n w).1 ∧
      Halted (Wwdg.advance clock) (w.advance clock n).1 := by
  simp only [SkipsExactly, Classical.not_imp] at parts
  obtain ⟨active, low, lt, -⟩ := parts
  rw [cycles_of_ended low active (Nat.le_of_lt lt)]
  exact ⟨halted_of_ended low active (cyclesTo_pos _ _ _) (Nat.le_refl _),
    halted_of_ended low active hn (Nat.le_of_lt lt)⟩

/-- Short of a reset, two parts leave the same unless the first ends at 0 and the second does not end
with a count. -/
theorem splitsUnless_iff (clock : Bool) (w : Wwdg) (a b : Nat) :
    SplitsUnless (Wwdg.advance clock) (fun signals => signals.2 = true) (fun w => (w.counter, w.accum))
        a b w ↔
      (w.active clock = true → w.counter ≤ 0x3F → w.counter ≤ (w.accum + a) / w.step →
        w.step ∣ b) := by
  by_cases ends : w.active clock = true ∧ w.counter ≤ 0x3F ∧ w.counter ≤ (w.accum + a) / w.step
  · obtain ⟨active, low, done⟩ := ends
    have le : a ≤ a + b := Nat.le_add_right a b
    have later := Nat.le_trans done
      (Nat.div_le_div_right (c := w.step) (Nat.add_le_add_left le w.accum))
    have idle : (w.advance clock a).1.active clock = false := by
      rw [advance_of_ended low active done]
      simp [Wwdg.active]
    have halted := halted_of_not_active idle
    have same := accum_advance_eq_iff low active done le
    rw [Nat.add_sub_cancel_left] at same
    constructor
    · intro splits _ _ _
      have left := splits.left (by rw [quiet_of_low low]; exact Bool.false_ne_true)
      rw [twice, halted] at left
      exact same.mp (congrArg Prod.snd left)
    · intro divides
      refine ⟨(signals_advance_add clock w a b).symm, fun _ => ?_⟩
      rw [twice, halted]
      refine Prod.ext ?_ (same.mpr (divides active low done))
      rw [advance_of_ended low active done, advance_of_ended low active later]
  · refine ⟨fun _ active low done => absurd ⟨active, low, done⟩ ends, fun _ => ?_⟩
    refine ⟨(signals_advance_add clock w a b).symm, fun runs => ?_⟩
    have splits : Splits (Wwdg.advance clock) w a b := by
      refine advance_splits (fun active => ?_) b
      rw [advance_of_active active, Bool.not_eq_true] at runs
      have early := of_decide_eq_false runs
      have le := Nat.div_le_div_right (c := w.step)
        (Nat.add_le_add_left (Nat.le_add_right a b) w.accum)
      rcases Nat.lt_or_ge 0x3F w.counter with high | low
      · exact ⟨decide_eq_false (by omega), by omega⟩
      · exact ⟨decide_eq_false (by omega), Nat.lt_of_not_le fun done => ends ⟨active, low, done⟩⟩
    exact congrArg (fun r => (r.1.counter, r.1.accum)) splits.symm

def budget (clock : Bool) (w : Wwdg) : Option Nat :=
  if w.active clock && 0x3F < w.counter then some ((w.counter - 0x3F) * w.step - w.accum) else none

def writeCr (clock : Bool) (value : Word) (w : Wwdg) : Wwdg :=
  if clock then { w with cr := value &&& 0xFF, counter := (value &&& 0xFF &&& 0x7F).toNat } else w

def resetTick (clock : Bool) (cycles : Nat) (w : Wwdg) : Wwdg × Bool :=
  ((w.tick clock cycles).1, (w.tick clock cycles).2.2)

theorem deadline (clock : Bool) :
    Deadline (fun n w => ((w.advance clock n).1, (w.advance clock n).2.2)) (Wwdg.budget clock) where
  fires w n := by
    simp only [budget]
    cases active : w.active clock with
    | false =>
      rw [halted_of_not_active active]
      simp
    | true =>
      rw [advance_of_active active, expires, decide_eq_true_eq, Nat.le_div_iff_mul_le w.step_pos]
      by_cases high : 0x3F < w.counter <;> simp [high]
      omega
  after w n quiet := by
    change (w.advance clock n).2.2 = false at quiet
    change (w.advance clock n).1.budget clock = (w.budget clock).map (· - n)
    cases active : w.active clock with
    | false =>
      rw [halted_of_not_active active]
      simp [budget, active]
    | true =>
      rw [advance_of_active active] at quiet
      have counter := counter_advance active n
      rw [made_of_not_expires quiet] at counter
      by_cases high : 0x3F < w.counter
      · have early := of_decide_eq_false quiet
        have still : (w.advance clock n).1.active clock = true := by
          rw [advance_of_active active]
          exact (active_counted active quiet).trans (decide_eq_true (by omega))
        have step : (w.advance clock n).1.step = w.step := by
          rw [advance_of_active active]
          rfl
        have accum : (w.advance clock n).1.accum = (w.accum + n) % w.step := by
          rw [advance_of_active active, made_of_not_expires quiet, Nat.mul_comm]
          exact (Nat.mod_eq_sub_mul_div ..).symm
        have more : 0x3F < (w.advance clock n).1.counter := by omega
        have before : w.budget clock = some ((w.counter - 0x3F) * w.step - w.accum) :=
          if_pos (by simp [active, high])
        have after : (w.advance clock n).1.budget clock = some
            ((w.counter - (w.accum + n) / w.step - 0x3F) * w.step - (w.accum + n) % w.step) := by
          rw [budget, if_pos (by simp [still, more]), step, accum, counter]
        rw [before, after, Option.map_some, Nat.sub_right_comm, prescaled_left]
      · have le : (w.advance clock n).1.counter ≤ w.counter := counter ▸ Nat.sub_le _ _
        have low : ¬ 0x3F < (w.advance clock n).1.counter := by omega
        simp [budget, high, low]

theorem tick_eq_advance {n : Nat} (room : w.accum + n < 2 ^ 64) :
    w.tick clock n = w.advance clock n := by
  rw [tick, advance, Nat.mod_eq_of_lt room]

theorem tick_of_active (active : w.active clock = true) (n : Nat) :
    w.tick clock n = { w with accum := 0 }.advance clock ((w.accum + n) % 2 ^ 64) := by
  have same : Wwdg.active clock { w with accum := 0 } = true := active
  rw [tick, advance, if_pos active, if_pos same]
  simp only [Nat.zero_add]
  rfl

theorem patient (clock : Bool) : Patient (Wwdg.resetTick clock) (Wwdg.budget clock) := by
  refine (deadline clock).patient fun w n inTime => ?_
  cases active : w.active clock with
  | false =>
    refine ⟨w, n, ?_, fun e mem => ⟨e, mem, Nat.le_refl _⟩⟩
    simp only [resetTick, tick, advance, active, Bool.false_eq_true, if_false]
  | true =>
    refine ⟨{ w with accum := 0 }, (w.accum + n) % 2 ^ 64, ?_, fun e₀ mem₀ => ?_⟩
    · simp only [resetTick, tick_of_active active]
    have less := Nat.mod_le (w.accum + n) (2 ^ 64)
    by_cases high : 0x3F < w.counter
    · have before : w.budget clock = some ((w.counter - 0x3F) * w.step - w.accum) :=
        if_pos (by simp [active, high])
      have whole : e₀ = (w.counter - 0x3F) * w.step - 0 := by
        have given : budget clock { w with accum := 0 } = _ := if_pos (by
          have same : Wwdg.active clock { w with accum := 0 } = true := active
          simp [same, high])
        exact Option.some.inj (mem₀.symm.trans given)
      have := inTime _ before
      exact ⟨_, before, by omega⟩
    · have none : budget clock { w with accum := 0 } = none := if_neg (by simp [high])
      rw [none] at mem₀
      cases mem₀

theorem accum_advance_le (clock : Bool) (w : Wwdg) (n : Nat) :
    (w.advance clock n).1.accum ≤ w.accum + n := by
  cases active : w.active clock with
  | false =>
    rw [halted_of_not_active active]
    exact Nat.le_add_right ..
  | true =>
    rw [advance_of_active active]
    exact Nat.sub_le ..

end Wwdg

/-- `iwdg_state`, with the register that the tick reads. -/
structure Iwdg where
  pr : Word
  running : Bool
  counter : Nat
  accum : Nat
  deriving DecidableEq

namespace Iwdg

def prescDiv (w : Iwdg) : Nat := [4, 8, 16, 32, 64, 128, 256, 256].getD (w.pr &&& 0x7).toNat 0

/-- `cycles_per_tick` for a clock of `cpuHz`. -/
def cyclesPerTick (cpuHz : Nat) (w : Iwdg) : Nat :=
  let ticksPerSec := 32000 / w.prescDiv
  let ticksPerSec := if ticksPerSec = 0 then 1 else ticksPerSec
  let cpuHz := if cpuHz = 0 then 1 else cpuHz
  let perTick := cpuHz / ticksPerSec
  if perTick = 0 then 1 else perTick

def loop (step : Nat) : Nat → Iwdg → Iwdg × Bool
  | 0, w => (w, false)
  | n + 1, w =>
    let w := { w with accum := w.accum - step, counter := w.counter - 1 }
    if w.counter = 0 then (w, true) else loop step n w

/-- The part of `mm_stm32h563_watchdog_tick` for the independent watchdog; the sum is of 64 bits. -/
def tick (cpuHz cycles : Nat) (w : Iwdg) : Iwdg × Bool :=
  if w.running then
    let total := (w.accum + cycles) % 2 ^ 64
    loop (w.cyclesPerTick cpuHz) (total / w.cyclesPerTick cpuHz) { w with accum := total }
  else (w, false)

def advance (cpuHz cycles : Nat) (w : Iwdg) : Iwdg × Bool :=
  if w.running then
    loop (w.cyclesPerTick cpuHz) ((w.accum + cycles) / w.cyclesPerTick cpuHz)
      { w with accum := w.accum + cycles }
  else (w, false)

def left (w : Iwdg) : Nat := max 1 w.counter

def expiresIn (cpuHz : Nat) (w : Iwdg) : Option Nat :=
  if w.running then some (cyclesTo w.left (w.cyclesPerTick cpuHz) w.accum) else none

variable {cpuHz : Nat} {w : Iwdg}

theorem loop_eq (w : Iwdg) (s k : Nat) : loop s k w =
    ({ w with counter := w.counter - min k w.left, accum := w.accum - min k w.left * s },
      decide (w.left ≤ k)) := by
  induction k generalizing w with
  | zero =>
    have early : ¬ w.left ≤ 0 := by
      rw [left]
      omega
    simp [loop, early]
  | succ k ih =>
    rw [loop]
    by_cases last : w.counter - 1 = 0
    · have one : w.left = 1 := by
        rw [left]
        omega
      simp only [last, if_true, one]
      rw [Nat.min_eq_right (by omega), decide_eq_true (by omega), last, Nat.one_mul]
    · have more : w.left = left { w with accum := w.accum - s, counter := w.counter - 1 } + 1 := by
        simp only [left]
        omega
      simp only [last, if_false, ih, more]
      generalize left _ = l
      have rounds : min (k + 1) (l + 1) = min k l + 1 := by omega
      rw [rounds, Nat.succ_mul, Nat.sub_sub, Nat.sub_sub, Nat.add_comm s, Nat.add_comm 1]
      congr 1
      exact decide_eq_decide.mpr (by omega)

theorem cyclesPerTick_pos (cpuHz : Nat) (w : Iwdg) : 0 < w.cyclesPerTick cpuHz := by
  have pos (n : Nat) : 0 < if n = 0 then 1 else n := by
    split <;> omega
  exact pos _

variable (cpuHz) in
theorem advance_of_running (running : w.running = true) (n : Nat) : w.advance cpuHz n =
    let counts := min ((w.accum + n) / w.cyclesPerTick cpuHz) w.left
    ({ w with
        counter := w.counter - counts
        accum := w.accum + n - counts * w.cyclesPerTick cpuHz },
      decide (w.left ≤ (w.accum + n) / w.cyclesPerTick cpuHz)) := by
  rw [advance, if_pos running, loop_eq]
  rfl

variable (cpuHz) in
theorem halted_of_not_running (idle : w.running = false) : Halted (Iwdg.advance cpuHz) w :=
  fun n => by
    rw [advance, if_neg (by simp [idle])]
    rfl

theorem expires_iff {n : Nat} (hn : 0 < n) :
    (w.advance cpuHz n).2 = true ↔ ∃ e ∈ w.expiresIn cpuHz, e ≤ n := by
  cases running : w.running with
  | false =>
    rw [halted_of_not_running cpuHz running n]
    simp [expiresIn, running]
  | true =>
    rw [advance_of_running cpuHz running, expiresIn, running]
    simp [cyclesTo_le_iff (w.cyclesPerTick_pos cpuHz) hn]

theorem advance_splits {a : Nat} (runs : w.running = true →
      (w.accum + a) / w.cyclesPerTick cpuHz < w.left) (b : Nat) :
    Splits (Iwdg.advance cpuHz) w a b := by
  rw [Splits]
  cases running : w.running with
  | false =>
    have halted := halted_of_not_running cpuHz running
    rw [halted, halted, halted, sup_idem]
  | true =>
    obtain ⟨k, count⟩ : ∃ k, (w.accum + a) / w.cyclesPerTick cpuHz = k := ⟨_, rfl⟩
    obtain ⟨k', count'⟩ : ∃ k',
      ((w.accum + a) % w.cyclesPerTick cpuHz + b) / w.cyclesPerTick cpuHz = k' := ⟨_, rfl⟩
    have early : k < w.left := count ▸ runs running
    have parts := Nat.mod_add_div (w.accum + a) (w.cyclesPerTick cpuHz)
    rw [count, Nat.mul_comm] at parts
    obtain ⟨w', first⟩ : ∃ w', w' = { w with
      counter := w.counter - k, accum := (w.accum + a) % w.cyclesPerTick cpuHz } := ⟨_, rfl⟩
    have before : w.advance cpuHz a = (w', false) := by
      rw [advance_of_running cpuHz running, count, Nat.min_eq_left (Nat.le_of_lt early),
        decide_eq_false (Nat.not_le_of_lt early), first]
      refine Prod.ext ?_ rfl
      simp only [Iwdg.mk.injEq, true_and]
      omega
    have running' : w'.running = true := first ▸ running
    have same : w'.cyclesPerTick cpuHz = w.cyclesPerTick cpuHz := first ▸ rfl
    have accum : w'.accum = (w.accum + a) % w.cyclesPerTick cpuHz := first ▸ rfl
    have rest : w'.left = w.left - k := by
      simp only [first, left] at early ⊢
      omega
    have rounds : min (k + k') w.left = k + min k' (w.left - k) := by omega
    rw [before, advance_of_running cpuHz running, advance_of_running cpuHz running', (prescaled_add _ w.accum a b).1,
      same, accum, count, count', rest, rounds]
    refine Prod.ext ?_ ?_
    · simp only [first, Iwdg.mk.injEq, true_and, Nat.add_mul]
      omega
    · change decide (w.left ≤ k + k') = (false || decide (w.left - k ≤ k'))
      rw [Bool.false_or]
      exact decide_eq_decide.mpr (by omega)

theorem expires_advance (w : Iwdg) (n : Nat) : (w.advance cpuHz n).2 =
    (w.running && decide (w.left ≤ (w.accum + n) / w.cyclesPerTick cpuHz)) := by
  cases running : w.running with
  | false => rw [halted_of_not_running cpuHz running n, Bool.false_and]; rfl
  | true => rw [advance_of_running cpuHz running, Bool.true_and]

variable (cpuHz) in
theorem signals_advance_add (w : Iwdg) (a b : Nat) :
    (w.advance cpuHz (a + b)).2 = ((w.advance cpuHz a).2 ⊔ ((w.advance cpuHz a).1.advance cpuHz b).2) := by
  by_cases runs : w.running = true → (w.accum + a) / w.cyclesPerTick cpuHz < w.left
  · exact congrArg Prod.snd (advance_splits runs b)
  rw [Classical.not_imp] at runs
  obtain ⟨running, ends⟩ := runs
  have expired (n : Nat) (le : a ≤ n) : (w.advance cpuHz n).2 = true := by
    have := Nat.div_le_div_right (c := w.cyclesPerTick cpuHz) (Nat.add_le_add_left le w.accum)
    rw [expires_advance, running, Bool.true_and, decide_eq_true_eq]
    omega
  rw [expired (a + b) (Nat.le_add_right a b), expired a (Nat.le_refl a)]
  rfl

variable (cpuHz) in
theorem advance_signalsSplit : SignalsSplit (Iwdg.advance cpuHz) :=
  fun w a b _ _ => signals_advance_add cpuHz w a b

theorem cycles_eq_advance {n : Nat} (hn : 0 < n) (reset : ∀ e ∈ w.expiresIn cpuHz, n ≤ e) :
    cycles (Iwdg.advance cpuHz) n w = w.advance cpuHz n := by
  refine Lib.cycles_eq_tick hn fun a ha lt => advance_splits (fun running => ?_) 1
  have late := reset (cyclesTo w.left (w.cyclesPerTick cpuHz) w.accum)
    (by simp [expiresIn, running])
  have early : a < cyclesTo w.left (w.cyclesPerTick cpuHz) w.accum := by omega
  rw [← Nat.not_le, cyclesTo_le_iff (w.cyclesPerTick_pos cpuHz) ha] at early
  exact Nat.lt_of_not_le early

theorem splitsUnless (cpuHz : Nat) (w : Iwdg) (a b : Nat) :
    SplitsUnless (Iwdg.advance cpuHz) (fun reset => reset = true) (fun w => (w.counter, w.accum))
      a b w := by
  refine ⟨(signals_advance_add cpuHz w a b).symm, fun runs => ?_⟩
  have splits : Splits (Iwdg.advance cpuHz) w a b := by
    refine advance_splits (fun running => ?_) b
    rw [expires_advance, running, Bool.true_and, decide_eq_true_eq, Nat.not_le] at runs
    refine Nat.lt_of_le_of_lt (Nat.div_le_div_right ?_) runs
    exact Nat.add_le_add_left (Nat.le_add_right a b) w.accum
  exact congrArg (fun r => (r.1.counter, r.1.accum)) splits.symm

def budget (cpuHz : Nat) (w : Iwdg) : Option Nat :=
  if w.running then some (w.left * w.cyclesPerTick cpuHz - w.accum) else none

/-- `iwdg_apply_key` with `rlr` in RLR, but for the write access that 0x5555 gives. -/
def applyKey (rlr key : Word) (w : Iwdg) : Iwdg :=
  if key = 0xAAAA then { w with counter := (rlr &&& 0x0FFF).toNat }
  else if key = 0xCCCC then { w with running := true, counter := (rlr &&& 0x0FFF).toNat }
  else w

theorem deadline (cpuHz : Nat) : Deadline (Iwdg.advance cpuHz) (Iwdg.budget cpuHz) where
  fires w n := by
    rw [expires_advance, budget]
    cases running : w.running with
    | false => simp
    | true =>
      simp only [Bool.true_and, decide_eq_true_eq, Nat.le_div_iff_mul_le (w.cyclesPerTick_pos cpuHz)]
      simp
      omega
  after w n quiet := by
    rw [expires_advance] at quiet
    cases running : w.running with
    | false =>
      rw [halted_of_not_running cpuHz running]
      simp [budget, running]
    | true =>
      rw [running, Bool.true_and, decide_eq_false_iff_not, Nat.not_le] at quiet
      obtain ⟨q, hq⟩ : ∃ q, (w.accum + n) / w.cyclesPerTick cpuHz = q := ⟨_, rfl⟩
      have next := advance_of_running cpuHz running n
      have rest : w.accum + n - q * w.cyclesPerTick cpuHz = (w.accum + n) % w.cyclesPerTick cpuHz := by
        rw [← hq, Nat.mul_comm]
        exact (Nat.mod_eq_sub_mul_div ..).symm
      rw [hq] at quiet
      simp only [hq, Nat.min_eq_left (Nat.le_of_lt quiet), rest] at next
      have left : (w.advance cpuHz n).1.left = w.left - q := by
        rw [next]
        simp only [left] at quiet ⊢
        omega
      have before : w.budget cpuHz = some (w.left * w.cyclesPerTick cpuHz - w.accum) :=
        if_pos running
      have after : (w.advance cpuHz n).1.budget cpuHz =
          some ((w.left - q) * w.cyclesPerTick cpuHz - (w.accum + n) % w.cyclesPerTick cpuHz) := by
        rw [← left, next]
        exact if_pos running
      rw [before, after, ← hq, Option.map_some, prescaled_left]

theorem tick_eq_advance {n : Nat} (room : w.accum + n < 2 ^ 64) :
    w.tick cpuHz n = w.advance cpuHz n := by
  rw [tick, advance, Nat.mod_eq_of_lt room]

theorem patient (cpuHz : Nat) : Patient (Iwdg.tick cpuHz) (Iwdg.budget cpuHz) := by
  refine (deadline cpuHz).patient fun w n inTime => ?_
  cases running : w.running with
  | false =>
    refine ⟨w, n, ?_, fun e mem => ⟨e, mem, Nat.le_refl _⟩⟩
    simp only [tick, advance, running, Bool.false_eq_true, if_false]
  | true =>
    have given : budget cpuHz { w with accum := 0 } = some (w.left * w.cyclesPerTick cpuHz - 0) :=
      if_pos running
    have before : w.budget cpuHz = some (w.left * w.cyclesPerTick cpuHz - w.accum) := if_pos running
    refine ⟨{ w with accum := 0 }, (w.accum + n) % 2 ^ 64, ?_, fun e₀ mem₀ => ?_⟩
    · simp only [tick, advance, running, if_true, Nat.zero_add]
      rfl
    have less := Nat.mod_le (w.accum + n) (2 ^ 64)
    have := inTime _ before
    obtain rfl := Option.some.inj (mem₀.symm.trans given)
    exact ⟨_, before, by omega⟩

theorem accum_advance_le (cpuHz : Nat) (w : Iwdg) (n : Nat) :
    (w.advance cpuHz n).1.accum ≤ w.accum + n := by
  cases running : w.running with
  | false =>
    rw [halted_of_not_running cpuHz running]
    exact Nat.le_add_right ..
  | true =>
    rw [advance_of_running cpuHz running]
    exact Nat.sub_le ..

end Iwdg

end M33mu
