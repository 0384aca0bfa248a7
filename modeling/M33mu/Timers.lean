import M33mu.Lib.Prescaler
import M33mu.Lib.Ticker
import M33mu.Types
import Mathlib.Order.BooleanAlgebra.Basic

namespace M33mu

open Lib

/-- `tim_inst`. The size of a timer is one more than its `arr_mask`. -/
@[ext] structure Tim where
  cr1 : Word
  dier : Word
  sr : Word
  cnt : Nat
  psc : Nat
  arr : Nat
  pscAccum : Nat
  deriving DecidableEq

namespace Tim

def cr1Cen (t : Tim) : Bool := t.cr1.getLsbD 0

def cr1Udis (t : Tim) : Bool := t.cr1.getLsbD 1

def cr1Opm (t : Tim) : Bool := t.cr1.getLsbD 3

def cr1Dir (t : Tim) : Bool := t.cr1.getLsbD 4

def dierUie (t : Tim) : Bool := t.dier.getLsbD 0

/-- `tim_raise_update`, and whether it pends the interrupt. -/
def raiseUpdate (t : Tim) : Tim × Bool :=
  if t.cr1Udis then (t, false)
  else
    ({ t with
        sr := t.sr ||| 1
        cr1 := if t.cr1Opm then t.cr1 &&& ~~~1#32 else t.cr1 }, t.dierUie)

def applyTickUp (size : Nat) (t : Tim) (ticks : Nat) : Tim × Bool :=
  if ticks = 0 then (t, false)
  else
    let arr := t.arr % size
    let cnt := min (t.cnt % size) arr
    let period := arr + 1
    let toOverflow := arr - cnt + 1
    if toOverflow ≤ ticks then
      let remaining := ticks - toOverflow
      { t with cnt := (if period ≤ remaining then remaining % period else remaining) % size }.raiseUpdate
    else ({ t with cnt := (cnt + ticks) % size }, false)

def applyTickDown (size : Nat) (t : Tim) (ticks : Nat) : Tim × Bool :=
  if ticks = 0 then (t, false)
  else
    let arr := t.arr % size
    let cnt := min (t.cnt % size) arr
    let period := arr + 1
    let toUnderflow := cnt + 1
    if toUnderflow ≤ ticks then
      let remaining := ticks - toUnderflow
      let remaining := if period ≤ remaining then remaining % period else remaining
      { t with cnt := (if remaining = 0 then arr else arr - remaining) % size }.raiseUpdate
    else ({ t with cnt := (cnt - ticks) % size }, false)

/-- `t->psc + 1u`. -/
def div (t : Tim) : Nat := (t.psc + 1) % 2 ^ 32

def counting (clock : Bool) (t : Tim) : Bool := t.cr1Cen && clock && t.div != 0

/-- `tim_tick`; the sum is of 64 bits. -/
def tick (size : Nat) (clock : Bool) (cycles : Nat) (t : Tim) : Tim × Bool :=
  if t.counting clock then
    let total := (t.pscAccum + cycles) % 2 ^ 64
    let ticks := total / t.div
    let t' := { t with pscAccum := total % t.div }
    if t.cr1Dir then t'.applyTickDown size ticks else t'.applyTickUp size ticks
  else (t, false)

/-- `tim_tick` while its sum does not wrap. -/
def advance (size : Nat) (clock : Bool) (cycles : Nat) (t : Tim) : Tim × Bool :=
  if t.counting clock then
    let total := t.pscAccum + cycles
    let ticks := total / t.div
    let t' := { t with pscAccum := total % t.div }
    if t.cr1Dir then t'.applyTickDown size ticks else t'.applyTickUp size ticks
  else (t, false)

def period (size : Nat) (t : Tim) : Nat := t.arr % size + 1

def position (size : Nat) (t : Tim) : Nat :=
  let cnt := min (t.cnt % size) (t.arr % size)
  if t.cr1Dir then t.arr % size - cnt else cnt

def moveTo (size : Nat) (t : Tim) (p : Nat) : Tim :=
  { t with cnt := if t.cr1Dir then t.arr % size - p else p }

def stopsAtUpdate (t : Tim) : Bool := t.cr1Opm && !t.cr1Udis

def overflows (size : Nat) (t : Tim) (ticks : Nat) : Bool :=
  decide (t.period size ≤ t.position size + ticks)

def counted (size : Nat) (t : Tim) (ticks : Nat) : Tim :=
  { t with
    sr := if t.overflows size ticks && !t.cr1Udis then t.sr ||| 1 else t.sr
    cr1 := if t.overflows size ticks && t.stopsAtUpdate then t.cr1 &&& ~~~1#32 else t.cr1
    cnt := if ticks = 0 then t.cnt
      else (t.moveTo size ((t.position size + ticks) % t.period size)).cnt }

def raises (size : Nat) (t : Tim) (ticks : Nat) : Bool :=
  t.overflows size ticks && !t.cr1Udis && t.dierUie

def updateIn (size : Nat) (t : Tim) : Nat :=
  cyclesTo (t.period size - t.position size) t.div t.pscAccum

def raisesIn (size : Nat) (clock : Bool) (t : Tim) : Option Nat :=
  if t.counting clock && !t.cr1Udis && t.dierUie then some (t.updateIn size) else none

variable {size : Nat} {clock : Bool} {t : Tim}

theorem position_lt_period (size : Nat) (t : Tim) : t.position size < t.period size := by
  rw [position, period]
  split <;> omega

theorem raiseUpdate_withCnt (t : Tim) (cnt : Nat) : { t with cnt := cnt }.raiseUpdate =
    ({ t with
        sr := if !t.cr1Udis then t.sr ||| 1 else t.sr
        cr1 := if t.stopsAtUpdate then t.cr1 &&& ~~~1#32 else t.cr1
        cnt := cnt }, !t.cr1Udis && t.dierUie) := by
  have udis : Tim.cr1Udis { t with cnt := cnt } = t.cr1Udis := rfl
  rw [raiseUpdate, udis, stopsAtUpdate]
  cases t.cr1Udis with
  | false => simp [cr1Opm, dierUie]
  | true => simp

theorem applyTick_eq (hs : 0 < size) (ticks : Nat) :
    (if t.cr1Dir then t.applyTickDown size ticks else t.applyTickUp size ticks) =
      (t.counted size ticks, t.raises size ticks) := by
  obtain ⟨arr, top⟩ : ∃ arr, t.arr % size = arr := ⟨_, rfl⟩
  obtain ⟨cnt, low⟩ : ∃ cnt, min (t.cnt % size) arr = cnt := ⟨_, rfl⟩
  have bound : arr < size := top ▸ Nat.mod_lt _ hs
  have below : cnt ≤ arr := by omega
  have wrapped (n : Nat) : (if arr + 1 ≤ n then n % (arr + 1) else n) = n % (arr + 1) := by
    split
    · rfl
    · exact (Nat.mod_eq_of_lt (by omega)).symm
  have inside (n : Nat) : n % (arr + 1) < size := by
    have below : n % (arr + 1) < arr + 1 := Nat.mod_lt _ (Nat.succ_pos arr)
    omega
  by_cases none : ticks = 0
  · have early : t.overflows size 0 = false := decide_eq_false (by
      have := t.position_lt_period size
      omega)
    simp [applyTickDown, applyTickUp, counted, raises, none, early]
  simp only [applyTickDown, applyTickUp, counted, raises, overflows, position, period, moveTo, top,
    low, none, if_false, wrapped]
  cases dir : t.cr1Dir with
  | false =>
    simp only [Bool.false_eq_true, if_false]
    by_cases passed : arr + 1 ≤ cnt + ticks
    · have left : ticks - (arr - cnt + 1) = cnt + ticks - (arr + 1) := by omega
      rw [if_pos (by omega), left, ← Nat.mod_eq_sub_mod passed, Nat.mod_eq_of_lt (inside _),
        decide_eq_true passed]
      simp only [raiseUpdate_withCnt, Bool.true_and]
    · rw [if_neg (by omega), Nat.mod_eq_of_lt (a := cnt + ticks) (b := size) (by omega),
        Nat.mod_eq_of_lt (a := cnt + ticks) (b := arr + 1) (by omega), decide_eq_false passed]
      simp
  | true =>
    simp only [if_true]
    by_cases passed : arr + 1 ≤ arr - cnt + ticks
    · have left : ticks - (cnt + 1) = arr - cnt + ticks - (arr + 1) := by omega
      have value (p : Nat) : (if p = 0 then arr else arr - p) % size = arr - p := by
        split
        · rw [Nat.mod_eq_of_lt bound]
          omega
        · exact Nat.mod_eq_of_lt (by omega)
      rw [if_pos (by omega), left, ← Nat.mod_eq_sub_mod passed, value, decide_eq_true passed]
      simp only [raiseUpdate_withCnt, Bool.true_and]
    · have value : (cnt - ticks) % size = arr - (arr - cnt + ticks) := by
        rw [Nat.mod_eq_of_lt (by omega)]
        omega
      rw [if_neg (by omega), value,
        Nat.mod_eq_of_lt (a := arr - cnt + ticks) (b := arr + 1) (by omega), decide_eq_false passed]
      simp

theorem advance_of_counting (hs : 0 < size) (counting : t.counting clock = true) (n : Nat) :
    t.advance size clock n =
      (counted size { t with pscAccum := (t.pscAccum + n) % t.div } ((t.pscAccum + n) / t.div),
        t.raises size ((t.pscAccum + n) / t.div)) := by
  rw [advance, if_pos counting]
  exact applyTick_eq (t := { t with pscAccum := (t.pscAccum + n) % t.div }) hs _

variable (size) in
theorem halted_of_not_counting (stopped : t.counting clock = false) :
    Halted (Tim.advance size clock) t := fun n => by
  rw [advance, if_neg (by simp [stopped])]
  rfl

theorem div_pos (counting : t.counting clock = true) : 0 < t.div := by
  simp only [Tim.counting, Bool.and_eq_true, bne_iff_ne, ne_eq] at counting
  omega

theorem counted_withAccum (t : Tim) (acc ticks : Nat) :
    counted size { t with pscAccum := acc } ticks = { t.counted size ticks with pscAccum := acc } :=
  rfl

theorem cr1_counted (t : Tim) (ticks : Nat) : (t.counted size ticks).cr1 =
    if t.overflows size ticks && t.stopsAtUpdate then t.cr1 &&& ~~~1#32 else t.cr1 := rfl

theorem sr_counted (t : Tim) (ticks : Nat) : (t.counted size ticks).sr =
    if t.overflows size ticks && !t.cr1Udis then t.sr ||| 1 else t.sr := rfl

theorem cnt_counted (t : Tim) (ticks : Nat) : (t.counted size ticks).cnt =
    if ticks = 0 then t.cnt
    else (t.moveTo size ((t.position size + ticks) % t.period size)).cnt := rfl

variable (size) in
theorem control_counted (t : Tim) (ticks : Nat) :
    (t.counted size ticks).cr1Udis = t.cr1Udis ∧ (t.counted size ticks).cr1Opm = t.cr1Opm ∧
      (t.counted size ticks).cr1Dir = t.cr1Dir ∧
      (t.counted size ticks).cr1Cen =
        (t.cr1Cen && !(t.overflows size ticks && t.stopsAtUpdate)) := by
  simp only [cr1Udis, cr1Opm, cr1Dir, cr1Cen, counted]
  cases t.overflows size ticks && t.stopsAtUpdate <;> simp

theorem stopsAtUpdate_counted (t : Tim) (ticks : Nat) :
    (t.counted size ticks).stopsAtUpdate = t.stopsAtUpdate := by
  obtain ⟨udis, opm, -⟩ := t.control_counted size ticks
  rw [stopsAtUpdate, udis, opm]
  rfl

variable (size clock) in
theorem counting_counted (t : Tim) (ticks : Nat) : (t.counted size ticks).counting clock =
    (t.counting clock && !(t.overflows size ticks && t.stopsAtUpdate)) := by
  obtain ⟨-, -, -, cen⟩ := t.control_counted size ticks
  have div : (t.counted size ticks).div = t.div := rfl
  rw [Tim.counting, cen, div, Tim.counting]
  cases t.cr1Cen <;> cases clock <;> cases t.div != 0 <;> simp

theorem position_counted (hs : 0 < size) (t : Tim) (ticks : Nat) :
    (t.counted size ticks).position size = (t.position size + ticks) % t.period size := by
  obtain ⟨-, -, dir, -⟩ := t.control_counted size ticks
  have arr : t.arr % size < size := Nat.mod_lt _ hs
  by_cases none : ticks = 0
  · subst none
    rw [Nat.add_zero, Nat.mod_eq_of_lt (t.position_lt_period size)]
    simp only [position, dir]
    simp [counted]
  · obtain ⟨arr', top⟩ : ∃ arr', t.arr % size = arr' := ⟨_, rfl⟩
    obtain ⟨v, moved⟩ : ∃ v, (t.position size + ticks) % t.period size = v := ⟨_, rfl⟩
    have small : v ≤ arr' := moved ▸ top ▸ Nat.le_of_lt_succ (Nat.mod_lt _ (Nat.succ_pos _))
    rw [position, dir]
    simp only [counted, none, if_false, moveTo, top, moved]
    cases t.cr1Dir with
    | false =>
      simp only [Bool.false_eq_true, if_false]
      rw [Nat.mod_eq_of_lt (by omega), Nat.min_eq_left small]
    | true =>
      simp only [if_true]
      rw [Nat.mod_eq_of_lt (by omega), Nat.min_eq_left (Nat.sub_le _ _)]
      omega

theorem overflows_add (hs : 0 < size) (t : Tim) (p q : Nat) : t.overflows size (p + q) =
    (t.overflows size p || (t.counted size p).overflows size q) := by
  have period : (t.counted size p).period size = t.period size := rfl
  simp only [overflows, position_counted hs, period]
  by_cases passed : t.period size ≤ t.position size + p
  · simp only [passed, decide_true, Bool.true_or, decide_eq_true_eq]
    omega
  · rw [Nat.mod_eq_of_lt (by omega), decide_eq_false passed, Bool.false_or, Nat.add_assoc]

theorem counted_add (hs : 0 < size) (t : Tim) (p q : Nat) :
    (t.counted size p).counted size q = t.counted size (p + q) ∧
      t.raises size (p + q) = (t.raises size p || (t.counted size p).raises size q) := by
  obtain ⟨udis, -, dir, -⟩ := t.control_counted size p
  have period : (t.counted size p).period size = t.period size := rfl
  have uie : (t.counted size p).dierUie = t.dierUie := rfl
  have moved (v : Nat) : ((t.counted size p).moveTo size v).cnt = (t.moveTo size v).cnt := by
    simp only [moveTo, dir]
    rfl
  constructor
  · have passed := overflows_add hs t p q
    refine Tim.ext ?_ rfl ?_ ?_ rfl rfl rfl
    · rw [cr1_counted, cr1_counted t (p + q), passed, stopsAtUpdate_counted, cr1_counted t p]
      cases t.overflows size p <;> cases (t.counted size p).overflows size q <;>
        cases t.stopsAtUpdate <;> simp [BitVec.and_assoc]
    · rw [sr_counted, sr_counted t (p + q), passed, udis, sr_counted t p]
      cases t.overflows size p <;> cases (t.counted size p).overflows size q <;>
        cases t.cr1Udis <;> simp [BitVec.or_assoc]
    · rw [cnt_counted, cnt_counted t (p + q), position_counted hs, period, moved, Nat.mod_add_mod,
        Nat.add_assoc]
      by_cases last : q = 0
      · rw [if_pos last, last, Nat.add_zero, cnt_counted]
      · rw [if_neg last, if_neg (by omega)]
  · rw [raises, overflows_add hs, raises, raises, udis, uie]
    cases t.overflows size p <;> cases t.cr1Udis <;> cases t.dierUie <;> simp

def stopped (size : Nat) (t : Tim) (cycles : Nat) : Bool :=
  t.overflows size ((t.pscAccum + cycles) / t.div) && t.stopsAtUpdate

theorem counting_advance (hs : 0 < size) (counting : t.counting clock = true) (n : Nat) :
    (t.advance size clock n).1.counting clock = !t.stopped size n := by
  rw [advance_of_counting hs counting]
  have counted := counting_counted size clock
    { t with pscAccum := (t.pscAccum + n) % t.div } ((t.pscAccum + n) / t.div)
  have same : Tim.counting clock { t with pscAccum := (t.pscAccum + n) % t.div } = true := counting
  rw [same, Bool.true_and] at counted
  exact counted

theorem advance_splits (hs : 0 < size) {a : Nat}
    (runs : t.counting clock = true → t.stopped size a = false) (b : Nat) :
    Splits (Tim.advance size clock) t a b := by
  rw [Splits]
  cases counting : t.counting clock with
  | false =>
    have halted := halted_of_not_counting size counting
    rw [halted, halted, halted, sup_idem]
  | true =>
    have still : (t.advance size clock a).1.counting clock = true := by
      rw [counting_advance hs counting, runs counting]
      rfl
    obtain ⟨ticks, acc⟩ := prescaled_add t.div t.pscAccum a b
    obtain ⟨state, signal⟩ := counted_add hs t ((t.pscAccum + a) / t.div)
      (((t.pscAccum + a) % t.div + b) / t.div)
    have first := advance_of_counting hs counting a
    have second := advance_of_counting hs still b
    rw [first] at second
    refine Prod.ext ?_ ?_
    · change (t.advance size clock (a + b)).1 = ((t.advance size clock a).1.advance size clock b).1
      rw [first, second, advance_of_counting hs counting, ticks, acc, counted_withAccum, ← state]
      rfl
    · change (t.advance size clock (a + b)).2 =
        ((t.advance size clock a).2 || ((t.advance size clock a).1.advance size clock b).2)
      rw [first, second, advance_of_counting hs counting, ticks, signal]
      rfl

variable (size) in
theorem updateIn_le_iff (counting : t.counting clock = true) {n : Nat} (hn : 0 < n) :
    t.updateIn size ≤ n ↔ t.overflows size ((t.pscAccum + n) / t.div) = true := by
  have := t.position_lt_period size
  rw [updateIn, cyclesTo_le_iff (div_pos counting) hn, overflows, decide_eq_true_eq]
  omega

theorem raises_iff (hs : 0 < size) {n : Nat} (hn : 0 < n) :
    (t.advance size clock n).2 = true ↔ ∃ e ∈ t.raisesIn size clock, e ≤ n := by
  cases counting : t.counting clock with
  | false =>
    rw [halted_of_not_counting size counting n]
    simp [raisesIn, counting]
  | true =>
    rw [advance_of_counting hs counting, raises, raisesIn, counting]
    have update := updateIn_le_iff size counting hn
    cases t.cr1Udis <;> cases t.dierUie <;> simp [update]

variable (clock) in
theorem advance_signalsSplit (hs : 0 < size) : SignalsSplit (Tim.advance size clock) := by
  intro t a b ha hb
  by_cases runs : t.counting clock = true → t.stopped size a = false
  · exact congrArg Prod.snd (advance_splits hs runs b)
  · -- the pulse has ended, and the timer has signalled all that it will
    simp only [Classical.not_imp, Bool.not_eq_false] at runs
    obtain ⟨counting, stopped⟩ := runs
    have halted := halted_of_not_counting size (t := (t.advance size clock a).1) (by
      rw [counting_advance hs counting, stopped]
      rfl)
    have passed : t.overflows size ((t.pscAccum + a) / t.div) = true := by
      rw [Tim.stopped, Bool.and_eq_true] at stopped
      exact stopped.1
    rw [halted b, sup_bot_eq, advance_of_counting hs counting, advance_of_counting hs counting,
      (prescaled_add t.div t.pscAccum a b).1]
    simp only [raises, overflows_add hs, passed, Bool.true_or]

def SkipsExactly (size : Nat) (clock : Bool) (cycles : Nat) (t : Tim) : Prop :=
  t.counting clock = true → t.stopsAtUpdate = true → t.updateIn size < cycles →
    t.div * t.period size ∣ cycles - t.updateIn size

theorem moveTo_cnt_inj {p q : Nat} (hp : p < t.period size) (hq : q < t.period size) :
    (t.moveTo size p).cnt = (t.moveTo size q).cnt ↔ p = q := by
  rw [period] at hp hq
  simp only [moveTo]
  split <;> omega

theorem cnt_advance_eq_iff (hs : 0 < size) (counting : t.counting clock = true) {u n : Nat}
    (passed : t.overflows size ((t.pscAccum + u) / t.div) = true) (le : u ≤ n) :
    (t.advance size clock u).1.cnt = (t.advance size clock n).1.cnt ∧
        (t.advance size clock u).1.pscAccum = (t.advance size clock n).1.pscAccum ↔
      t.div * t.period size ∣ n - u := by
  have hd := div_pos counting
  have moved (m : Nat) (hm : u ≤ m) : (t.pscAccum + m) / t.div ≠ 0 := fun none => by
    have := Nat.div_le_div_right (c := t.div) (Nat.add_le_add_left hm t.pscAccum)
    have := t.position_lt_period size
    rw [overflows, decide_eq_true_eq] at passed
    omega
  have inside (k : Nat) : (t.position size + k) % t.period size < t.period size :=
    Nat.mod_lt _ (Nat.succ_pos _)
  rw [advance_of_counting hs counting, advance_of_counting hs counting]
  simp only [counted_withAccum, cnt_counted, if_neg (moved u (Nat.le_refl u)), if_neg (moved n le),
    moveTo_cnt_inj (inside _) (inside _)]
  have acc := prescaled_mod_eq_iff (d := t.div) (c := t.pscAccum) le
  constructor
  · rintro ⟨position, remainder⟩
    obtain ⟨c, eq⟩ := acc.mp remainder.symm
    have ticks : (t.pscAccum + n) / t.div = (t.pscAccum + u) / t.div + c := by
      rw [← Nat.add_mul_div_left _ _ hd, ← eq]
      congr 1
      omega
    rw [ticks, eq_comm, prescaled_mod_eq_iff (Nat.le_add_right _ _), Nat.add_sub_cancel_left]
      at position
    rw [eq]
    exact Nat.mul_dvd_mul_left _ position
  · rintro ⟨c, eq⟩
    rw [Nat.mul_assoc] at eq
    have ticks : (t.pscAccum + n) / t.div = (t.pscAccum + u) / t.div + t.period size * c := by
      rw [← Nat.add_mul_div_left _ _ hd, ← eq]
      congr 1
      omega
    refine ⟨?_, (acc.mpr ⟨_, eq⟩).symm⟩
    rw [ticks, ← Nat.add_assoc, Nat.add_mul_mod_self_left]

theorem overflows_mono {p q : Nat} (le : p ≤ q) (passed : t.overflows size p = true) :
    t.overflows size q = true := by
  rw [overflows, decide_eq_true_eq] at passed ⊢
  omega

theorem advance_eq_advance_iff (hs : 0 < size) (counting : t.counting clock = true) {u n : Nat}
    (passed : t.overflows size ((t.pscAccum + u) / t.div) = true) (le : u ≤ n) :
    t.advance size clock u = t.advance size clock n ↔ t.div * t.period size ∣ n - u := by
  rw [← cnt_advance_eq_iff hs counting passed le]
  constructor
  · intro same
    exact ⟨congrArg (fun r => r.1.cnt) same, congrArg (fun r => r.1.pscAccum) same⟩
  · rintro ⟨cnt, acc⟩
    have later := overflows_mono
      (Nat.div_le_div_right (c := t.div) (Nat.add_le_add_left le t.pscAccum)) passed
    rw [advance_of_counting hs counting, advance_of_counting hs counting] at cnt acc ⊢
    refine Prod.ext (Tim.ext ?_ rfl ?_ cnt rfl rfl acc) ?_
    · simp only [counted_withAccum, cr1_counted, passed, later]
    · simp only [counted_withAccum, sr_counted, passed, later]
    · simp only [raises, passed, later]

theorem splits_before (hs : 0 < size) {n : Nat}
    (runs : t.counting clock = true → t.stopsAtUpdate = true → n ≤ t.updateIn size) :
    ∀ a, 0 < a → a < n → Splits (Tim.advance size clock) t a 1 := by
  intro a ha lt
  refine advance_splits hs (fun counting => ?_) 1
  rw [stopped, Bool.and_eq_false_iff]
  cases stops : t.stopsAtUpdate with
  | false => exact .inr rfl
  | true =>
    have late : ¬ t.updateIn size ≤ a := by
      have := runs counting stops
      omega
    rw [updateIn_le_iff size counting ha, Bool.not_eq_true] at late
    exact .inl late

theorem halted_of_ended (hs : 0 < size) (counting : t.counting clock = true)
    (stops : t.stopsAtUpdate = true) {n : Nat} (hn : 0 < n) (ended : t.updateIn size ≤ n) :
    Halted (Tim.advance size clock) (t.advance size clock n).1 := by
  refine halted_of_not_counting size ?_
  rw [counting_advance hs counting, stopped, (updateIn_le_iff size counting hn).mp ended, stops]
  rfl

theorem cycles_of_ended (hs : 0 < size) (counting : t.counting clock = true)
    (stops : t.stopsAtUpdate = true) {n : Nat} (ended : t.updateIn size ≤ n) :
    cycles (Tim.advance size clock) n t = t.advance size clock (t.updateIn size) := by
  have hu : 0 < t.updateIn size := cyclesTo_pos _ _ _
  have first : cycles (Tim.advance size clock) (t.updateIn size) t = t.advance size clock (t.updateIn size) :=
    cycles_eq_tick hu (splits_before hs fun _ _ => Nat.le_refl _)
  rw [cycles_of_halts ended, first]
  rw [first]
  exact halted_of_ended hs counting stops hu (Nat.le_refl _)

theorem cycles_eq_advance_iff (hs : 0 < size) {n : Nat} (hn : 0 < n) :
    (cycles (Tim.advance size clock) n t).1 = (t.advance size clock n).1 ↔
      t.SkipsExactly size clock n := by
  by_cases ends : t.counting clock = true ∧ t.stopsAtUpdate = true ∧ t.updateIn size < n
  · obtain ⟨counting, stops, lt⟩ := ends
    have hu : 0 < t.updateIn size := cyclesTo_pos _ _ _
    have passed := (updateIn_le_iff size counting hu).mp (Nat.le_refl _)
    have same := advance_eq_advance_iff hs counting passed (Nat.le_of_lt lt)
    rw [cycles_of_ended hs counting stops (Nat.le_of_lt lt)]
    refine ⟨fun eq _ _ _ => ?_, fun exact => congrArg Prod.fst (same.mpr (exact counting stops lt))⟩
    refine (cnt_advance_eq_iff hs counting passed (Nat.le_of_lt lt)).mp ?_
    exact ⟨congrArg Tim.cnt eq, congrArg Tim.pscAccum eq⟩
  · refine ⟨fun _ counting stops lt => absurd ⟨counting, stops, lt⟩ ends, fun _ => ?_⟩
    rw [cycles_eq_tick hn]
    refine splits_before hs fun counting stops => Nat.le_of_not_lt fun lt => ?_
    exact ends ⟨counting, stops, lt⟩

theorem halted_of_not_skipsExactly (hs : 0 < size) {n : Nat} (hn : 0 < n)
    (parts : ¬ t.SkipsExactly size clock n) :
    Halted (Tim.advance size clock) (cycles (Tim.advance size clock) n t).1 ∧
      Halted (Tim.advance size clock) (t.advance size clock n).1 := by
  simp only [SkipsExactly, Classical.not_imp] at parts
  obtain ⟨counting, stops, lt, -⟩ := parts
  rw [cycles_of_ended hs counting stops (Nat.le_of_lt lt)]
  exact ⟨halted_of_ended hs counting stops (cyclesTo_pos _ _ _) (Nat.le_refl _),
    halted_of_ended hs counting stops hn (Nat.le_of_lt lt)⟩

def tickTwice (size : Nat) (clock : Bool) (a b : Nat) (t : Tim) : Tim × Bool :=
  let first := t.tick size clock a
  let second := first.1.tick size clock b
  (second.1, first.2 || second.2)

structure SameProgress (r r' : Tim × Bool) : Prop where
  cnt : r.1.cnt = r'.1.cnt
  pscAccum : r.1.pscAccum = r'.1.pscAccum
  cen : r.1.cr1Cen = r'.1.cr1Cen
  uif : r.1.sr.getLsbD 0 = r'.1.sr.getLsbD 0
  pending : r.2 = r'.2

theorem SameProgress.of_eq {r r' : Tim × Bool} (eq : r = r') : SameProgress r r' := by
  subst eq
  exact ⟨rfl, rfl, rfl, rfl, rfl⟩

theorem tick_eq_advance {n : Nat} (room : t.pscAccum + n < 2 ^ 64) :
    t.tick size clock n = t.advance size clock n := by
  rw [tick, advance, Nat.mod_eq_of_lt room]

theorem pscAccum_advance_le (hs : 0 < size) (n : Nat) :
    (t.advance size clock n).1.pscAccum ≤ t.pscAccum + n := by
  cases counting : t.counting clock with
  | false =>
    rw [halted_of_not_counting size counting]
    exact Nat.le_add_right ..
  | true =>
    rw [advance_of_counting hs counting]
    exact Nat.mod_le ..

theorem tickTwice_eq (hs : 0 < size) {a b : Nat} (room : t.pscAccum + a + b < 2 ^ 64) :
    t.tickTwice size clock a b = twice (Tim.advance size clock) a b t := by
  have left : (t.advance size clock a).1.pscAccum ≤ t.pscAccum + a := pscAccum_advance_le hs a
  simp only [tickTwice, tick_eq_advance (Nat.lt_of_le_of_lt (Nat.le_add_right _ b) room)]
  rw [tick_eq_advance (by omega)]
  rfl

/-- A timer may be advanced in two parts, whose sums do not wrap, exactly where it does not stop
within the first, or the second is whole periods. -/
theorem tickTwice_same_iff (w : Nat) (clock : Bool) (t : Tim) (a b : Nat)
    (room : t.pscAccum + a + b < 2 ^ 64) :
    SameProgress (t.tickTwice (2 ^ w) clock a b) (t.tick (2 ^ w) clock (a + b)) ↔
      (t.counting clock = true → t.stopped (2 ^ w) a = true →
        t.div * t.period (2 ^ w) ∣ b) := by
  have hs : 0 < 2 ^ w := Nat.two_pow_pos w
  rw [tickTwice_eq hs room, tick_eq_advance (Nat.add_assoc .. ▸ room)]
  by_cases ends : t.counting clock = true ∧ t.stopped (2 ^ w) a = true
  · obtain ⟨counting, stopped⟩ := ends
    have halted := halted_of_not_counting (2 ^ w) (t := (t.advance (2 ^ w) clock a).1) (by
      rw [counting_advance hs counting, stopped]
      rfl)
    have passed : t.overflows (2 ^ w) ((t.pscAccum + a) / t.div) = true := by
      rw [Tim.stopped, Bool.and_eq_true] at stopped
      exact stopped.1
    have once : twice (Tim.advance (2 ^ w) clock) a b t = t.advance (2 ^ w) clock a := by
      simp only [twice, halted b]
      exact Prod.ext rfl (Bool.or_false _)
    have le : a ≤ a + b := Nat.le_add_right a b
    rw [once]
    constructor
    · intro same _ _
      have divides := (cnt_advance_eq_iff hs counting passed le).mp ⟨same.cnt, same.pscAccum⟩
      rwa [Nat.add_sub_cancel_left] at divides
    · intro divides
      refine SameProgress.of_eq ((advance_eq_advance_iff hs counting passed le).mpr ?_)
      rw [Nat.add_sub_cancel_left]
      exact divides counting stopped
  · refine ⟨fun _ counting stopped => absurd ⟨counting, stopped⟩ ends, fun _ => ?_⟩
    refine SameProgress.of_eq (Eq.symm (advance_splits hs (fun counting => ?_) b))
    exact Bool.eq_false_iff.mpr fun stopped => ends ⟨counting, stopped⟩

/-- A one-pulse timer of 4 values that has run for 2 cycles of its pulse stops 2 cycles later; in
whole periods the rest may be any number of cycles. -/
theorem tickTwice_same_pulse :
    let t : Tim := { cr1 := 9, dier := 1, sr := 0, cnt := 2, psc := 1, arr := 3, pscAccum := 1 }
    SameProgress (t.tickTwice (2 ^ 32) true 3 (8 * 2 ^ 60)) (t.tick (2 ^ 32) true (3 + 8 * 2 ^ 60)) ∧
      ¬ SameProgress (t.tickTwice (2 ^ 32) true 3 (2 ^ 60 + 1))
        (t.tick (2 ^ 32) true (3 + (2 ^ 60 + 1))) :=
  ⟨(tickTwice_same_iff 32 true _ 3 (8 * 2 ^ 60) (by decide)).mpr fun _ _ => by decide,
    fun same => absurd ((tickTwice_same_iff 32 true _ 3 (2 ^ 60 + 1) (by decide)).mp same (by decide)
      (by decide)) (by decide)⟩

theorem not_tickTwice_same :
    let t : Tim := { cr1 := 9, dier := 0, sr := 0, cnt := 0, psc := 0, arr := 3, pscAccum := 0 }
    (t.tickTwice (2 ^ 32) true 4 1).1.cnt = 0 ∧ (t.tick (2 ^ 32) true 5).1.cnt = 1 ∧
      ¬ SameProgress (t.tickTwice (2 ^ 32) true 4 1) (t.tick (2 ^ 32) true 5) :=
  ⟨by decide, by decide, fun same => absurd same.cnt (by decide)⟩

example :
    let t : Tim := { cr1 := 1, dier := 0, sr := 0, cnt := 0, psc := 1, arr := 3, pscAccum := 1 }
    (t.tickTwice (2 ^ 32) true (2 ^ 64 - 2) 1).1.sr = 1 ∧
      (t.tick (2 ^ 32) true (2 ^ 64 - 1)).1.sr = 0 := by decide

end Tim

end M33mu
