import M33mu.Lib.Prescaler
import M33mu.Lib.Ticker
import M33mu.Lib.Wrapping
import M33mu.Types
import Mathlib.Order.BooleanAlgebra.Basic

namespace M33mu

open Lib

/-- `timer_state`, of its registers those that a tick reads. -/
@[ext] structure NrfTimer where
  bitmode : Word
  prescaler : Word
  intenset : Word
  eventsCompare : Fin 6 → Word
  cc : Fin 6 → Word
  counter : Word
  accum : Nat
  running : Bool

namespace NrfTimer

def bitmask (t : NrfTimer) : Word :=
  let mode := t.bitmode &&& 0x3
  if mode = 0 then 0xFFFF
  else if mode = 1 then 0xFF
  else if mode = 2 then 0xFFFFFF
  else 0xFFFFFFFF

/-- `1ull << prescaler`. -/
def div (t : NrfTimer) : Nat := 2 ^ (t.prescaler &&& 0xF).toNat

/-- `timer_raise_irq` for the channels that `timer_set_event` sets. -/
def raiseIrq (t : NrfTimer) (raised : Fin 6 → Bool) : Bool :=
  decide (∃ ch : Fin 6, raised ch = true ∧ t.intenset.getLsbD ch = true)

/-- `timer_set_event` for the channels in `raised`. -/
def setEvents (t : NrfTimer) (raised : Fin 6 → Bool) : NrfTimer :=
  { t with eventsCompare := fun ch => if raised ch then 1 else t.eventsCompare ch }

abbrev Signals := (Fin 6 → Bool) × Bool

/-- `mm_nrf5340_timers_tick` for one timer; the sum is of 64 bits. -/
def tick (hfRunning : Bool) (cycles : Nat) (t : NrfTimer) : NrfTimer × Signals :=
  if t.running && hfRunning then
    let total := (t.accum + cycles) % 2 ^ 64
    let ticks := total / t.div
    let t' := { t with accum := total % t.div }
    if ticks = 0 then (t', fun _ => false, false)
    else
      let mask := t.bitmask
      let old := t.counter
      let now := (old + BitVec.ofNat 32 ticks) &&& mask
      let raised := fun ch => crosses old.toNat now.toNat (t.cc ch &&& mask).toNat
      ({ t' with counter := now }.setEvents raised, raised, t.raiseIrq raised)
  else (t, fun _ => false, false)

def advance (hfRunning : Bool) (cycles : Nat) (t : NrfTimer) : NrfTimer × Signals :=
  if t.running && hfRunning then
    let total := t.accum + cycles
    let ticks := total / t.div
    let t' := { t with accum := total % t.div }
    if ticks = 0 then (t', fun _ => false, false)
    else
      let mask := t.bitmask
      let old := t.counter
      let now := (old + BitVec.ofNat 32 ticks) &&& mask
      let raised := fun ch => crosses old.toNat now.toNat (t.cc ch &&& mask).toNat
      ({ t' with counter := now }.setEvents raised, raised, t.raiseIrq raised)
  else (t, fun _ => false, false)

def modulus (t : NrfTimer) : Nat := t.bitmask.toNat + 1

/-- `t->cc[ch] & mask`. -/
def compare (t : NrfTimer) (ch : Fin 6) : Nat := (t.cc ch &&& t.bitmask).toNat

def ticks (hfRunning : Bool) (t : NrfTimer) (cycles : Nat) : Nat :=
  if t.running && hfRunning then (t.accum + cycles) / t.div else 0

variable {t : NrfTimer} {hf : Bool}

theorem bitmask_eq (t : NrfTimer) :
    ∃ w, 2 ^ w ∣ 2 ^ 32 ∧ 1 < 2 ^ w ∧ t.bitmask.toNat = 2 ^ w - 1 := by
  simp only [bitmask]
  split
  · exact ⟨16, by decide, by decide, rfl⟩
  · split
    · exact ⟨8, by decide, by decide, rfl⟩
    · split
      · exact ⟨24, by decide, by decide, rfl⟩
      · exact ⟨32, by decide, by decide, rfl⟩

theorem one_lt_modulus (t : NrfTimer) : 1 < t.modulus := by
  obtain ⟨w, -, lt, eq⟩ := t.bitmask_eq
  rw [modulus, eq]
  omega

theorem toNat_and_bitmask (t : NrfTimer) (v : Word) :
    (v &&& t.bitmask).toNat = v.toNat % t.modulus := by
  obtain ⟨w, -, lt, eq⟩ := t.bitmask_eq
  rw [BitVec.toNat_and, modulus, eq, Nat.and_two_pow_sub_one_eq_mod]
  congr 1
  omega

theorem compare_lt (t : NrfTimer) (ch : Fin 6) : t.compare ch < t.modulus := by
  rw [compare, toNat_and_bitmask]
  exact Nat.mod_lt _ (Nat.lt_trans Nat.zero_lt_one t.one_lt_modulus)

theorem toNat_counted (t : NrfTimer) (k : Nat) :
    ((t.counter + BitVec.ofNat 32 k) &&& t.bitmask).toNat =
      (t.counter.toNat + k) % t.modulus := by
  obtain ⟨w, divides, lt, eq⟩ := t.bitmask_eq
  have size : t.modulus = 2 ^ w := by
    rw [modulus, eq]
    omega
  rw [toNat_and_bitmask, size, BitVec.toNat_add, BitVec.toNat_ofNat, Nat.mod_mod_of_dvd _ divides,
    Nat.add_mod, Nat.mod_mod_of_dvd _ divides, ← Nat.add_mod]

def counted (t : NrfTimer) (acc k : Nat) (raised : Fin 6 → Bool) : NrfTimer × Signals :=
  ({ t with
      accum := acc
      counter := if k = 0 then t.counter else (t.counter + BitVec.ofNat 32 k) &&& t.bitmask
      eventsCompare := fun ch => if raised ch then 1 else t.eventsCompare ch },
    raised, t.raiseIrq raised)

def found (t : NrfTimer) (k : Nat) (ch : Fin 6) : Bool :=
  k != 0 && crosses t.counter.toNat ((t.counter.toNat + k) % t.modulus) (t.compare ch)

theorem raiseIrq_none (t : NrfTimer) : t.raiseIrq (fun _ => false) = false := by
  simp [raiseIrq]

theorem advance_of_running (on : t.running && hf) (n : Nat) : t.advance hf n =
    t.counted ((t.accum + n) % t.div) ((t.accum + n) / t.div) (t.found ((t.accum + n) / t.div)) := by
  rw [advance, if_pos on]
  simp only [counted]
  by_cases none : (t.accum + n) / t.div = 0
  · have quiet : t.found 0 = fun _ => false := rfl
    simp only [none, if_true, quiet, raiseIrq_none, Bool.false_eq_true, if_false]
  · have raised : t.found ((t.accum + n) / t.div) = fun ch =>
        crosses t.counter.toNat ((t.counter + BitVec.ofNat 32 ((t.accum + n) / t.div)) &&&
          t.bitmask).toNat (t.cc ch &&& t.bitmask).toNat := by
      funext ch
      rw [toNat_counted, found, bne_iff_ne.mpr none, Bool.true_and]
      rfl
    simp only [if_neg none, raised, setEvents]

theorem advance_of_off (off : (t.running && hf) = false) (n : Nat) : t.advance hf n = (t, ⊥) := by
  rw [advance, if_neg (by simp [off])]
  rfl

theorem div_pos (t : NrfTimer) : 0 < t.div := Nat.two_pow_pos _

theorem counted_counted (t : NrfTimer) (acc acc' k k' : Nat) (raised raised' : Fin 6 → Bool) :
    ((t.counted acc k raised).1.counted acc' k' raised').1 =
        (t.counted acc' (k + k') (raised ⊔ raised')).1 ∧
      (t.counted acc k raised).2 ⊔ ((t.counted acc k raised).1.counted acc' k' raised').2 =
        (t.counted acc' (k + k') (raised ⊔ raised')).2 := by
  constructor
  · refine NrfTimer.ext rfl rfl rfl ?_ rfl ?_ rfl rfl
    · funext ch
      change (if raised' ch then 1 else if raised ch then 1 else t.eventsCompare ch) =
        if raised ch || raised' ch then 1 else t.eventsCompare ch
      cases first : raised ch <;> cases second : raised' ch <;> simp
    · apply BitVec.eq_of_toNat_eq
      have mask : (t.counted acc k raised).1.bitmask = t.bitmask := rfl
      have size : (t.counted acc k raised).1.modulus = t.modulus := rfl
      by_cases last : k' = 0
      · simp only [counted, last, if_true, Nat.add_zero]
      · have right : k + k' ≠ 0 := by omega
        by_cases first : k = 0
        · simp only [counted, first, if_true, if_neg last, Nat.zero_add]
          rfl
        · have before : (t.counted acc k raised).1.counter =
              (t.counter + BitVec.ofNat 32 k) &&& t.bitmask := if_neg first
          have after := toNat_counted (t.counted acc k raised).1 k'
          rw [before, toNat_counted, size, Nat.mod_add_mod, Nat.add_assoc] at after
          simp only [counted, if_neg last, if_neg right, if_neg first]
          rw [toNat_counted]
          exact after
  · refine Prod.ext rfl ?_
    change (t.raiseIrq raised || t.raiseIrq raised') =
      t.raiseIrq fun ch => raised ch || raised' ch
    rw [Bool.eq_iff_iff]
    simp only [raiseIrq, Bool.or_eq_true, decide_eq_true_eq, or_and_right, exists_or]

theorem counter_counted (t : NrfTimer) (acc : Nat) {k : Nat} (some : k ≠ 0) (raised : Fin 6 → Bool) :
    (t.counted acc k raised).1.counter.toNat = (t.counter.toNat + k) % t.modulus := by
  simp only [counted, if_neg some]
  exact t.toNat_counted k

theorem found_one (low : t.counter.toNat < t.modulus) (ch : Fin 6) :
    t.found 1 ch = true ↔ Reaches t.modulus t.counter.toNat 1 (t.compare ch) := by
  rw [found, bne_iff_ne.mpr Nat.one_ne_zero, Bool.true_and,
    crosses_iff_reaches low (t.compare_lt ch), Nat.mod_eq_of_lt t.one_lt_modulus]

/-- The first count that cycle by cycle compares the counter: a prescaler made smaller may count
several times at once. -/
def firstCount (t : NrfTimer) : Nat := max 1 ((t.accum + 1) / t.div)

/-- The events raised cycle by cycle within `k` counts: the first count is compared as a whole and
the later ones singly. -/
def RaisedSingly (t : NrfTimer) (k : Nat) (raised : Fin 6 → Bool) : Prop :=
  ∀ ch, raised ch = true ↔ k ≠ 0 ∧
    (crosses t.counter.toNat ((t.counter.toNat + t.firstCount) % t.modulus) (t.compare ch) ∨
      Reaches t.modulus (t.counter.toNat + t.firstCount) (k - t.firstCount) (t.compare ch))

theorem raisedSingly_first (t : NrfTimer) :
    t.RaisedSingly ((t.accum + 1) / t.div) (t.found ((t.accum + 1) / t.div)) := by
  intro ch
  rw [found, Bool.and_eq_true, bne_iff_ne]
  refine and_congr_right fun some => ?_
  have first : t.firstCount = (t.accum + 1) / t.div :=
    Nat.max_eq_right (Nat.one_le_iff_ne_zero.mpr some)
  rw [first, Nat.sub_self, or_iff_left not_reaches_zero]

theorem RaisedSingly.succ {acc k : Nat} {raised : Fin 6 → Bool} (h : t.RaisedSingly k raised)
    (early : (t.accum + 1) / t.div ≤ k) :
    t.RaisedSingly (k + 1) (raised ⊔ (t.counted acc k raised).1.found 1) := by
  intro ch
  have both : (raised ⊔ (t.counted acc k raised).1.found 1) ch = true ↔
      raised ch = true ∨ (t.counted acc k raised).1.found 1 ch = true :=
    Bool.or_eq_true_iff
  rw [both, h ch]
  by_cases fresh : k = 0
  · have first : t.firstCount = 1 := Nat.max_eq_left (by omega)
    have same : (t.counted acc 0 raised).1.found 1 ch = t.found 1 ch := rfl
    rw [fresh, first, Nat.zero_add, Nat.sub_self, same, found]
    simp [not_reaches_zero]
  · have counter := t.counter_counted acc fresh raised
    have low : (t.counted acc k raised).1.counter.toNat < (t.counted acc k raised).1.modulus := by
      rw [counter]
      exact Nat.mod_lt _ (Nat.lt_trans Nat.zero_lt_one t.one_lt_modulus)
    have le : t.firstCount ≤ k := Nat.max_le.mpr ⟨Nat.pos_of_ne_zero fresh, early⟩
    have parts : k + 1 - t.firstCount = k - t.firstCount + 1 := by omega
    have reached : t.counter.toNat + t.firstCount + (k - t.firstCount) = t.counter.toNat + k := by
      omega
    have next : Reaches (t.counted acc k raised).1.modulus (t.counted acc k raised).1.counter.toNat
        1 ((t.counted acc k raised).1.compare ch) ↔
        Reaches t.modulus (t.counter.toNat + k) 1 (t.compare ch) := by
      rw [counter]
      exact reaches_mod
    rw [found_one low, next, parts, reaches_add, reached]
    simp [fresh, or_assoc]

theorem cycles_advance (on : t.running && hf) {n : Nat} (hn : 0 < n) :
    ∃ raised, cycles (NrfTimer.advance hf) n t =
        t.counted ((t.accum + n) % t.div) ((t.accum + n) / t.div) raised ∧
      t.RaisedSingly ((t.accum + n) / t.div) raised := by
  induction n with
  | zero => cases hn
  | succ n ih =>
    rcases Nat.eq_zero_or_pos n with rfl | pos
    · refine ⟨t.found ((t.accum + 1) / t.div), ?_, t.raisedSingly_first⟩
      rw [cycles_one]
      exact advance_of_running on 1
    · obtain ⟨raised, eq, singly⟩ := ih pos
      have early : (t.accum + 1) / t.div ≤ (t.accum + n) / t.div :=
        Nat.div_le_div_right (Nat.add_le_add_left pos _)
      have once : ((t.accum + n) % t.div + 1) / t.div ≤ 1 := by
        have := Nat.mod_lt (t.accum + n) t.div_pos
        exact Nat.div_le_of_le_mul (by omega)
      obtain ⟨ticks, rest⟩ := prescaled_add t.div t.accum n 1
      let s := (t.counted ((t.accum + n) % t.div) ((t.accum + n) / t.div) raised).1
      have step : s.advance hf 1 = s.counted (((t.accum + n) % t.div + 1) % t.div)
          (((t.accum + n) % t.div + 1) / t.div)
          (s.found (((t.accum + n) % t.div + 1) / t.div)) := advance_of_running (t := s) on 1
      refine ⟨raised ⊔ s.found (((t.accum + n) % t.div + 1) / t.div), ?_, ?_⟩
      · obtain ⟨state, signals⟩ := counted_counted t ((t.accum + n) % t.div)
          (((t.accum + n) % t.div + 1) % t.div) ((t.accum + n) / t.div)
          (((t.accum + n) % t.div + 1) / t.div) raised
          (s.found (((t.accum + n) % t.div + 1) / t.div))
        rw [cycles_succ, eq, step, ticks, rest]
        exact Prod.ext state signals
      · rw [ticks]
        rcases Nat.le_one_iff_eq_zero_or_eq_one.mp once with none | one
        · rw [none]
          intro ch
          refine Iff.trans ?_ (singly ch)
          exact Bool.or_eq_true_iff.trans (or_iff_left nofun)
        · rw [one]
          exact singly.succ early

theorem tick_eq_advance {n : Nat} (room : t.accum + n < 2 ^ 64) : t.tick hf n = t.advance hf n := by
  rw [tick, advance, Nat.mod_eq_of_lt room]

/-- No sum of single cycles wraps if that of all at once does not: after the first, less is kept than
the prescaler counts. -/
theorem tick_eq_advance_cycles {n : Nat} (room : t.accum + n < 2 ^ 64) :
    t.tick hf n = t.advance hf n ∧
      cycles (NrfTimer.tick hf) n t = cycles (NrfTimer.advance hf) n t := by
  refine ⟨tick_eq_advance room, cycles_congr fun k lt => tick_eq_advance ?_⟩
  rcases Nat.eq_zero_or_pos k with rfl | pos
  · exact Nat.lt_of_le_of_lt (Nat.add_le_add_left lt t.accum) room
  · cases on : t.running && hf with
    | false =>
      rw [cycles_of_halted (advance_of_off on)]
      exact Nat.lt_of_le_of_lt (Nat.add_le_add_left (Nat.le_trans pos (Nat.le_of_lt lt)) _) room
    | true =>
      obtain ⟨raised, eq, -⟩ := cycles_advance on pos
      have small : t.div ≤ 2 ^ 15 := by
        rw [div, BitVec.toNat_and]
        exact Nat.pow_le_pow_right (by decide) Nat.and_le_right
      have kept := Nat.mod_lt (t.accum + k) t.div_pos
      have accum : (cycles (NrfTimer.advance hf) k t).1.accum = (t.accum + k) % t.div := by rw [eq]; rfl
      omega

/-- `n` cycles of `tick` at once leave and signal what single cycles do, and raise the compare events
of the values that the counter takes. -/
structure CycleExact (tick : Nat → NrfTimer → NrfTimer × Signals) (hf : Bool) (n : Nat)
    (t : NrfTimer) : Prop where
  state : (tick n t).1 = (cycles tick n t).1
  signals : (tick n t).2 = (cycles tick n t).2
  taken : ∀ ch, (tick n t).2.1 ch = true ↔
    Reaches t.modulus t.counter.toNat (t.ticks hf n) (t.compare ch)

/-- The counter before and after tells every value taken: it makes less than a turn, or its last
turn takes every compare value anyway. -/
def Tells (hf : Bool) (n : Nat) (t : NrfTimer) : Prop :=
  (t.running && hf) = true →
    if n = 0 then t.accum < t.div
    else if t.counter.toNat < t.modulus then
      t.ticks hf n < t.modulus ∨
        ∀ ch, Reaches t.modulus t.counter.toNat (t.ticks hf n % t.modulus) (t.compare ch)
    else t.ticks hf n = 0 ∨
      ∀ ch, ReportsBeyond t.modulus t.counter.toNat t.firstCount (t.ticks hf n) (t.compare ch)

theorem ticks_of_running (on : t.running && hf) (n : Nat) :
    t.ticks hf n = (t.accum + n) / t.div := if_pos on

theorem cycleExact_zero_iff (on : t.running && hf) :
    CycleExact (NrfTimer.advance hf) hf 0 t ↔ t.accum < t.div := by
  have none : cycles (NrfTimer.advance hf) 0 t = (t, ⊥) := rfl
  constructor
  · intro exact
    have acc := congrArg NrfTimer.accum exact.state
    rw [none, advance_of_running on] at acc
    have left : t.accum % t.div = t.accum := acc
    rw [← left]
    exact Nat.mod_lt _ t.div_pos
  · intro small
    have ticks : (t.accum + 0) / t.div = 0 := Nat.div_eq_of_lt small
    have eq : t.advance hf 0 = (t, ⊥) := by
      rw [advance_of_running on, ticks, Nat.add_zero, Nat.mod_eq_of_lt small]
      exact Prod.ext rfl (Prod.ext rfl t.raiseIrq_none)
    refine ⟨congrArg Prod.fst eq, congrArg Prod.snd eq, fun ch => ?_⟩
    rw [eq, ticks_of_running on, ticks]
    exact iff_of_false nofun not_reaches_zero

theorem cycleExact_iff_reports (on : t.running && hf) {n : Nat} (hn : 0 < n) :
    CycleExact (NrfTimer.advance hf) hf n t ↔ t.ticks hf n = 0 ∨ ∀ ch, Reports t.modulus t.counter.toNat t.firstCount
      (t.ticks hf n) (t.compare ch) := by
  obtain ⟨raised, eq, singly⟩ := cycles_advance on hn
  have bulk := advance_of_running on n
  rw [ticks_of_running on]
  obtain ⟨k, hk⟩ : ∃ k, (t.accum + n) / t.div = k := ⟨_, rfl⟩
  rw [hk] at eq singly bulk ⊢
  have found (some : k ≠ 0) (ch : Fin 6) : t.found k ch = true ↔
      crosses t.counter.toNat ((t.counter.toNat + k) % t.modulus) (t.compare ch) = true := by
    rw [NrfTimer.found, bne_iff_ne.mpr some, Bool.true_and]
  constructor
  · intro exact
    refine Decidable.or_iff_not_imp_left.mpr fun some ch => ?_
    have signals := exact.signals
    have taken := exact.taken ch
    rw [ticks_of_running on, hk, bulk] at taken
    rw [eq, bulk] at signals
    have same : t.found k ch = raised ch := congrFun (congrArg Prod.fst signals) ch
    have single := singly ch
    rw [← same, found some, and_iff_right some] at single
    exact ⟨single, (found some ch).symm.trans taken⟩
  · intro reports
    have same : t.found k = raised := by
      funext ch
      rw [Bool.eq_iff_iff, singly ch]
      by_cases none : k = 0
      · exact iff_of_false (by simp [NrfTimer.found, none]) fun h => h.1 none
      · rw [found none, and_iff_right none]
        exact ((reports.resolve_left none) ch).1
    refine ⟨by rw [bulk, eq, same], by rw [bulk, eq, same], fun ch => ?_⟩
    rw [ticks_of_running on, hk, bulk]
    by_cases none : k = 0
    · rw [none]
      exact iff_of_false (by simp [counted, NrfTimer.found]) not_reaches_zero
    · exact (found none ch).trans ((reports.resolve_left none) ch).2

/-- A bulk tick whose sum does not wrap is that many single ticks, and raises the events of the
values taken, exactly where the counter before and after tells them. -/
theorem cycleExact_iff (hf : Bool) (n : Nat) (t : NrfTimer) (room : t.accum + n < 2 ^ 64) :
    CycleExact (NrfTimer.tick hf) hf n t ↔ t.Tells hf n := by
  obtain ⟨whole, single⟩ : t.tick hf n = t.advance hf n ∧
      cycles (NrfTimer.tick hf) n t = cycles (NrfTimer.advance hf) n t :=
    tick_eq_advance_cycles room
  have same : CycleExact (NrfTimer.tick hf) hf n t ↔ CycleExact (NrfTimer.advance hf) hf n t := by
    constructor
    · rintro ⟨state, signals, taken⟩
      rw [whole, single] at state signals
      rw [whole] at taken
      exact ⟨state, signals, taken⟩
    · rintro ⟨state, signals, taken⟩
      rw [← whole, ← single] at state signals
      rw [← whole] at taken
      exact ⟨state, signals, taken⟩
  rw [same]
  rw [Tells]
  cases on : t.running && hf with
  | false =>
    have halted : Halted (NrfTimer.advance hf) t := advance_of_off on
    refine iff_of_true ⟨?_, ?_, fun ch => ?_⟩ fun is => by cases is
    · rw [halted, cycles_of_halted halted]
    · rw [halted, cycles_of_halted halted]
    · have none : t.ticks hf n = 0 := if_neg (by simp [on])
      rw [halted, none]
      exact iff_of_false (fun is => by cases is) not_reaches_zero
  | true =>
    refine Iff.trans ?_ (forall_prop_of_true rfl).symm
    rcases Nat.eq_zero_or_pos n with rfl | hn
    · exact cycleExact_zero_iff on
    · rw [if_neg (Nat.pos_iff_ne_zero.mp hn), cycleExact_iff_reports on hn]
      have early : t.ticks hf n ≠ 0 → t.firstCount ≤ t.ticks hf n := fun some => by
        have := Nat.div_le_div_right (c := t.div) (Nat.add_le_add_left hn t.accum)
        rw [ticks_of_running on] at some ⊢
        exact Nat.max_le.mpr ⟨Nat.pos_of_ne_zero some, this⟩
      split
      · rename_i low
        by_cases none : t.ticks hf n = 0
        · exact iff_of_true (.inl none) (.inl (none ▸ Nat.lt_trans Nat.zero_lt_one t.one_lt_modulus))
        · rw [or_iff_right none, ← forall_or_left]
          exact forall_congr' fun ch => reports_iff_of_lt low (t.compare_lt ch) (early none)
      · rename_i beyond
        by_cases none : t.ticks hf n = 0
        · exact iff_of_true (.inl none) (.inl none)
        · rw [or_iff_right none, or_iff_right none]
          exact forall_congr' fun ch =>
            reports_iff_of_le (Nat.le_of_not_lt beyond) (t.compare_lt ch) (early none)

theorem cycleExact_short :
    let t : NrfTimer :=
      { bitmode := 0, prescaler := 2, intenset := 1, eventsCompare := fun _ => 0
        cc := fun _ => 7, counter := 0xFFF0, accum := 3, running := true }
    CycleExact (NrfTimer.tick true) true 200000 t ∧
      ¬ CycleExact (NrfTimer.tick true) true (2 ^ 62) t := by
  constructor
  · apply (cycleExact_iff true 200000 _ (by decide)).mpr
    intro _
    rw [if_neg (by decide), if_pos (by decide)]
    exact .inl (by decide)
  · intro exact
    have tells := (cycleExact_iff true (2 ^ 62) _ (by decide)).mp exact rfl
    rw [if_neg (by decide), if_pos (by decide)] at tells
    rcases tells with short | all
    · exact absurd short (by decide)
    · exact not_reaches_zero (all 0)

theorem not_cycleExact_turn :
    let t : NrfTimer :=
      { bitmode := 1, prescaler := 0, intenset := 1, eventsCompare := fun _ => 0
        cc := fun _ => 5, counter := 0, accum := 0, running := true }
    Reaches t.modulus t.counter.toNat (t.ticks true 256) (t.compare 0) ∧
      (t.tick true 256).2.1 0 = false ∧ ¬ CycleExact (NrfTimer.tick true) true 256 t :=
  ⟨⟨5, by decide⟩, by decide, fun exact => absurd ((exact.taken 0).mpr ⟨5, by decide⟩) (by decide)⟩

example :
    let t : NrfTimer :=
      { bitmode := 0, prescaler := 0, intenset := 1, eventsCompare := fun _ => 0
        cc := fun _ => 7, counter := 0, accum := 1, running := true }
    t.tick true (2 ^ 64 - 1) = ({ t with accum := 0 }, fun _ => false, false) := rfl

end NrfTimer

end M33mu
