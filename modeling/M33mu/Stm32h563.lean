import M33mu.Masking
import M33mu.NvicIsolation
import M33mu.Timers
import M33mu.Watchdogs

/-!
The timers and watchdogs of the STM32H563 as one device, as `mm_stm32h563_timers_tick` advances it.
A pass of the main loop adds at most 2^24 cycles to what the accumulators keep below their dividers,
so that no sum of 64 bits wraps.
-/

namespace M33mu

open Lib

namespace Nvic

def pend (n : Nvic) (irqs : Irq → Bool) : Nvic :=
  { n with pendingMask := fun k => n.pendingMask k |||
      (BitVec.ofBoolListLE (List.ofFn fun i : Fin 32 => irqs (irqAt k i))).setWidth 32 }

theorem irqAt_word_bit (irq : Irq) : irqAt (word irq) ⟨bit irq, bit_lt irq⟩ = irq := by
  apply Fin.ext
  simp only [irqAt, word, bit]
  omega

@[simp] theorem isPending_pend (n : Nvic) (irqs : Irq → Bool) (irq : Irq) :
    (n.pend irqs).isPending irq = (n.isPending irq || irqs irq) := by
  have low := bit_lt irq
  have bits : (List.ofFn fun i : Fin 32 => irqs (irqAt (word irq) i)).getD (bit irq) false =
      irqs irq := by
    rw [← List.getElem_eq_getD (h := by simpa using low) false, List.getElem_ofFn, irqAt_word_bit]
  simp only [isPending, testBit, pend, BitVec.getLsbD_or, BitVec.getLsbD_setWidth,
    BitVec.getLsbD_ofBoolListLE, bits, low, decide_true, Bool.true_and]

theorem isPending_setPending (n : Nvic) (irq other : Irq) :
    (n.setPending irq true).isPending other = (n.isPending other || decide (other = irq)) := by
  by_cases same : other = irq
  · have low := bit_lt irq
    subst same
    simp [isPending, testBit, setPending, bitop, low]
  · rw [isPending_setPending_of_ne n same, decide_eq_false same, Bool.or_false]

structure SameBut (n n' : Nvic) : Prop where
  enable : n'.enableMask = n.enableMask
  active : n'.activeMask = n.activeMask
  itns : n'.itnsMask = n.itnsMask
  priority : n'.priority = n.priority

theorem SameBut.eq {n n' : Nvic} (same : n.SameBut n')
    (pending : ∀ irq, n'.isPending irq = n.isPending irq) : n' = n := by
  obtain ⟨enable, active, itns, priority⟩ := same
  have masks : n'.pendingMask = n.pendingMask := by
    funext k
    refine BitVec.eq_of_getLsbD_eq fun i hi => ?_
    have bit := pending (irqAt k ⟨i, hi⟩)
    rwa [isPending, isPending, testBit_irqAt, testBit_irqAt] at bit
  cases n
  cases n'
  cases enable
  cases active
  cases itns
  cases priority
  cases masks
  rfl

theorem pend_pend (n : Nvic) (irqs irqs' : Irq → Bool) :
    (n.pend irqs).pend irqs' = n.pend (irqs ⊔ irqs') :=
  SameBut.eq ⟨rfl, rfl, rfl, rfl⟩ fun irq => by
    simp only [isPending_pend, Bool.or_assoc]
    rfl

theorem setPending_eq_pend (n : Nvic) (irq : Irq) (b : Bool) :
    (if b then n.setPending irq true else n) = n.pend fun other => b && decide (other = irq) := by
  refine SameBut.eq ?_ fun other => ?_
  · split <;> exact ⟨rfl, rfl, rfl, rfl⟩
  · rw [isPending_pend]
    cases b with
    | false => simp
    | true => rw [if_pos rfl, isPending_setPending, Bool.true_and]

theorem pend_bot (n : Nvic) : n.pend ⊥ = n :=
  SameBut.eq ⟨rfl, rfl, rfl, rfl⟩ fun irq => by simp

end Nvic

structure Stm32h563 where
  tim : Fin 4 → Tim
  /-- `rcc.regs[0x9c / 4]`. -/
  apb1lenr : Word
  cpuHz : Nat
  wwdg : Wwdg
  iwdg : Iwdg

namespace Stm32h563

/-- One more than `arr_mask`. -/
def timSize (i : Fin 4) : Nat := if i = 0 ∨ i = 3 then 2 ^ 32 else 2 ^ 16

def timIrq (i : Fin 4) : Irq := ⟨45 + i, by have := i.isLt; unfold maxIrq; omega⟩

def wwdgIrq : Irq := ⟨0, maxIrq_pos⟩

def timClockEnabled (d : Stm32h563) (i : Fin 4) : Bool := d.apb1lenr.getLsbD i

def wwdgClockEnabled (d : Stm32h563) : Bool := d.apb1lenr.getLsbD 11

def timTick (i : Fin 4) (n : Nat) (d : Stm32h563) : Tim × Bool :=
  (d.tim i).advance (timSize i) (d.timClockEnabled i) n

def wwdgTick (n : Nat) (d : Stm32h563) : Wwdg × Bool × Bool := d.wwdg.advance d.wwdgClockEnabled n

def iwdgTick (n : Nat) (d : Stm32h563) : Iwdg × Bool := d.iwdg.advance d.cpuHz n

end Stm32h563

namespace World

/-- `tim_tick` of `timers[i]`. -/
def timTick (n : Nat) (w : World Stm32h563) (i : Fin 4) : World Stm32h563 :=
  let (tim, raised) := w.dev.timTick i n
  { w with
    dev := { w.dev with tim := Function.update w.dev.tim i tim }
    nvic := if raised then w.nvic.setPending (Stm32h563.timIrq i) true else w.nvic }

/-- `mm_stm32h563_watchdog_tick`. -/
def watchdogTick (n : Nat) (w : World Stm32h563) : World Stm32h563 :=
  let (wwdg, warned, expired) := w.dev.wwdgTick n
  let (iwdg, expired') := w.dev.iwdgTick n
  { w with
    dev := { w.dev with wwdg := wwdg, iwdg := iwdg }
    nvic := if warned then w.nvic.setPending Stm32h563.wwdgIrq true else w.nvic
    resetPending := w.resetPending || expired || expired' }

/-- `mm_stm32h563_timers_tick`. -/
def timersTick (n : Nat) (w : World Stm32h563) : World Stm32h563 :=
  ((List.finRange 4).foldl (timTick n) w).watchdogTick n

end World

namespace Stm32h563

abbrev Raised := (Irq → Bool) × Bool

def raised (tims : Fin 4 → Bool) (warned expired expired' : Bool) : Raised :=
  (fun irq => decide (∃ i, tims i = true ∧ irq = timIrq i) || warned && decide (irq = wwdgIrq),
    expired || expired')

def tick (n : Nat) (d : Stm32h563) : Stm32h563 × Raised :=
  ({ d with tim := fun i => (d.timTick i n).1, wwdg := (d.wwdgTick n).1, iwdg := (d.iwdgTick n).1 },
    raised (fun i => (d.timTick i n).2) (d.wwdgTick n).2.1 (d.wwdgTick n).2.2 (d.iwdgTick n).2)

theorem timSize_pos (i : Fin 4) : 0 < timSize i := by
  rw [timSize]
  split <;> exact Nat.two_pow_pos _

theorem raised_sup (tims tims' : Fin 4 → Bool) (warned warned' a a' b b' : Bool) :
    raised (fun i => tims i || tims' i) (warned || warned') (a || a') (b || b') =
      raised tims warned a b ⊔ raised tims' warned' a' b' := by
  refine Prod.ext (funext fun irq => ?_) ?_
  · change _ = ((raised tims warned a b).1 irq || (raised tims' warned' a' b').1 irq)
    rw [Bool.eq_iff_iff]
    simp only [raised, Bool.or_eq_true, Bool.and_eq_true, decide_eq_true_eq, or_and_right, exists_or]
    exact or_or_or_comm
  · change (a || a' || (b || b')) = (a || b || (a' || b'))
    cases a <;> cases a' <;> simp

theorem tick_irq_iff {d : Stm32h563} {n : Nat} (hn : 0 < n) {irq : Irq} :
    (d.tick n).2.1 irq = true ↔
      (∃ i, (∃ e ∈ (d.tim i).raisesIn (timSize i) (d.timClockEnabled i), e ≤ n) ∧
        irq = timIrq i) ∨
      (∃ e ∈ d.wwdg.warnsIn d.wwdgClockEnabled, e ≤ n) ∧ irq = wwdgIrq := by
  have tims (i : Fin 4) : (d.timTick i n).2 = true ↔ _ := Tim.raises_iff (timSize_pos i) hn
  have warns : (d.wwdgTick n).2.1 = true ↔ _ := (Wwdg.signals_iff hn).1
  simp only [tick, raised, Bool.or_eq_true, Bool.and_eq_true, decide_eq_true_eq, tims, warns]

theorem tick_reset_iff {d : Stm32h563} {n : Nat} (hn : 0 < n) :
    (d.tick n).2.2 = true ↔ (∃ e ∈ d.wwdg.expiresIn d.wwdgClockEnabled, e ≤ n) ∨
      ∃ e ∈ d.iwdg.expiresIn d.cpuHz, e ≤ n := by
  have window : (d.wwdgTick n).2.2 = true ↔ _ := (Wwdg.signals_iff hn).2
  have watchdog : (d.iwdgTick n).2 = true ↔ _ := Iwdg.expires_iff hn
  simp only [tick, raised, Bool.or_eq_true, window, watchdog]

theorem tick_signalsSplit : SignalsSplit tick := by
  intro d a b ha hb
  have tims := funext fun i =>
    Tim.advance_signalsSplit (d.timClockEnabled i) (timSize_pos i) (d.tim i) a b ha hb
  have wwdg := Wwdg.advance_signalsSplit d.wwdgClockEnabled d.wwdg a b ha hb
  have iwdg := Iwdg.advance_signalsSplit d.cpuHz d.iwdg a b ha hb
  refine Eq.trans ?_ (raised_sup ..)
  exact congr (congr (congr (congrArg raised tims) (congrArg (·.1) wwdg)) (congrArg (·.2) wwdg)) iwdg

theorem cycles_fst (n : Nat) (d : Stm32h563) : (cycles tick n d).1 =
    { d with
      tim := fun i => (cycles (Tim.advance (timSize i) (d.timClockEnabled i)) n (d.tim i)).1
      wwdg := (cycles (Wwdg.advance d.wwdgClockEnabled) n d.wwdg).1
      iwdg := (cycles (Iwdg.advance d.cpuHz) n d.iwdg).1 } := by
  induction n generalizing d with
  | zero => rfl
  | succ n ih =>
    rw [cycles, ih]
    rfl

theorem cycles_eq_tick_iff {d : Stm32h563} {n : Nat} (hn : 0 < n)
    (window : ∀ e ∈ d.wwdg.expiresIn d.wwdgClockEnabled, n ≤ e)
    (watchdog : ∀ e ∈ d.iwdg.expiresIn d.cpuHz, n ≤ e) :
    (cycles tick n d).1 = (d.tick n).1 ↔
      (∀ i, (d.tim i).SkipsExactly (timSize i) (d.timClockEnabled i) n) ∧
        d.wwdg.SkipsExactly d.wwdgClockEnabled n := by
  rw [cycles_fst, tick, Stm32h563.mk.injEq, Iwdg.cycles_eq_advance hn watchdog]
  simp only [funext_iff, true_and]
  exact and_congr (forall_congr' fun i => Tim.cycles_eq_advance_iff (timSize_pos i) hn)
    (and_iff_left rfl |>.trans (Wwdg.cycles_eq_advance_iff hn window))

def Frozen (P : Stm32h563 → Prop) : Prop := ∀ d n, P d → P (d.tick n).1

theorem frozen_tim {i : Fin 4} {clock : Bool} {t : Tim}
    (halted : Halted (Tim.advance (timSize i) clock) t) :
    Frozen fun d => d.tim i = t ∧ d.timClockEnabled i = clock := by
  rintro d n ⟨rfl, rfl⟩
  exact ⟨congrArg (·.1) (halted n), rfl⟩

theorem frozen_wwdg {clock : Bool} {w : Wwdg} (halted : Halted (Wwdg.advance clock) w) :
    Frozen fun d => d.wwdg = w ∧ d.wwdgClockEnabled = clock := by
  rintro d n ⟨rfl, rfl⟩
  exact ⟨congrArg (·.1) (halted n), rfl⟩

theorem exists_frozen_of_parts {d : Stm32h563} {n : Nat} (hn : 0 < n)
    (window : ∀ e ∈ d.wwdg.expiresIn d.wwdgClockEnabled, n ≤ e)
    (parts : ¬ ((∀ i, (d.tim i).SkipsExactly (timSize i) (d.timClockEnabled i) n) ∧
      d.wwdg.SkipsExactly d.wwdgClockEnabled n)) :
    ∃ P Q : Stm32h563 → Prop, Frozen P ∧ Frozen Q ∧ P (cycles tick n d).1 ∧ Q (d.tick n).1 ∧
      ∀ d, P d → ¬ Q d := by
  rw [not_and_or, not_forall] at parts
  rcases parts with ⟨i, tim⟩ | wwdg
  · obtain ⟨slow, fast⟩ := Tim.halted_of_not_skipsExactly (timSize_pos i) hn tim
    refine ⟨_, _, frozen_tim slow, frozen_tim fast, ⟨by rw [cycles_fst], by rw [cycles_fst]; rfl⟩,
      ⟨rfl, rfl⟩, fun d' same same' => ?_⟩
    exact mt (Tim.cycles_eq_advance_iff (timSize_pos i) hn).mp tim (same.1.symm.trans same'.1)
  · obtain ⟨slow, fast⟩ := Wwdg.halted_of_not_skipsExactly hn wwdg
    refine ⟨_, _, frozen_wwdg slow, frozen_wwdg fast, ⟨by rw [cycles_fst], by rw [cycles_fst]; rfl⟩,
      ⟨rfl, rfl⟩, fun d' same same' => ?_⟩
    exact mt (Wwdg.cycles_eq_advance_iff hn window).mp wwdg (same.1.symm.trans same'.1)

end Stm32h563

namespace World

def raise (e : Stm32h563.Raised) (w : World Stm32h563) : World Stm32h563 :=
  { w with nvic := w.nvic.pend e.1, resetPending := w.resetPending || e.2 }

theorem raise_raise (e e' : Stm32h563.Raised) (w : World Stm32h563) :
    (w.raise e).raise e' = w.raise (e ⊔ e') := by
  simp only [raise, Nvic.pend_pend, Bool.or_assoc]
  rfl

theorem raise_bot (w : World Stm32h563) : w.raise ⊥ = w := by
  simp only [raise, Prod.fst_bot, Prod.snd_bot, Nvic.pend_bot]
  exact congrArg (fun reset => { w with resetPending := reset }) (Bool.or_false _)

def withDev (w : World Stm32h563) (d : Stm32h563) : World Stm32h563 := { w with dev := d }

theorem timTick_eq (n : Nat) (w : World Stm32h563) (i : Fin 4) : w.timTick n i =
    (w.withDev { w.dev with tim := Function.update w.dev.tim i (w.dev.timTick i n).1 }).raise
      (fun irq => (w.dev.timTick i n).2 && decide (irq = Stm32h563.timIrq i), false) := by
  simp only [timTick, raise, withDev, Nvic.setPending_eq_pend]
  rw [Bool.or_false]

theorem foldl_timTick (n : Nat) {l : List (Fin 4)} (once : l.Nodup) (w : World Stm32h563) :
    l.foldl (timTick n) w =
      (w.withDev { w.dev with
        tim := fun i => if i ∈ l then (w.dev.timTick i n).1 else w.dev.tim i }).raise
        (fun irq => decide (∃ i ∈ l, (w.dev.timTick i n).2 = true ∧ irq = Stm32h563.timIrq i),
          false) := by
  induction l generalizing w with
  | nil =>
    simp only [List.not_mem_nil, if_false, false_and, exists_false, decide_false]
    exact (raise_bot w).symm
  | cons i l ih =>
    obtain ⟨fresh, once⟩ := List.nodup_cons.mp once
    obtain ⟨d, dev⟩ : ∃ d, { w.dev with
      tim := Function.update w.dev.tim i (w.dev.timTick i n).1 } = d := ⟨_, rfl⟩
    have others (j : Fin 4) (mem : j ∈ l) : d.timTick j n = w.dev.timTick j n := by
      have ne : j ≠ i := fun same => fresh (same ▸ mem)
      simp [← dev, Stm32h563.timTick, Function.update_of_ne ne, Stm32h563.timClockEnabled]
    have tims : (fun j => if j ∈ l then (d.timTick j n).1 else d.tim j) =
        fun j => if j ∈ i :: l then (w.dev.timTick j n).1 else w.dev.tim j := by
      funext j
      by_cases mem : j ∈ l
      · simp [mem, others j mem]
      · by_cases same : j = i
        · subst same
          simp [mem, ← dev]
        · simp [mem, same, ← dev]
    have irqs : ((fun irq => (w.dev.timTick i n).2 && decide (irq = Stm32h563.timIrq i)) ⊔
        fun irq => decide (∃ j ∈ l, (d.timTick j n).2 = true ∧ irq = Stm32h563.timIrq j)) =
        fun irq => decide (∃ j ∈ i :: l, (w.dev.timTick j n).2 = true ∧
          irq = Stm32h563.timIrq j) := by
      funext irq
      change (_ || _) = _
      rw [Bool.eq_iff_iff]
      simp only [Bool.or_eq_true, Bool.and_eq_true, decide_eq_true_eq, List.mem_cons,
        or_and_right, exists_or, exists_eq_left]
      refine or_congr_right (exists_congr fun j => and_congr_right fun mem => ?_)
      rw [others j mem]
    obtain ⟨e, first⟩ : ∃ e : Stm32h563.Raised,
      (fun irq => (w.dev.timTick i n).2 && decide (irq = Stm32h563.timIrq i), false) = e := ⟨_, rfl⟩
    rw [List.foldl_cons, timTick_eq, dev, first, ih once]
    change (((w.withDev { d with
      tim := fun j => if j ∈ l then (d.timTick j n).1 else d.tim j }).raise e).raise
        (fun irq => decide (∃ j ∈ l, (d.timTick j n).2 = true ∧ irq = Stm32h563.timIrq j), false)) = _
    rw [raise_raise, tims, ← first, Prod.mk_sup_mk, irqs, ← dev]
    rfl

theorem timersTick_eq (n : Nat) (w : World Stm32h563) :
    w.timersTick n = (w.withDev (w.dev.tick n).1).raise (w.dev.tick n).2 := by
  have watchdogs (w : World Stm32h563) : w.watchdogTick n = (w.withDev { w.dev with
      wwdg := (w.dev.wwdgTick n).1, iwdg := (w.dev.iwdgTick n).1 }).raise
      (fun irq => (w.dev.wwdgTick n).2.1 && decide (irq = Stm32h563.wwdgIrq),
        (w.dev.wwdgTick n).2.2 || (w.dev.iwdgTick n).2) := by
    simp only [watchdogTick, raise, withDev, Nvic.setPending_eq_pend, Bool.or_assoc]
  have tims : (fun irq => decide (∃ i ∈ List.finRange 4, (w.dev.timTick i n).2 = true ∧
      irq = Stm32h563.timIrq i)) =
      fun irq => decide (∃ i, (w.dev.timTick i n).2 = true ∧ irq = Stm32h563.timIrq i) := by
    simp only [List.mem_finRange, true_and]
  have all : (fun i => if i ∈ List.finRange 4 then (w.dev.timTick i n).1 else w.dev.tim i) =
      fun i => (w.dev.timTick i n).1 := by
    simp only [List.mem_finRange, if_true]
  obtain ⟨e, fromTimers⟩ : ∃ e : Stm32h563.Raised, (fun irq => decide (∃ i,
    (w.dev.timTick i n).2 = true ∧ irq = Stm32h563.timIrq i), false) = e := ⟨_, rfl⟩
  obtain ⟨e', fromWatchdogs⟩ : ∃ e' : Stm32h563.Raised,
    (fun irq => (w.dev.wwdgTick n).2.1 && decide (irq = Stm32h563.wwdgIrq),
      (w.dev.wwdgTick n).2.2 || (w.dev.iwdgTick n).2) = e' := ⟨_, rfl⟩
  rw [timersTick, foldl_timTick n (List.nodup_finRange 4), watchdogs, tims, all, fromTimers]
  have both : e ⊔ e' = (w.dev.tick n).2 := by
    rw [← fromTimers, ← fromWatchdogs]
    rfl
  rw [← both, ← raise_raise, ← fromWatchdogs]
  rfl

end World

end M33mu
