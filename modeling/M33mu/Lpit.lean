import M33mu.Lib.RegFile
import M33mu.Types

namespace M33mu

open Lib

namespace Mrcc

/-- `mm_mcxw71c_mrcc_clock_on`. -/
def clockOn (mrcc : RegFile) (offset : Nat) : Bool :=
  if 0x800 ≤ offset then false else mrcc.word (offset / 4 * 4) &&& 3 ≠ 0

/-- `mm_mcxw71c_mrcc_reset_released`. -/
def resetReleased (mrcc : RegFile) (offset : Nat) : Bool :=
  if 0x800 ≤ offset then false else mrcc.word (offset / 4 * 4) >>> 30 &&& 1 ≠ 0

/-- `mrcc_write`: only words, and the top bit stays set. -/
def write (mrcc : RegFile) (offset n : Nat) (value : Word) : Option RegFile :=
  if n = 4 ∧ offset + 4 ≤ 0x800 then
    some (mrcc.setWord (offset / 4 * 4) (value ||| 0x80000000))
  else none

/-- The word of the LPIT after `mm_mcxw71c_mmio_reset`. -/
def init : RegFile := RegFile.zero.setWord 0xBC 0x80000000

def lpitOn (mrcc : RegFile) : Bool := clockOn mrcc 0xBC && resetReleased mrcc 0xBC

end Mrcc

/-- `lpit_state`. -/
structure Lpit where
  regs : RegFile
  tval : Fin 4 → Word
  cval : Fin 4 → Word
  tctrl : Fin 4 → Word

namespace Lpit

def init : Lpit := ⟨.zero, fun _ => 0, fun _ => 0, fun _ => 0⟩

def mcr (l : Lpit) : Word := l.regs.word 0x08

def msr (l : Lpit) : Word := l.regs.word 0x0C

def mier (l : Lpit) : Word := l.regs.word 0x10

/-- `lpit_get_ch_index`, and the offset inside of the channel. -/
def chIndex (offset : Nat) : Option (Fin 4 × Nat) :=
  if 0x20 ≤ offset then
    if inside : offset - 0x20 < 0x40 then
      some (⟨(offset - 0x20) / 0x10, by omega⟩, (offset - 0x20) % 0x10)
    else none
  else none

/-- `lpit_read`. -/
def read (mrcc : RegFile) (l : Lpit) (offset n : Nat) : Option Word :=
  if n = 0 ∨ 4 < n ∨ Mrcc.lpitOn mrcc = false ∨ 0x1000 < offset + n then none
  else
    match if n = 4 then chIndex offset else none with
    | some (ch, 0x00) => some (l.tval ch)
    | some (ch, 0x04) => some (l.cval ch)
    | some (ch, 0x08) => some (l.tctrl ch)
    | _ => some (l.regs.slice offset n)

def start (l : Lpit) (ch : Fin 4) : Lpit :=
  if l.cval ch = 0 then { l with cval := Function.update l.cval ch (l.tval ch) } else l

def setTctrl (l : Lpit) (ch : Fin 4) (value : Word) : Lpit :=
  { l with tctrl := Function.update l.tctrl ch value }

/-- A write of `SETTEN`. -/
def setTen (l : Lpit) (value : Word) : Lpit :=
  (List.finRange 4).foldl
    (fun l (i : Fin 4) => if value.getLsbD i.val then (l.setTctrl i (l.tctrl i ||| 1)).start i else l) l

/-- A write of `CLRTEN`. -/
def clrTen (l : Lpit) (value : Word) : Lpit :=
  (List.finRange 4).foldl
    (fun l (i : Fin 4) => if value.getLsbD i.val then l.setTctrl i (l.tctrl i &&& ~~~1) else l) l

/-- `lpit_write`. -/
def write (mrcc : RegFile) (l : Lpit) (offset n : Nat) (value : Word) : Option Lpit :=
  if n = 0 ∨ 4 < n ∨ Mrcc.lpitOn mrcc = false ∨ 0x1000 < offset + n then none
  else
    match if n = 4 then chIndex offset else none with
    | some (ch, 0x00) =>
      let l := { l with tval := Function.update l.tval ch value }
      some (if (l.tctrl ch).getLsbD 0 then l
        else { l with cval := Function.update l.cval ch value })
    | some (ch, 0x08) =>
      let l := l.setTctrl ch value
      some (if value.getLsbD 0 then l.start ch else l)
    | _ =>
      if n = 4 ∧ offset = 0x0C then
        some { l with regs := l.regs.setWord 0x0C (l.msr &&& ~~~(value &&& 0x0F)) }
      else if n = 4 ∧ offset = 0x14 then some (l.setTen value)
      else if n = 4 ∧ offset = 0x18 then some (l.clrTen value)
      else some { l with regs := l.regs.copy offset n value }

def counts (l : Lpit) (i : Fin 4) : Bool := (l.tctrl i).getLsbD 0 && !(l.tctrl i).getLsbD 1

/-- A turn of the loop over the channels, on their values and `MSR`. -/
def tickChannel (l : Lpit) (step : Word) (c : (Fin 4 → Word) × Word) (i : Fin 4) :
    (Fin 4 → Word) × Word :=
  if l.counts i then
    if step < c.1 i then (Function.update c.1 i (c.1 i - step), c.2)
    else (Function.update c.1 i (l.tval i), c.2 ||| (1 : Word) <<< i.val)
  else c

def step (cycles : Nat) : Word := if 0xffffffff < cycles then 0xffffffff else BitVec.ofNat 32 cycles

/-- `mm_mcxw71c_timers_tick`, and whether interrupt 36 is pended. -/
def tick (mrcc : RegFile) (cycles : Nat) (l : Lpit) : Lpit × Bool :=
  let mier := l.mier &&& 0x0F
  if Mrcc.lpitOn mrcc = false then (l, false)
  else if l.mcr.getLsbD 0 = false ∨ step cycles = 0 then (l, false)
  else
    let (cval, msr) := (List.finRange 4).foldl (l.tickChannel (step cycles)) (l.cval, l.msr)
    ({ l with cval := cval, regs := l.regs.setWord 0x0C msr }, msr &&& mier ≠ 0)

def flag (l : Lpit) (i : Fin 4) : Bool := l.msr.getLsbD i

def Running (mrcc : RegFile) (l : Lpit) (i : Fin 4) : Prop :=
  Mrcc.lpitOn mrcc = true ∧ l.mcr.getLsbD 0 = true ∧ l.counts i = true

structure SameTimes (l l' : Lpit) : Prop where
  cval : ∀ i, l.cval i = l'.cval i
  flag : ∀ i, l.flag i = l'.flag i

def Expires (mrcc : RegFile) (l : Lpit) (cycles : Nat) (i : Fin 4) : Prop :=
  cycles ≠ 0 ∧ l.Running mrcc i ∧ (l.cval i).toNat ≤ cycles

instance (mrcc : RegFile) (l : Lpit) (i : Fin 4) : Decidable (l.Running mrcc i) :=
  inferInstanceAs (Decidable (_ ∧ _ ∧ _))

instance (mrcc : RegFile) (l : Lpit) (cycles : Nat) (i : Fin 4) :
    Decidable (l.Expires mrcc cycles i) :=
  inferInstanceAs (Decidable (_ ∧ _ ∧ _))

def left (mrcc : RegFile) (l : Lpit) (cycles : Nat) (i : Fin 4) : Nat :=
  if l.Expires mrcc cycles i then (l.tval i).toNat
  else if l.Running mrcc i then (l.cval i).toNat - cycles
  else (l.cval i).toNat

section

variable (l : Lpit) (step : Word) (c : (Fin 4 → Word) × Word)

def counted (step v : Word) (i : Fin 4) : Word :=
  if l.counts i then if step < v then v - step else l.tval i else v

theorem tickChannel_value (i j : Fin 4) :
    (l.tickChannel step c i).1 j = if j = i then l.counted step (c.1 j) j else c.1 j := by
  simp only [tickChannel, counted]
  by_cases here : j = i
  · subst here
    rw [if_pos rfl]
    split
    · split <;> exact Function.update_self ..
    · rfl
  · rw [if_neg here]
    split
    · split <;> exact Function.update_of_ne here ..
    · rfl

theorem getLsbD_one_shiftLeft (i j : Fin 4) :
    ((1 : Word) <<< i.val).getLsbD j = decide (j = i) := by
  revert i j
  decide

theorem tickChannel_flag (i j : Fin 4) :
    (l.tickChannel step c i).2.getLsbD j =
      (c.2.getLsbD j || decide (j = i ∧ l.counts j ∧ ¬ step < c.1 j)) := by
  rw [tickChannel]
  by_cases here : j = i
  · subst here
    cases l.counts j with
    | false => simp
    | true =>
      by_cases before : step < c.1 j
      · simp [before]
      · rw [if_pos rfl, if_neg before, BitVec.getLsbD_or, getLsbD_one_shiftLeft]
        simp [before]
  · have other : ((1 : Word) <<< i.val).getLsbD j = false := by
      rw [getLsbD_one_shiftLeft, decide_eq_false here]
    rw [decide_eq_false fun is => here is.1, Bool.or_false]
    split
    · split
      · rfl
      · rw [BitVec.getLsbD_or, other, Bool.or_false]
    · rfl

theorem foldl_tickChannel {is : List (Fin 4)} (once : is.Nodup) (j : Fin 4) :
    (is.foldl (l.tickChannel step) c).1 j =
        (if j ∈ is then l.counted step (c.1 j) j else c.1 j) ∧
      (is.foldl (l.tickChannel step) c).2.getLsbD j =
        (c.2.getLsbD j || decide (j ∈ is ∧ l.counts j ∧ ¬ step < c.1 j)) := by
  induction is generalizing c with
  | nil => simp
  | cons i is ih =>
    obtain ⟨out, once⟩ := List.nodup_cons.mp once
    obtain ⟨value, raised⟩ := ih (l.tickChannel step c i) once
    rw [List.foldl_cons, value, raised, tickChannel_value, tickChannel_flag]
    by_cases here : j = i
    · subst here
      simp [out]
    · simp [here]

end

theorem step_lt_iff (cycles : Nat) (v : Word) : step cycles < v ↔ cycles < v.toNat := by
  have bound := v.isLt
  rw [BitVec.lt_def, step]
  split
  · rw [show (0xffffffff : Word).toNat = 0xffffffff from rfl]
    omega
  · rw [BitVec.toNat_ofNat, Nat.mod_eq_of_lt (by omega)]

theorem toNat_sub_step {cycles : Nat} {v : Word} (before : cycles < v.toNat) :
    (v - step cycles).toNat = v.toNat - cycles := by
  have bound := v.isLt
  have small : (step cycles).toNat = cycles := by
    rw [step, if_neg (by omega), BitVec.toNat_ofNat, Nat.mod_eq_of_lt (by omega)]
  rw [BitVec.toNat_sub_of_le (BitVec.le_def.mpr (by omega)), small]

theorem step_eq_zero_iff (cycles : Nat) : step cycles = 0 ↔ cycles = 0 := by
  rw [step]
  split
  · refine ⟨fun zero => absurd zero (by decide), ?_⟩
    omega
  · rw [← BitVec.toNat_inj, BitVec.toNat_ofNat, Nat.mod_eq_of_lt (by omega)]
    rfl

structure Ticked (mrcc : RegFile) (l : Lpit) (cycles : Nat) (l' : Lpit) : Prop where
  mcr : l'.mcr = l.mcr
  tval : l'.tval = l.tval
  tctrl : l'.tctrl = l.tctrl
  cval : ∀ i, (l'.cval i).toNat = l.left mrcc cycles i
  flag : ∀ i, l'.flag i = (l.flag i || decide (l.Expires mrcc cycles i))

section

variable {mrcc : RegFile} {l l' : Lpit} {a b cycles : Nat}

theorem ticked_of_idle (idle : ∀ i, ¬ l.Running mrcc i ∨ cycles = 0) :
    l.Ticked mrcc cycles l := by
  have none' (i : Fin 4) : ¬ l.Expires mrcc cycles i := fun is => (idle i).elim (· is.2.1) is.1
  refine ⟨rfl, rfl, rfl, fun i => ?_, fun i => ?_⟩
  · rw [left, if_neg (none' i)]
    split
    · rename_i running
      rw [(idle i).resolve_left (not_not_intro running), Nat.sub_zero]
    · rfl
  · rw [decide_eq_false (none' i), Bool.or_false]

theorem ticked_tick (mrcc : RegFile) (l : Lpit) (cycles : Nat) :
    l.Ticked mrcc cycles (l.tick mrcc cycles).1 := by
  rw [tick]
  by_cases clock : Mrcc.lpitOn mrcc = false
  · rw [if_pos clock]
    exact ticked_of_idle fun i => .inl fun running => Bool.false_ne_true (clock.symm.trans running.1)
  rw [if_neg clock]
  by_cases idle : l.mcr.getLsbD 0 = false ∨ step cycles = 0
  · rw [if_pos idle]
    refine ticked_of_idle fun i => idle.imp (fun off ⟨_, running, _⟩ => ?_) (step_eq_zero_iff cycles).mp
    exact Bool.false_ne_true (off.symm.trans running)
  rw [if_neg idle]
  have enabled : l.mcr.getLsbD 0 = true := by
    cases off : l.mcr.getLsbD 0 with
    | false => exact absurd (.inl off) idle
    | true => rfl
  have some' : cycles ≠ 0 := fun zero => idle (.inr ((step_eq_zero_iff cycles).mpr zero))
  have running (i : Fin 4) : l.Running mrcc i ↔ l.counts i = true :=
    ⟨fun is => is.2.2, fun is => ⟨by simpa using clock, enabled, is⟩⟩
  have expires (i : Fin 4) :
      l.Expires mrcc cycles i ↔ l.counts i = true ∧ ¬ step cycles < l.cval i := by
    rw [Expires, running, step_lt_iff, Nat.not_lt]
    exact and_iff_right some'
  have loop := foldl_tickChannel l (step cycles) (l.cval, l.msr) (List.nodup_finRange 4)
  generalize (List.finRange 4).foldl (l.tickChannel (step cycles)) (l.cval, l.msr) = r at loop ⊢
  obtain ⟨cval, msr⟩ := r
  have value (i : Fin 4) : cval i = l.counted (step cycles) (l.cval i) i :=
    (loop i).1.trans (if_pos (List.mem_finRange i))
  have raised (i : Fin 4) :
      msr.getLsbD i = (l.flag i || decide (l.Expires mrcc cycles i)) := by
    refine (loop i).2.trans (congrArg (l.flag i || ·) (decide_eq_decide.mpr ?_))
    rw [expires i]
    exact and_iff_right (List.mem_finRange i)
  refine ⟨RegFile.word_setWord_of_apart _ _ (by decide), rfl, rfl, fun i => ?_, fun i => ?_⟩
  · dsimp only
    rw [value, counted, left]
    by_cases counting : l.counts i = true
    · by_cases before : step cycles < l.cval i
      · rw [if_pos counting, if_pos before, if_neg fun is => ((expires i).mp is).2 before,
          if_pos ((running i).mpr counting), toNat_sub_step ((step_lt_iff _ _).mp before)]
      · rw [if_pos counting, if_neg before, if_pos ((expires i).mpr ⟨counting, before⟩)]
    · rw [if_neg counting, if_neg fun is => counting ((expires i).mp is).1,
        if_neg fun is => counting ((running i).mp is)]
  · rw [← raised i]
    exact congrArg (·.getLsbD i.val) (RegFile.word_setWord ..)

theorem Ticked.running_iff (ticked : l.Ticked mrcc cycles l') (i : Fin 4) :
    l'.Running mrcc i ↔ l.Running mrcc i := by
  rw [Running, Running, counts, counts, ticked.mcr, ticked.tctrl]

theorem left_of_running {i : Fin 4} (running : l.Running mrcc i) (cycles : Nat) :
    l.left mrcc cycles i = if cycles ≠ 0 ∧ (l.cval i).toNat ≤ cycles then (l.tval i).toNat
      else (l.cval i).toNat - cycles := by
  rw [left, if_pos running]
  exact if_congr ⟨fun is => ⟨is.1, is.2.2⟩, fun is => ⟨is.1, running, is.2⟩⟩ rfl rfl

theorem left_of_stopped {i : Fin 4} (stopped : ¬ l.Running mrcc i) (cycles : Nat) :
    l.left mrcc cycles i = (l.cval i).toNat := by
  rw [left, if_neg fun is => stopped is.2.1, if_neg stopped]

theorem Ticked.expires_add (first : l.Ticked mrcc a l') (i : Fin 4) :
    l.Expires mrcc (a + b) i ↔ l.Expires mrcc a i ∨ l'.Expires mrcc b i := by
  simp only [Expires, first.running_iff i, first.cval]
  by_cases running : l.Running mrcc i
  · simp only [running, true_and, left_of_running running]
    split
    · omega
    · omega
  · simp [running]

theorem Ticked.left_add_iff (first : l.Ticked mrcc a l') (i : Fin 4) :
    l'.left mrcc b i = l.left mrcc (a + b) i ↔
      (l.Expires mrcc a i → b ≠ 0 → (l.tval i).toNat ≤ b) := by
  by_cases running : l.Running mrcc i
  · have expires : l.Expires mrcc a i ↔ a ≠ 0 ∧ (l.cval i).toNat ≤ a :=
      ⟨fun is => ⟨is.1, is.2.2⟩, fun is => ⟨is.1, running, is.2⟩⟩
    rw [left_of_running ((first.running_iff i).mpr running), left_of_running running, expires,
      first.cval, first.tval, left_of_running running]
    by_cases ended : a ≠ 0 ∧ (l.cval i).toNat ≤ a
    · rw [if_pos ended, if_pos (show a + b ≠ 0 ∧ (l.cval i).toNat ≤ a + b by omega)]
      split
      · omega
      · omega
    · rw [if_neg ended]
      refine iff_of_true ?_ fun is => absurd is ended
      split
      · rw [if_pos (by omega)]
      · rw [if_neg (by omega), Nat.sub_sub]
  · rw [left_of_stopped fun is => running ((first.running_iff i).mp is), left_of_stopped running,
      first.cval, left_of_stopped running]
    exact iff_of_true rfl fun is => absurd is.2.1 running

/-- The main loop may split the cycles between two ticks exactly when each channel that ends within
the first has at most the second to go again. -/
theorem sameTimes_split_iff (mrcc : RegFile) (l : Lpit) (a b : Nat) :
    SameTimes (tick mrcc b (tick mrcc a l).1).1 (tick mrcc (a + b) l).1 ↔
      ∀ i, l.Expires mrcc a i → b ≠ 0 → (l.tval i).toNat ≤ b := by
  have first := ticked_tick mrcc l a
  have second := ticked_tick mrcc (tick mrcc a l).1 b
  have once := ticked_tick mrcc l (a + b)
  have value (i : Fin 4) : (tick mrcc b (tick mrcc a l).1).1.cval i = (tick mrcc (a + b) l).1.cval i ↔
      (l.Expires mrcc a i → b ≠ 0 → (l.tval i).toNat ≤ b) := by
    rw [← BitVec.toNat_inj, second.cval, once.cval, first.left_add_iff]
  refine ⟨fun same i => (value i).mp (same.cval i), fun ends => ⟨fun i => (value i).mpr (ends i),
    fun i => ?_⟩⟩
  rw [second.flag, first.flag, once.flag, decide_eq_decide.mpr (first.expires_add i),
    Bool.or_assoc, Bool.decide_or]

def lateInPeriod : Option (RegFile × Lpit) := do
  let mrcc ← Mrcc.write Mrcc.init 0xBC 4 0x40000001
  let l ← write mrcc init 0x08 4 1
  let l ← write mrcc l 0x20 4 100
  let l ← write mrcc l 0x28 4 1
  return (mrcc, (l.tick mrcc 90).1)

theorem split_loses_cycles :
    ∃ mrcc l, lateInPeriod = some (mrcc, l) ∧ l.cval 0 = 10 ∧
      ¬ SameTimes (tick mrcc 5 (tick mrcc 10 l).1).1 (tick mrcc 15 l).1 :=
  ⟨_, _, rfl, by decide, fun same => absurd (same.cval 0) (by decide)⟩

end

end Lpit

end M33mu
