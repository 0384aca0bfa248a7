import Mathlib.Data.Fintype.Basic
import M33mu.Gpio
import M33mu.Lib.Since

namespace M33mu

open Lib

/-- What `gpio_write` copies. -/
def Gpio.maskedFor (g : Gpio) (secAlias : Bool) (offset value : Word) : Word :=
  if secAlias then value else value &&& g.writeMask offset

namespace Exti

/-- `exti_line_bank`. -/
def lineBank (regs : RegFile) (line : Fin 16) : Option (Fin 9) :=
  let val := regs.word (0x60 + line.val / 4 * 4) >>> (line.val % 4 * 8) &&& 0xFF
  if within : val.toNat < 9 then some ⟨val.toNat, within⟩ else none

abbrev Pending := RegFile × List (Fin 16)

/-- `exti_set_pending_rise` and `exti_set_pending_fall`, by their register; the EXTI is bound to an
NVIC, in which line `k` is interrupt `11 + k`. -/
def setPending (offset : Nat) (e : Pending) (line : Fin 16) : Pending :=
  let regs := e.1.setWord offset (e.1.word offset ||| (1 : Word) <<< line.val)
  (regs, if (regs.word 0x80).getLsbD line then e.2 ++ [line] else e.2)

def setPendingRise : Pending → Fin 16 → Pending := setPending 0x0C

def setPendingFall : Pending → Fin 16 → Pending := setPending 0x10

/-- What `exti_gpio_update` finds at a line: a rise, a fall or neither. -/
def edge (regs : RegFile) (bank : Fin 9) (old new : Word) (line : Fin 16) : Option Bool :=
  if (old ^^^ new).getLsbD line = false then none
  else if lineBank regs line ≠ some bank then none
  else if new.getLsbD line then if (regs.word 0x00).getLsbD line then some true else none
  else if (regs.word 0x04).getLsbD line then some false else none

def raise (e : Pending) (line : Fin 16) : Option Bool → Pending
  | some true => setPendingRise e line
  | some false => setPendingFall e line
  | none => e

/-- `exti_gpio_update`. -/
def gpioUpdate (bank : Fin 9) (old new : Word) (regs : RegFile) : Pending :=
  if old ^^^ new = 0 then (regs, [])
  else
    (List.finRange 16).foldl (fun e line => raise e line (edge e.1 bank old new line)) (regs, [])

/-- The writes that `exti_write` takes. -/
def Taken (offset n : Nat) : Prop := n ≠ 0 ∧ n ≤ 4 ∧ offset + n ≤ 0x400

instance (offset n : Nat) : Decidable (Taken offset n) := inferInstanceAs (Decidable (_ ∧ _ ∧ _))

/-- `exti_write`, of both aliases. -/
def write (regs : RegFile) (offset n : Nat) (value : Word) : Option Pending :=
  if Taken offset n then
    if offset = 0x08 then
      some ((List.finRange 16).foldl
        (fun e (line : Fin 16) => if (value &&& 0xFFFF).getLsbD line then setPendingRise e line else e)
        (regs, []))
    else if offset = 0x0C ∨ offset = 0x10 then
      some (regs.setWord offset (regs.word offset &&& ~~~value), [])
    else some (regs.copy offset n value, [])
  else none

end Exti

structure Pins where
  banks : Fin 9 → RegFile
  ahb2enr : Word
  exti : RegFile

namespace Pins

/-- After `mm_stm32h563_mmio_reset`. -/
def reset : Pins := ⟨fun _ => .zero, 0, RegFile.zero.setWord 0x80 0xFFFE0000⟩

def gpio (s : Pins) (j : Fin 9) : Gpio := ⟨s.banks j, s.ahb2enr, j⟩

inductive Write
  | gpio (j : Fin 9) (secAlias : Bool) (offset n value : Word)
  | exti (offset n : Nat) (value : Word)
  | clocks (ahb2enr : Word)
  deriving DecidableEq, Repr

/-- The offsets at which `gpio_write` ends in `gpio_sync_odr`. -/
def syncs (offset : Word) : Bool :=
  offset = Gpio.bsrr || offset = Gpio.brr || offset = Gpio.odrOffset

def perform (s : Pins) : Write → Pins × List (Fin 16)
  | .gpio j secAlias offset n value =>
    let g := s.gpio j
    let g' := (g.write secAlias offset n value).2
    let e := if syncs offset then Exti.gpioUpdate j g.odr g'.odr s.exti else (s.exti, [])
    ({ s with banks := Function.update s.banks j g'.regs, exti := e.1 }, e.2)
  | .exti offset n value =>
    match Exti.write s.exti offset n value with
    | some e => ({ s with exti := e.1 }, e.2)
    | none => (s, [])
  | .clocks ahb2enr => ({ s with ahb2enr := ahb2enr }, [])

def step (s : Pins) (w : Write) : Pins := (s.perform w).1

def pended (s : Pins) (w : Write) : List (Fin 16) := (s.perform w).2

def output (s : Pins) (j : Fin 9) (k : Fin 16) : Bool := (s.gpio j).odr.getLsbD k

def rtsr (s : Pins) (k : Fin 16) : Bool := (s.exti.word 0x00).getLsbD k

def ftsr (s : Pins) (k : Fin 16) : Bool := (s.exti.word 0x04).getLsbD k

def rpr (s : Pins) (k : Fin 16) : Bool := (s.exti.word 0x0C).getLsbD k

def fpr (s : Pins) (k : Fin 16) : Bool := (s.exti.word 0x10).getLsbD k

def imr (s : Pins) (k : Fin 16) : Bool := (s.exti.word 0x80).getLsbD k

def Drives (reg : Nat) (k : Fin 16) : Write → Prop
  | .exti offset n value =>
    Exti.Taken offset n ∧ 8 * offset ≤ 8 * reg + k ∧ 8 * reg + k < 8 * (offset + n) ∧
      value.getLsbD (8 * reg + k - 8 * offset) = true
  | _ => False

def Turns (s : Pins) (w : Write) (k : Fin 16) (level : Bool) : Prop :=
  ∃ j, Exti.lineBank s.exti k = some j ∧ s.output j k = !level ∧ (s.step w).output j k = level

def Rises (k : Fin 16) (s : Pins) (w : Write) : Prop :=
  s.Turns w k true ∧ s.rtsr k = true ∨ Drives 0x08 k w

def Falls (k : Fin 16) (s : Pins) (w : Write) : Prop := s.Turns w k false ∧ s.ftsr k = true

def Shown (s : Pins) : Prop := ∀ j, (s.gpio j).idr = (s.gpio j).odr

def PendsTriggered (s : Pins) (w : Write) : Prop :=
  ∀ k, k ∈ s.pended w ↔ (Rises k s w ∨ Falls k s w) ∧ s.imr k = true

/-- The pending flags tell which lines were triggered since they were cleared, a line pends its
interrupt as it is triggered, and the inputs are the outputs. -/
structure Lawful (s : Pins) (ws : List Write) : Prop where
  rise : ∀ k, Tells step (Rises k) (fun _ w => Drives 0x0C k w) (fun t => t.rpr k = true) s ws
  fall : ∀ k, Tells step (Falls k) (fun _ w => Drives 0x10 k w) (fun t => t.fpr k = true) s ws
  pends : Along step PendsTriggered s ws
  shown : Throughout step Shown s ws

def Reaches (offset n reg : Nat) (k : Fin 16) : Prop :=
  8 * offset ≤ 8 * reg + k ∧ 8 * reg + k < 8 * (offset + n)

instance (offset n reg : Nat) (k : Fin 16) : Decidable (Reaches offset n reg k) :=
  inferInstanceAs (Decidable (_ ∧ _))

def GpioFits (s : Pins) (j : Fin 9) (secAlias : Bool) (offset n value : Word) : Prop :=
  n ≠ 0 → n ≤ 4 → offset < Gpio.size → (s.gpio j).clockEnabled = true → syncs offset = false →
    ∀ b, 128 ≤ b → b < 192 → 8 * offset.toNat ≤ b → b < 8 * (offset.toNat + n.toNat) →
      ((s.gpio j).maskedFor secAlias offset value).getLsbD (b - 8 * offset.toNat) =
        (s.gpio j).regs.bit b

/-- The value has no ones past the bytes of the write, but for flags that it cannot change; and where
a copy reaches SWIER1, RPR1 or FPR1, there is nothing to trigger and nothing to clear. -/
def ExtiFits (s : Pins) (offset n : Nat) (value : Word) : Prop :=
  Exti.Taken offset n →
    if offset = 0x08 then
      ∀ k : Fin 16, 8 * n ≤ k → value.getLsbD k = true → s.rpr k = true ∧ s.imr k = false
    else if offset = 0x0C then
      ∀ k : Fin 16, 8 * n ≤ k → value.getLsbD k = true → s.rpr k = false
    else if offset = 0x10 then
      ∀ k : Fin 16, 8 * n ≤ k → value.getLsbD k = true → s.fpr k = false
    else
      ∀ k : Fin 16, (Drives 0x08 k (.exti offset n value) → s.rpr k = true ∧ s.imr k = false) ∧
        (Reaches offset n 0x0C k → ¬ Drives 0x0C k (.exti offset n value) ∧ s.rpr k = false) ∧
        (Reaches offset n 0x10 k → ¬ Drives 0x10 k (.exti offset n value) ∧ s.fpr k = false)

def Fits (s : Pins) : Write → Prop
  | .gpio j secAlias offset n value => s.GpioFits j secAlias offset n value
  | .exti offset n value => s.ExtiFits offset n value
  | .clocks _ => True

structure Keeps (s : Pins) (w : Write) : Prop where
  rise : ∀ k, Latches step (Rises k) (fun _ w => Drives 0x0C k w) (fun t => t.rpr k = true) s w
  fall : ∀ k, Latches step (Falls k) (fun _ w => Drives 0x10 k w) (fun t => t.fpr k = true) s w
  pends : s.PendsTriggered w
  shown : (s.step w).Shown

end Pins

namespace Exti

theorem bit_setPending {w : Nat} (e : Pending) (line : Fin 16) (b : Nat) :
    (setPending (4 * w) e line).1.bit b = (e.1.bit b || decide (b = 32 * w + line)) := by
  refine (Gpio.bit_setWord ..).trans ?_
  by_cases here : b / 32 = w
  · have bit : ((1 : Word) <<< line.val).getLsbD (b - 32 * w) = decide (b = 32 * w + line) := by
      refine (BitVec.getLsbD_twoPow line (b - 32 * w)).trans ?_
      rw [decide_eq_true (by omega), Bool.true_and]
      exact decide_eq_decide.mpr ⟨by omega, by omega⟩
    have low : b - 32 * w < 32 := by omega
    have place : 8 * (4 * w) + (b - 32 * w) = b := by omega
    rw [if_pos here, BitVec.getLsbD_or, bit, RegFile.bit_word _ _ low, place]
  · have := line.isLt
    rw [if_neg here, decide_eq_false (by omega), Bool.or_false]

theorem mem_setPending {w : Nat} (apart : w ≠ 32) (e : Pending) (line k : Fin 16) :
    k ∈ (setPending (4 * w) e line).2 ↔ k ∈ e.2 ∨ k = line ∧ e.1.bit (1024 + k) = true := by
  have mask : ((e.1.setWord (4 * w) (e.1.word (4 * w) ||| (1 : Word) <<< line.val)).word
      0x80).getLsbD line = e.1.bit (1024 + line) := by
    rw [RegFile.word_setWord_of_apart _ _ (by omega)]
    exact RegFile.bit_word e.1 0x80 (by omega)
  simp only [setPending, mask]
  split
  · rename_i taken
    rw [List.mem_append, List.mem_singleton]
    refine or_congr_right ⟨?_, fun is => is.1⟩
    rintro rfl
    exact ⟨rfl, taken⟩
  · rename_i masked
    refine ⟨.inl, fun is => is.elim id ?_⟩
    rintro ⟨rfl, taken⟩
    exact absurd taken masked

def place : Bool → Nat
  | true => 3
  | false => 4

theorem raise_some (e : Pending) (line : Fin 16) (up : Bool) :
    raise e line (some up) = setPending (4 * place up) e line := by
  cases up <;> rfl

theorem bit_raise (e : Pending) (line : Fin 16) (f : Option Bool) (b : Nat) :
    (raise e line f).1.bit b = true ↔
      e.1.bit b = true ∨ ∃ up ∈ f, b = 32 * place up + line := by
  cases f with
  | none => simp [raise]
  | some up =>
    rw [raise_some, bit_setPending]
    simp

theorem mem_raise (e : Pending) (line : Fin 16) (f : Option Bool) (k : Fin 16) :
    k ∈ (raise e line f).2 ↔
      k ∈ e.2 ∨ k = line ∧ f.isSome = true ∧ e.1.bit (1024 + k) = true := by
  cases f with
  | none => simp [raise]
  | some up =>
    rw [raise_some, mem_setPending (by cases up <;> decide)]
    simp

section

variable (f : Fin 16 → Option Bool)

theorem bit_foldl_raise (ls : List (Fin 16)) (e : Pending) (b : Nat) :
    (ls.foldl (fun e line => raise e line (f line)) e).1.bit b = true ↔
      e.1.bit b = true ∨ ∃ line ∈ ls, ∃ up ∈ f line, b = 32 * place up + line := by
  induction ls generalizing e with
  | nil => simp
  | cons line ls ih =>
    rw [List.foldl_cons, ih, bit_raise, or_assoc, List.exists_mem_cons_iff]

theorem mem_foldl_raise (ls : List (Fin 16)) (e : Pending) (k : Fin 16) :
    k ∈ (ls.foldl (fun e line => raise e line (f line)) e).2 ↔
      k ∈ e.2 ∨ k ∈ ls ∧ (f k).isSome = true ∧ e.1.bit (1024 + k) = true := by
  induction ls generalizing e with
  | nil => simp
  | cons line ls ih =>
    have mask : (raise e line (f line)).1.bit (1024 + k) = true ↔ e.1.bit (1024 + k) = true := by
      rw [bit_raise]
      refine or_iff_left ?_
      rintro ⟨up, -, here⟩
      cases up <;> simp only [place] at here <;> omega
    rw [List.foldl_cons, ih, mem_raise, mask, or_assoc, List.mem_cons]
    refine or_congr_right ?_
    constructor
    · rintro (⟨rfl, set⟩ | ⟨later, set⟩)
      · exact ⟨.inl rfl, set⟩
      · exact ⟨.inr later, set⟩
    · rintro ⟨rfl | later, set⟩
      · exact .inl ⟨rfl, set⟩
      · exact .inr ⟨later, set⟩

structure Raised (regs : RegFile) (r : Pending) : Prop where
  rise : ∀ k : Fin 16, r.1.bit (96 + k) = true ↔ regs.bit (96 + k) = true ∨ f k = some true
  fall : ∀ k : Fin 16, r.1.bit (128 + k) = true ↔ regs.bit (128 + k) = true ∨ f k = some false
  pended : ∀ k, k ∈ r.2 ↔ (f k).isSome = true ∧ regs.bit (1024 + k) = true

theorem raised_none (regs : RegFile) (none' : ∀ k, f k = none) : Raised f regs (regs, []) := by
  refine ⟨fun k => ?_, fun k => ?_, fun k => ?_⟩ <;> simp [none']

theorem raised_loop (regs : RegFile) :
    Raised f regs ((List.finRange 16).foldl (fun e line => raise e line (f line)) (regs, [])) := by
  refine ⟨fun k => ?_, fun k => ?_, fun k => ?_⟩
  · rw [bit_foldl_raise]
    refine or_congr_right ⟨?_, fun is => ⟨k, List.mem_finRange k, true, is, rfl⟩⟩
    rintro ⟨line, -, up, is, here⟩
    cases up with
    | true =>
      obtain rfl : k = line := Fin.ext (by simp only [place] at here; omega)
      exact is
    | false =>
      simp only [place] at here
      omega
  · rw [bit_foldl_raise]
    refine or_congr_right ⟨?_, fun is => ⟨k, List.mem_finRange k, false, is, rfl⟩⟩
    rintro ⟨line, -, up, is, here⟩
    cases up with
    | true =>
      simp only [place] at here
      omega
    | false =>
      obtain rfl : k = line := Fin.ext (by simp only [place] at here; omega)
      exact is
  · rw [mem_foldl_raise]
    simp

end

theorem edge_eq_some {regs : RegFile} {bank : Fin 9} {old new : Word} {line : Fin 16} {up : Bool} :
    edge regs bank old new line = some up ↔
      lineBank regs line = some bank ∧ old.getLsbD line = !up ∧ new.getLsbD line = up ∧
        (regs.word (if up then 0x00 else 0x04)).getLsbD line = true := by
  rw [edge, BitVec.getLsbD_xor]
  by_cases here : lineBank regs line = some bank
  · rw [if_neg (not_not_intro here)]
    cases old.getLsbD line <;> cases new.getLsbD line <;> cases up <;> simp [here]
  · rw [if_pos here]
    simp [here]

def SameSetup (regs regs' : RegFile) : Prop := ∀ b, b < 96 ∨ 160 ≤ b → regs'.bit b = regs.bit b

theorem SameSetup.word {regs regs' : RegFile} (same : SameSetup regs regs') {offset : Nat}
    (apart : offset + 4 ≤ 0x0C ∨ 0x14 ≤ offset) : regs'.word offset = regs.word offset := by
  refine BitVec.eq_of_getLsbD_eq fun i low => ?_
  rw [RegFile.bit_word _ _ low, RegFile.bit_word _ _ low]
  exact same _ (by omega)

theorem sameSetup_raise {regs : RegFile} {e : Pending} (same : SameSetup regs e.1) (line : Fin 16)
    (f : Option Bool) : SameSetup regs (raise e line f).1 := by
  intro b apart
  rw [← same b apart, Bool.eq_iff_iff, bit_raise]
  refine or_iff_left ?_
  rintro ⟨up, -, here⟩
  cases up <;> simp only [place] at here <;> omega

theorem foldl_edge {regs : RegFile} (bank : Fin 9) (old new : Word) (ls : List (Fin 16)) {e : Pending}
    (same : SameSetup regs e.1) :
    ls.foldl (fun e line => raise e line (edge e.1 bank old new line)) e =
      ls.foldl (fun e line => raise e line (edge regs bank old new line)) e := by
  induction ls generalizing e with
  | nil => rfl
  | cons line ls ih =>
    have found : edge e.1 bank old new line = edge regs bank old new line := by
      have bank' : lineBank e.1 line = lineBank regs line := by
        rw [lineBank, lineBank, same.word (.inr (show 0x14 ≤ 0x60 + line.val / 4 * 4 by omega))]
      rw [edge, edge, bank', same.word (show 0x00 + 4 ≤ 0x0C ∨ 0x14 ≤ 0x00 by decide),
        same.word (show 0x04 + 4 ≤ 0x0C ∨ 0x14 ≤ 0x04 by decide)]
    rw [List.foldl_cons, List.foldl_cons, found]
    exact ih (sameSetup_raise same line _)

theorem raised_gpioUpdate (bank : Fin 9) (old new : Word) (regs : RegFile) :
    Raised (edge regs bank old new) regs (gpioUpdate bank old new regs) := by
  rw [gpioUpdate]
  split
  · rename_i still
    refine raised_none _ regs fun k => ?_
    have level : (old ^^^ new).getLsbD k = false := by rw [still]; exact BitVec.getLsbD_zero
    rw [edge, if_pos level]
  · rw [foldl_edge bank old new (List.finRange 16) fun _ _ => rfl]
    exact raised_loop _ regs

def software (value : Word) (line : Fin 16) : Option Bool :=
  if value.getLsbD line then some true else none

theorem raised_software (value : Word) (regs : RegFile) :
    Raised (software value) regs ((List.finRange 16).foldl
      (fun e (line : Fin 16) => if (value &&& 0xFFFF).getLsbD line then setPendingRise e line else e)
      (regs, [])) := by
  have turn : (fun (e : Pending) (line : Fin 16) =>
      if (value &&& 0xFFFF).getLsbD line then setPendingRise e line else e) =
      fun e line => raise e line (software value line) := by
    funext e line
    rw [BitVec.getLsbD_and, Gpio.getLsbD_low (by omega), decide_eq_true line.isLt, Bool.and_true,
      software]
    split <;> rfl
  rw [turn]
  exact raised_loop _ regs

section

variable (regs : RegFile) {offset n : Nat} (value : Word)

theorem write_swier (taken : Taken 0x08 n) :
    ∃ e, write regs 0x08 n value = some e ∧ Raised (software value) regs e :=
  ⟨_, by rw [write, if_pos taken, if_pos rfl], raised_software value regs⟩

theorem write_clear (taken : Taken offset n) (flags : offset = 0x0C ∨ offset = 0x10) :
    write regs offset n value = some (regs.setWord offset (regs.word offset &&& ~~~value), []) := by
  rw [write, if_pos taken, if_neg (by omega), if_pos flags]

theorem write_copy (taken : Taken offset n)
    (apart : offset ≠ 0x08 ∧ offset ≠ 0x0C ∧ offset ≠ 0x10) :
    write regs offset n value = some (regs.copy offset n value, []) := by
  rw [write, if_pos taken, if_neg apart.1, if_neg (not_or.mpr apart.2)]

theorem bit_cleared (w : Nat) (k : Fin 16) :
    RegFile.bit (regs.setWord (4 * w) (regs.word (4 * w) &&& ~~~value)) (32 * w + k) =
      (regs.bit (32 * w + k) && !value.getLsbD k) := by
  have low : k.val < 32 := by omega
  have place : 8 * (4 * w) + k.val = 32 * w + k := by omega
  rw [Gpio.bit_setWord, if_pos (by omega), Nat.add_sub_cancel_left, BitVec.getLsbD_and,
    BitVec.getLsbD_not, RegFile.bit_word _ _ low, place, decide_eq_true low, Bool.true_and]

end

end Exti

namespace Gpio

variable {g : Gpio} {secAlias : Bool} {offset n value : Word}

theorem idr_syncOdr {h : Gpio} (same : h.idr = g.odr) :
    (h.syncOdr g.odr).idr = (h.syncOdr g.odr).odr := by
  rw [odr_syncOdr, syncOdr]
  split
  · exact RegFile.word_setWord ..
  · rename_i still
    exact same.trans (not_not.mp still).symm

theorem shown_writeAny (sync : Pins.syncs offset = true) (shown : g.idr = g.odr) :
    (g.writeAny offset n value).idr = (g.writeAny offset n value).odr := by
  have set (v : Word) : RegFile.word (g.regs.setWord 0x14 v) 0x10 = g.odr :=
    (RegFile.word_setWord_of_apart _ _ (by decide)).trans shown
  rw [writeAny]
  split
  · exact idr_syncOdr (set _)
  split
  · exact idr_syncOdr (set _)
  · rename_i bsrr' brr'
    have output : offset = odrOffset := by
      simpa [Pins.syncs, bsrr', brr'] using sync
    simp only [output, if_pos]
    exact idr_syncOdr ((RegFile.word_copy_of_apart _ _ (.inl (by decide))).trans shown)

theorem write_synced (sync : Pins.syncs offset = true) (shown : g.idr = g.odr) :
    (g.write secAlias offset n value).2.idr = (g.write secAlias offset n value).2.odr := by
  have set (v : Word) : RegFile.word (g.regs.setWord 0x14 v) 0x10 = g.odr :=
    (RegFile.word_setWord_of_apart _ _ (by decide)).trans shown
  rw [write]
  split
  · exact shown
  split
  · exact shown
  split
  · exact shown
  split
  · exact shown_writeAny sync shown
  split
  · exact shown
  split
  · exact idr_syncOdr (set _)
  split
  · exact idr_syncOdr (set _)
  · exact shown_writeAny sync shown

theorem write_ignored (ignored : ¬ (n ≠ 0 ∧ n ≤ 4 ∧ offset < size ∧ g.clockEnabled = true)) :
    (g.write secAlias offset n value).2 = g := by
  rw [write]
  split
  · rfl
  split
  · rfl
  split
  · rfl
  · rename_i valid inside clocked
    obtain ⟨some', small⟩ := not_or.mp valid
    refine absurd ⟨some', BitVec.not_lt.mp small, BitVec.not_le.mp inside, ?_⟩ ignored
    simpa using clocked

theorem write_unsynced (sync : Pins.syncs offset = false)
    (valid : n ≠ 0 ∧ n ≤ 4 ∧ offset < size ∧ g.clockEnabled = true) :
    (g.write secAlias offset n value).2 =
      if secAlias = false ∧ offset = seccfgrOffset then g
      else g.copied offset n (g.maskedFor secAlias offset value) := by
  obtain ⟨some', small, inside, clocked⟩ := valid
  simp only [Pins.syncs, Bool.or_eq_false_iff, decide_eq_false_iff_not] at sync
  obtain ⟨⟨bsrr', brr'⟩, odr'⟩ := sync
  have any (v : Word) : g.writeAny offset n v = g.copied offset n v := by
    rw [writeAny, if_neg bsrr', if_neg brr']
    exact if_neg odr'
  rw [write, if_neg (not_or.mpr ⟨some', BitVec.not_lt.mpr small⟩),
    if_neg (BitVec.not_le.mpr inside), clocked, if_neg (fun is => by cases is), maskedFor]
  cases secAlias with
  | true => rw [if_pos rfl, any, if_neg (fun is => by cases is.1), if_pos rfl]
  | false =>
    rw [if_neg (fun is => by cases is)]
    by_cases own : offset = seccfgrOffset
    · rw [if_pos own, if_pos ⟨rfl, own⟩]
    · rw [if_neg own, if_neg bsrr', if_neg brr', any, if_neg (fun is => own is.2),
        if_neg (fun is => by cases is)]

theorem shown_copied_iff {v : Word} (small : n ≤ 4) (shown : g.idr = g.odr) :
    (g.copied offset n v).idr = (g.copied offset n v).odr ↔
      ∀ b, 128 ≤ b → b < 192 → 8 * offset.toNat ≤ b → b < 8 * (offset.toNat + n.toNat) →
        v.getLsbD (b - 8 * offset.toNat) = g.regs.bit b := by
  have size : n.toNat ≤ 4 := BitVec.le_def.mp small
  have bit (b : Nat) := RegFile.bit_copy g.regs offset.toNat n.toNat v b
  have same (i : Nat) (low : i < 32) : g.regs.bit (128 + i) = g.regs.bit (160 + i) := by
    rw [← g.bit_idr low, ← g.bit_odr low, shown]
  have shows : (g.copied offset n v).idr = (g.copied offset n v).odr ↔
      ∀ i < 32, (g.copied offset n v).regs.bit (128 + i) = (g.copied offset n v).regs.bit (160 + i) := by
    refine ⟨fun is i low => ?_, fun is => BitVec.eq_of_getLsbD_eq fun i low => ?_⟩
    · rw [← bit_idr _ low, ← bit_odr _ low, is]
    · rw [bit_idr _ low, bit_odr _ low, is i low]
  rw [shows]
  constructor
  · intro is b first last begun within
    by_cases input : b < 160
    · obtain ⟨i, rfl⟩ := Nat.exists_eq_add_of_le first
      have both := is i (by omega)
      rw [copied, bit, bit, if_pos ⟨begun, within⟩, if_neg (by omega)] at both
      exact both.trans (same i (by omega)).symm
    · obtain ⟨i, rfl⟩ := Nat.exists_eq_add_of_le (Nat.le_of_not_lt input)
      have both := is i (by omega)
      rw [copied, bit, bit, if_neg (by omega), if_pos ⟨begun, within⟩] at both
      exact both.symm.trans (same i (by omega))
  · intro keeps i low
    have kept (b : Nat) (first : 128 ≤ b) (last : b < 192) :
        (g.copied offset n v).regs.bit b = g.regs.bit b := by
      rw [copied, bit]
      split
      · rename_i reached
        exact keeps b first last reached.1 reached.2
      · rfl
    rw [kept _ (by omega) (by omega), kept _ (by omega) (by omega), same i low]

theorem odr_copied {v : Word} (small : n ≤ 4) (shown : g.idr = g.odr)
    (after : (g.copied offset n v).idr = (g.copied offset n v).odr) :
    (g.copied offset n v).odr = g.odr := by
  have keeps := (shown_copied_iff small shown).mp after
  refine BitVec.eq_of_getLsbD_eq fun i low => ?_
  rw [bit_odr _ low, bit_odr _ low, copied, RegFile.bit_copy]
  split
  · rename_i reached
    exact keeps _ (by omega) (by omega) reached.1 reached.2
  · rfl

end Gpio

namespace Pins

variable {s : Pins} {w : Write}

theorem rpr_bit (s : Pins) (k : Fin 16) : s.rpr k = s.exti.bit (96 + k) :=
  RegFile.bit_word s.exti 0x0C (by omega)

theorem fpr_bit (s : Pins) (k : Fin 16) : s.fpr k = s.exti.bit (128 + k) :=
  RegFile.bit_word s.exti 0x10 (by omega)

theorem imr_bit (s : Pins) (k : Fin 16) : s.imr k = s.exti.bit (1024 + k) :=
  RegFile.bit_word s.exti 0x80 (by omega)

theorem keeps_of_raised {f : Fin 16 → Option Bool}
    (raised : Exti.Raised f s.exti ((s.step w).exti, s.pended w))
    (rise : ∀ k, f k = some true ↔ Rises k s w) (fall : ∀ k, f k = some false ↔ Falls k s w)
    (kept : ∀ k, ¬ Drives 0x0C k w ∧ ¬ Drives 0x10 k w) (shown : (s.step w).Shown) : s.Keeps w := by
  refine ⟨fun k => ?_, fun k => ?_, fun k => ?_, shown⟩
  · simp only [Latches, rpr_bit, ← rise k, (kept k).1, not_false_eq_true, and_true]
    exact (raised.rise k).trans or_comm
  · simp only [Latches, fpr_bit, ← fall k, (kept k).2, not_false_eq_true, and_true]
    exact (raised.fall k).trans or_comm
  · rw [raised.pended k, imr_bit, ← rise k, ← fall k]
    refine and_congr_left' ?_
    cases f k with
    | none => simp
    | some up => cases up <;> simp

theorem not_turns_of_still (still : (s.step w).banks = s.banks) (k : Fin 16) (level : Bool) :
    ¬ s.Turns w k level := by
  rintro ⟨j, -, before, after⟩
  have same : (s.step w).output j k = s.output j k := by
    rw [output, output, gpio, gpio, still]
    rfl
  rw [same, before] at after
  cases level <;> cases after

theorem keeps_of_still (exti : (s.step w).exti = s.exti) (banks : (s.step w).banks = s.banks)
    (quiet : s.pended w = []) (none' : ∀ reg k, ¬ Drives reg k w) (shown : s.Shown) :
    s.Keeps w := by
  have still := not_turns_of_still banks
  refine keeps_of_raised (f := fun _ => none) ?_ (fun k => ?_) (fun k => ?_)
    (fun k => ⟨none' _ k, none' _ k⟩) fun j => ?_
  · rw [exti, quiet]
    exact Exti.raised_none _ _ fun _ => rfl
  · exact iff_of_false nofun fun rises => rises.elim (fun is => still k true is.1) (none' _ k)
  · exact iff_of_false nofun fun falls => still k false falls.1
  · have same := shown j
    rw [gpio, banks]
    exact same

section

variable (j : Fin 9) (secAlias : Bool) (offset n value : Word)

theorem gpio_step (j' : Fin 9) :
    (s.step (.gpio j secAlias offset n value)).gpio j' =
      if j' = j then
        { s.gpio j with regs := ((s.gpio j).write secAlias offset n value).2.regs } else s.gpio j' := by
  by_cases here : j' = j
  · subst here
    rw [if_pos rfl, gpio, step, perform]
    simp only [Function.update_self]
    rfl
  · rw [if_neg here, gpio, step, perform]
    simp only [Function.update_of_ne here]
    rfl

theorem turns_gpio (k : Fin 16) (level : Bool) :
    s.Turns (.gpio j secAlias offset n value) k level ↔
      Exti.lineBank s.exti k = some j ∧ (s.gpio j).odr.getLsbD k = !level ∧
        ((s.gpio j).write secAlias offset n value).2.odr.getLsbD k = level := by
  constructor
  · rintro ⟨j', line, before, after⟩
    rw [output, gpio_step] at after
    by_cases here : j' = j
    · subst here
      rw [if_pos rfl] at after
      exact ⟨line, before, after⟩
    · rw [if_neg here] at after
      rw [output, after] at before
      cases level <;> cases before
  · rintro ⟨line, before, after⟩
    refine ⟨j, line, before, ?_⟩
    rw [output, gpio_step, if_pos rfl]
    exact after

theorem shown_gpio_iff (shown : s.Shown) :
    (s.step (.gpio j secAlias offset n value)).Shown ↔
      ((s.gpio j).write secAlias offset n value).2.idr =
        ((s.gpio j).write secAlias offset n value).2.odr := by
  constructor
  · intro is
    have here := is j
    rw [gpio_step, if_pos rfl] at here
    exact here
  · intro is j'
    rw [gpio_step]
    split
    · exact is
    · exact shown j'

theorem rises_gpio_iff (k : Fin 16) :
    Rises k s (.gpio j secAlias offset n value) ↔ Exti.edge s.exti j (s.gpio j).odr
      ((s.gpio j).write secAlias offset n value).2.odr k = some true := by
  rw [Rises, turns_gpio, Exti.edge_eq_some, and_assoc, and_assoc]
  exact or_iff_left id

theorem falls_gpio_iff (k : Fin 16) :
    Falls k s (.gpio j secAlias offset n value) ↔ Exti.edge s.exti j (s.gpio j).odr
      ((s.gpio j).write secAlias offset n value).2.odr k = some false := by
  rw [Falls, turns_gpio, Exti.edge_eq_some, and_assoc, and_assoc]
  exact Iff.rfl

theorem keeps_synced (sync : syncs offset = true) (shown : s.Shown) :
    s.Keeps (.gpio j secAlias offset n value) := by
  have raised := Exti.raised_gpioUpdate j (s.gpio j).odr
    ((s.gpio j).write secAlias offset n value).2.odr s.exti
  refine keeps_of_raised (f := Exti.edge s.exti j (s.gpio j).odr
    ((s.gpio j).write secAlias offset n value).2.odr) ?_
    (fun k => (rises_gpio_iff j secAlias offset n value k).symm)
    (fun k => (falls_gpio_iff j secAlias offset n value k).symm) (fun k => ⟨id, id⟩)
    ((shown_gpio_iff j secAlias offset n value shown).mpr (Gpio.write_synced sync (shown j)))
  rw [step, pended, perform, if_pos sync]
  exact raised

theorem keeps_unsynced (sync : syncs offset = false) (shown : s.Shown)
    (odr : ((s.gpio j).write secAlias offset n value).2.odr = (s.gpio j).odr)
    (idr : ((s.gpio j).write secAlias offset n value).2.idr = (s.gpio j).idr) :
    s.Keeps (.gpio j secAlias offset n value) := by
  have still (k : Fin 16) (up : Bool) :
      ¬ Exti.edge s.exti j (s.gpio j).odr
        ((s.gpio j).write secAlias offset n value).2.odr k = some up := by
    rw [Exti.edge_eq_some, odr]
    rintro ⟨-, before, after, -⟩
    rw [before] at after
    cases up <;> cases after
  refine keeps_of_raised (f := fun _ => none) ?_ (fun k => ?_) (fun k => ?_) (fun k => ⟨id, id⟩)
    ((shown_gpio_iff j secAlias offset n value shown).mpr ?_)
  · rw [step, pended, perform, if_neg (by rw [sync]; exact Bool.false_ne_true)]
    exact Exti.raised_none _ _ fun _ => rfl
  · rw [rises_gpio_iff]
    exact iff_of_false nofun (still k true)
  · rw [falls_gpio_iff]
    exact iff_of_false nofun (still k false)
  · rw [odr, idr]
    exact shown j

theorem keeps_gpio_iff (shown : s.Shown) :
    s.Keeps (.gpio j secAlias offset n value) ↔ s.GpioFits j secAlias offset n value := by
  cases sync : syncs offset with
  | true =>
    refine iff_of_true (keeps_synced j secAlias offset n value sync shown) fun _ _ _ _ away => ?_
    exact absurd (sync.symm.trans away) nofun
  | false =>
    by_cases valid : n ≠ 0 ∧ n ≤ 4 ∧ offset < Gpio.size ∧ (s.gpio j).clockEnabled = true
    · have wrote := @Gpio.write_unsynced (s.gpio j) secAlias offset n value sync valid
      by_cases own : secAlias = false ∧ offset = Gpio.seccfgrOffset
      · rw [if_pos own] at wrote
        refine iff_of_true ?_ fun _ _ _ _ _ b _ last begun _ => ?_
        · exact keeps_unsynced j secAlias offset n value sync shown (by rw [wrote]) (by rw [wrote])
        · rw [own.2, show Gpio.seccfgrOffset.toNat = 0x30 from rfl] at begun
          omega
      · rw [if_neg own] at wrote
        have fits := @Gpio.shown_copied_iff (s.gpio j) offset n
          ((s.gpio j).maskedFor secAlias offset value) valid.2.1 (shown j)
        constructor
        · intro keeps _ _ _ _ _
          have after := (shown_gpio_iff j secAlias offset n value shown).mp keeps.shown
          rw [wrote] at after
          exact fits.mp after
        · intro is
          have after := fits.mpr (is valid.1 valid.2.1 valid.2.2.1 valid.2.2.2 sync)
          have odr := Gpio.odr_copied valid.2.1 (shown j) after
          refine keeps_unsynced j secAlias offset n value sync shown ?_ ?_
          · rw [wrote, odr]
          · rw [wrote, after, odr]
            exact (shown j).symm
    · have wrote := @Gpio.write_ignored (s.gpio j) secAlias offset n value valid
      refine iff_of_true ?_ fun some' small inside clocked _ => ?_
      · exact keeps_unsynced j secAlias offset n value sync shown (by rw [wrote]) (by rw [wrote])
      · exact absurd ⟨some', small, inside, clocked⟩ valid

end

theorem drives_iff {offset n : Nat} {value : Word} (taken : Exti.Taken offset n) (reg : Nat)
    (k : Fin 16) : Drives reg k (.exti offset n value) ↔
      Reaches offset n reg k ∧ value.getLsbD (8 * reg + k - 8 * offset) = true :=
  (and_iff_right taken).trans and_assoc.symm

theorem keeps_written_iff {offset n : Nat} {value : Word} {e : Exti.Pending}
    (wrote : Exti.write s.exti offset n value = some e) (shown : s.Shown) :
    s.Keeps (.exti offset n value) ↔
      ∀ k : Fin 16, (e.1.bit (96 + k) = true ↔ Drives 0x08 k (.exti offset n value) ∨
          s.rpr k = true ∧ ¬ Drives 0x0C k (.exti offset n value)) ∧
        (e.1.bit (128 + k) = true ↔ s.fpr k = true ∧ ¬ Drives 0x10 k (.exti offset n value)) ∧
        (k ∈ e.2 ↔ Drives 0x08 k (.exti offset n value) ∧ s.imr k = true) := by
  have performed : s.perform (.exti offset n value) = ({ s with exti := e.1 }, e.2) := by
    rw [perform, wrote]
  have next : s.step (.exti offset n value) = { s with exti := e.1 } := by rw [step, performed]
  have still := @not_turns_of_still s (.exti offset n value) (by rw [next])
  have rises (k : Fin 16) : Rises k s (.exti offset n value) ↔ Drives 0x08 k (.exti offset n value) :=
    or_iff_right fun is => still k true is.1
  have falls (k : Fin 16) : ¬ Falls k s (.exti offset n value) := fun is => still k false is.1
  have rise (k : Fin 16) : (s.step (.exti offset n value)).rpr k = e.1.bit (96 + k) := by
    rw [rpr_bit, next]
  have fall (k : Fin 16) : (s.step (.exti offset n value)).fpr k = e.1.bit (128 + k) := by
    rw [fpr_bit, next]
  constructor
  · intro keeps k
    have first := keeps.rise k
    have second := keeps.fall k
    have third := keeps.pends k
    simp only [Latches, rises, falls, rise, fall, false_or] at first second
    rw [rises, or_iff_left (falls k), pended, performed] at third
    exact ⟨first, second, third⟩
  · intro all
    refine ⟨fun k => ?_, fun k => ?_, fun k => ?_, ?_⟩
    · simp only [Latches, rises, rise]
      exact (all k).1
    · simp only [Latches, falls, fall, false_or]
      exact (all k).2.1
    · rw [rises, or_iff_left (falls k), pended, performed]
      exact (all k).2.2
    · rw [next]
      exact shown

theorem drives_at {offset n : Nat} {value : Word} (taken : Exti.Taken offset n) (k : Fin 16) :
    Drives offset k (.exti offset n value) ↔ k.val < 8 * n ∧ value.getLsbD k = true := by
  rw [drives_iff taken, Reaches, Nat.add_sub_cancel_left]
  exact and_congr_left' ⟨by omega, by omega⟩

theorem not_reaches {offset n reg : Nat} (taken : Exti.Taken offset n)
    (apart : reg + 2 ≤ offset ∨ offset + 4 ≤ reg) (k : Fin 16) : ¬ Reaches offset n reg k := by
  have := taken.2.1
  rw [Reaches]
  omega

theorem not_drives {offset n reg : Nat} (value : Word) (taken : Exti.Taken offset n)
    (apart : reg + 2 ≤ offset ∨ offset + 4 ≤ reg) (k : Fin 16) :
    ¬ Drives reg k (.exti offset n value) :=
  fun is => not_reaches taken apart k ((drives_iff taken reg k).mp is).1

theorem keeps_swier_iff {n : Nat} {value : Word} (taken : Exti.Taken 0x08 n) (shown : s.Shown) :
    s.Keeps (.exti 0x08 n value) ↔
      ∀ k : Fin 16, 8 * n ≤ k → value.getLsbD k = true → s.rpr k = true ∧ s.imr k = false := by
  obtain ⟨e, wrote, raised⟩ := Exti.write_swier s.exti value taken
  rw [keeps_written_iff wrote shown]
  refine forall_congr' fun k => ?_
  have rpr' := not_drives value taken (.inr (show 0x08 + 4 ≤ 0x0C by decide)) k
  have fpr' := not_drives value taken (.inr (show 0x08 + 4 ≤ 0x10 by decide)) k
  rw [raised.rise, raised.fall, raised.pended, drives_at taken, ← rpr_bit, ← fpr_bit, ← imr_bit,
    Exti.software]
  by_cases low : k.val < 8 * n
  · cases value.getLsbD k <;> cases s.rpr k <;> simp [low, rpr', fpr']
  · cases value.getLsbD k <;> cases s.rpr k <;> simp [low, rpr', fpr', Nat.le_of_not_lt low]

theorem keeps_rpr_iff {n : Nat} {value : Word} (taken : Exti.Taken 0x0C n) (shown : s.Shown) :
    s.Keeps (.exti 0x0C n value) ↔
      ∀ k : Fin 16, 8 * n ≤ k → value.getLsbD k = true → s.rpr k = false := by
  rw [keeps_written_iff (Exti.write_clear s.exti value taken (.inl rfl)) shown]
  refine forall_congr' fun k => ?_
  have swier := not_drives value taken (.inl (show 0x08 + 2 ≤ 0x0C by decide)) k
  have fpr' := not_drives value taken (.inr (show 0x0C + 4 ≤ 0x10 by decide)) k
  have rise : RegFile.bit (s.exti.setWord 0x0C (s.exti.word 0x0C &&& ~~~value)) (96 + k) =
      (s.rpr k && !value.getLsbD k) := by
    rw [rpr_bit]
    exact Exti.bit_cleared s.exti value 3 k
  have fall : RegFile.bit (s.exti.setWord 0x0C (s.exti.word 0x0C &&& ~~~value)) (128 + k) =
      s.fpr k := by
    rw [fpr_bit]
    exact (Gpio.bit_setWord s.exti 3 _ _).trans (if_neg (by omega))
  rw [rise, fall, drives_at taken]
  by_cases low : k.val < 8 * n
  · cases value.getLsbD k <;> cases s.rpr k <;> simp [low, swier, fpr']
  · cases value.getLsbD k <;> cases s.rpr k <;> simp [low, swier, fpr', Nat.le_of_not_lt low]

theorem keeps_fpr_iff {n : Nat} {value : Word} (taken : Exti.Taken 0x10 n) (shown : s.Shown) :
    s.Keeps (.exti 0x10 n value) ↔
      ∀ k : Fin 16, 8 * n ≤ k → value.getLsbD k = true → s.fpr k = false := by
  rw [keeps_written_iff (Exti.write_clear s.exti value taken (.inr rfl)) shown]
  refine forall_congr' fun k => ?_
  have swier := not_drives value taken (.inl (show 0x08 + 2 ≤ 0x10 by decide)) k
  have rpr' := not_drives value taken (.inl (show 0x0C + 2 ≤ 0x10 by decide)) k
  have rise : RegFile.bit (s.exti.setWord 0x10 (s.exti.word 0x10 &&& ~~~value)) (96 + k) =
      s.rpr k := by
    rw [rpr_bit]
    exact (Gpio.bit_setWord s.exti 4 _ _).trans (if_neg (by omega))
  have fall : RegFile.bit (s.exti.setWord 0x10 (s.exti.word 0x10 &&& ~~~value)) (128 + k) =
      (s.fpr k && !value.getLsbD k) := by
    rw [fpr_bit]
    exact Exti.bit_cleared s.exti value 4 k
  rw [rise, fall, drives_at taken]
  by_cases low : k.val < 8 * n
  · cases value.getLsbD k <;> cases s.fpr k <;> simp [low, swier, rpr']
  · cases value.getLsbD k <;> cases s.fpr k <;> simp [low, swier, rpr', Nat.le_of_not_lt low]

theorem keeps_copy_iff {offset n : Nat} {value : Word} (taken : Exti.Taken offset n)
    (apart : offset ≠ 0x08 ∧ offset ≠ 0x0C ∧ offset ≠ 0x10) (shown : s.Shown) :
    s.Keeps (.exti offset n value) ↔
      ∀ k : Fin 16, (Drives 0x08 k (.exti offset n value) → s.rpr k = true ∧ s.imr k = false) ∧
        (Reaches offset n 0x0C k → ¬ Drives 0x0C k (.exti offset n value) ∧ s.rpr k = false) ∧
        (Reaches offset n 0x10 k → ¬ Drives 0x10 k (.exti offset n value) ∧ s.fpr k = false) := by
  rw [keeps_written_iff (Exti.write_copy s.exti value taken apart) shown]
  refine forall_congr' fun k => ?_
  have small := taken.2.1
  have rise : (s.exti.copy offset n value).bit (96 + k) =
      if Reaches offset n 0x0C k then value.getLsbD (96 + k - 8 * offset) else s.rpr k := by
    rw [rpr_bit]
    exact RegFile.bit_copy ..
  have fall : (s.exti.copy offset n value).bit (128 + k) =
      if Reaches offset n 0x10 k then value.getLsbD (128 + k - 8 * offset) else s.fpr k := by
    rw [fpr_bit]
    exact RegFile.bit_copy ..
  rw [rise, fall, drives_iff taken, drives_iff taken, drives_iff taken]
  by_cases swier : Reaches offset n 0x08 k
  · have rpr' : ¬ Reaches offset n 0x0C k := by
      rw [Reaches] at swier ⊢
      omega
    have fpr' : ¬ Reaches offset n 0x10 k := by
      rw [Reaches] at swier ⊢
      omega
    cases value.getLsbD (8 * 0x08 + k - 8 * offset) <;> cases s.rpr k <;> cases s.imr k <;>
      simp [swier, rpr', fpr']
  by_cases rpr' : Reaches offset n 0x0C k
  · have fpr' : ¬ Reaches offset n 0x10 k := by
      rw [Reaches] at rpr' ⊢
      omega
    cases value.getLsbD (96 + k - 8 * offset) <;> cases s.rpr k <;> simp [swier, rpr', fpr']
  by_cases fpr' : Reaches offset n 0x10 k
  · cases value.getLsbD (128 + k - 8 * offset) <;> cases s.fpr k <;> simp [swier, rpr', fpr']
  · simp [swier, rpr', fpr']

theorem keeps_exti_iff (offset n : Nat) (value : Word) (shown : s.Shown) :
    s.Keeps (.exti offset n value) ↔ s.ExtiFits offset n value := by
  by_cases taken : Exti.Taken offset n
  · rw [ExtiFits, forall_prop_of_true taken]
    split
    · rename_i swier
      subst swier
      exact keeps_swier_iff taken shown
    split
    · rename_i rpr'
      subst rpr'
      exact keeps_rpr_iff taken shown
    split
    · rename_i fpr'
      subst fpr'
      exact keeps_fpr_iff taken shown
    · rename_i swier rpr' fpr'
      exact keeps_copy_iff taken ⟨swier, rpr', fpr'⟩ shown
  · have refused : Exti.write s.exti offset n value = none := by rw [Exti.write, if_neg taken]
    have performed : s.perform (.exti offset n value) = (s, []) := by rw [perform, refused]
    refine iff_of_true (keeps_of_still ?_ ?_ ?_ (fun _ _ is => taken is.1) shown)
      fun is => absurd is taken
    · rw [step, performed]
    · rw [step, performed]
    · rw [pended, performed]

theorem keeps_iff (shown : s.Shown) (w : Write) : s.Keeps w ↔ s.Fits w := by
  cases w with
  | gpio j secAlias offset n value => exact keeps_gpio_iff j secAlias offset n value shown
  | exti offset n value => exact keeps_exti_iff offset n value shown
  | clocks ahb2enr => exact iff_of_true (keeps_of_still rfl rfl rfl (fun _ _ => id) shown) trivial

theorem shown_reset : reset.Shown := fun _ => rfl

theorem flags_reset (k : Fin 16) : reset.rpr k = false ∧ reset.fpr k = false := by
  revert k
  decide

theorem keeps_def : s.Keeps w ↔
    (∀ k, Latches step (Rises k) (fun _ w => Drives 0x0C k w) (fun t => t.rpr k = true) s w) ∧
    (∀ k, Latches step (Falls k) (fun _ w => Drives 0x10 k w) (fun t => t.fpr k = true) s w) ∧
    s.PendsTriggered w ∧ (s.step w).Shown :=
  ⟨fun ⟨rise, fall, pends, shown⟩ => ⟨rise, fall, pends, shown⟩,
    fun ⟨rise, fall, pends, shown⟩ => ⟨rise, fall, pends, shown⟩⟩

theorem lawful_iff (shown : s.Shown) (clear : ∀ k, s.rpr k = false ∧ s.fpr k = false)
    (ws : List Write) : s.Lawful ws ↔ Along step (fun t w => t.Keeps w) s ws := by
  have rise (k : Fin 16) := @tells_iff_along _ _ step (Rises k) (fun _ w => Drives 0x0C k w)
    (fun t => t.rpr k = true) s (by simp [(clear k).1]) ws
  have fall (k : Fin 16) := @tells_iff_along _ _ step (Falls k) (fun _ w => Drives 0x10 k w)
    (fun t => t.fpr k = true) s (by simp [(clear k).2]) ws
  have inputs : Throughout step Shown s ws ↔ Along step (fun t w => (t.step w).Shown) s ws :=
    throughout_iff_along (fun _ _ _ => Iff.rfl) shown
  have all : Along step (fun t w => t.Keeps w) s ws ↔ _ :=
    along_congr (H := fun _ _ => True) (fun t w _ => keeps_def) (along_of_forall fun _ _ => trivial)
  rw [all, along_and, along_and, along_and, along_forall, along_forall, ← inputs]
  constructor
  · rintro ⟨rises, falls, pends, input⟩
    exact ⟨fun k => (rise k).mp (rises k), fun k => (fall k).mp (falls k), pends, input⟩
  · rintro ⟨rises, falls, pends, input⟩
    exact ⟨fun k => (rise k).mpr (rises k), fun k => (fall k).mpr (falls k), pends, input⟩

/-- From reset, the flags tell what has happened at the pins exactly if every write fits. -/
theorem lawful_reset_iff (ws : List Write) : reset.Lawful ws ↔ Along step Fits reset ws := by
  rw [lawful_iff shown_reset flags_reset]
  have steps (t : Pins) (w : Write) (shown : t.Shown) : (t.step w).Shown ∧ t.Keeps w ↔ t.Fits w := by
    rw [← keeps_iff shown w]
    exact and_iff_right_of_imp fun keeps => keeps.shown
  rw [← throughout_along_iff steps shown_reset]
  refine ⟨fun keeps => ⟨?_, keeps⟩, fun both => both.2⟩
  exact throughout_of_along (fun _ _ _ keeps => keeps.shown) shown_reset keeps

/-- A store to the byte after the first of ODR turns output 8 of the first bank, which is line 8, and
neither the input nor the line follows. -/
theorem byte_of_odr_missed :
    ¬ reset.Lawful [.clocks 1, .exti 0x00 4 0x100, .gpio 0 true 0x15 1 1] := by
  intro lawful
  have shown := lawful.shown.last 0
  exact absurd shown (by decide)

end Pins

end M33mu
