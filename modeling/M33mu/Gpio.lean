import M33mu.Lib.RegFile
import M33mu.Lib.Run
import M33mu.Types
import Mathlib.Tactic.SplitIfs

namespace M33mu

open Lib

structure Gpio where
  regs : RegFile
  /-- `AHB2ENR` of the RCC. -/
  ahb2enr : Word
  index : Nat

namespace Gpio

def size : Word := 0x34

def odrOffset : Word := 0x14

def bsrr : Word := 0x18

def brr : Word := 0x28

def seccfgrOffset : Word := 0x30

def idr (g : Gpio) : Word := g.regs.word 0x10

def odr (g : Gpio) : Word := g.regs.word 0x14

def seccfgr (g : Gpio) : Word := g.regs.word 0x30

/-- `gpio_clock_enabled`. -/
def clockEnabled (g : Gpio) : Bool := g.ahb2enr >>> g.index &&& 1 ≠ 0

def readMask (g : Gpio) (offset : Word) : Word :=
  let mask := ~~~g.seccfgr
  if offset = seccfgrOffset then 0
  else if offset = 0x10 ∨ offset = 0x14 ∨ offset = 0x18 ∨ offset = 0x1c ∨ offset = 0x20 ∨
      offset = 0x24 ∨ offset = 0x28 ∨ offset = 0x2c then mask
  else if offset ≤ 0x0c then mask ||| mask <<< 16
  else BitVec.allOnes 32

/-- `gpio_read`. -/
def read (g : Gpio) (secAlias : Bool) (offset n : Word) : Option Word :=
  if n = 0 ∨ 4 < n then none
  else if size ≤ offset then none
  else if g.clockEnabled = false then some 0
  else
    let v := g.regs.slice offset.toNat n.toNat
    some (if secAlias then v else v &&& g.readMask offset)

/-- `gpio_apply_brr`. -/
def applyBrr (g : Gpio) (bits mask : Word) : Gpio :=
  { g with regs := g.regs.setWord 0x14 (g.odr &&& ~~~(bits &&& mask)) }

/-- `gpio_apply_bsrr`. -/
def applyBsrr (g : Gpio) (value mask : Word) : Gpio :=
  let set := value &&& 0xFFFF
  let reset := value >>> 16 &&& 0xFFFF
  { g with regs := g.regs.setWord 0x14 ((g.odr ||| set &&& mask) &&& ~~~(reset &&& mask)) }

/-- `gpio_sync_odr`, without the external interrupts. -/
def syncOdr (g : Gpio) (oldOdr : Word) : Gpio :=
  if g.odr ≠ oldOdr then { g with regs := g.regs.setWord 0x10 g.odr } else g

/-- `gpio_mask_to_2bit`. -/
def maskTo2bit (mask : Word) : Word :=
  (List.range 16).foldl
    (fun out i => if mask &&& 1 <<< i ≠ 0 then out ||| 3 <<< (i * 2) else out) 0

def writeMask (g : Gpio) (offset : Word) : Word :=
  let mask := ~~~g.seccfgr
  if offset = 0x00 then
    let m2 := maskTo2bit (mask &&& 0xFFFF)
    m2 ||| m2 <<< 16
  else mask ||| mask <<< 16

def writeBsrr (g : Gpio) (value mask : Word) : Gpio := (g.applyBsrr value mask).syncOdr g.odr

def writeBrr (g : Gpio) (value mask : Word) : Gpio :=
  (g.applyBrr (value &&& 0xFFFF) mask).syncOdr g.odr

/-- The end of `gpio_write`, which both aliases come to. -/
def writeAny (g : Gpio) (offset n value : Word) : Gpio :=
  if offset = bsrr then g.writeBsrr value 0xFFFF
  else if offset = brr then g.writeBrr value 0xFFFF
  else
    let copied := { g with regs := g.regs.copy offset.toNat n.toNat value }
    if offset = odrOffset then copied.syncOdr g.odr else copied

/-- `gpio_write`. -/
def write (g : Gpio) (secAlias : Bool) (offset n value : Word) : Bool × Gpio :=
  if n = 0 ∨ 4 < n then (false, g)
  else if size ≤ offset then (false, g)
  else if g.clockEnabled = false then (true, g)
  else if secAlias then (true, g.writeAny offset n value)
  else if offset = seccfgrOffset then (true, g)
  else if offset = bsrr then (true, g.writeBsrr value (~~~g.seccfgr &&& 0xFFFF))
  else if offset = brr then (true, g.writeBrr value (~~~g.seccfgr &&& 0xFFFF))
  else (true, g.writeAny offset n (value &&& g.writeMask offset))

/-- The pin that bit `b` of a bank is of: two bits a pin in MODER, OSPEEDR and PUPDR, four in AFRL
and AFRH, one in the low half of the others and in both halves of BSRR. -/
def pinOf (b : Nat) : Option Nat :=
  let reg := b / 32
  let i := b % 32
  if reg = 0 ∨ reg = 2 ∨ reg = 3 then some (i / 2)
  else if reg = 8 then some (i / 4)
  else if reg = 9 then some (8 + i / 4)
  else if reg = 6 then some (i % 16)
  else if reg < 12 ∧ i < 16 then some i
  else none

inductive Access
  | write (offset n value : Word)
  | read (offset n : Word)
  deriving DecidableEq, Repr

def step (g : Gpio) : Access → Gpio
  | .write offset n value => (g.write false offset n value).2
  | .read .. => g

def Secure (g : Gpio) (b : Nat) : Prop := ∃ p ∈ pinOf b, g.seccfgr.getLsbD p = true

def Open (g : Gpio) (b : Nat) : Prop := ∃ p ∈ pinOf b, g.seccfgr.getLsbD p = false

def Guards (g : Gpio) (b : Nat) : Prop := g.Secure b ∨ b / 32 = 12

def Kept (g g' : Gpio) : Prop := ∀ b, g.Guards b → g'.regs.bit b = g.regs.bit b

structure Alike (g g' : Gpio) : Prop where
  ahb2enr : g'.ahb2enr = g.ahb2enr
  index : g'.index = g.index
  bits : ∀ b, ¬ g.Secure b → g'.regs.bit b = g.regs.bit b

def setPins (offset value : Word) : Word := if offset = bsrr then value &&& 0xFFFF else 0

def resetPins (offset value : Word) : Word :=
  if offset = bsrr then value >>> 16 &&& 0xFFFF else value &&& 0xFFFF

def Written (g : Gpio) (offset n value : Word) (g' : Gpio) : Prop :=
  if offset = bsrr ∨ offset = brr then
    ∀ p < 16, g.seccfgr.getLsbD p = false → g'.odr.getLsbD p =
      ((g.odr.getLsbD p || (setPins offset value).getLsbD p) &&
        !(resetPins offset value).getLsbD p)
  else
    ∀ j < 8 * n.toNat, g.Open (8 * offset.toNat + j) →
      g'.regs.bit (8 * offset.toNat + j) = value.getLsbD j

def Serves (g : Gpio) : Access → Prop
  | .write offset n value =>
    n ≠ 0 → n ≤ 4 → offset < size → g.Written offset n value (g.step (.write offset n value))
  | .read offset n => ∀ g', g.Alike g' → g'.read false offset n = g.read false offset n

def OutputsShown (g : Gpio) : Prop :=
  ∀ p < 16, g.seccfgr.getLsbD p = true → g.odr.getLsbD p = g.idr.getLsbD p

def Turns (g : Gpio) (offset value : Word) : Prop :=
  ∃ p < 16, g.seccfgr.getLsbD p = false ∧ g.odr.getLsbD p ≠
    ((g.odr.getLsbD p || (setPins offset value).getLsbD p) && !(resetPins offset value).getLsbD p)

/-- The bytes that a write copies: what its mask leaves is what the secure pins and SECCFGR have, and
all of what it has for the other pins; and if it turns the output of a pin, the input shows the output
on the secure pins. -/
structure CopyFits (g : Gpio) (offset n value : Word) : Prop where
  guarded : ∀ j < 8 * n.toNat, g.Guards (8 * offset.toNat + j) →
    (value &&& g.writeMask offset).getLsbD j = g.regs.bit (8 * offset.toNat + j)
  opened : ∀ j < 8 * n.toNat, g.Open (8 * offset.toNat + j) →
    value.getLsbD j = true → (g.writeMask offset).getLsbD j = true
  shown : offset = odrOffset → (∃ j < 8 * n.toNat,
    (value &&& g.writeMask offset).getLsbD j ≠ g.regs.bit (8 * offset.toNat + j)) → g.OutputsShown

def Fits (g : Gpio) : Access → Prop
  | .write offset n value =>
    n ≠ 0 → n ≤ 4 → offset < size → offset ≠ seccfgrOffset →
      if g.clockEnabled = false then
        if offset = bsrr ∨ offset = brr then ¬ g.Turns offset value
        else
          ∀ j < 8 * n.toNat, g.Open (8 * offset.toNat + j) →
            g.regs.bit (8 * offset.toNat + j) = value.getLsbD j
      else if offset = bsrr ∨ offset = brr then g.Turns offset value → g.OutputsShown
      else g.CopyFits offset n value
  | .read offset n =>
    n ≠ 0 → n ≤ 4 → offset < size → g.clockEnabled = true →
      ∀ j < 8 * n.toNat, g.Secure (8 * offset.toNat + j) → (g.readMask offset).getLsbD j = false

theorem pinOf_lt {b p : Nat} (here : p ∈ pinOf b) : p < 16 := by
  rw [pinOf] at here
  split_ifs at here
  all_goals cases here <;> omega

theorem pinOf_of_single {b : Nat} (word : b / 32 = 4 ∨ b / 32 = 5) :
    pinOf b = if b % 32 < 16 then some (b % 32) else none := by
  rw [pinOf, if_neg (by omega), if_neg (by omega), if_neg (by omega), if_neg (by omega)]
  split_ifs <;> first | rfl | omega

theorem bit_odr (g : Gpio) {i : Nat} (low : i < 32) : g.odr.getLsbD i = g.regs.bit (160 + i) :=
  g.regs.bit_word 0x14 low

theorem bit_idr (g : Gpio) {i : Nat} (low : i < 32) : g.idr.getLsbD i = g.regs.bit (128 + i) :=
  g.regs.bit_word 0x10 low

theorem bit_seccfgr (g : Gpio) {i : Nat} (low : i < 32) :
    g.seccfgr.getLsbD i = g.regs.bit (384 + i) :=
  g.regs.bit_word 0x30 low

theorem pinOf_idr {p : Nat} (low : p < 16) : pinOf (128 + p) = some p := by
  have place : (128 + p) % 32 = p := by omega
  rw [pinOf_of_single (.inl (by omega)), place, if_pos low]

theorem pinOf_odr {p : Nat} (low : p < 16) : pinOf (160 + p) = some p := by
  have place : (160 + p) % 32 = p := by omega
  rw [pinOf_of_single (.inr (by omega)), place, if_pos low]

theorem mod_of_pinOf {b p : Nat} (word : b / 32 = 4 ∨ b / 32 = 5) (here : p ∈ pinOf b) :
    b % 32 = p := by
  rw [pinOf_of_single word] at here
  split at here
  · exact Option.some.inj here
  · cases here

theorem not_open_seccfgr (g : Gpio) {b : Nat} (word : b / 32 = 12) : ¬ g.Open b := by
  rintro ⟨p, here, -⟩
  rw [pinOf, word] at here
  simp at here

theorem bit_setWord (r : RegFile) (w : Nat) (v : Word) (b : Nat) :
    (r.setWord (4 * w) v).bit b = if b / 32 = w then v.getLsbD (b - 32 * w) else r.bit b := by
  rw [RegFile.setWord, RegFile.bit_copy]
  by_cases here : b / 32 = w
  · have place : 8 * (4 * w) = 32 * w := by omega
    rw [if_pos here, if_pos (by omega), place]
  · rw [if_neg here, if_neg (by omega)]

theorem bit_syncOdr (g : Gpio) (oldOdr : Word) (b : Nat) :
    (g.syncOdr oldOdr).regs.bit b =
      if g.odr ≠ oldOdr ∧ b / 32 = 4 then g.odr.getLsbD (b - 128) else g.regs.bit b := by
  rw [syncOdr]
  by_cases turned : g.odr ≠ oldOdr
  · rw [if_pos turned]
    refine (bit_setWord g.regs 4 g.odr b).trans ?_
    by_cases word : b / 32 = 4
    · rw [if_pos word, if_pos ⟨turned, word⟩]
    · rw [if_neg word, if_neg fun both => word both.2]
  · rw [if_neg turned, if_neg fun both => turned both.1]

theorem kept_syncOdr {g h : Gpio} (input : ∀ b, b / 32 = 4 → h.regs.bit b = g.regs.bit b) :
    g.Kept (h.syncOdr g.odr) ↔ g.Kept h ∧ (h.odr ≠ g.odr → g.OutputsShown) := by
  constructor
  · intro kept
    have keeps : g.Kept h := by
      intro b guarded
      by_cases word : b / 32 = 4
      · exact input b word
      · have same := kept b guarded
        rwa [bit_syncOdr, if_neg fun both => word both.2] at same
    refine ⟨keeps, fun turned p low secure => ?_⟩
    have shown := kept (128 + p) (.inl ⟨p, pinOf_idr low, secure⟩)
    have place : 128 + p - 128 = p := by omega
    rw [bit_syncOdr, if_pos ⟨turned, by omega⟩, place, ← g.bit_idr (by omega)] at shown
    have output := keeps (160 + p) (.inl ⟨p, pinOf_odr low, secure⟩)
    rw [← h.bit_odr (by omega), ← g.bit_odr (by omega)] at output
    exact output.symm.trans shown
  · rintro ⟨keeps, shown⟩ b guarded
    rw [bit_syncOdr]
    split
    · rename_i turned
      rcases guarded with ⟨p, here, secure⟩ | word
      · have low := pinOf_lt here
        obtain rfl : b = 128 + p := by
          have := mod_of_pinOf (.inl turned.2) here
          omega
        have place : 128 + p - 128 = p := by omega
        have output := keeps (160 + p) (.inl ⟨p, pinOf_odr low, secure⟩)
        rw [place, h.bit_odr (by omega), output, ← g.bit_odr (by omega),
          shown turned.1 p low secure, g.bit_idr (by omega)]
      · exact absurd (turned.2.symm.trans word) (by decide)
    · exact keeps b guarded

def turned (g : Gpio) (offset value : Word) : Gpio :=
  if offset = bsrr then g.applyBsrr value (~~~g.seccfgr &&& 0xFFFF)
  else g.applyBrr (value &&& 0xFFFF) (~~~g.seccfgr &&& 0xFFFF)

theorem getLsbD_low {i : Nat} (low : i < 32) : (0xFFFF : Word).getLsbD i = decide (i < 16) := by
  have mask : (0xFFFF : Word) = BitVec.setWidth 32 (BitVec.allOnes 16) := by decide
  rw [mask, BitVec.getLsbD_setWidth, BitVec.getLsbD_allOnes, decide_eq_true low, Bool.true_and]

theorem bit_turned (g : Gpio) (offset value : Word) (b : Nat) :
    (g.turned offset value).regs.bit b =
      if b / 32 = 5 ∧ b - 160 < 16 ∧ g.seccfgr.getLsbD (b - 160) = false then
        (g.odr.getLsbD (b - 160) || (setPins offset value).getLsbD (b - 160)) &&
          !(resetPins offset value).getLsbD (b - 160)
      else g.regs.bit b := by
  have eq : ∃ w : Word, (g.turned offset value).regs = g.regs.setWord (4 * 5) w ∧ ∀ i < 32,
      w.getLsbD i = if i < 16 ∧ g.seccfgr.getLsbD i = false then
        (g.odr.getLsbD i || (setPins offset value).getLsbD i) &&
          !(resetPins offset value).getLsbD i
      else g.odr.getLsbD i := by
    rw [turned, setPins, resetPins]
    split
    · refine ⟨_, rfl, fun i low => ?_⟩
      simp only [BitVec.getLsbD_and, BitVec.getLsbD_or, BitVec.getLsbD_not, getLsbD_low low, low,
        decide_true, Bool.true_and]
      by_cases pin : i < 16 <;> cases g.seccfgr.getLsbD i <;> simp [pin]
    · refine ⟨_, rfl, fun i low => ?_⟩
      simp only [BitVec.getLsbD_and, BitVec.getLsbD_not, getLsbD_low low, low, decide_true,
        Bool.true_and]
      by_cases pin : i < 16 <;> cases g.seccfgr.getLsbD i <;> simp [pin]
  obtain ⟨w, eq, bits⟩ := eq
  rw [eq, bit_setWord]
  by_cases word : b / 32 = 5
  · rw [if_pos word, bits _ (by omega)]
    by_cases opened : b - 160 < 16 ∧ g.seccfgr.getLsbD (b - 160) = false
    · rw [if_pos opened, if_pos ⟨word, opened⟩]
    · have place : 160 + (b - 160) = b := by omega
      rw [if_neg opened, if_neg fun all => opened all.2, g.bit_odr (by omega), place]
  · rw [if_neg word, if_neg fun all => word all.1]

theorem odr_syncOdr (g : Gpio) (oldOdr : Word) : (g.syncOdr oldOdr).odr = g.odr := by
  rw [syncOdr]
  split
  · exact RegFile.word_setWord_of_apart _ _ (by decide)
  · rfl

theorem kept_self (g : Gpio) : g.Kept g := fun _ _ => rfl

theorem kept_turned (g : Gpio) (offset value : Word) : g.Kept (g.turned offset value) := by
  rintro b (⟨p, here, secure⟩ | word)
  · rw [bit_turned]
    refine if_neg fun ⟨word, _, opened⟩ => ?_
    have place : b - 160 = p := by
      have := mod_of_pinOf (.inr word) here
      omega
    rw [place, secure] at opened
    cases opened
  · rw [bit_turned]
    exact if_neg fun turns => absurd (turns.1.symm.trans word) (by decide)

theorem getLsbD_odr_turned (g : Gpio) (offset value : Word) {i : Nat} (low : i < 32) :
    (g.turned offset value).odr.getLsbD i =
      if i < 16 ∧ g.seccfgr.getLsbD i = false then
        (g.odr.getLsbD i || (setPins offset value).getLsbD i) &&
          !(resetPins offset value).getLsbD i
      else g.odr.getLsbD i := by
  have word : (160 + i) / 32 = 5 := by omega
  have place : 160 + i - 160 = i := by omega
  rw [bit_odr _ low, bit_turned, place, bit_odr g low]
  by_cases opened : i < 16 ∧ g.seccfgr.getLsbD i = false
  · rw [if_pos ⟨word, opened⟩, if_pos opened]
  · rw [if_neg fun all => opened all.2, if_neg opened]

theorem odr_turned_ne (g : Gpio) (offset value : Word) :
    (g.turned offset value).odr ≠ g.odr ↔ g.Turns offset value := by
  constructor
  · intro turned
    by_contra still
    refine turned (BitVec.eq_of_getLsbD_eq fun i low => ?_)
    rw [getLsbD_odr_turned g _ _ low]
    split
    · rename_i opened
      by_contra other
      exact still ⟨i, opened.1, opened.2, fun same => other same.symm⟩
    · rfl
  · rintro ⟨p, low, opened, turns⟩ same
    have bit := getLsbD_odr_turned g offset value (show p < 32 by omega)
    rw [same, if_pos ⟨low, opened⟩] at bit
    exact turns bit

def copied (g : Gpio) (offset n value : Word) : Gpio :=
  { g with regs := g.regs.copy offset.toNat n.toNat value }

theorem bit_copied (g : Gpio) (offset n value : Word) {j : Nat} (reached : j < 8 * n.toNat) :
    (g.copied offset n value).regs.bit (8 * offset.toNat + j) = value.getLsbD j := by
  have place : 8 * offset.toNat + j - 8 * offset.toNat = j := by omega
  rw [copied, RegFile.bit_copy, if_pos (by omega), place]

theorem bit_copied_of_apart (g : Gpio) {offset n : Word} (value : Word) {b : Nat}
    (apart : b < 8 * offset.toNat ∨ 8 * (offset.toNat + n.toNat) ≤ b) :
    (g.copied offset n value).regs.bit b = g.regs.bit b := by
  rw [copied, RegFile.bit_copy, if_neg (by omega)]

theorem kept_copied (g : Gpio) (offset n value : Word) :
    g.Kept (g.copied offset n value) ↔ ∀ j < 8 * n.toNat, g.Guards (8 * offset.toNat + j) →
      value.getLsbD j = g.regs.bit (8 * offset.toNat + j) := by
  constructor
  · intro kept j reached guarded
    exact (bit_copied g offset n value reached).symm.trans (kept _ guarded)
  · intro same b guarded
    by_cases inside : 8 * offset.toNat ≤ b ∧ b < 8 * (offset.toNat + n.toNat)
    · obtain ⟨j, rfl⟩ := Nat.exists_eq_add_of_le inside.1
      have reached : j < 8 * n.toNat := by omega
      exact (bit_copied g offset n value reached).trans (same j reached guarded)
    · exact bit_copied_of_apart g value (by omega)

theorem odr_copied_ne (g : Gpio) {n : Word} (value : Word) (small : n.toNat ≤ 4) :
    (g.copied odrOffset n value).odr ≠ g.odr ↔
      ∃ j < 8 * n.toNat, value.getLsbD j ≠ g.regs.bit (8 * odrOffset.toNat + j) := by
  have start : 8 * odrOffset.toNat = 160 := by decide
  constructor
  · intro turned
    by_contra still
    refine turned (BitVec.eq_of_getLsbD_eq fun i low => ?_)
    rw [bit_odr _ low, bit_odr _ low, ← start]
    by_cases reached : i < 8 * n.toNat
    · rw [bit_copied g _ _ _ reached]
      by_contra other
      exact still ⟨i, reached, other⟩
    · exact bit_copied_of_apart g value (by omega)
  · rintro ⟨j, reached, other⟩ same
    refine other ?_
    rw [← bit_copied g odrOffset n value reached, start, ← bit_odr _ (by omega), same,
      bit_odr _ (by omega)]

theorem step_write_of_refused {g : Gpio} {offset n value : Word}
    (refused : ¬ (n ≠ 0 ∧ n ≤ 4 ∧ offset < size)) : g.step (.write offset n value) = g := by
  rw [step, write]
  split
  · rfl
  split
  · rfl
  · rename_i valid inside
    obtain ⟨some', small⟩ := not_or.mp valid
    exact absurd ⟨some', BitVec.not_lt.mp small, BitVec.not_le.mp inside⟩ refused

theorem step_write {g : Gpio} {offset n value : Word} (valid : n ≠ 0 ∧ n ≤ 4 ∧ offset < size)
    (clocked : g.clockEnabled = true) (pins : offset ≠ seccfgrOffset) :
    g.step (.write offset n value) =
      if offset = bsrr ∨ offset = brr then (g.turned offset value).syncOdr g.odr
      else
        let copied := g.copied offset n (value &&& g.writeMask offset)
        if offset = odrOffset then copied.syncOdr g.odr else copied := by
  obtain ⟨some', small, inside⟩ := valid
  rw [step, write, if_neg (not_or.mpr ⟨some', BitVec.not_lt.mpr small⟩),
    if_neg (BitVec.not_le.mpr inside), clocked, if_neg nofun, if_neg nofun, if_neg pins]
  by_cases set : offset = bsrr
  · rw [if_pos set, if_pos (.inl set), turned, if_pos set]
    rfl
  rw [if_neg set]
  by_cases reset : offset = brr
  · rw [if_pos reset, if_pos (.inr reset), turned, if_neg set]
    rfl
  · rw [if_neg reset, if_neg (not_or.mpr ⟨set, reset⟩), writeAny, if_neg set, if_neg reset]
    rfl

theorem step_write_of_unclocked {g : Gpio} {offset n value : Word}
    (unclocked : g.clockEnabled = false) : g.step (.write offset n value) = g := by
  rw [step, write, unclocked]
  split
  · rfl
  split
  · rfl
  · rfl

theorem step_write_seccfgr {g : Gpio} {n value : Word} :
    g.step (.write seccfgrOffset n value) = g := by
  rw [step, write]
  split
  · rfl
  split
  · rfl
  split
  · rfl
  · rfl

theorem written_syncOdr {g h : Gpio} {offset n value : Word} (oldOdr : Word)
    (word : offset = bsrr ∨ offset = brr) :
    g.Written offset n value (h.syncOdr oldOdr) ↔ g.Written offset n value h := by
  rw [Written, Written, if_pos word, if_pos word, odr_syncOdr]

theorem written_turned (g : Gpio) {offset n value : Word} (word : offset = bsrr ∨ offset = brr) :
    g.Written offset n value (g.turned offset value) := by
  rw [Written, if_pos word]
  intro p low opened
  rw [getLsbD_odr_turned g _ _ (by omega), if_pos ⟨low, opened⟩]

theorem written_self_iff (g : Gpio) {offset n value : Word} (word : offset = bsrr ∨ offset = brr) :
    g.Written offset n value g ↔ ¬ g.Turns offset value := by
  rw [Written, if_pos word]
  constructor
  · rintro written ⟨p, low, opened, turns⟩
    exact turns (written p low opened)
  · intro still p low opened
    by_contra turns
    exact still ⟨p, low, opened, turns⟩

theorem isolated_turned_iff {g : Gpio} {offset n value : Word}
    (word : offset = bsrr ∨ offset = brr) :
    g.Kept ((g.turned offset value).syncOdr g.odr) ∧
        g.Written offset n value ((g.turned offset value).syncOdr g.odr) ↔
      (g.Turns offset value → g.OutputsShown) := by
  have input (b : Nat) (here : b / 32 = 4) :
      (g.turned offset value).regs.bit b = g.regs.bit b := by
    rw [bit_turned]
    exact if_neg fun all => absurd (here.symm.trans all.1) (by decide)
  rw [kept_syncOdr input, odr_turned_ne, written_syncOdr _ word]
  constructor
  · rintro ⟨⟨-, shown⟩, -⟩
    exact shown
  · intro shown
    exact ⟨⟨kept_turned g offset value, shown⟩, written_turned g word⟩

theorem written_copied_iff (g : Gpio) {offset n value : Word}
    (other : ¬ (offset = bsrr ∨ offset = brr)) {h : Gpio}
    (bits : ∀ j < 8 * n.toNat, h.regs.bit (8 * offset.toNat + j) =
      (g.copied offset n (value &&& g.writeMask offset)).regs.bit (8 * offset.toNat + j)) :
    g.Written offset n value h ↔ ∀ j < 8 * n.toNat, g.Open (8 * offset.toNat + j) →
      value.getLsbD j = true → (g.writeMask offset).getLsbD j = true := by
  rw [Written, if_neg other]
  refine forall_congr' fun j => forall_congr' fun reached => forall_congr' fun _ => ?_
  rw [bits j reached, bit_copied g _ _ _ reached, BitVec.getLsbD_and]
  cases value.getLsbD j <;> cases (g.writeMask offset).getLsbD j <;> decide

theorem isolated_copied_iff {g : Gpio} {offset n value : Word} (small : n ≤ 4)
    (other : ¬ (offset = bsrr ∨ offset = brr)) :
    (let copied := g.copied offset n (value &&& g.writeMask offset)
      let h := if offset = odrOffset then copied.syncOdr g.odr else copied
      g.Kept h ∧ g.Written offset n value h) ↔ g.CopyFits offset n value := by
  have bound := BitVec.le_def.mp small
  change n.toNat ≤ 4 at bound
  dsimp only
  by_cases output : offset = odrOffset
  · subst output
    have start : 8 * odrOffset.toNat = 160 := by decide
    have input (b : Nat) (here : b / 32 = 4) :
        (g.copied odrOffset n (value &&& g.writeMask odrOffset)).regs.bit b = g.regs.bit b :=
      bit_copied_of_apart g _ (by omega)
    have bits (j : Nat) (reached : j < 8 * n.toNat) :
        ((g.copied odrOffset n (value &&& g.writeMask odrOffset)).syncOdr g.odr).regs.bit
            (8 * odrOffset.toNat + j) =
          (g.copied odrOffset n (value &&& g.writeMask odrOffset)).regs.bit
            (8 * odrOffset.toNat + j) := by
      rw [bit_syncOdr, if_neg fun all => by omega]
    rw [if_pos rfl, kept_syncOdr input, kept_copied, odr_copied_ne g _ bound,
      written_copied_iff g other bits]
    exact ⟨fun ⟨⟨guarded, shown⟩, opened⟩ => ⟨guarded, opened, fun _ => shown⟩,
      fun fits => ⟨⟨fits.guarded, fits.shown rfl⟩, fits.opened⟩⟩
  · rw [if_neg output, kept_copied, written_copied_iff g other fun _ _ => rfl]
    exact ⟨fun ⟨guarded, opened⟩ => ⟨guarded, opened, fun here => absurd here output⟩,
      fun fits => ⟨fits.guarded, fits.opened⟩⟩

theorem isolated_write_iff (g : Gpio) (offset n value : Word) :
    g.Kept (g.step (.write offset n value)) ∧ g.Serves (.write offset n value) ↔
      g.Fits (.write offset n value) := by
  rw [Serves, Fits]
  by_cases valid : n ≠ 0 ∧ n ≤ 4 ∧ offset < size
  · obtain ⟨some', small, inside⟩ := valid
    simp only [some', small, inside, ne_eq, not_false_eq_true, true_implies]
    by_cases pins : offset = seccfgrOffset
    · subst pins
      rw [step_write_seccfgr]
      refine ⟨fun _ same => absurd rfl same, fun _ => ⟨kept_self g, ?_⟩⟩
      rw [Written, if_neg (by decide)]
      intro j reached opened
      have start : 8 * seccfgrOffset.toNat = 384 := by decide
      have bound := BitVec.le_def.mp small
      change n.toNat ≤ 4 at bound
      exact absurd opened (not_open_seccfgr g (by omega))
    simp only [pins, not_false_eq_true, true_implies]
    cases clocked : g.clockEnabled with
    | false =>
      rw [step_write_of_unclocked clocked, if_pos rfl]
      by_cases word : offset = bsrr ∨ offset = brr
      · rw [if_pos word, written_self_iff g word]
        exact and_iff_right (kept_self g)
      · rw [if_neg word, Written, if_neg word]
        exact and_iff_right (kept_self g)
    | true =>
      rw [step_write ⟨some', small, inside⟩ clocked pins,
        if_neg (show ¬ true = false from nofun)]
      by_cases word : offset = bsrr ∨ offset = brr
      · rw [if_pos word, if_pos word]
        exact isolated_turned_iff word
      · rw [if_neg word, if_neg word]
        exact isolated_copied_iff small word
  · rw [step_write_of_refused valid]
    exact ⟨fun _ some' small inside => absurd ⟨some', small, inside⟩ valid,
      fun _ => ⟨kept_self g, fun some' small inside => absurd ⟨some', small, inside⟩ valid⟩⟩

theorem seccfgr_of_alike {g g' : Gpio} (alike : g.Alike g') : g'.seccfgr = g.seccfgr := by
  refine BitVec.eq_of_getLsbD_eq fun i low => ?_
  rw [bit_seccfgr _ low, bit_seccfgr _ low]
  refine alike.bits _ ?_
  rintro ⟨p, here, -⟩
  have word : (384 + i) / 32 = 12 := by omega
  rw [pinOf, word] at here
  simp at here

theorem clockEnabled_of_alike {g g' : Gpio} (alike : g.Alike g') :
    g'.clockEnabled = g.clockEnabled := by
  rw [clockEnabled, clockEnabled, alike.ahb2enr, alike.index]

theorem readMask_of_alike {g g' : Gpio} (alike : g.Alike g') (offset : Word) :
    g'.readMask offset = g.readMask offset := by
  rw [readMask, readMask, seccfgr_of_alike alike]

theorem alike_flip {g : Gpio} {b : Nat} (secure : g.Secure b) :
    g.Alike { g with regs := g.regs.flip b } := by
  refine ⟨rfl, rfl, fun c other => ?_⟩
  rw [RegFile.bit_flip, decide_eq_false fun (same : c = b) => other (same ▸ secure), Bool.xor_false]

theorem serves_read_iff (g : Gpio) (offset n : Word) :
    g.Serves (.read offset n) ↔ g.Fits (.read offset n) := by
  rw [Serves, Fits]
  constructor
  · intro alike some' small inside clocked j reached secure
    have bound := BitVec.le_def.mp small
    change n.toNat ≤ 4 at bound
    have turned := alike_flip secure
    have same := alike _ turned
    rw [read, read, clockEnabled_of_alike turned, clocked, readMask_of_alike turned] at same
    simp only [some', BitVec.not_lt.mpr small, BitVec.not_le.mpr inside, or_self, if_false,
      Bool.false_eq_true, Bool.true_eq_false] at same
    have bit := congrArg (fun v : Word => v.getLsbD j) (Option.some.inj same)
    simp only [BitVec.getLsbD_and] at bit
    rw [RegFile.bit_slice _ _ _ (by omega), RegFile.bit_slice _ _ _ (by omega), RegFile.bit_flip,
      decide_eq_true reached, decide_eq_true rfl] at bit
    revert bit
    cases (g.readMask offset).getLsbD j with
    | false => exact fun _ => rfl
    | true => cases g.regs.bit (8 * offset.toNat + j) <;> exact nofun
  · intro fits g' alike
    rw [read, read, clockEnabled_of_alike alike, readMask_of_alike alike]
    split
    · rfl
    rename_i valid
    split
    · rfl
    rename_i inside
    split
    · rfl
    rename_i clocked
    obtain ⟨some', large⟩ := not_or.mp valid
    have hidden := fits some' (BitVec.not_lt.mp large) (BitVec.not_le.mp inside)
      (eq_true_of_ne_false clocked)
    refine congrArg some (BitVec.eq_of_getLsbD_eq fun i low => ?_)
    simp only [Bool.false_eq_true, if_false, BitVec.getLsbD_and]
    rw [RegFile.bit_slice _ _ _ low, RegFile.bit_slice _ _ _ low]
    by_cases reached : i < 8 * n.toNat
    · by_cases secure : g.Secure (8 * offset.toNat + i)
      · rw [hidden i reached secure, Bool.and_false, Bool.and_false]
      · rw [alike.bits _ secure]
    · rw [decide_eq_false reached]
      rfl

theorem isolated_iff (g : Gpio) (access : Access) :
    g.Kept (g.step access) ∧ g.Serves access ↔ g.Fits access := by
  cases access with
  | write offset n value => exact isolated_write_iff g offset n value
  | read offset n => exact (and_iff_right (kept_self g)).trans (serves_read_iff g offset n)

theorem guards_of_kept {g h : Gpio} (kept : g.Kept h) (b : Nat) : h.Guards b ↔ g.Guards b := by
  have same : h.seccfgr = g.seccfgr := by
    refine BitVec.eq_of_getLsbD_eq fun i low => ?_
    rw [bit_seccfgr _ low, bit_seccfgr _ low]
    exact kept _ (.inr (by omega))
  rw [Guards, Guards, Secure, Secure, same]

theorem kept_iff_of_kept {g h : Gpio} (kept : g.Kept h) (h' : Gpio) : g.Kept h' ↔ h.Kept h' := by
  refine forall_congr' fun b => ?_
  rw [guards_of_kept kept]
  exact forall_congr' fun guarded => by rw [kept b guarded]

/-- In a run of accesses through the Non-secure alias, the secure pins and SECCFGR stay as they were
and do not show, and the other pins are written, exactly if the masks of the handlers are right for
the accesses. -/
theorem gpio_isolated_iff (g : Gpio) (accesses : List Access) :
    Throughout step g.Kept g accesses ∧ Along step Serves g accesses ↔
      Along step Fits g accesses := by
  refine throughout_along_iff (fun h access kept => ?_) (kept_self g)
  rw [kept_iff_of_kept kept, isolated_iff]

def openDrain : Gpio where
  regs := (RegFile.zero.setWord 0x30 1).setWord 0x04 1
  ahb2enr := 1
  index := 0

theorem secure_pin_cleared :
    ¬ (Throughout step openDrain.Kept openDrain [.write 0x04 4 0] ∧
      Along step Serves openDrain [.write 0x04 4 0]) := by
  rintro ⟨⟨-, kept⟩, -⟩
  have cleared := kept 32 (.inl ⟨0, by decide +kernel, by decide +kernel⟩)
  exact absurd cleared (by decide +kernel)

end Gpio

end M33mu
