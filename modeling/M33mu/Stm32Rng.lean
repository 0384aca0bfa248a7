import M33mu.Lib.Bits
import M33mu.Stm32Usart

namespace M33mu

open Lib

/-- `rng_state`. -/
@[ext] structure Rng where
  regs : RegFile
  dr : Word
  drValid : Bool

/-- What an access leaves: the value of a read, whether a random word was drawn, whether the interrupt
was pended, and the generator. -/
structure RngAnswer where
  value : Option Word
  drew : Bool
  pended : Bool
  rng : Rng

namespace Rng

def cr (r : Rng) : Word := r.regs.word 0x00

def sr (r : Rng) : Word := r.regs.word 0x04

/-- `rng_clock_enabled`. -/
def clockEnabled (rcc : RegFile) : Bool := rcc.word 0x8C >>> 18 &&& 1 ≠ 0

/-- `rng_requires_secure`. -/
def requiresSecure (tzsc : RegFile) : Bool := tzsc.word 0x14 >>> 18 &&& 1 ≠ 0

/-- `rng_fill`, with what the host draws, or else 0; and whether the interrupt is pended. -/
def fill (r : Rng) (random : Word) : Rng × Bool :=
  ({ dr := random, drValid := true, regs := r.regs.setWord 0x04 (r.sr ||| 1) },
    r.cr.getLsbD 3)

def drop (r : Rng) : Rng :=
  { r with drValid := false, regs := r.regs.setWord 0x04 (r.sr &&& ~~~1) }

/-- `rng_read`, past the alias and the clock. -/
def readAny (r : Rng) (random : Word) (offset n : Nat) : RngAnswer :=
  let (filled, pended) := if r.drValid then (r, false) else r.fill random
  if offset = 0x04 then ⟨some filled.sr, !r.drValid, pended, filled⟩
  else if offset = 0x08 then ⟨some filled.dr, !r.drValid, pended, filled.drop⟩
  else ⟨some (r.regs.slice offset n), false, false, r⟩

/-- The checks of `rng_read` and `rng_write` before what they do; a write that is taken answers 0. -/
def gate (r : Rng) (secAlias : Bool) (tzsc rcc : RegFile) (offset n : Nat) (inner : RngAnswer) :
    RngAnswer :=
  if n = 0 ∨ 4 < n then ⟨none, false, false, r⟩
  else if 0x400 < offset + n then ⟨none, false, false, r⟩
  else if secAlias = false ∧ requiresSecure tzsc = true then ⟨some 0, false, false, r⟩
  else if clockEnabled rcc = false then ⟨some 0, false, false, r⟩
  else inner

/-- `rng_read`. -/
def read (r : Rng) (secAlias : Bool) (tzsc rcc : RegFile) (random : Word) (offset n : Nat) :
    RngAnswer :=
  r.gate secAlias tzsc rcc offset n (r.readAny random offset n)

/-- `rng_write`, past the alias and the clock. -/
def writeAny (r : Rng) (offset n : Nat) (value : Word) : RngAnswer :=
  if offset = 0x04 ∨ offset = 0x08 then ⟨some 0, false, false, r⟩
  else
    let r := { r with regs := r.regs.copy offset n value }
    if offset = 0x00 then
      let r := if value.getLsbD 2 then r else r.drop
      ⟨some 0, false, value.getLsbD 3 && r.sr.getLsbD 0, r⟩
    else ⟨some 0, false, false, r⟩

/-- `rng_write`. -/
def write (r : Rng) (secAlias : Bool) (tzsc rcc : RegFile) (offset n : Nat) (value : Word) :
    RngAnswer :=
  r.gate secAlias tzsc rcc offset n (r.writeAny offset n value)

def ReadsNothing (r : Rng) (offset n : Nat) : Prop :=
  if offset = 0x04 then r.drValid = true ∧ r.sr = 0
  else offset ≠ 0x08 ∧ r.regs.slice offset n = 0

def WritesNothing (r : Rng) (offset n : Nat) (value : Word) : Prop :=
  offset = 0x04 ∨ offset = 0x08 ∨
    (∀ b, 8 * offset ≤ b → b < 8 * (offset + n) → value.getLsbD (b - 8 * offset) = r.regs.bit b) ∧
      (offset = 0x00 → value.getLsbD 2 = false → r.drValid = false ∧ r.sr.getLsbD 0 = false)

def Asks (r : Rng) (offset : Nat) (value : Word) : Prop :=
  offset = 0x00 ∧ value.getLsbD 3 = true ∧ r.sr.getLsbD 0 = true

def idle (r : Rng) : RngAnswer := ⟨some 0, false, false, r⟩

def Reaches (rcc : RegFile) (offset n : Nat) : Prop :=
  n ≠ 0 ∧ n ≤ 4 ∧ offset + n ≤ 0x400 ∧ clockEnabled rcc = true

def missed (r : Rng) (offset n : Nat) : RngAnswer :=
  if n = 0 ∨ 4 < n ∨ 0x400 < offset + n then ⟨none, false, false, r⟩ else r.idle

section Gate

variable {r : Rng} {secAlias : Bool} {tzsc rcc : RegFile} {offset n : Nat} {inner : RngAnswer}

theorem gate_of_not_reaches (out : ¬ Reaches rcc offset n) :
    r.gate secAlias tzsc rcc offset n inner = r.missed offset n := by
  rw [gate, missed, idle]
  by_cases few : n = 0 ∨ 4 < n
  · have outside : n = 0 ∨ 4 < n ∨ 0x400 < offset + n := few.imp_right .inl
    rw [if_pos few, if_pos outside]
  by_cases low : 0x400 < offset + n
  · have outside : n = 0 ∨ 4 < n ∨ 0x400 < offset + n := .inr (.inr low)
    rw [if_neg few, if_pos low, if_pos outside]
  have inside : ¬ (n = 0 ∨ 4 < n ∨ 0x400 < offset + n) := by omega
  have off : clockEnabled rcc = false :=
    Bool.eq_false_iff.mpr fun on => out ⟨by omega, by omega, by omega, on⟩
  rw [if_neg few, if_neg low, if_neg inside, if_pos off, ite_self]

theorem gate_of_reaches (reaches : Reaches rcc offset n) :
    r.gate secAlias tzsc rcc offset n inner =
      if secAlias = false ∧ requiresSecure tzsc = true then r.idle else inner := by
  obtain ⟨some', few, low, on⟩ := reaches
  have clocked : ¬ clockEnabled rcc = false := by simp [on]
  rw [gate, if_neg (by omega), if_neg (by omega), if_neg clocked, idle]

theorem missed_rng : (r.missed offset n).rng = r := by
  rw [missed]
  split <;> rfl

theorem missed_drew : (r.missed offset n).drew = false := by
  rw [missed]
  split <;> rfl

theorem missed_value : ∀ v ∈ (r.missed offset n).value, v = 0 := by
  rw [missed]
  split
  · exact nofun
  · exact fun v is => (Option.some.inj is).symm

end Gate

theorem readAny_unseen_iff (r : Rng) (random : Word) (offset n : Nat) :
    (r.readAny random offset n).value = some 0 ∧ (r.readAny random offset n).drew = false ∧
      (r.readAny random offset n).rng = r ↔ r.ReadsNothing offset n := by
  rw [ReadsNothing]
  by_cases status : offset = 0x04
  · rw [if_pos status, readAny]
    cases valid : r.drValid with
    | true => simp [status]
    | false => simp [status]
  rw [if_neg status]
  by_cases data : offset = 0x08
  · refine iff_of_false ?_ fun is => is.1 data
    rw [readAny]
    cases valid : r.drValid with
    | true =>
      rintro ⟨-, -, kept⟩
      have taken := congrArg drValid kept
      simp [data, drop, valid] at taken
    | false => simp [data]
  · rw [readAny]
    simp [status, data]

theorem readAny_pended {r : Rng} {random : Word} {offset n : Nat}
    (still : (r.readAny random offset n).drew = false) :
    (r.readAny random offset n).pended = false := by
  rw [readAny] at still ⊢
  by_cases ready : r.drValid = true
  · rw [if_pos ready]
    dsimp only
    split
    · rfl
    · split <;> rfl
  · rw [if_neg ready, Bool.eq_false_iff.mpr ready] at still
    dsimp only at still ⊢
    by_cases status : offset = 0x04
    · rw [if_pos status] at still
      cases still
    by_cases data : offset = 0x08
    · rw [if_neg status, if_pos data] at still
      cases still
    · rw [if_neg status, if_neg data]

theorem readAny_idle_iff (r : Rng) (random : Word) (offset n : Nat) :
    r.readAny random offset n = r.idle ↔ r.ReadsNothing offset n := by
  rw [← readAny_unseen_iff r random]
  constructor
  · intro is
    rw [is]
    exact ⟨rfl, rfl, rfl⟩
  · rintro ⟨value, still, kept⟩
    have quiet := readAny_pended still
    generalize r.readAny random offset n = x at value still kept quiet
    obtain ⟨v, drew, pended, rng⟩ := x
    subst value still kept quiet
    rfl

theorem drop_eq_self_iff (r : Rng) : r.drop = r ↔ r.drValid = false ∧ r.sr.getLsbD 0 = false := by
  have cleared : r.sr &&& ~~~1 = r.sr ↔ r.sr.getLsbD 0 = false := by
    rw [show (1 : Word) = BitVec.twoPow 32 0 by decide]
    exact and_not_twoPow_eq_self_iff (by decide)
  rw [← cleared]
  constructor
  · intro same
    have status := congrArg sr same
    rw [sr, drop, RegFile.word_setWord] at status
    exact ⟨(congrArg drValid same).symm, status⟩
  · rintro ⟨ready, status⟩
    rw [drop, status, sr, RegFile.setWord_self, ← ready]

theorem writeAny_rng_iff (r : Rng) {offset n : Nat} (small : n ≤ 4) (value : Word) :
    (r.writeAny offset n value).rng = r ↔ r.WritesNothing offset n value := by
  have copied : ({ r with regs := r.regs.copy offset n value } : Rng) = r ↔ ∀ b, 8 * offset ≤ b →
      b < 8 * (offset + n) → value.getLsbD (b - 8 * offset) = r.regs.bit b := by
    rw [← RegFile.copy_eq_self_iff, Rng.ext_iff]
    exact and_iff_left ⟨rfl, rfl⟩
  rw [writeAny, WritesNothing]
  by_cases ignored : offset = 0x04 ∨ offset = 0x08
  · rw [if_pos ignored]
    exact iff_of_true rfl (ignored.imp_right .inl)
  rw [if_neg ignored, ← or_assoc, or_iff_right ignored, ← copied]
  by_cases control : offset = 0x00
  · subst control
    rw [if_pos rfl]
    dsimp only
    cases bit : value.getLsbD 2 with
    | true => simp
    | false =>
      rw [if_neg Bool.false_ne_true, forall_prop_of_true rfl, forall_prop_of_true rfl,
        ← drop_eq_self_iff]
      constructor
      · intro kept
        have regs := congrArg Rng.regs kept
        have same : ({ r with regs := r.regs.copy 0x00 n value } : Rng) = r := by
          refine copied.mpr fun b _ last => ?_
          rw [← congrArg (fun r : RegFile => r.bit b) regs, drop, RegFile.setWord]
          dsimp only
          rw [RegFile.bit_copy, if_neg (by omega), RegFile.bit_copy, if_pos ⟨by omega, last⟩]
        rw [same] at kept
        exact ⟨same, kept⟩
      · rintro ⟨same, dropped⟩
        rw [same, dropped]
  · rw [if_neg control]
    exact (and_iff_left fun is => absurd is control).symm

theorem writeAny_eq (r : Rng) (offset n : Nat) (value : Word) :
    r.writeAny offset n value = ⟨some 0, false, (r.writeAny offset n value).pended,
      (r.writeAny offset n value).rng⟩ := by
  rw [writeAny]
  split
  · rfl
  · split <;> rfl

theorem writeAny_pended (r : Rng) (offset n : Nat) (value : Word) :
    (r.writeAny offset n value).pended = true ↔ (r.writeAny offset n value).rng.Asks offset value := by
  rw [writeAny, Asks]
  by_cases ignored : offset = 0x04 ∨ offset = 0x08
  · rw [if_pos ignored]
    exact iff_of_false nofun fun is => by omega
  rw [if_neg ignored]
  by_cases control : offset = 0x00
  · rw [if_pos control]
    exact (Bool.and_eq_true ..).to_iff.trans (and_iff_right control).symm
  · rw [if_neg control]
    exact iff_of_false nofun fun is => control is.1

theorem writeAny_idle_iff (r : Rng) {offset n : Nat} (small : n ≤ 4) (value : Word) :
    r.writeAny offset n value = r.idle ↔
      r.WritesNothing offset n value ∧ ¬ r.Asks offset value := by
  have pended := writeAny_pended r offset n value
  rw [← writeAny_rng_iff r small]
  constructor
  · intro is
    have kept : (r.writeAny offset n value).rng = r := by rw [is, idle]
    rw [kept, is] at pended
    exact ⟨kept, fun asks => Bool.false_ne_true (pended.mpr asks)⟩
  · rintro ⟨kept, quiet⟩
    rw [kept] at pended
    rw [writeAny_eq, kept, Bool.eq_false_iff.mpr fun is => quiet (pended.mp is)]
    rfl

end Rng

end M33mu
