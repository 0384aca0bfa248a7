import M33mu.ControlSpace
import M33mu.Execute

namespace M33mu

open Lib Decode

inductive Branch
  | cond (c : Fin 14) (off : BitVec 8)
  | uncond (off : BitVec 11)
  | zero (nonzero : Bool) (rn : BitVec 3) (off : BitVec 6)
  | condWide (c : Fin 14) (off : BitVec 20)
  | uncondWide (off : BitVec 24)
  | link (off : BitVec 24)
  deriving DecidableEq, Repr

namespace Branch

def condition (c : Fin 14) : BitVec 4 := BitVec.ofNat 4 c

/-- `J1` and `J2`, which are inverted where the sign is clear. -/
def jBit (i s : BitVec 1) : BitVec 1 := ~~~(i ^^^ s)

def condWord (c : BitVec 4) (s j2 j1 : BitVec 1) (imm6 : BitVec 6) (imm11 : BitVec 11) : Word :=
  0b11110#5 ++ s ++ c ++ imm6 ++ 0b10#2 ++ j1 ++ 0#1 ++ j2 ++ imm11

def farWord (l s i1 i2 : BitVec 1) (imm10 : BitVec 10) (imm11 : BitVec 11) : Word :=
  0b11110#5 ++ s ++ imm10 ++ 1#1 ++ l ++ jBit i1 s ++ 1#1 ++ jBit i2 s ++ imm11

def far (l : BitVec 1) (off : BitVec 24) : Word :=
  farWord l (off.extractLsb' 23 1) (off.extractLsb' 22 1) (off.extractLsb' 21 1)
    (off.extractLsb' 11 10) (off.extractLsb' 0 11)

def zeroHalf (nonzero i : BitVec 1) (imm5 : BitVec 5) (rn : BitVec 3) : Half :=
  0b1011#4 ++ nonzero ++ 0#1 ++ i ++ 1#1 ++ imm5 ++ rn

def encode : Branch → Word
  | cond c off => (0b1101#4 ++ condition c ++ off).setWidth 32
  | uncond off => (0b11100#5 ++ off).setWidth 32
  | zero nonzero rn off =>
    (zeroHalf (.ofBool nonzero) (off.extractLsb' 5 1) (off.extractLsb' 0 5) rn).setWidth 32
  | condWide c off =>
    condWord (condition c) (off.extractLsb' 19 1) (off.extractLsb' 18 1) (off.extractLsb' 17 1)
      (off.extractLsb' 11 6) (off.extractLsb' 0 11)
  | uncondWide off => far 0 off
  | link off => far 1 off

def len : Branch → Byte
  | cond .. | uncond .. | zero .. => 2
  | condWide .. | uncondWide .. | link .. => 4

def kind : Branch → OpKind
  | cond .. => .bCond
  | uncond .. => .bUncond
  | zero nonzero .. => if nonzero then .cbnz else .cbz
  | condWide .. => .bCondWide
  | uncondWide .. => .bUncondWide
  | link .. => .bl

/-- The offset in bytes; only `CBZ` and `CBNZ` cannot branch backwards. -/
def offset : Branch → Word
  | cond _ off => (off ++ 0#1).signExtend 32
  | uncond off => (off ++ 0#1).signExtend 32
  | zero _ _ off => (off ++ 0#1).setWidth 32
  | condWide _ off => (off ++ 0#1).signExtend 32
  | uncondWide off => (off ++ 0#1).signExtend 32
  | link off => (off ++ 0#1).signExtend 32

def cond? : Branch → Byte
  | cond c _ | condWide c _ => (condition c).setWidth 8
  | _ => 14

def register : Branch → Reg
  | zero _ rn _ => Fin.ofNat 16 rn.toNat
  | _ => 0

structure Fetched (b : Branch) (f : FetchResult) : Prop where
  clean : f.fault = false
  len : f.len = b.len
  insn : f.insn = b.encode

structure DecodesTo (b : Branch) (d : Decoded) : Prop where
  defined : d.undefined = false
  kind : d.kind = b.kind
  cond : d.cond = b.cond?
  rn : d.rn = b.register
  imm : d.imm = b.offset

def holds (c : Fin 14) (f : Flags) : Bool :=
  let test := match c.val / 2 with
    | 0 => f.z
    | 1 => f.c
    | 2 => f.n
    | 3 => f.v
    | 4 => f.c && !f.z
    | 5 => f.n == f.v
    | _ => f.n == f.v && !f.z
  test ^^ decide (c.val % 2 = 1)

def taken (b : Branch) (c : Cpu) : Bool :=
  match b with
  | cond k _ | condWide k _ => holds k (.ofXpsr c.xpsr)
  | zero nonzero rn _ => decide (c.r (Fin.ofNat 16 rn.toNat) = 0) ^^ nonzero
  | uncond _ | uncondWide _ | link _ => true

structure Sound (δ : Type u) (b : Branch) (f : FetchResult) (d : Decoded) : Prop where
  decoded : b.DecodesTo d
  goes : ∀ (env : Env δ) (m : Machine δ),
    (executeDecoded env f d m).2.cpu.r 15 =
      if b.taken m.cpu then (f.pcFetch + 4 + b.offset) ||| 1 else m.cpu.r 15

/-- What the decoder gets right: `J1` and `J2` are read in the wrong order, and `MRS` and `MSR`
are told from branches by too few bits. -/
def Exact : Branch → Prop
  | condWide _ off => off.getLsbD 18 = off.getLsbD 17
  | uncondWide off | link off =>
    ¬ (off.extractLsb' 23 1 = 0 ∧
      (off.extractLsb' 11 10 = 0b1111101111 ∨ off.extractLsb' 15 6 = 0b111000))
  | cond .. | uncond _ | zero .. => True

theorem bit_eq (b : BitVec 1) : b.getLsbD 0 = decide (b = 1) := by
  revert b
  decide

theorem jBit_invert (i s : BitVec 1) :
    (jBit i s).setWidth 32 ^^^ 1 ^^^ s.setWidth 32 = i.setWidth 32 := by
  revert i s
  decide

theorem sign_ne_zero (s : BitVec 1) : s.setWidth 32 ≠ (0 : Word) ↔ s.msb := by
  revert s
  decide

theorem farOffset_farWord (l s i1 i2 : BitVec 1) (imm10 : BitVec 10) (imm11 : BitVec 11) :
    Decode32.farOffset (farWord l s i1 i2 imm10 imm11) =
      (s ++ i1 ++ i2 ++ imm10 ++ imm11 ++ 0#1).signExtend 32 := by
  simp (disch := decide) only [Decode32.farOffset, farWord, Decode32.bits_eq,
    BitVec.extractLsb'_append_eq_of_le, BitVec.extractLsb'_append_eq_of_add_le]
  simp only [BitVec.extractLsb'_eq_self, Nat.reduceSub, jBit_invert, sign_ne_zero]
  rw [signExtend_double _ _ (by decide)]
  simp only [BitVec.msb_append, BitVec.setWidth_append_eq_shiftLeft_setWidth_or,
    BitVec.shiftLeft_or_distrib, ← BitVec.shiftLeft_add]
  simp

theorem condOffset_condWord (c : BitVec 4) (s j2 j1 : BitVec 1) (imm6 : BitVec 6)
    (imm11 : BitVec 11) :
    Decode32.condOffset (condWord c s j2 j1 imm6 imm11) =
      (s ++ j1 ++ j2 ++ imm6 ++ imm11 ++ 0#1).signExtend 32 := by
  simp (disch := decide) only [Decode32.condOffset, condWord, Decode32.bits_eq,
    BitVec.extractLsb'_append_eq_of_le, BitVec.extractLsb'_append_eq_of_add_le]
  simp only [BitVec.extractLsb'_eq_self, Nat.reduceSub, sign_ne_zero]
  rw [signExtend_double _ _ (by decide)]
  simp only [BitVec.msb_append, BitVec.setWidth_append_eq_shiftLeft_setWidth_or,
    BitVec.shiftLeft_or_distrib, ← BitVec.shiftLeft_add]
  simp

theorem condition_apart (c : Fin 14) :
    ∀ q ∈ controlHeads, Pattern.Apart ⟨0xff00, 0b1101#4 ++ condition c ++ 0#8⟩ q := by
  revert c
  decide

theorem condition_within (c : Fin 14) :
    Pattern.Within ⟨0xff00, 0b1101#4 ++ condition c ++ 0#8⟩ ⟨0xf000, 0xd000⟩ := by
  revert c
  decide

theorem condition_ne (c : Fin 14) : (condition c).setWidth 16 ≠ 15#16 := by
  revert c
  decide

theorem condition_byte (c : Fin 14) :
    ((condition c).setWidth 16).setWidth 8 = (condition c).setWidth 8 := by
  revert c
  decide

theorem decode16_cond (c : Fin 14) (off : BitVec 8) :
    decode16 (0b1101#4 ++ condition c ++ off) =
      { Decoded.default 2 ((0b1101#4 ++ condition c ++ off).setWidth 32) with
        kind := .bCond
        cond := (condition c).setWidth 8
        imm := (off ++ 0#1).signExtend 32
        undefined := false } := by
  have head : Pattern.Matches ⟨0xff00, 0b1101#4 ++ condition c ++ 0#8⟩
      (0b1101#4 ++ condition c ++ off) := by
    show _ &&& (0xf#4 ++ 0xf#4 ++ 0#8) = _
    rw [BitVec.and_append, BitVec.and_append, BitVec.and_zero]
    congr 2
    exact BitVec.and_allOnes
  have row : (0b1101#4 ++ condition c ++ off).extractLsb' 12 4 = 0xd#4 := by
    simp (disch := decide) only [BitVec.extractLsb'_append_eq_of_le, BitVec.extractLsb'_eq_self,
      Nat.reduceSub]
  have nibble : (0b1101#4 ++ condition c ++ off).extractLsb' 8 4 = condition c := by
    simp (disch := decide) only [BitVec.extractLsb'_append_eq_of_le,
      BitVec.extractLsb'_append_eq_of_add_le, BitVec.extractLsb'_eq_self, Nat.reduceSub]
  have low : (0b1101#4 ++ condition c ++ off).extractLsb' 0 8 = off := by
    simp (disch := decide) only [BitVec.extractLsb'_append_eq_of_add_le, BitVec.extractLsb'_eq_self]
  have accepted := (condition_within c).matches head
  revert head row nibble low accepted
  generalize 0b1101#4 ++ condition c ++ off = hw1
  intro head row nibble low accepted
  have sign : (off.setWidth 32 <<< 1).getLsbD 8 = off.msb := by
    simp [BitVec.msb_eq_getLsbD_last]
  have ordinary : hw1 >>> 8 &&& 0x0f ≠ 15 := by
    rw [nibble_eq, nibble]
    exact condition_ne c
  simp only [decode16, row_eq, row, BitVec.toNat_ofNat, Nat.reducePow, Nat.reduceMod, firstOf]
  rw [control_refuse head (condition_apart c)]
  simp only
  rw [branchCond, if_pos ⟨accepted, ordinary⟩, nibble_eq, nibble, condition_byte, imm_eq, low,
    signExtend_double _ _ (by decide)]
  simp only [sign]
  rfl

theorem decode16_uncond (off : BitVec 11) :
    decode16 (0b11100#5 ++ off) =
      { Decoded.default 2 ((0b11100#5 ++ off).setWidth 32) with
        kind := .bUncond
        imm := (off ++ 0#1).signExtend 32
        undefined := false } := by
  have head : Pattern.Matches ⟨0xf800, 0xe000⟩ (0b11100#5 ++ off) := by
    show _ &&& (0x1f#5 ++ 0#11) = 0b11100#5 ++ 0#11
    rw [BitVec.and_append, BitVec.and_zero]
    rfl
  have row : (0b11100#5 ++ off).extractLsb' 12 4 = 0xe#4 := by
    simp (disch := decide) only [BitVec.extractLsb'_append_eq_of_le]
    decide
  have low : (0b11100#5 ++ off).extractLsb' 0 11 = off := by
    simp (disch := decide) only [BitVec.extractLsb'_append_eq_of_add_le, BitVec.extractLsb'_eq_self]
  revert head row low
  generalize 0b11100#5 ++ off = hw1
  intro head row low
  have sign : (off.setWidth 32 <<< 1).getLsbD 11 = off.msb := by
    simp [BitVec.msb_eq_getLsbD_last]
  simp only [decode16, row_eq, row, BitVec.toNat_ofNat, Nat.reducePow, Nat.reduceMod, firstOf]
  have accepted : hw1 &&& 0xf800 = 0xe000 := head
  rw [control_refuse head (by decide)]
  simp only
  rw [branchUncond, if_pos accepted, imm_eq, low, signExtend_double _ _ (by decide)]
  simp only [sign]
  rfl

theorem decode16_zero (nonzero i : BitVec 1) (imm5 : BitVec 5) (rn : BitVec 3) :
    decode16 (zeroHalf nonzero i imm5 rn) =
      { Decoded.default 2 ((zeroHalf nonzero i imm5 rn).setWidth 32) with
        kind := if nonzero = 1 then .cbnz else .cbz
        rn := Fin.ofNat 16 rn.toNat
        imm := (i ++ imm5 ++ 0#1).setWidth 32
        undefined := false } := by
  have head : Pattern.Matches ⟨0xf500, 0xb100⟩ (zeroHalf nonzero i imm5 rn) := by
    show (0b1011#4 ++ nonzero ++ 0#1 ++ i ++ 1#1 ++ imm5 ++ rn) &&&
      (0xf#4 ++ 0#1 ++ 1#1 ++ 0#1 ++ 1#1 ++ 0#5 ++ 0#3) =
      0xb#4 ++ 0#1 ++ 0#1 ++ 0#1 ++ 1#1 ++ 0#5 ++ 0#3
    simp only [BitVec.and_append, BitVec.and_zero]
    rfl
  have fields : (zeroHalf nonzero i imm5 rn).extractLsb' 12 4 = 0xb#4 ∧
      (zeroHalf nonzero i imm5 rn).extractLsb' 11 1 = nonzero ∧
      (zeroHalf nonzero i imm5 rn).extractLsb' 9 1 = i ∧
      (zeroHalf nonzero i imm5 rn).extractLsb' 3 5 = imm5 ∧
      (zeroHalf nonzero i imm5 rn).extractLsb' 0 3 = rn := by
    simp (disch := decide) only [zeroHalf, BitVec.extractLsb'_append_eq_of_le,
      BitVec.extractLsb'_append_eq_of_add_le, BitVec.extractLsb'_eq_self, Nat.reduceSub, and_self]
  revert head fields
  generalize zeroHalf nonzero i imm5 rn = hw1
  rintro head ⟨row, op, high, low, register⟩
  have accepted : hw1 &&& 0xf500 = 0xb100 := head
  have which : hw1.getLsbD 11 = decide (nonzero = 1) := by
    have bit : hw1.getLsbD 11 = nonzero.getLsbD 0 := by rw [← op]; simp
    exact bit.trans (bit_eq nonzero)
  simp only [decode16, row_eq, row, BitVec.toNat_ofNat, Nat.reducePow, Nat.reduceMod, firstOf]
  rw [control_refuse head (by decide)]
  simp only
  rw [stackMisc_refuse head (by decide)]
  simp only
  rw [branchMisc, if_pos accepted, imm_eq, imm_eq, reg_eq, high, low, register, which,
    BitVec.setWidth_append_eq_shiftLeft_setWidth_or, BitVec.setWidth_append_eq_shiftLeft_setWidth_or,
    BitVec.shiftLeft_or_distrib, ← BitVec.shiftLeft_add]
  simp
  rfl
theorem bit_cases (b : BitVec 1) : b = 0 ∨ b = 1 := by
  revert b
  decide

theorem condition_high (c : Fin 14) : condition c &&& 0xe#4 ≠ 0xe#4 := by
  revert c
  decide

theorem condition_word (c : Fin 14) :
    ((condition c).setWidth 32).setWidth 8 = (condition c).setWidth 8 := by
  revert c
  decide

theorem decode32_condWord (c : Fin 14) (s j2 j1 : BitVec 1) (imm6 : BitVec 6) (imm11 : BitVec 11) :
    decode32 (condWord (condition c) s j2 j1 imm6 imm11) =
      { Decoded.default 4 (condWord (condition c) s j2 j1 imm6 imm11) with
        kind := .bCondWide
        cond := (condition c).setWidth 8
        imm := (s ++ j1 ++ j2 ++ imm6 ++ imm11 ++ 0#1).signExtend 32
        undefined := false } := by
  have head : condWord (condition c) s j2 j1 imm6 imm11 &&& 0xf800d000 = 0xf0008000 := by
    show (0b11110#5 ++ s ++ condition c ++ imm6 ++ 0b10#2 ++ j1 ++ 0#1 ++ j2 ++ imm11) &&&
      (0x1f#5 ++ 0#1 ++ 0#4 ++ 0#6 ++ 0b11#2 ++ 0#1 ++ 1#1 ++ 0#1 ++ 0#11) = _
    simp only [BitVec.and_append, BitVec.and_zero]
    rfl
  have masked : condWord (condition c) s j2 j1 imm6 imm11 &&& 0x03800000 =
      0#5 ++ 0#1 ++ (condition c &&& 0xe#4) ++ 0#6 ++ 0#2 ++ 0#1 ++ 0#1 ++ 0#1 ++ 0#11 := by
    show (0b11110#5 ++ s ++ condition c ++ imm6 ++ 0b10#2 ++ j1 ++ 0#1 ++ j2 ++ imm11) &&&
      (0#5 ++ 0#1 ++ 0xe#4 ++ 0#6 ++ 0#2 ++ 0#1 ++ 0#1 ++ 0#1 ++ 0#11) = _
    simp only [BitVec.and_append, BitVec.and_zero]
  have own : ¬ Decode32.Diverted (condWord (condition c) s j2 j1 imm6 imm11) := by
    intro diverted
    have high := congrArg (BitVec.extractLsb' 22 4) (masked.symm.trans diverted.high)
    simp (disch := decide) only [BitVec.extractLsb'_append_eq_of_le,
      BitVec.extractLsb'_append_eq_of_add_le, BitVec.extractLsb'_eq_self, Nat.reduceSub] at high
    exact condition_high c high
  have nibble : Decode32.bits (condWord (condition c) s j2 j1 imm6 imm11) 22 4 =
      (condition c).setWidth 32 := by
    simp (disch := decide) only [Decode32.bits_eq, condWord, BitVec.extractLsb'_append_eq_of_le,
      BitVec.extractLsb'_append_eq_of_add_le, BitVec.extractLsb'_eq_self, Nat.reduceSub]
  rw [Decode32.decode32_near head own, nibble, condition_word, condOffset_condWord]

def farHead (l : BitVec 1) : Pattern 32 :=
  ⟨0xf800d000, 0b11110#5 ++ 0#1 ++ 0#10 ++ 1#1 ++ l ++ 0#1 ++ 1#1 ++ 0#1 ++ 0#11⟩

theorem farWord_matches (l s i1 i2 : BitVec 1) (imm10 : BitVec 10) (imm11 : BitVec 11) :
    (farHead l).Matches (farWord l s i1 i2 imm10 imm11) := by
  show (0b11110#5 ++ s ++ imm10 ++ 1#1 ++ l ++ jBit i1 s ++ 1#1 ++ jBit i2 s ++ imm11) &&&
    (0x1f#5 ++ 0#1 ++ 0#10 ++ 1#1 ++ 1#1 ++ 0#1 ++ 1#1 ++ 0#1 ++ 0#11) = _
  have all : l &&& 1#1 = l := BitVec.and_allOnes
  simp only [BitVec.and_append, BitVec.and_zero, all]
  rfl

theorem decode32_sys {l : BitVec 1} {insn : Word} (head : (farHead l).Matches insn)
    (sys : insn &&& 0xffff0000 = 0xf3ef0000 ∨ insn &&& 0xfff08000 = 0xf3808000) :
    (decode32 insn).kind = .mrs ∨ (decode32 insn).kind = .msr := by
  rcases bit_cases l with rfl | rfl <;> rcases sys with mrs | msr
  · exact .inl (Decode32.decode32_mrs head Decode32.candidates_far mrs)
  · exact .inr (Decode32.decode32_msr head Decode32.candidates_far msr)
  · exact .inl (Decode32.decode32_mrs head Decode32.candidates_link mrs)
  · exact .inr (Decode32.decode32_msr head Decode32.candidates_link msr)

theorem decode32_far {l : BitVec 1} {insn : Word} (head : (farHead l).Matches insn)
    (mrs : insn &&& 0xffff0000 ≠ 0xf3ef0000) (msr : insn &&& 0xfff08000 ≠ 0xf3808000) :
    decode32 insn =
      { Decoded.default 4 insn with
        kind := if l = 1 then .bl else .bUncondWide
        imm := Decode32.farOffset insn
        undefined := false } := by
  rcases bit_cases l with rfl | rfl
  · exact Decode32.decode32_far head mrs msr
  · exact Decode32.decode32_link head mrs msr

theorem farWord_mrs (l s i1 i2 : BitVec 1) (imm10 : BitVec 10) (imm11 : BitVec 11) :
    farWord l s i1 i2 imm10 imm11 &&& 0xffff0000 = 0xf3ef0000 ↔ s = 0 ∧ imm10 = 0b1111101111 := by
  have masked : farWord l s i1 i2 imm10 imm11 &&& 0xffff0000 =
      0b11110#5 ++ s ++ imm10 ++ 0#1 ++ 0#1 ++ 0#1 ++ 0#1 ++ 0#1 ++ 0#11 := by
    show (0b11110#5 ++ s ++ imm10 ++ 1#1 ++ l ++ jBit i1 s ++ 1#1 ++ jBit i2 s ++ imm11) &&&
      (0x1f#5 ++ 1#1 ++ 0x3ff#10 ++ 0#1 ++ 0#1 ++ 0#1 ++ 0#1 ++ 0#1 ++ 0#11) = _
    have sign : s &&& 1#1 = s := BitVec.and_allOnes
    have all : imm10 &&& 0x3ff#10 = imm10 := BitVec.and_allOnes
    simp only [BitVec.and_append, BitVec.and_zero, sign, all]
    rfl
  rw [masked]
  constructor
  · intro same
    have sign := congrArg (BitVec.extractLsb' 26 1) same
    have high := congrArg (BitVec.extractLsb' 16 10) same
    simp (disch := decide) only [BitVec.extractLsb'_append_eq_of_le,
      BitVec.extractLsb'_append_eq_of_add_le, BitVec.extractLsb'_eq_self, Nat.reduceSub]
      at sign high
    exact ⟨sign, high⟩
  · rintro ⟨rfl, rfl⟩
    rfl

theorem farWord_msr (l s i1 i2 : BitVec 1) (a : BitVec 6) (b : BitVec 4) (imm11 : BitVec 11) :
    farWord l s i1 i2 (a ++ b) imm11 &&& 0xfff08000 = 0xf3808000 ↔ s = 0 ∧ a = 0b111000 := by
  have masked : farWord l s i1 i2 (a ++ b) imm11 &&& 0xfff08000 =
      0b11110#5 ++ s ++ (a ++ 0#4) ++ 1#1 ++ 0#1 ++ 0#1 ++ 0#1 ++ 0#1 ++ 0#11 := by
    show (0b11110#5 ++ s ++ (a ++ b) ++ 1#1 ++ l ++ jBit i1 s ++ 1#1 ++ jBit i2 s ++ imm11) &&&
      (0x1f#5 ++ 1#1 ++ (0x3f#6 ++ 0#4) ++ 1#1 ++ 0#1 ++ 0#1 ++ 0#1 ++ 0#1 ++ 0#11) = _
    have sign : s &&& 1#1 = s := BitVec.and_allOnes
    have all : a &&& 0x3f#6 = a := BitVec.and_allOnes
    simp only [BitVec.and_append, BitVec.and_zero, sign, all]
    rfl
  rw [masked]
  constructor
  · intro same
    have sign := congrArg (BitVec.extractLsb' 26 1) same
    have high := congrArg (BitVec.extractLsb' 20 6) same
    simp (disch := decide) only [BitVec.extractLsb'_append_eq_of_le,
      BitVec.extractLsb'_append_eq_of_add_le, BitVec.extractLsb'_eq_self, Nat.reduceSub]
      at sign high
    exact ⟨by simpa using sign, high⟩
  · rintro ⟨rfl, rfl⟩
    rfl

theorem far_parts (off : BitVec 24) :
    off.extractLsb' 23 1 ++ off.extractLsb' 22 1 ++ off.extractLsb' 21 1 ++ off.extractLsb' 11 10 ++
      off.extractLsb' 0 11 = off := by
  simp (disch := rfl) only [BitVec.extractLsb'_append_extractLsb'_eq_extractLsb',
    BitVec.extractLsb'_eq_self]

theorem high_parts (off : BitVec 24) :
    off.extractLsb' 11 10 = off.extractLsb' 15 6 ++ off.extractLsb' 11 4 := by
  simp (disch := rfl) only [BitVec.extractLsb'_append_extractLsb'_eq_extractLsb']

theorem cond_parts (off : BitVec 20) :
    off.extractLsb' 19 1 ++ off.extractLsb' 18 1 ++ off.extractLsb' 17 1 ++ off.extractLsb' 11 6 ++
      off.extractLsb' 0 11 = off := by
  simp (disch := rfl) only [BitVec.extractLsb'_append_extractLsb'_eq_extractLsb',
    BitVec.extractLsb'_eq_self]

theorem zero_parts (off : BitVec 6) : off.extractLsb' 5 1 ++ off.extractLsb' 0 5 = off := by
  simp (disch := rfl) only [BitVec.extractLsb'_append_extractLsb'_eq_extractLsb',
    BitVec.extractLsb'_eq_self]

theorem condPassed_condition (c : Fin 14) (f : Flags) :
    condPassed f ((condition c).setWidth 8) = holds c f := by
  obtain ⟨n, z, c', v⟩ := f
  revert c n z c' v
  decide

theorem branchTo_r (m : Machine δ) (target : Word) :
    (Execute.branchTo m target).2.cpu.r 15 = target ||| 1 := rfl

theorem DecodesTo.goes {b : Branch} {f : FetchResult} {d : Decoded} (decoded : b.DecodesTo d)
    {δ : Type u} (env : Env δ) (m : Machine δ) :
    (executeDecoded env f d m).2.cpu.r 15 =
      if b.taken m.cpu then (f.pcFetch + 4 + b.offset) ||| 1 else m.cpu.r 15 := by
  unfold executeDecoded
  rw [decoded.kind, decoded.cond, decoded.rn, decoded.imm]
  cases b with
  | cond c off | condWide c off =>
    dsimp only [Branch.kind, cond?, taken]
    simp only [condPassed_condition]
    by_cases passed : holds c (.ofXpsr m.cpu.xpsr) = true <;> simp [passed, branchTo_r]
  | zero nonzero rn off =>
    cases nonzero with
    | false =>
      rw [show (zero false rn off).kind = .cbz from rfl]
      dsimp only [register, taken]
      by_cases none : m.cpu.r (Fin.ofNat 16 rn.toNat) = 0
      · simp only [none, decide_true]
        simp [branchTo_r]
      · simp only [none, decide_false]
        simp
    | true =>
      rw [show (zero true rn off).kind = .cbnz from rfl]
      dsimp only [register, taken]
      by_cases none : m.cpu.r (Fin.ofNat 16 rn.toNat) = 0
      · simp only [none, decide_true]
        simp
      · simp only [none, decide_false]
        simp [branchTo_r]
  | uncond off | uncondWide off | link off => rfl

theorem decodesTo_wide {b : Branch} {f : FetchResult} (fetched : b.Fetched f) (len : b.len = 4) :
    decodeT32 decode32 f = decode32 b.encode := by
  rw [decodeT32_wide fetched.clean (fetched.len.trans len), fetched.insn]

theorem decodesTo_narrow {b : Branch} {f : FetchResult} (fetched : b.Fetched f) (len : b.len = 2) :
    b.DecodesTo (decodeT32 decode32 f) := by
  have word : decodeT32 decode32 f = decode16 (b.encode.setWidth 16) := by
    rw [decodeT32, fetched.clean, fetched.len, fetched.insn, len]
    rfl
  rw [word]
  cases b with
  | cond c off =>
    rw [encode, BitVec.setWidth_setWidth_of_le _ (by decide), BitVec.setWidth_eq, decode16_cond]
    exact ⟨rfl, rfl, rfl, rfl, rfl⟩
  | uncond off =>
    rw [encode, BitVec.setWidth_setWidth_of_le _ (by decide), BitVec.setWidth_eq, decode16_uncond]
    exact ⟨rfl, rfl, rfl, rfl, rfl⟩
  | zero nonzero rn off =>
    rw [encode, BitVec.setWidth_setWidth_of_le _ (by decide), BitVec.setWidth_eq, decode16_zero,
      zero_parts]
    refine ⟨rfl, ?_, rfl, rfl, rfl⟩
    cases nonzero <;> rfl
  | condWide | uncondWide | link => simp [Branch.len] at len

theorem decodesTo_condWide {c : Fin 14} {off : BitVec 20} :
    (condWide c off).DecodesTo (decode32 (condWide c off).encode) ↔
      off.getLsbD 18 = off.getLsbD 17 := by
  rw [encode, decode32_condWord]
  constructor
  · intro decoded
    have bit := congrArg (fun v : Word => v.getLsbD 19) decoded.imm
    simp only [offset, BitVec.getLsbD_signExtend, BitVec.getLsbD_append,
      BitVec.getLsbD_extractLsb'] at bit
    simpa using bit.symm
  · intro same
    have swapped : off.extractLsb' 17 1 = off.extractLsb' 18 1 := by
      apply BitVec.eq_of_getLsbD_eq
      intro i hi
      obtain rfl : i = 0 := Nat.lt_one_iff.mp hi
      simpa using same.symm
    refine ⟨rfl, rfl, rfl, rfl, ?_⟩
    show BitVec.signExtend 32 _ = (off ++ 0#1).signExtend 32
    conv => right; rw [← cond_parts off]
    rw [swapped]

theorem far_sys (l : BitVec 1) (off : BitVec 24) :
    far l off &&& 0xffff0000 = 0xf3ef0000 ∨ far l off &&& 0xfff08000 = 0xf3808000 ↔
      off.extractLsb' 23 1 = 0 ∧
        (off.extractLsb' 11 10 = 0b1111101111 ∨ off.extractLsb' 15 6 = 0b111000) := by
  have msr := farWord_msr l (off.extractLsb' 23 1) (off.extractLsb' 22 1) (off.extractLsb' 21 1)
    (off.extractLsb' 15 6) (off.extractLsb' 11 4) (off.extractLsb' 0 11)
  rw [← high_parts] at msr
  rw [far, farWord_mrs, msr, and_or_left]

theorem decodesTo_far {b : Branch} {l : BitVec 1} {off : BitVec 24} (word : b.encode = far l off)
    (kind : b.kind = if l = 1 then .bl else .bUncondWide) (cond : b.cond? = 14)
    (register : b.register = 0) (offset : b.offset = (off ++ 0#1).signExtend 32) :
    b.DecodesTo (decode32 b.encode) ↔
      ¬ (off.extractLsb' 23 1 = 0 ∧
        (off.extractLsb' 11 10 = 0b1111101111 ∨ off.extractLsb' 15 6 = 0b111000)) := by
  have head : (farHead l).Matches (far l off) := farWord_matches ..
  rw [word, ← far_sys l off]
  constructor
  · intro decoded taken
    have branch : (decode32 (far l off)).kind = .bl ∨ (decode32 (far l off)).kind = .bUncondWide := by
      rw [decoded.kind, kind]
      by_cases link : l = 1
      · exact .inl (if_pos link)
      · exact .inr (if_neg link)
    rcases decode32_sys head taken with kind | kind <;> rw [kind] at branch <;> simp at branch
  · intro ordinary
    rw [not_or] at ordinary
    rw [decode32_far head ordinary.1 ordinary.2]
    refine ⟨rfl, kind.symm, cond.symm, register.symm, ?_⟩
    rw [offset, far, farOffset_farWord, far_parts]

theorem decodesTo_iff {b : Branch} {f : FetchResult} (fetched : b.Fetched f) :
    b.DecodesTo (decodeT32 decode32 f) ↔ b.Exact := by
  cases b with
  | cond | uncond | zero => exact iff_of_true (decodesTo_narrow fetched rfl) trivial
  | condWide c off =>
    rw [decodesTo_wide fetched rfl]
    exact decodesTo_condWide
  | uncondWide off =>
    rw [decodesTo_wide fetched rfl]
    exact decodesTo_far rfl rfl rfl rfl rfl
  | link off =>
    rw [decodesTo_wide fetched rfl]
    exact decodesTo_far rfl rfl rfl rfl rfl

/-- A branch is decoded as it was encoded, and goes where it should, unless it is one of those
that the decoder gets wrong. -/
theorem sound_iff (δ : Type u) {b : Branch} {f : FetchResult} (fetched : b.Fetched f) :
    b.Sound δ f (decodeT32 decode32 f) ↔ b.Exact :=
  ⟨fun sound => (decodesTo_iff fetched).mp sound.decoded,
    fun exact =>
      have decoded := (decodesTo_iff fetched).mpr exact
      ⟨decoded, decoded.goes⟩⟩

theorem sound_beq : (cond 0 5).Sound Unit ⟨0xd005, 2, false, 0, 0x100⟩
    (decodeT32 decode32 ⟨0xd005, 2, false, 0, 0x100⟩) :=
  (sound_iff Unit ⟨rfl, rfl, rfl⟩).mpr trivial

theorem beqW_not_sound : ¬ (condWide 0 0x40000).Sound Unit ⟨0xf0008800, 4, false, 0, 0x100⟩
    (decodeT32 decode32 ⟨0xf0008800, 4, false, 0, 0x100⟩) :=
  fun sound => absurd sound.decoded.imm (by decide)

end Branch

end M33mu
