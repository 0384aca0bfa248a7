import M33mu.Thumb

namespace M33mu

open Lib Lib.Pattern Decode

namespace Thumb

def decoders (row : BitVec 4) : List (Half → Decoded → Bool × Decoded) :=
  match row.toNat with
  | 0x0 | 0x1 | 0x2 | 0x3 => [highReg, lowReg]
  | 0x4 | 0x5 => [branchMisc, highReg, lowReg, extRev, loadstore]
  | 0x6 | 0x7 | 0x8 | 0x9 => [loadstore]
  | 0xa | 0xb => [stackMisc, branchMisc, extRev]
  | 0xc => [stmLdm]
  | 0xd => [branchCond]
  | 0xe => [branchUncond]
  | _ => []

theorem decode16_eq (hw : Half) : decode16 hw =
    firstOf (Decode.control :: decoders (hw.extractLsb' 12 4)) hw
      (.default 2 (hw.setWidth 32)) := by
  rw [decoders, ← row_eq]
  rfl

theorem past_control {p : Pattern 16} {hw : Half} (here : p.Matches hw)
    (apart : ∀ q ∈ controlHeads, p.Apart q) (row : BitVec 4)
    (top : p.mask.extractLsb' 12 4 = BitVec.allOnes 4 ∧ p.value.extractLsb' 12 4 = row) :
    decode16 hw = firstOf (decoders row) hw (.default 2 (hw.setWidth 32)) := by
  rw [decode16_eq, here.extract 12 4 top.1, top.2, firstOf, control_refuse here apart]

theorem decoders_low {hw : Half} (low : hw.extractLsb' 14 2 = 0#2) :
    decoders (hw.extractLsb' 12 4) = [highReg, lowReg] := by
  have small : (hw.extractLsb' 12 4).toNat < 4 := by
    have bits := congrArg BitVec.toNat low
    rw [BitVec.extractLsb'_toNat] at bits ⊢
    simp only [BitVec.toNat_ofNat] at bits
    omega
  rw [decoders]
  generalize (hw.extractLsb' 12 4).toNat = row at small
  match row with
  | 0 | 1 | 2 | 3 => rfl

theorem two_bits (hw : Half) (lo : Nat) :
    hw >>> lo &&& 0x3 = (hw.extractLsb' lo 2).setWidth 16 := by
  apply BitVec.eq_of_toNat_eq
  have mask := toNat_and_mask (hw >>> lo) 2 (by decide)
  rw [BitVec.toNat_setWidth_of_le (by decide), BitVec.extractLsb'_toNat]
  exact mask

theorem bits_nat (hw : Half) (lo n : Nat) : hw.toNat >>> lo % 2 ^ n = (hw.extractLsb' lo n).toNat :=
  (BitVec.extractLsb'_toNat ..).symm

theorem extract_pair {n k m : Nat} (x : BitVec n) (y : BitVec k) (z : BitVec m) :
    (x ++ y ++ z).extractLsb' 0 (k + m) = y ++ z := by
  rw [BitVec.append_assoc, BitVec.extractLsb'_cast, extract_low]

theorem decode16_ldrLiteral (rt : BitVec 3) (imm8 : BitVec 8) :
    decode16 (ldrLiteral rt imm8).encode = (ldrLiteral rt imm8).decoded := by
  have here : Pattern.Matches ⟨0xf800, 0x4800⟩ (ldrLiteral rt imm8).encode :=
    ((matches_exactly 0b01001#5).free rt).free imm8
  rw [past_control here (by decide) 4#4 (by decide)]
  simp (disch := decide) only [decoders, BitVec.toNat_ofNat, Nat.reducePow, Nat.reduceMod, firstOf,
    branchMisc, highReg, lowReg, extRev, loadstore, here.and_true, here.and_false, if_true,
    if_false, false_and]
  simp (disch := decide) only [Decoded.is, reg_eq, imm_eq, encode, extract_skip, extract_low,
    decoded, blank, low, Nat.reduceSub]

theorem decode16_memReg (op : MemOp) (rm rn rt : BitVec 3) :
    decode16 (memReg op rm rn rt).encode = (memReg op rm rn rt).decoded := by
  have here : Pattern.Matches _ (memReg op rm rn rt).encode :=
    ((((matches_exactly 0b0101#4).fixed op.code).free rm).free rn).free rt
  cases op <;> rw [past_control here (by decide) 5#4 (by decide)] <;>
  simp (disch := decide) only [decoders, BitVec.toNat_ofNat, Nat.reducePow, Nat.reduceMod, firstOf,
    branchMisc, highReg, lowReg, extRev, loadstore, here.and_true, here.and_false, if_true,
    if_false, false_and, or_self, or_false, or_true] <;>
  simp (disch := decide) only [Decoded.is, reg_eq, encode, extract_skip, extract_low, decoded,
    blank, low, Nat.reduceSub, BitVec.getLsbD_append] <;> rfl

theorem decode16_memImm (size : Size) (load : Bool) (imm5 : BitVec 5) (rn rt : BitVec 3) :
    decode16 (memImm size load imm5 rn rt).encode = (memImm size load imm5 rn rt).decoded := by
  have here : Pattern.Matches _ (memImm size load imm5 rn rt).encode :=
    ((((matches_exactly size.code).fixed (BitVec.ofBool load)).free imm5).free rn).free rt
  have row : (memImm size load imm5 rn rt).encode.extractLsb' 12 4 = size.code := by
    simp (disch := decide) only [encode, extract_skip, Nat.reduceSub, BitVec.extractLsb'_eq_self]
  have list : decoders size.code = [loadstore] := by cases size <;> rfl
  rw [decode16_eq, row, list]
  cases size <;> cases load <;>
  simp (disch := decide) only [firstOf, control_refuse here, loadstore, here.and_true,
    here.and_false, if_true, if_false, or_self, or_true, or_false] <;>
  simp (disch := decide) only [Decoded.is, reg_eq, imm_eq, encode, extract_skip, extract_low,
    decoded, blank, low, Nat.reduceSub, BitVec.getLsbD_append, Size.scale,
    BitVec.shiftLeft_zero] <;> rfl

theorem decode16_memSp (load : Bool) (rt : BitVec 3) (imm8 : BitVec 8) :
    decode16 (memSp load rt imm8).encode = (memSp load rt imm8).decoded := by
  have here : Pattern.Matches _ (memSp load rt imm8).encode :=
    (((matches_exactly 0b1001#4).fixed (BitVec.ofBool load)).free rt).free imm8
  cases load <;> rw [past_control here (by decide) 9#4 (by decide)] <;>
  simp (disch := decide) only [decoders, BitVec.toNat_ofNat, Nat.reducePow, Nat.reduceMod, firstOf,
    loadstore, here.and_true, here.and_false, if_true, if_false, or_self, or_false, or_true] <;>
  simp (disch := decide) only [Decoded.is, reg_eq, imm_eq, encode, extract_skip, extract_low,
    decoded, blank, low, Nat.reduceSub, BitVec.getLsbD_append] <;> rfl

theorem decode16_adr (rd : BitVec 3) (imm8 : BitVec 8) :
    decode16 (adr rd imm8).encode = (adr rd imm8).decoded := by
  have here : Pattern.Matches ⟨0xf800, 0xa000⟩ (adr rd imm8).encode :=
    ((matches_exactly 0b10100#5).free rd).free imm8
  rw [past_control here (by decide) 0xa#4 (by decide)]
  simp (disch := decide) only [decoders, BitVec.toNat_ofNat, Nat.reducePow, Nat.reduceMod, firstOf,
    stackMisc, here.and_true, if_true]
  simp (disch := decide) only [Decoded.is, reg_eq, imm_eq, encode, extract_skip, extract_low,
    decoded, blank, low, Nat.reduceSub]

theorem decode16_addSp (rd : BitVec 3) (imm8 : BitVec 8) :
    decode16 (addSp rd imm8).encode = (addSp rd imm8).decoded := by
  have here : Pattern.Matches ⟨0xf800, 0xa800⟩ (addSp rd imm8).encode :=
    ((matches_exactly 0b10101#5).free rd).free imm8
  rw [past_control here (by decide) 0xa#4 (by decide)]
  simp (disch := decide) only [decoders, BitVec.toNat_ofNat, Nat.reducePow, Nat.reduceMod, firstOf,
    stackMisc, here.and_true, here.and_false, if_true, if_false]
  simp (disch := decide) only [Decoded.is, reg_eq, imm_eq, encode, extract_skip, extract_low,
    decoded, blank, low, Nat.reduceSub]

theorem decode16_adjustSp (sub : Bool) (imm7 : BitVec 7) :
    decode16 (adjustSp sub imm7).encode = (adjustSp sub imm7).decoded := by
  have here : Pattern.Matches _ (adjustSp sub imm7).encode :=
    ((matches_exactly 0b10110000#8).fixed (BitVec.ofBool sub)).free imm7
  cases sub <;> rw [past_control here (by decide) 0xb#4 (by decide)] <;>
  simp (disch := decide) only [decoders, BitVec.toNat_ofNat, Nat.reducePow, Nat.reduceMod, firstOf,
    stackMisc, here.and_true, here.and_false, if_true, if_false] <;>
  simp (disch := decide) only [Decoded.is, imm_eq, encode, extract_low, decoded, blank] <;> rfl

theorem decode16_extend (op : ExtendOp) (rm rd : BitVec 3) :
    decode16 (extend op rm rd).encode = (extend op rm rd).decoded := by
  have here : Pattern.Matches _ (extend op rm rd).encode :=
    (((matches_exactly 0b10110010#8).fixed op.code).free rm).free rd
  cases op <;> rw [past_control here (by decide) 0xb#4 (by decide)] <;>
  simp (disch := decide) only [decoders, BitVec.toNat_ofNat, Nat.reducePow, Nat.reduceMod, firstOf,
    stackMisc, branchMisc, extRev, here.and_true, here.and_false, if_true, if_false] <;>
  simp (disch := decide) only [Decoded.is, reg_eq, encode, extract_skip, extract_low, decoded,
    blank, low, Nat.reduceSub] <;> rfl

theorem decode16_rev (op : RevOp) (rm rd : BitVec 3) :
    decode16 (rev op rm rd).encode = (rev op rm rd).decoded := by
  have here : Pattern.Matches _ (rev op rm rd).encode :=
    (((matches_exactly 0b10111010#8).fixed op.code).free rm).free rd
  cases op <;> rw [past_control here (by decide) 0xb#4 (by decide)] <;>
  simp (disch := decide) only [decoders, BitVec.toNat_ofNat, Nat.reducePow, Nat.reduceMod, firstOf,
    stackMisc, branchMisc, extRev, here.and_true, here.and_false, if_true, if_false] <;>
  simp (disch := decide) only [Decoded.is, reg_eq, encode, extract_skip, extract_low, decoded,
    blank, low, Nat.reduceSub] <;> rfl

theorem decode16_pushPop (pop extra : Bool) (list : BitVec 8) :
    decode16 (pushPop pop extra list).encode = (pushPop pop extra list).decoded := by
  have here : Pattern.Matches _ (pushPop pop extra list).encode :=
    ((((matches_exactly 0b1011#4).fixed (BitVec.ofBool pop)).fixed 0b10#2).fixed
      (BitVec.ofBool extra)).free list
  have nine (x : BitVec 7) (y : BitVec 1) : (x ++ y ++ list).extractLsb' 0 9 = y ++ list :=
    extract_pair x y list
  cases pop <;> cases extra <;> rw [past_control here (by decide) 0xb#4 (by decide)] <;>
  simp (disch := decide) only [decoders, BitVec.toNat_ofNat, Nat.reducePow, Nat.reduceMod, firstOf,
    stackMisc, here.and_true, here.and_false, if_true, if_false] <;>
  simp (disch := decide) only [Decoded.is, imm_eq, encode, nine, decoded, blank,
    BitVec.getLsbD_append] <;> rfl

theorem decode16_bx (link ns : Bool) (rm : BitVec 4) :
    decode16 (bx link ns rm).encode = (bx link ns rm).decoded := by
  have here : Pattern.Matches _ (bx link ns rm).encode :=
    ((((matches_exactly 0b01000111#8).fixed (BitVec.ofBool link)).free rm).fixed
      (BitVec.ofBool ns)).fixed 0b00#2
  cases link <;> cases ns <;> rw [past_control here (by decide) 4#4 (by decide)] <;>
  simp (disch := decide) only [decoders, BitVec.toNat_ofNat, Nat.reducePow, Nat.reduceMod, firstOf,
    branchMisc, here.and_true, here.and_false, if_true, if_false] <;>
  simp (disch := decide) only [Decoded.is, reg_eq, encode, extract_skip, extract_low, decoded,
    blank, wide, Nat.reduceSub] <;> rfl

theorem decode16_shift (op : ShiftOp) (imm5 : BitVec 5) (rm rd : BitVec 3) :
    decode16 (shift op imm5 rm rd).encode = (shift op imm5 rm rd).decoded := by
  have here : Pattern.Matches _ (shift op imm5 rm rd).encode :=
    ((((matches_exactly 0b000#3).fixed op.code).free imm5).free rm).free rd
  have top : (shift op imm5 rm rd).encode.extractLsb' 11 2 = op.code := by
    simp (disch := decide) only [encode, extract_skip, extract_low, Nat.reduceSub]
  have code : (shift op imm5 rm rd).encode.toNat >>> 11 % 4 = op.code.toNat :=
    (bits_nat _ 11 2).trans (congrArg _ top)
  have first : (shift op imm5 rm rd).encode.extractLsb' 14 2 = 0#2 := by
    simp (disch := decide) only [encode, extract_skip, Nat.reduceSub]
    rfl
  rw [decode16_eq, decoders_low first]
  cases op <;>
  simp (disch := decide) only [firstOf, control_refuse here, highReg, lowReg, two_bits, top, code,
    here.and_true, here.and_false, if_false] <;>
  simp (disch := decide) only [Decoded.is, reg_eq, imm_eq, encode, extract_skip, extract_low,
    decoded, blank, low, Nat.reduceSub] <;> rfl

theorem decode16_addSubReg (sub : Bool) (rm rn rd : BitVec 3) :
    decode16 (addSubReg sub rm rn rd).encode = (addSubReg sub rm rn rd).decoded := by
  have here : Pattern.Matches _ (addSubReg sub rm rn rd).encode :=
    ((((matches_exactly 0b000110#6).fixed (BitVec.ofBool sub)).free rm).free rn).free rd
  cases sub <;> rw [past_control here (by decide) 1#4 (by decide)] <;>
  simp (disch := decide) only [decoders, BitVec.toNat_ofNat, Nat.reducePow, Nat.reduceMod, firstOf,
    highReg, lowReg, here.and_true, here.and_false, if_true, if_false] <;>
  simp (disch := decide) only [Decoded.is, reg_eq, imm_eq, encode, extract_skip, extract_low,
    decoded, blank, low, Nat.reduceSub, BitVec.getLsbD_append] <;> rfl

theorem decode16_addSubImm (sub : Bool) (imm3 rn rd : BitVec 3) :
    decode16 (addSubImm sub imm3 rn rd).encode = (addSubImm sub imm3 rn rd).decoded := by
  have here : Pattern.Matches _ (addSubImm sub imm3 rn rd).encode :=
    ((((matches_exactly 0b000111#6).fixed (BitVec.ofBool sub)).free imm3).free rn).free rd
  cases sub <;> rw [past_control here (by decide) 1#4 (by decide)] <;>
  simp (disch := decide) only [decoders, BitVec.toNat_ofNat, Nat.reducePow, Nat.reduceMod, firstOf,
    highReg, lowReg, here.and_true, here.and_false, if_true, if_false] <;>
  simp (disch := decide) only [Decoded.is, reg_eq, imm_eq, encode, extract_skip, extract_low,
    decoded, blank, low, Nat.reduceSub, BitVec.getLsbD_append] <;> rfl

theorem decode16_immediate (op : ImmOp) (rdn : BitVec 3) (imm8 : BitVec 8) :
    decode16 (immediate op rdn imm8).encode = (immediate op rdn imm8).decoded := by
  have here : Pattern.Matches _ (immediate op rdn imm8).encode :=
    (((matches_exactly 0b001#3).fixed op.code).free rdn).free imm8
  have first : (immediate op rdn imm8).encode.extractLsb' 14 2 = 0#2 := by
    simp (disch := decide) only [encode, extract_skip, Nat.reduceSub]
    rfl
  rw [decode16_eq, decoders_low first]
  cases op <;>
  simp (disch := decide) only [firstOf, control_refuse here, highReg, lowReg, here.and_true,
    here.and_false, if_true, if_false] <;>
  simp (disch := decide) only [Decoded.is, reg_eq, imm_eq, encode, extract_skip, extract_low,
    decoded, blank, low, Nat.reduceSub]

theorem decode16_alu (op : AluOp) (rm rdn : BitVec 3) :
    decode16 (alu op rm rdn).encode = (alu op rm rdn).decoded := by
  have here : Pattern.Matches ⟨0xfc00, 0x4000⟩ (alu op rm rdn).encode :=
    (((matches_exactly 0b010000#6).free op.code).free rm).free rdn
  have code : (alu op rm rdn).encode.extractLsb' 6 4 = op.code := by
    simp (disch := decide) only [encode, extract_skip, extract_low, Nat.reduceSub]
  have opcode : (alu op rm rdn).encode.toNat >>> 6 % 16 = op.code.toNat :=
    (bits_nat _ 6 4).trans (congrArg _ code)
  rw [past_control here (by decide) 4#4 (by decide)]
  simp (disch := decide) only [decoders, BitVec.toNat_ofNat, Nat.reducePow, Nat.reduceMod, firstOf,
    branchMisc, highReg, lowReg, here.and_true, here.and_false, if_true, if_false, opcode]
  simp (disch := decide) only [Decoded.is, reg_eq, encode, extract_skip, extract_low, Nat.reduceSub]
  cases op <;> rfl

theorem wide_split (r : BitVec 4) :
    Fin.ofNat 16 ((r.extractLsb' 0 3).toNat + (r.extractLsb' 3 1).toNat * 8) = wide r := by
  revert r
  decide

theorem decode16_high (op : HighOp) (rm rdn : BitVec 4) :
    decode16 (high op rm rdn).encode = (high op rm rdn).decoded := by
  have here : Pattern.Matches _ (high op rm rdn).encode :=
    ((((matches_exactly 0b010001#6).fixed op.code).free (rdn.extractLsb' 3 1)).free rm).free
      (rdn.extractLsb' 0 3)
  have code : (high op rm rdn).encode.extractLsb' 8 2 = op.code := by
    simp (disch := decide) only [encode, highHalf, extract_skip, extract_low, Nat.reduceSub]
  have opcode : (high op rm rdn).encode.toNat >>> 8 % 4 = op.code.toNat :=
    (bits_nat _ 8 2).trans (congrArg _ code)
  have top : (high op rm rdn).encode.extractLsb' 7 1 = rdn.extractLsb' 3 1 := by
    simp (disch := decide) only [encode, highHalf, extract_skip, extract_low, Nat.reduceSub]
  have rest : (high op rm rdn).encode.extractLsb' 0 3 = rdn.extractLsb' 0 3 := by
    simp (disch := decide) only [encode, highHalf, extract_low]
  have rd : Fin.ofNat 16 ((high op rm rdn).encode.toNat % 8 +
      ((high op rm rdn).encode.toNat >>> 7 % 2) * 8) = wide rdn := by
    have bit : (high op rm rdn).encode.toNat >>> 7 % 2 = (rdn.extractLsb' 3 1).toNat :=
      (bits_nat _ 7 1).trans (congrArg _ top)
    have three : (high op rm rdn).encode.toNat % 8 = (rdn.extractLsb' 0 3).toNat :=
      (bits_nat _ 0 3).trans (congrArg _ rest)
    rw [bit, three, wide_split]
  cases op <;> rw [past_control here (by decide) 4#4 (by decide)] <;>
  simp (disch := decide) only [decoders, BitVec.toNat_ofNat, Nat.reducePow, Nat.reduceMod, firstOf,
    branchMisc, highReg, here.and_true, here.and_false, if_true, if_false, opcode, rd] <;>
  simp (disch := decide) only [Decoded.is, reg_eq, encode, highHalf, extract_skip, extract_low,
    Nat.reduceSub] <;> rfl

theorem decode16_cps (field : BitVec 5) : decode16 (cps field).encode = (cps field).decoded := by
  have here : Pattern.Matches ⟨0xffe0, 0xb660⟩ (cps field).encode :=
    (matches_exactly 0b10110110011#11).free field
  simp (disch := decide) only [decode16_eq, firstOf, Decode.control, here.and_true, here.and_false,
    here.other, if_true, if_false]
  simp (disch := decide) only [Decoded.is, imm_eq, encode, extract_low, decoded, blank]

theorem decode16_bkpt (imm8 : BitVec 8) : decode16 (bkpt imm8).encode = (bkpt imm8).decoded := by
  have here : Pattern.Matches ⟨0xff00, 0xbe00⟩ (bkpt imm8).encode :=
    (matches_exactly 0b10111110#8).free imm8
  simp (disch := decide) only [decode16_eq, firstOf, Decode.control, here.and_true, here.and_false,
    if_true, if_false]
  simp (disch := decide) only [Decoded.is, imm_eq, encode, extract_low, decoded, blank]

theorem decode16_udf (imm8 : BitVec 8) : decode16 (udf imm8).encode = (udf imm8).decoded := by
  have here : Pattern.Matches ⟨0xff00, 0xde00⟩ (udf imm8).encode :=
    (matches_exactly 0b11011110#8).free imm8
  simp (disch := decide) only [decode16_eq, firstOf, Decode.control, here.and_true, if_true]
  simp (disch := decide) only [Decoded.is, imm_eq, encode, extract_low, decoded, blank]

theorem decode16_svc (imm8 : BitVec 8) : decode16 (svc imm8).encode = (svc imm8).decoded := by
  have here : Pattern.Matches ⟨0xff00, 0xdf00⟩ (svc imm8).encode :=
    (matches_exactly 0b11011111#8).free imm8
  simp (disch := decide) only [decode16_eq, firstOf, Decode.control, here.and_true, here.and_false,
    if_true, if_false]
  simp (disch := decide) only [Decoded.is, imm_eq, encode, extract_low, decoded, blank]

theorem decode16_hint (op : HintOp) : decode16 (hint op).encode = (hint op).decoded := by
  cases op <;> decide

theorem decode16_it (first mask : BitVec 4) (proper : mask ≠ 0 ∨ 5 ≤ first) :
    decode16 (it first mask).encode = (it first mask).decoded := by
  have here : Pattern.Matches ⟨0xff00, 0xbf00⟩ (it first mask).encode :=
    ((matches_exactly 0b10111111#8).free first).free mask
  have eight : (it first mask).encode.extractLsb' 0 8 = first ++ mask := extract_pair _ first mask
  have other (op : HintOp) : ¬ (it first mask).encode = (hint op).encode := by
    intro same
    have second := congrArg (·.extractLsb' 4 4) same
    have last := congrArg (·.extractLsb' 0 4) same
    simp (disch := decide) only [encode, extract_skip, extract_low, Nat.reduceSub] at second last
    rcases proper with some | high
    · exact some last
    · rw [second] at high
      cases op <;> exact absurd high (by decide)
  have nop : ¬ (it first mask).encode = 0xbf00 := other .nop
  have yield : ¬ (it first mask).encode = 0xbf10 := other .yield
  have wfe : ¬ (it first mask).encode = 0xbf20 := other .wfe
  have wfi : ¬ (it first mask).encode = 0xbf30 := other .wfi
  have sev : ¬ (it first mask).encode = 0xbf40 := other .sev
  simp (disch := decide) only [decode16_eq, firstOf, Decode.control, here.and_true, here.and_false,
    nop, yield, wfe, wfi, sev, if_true, if_false, imm_eq, eight]
  rfl

theorem decode16_multiple (load : Bool) (rn : BitVec 3) (list : BitVec 8) (some : list ≠ 0) :
    decode16 (multiple load rn list).encode = (multiple load rn list).decoded := by
  have here : Pattern.Matches _ (multiple load rn list).encode :=
    (((matches_exactly 0b1100#4).fixed (BitVec.ofBool load)).free rn).free list
  have low8 : (multiple load rn list).encode &&& 0xff ≠ 0 := by
    intro clear
    have eight : (multiple load rn list).encode.extractLsb' 0 8 = list := by
      simp (disch := decide) only [encode, extract_low]
    have none := congrArg (·.extractLsb' 0 8) clear
    simp only [BitVec.extractLsb'_and, eight] at none
    exact some ((BitVec.and_allOnes (x := list)).symm.trans none)
  cases load <;> rw [past_control here (by decide) 0xc#4 (by decide)] <;>
  simp (disch := decide) only [decoders, BitVec.toNat_ofNat, Nat.reducePow, Nat.reduceMod, firstOf,
    stmLdm, here.and_true, true_and, low8, ne_eq, not_false_eq_true, if_true] <;>
  simp (disch := decide) only [Decoded.is, reg_eq, imm_eq, encode, extract_skip, extract_low,
    decoded, blank, low, Nat.reduceSub, BitVec.getLsbD_append] <;> rfl

theorem decode16_cbz (nonzero : Bool) (off : BitVec 6) (rn : BitVec 3) :
    decode16 (cbz nonzero off rn).encode = (cbz nonzero off rn).decoded := by
  have whole : off.extractLsb' 5 1 ++ off.extractLsb' 0 5 = off := by
    simp (disch := decide) only [BitVec.extractLsb'_append_extractLsb'_eq_extractLsb',
      BitVec.extractLsb'_eq_self]
  have which : BitVec.ofBool nonzero = 1 ↔ nonzero = true := by cases nonzero <;> decide
  rw [encode, Branch.decode16_zero, whole, decoded, blank, encode]
  simp only [which]
  rfl

theorem decode16_encode (i : Thumb) (proper : i.Proper) : decode16 i.encode = i.decoded := by
  cases i with
  | shift op imm5 rm rd => exact decode16_shift op imm5 rm rd
  | addSubReg sub rm rn rd => exact decode16_addSubReg sub rm rn rd
  | addSubImm sub imm3 rn rd => exact decode16_addSubImm sub imm3 rn rd
  | immediate op rdn imm8 => exact decode16_immediate op rdn imm8
  | alu op rm rdn => exact decode16_alu op rm rdn
  | high op rm rdn => exact decode16_high op rm rdn
  | bx link ns rm => exact decode16_bx link ns rm
  | ldrLiteral rt imm8 => exact decode16_ldrLiteral rt imm8
  | memReg op rm rn rt => exact decode16_memReg op rm rn rt
  | memImm size load imm5 rn rt => exact decode16_memImm size load imm5 rn rt
  | memSp load rt imm8 => exact decode16_memSp load rt imm8
  | adr rd imm8 => exact decode16_adr rd imm8
  | addSp rd imm8 => exact decode16_addSp rd imm8
  | adjustSp sub imm7 => exact decode16_adjustSp sub imm7
  | cbz nonzero off rn => exact decode16_cbz nonzero off rn
  | extend op rm rd => exact decode16_extend op rm rd
  | rev op rm rd => exact decode16_rev op rm rd
  | cps field => exact decode16_cps field
  | pushPop pop extra list => exact decode16_pushPop pop extra list
  | bkpt imm8 => exact decode16_bkpt imm8
  | hint op => exact decode16_hint op
  | otherHint op => exact decode16_it op 0 (.inr proper)
  | it first mask => exact decode16_it first mask (.inl proper)
  | multiple load rn list => exact decode16_multiple load rn list proper
  | bCond c off => exact Branch.decode16_cond c off
  | udf imm8 => exact decode16_udf imm8
  | svc imm8 => exact decode16_svc imm8
  | b off => exact Branch.decode16_uncond off

/-- What the emulator fetches of an instruction, it decodes to that instruction. -/
theorem decodeT32_encode {i : Thumb} (proper : i.Proper) (decode32 : Word → Decoded)
    {f : FetchResult} (clean : f.fault = false) (short : f.len = 2)
    (fetched : f.insn = i.encode.setWidth 32) :
    decodeT32 decode32 f = i.decoded := by
  have narrow : f.insn.setWidth 16 = i.encode := by
    rw [fetched, BitVec.setWidth_setWidth_of_le _ (by decide), BitVec.setWidth_eq]
  rw [decodeT32, if_neg (by rw [clean, short]; decide), if_pos short, narrow,
    decode16_encode i proper]

theorem decodeT32_encode_push : decodeT32 (Decoded.default 4) ⟨0xB510, 2, false, 0, 0x100⟩ =
    (pushPop false true 0x10).decoded :=
  decodeT32_encode (i := .pushPop false true 0x10) trivial _ rfl rfl rfl

end Thumb

end M33mu
