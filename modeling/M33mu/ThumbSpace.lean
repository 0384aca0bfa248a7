import M33mu.ThumbDecode

namespace M33mu

open Lib Lib.Pattern Decode

namespace Thumb

variable {hw : Half}

def Encoded (hw : Half) : Prop := ∃ i : Thumb, i.Proper ∧ i.encode = hw

/-- What the architecture leaves over, the first halfwords of the 32-bit instructions among it. -/
inductive Reserved (hw : Half) : Prop
  | exchange (head : hw.extractLsb' 8 8 = 0x47#8) (low : hw.extractLsb' 0 2 ≠ 0#2)
  | state (head : hw.extractLsb' 8 8 = 0xb6#8) (cps : hw.extractLsb' 5 3 ≠ 0b011#3)
  | misc (head : hw.extractLsb' 8 8 = 0xb7#8 ∨ hw.extractLsb' 8 8 = 0xb8#8)
  | halt (head : hw.extractLsb' 6 10 = 0b1011101010#10)
  | noRegs (head : hw.extractLsb' 12 4 = 0xc#4) (list : hw.extractLsb' 0 8 = 0#8)
  | longer (head : hw.extractLsb' 11 5 = 0b11101#5 ∨ hw.extractLsb' 12 4 = 0xf#4)

theorem ImmOp.exists_code : ∀ x : BitVec 2, ∃ op ∈ [mov, cmp, add, sub], op.code = x := by
  decide

theorem AluOp.exists_code : ∀ x : BitVec 4, ∃ op ∈ [and, eor, lsl, lsr, asr, adc, sbc, ror, tst,
    rsb, cmp, cmn, orr, mul, bic, mvn], op.code = x := by
  decide

theorem MemOp.exists_code : ∀ x : BitVec 3,
    ∃ op ∈ [str, strh, strb, ldrsb, ldr, ldrh, ldrb, ldrsh], op.code = x := by
  decide

theorem ExtendOp.exists_code : ∀ x : BitVec 2, ∃ op ∈ [sxth, sxtb, uxth, uxtb], op.code = x := by
  decide

theorem ShiftOp.exists_code : ∀ x : BitVec 2, x ≠ 3 → ∃ op ∈ [lsl, lsr, asr], op.code = x := by
  decide

theorem HighOp.exists_code : ∀ x : BitVec 2, x ≠ 3 → ∃ op ∈ [add, cmp, mov], op.code = x := by
  decide

theorem RevOp.exists_code : ∀ x : BitVec 2, x ≠ 2 → ∃ op ∈ [rev, rev16, revsh], op.code = x := by
  decide

theorem HintOp.exists_code : ∀ x : BitVec 4, ¬ 5 ≤ x →
    ∃ op ∈ [nop, yield, wfe, wfi, sev], op.code = x := by
  decide

theorem condition_cases : ∀ x : BitVec 4,
    x = 14 ∨ x = 15 ∨ ∃ c : Fin 14, Branch.condition c = x := by
  decide

theorem encoded_shift (head : hw.extractLsb' 13 3 = 0b000#3) (op : hw.extractLsb' 11 2 ≠ 3) :
    Encoded hw := by
  obtain ⟨op, -, code⟩ := ShiftOp.exists_code _ op
  refine ⟨shift op (hw.extractLsb' 6 5) (hw.extractLsb' 3 3) (hw.extractLsb' 0 3), trivial, ?_⟩
  rw [encode, code, ← head]
  simp (disch := decide) only [BitVec.extractLsb'_append_extractLsb'_eq_extractLsb',
    BitVec.extractLsb'_eq_self]

theorem encoded_addSubReg (head : hw.extractLsb' 10 6 = 0b000110#6) : Encoded hw := by
  refine ⟨addSubReg (hw.getLsbD 9) (hw.extractLsb' 6 3) (hw.extractLsb' 3 3) (hw.extractLsb' 0 3),
    trivial, ?_⟩
  rw [encode, ← extract_one, ← head]
  simp (disch := decide) only [BitVec.extractLsb'_append_extractLsb'_eq_extractLsb',
    BitVec.extractLsb'_eq_self]

theorem encoded_addSubImm (head : hw.extractLsb' 10 6 = 0b000111#6) : Encoded hw := by
  refine ⟨addSubImm (hw.getLsbD 9) (hw.extractLsb' 6 3) (hw.extractLsb' 3 3) (hw.extractLsb' 0 3),
    trivial, ?_⟩
  rw [encode, ← extract_one, ← head]
  simp (disch := decide) only [BitVec.extractLsb'_append_extractLsb'_eq_extractLsb',
    BitVec.extractLsb'_eq_self]

theorem encoded_immediate (head : hw.extractLsb' 13 3 = 0b001#3) : Encoded hw := by
  obtain ⟨op, -, code⟩ := ImmOp.exists_code (hw.extractLsb' 11 2)
  refine ⟨immediate op (hw.extractLsb' 8 3) (hw.extractLsb' 0 8), trivial, ?_⟩
  rw [encode, code, ← head]
  simp (disch := decide) only [BitVec.extractLsb'_append_extractLsb'_eq_extractLsb',
    BitVec.extractLsb'_eq_self]

theorem encoded_alu (head : hw.extractLsb' 10 6 = 0b010000#6) : Encoded hw := by
  obtain ⟨op, -, code⟩ := AluOp.exists_code (hw.extractLsb' 6 4)
  refine ⟨alu op (hw.extractLsb' 3 3) (hw.extractLsb' 0 3), trivial, ?_⟩
  rw [encode, code, ← head]
  simp (disch := decide) only [BitVec.extractLsb'_append_extractLsb'_eq_extractLsb',
    BitVec.extractLsb'_eq_self]

theorem encoded_high (head : hw.extractLsb' 10 6 = 0b010001#6) (op : hw.extractLsb' 8 2 ≠ 3) :
    Encoded hw := by
  obtain ⟨op, -, code⟩ := HighOp.exists_code _ op
  refine ⟨high op (hw.extractLsb' 3 4) (hw.extractLsb' 7 1 ++ hw.extractLsb' 0 3), trivial, ?_⟩
  rw [encode, highHalf, code, ← head, extract_skip _ _ (by decide), extract_low,
    BitVec.extractLsb'_eq_self]
  simp (disch := decide) only [BitVec.extractLsb'_append_extractLsb'_eq_extractLsb',
    BitVec.extractLsb'_eq_self]

theorem encoded_bx (head : hw.extractLsb' 8 8 = 0x47#8) (last : hw.extractLsb' 0 2 = 0#2) :
    Encoded hw := by
  refine ⟨bx (hw.getLsbD 7) (hw.getLsbD 2) (hw.extractLsb' 3 4), trivial, ?_⟩
  rw [encode, ← extract_one, ← extract_one, ← head, ← last]
  simp (disch := decide) only [BitVec.extractLsb'_append_extractLsb'_eq_extractLsb',
    BitVec.extractLsb'_eq_self]

theorem encoded_ldrLiteral (head : hw.extractLsb' 11 5 = 0b01001#5) : Encoded hw := by
  refine ⟨ldrLiteral (hw.extractLsb' 8 3) (hw.extractLsb' 0 8), trivial, ?_⟩
  rw [encode, ← head]
  simp (disch := decide) only [BitVec.extractLsb'_append_extractLsb'_eq_extractLsb',
    BitVec.extractLsb'_eq_self]

theorem encoded_memReg (head : hw.extractLsb' 12 4 = 0b0101#4) : Encoded hw := by
  obtain ⟨op, -, code⟩ := MemOp.exists_code (hw.extractLsb' 9 3)
  refine ⟨memReg op (hw.extractLsb' 6 3) (hw.extractLsb' 3 3) (hw.extractLsb' 0 3), trivial, ?_⟩
  rw [encode, code, ← head]
  simp (disch := decide) only [BitVec.extractLsb'_append_extractLsb'_eq_extractLsb',
    BitVec.extractLsb'_eq_self]

theorem encoded_memImm (size : Size) (head : hw.extractLsb' 12 4 = size.code) : Encoded hw := by
  refine ⟨memImm size (hw.getLsbD 11) (hw.extractLsb' 6 5) (hw.extractLsb' 3 3) (hw.extractLsb' 0
    3), trivial, ?_⟩
  rw [encode, ← extract_one, ← head]
  simp (disch := decide) only [BitVec.extractLsb'_append_extractLsb'_eq_extractLsb',
    BitVec.extractLsb'_eq_self]

theorem encoded_memSp (head : hw.extractLsb' 12 4 = 0b1001#4) : Encoded hw := by
  refine ⟨memSp (hw.getLsbD 11) (hw.extractLsb' 8 3) (hw.extractLsb' 0 8), trivial, ?_⟩
  rw [encode, ← extract_one, ← head]
  simp (disch := decide) only [BitVec.extractLsb'_append_extractLsb'_eq_extractLsb',
    BitVec.extractLsb'_eq_self]

theorem encoded_adr (head : hw.extractLsb' 11 5 = 0b10100#5) : Encoded hw := by
  refine ⟨adr (hw.extractLsb' 8 3) (hw.extractLsb' 0 8), trivial, ?_⟩
  rw [encode, ← head]
  simp (disch := decide) only [BitVec.extractLsb'_append_extractLsb'_eq_extractLsb',
    BitVec.extractLsb'_eq_self]

theorem encoded_addSp (head : hw.extractLsb' 11 5 = 0b10101#5) : Encoded hw := by
  refine ⟨addSp (hw.extractLsb' 8 3) (hw.extractLsb' 0 8), trivial, ?_⟩
  rw [encode, ← head]
  simp (disch := decide) only [BitVec.extractLsb'_append_extractLsb'_eq_extractLsb',
    BitVec.extractLsb'_eq_self]

theorem encoded_adjustSp (head : hw.extractLsb' 8 8 = 0xb0#8) : Encoded hw := by
  refine ⟨adjustSp (hw.getLsbD 7) (hw.extractLsb' 0 7), trivial, ?_⟩
  rw [encode, ← extract_one, ← head]
  simp (disch := decide) only [BitVec.extractLsb'_append_extractLsb'_eq_extractLsb',
    BitVec.extractLsb'_eq_self]

theorem encoded_cbz (head : hw.extractLsb' 12 4 = 0b1011#4) (ten : hw.extractLsb' 10 1 = 0#1)
    (eight : hw.extractLsb' 8 1 = 1#1) : Encoded hw := by
  refine ⟨cbz (hw.getLsbD 11) (hw.extractLsb' 9 1 ++ hw.extractLsb' 3 5) (hw.extractLsb' 0 3),
    trivial, ?_⟩
  rw [encode, Branch.zeroHalf, ← extract_one, ← head, ← ten, ← eight, extract_skip _ _ (by decide),
    extract_low, BitVec.extractLsb'_eq_self]
  simp (disch := decide) only [BitVec.extractLsb'_append_extractLsb'_eq_extractLsb',
    BitVec.extractLsb'_eq_self]

theorem encoded_extend (head : hw.extractLsb' 8 8 = 0xb2#8) : Encoded hw := by
  obtain ⟨op, -, code⟩ := ExtendOp.exists_code (hw.extractLsb' 6 2)
  refine ⟨extend op (hw.extractLsb' 3 3) (hw.extractLsb' 0 3), trivial, ?_⟩
  rw [encode, code, ← head]
  simp (disch := decide) only [BitVec.extractLsb'_append_extractLsb'_eq_extractLsb',
    BitVec.extractLsb'_eq_self]

theorem encoded_pushPop (head : hw.extractLsb' 12 4 = 0b1011#4)
    (nine : hw.extractLsb' 9 2 = 0b10#2) : Encoded hw := by
  refine ⟨pushPop (hw.getLsbD 11) (hw.getLsbD 8) (hw.extractLsb' 0 8), trivial, ?_⟩
  rw [encode, ← extract_one, ← extract_one, ← head, ← nine]
  simp (disch := decide) only [BitVec.extractLsb'_append_extractLsb'_eq_extractLsb',
    BitVec.extractLsb'_eq_self]

theorem encoded_cps (head : hw.extractLsb' 8 8 = 0xb6#8) (five : hw.extractLsb' 5 3 = 0b011#3) :
    Encoded hw := by
  have eleven : hw.extractLsb' 5 11 = 0b10110110011#11 := by
    rw [← BitVec.extractLsb'_append_extractLsb'_eq_extractLsb' (by decide : 8 = 5 + 3), head, five]
    rfl
  refine ⟨cps (hw.extractLsb' 0 5), trivial, ?_⟩
  rw [encode, ← eleven]
  simp (disch := decide) only [BitVec.extractLsb'_append_extractLsb'_eq_extractLsb',
    BitVec.extractLsb'_eq_self]

theorem encoded_rev (head : hw.extractLsb' 8 8 = 0xba#8) (op : hw.extractLsb' 6 2 ≠ 2) :
    Encoded hw := by
  obtain ⟨op, -, code⟩ := RevOp.exists_code _ op
  refine ⟨rev op (hw.extractLsb' 3 3) (hw.extractLsb' 0 3), trivial, ?_⟩
  rw [encode, code, ← head]
  simp (disch := decide) only [BitVec.extractLsb'_append_extractLsb'_eq_extractLsb',
    BitVec.extractLsb'_eq_self]

theorem encoded_bkpt (head : hw.extractLsb' 8 8 = 0xbe#8) : Encoded hw := by
  refine ⟨bkpt (hw.extractLsb' 0 8), trivial, ?_⟩
  rw [encode, ← head]
  simp (disch := decide) only [BitVec.extractLsb'_append_extractLsb'_eq_extractLsb',
    BitVec.extractLsb'_eq_self]

theorem encoded_hint (head : hw.extractLsb' 8 8 = 0xbf#8) : Encoded hw := by
  by_cases mask : hw.extractLsb' 0 4 ≠ 0#4
  · refine ⟨it (hw.extractLsb' 4 4) (hw.extractLsb' 0 4), mask, ?_⟩
    rw [encode, ← head]
    simp (disch := decide) only [BitVec.extractLsb'_append_extractLsb'_eq_extractLsb',
      BitVec.extractLsb'_eq_self]
  rw [not_not] at mask
  by_cases other : 5 ≤ hw.extractLsb' 4 4
  · refine ⟨otherHint (hw.extractLsb' 4 4), other, ?_⟩
    rw [encode, ← head, ← mask]
    simp (disch := decide) only [BitVec.extractLsb'_append_extractLsb'_eq_extractLsb',
      BitVec.extractLsb'_eq_self]
  · obtain ⟨op, -, code⟩ := HintOp.exists_code _ other
    refine ⟨hint op, trivial, ?_⟩
    rw [encode, code, ← head, ← mask]
    simp (disch := decide) only [BitVec.extractLsb'_append_extractLsb'_eq_extractLsb',
      BitVec.extractLsb'_eq_self]

theorem encoded_multiple (head : hw.extractLsb' 12 4 = 0xc#4) (list : hw.extractLsb' 0 8 ≠ 0#8) :
    Encoded hw := by
  refine ⟨multiple (hw.getLsbD 11) (hw.extractLsb' 8 3) (hw.extractLsb' 0 8), list, ?_⟩
  rw [encode, ← extract_one, ← head]
  simp (disch := decide) only [BitVec.extractLsb'_append_extractLsb'_eq_extractLsb',
    BitVec.extractLsb'_eq_self]

theorem encoded_bCond (head : hw.extractLsb' 12 4 = 0xd#4) : Encoded hw := by
  have byte : hw.extractLsb' 8 8 = 0xd#4 ++ hw.extractLsb' 8 4 := by
    rw [← head]
    simp (disch := decide) only [BitVec.extractLsb'_append_extractLsb'_eq_extractLsb']
  rcases condition_cases (hw.extractLsb' 8 4) with last | last | ⟨c, code⟩
  · refine ⟨udf (hw.extractLsb' 0 8), trivial, ?_⟩
    rw [last] at byte
    have head : hw.extractLsb' 8 8 = 0b11011110#8 := byte
    rw [encode, ← head]
    simp (disch := decide) only [BitVec.extractLsb'_append_extractLsb'_eq_extractLsb',
      BitVec.extractLsb'_eq_self]
  · refine ⟨svc (hw.extractLsb' 0 8), trivial, ?_⟩
    rw [last] at byte
    have head : hw.extractLsb' 8 8 = 0b11011111#8 := byte
    rw [encode, ← head]
    simp (disch := decide) only [BitVec.extractLsb'_append_extractLsb'_eq_extractLsb',
      BitVec.extractLsb'_eq_self]
  · refine ⟨bCond c (hw.extractLsb' 0 8), trivial, ?_⟩
    rw [encode, code, ← head]
    simp (disch := decide) only [BitVec.extractLsb'_append_extractLsb'_eq_extractLsb',
      BitVec.extractLsb'_eq_self]

theorem encoded_b (head : hw.extractLsb' 11 5 = 0b11100#5) : Encoded hw := by
  refine ⟨b (hw.extractLsb' 0 11), trivial, ?_⟩
  rw [encode, ← head]
  simp (disch := decide) only [BitVec.extractLsb'_append_extractLsb'_eq_extractLsb',
    BitVec.extractLsb'_eq_self]

theorem lower_heads : ∀ b : BitVec 8, b.getLsbD 7 = false →
    (b.extractLsb' 5 3 = 0b000#3 ∧ b.extractLsb' 3 2 ≠ 3#2) ∨ b.extractLsb' 2 6 = 0b000110#6 ∨
    b.extractLsb' 2 6 = 0b000111#6 ∨ b.extractLsb' 5 3 = 0b001#3 ∨ b.extractLsb' 2 6 = 0b010000#6 ∨
    (b.extractLsb' 2 6 = 0b010001#6 ∧ b.extractLsb' 0 2 ≠ 3#2) ∨ b.extractLsb' 0 8 = 0x47#8 ∨
    b.extractLsb' 3 5 = 0b01001#5 ∨ b.extractLsb' 4 4 = 0b0101#4 ∨
    b.extractLsb' 4 4 = Size.word.code ∨ b.extractLsb' 4 4 = Size.byte.code := by
  decide

theorem upper_heads : ∀ b : BitVec 8, b.getLsbD 7 = true →
    b.extractLsb' 4 4 = Size.half.code ∨ b.extractLsb' 4 4 = 0b1001#4 ∨
    b.extractLsb' 3 5 = 0b10100#5 ∨ b.extractLsb' 3 5 = 0b10101#5 ∨ b.extractLsb' 4 4 = 0b1011#4 ∨
    b.extractLsb' 4 4 = 0xc#4 ∨ b.extractLsb' 4 4 = 0xd#4 ∨ b.extractLsb' 3 5 = 0b11100#5 ∨
    b.extractLsb' 3 5 = 0b11101#5 ∨ b.extractLsb' 4 4 = 0xf#4 := by
  decide

theorem misc_heads : ∀ b : BitVec 8, b.extractLsb' 4 4 = 0b1011#4 →
    b.extractLsb' 0 8 = 0xb0#8 ∨ (b.extractLsb' 2 1 = 0#1 ∧ b.extractLsb' 0 1 = 1#1) ∨
    b.extractLsb' 0 8 = 0xb2#8 ∨ b.extractLsb' 1 2 = 0b10#2 ∨ b.extractLsb' 0 8 = 0xb6#8 ∨
    b.extractLsb' 0 8 = 0xb7#8 ∨ b.extractLsb' 0 8 = 0xb8#8 ∨ b.extractLsb' 0 8 = 0xba#8 ∨
    b.extractLsb' 0 8 = 0xbe#8 ∨ b.extractLsb' 0 8 = 0xbf#8 := by
  decide

theorem head_field (hw : Half) (lo n : Nat) (inside : lo + n ≤ 8) :
    (hw.extractLsb' 8 8).extractLsb' lo n = hw.extractLsb' (8 + lo) n := by
  refine BitVec.eq_of_getLsbD_eq fun i low => ?_
  have small : lo + i < 8 := by omega
  simp only [BitVec.getLsbD_extractLsb', low, small, decide_true, Bool.true_and, Nat.add_assoc]

theorem misc_encoded (head : hw.extractLsb' 12 4 = 0b1011#4) : Encoded hw ∨ Reserved hw := by
  have cases := misc_heads (hw.extractLsb' 8 8)
  simp (disch := decide) only [head_field, Nat.reduceAdd] at cases
  rcases cases head with byte | ⟨ten, eight⟩ | byte | nine | byte | byte | byte | byte | byte | byte
  · exact .inl (encoded_adjustSp byte)
  · exact .inl (encoded_cbz head ten eight)
  · exact .inl (encoded_extend byte)
  · exact .inl (encoded_pushPop head nine)
  · by_cases five : hw.extractLsb' 5 3 = 0b011#3
    · exact .inl (encoded_cps byte five)
    · exact .inr (.state byte five)
  · exact .inr (.misc (.inl byte))
  · exact .inr (.misc (.inr byte))
  · by_cases op : hw.extractLsb' 6 2 = 0b10#2
    · refine .inr (.halt ?_)
      rw [← BitVec.extractLsb'_append_extractLsb'_eq_extractLsb' (by decide : 8 = 6 + 2), byte, op]
      rfl
    · exact .inl (encoded_rev byte op)
  · exact .inl (encoded_bkpt byte)
  · exact .inl (encoded_hint byte)

theorem encoded_or_reserved (hw : Half) : Encoded hw ∨ Reserved hw := by
  cases side : (hw.extractLsb' 8 8).getLsbD 7 with
  | false =>
    have cases := lower_heads (hw.extractLsb' 8 8) side
    simp (disch := decide) only [head_field, Nat.reduceAdd] at cases
    rcases cases with ⟨head, op⟩ | head | head | head | head | ⟨head, op⟩ | head | head | head |
      head | head
    · exact .inl (encoded_shift head op)
    · exact .inl (encoded_addSubReg head)
    · exact .inl (encoded_addSubImm head)
    · exact .inl (encoded_immediate head)
    · exact .inl (encoded_alu head)
    · exact .inl (encoded_high head op)
    · by_cases last : hw.extractLsb' 0 2 = 0#2
      · exact .inl (encoded_bx head last)
      · exact .inr (.exchange head last)
    · exact .inl (encoded_ldrLiteral head)
    · exact .inl (encoded_memReg head)
    · exact .inl (encoded_memImm .word head)
    · exact .inl (encoded_memImm .byte head)
  | true =>
    have cases := upper_heads (hw.extractLsb' 8 8) side
    simp (disch := decide) only [head_field, Nat.reduceAdd] at cases
    rcases cases with head | head | head | head | head | head | head | head | head | head
    · exact .inl (encoded_memImm .half head)
    · exact .inl (encoded_memSp head)
    · exact .inl (encoded_adr head)
    · exact .inl (encoded_addSp head)
    · exact misc_encoded head
    · by_cases list : hw.extractLsb' 0 8 = 0#8
      · exact .inr (.noRegs head list)
      · exact .inl (encoded_multiple head list)
    · exact .inl (encoded_bCond head)
    · exact .inl (encoded_b head)
    · exact .inr (.longer (.inl head))
    · exact .inr (.longer (.inr head))

theorem undefined_exchange (head : hw.extractLsb' 8 8 = 0x47#8) (low : hw.extractLsb' 0 2 ≠ 0#2) :
    (decode16 hw).undefined = true := by
  have here : Pattern.Matches ⟨0xff00, 0x4700⟩ hw := matches_field head
  have other (v : Half) (clear : v.extractLsb' 0 2 = 0#2) : ¬ hw &&& 0xff87 = v := by
    intro same
    have fixed : (0xff87#16).extractLsb' 0 2 = BitVec.allOnes 2 := by decide
    exact low ((Matches.extract (p := ⟨0xff87, v⟩) same 0 2 fixed).trans clear)
  have last : hw.toNat >>> 8 % 4 = 3 := by
    have two := here.extract 8 2 (by decide)
    exact (bits_nat hw 8 2).trans (congrArg BitVec.toNat two)
  rw [past_control here (by decide) 4#4 (by decide)]
  simp (disch := decide) only [decoders, BitVec.toNat_ofNat, Nat.reducePow, Nat.reduceMod, firstOf,
    branchMisc, highReg, lowReg, extRev, loadstore, here.and_true, here.and_false, other, last,
    if_true, if_false, false_and, or_self]
  rfl

theorem undefined_state (head : hw.extractLsb' 8 8 = 0xb6#8) (cps : hw.extractLsb' 5 3 ≠ 0b011#3) :
    (decode16 hw).undefined = true := by
  have here : Pattern.Matches ⟨0xff00, 0xb600⟩ hw := matches_field head
  have other : ¬ hw &&& 0xffe0 = 0xb660 := by
    intro same
    exact cps (Matches.extract (p := ⟨0xffe0, 0xb660⟩) same 5 3 (by decide))
  have row : hw.extractLsb' 12 4 = 0xb#4 := here.extract 12 4 (by decide)
  simp (disch := decide) only [decode16_eq, row, decoders, BitVec.toNat_ofNat, Nat.reducePow,
    Nat.reduceMod, firstOf, Decode.control, stackMisc, branchMisc, extRev, here.and_false,
    here.other, other, if_false]
  rfl

theorem undefined_of_reserved (reserved : Reserved hw) : (decode16 hw).undefined = true := by
  cases reserved with
  | exchange head low => exact undefined_exchange head low
  | state head cps => exact undefined_state head cps
  | misc head =>
    rcases head with head | head
    · have here : Pattern.Matches ⟨0xff00, 0xb700⟩ hw := matches_field head
      rw [past_control here (by decide) 0xb#4 (by decide)]
      simp (disch := decide) only [decoders, BitVec.toNat_ofNat, Nat.reducePow, Nat.reduceMod,
        firstOf, stackMisc, branchMisc, extRev, here.and_false, if_false]
      rfl
    · have here : Pattern.Matches ⟨0xff00, 0xb800⟩ hw := matches_field head
      rw [past_control here (by decide) 0xb#4 (by decide)]
      simp (disch := decide) only [decoders, BitVec.toNat_ofNat, Nat.reducePow, Nat.reduceMod,
        firstOf, stackMisc, branchMisc, extRev, here.and_false, if_false]
      rfl
  | halt head =>
    have here : Pattern.Matches ⟨0xffc0, 0xba80⟩ hw := matches_field head
    rw [past_control here (by decide) 0xb#4 (by decide)]
    simp (disch := decide) only [decoders, BitVec.toNat_ofNat, Nat.reducePow, Nat.reduceMod,
      firstOf, stackMisc, branchMisc, extRev, here.and_false, if_false]
    rfl
  | noRegs head list =>
    have here : Pattern.Matches ⟨0xf000, 0xc000⟩ hw := matches_field head
    have none : hw &&& 0xff = 0 := matches_field list
    rw [past_control here (by decide) 0xc#4 (by decide)]
    simp (disch := decide) only [decoders, BitVec.toNat_ofNat, Nat.reducePow, Nat.reduceMod,
      firstOf, stmLdm, none, ne_eq, not_true_eq_false, and_false, if_false]
    rfl
  | longer head =>
    rcases head with head | head
    · have here : Pattern.Matches ⟨0xf800, 0xe800⟩ hw := matches_field head
      rw [past_control here (by decide) 0xe#4 (by decide)]
      simp (disch := decide) only [decoders, BitVec.toNat_ofNat, Nat.reducePow, Nat.reduceMod,
        firstOf, branchUncond, here.and_false, if_false]
      rfl
    · have here : Pattern.Matches ⟨0xf000, 0xf000⟩ hw := matches_field head
      rw [past_control here (by decide) 0xf#4 (by decide)]
      rfl

theorem decoded_defined (i : Thumb) : i.decoded.undefined = false := by
  cases i with
  | immediate op => cases op <;> rfl
  | alu op => cases op <;> rfl
  | _ => rfl

/-- The decoder takes the encodings of instructions, and nothing else. -/
theorem defined_iff_encoded (hw : Half) : (decode16 hw).undefined = false ↔ Encoded hw := by
  constructor
  · intro defined
    refine (encoded_or_reserved hw).resolve_right fun reserved => ?_
    rw [undefined_of_reserved reserved] at defined
    cases defined
  · rintro ⟨i, proper, rfl⟩
    rw [decode16_encode i proper]
    exact decoded_defined i

end Thumb

end M33mu
