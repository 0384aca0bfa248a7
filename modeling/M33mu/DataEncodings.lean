import M33mu.Encodings

namespace M33mu

open Lib

namespace Decode

/-- The encodings of the 16-bit data-processing instructions, but for `CMP`, `TST` and `CMN`. -/
def NarrowData (hw1 : Half) : Prop :=
  hw1 &&& 0xc000 = 0 ∧ hw1 &&& 0xf800 ≠ 0x2800 ∨
    hw1 &&& 0xfc00 = 0x4000 ∧ hw1 &&& 0xffc0 ∉ [(0x4200 : Half), 0x4280, 0x42c0]

instance (hw1 : Half) : Decidable (NarrowData hw1) := inferInstanceAs (Decidable (_ ∨ _))

def narrowKinds : List OpKind :=
  [.movImm, .addImm, .subImm, .addReg, .subReg, .lslImm, .lsrImm, .asrImm, .andReg, .eorReg,
    .lslReg, .lsrReg, .asrReg, .adcsReg, .sbcsReg, .rorReg, .neg, .orrReg, .mul, .bicReg, .mvnReg]

theorem opcode_alu {hw1 : Half} (alu : hw1 &&& 0xfc00 = 0x4000) :
    hw1 &&& (0xffc0 : Half) = (0x4000 : Half) ||| BitVec.ofNat 16 (hw1.toNat >>> 6 % 16) <<< 6 := by
  have field := and_field hw1 6 4
  have low : (hw1.extractLsb' 6 4).setWidth 16 = BitVec.ofNat 16 (hw1.toNat >>> 6 % 16) := by
    apply BitVec.eq_of_toNat_eq
    simp
  rw [show (BitVec.allOnes 4).setWidth 16 <<< 6 = (0x3c0 : Half) by decide, low] at field
  rw [← alu, ← field, ← BitVec.and_or_distrib_left]
  rfl

theorem aluKind_narrow {hw1 : Half} (alu : hw1 &&& 0xfc00 = 0x4000)
    (compares : hw1 &&& 0xffc0 ∉ [(0x4200 : Half), 0x4280, 0x42c0]) :
    aluKind (hw1.toNat >>> 6 % 16) ∈ narrowKinds := by
  rw [opcode_alu alu] at compares
  have small := Nat.mod_lt (hw1.toNat >>> 6) (show 0 < 16 by decide)
  generalize hw1.toNat >>> 6 % 16 = opcode at compares small
  revert compares
  revert opcode
  decide

theorem row_cases {hw1 : Half} (low : hw1 &&& 0xc000 = 0) :
    ∃ row ∈ [(0x0000 : Half), 0x0800, 0x1000, 0x1800, 0x2000, 0x2800, 0x3000, 0x3800],
      hw1 &&& 0xf800 = row := by
  have field := and_field hw1 11 5
  rw [show ((BitVec.allOnes 5).setWidth 16 <<< 11 : Half) = 0xf800 by decide] at field
  have none : (hw1 &&& 0xf800) &&& 0xc000 = 0 := by
    rw [BitVec.and_assoc]
    exact low
  refine ⟨_, ?_, rfl⟩
  rw [field] at none ⊢
  generalize hw1.extractLsb' 11 5 = k at none
  revert k
  decide

theorem lowReg_narrow {hw1 : Half} (narrow : NarrowData hw1) (d : Decoded) :
    ∃ d', lowReg hw1 d = (true, d') ∧ d'.undefined = false ∧ d'.kind ∈ narrowKinds := by
  rcases narrow with ⟨low, compares⟩ | ⟨alu, compares⟩
  · obtain ⟨row, mem, is⟩ := row_cases low
    have apart : hw1 &&& 0xfc00 ≠ 0x4000 :=
      Pattern.Apart.not_matches (p := ⟨0xc000, 0⟩) (q := ⟨0xfc00, 0x4000⟩) (by decide) low
    have top : hw1 &&& 0xe000 = row &&& 0xe000 := by
      rw [← is, BitVec.and_assoc]
      rfl
    have op : hw1 >>> 11 &&& (0x3 : Half) = row >>> 11 &&& 0x3 := by
      rw [← is, BitVec.ushiftRight_and_distrib, BitVec.and_assoc]
      rfl
    rw [lowReg]
    rw [is] at compares
    simp only [is, apart, top, op, if_false]
    clear is top op apart low
    simp only [List.mem_cons, List.not_mem_nil, or_false] at mem
    rcases mem with rfl | rfl | rfl | rfl | rfl | rfl | rfl | rfl
    case inl | inr.inl | inr.inr.inl =>
      refine ⟨_, rfl, rfl, ?_⟩
      dsimp only
      split <;> decide
    case inr.inr.inr.inl =>
      cases hw1.getLsbD 10 <;> cases hw1.getLsbD 9 <;> exact ⟨_, rfl, rfl, List.elem_iff.mp rfl⟩
    case inr.inr.inr.inr.inr.inl => exact absurd rfl compares
    all_goals exact ⟨_, rfl, rfl, List.elem_iff.mp rfl⟩
  · have apart (row : Half) (other : row &&& 0xc000 ≠ 0x4000) : hw1 &&& 0xf800 ≠ row := by
      rintro rfl
      apply other
      rw [BitVec.and_assoc]
      exact Pattern.Within.matches (p := ⟨0xfc00, 0x4000⟩) (q := ⟨0xc000, 0x4000⟩) (by decide) alu
    rw [lowReg, if_neg (apart _ (by decide)), if_neg (apart _ (by decide)),
      if_neg (apart _ (by decide)), if_neg (apart _ (by decide)), if_neg (apart _ (by decide)),
      if_pos alu]
    have kind := aluKind_narrow alu compares
    dsimp only
    by_cases neg : hw1.toNat >>> 6 % 16 = 0x9
    · rw [if_pos neg]
      exact ⟨_, rfl, rfl, List.elem_iff.mp rfl⟩
    · rw [if_neg neg]
      exact ⟨_, rfl, rfl, kind⟩

theorem toNat_shift_row {hw1 row : Half} (is : hw1 &&& 0xf800 = row) :
    hw1.toNat >>> 12 = row.toNat >>> 12 := by
  have cleared := toNat_and_not_mask hw1 11 (by decide)
  rw [show (~~~BitVec.ofNat 16 (2 ^ 11 - 1) : Half) = 0xf800 by decide, is] at cleared
  rw [Nat.shiftRight_eq_div_pow, Nat.shiftRight_eq_div_pow, cleared]
  omega

theorem branchMisc_refuse {hw1 : Half} (alu : hw1 &&& 0xfc00 = 0x4000) (d : Decoded) :
    branchMisc hw1 d = (false, d) := by
  have none : ∀ q ∈ [(⟨0xf500, 0xb100⟩ : Pattern 16), ⟨0xff87, 0x4704⟩, ⟨0xff87, 0x4784⟩,
      ⟨0xff87, 0x4700⟩, ⟨0xff87, 0x4780⟩], ¬ q.Matches hw1 := by
    intro q mem
    refine Pattern.Apart.not_matches (p := ⟨0xfc00, 0x4000⟩) ?_ alu
    revert q
    decide
  simp only [List.forall_mem_cons, Pattern.Matches] at none
  obtain ⟨cbz, bxns, blxns, bx, blx, -⟩ := none
  rw [branchMisc, if_neg cbz, if_neg bxns, if_neg blxns, if_neg bx, if_neg blx]

theorem firstOf_refused {f : Half → Decoded → Bool × Decoded}
    {fs : List (Half → Decoded → Bool × Decoded)} {hw1 : Half} {d d' : Decoded}
    (refused : f hw1 d = (false, d')) : firstOf (f :: fs) hw1 d = firstOf fs hw1 d' := by
  rw [firstOf, refused]

theorem firstOf_accepted {f : Half → Decoded → Bool × Decoded}
    {fs : List (Half → Decoded → Bool × Decoded)} {hw1 : Half} {d d' : Decoded}
    (accepted : f hw1 d = (true, d')) : firstOf (f :: fs) hw1 d = d' := by
  rw [firstOf, accepted]

theorem decode16_narrow {hw1 : Half} (narrow : NarrowData hw1) :
    (decode16 hw1).undefined = false ∧ (decode16 hw1).kind ∈ narrowKinds := by
  obtain ⟨d', accepted, undefined, kind⟩ := lowReg_narrow narrow (.default 2 (hw1.setWidth 32))
  suffices found : decode16 hw1 = d' by
    rw [found]
    exact ⟨undefined, kind⟩
  have high (d : Decoded) (other : hw1 &&& 0xfc00 ≠ 0x4400) : highReg hw1 d = (false, d) :=
    if_neg other
  rcases narrow with ⟨low, -⟩ | ⟨alu, -⟩
  · have controlled := control_refuse (p := ⟨0xc000, 0⟩) low (by decide)
    have other : hw1 &&& 0xfc00 ≠ 0x4400 :=
      Pattern.Apart.not_matches (p := ⟨0xc000, 0⟩) (q := ⟨0xfc00, 0x4400⟩) (by decide) low
    obtain ⟨row, mem, is⟩ := row_cases low
    have top := toNat_shift_row is
    have order : decode16 hw1 =
        firstOf [control, highReg, lowReg] hw1 (.default 2 (hw1.setWidth 32)) := by
      rw [decode16, top]
      clear top is
      simp only [List.mem_cons, List.not_mem_nil, or_false] at mem
      rcases mem with rfl | rfl | rfl | rfl | rfl | rfl | rfl | rfl <;> rfl
    rw [order, firstOf_refused (controlled _), firstOf_refused (high _ other),
      firstOf_accepted accepted]
  · have controlled := control_refuse (p := ⟨0xfc00, 0x4000⟩) alu (by decide)
    have other : hw1 &&& 0xfc00 ≠ 0x4400 := by
      rw [alu]
      decide
    have row : hw1.toNat >>> 12 = 4 := by
      have cleared := toNat_and_not_mask hw1 10 (by decide)
      rw [show (~~~BitVec.ofNat 16 (2 ^ 10 - 1) : Half) = 0xfc00 by decide, alu] at cleared
      rw [Nat.shiftRight_eq_div_pow]
      have value : (0x4000 : Half).toNat = 0x4000 := rfl
      omega
    have order : decode16 hw1 =
        firstOf [control, branchMisc, highReg, lowReg, extRev, loadstore] hw1
          (.default 2 (hw1.setWidth 32)) := by
      rw [decode16, row]
      rfl
    rw [order, firstOf_refused (controlled _), firstOf_refused (branchMisc_refuse alu _),
      firstOf_refused (high _ other), firstOf_accepted accepted]

end Decode

namespace Decode32

def WideData (insn : Word) : Prop :=
  insn &&& 0xf8008000 = 0xf0000000 ∨ insn &&& 0xfe000000 = 0xea000000 ∨
    insn &&& 0xfe000000 = 0xfa000000

instance (insn : Word) : Decidable (WideData insn) := inferInstanceAs (Decidable (_ ∨ _ ∨ _))

def HasS (insn : Word) : Prop :=
  insn &&& 0xfa008000 = 0xf0000000 ∨ insn &&& 0xfe000000 = 0xea000000 ∨
    insn &&& 0xff80f0f0 = 0xfa00f000

instance (insn : Word) : Decidable (HasS insn) := inferInstanceAs (Decidable (_ ∨ _ ∨ _))

def sBitOf (insn : Word) : Bool := HasS insn && insn.getLsbD 20

def silentKinds : List OpKind :=
  [.movImm, .movw, .movt, .subImmNf, .sbcImmNf, .ubfx, .sbfx, .bfi, .bfc, .mrs, .rev, .rev16,
    .revsh, .rbit, .udiv, .sdiv, .mulW, .umaal, .umull, .umlal, .smull, .smlal, .smla, .mla, .mls,
    .clz, .uxtb, .sxtb, .uxth, .sxth]

def compareKinds : List OpKind := [.tstReg, .tstImm, .cmpReg, .cmpImm]

def steadyKinds : List OpKind :=
  [.cmnImm, .addReg, .subReg, .rsbImm, .rsbReg, .sbcImm, .mvnImm, .mvnReg]

def shiftKinds : List OpKind :=
  [.movReg, .lslImm, .lsrImm, .asrImm, .rorImm, .lslReg, .lsrReg, .asrReg, .rorRegNf]

def lastKinds : List OpKind :=
  [.addImm, .subImm, .adcImm, .andReg, .eorReg, .orrReg, .bicReg, .ornReg, .ornImm, .adcsReg,
    .sbcsReg]

def wideKinds : List OpKind := silentKinds ++ compareKinds ++ steadyKinds ++ shiftKinds ++ lastKinds

structure WideForm (insn : Word) (s : Bool) (d : Decoded) : Prop where
  kind : d.kind ∈ wideKinds
  silent : d.kind ∈ silentKinds → s = false
  bit : d.kind ∉ silentKinds → insn.getLsbD 20 = s
  always : d.kind = .cmnImm ∨ d.kind = .sbcImm → s = true
  shifted : d.kind = .addReg ∨ d.kind = .subReg ∨ d.kind = .sbcsReg →
    insn &&& 0xfe000000 = 0xea000000
  product : d.kind = .mulW → d.imm.getLsbD 0 = false

theorem candidates_modifiedImm : candidates ⟨0xfa008000, 0xf0000000⟩ =
    [mvnImm, rsbImm, movImm, orrImm, modifiedImm] := rfl

theorem candidates_plainImm : candidates ⟨0xfa008000, 0xf2000000⟩ =
    [mrs, addw, movw, movt, subw, ubfx, sbfx, bitFieldInsert] := rfl

theorem candidates_shifted : candidates ⟨0xfe000000, 0xea000000⟩ = [mvnReg, dataReg] := rfl

theorem candidates_register : candidates ⟨0xfe000000, 0xfa000000⟩ =
    [reverse, rbit, divide, mulW, umaal, mulLong, smla, mla, clz, shiftReg, extend] := rfl

theorem candidates_shiftReg : candidates ⟨0xff80f0f0, 0xfa00f000⟩ = [shiftReg, extend] := rfl

section

variable {insn : Word} {d d' : Decoded}

theorem WideForm.plain (kind : OpKind) {s : Bool} (is : d.kind = kind) (bit : insn.getLsbD 20 = s)
    (wide : kind ∈ wideKinds)
    (other : kind ∉ [.addReg, .subReg, .sbcsReg, .cmnImm, .sbcImm] ++ silentKinds) :
    WideForm insn s d := by
  subst is
  rw [List.mem_append, not_or] at other
  simp only [List.mem_cons, List.not_mem_nil, or_false, not_or] at other
  obtain ⟨⟨add, sub, sbc, cmn, sbcImm⟩, loud⟩ := other
  exact ⟨wide, fun silent => absurd silent loud, fun _ => bit,
    fun is => absurd is (not_or.mpr ⟨cmn, sbcImm⟩),
    fun is => absurd is (not_or.mpr ⟨add, not_or.mpr ⟨sub, sbc⟩⟩),
    fun is => absurd (by rw [is]; decide) loud⟩

theorem WideForm.ofSilent (kind : OpKind) {s : Bool} (is : d.kind = kind) (clear : s = false)
    (silent : kind ∈ silentKinds) (product : kind = .mulW → d.imm.getLsbD 0 = false) :
    WideForm insn s d := by
  subst is clear
  refine ⟨?_, fun _ => rfl, fun loud => absurd silent loud, fun is => ?_, fun is => ?_, product⟩
  · simp only [wideKinds, List.mem_append, silent, true_or]
  · rcases is with is | is <;> exact absurd silent (by rw [is]; decide)
  · rcases is with is | is | is <;> exact absurd silent (by rw [is]; decide)

def modifiedKinds (s : Bool) : List OpKind :=
  [.tstImm, .andReg, .bicReg, .orrReg, .ornImm, .eorReg, .adcImm, .addImm, .cmpImm] ++
    if s then [.cmnImm, .sbcImm, .subImm] else [.sbcImmNf, .subImmNf]

theorem mem_modifiedKinds {kind : OpKind} (found : modifiedKind insn = some kind) :
    kind ∈ modifiedKinds (insn.getLsbD 20) := by
  rw [modifiedKind] at found
  generalize decide (reg insn 8 = 15) = noDest at found
  generalize insn.getLsbD 20 = sbit at found ⊢
  split at found
  case h_10 => exact nomatch found
  all_goals
    cases found
    cases noDest <;> cases sbit <;> decide

theorem modifiedKinds_form : ∀ s, ∀ kind ∈ modifiedKinds s, kind ∈ wideKinds ∧
    (kind ∈ silentKinds → s = false) ∧ (kind = .cmnImm ∨ kind = .sbcImm → s = true) ∧
    kind ∉ [OpKind.addReg, .subReg, .sbcsReg, .mulW] := by
  decide

theorem wideForm_modifiedImm (accepted : modifiedImm insn d = (true, d')) :
    WideForm insn (insn.getLsbD 20) d' := by
  rw [modifiedImm] at accepted
  split at accepted
  · dsimp only at accepted
    split at accepted
    · rename_i kind found
      obtain rfl := congrArg Prod.snd accepted
      obtain ⟨wide, silent, always, other⟩ := modifiedKinds_form _ kind (mem_modifiedKinds found)
      simp only [List.mem_cons, List.not_mem_nil, or_false, not_or] at other
      exact ⟨wide, silent, fun _ => rfl, always,
        fun is => absurd is (by simp only [Decoded.is, other, or_self, not_false_eq_true]),
        fun is => absurd is other.2.2.2⟩
    · cases accepted
  · cases accepted

theorem wideForm_modified (head : insn &&& 0xfa008000 = 0xf0000000)
    (defined : (Decode.decode32 insn).undefined = false) :
    WideForm insn (insn.getLsbD 20) (Decode.decode32 insn) := by
  obtain ⟨rule, mem, accepted⟩ :=
    exists_candidate (p := ⟨0xfa008000, 0xf0000000⟩) head defined
  rw [candidates_modifiedImm] at mem
  generalize Decode.decode32 insn = d at accepted defined
  simp only [List.mem_cons, List.not_mem_nil, or_false] at mem
  rcases mem with rfl | rfl | rfl | rfl | rfl
  · rw [mvnImm] at accepted
    split at accepted
    · split at accepted <;> cases accepted
      · cases defined
      · exact .plain .mvnImm rfl rfl (by decide) (by decide)
    · cases accepted
  · rw [rsbImm] at accepted
    split at accepted <;> cases accepted
    exact .plain .rsbImm rfl rfl (by decide) (by decide)
  · rw [movImm] at accepted
    split at accepted <;> cases accepted
    rename_i is
    exact .ofSilent .movImm rfl (clear_of_masked is.1 (by decide) (by decide)) (by decide)
      fun is => by cases is
  · rw [orrImm] at accepted
    split at accepted <;> cases accepted
    exact .plain .orrReg rfl rfl (by decide) (by decide)
  · exact wideForm_modifiedImm accepted

theorem wideForm_plainImm (head : insn &&& 0xfa008000 = 0xf2000000)
    (defined : (Decode.decode32 insn).undefined = false) :
    WideForm insn false (Decode.decode32 insn) := by
  obtain ⟨rule, mem, accepted⟩ :=
    exists_candidate (p := ⟨0xfa008000, 0xf2000000⟩) head defined
  rw [candidates_plainImm] at mem
  generalize Decode.decode32 insn = d at accepted defined
  simp only [List.mem_cons, List.not_mem_nil, or_false] at mem
  rcases mem with rfl | rfl | rfl | rfl | rfl | rfl | rfl | rfl
  · rw [mrs] at accepted
    split at accepted
    · dsimp only at accepted
      split at accepted <;> cases accepted
      · cases defined
      · exact .ofSilent .mrs rfl rfl (by decide) fun is => by cases is
    · cases accepted
  · rw [addw] at accepted
    split at accepted <;> cases accepted
    rename_i is
    exact .plain .addImm rfl (clear_of_masked is (by decide) (by decide)) (by decide) (by decide)
  · rw [movw] at accepted
    split at accepted <;> cases accepted
    exact .ofSilent .movw rfl rfl (by decide) fun is => by cases is
  · rw [movt] at accepted
    split at accepted <;> cases accepted
    exact .ofSilent .movt rfl rfl (by decide) fun is => by cases is
  · rw [subw] at accepted
    split at accepted <;> cases accepted
    exact .ofSilent .subImmNf rfl rfl (by decide) fun is => by cases is
  · rw [ubfx] at accepted
    split at accepted <;> cases accepted
    exact .ofSilent .ubfx rfl rfl (by decide) fun is => by cases is
  · rw [sbfx] at accepted
    split at accepted <;> cases accepted
    exact .ofSilent .sbfx rfl rfl (by decide) fun is => by cases is
  · rw [bitFieldInsert] at accepted
    split at accepted <;> cases accepted
    by_cases pc : reg insn 16 = 15
    · exact .ofSilent .bfc (if_pos pc) rfl (by decide) fun is => by cases is
    · exact .ofSilent .bfi (if_neg pc) rfl (by decide) fun is => by cases is

theorem wideForm_shifted (head : insn &&& 0xfe000000 = 0xea000000)
    (defined : (Decode.decode32 insn).undefined = false) :
    WideForm insn (insn.getLsbD 20) (Decode.decode32 insn) := by
  obtain ⟨rule, mem, accepted⟩ :=
    exists_candidate (p := ⟨0xfe000000, 0xea000000⟩) head defined
  rw [candidates_shifted] at mem
  generalize Decode.decode32 insn = d at accepted defined
  have shifted (kind : OpKind) (is : d.kind = kind) (wide : kind ∈ wideKinds)
      (other : kind ∉ [.cmnImm, .sbcImm] ++ silentKinds) : WideForm insn (insn.getLsbD 20) d := by
    subst is
    rw [List.mem_append, not_or] at other
    simp only [List.mem_cons, List.not_mem_nil, or_false] at other
    exact ⟨wide, fun silent => absurd silent other.2, fun _ => rfl, fun is => absurd is other.1,
      fun _ => head, fun is => absurd (by rw [is]; decide) other.2⟩
  simp only [List.mem_cons, List.not_mem_nil, or_false] at mem
  rcases mem with rfl | rfl
  · rw [mvnReg] at accepted
    split at accepted
    · dsimp only at accepted
      split at accepted <;> cases accepted
      · cases defined
      · exact .plain .mvnReg rfl rfl (by decide) (by decide)
    · cases accepted
  · rw [dataReg, if_pos head] at accepted
    split at accepted
    · cases accepted
      exact shifted .addReg rfl (by decide) (by decide)
    · split at accepted <;> cases accepted
      · exact shifted .cmpReg rfl (by decide) (by decide)
      · exact shifted .subReg rfl (by decide) (by decide)
    · cases accepted
      exact shifted .eorReg rfl (by decide) (by decide)
    · cases accepted
      exact shifted .adcsReg rfl (by decide) (by decide)
    · cases accepted
      exact shifted .sbcsReg rfl (by decide) (by decide)
    · cases accepted
      exact shifted .rsbReg rfl (by decide) (by decide)
    · cases accepted
      exact shifted .bicReg rfl (by decide) (by decide)
    · split at accepted <;> cases accepted
      · exact shifted .tstReg rfl (by decide) (by decide)
      · exact shifted .andReg rfl (by decide) (by decide)
    · split at accepted <;> cases accepted
      · have moves : moveKind insn ∈ shiftKinds := by
          rw [moveKind]
          split
          · split <;> decide
          all_goals decide
        have apart : ∀ kind ∈ shiftKinds, kind ∈ wideKinds ∧
            kind ∉ [.cmnImm, .sbcImm] ++ silentKinds := by decide
        exact shifted _ rfl (apart _ moves).1 (apart _ moves).2
      · exact shifted .orrReg rfl (by decide) (by decide)
    · cases accepted
      exact shifted .ornReg rfl (by decide) (by decide)
    · cases accepted

theorem shiftReg_accepts (head : insn &&& 0xff80f0f0 = 0xfa00f000) (d : Decoded) :
    ∃ kind ∈ [OpKind.lslReg, .lsrReg, .asrReg, .rorRegNf],
      shiftReg insn d = (true, { threeRegs insn d with kind := kind, undefined := false }) := by
  have opcode : insn &&& (0xffe0f0f0 : Word) =
      (0xfa00f000 : Word) ||| (insn.extractLsb' 21 2).setWidth 32 <<< 21 := by
    have field := and_field insn 21 2
    rw [show (BitVec.allOnes 2).setWidth 32 <<< 21 = (0x600000 : Word) by decide] at field
    rw [← head, ← field, ← BitVec.and_or_distrib_left]
    rfl
  rw [shiftReg, opcode]
  generalize insn.extractLsb' 21 2 = k
  have cases : k = 0 ∨ k = 1 ∨ k = 2 ∨ k = 3 := by
    revert k
    decide
  rcases cases with rfl | rfl | rfl | rfl
  · exact ⟨.lslReg, by decide, rfl⟩
  · exact ⟨.lsrReg, by decide, rfl⟩
  · exact ⟨.asrReg, by decide, rfl⟩
  · exact ⟨.rorRegNf, by decide, rfl⟩

theorem wideForm_shiftReg (head : insn &&& 0xff80f0f0 = 0xfa00f000) :
    WideForm insn (insn.getLsbD 20) (Decode.decode32 insn) := by
  obtain ⟨kind, mem, accepted⟩ := shiftReg_accepts head (.default 4 insn)
  rw [Decode.decode32, firstRule_candidates (p := ⟨0xff80f0f0, 0xfa00f000⟩) head,
    candidates_shiftReg, firstRule_accepted shiftReg accepted]
  have plain : ∀ kind ∈ [OpKind.lslReg, .lsrReg, .asrReg, .rorRegNf], kind ∈ wideKinds ∧
      kind ∉ [.addReg, .subReg, .sbcsReg, .cmnImm, .sbcImm] ++ silentKinds := by decide
  exact .plain kind rfl rfl (plain kind mem).1 (plain kind mem).2

theorem wideForm_register (head : insn &&& 0xfe000000 = 0xfa000000)
    (other : insn &&& 0xff80f0f0 ≠ 0xfa00f000)
    (defined : (Decode.decode32 insn).undefined = false) :
    WideForm insn false (Decode.decode32 insn) := by
  obtain ⟨rule, mem, accepted⟩ :=
    exists_candidate (p := ⟨0xfe000000, 0xfa000000⟩) head defined
  rw [candidates_register] at mem
  generalize Decode.decode32 insn = d at accepted defined
  simp only [List.mem_cons, List.not_mem_nil, or_false] at mem
  rcases mem with rfl | rfl | rfl | rfl | rfl | rfl | rfl | rfl | rfl | rfl | rfl
  · rw [reverse] at accepted
    split at accepted
    · split at accepted
      · cases accepted
        exact .ofSilent .rev rfl rfl (by decide) fun is => by cases is
      split at accepted
      · cases accepted
        exact .ofSilent .rev16 rfl rfl (by decide) fun is => by cases is
      split at accepted <;> cases accepted
      exact .ofSilent .revsh rfl rfl (by decide) fun is => by cases is
    · cases accepted
  · rw [rbit] at accepted
    split at accepted <;> cases accepted
    exact .ofSilent .rbit rfl rfl (by decide) fun is => by cases is
  · rw [divide] at accepted
    split at accepted
    · split at accepted
      · cases accepted
        exact .ofSilent .udiv rfl rfl (by decide) fun is => by cases is
      split at accepted <;> cases accepted
      exact .ofSilent .sdiv rfl rfl (by decide) fun is => by cases is
    · cases accepted
  · rw [mulW] at accepted
    split at accepted <;> cases accepted
    rename_i is
    refine .ofSilent .mulW rfl rfl (by decide) fun _ => ?_
    have clear : insn.getLsbD 20 = false := clear_of_masked is.1 (by decide) (by decide)
    rw [threeRegs, bits_eq]
    simpa using clear
  · rw [umaal] at accepted
    split at accepted <;> cases accepted
    exact .ofSilent .umaal rfl rfl (by decide) fun is => by cases is
  · rw [mulLong] at accepted
    split at accepted
    · split at accepted
      · cases accepted
        exact .ofSilent .umull rfl rfl (by decide) fun is => by cases is
      split at accepted
      · cases accepted
        exact .ofSilent .umlal rfl rfl (by decide) fun is => by cases is
      split at accepted
      · cases accepted
        exact .ofSilent .smull rfl rfl (by decide) fun is => by cases is
      split at accepted <;> cases accepted
      exact .ofSilent .smlal rfl rfl (by decide) fun is => by cases is
    · cases accepted
  · rw [smla] at accepted
    split at accepted <;> cases accepted
    exact .ofSilent .smla rfl rfl (by decide) fun is => by cases is
  · rw [mla] at accepted
    split at accepted <;> cases accepted
    cases minus : insn.getLsbD 4
    · exact .ofSilent .mla rfl rfl (by decide) fun is => by cases is
    · exact .ofSilent .mls rfl rfl (by decide) fun is => by cases is
  · rw [clz] at accepted
    split at accepted <;> cases accepted
    exact .ofSilent .clz rfl rfl (by decide) fun is => by cases is
  · rw [shiftReg] at accepted
    have apart (x : Word) (within : x &&& 0xff80f0f0 = 0xfa00f000) : insn &&& 0xffe0f0f0 ≠ x := by
      rintro rfl
      apply other
      rw [← within, BitVec.and_assoc]
      rfl
    rw [if_neg (apart _ (by decide)), if_neg (apart _ (by decide)), if_neg (apart _ (by decide)),
      if_neg (apart _ (by decide))] at accepted
    cases accepted
  · rw [extend] at accepted
    split at accepted
    · split at accepted <;> cases accepted
      · cases defined
      · refine .ofSilent _ rfl rfl ?_ ?_
        · dsimp only
          split
          · decide
          split
          · decide
          split <;> decide
        · dsimp only
          split
          · intro is
            cases is
          split
          · intro is
            cases is
          split
          · intro is
            cases is
          · intro is
            cases is
    · cases accepted

theorem sBitOf_eq_of_hasS (has : HasS insn) : sBitOf insn = insn.getLsbD 20 := by
  rw [sBitOf, decide_eq_true has, Bool.true_and]

theorem sBitOf_eq_of_not (none : ¬ HasS insn) : sBitOf insn = false := by
  rw [sBitOf, decide_eq_false none, Bool.false_and]

theorem immediate_cases (head : insn &&& 0xf8008000 = 0xf0000000) :
    insn &&& 0xfa008000 = 0xf0000000 ∨ insn &&& 0xfa008000 = 0xf2000000 := by
  have split : insn &&& 0xfa008000 = (insn &&& 0xf8008000) ||| (insn &&& BitVec.twoPow 32 25) := by
    rw [← BitVec.and_or_distrib_left]
    rfl
  rw [split, head, BitVec.and_twoPow]
  cases insn.getLsbD 25
  · exact .inl rfl
  · exact .inr rfl

theorem wideForm (data : WideData insn) (defined : (Decode.decode32 insn).undefined = false) :
    WideForm insn (sBitOf insn) (Decode.decode32 insn) := by
  have apart (p q : Pattern 32) (other : p.Apart q) (here : p.Matches insn) : ¬ q.Matches insn :=
    other.not_matches here
  rcases data with immediate | shifted | register
  · rcases immediate_cases immediate with modified | plain
    · rw [sBitOf_eq_of_hasS (.inl modified)]
      exact wideForm_modified modified defined
    · have none : ¬ HasS insn :=
        not_or.mpr ⟨apart ⟨0xfa008000, 0xf2000000⟩ ⟨0xfa008000, 0xf0000000⟩ (by decide) plain,
          not_or.mpr ⟨apart ⟨0xfa008000, 0xf2000000⟩ ⟨0xfe000000, 0xea000000⟩ (by decide) plain,
            apart ⟨0xfa008000, 0xf2000000⟩ ⟨0xff80f0f0, 0xfa00f000⟩ (by decide) plain⟩⟩
      rw [sBitOf_eq_of_not none]
      exact wideForm_plainImm plain defined
  · rw [sBitOf_eq_of_hasS (.inr (.inl shifted))]
    exact wideForm_shifted shifted defined
  · by_cases shift : insn &&& 0xff80f0f0 = 0xfa00f000
    · rw [sBitOf_eq_of_hasS (.inr (.inr shift))]
      exact wideForm_shiftReg shift
    · have none : ¬ HasS insn :=
        not_or.mpr ⟨apart ⟨0xfe000000, 0xfa000000⟩ ⟨0xfa008000, 0xf0000000⟩ (by decide) register,
          not_or.mpr ⟨apart ⟨0xfe000000, 0xfa000000⟩ ⟨0xfe000000, 0xea000000⟩ (by decide) register,
            shift⟩⟩
      rw [sBitOf_eq_of_not none]
      exact wideForm_register register shift defined

end

end Decode32

end M33mu
