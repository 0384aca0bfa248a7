import M33mu.HostArithmetic

namespace M33mu

open Lib Lib.HostArith DataProc ExecHelpers Execute

def LongMul.exact64 : LongMul → (n m hi lo : Word) → BitVec 64
  | umull, n, m, _, _ => BitVec.ofNat 64 (n.toNat * m.toNat)
  | umlal, n, m, hi, lo => BitVec.ofNat 64 (n.toNat * m.toNat + (hi ++ lo).toNat)
  | umaal, n, m, hi, lo => BitVec.ofNat 64 (n.toNat * m.toNat + hi.toNat + lo.toNat)
  | smull, n, m, _, _ => BitVec.ofInt 64 (n.toInt * m.toInt)
  | smlal, n, m, hi, lo => BitVec.ofInt 64 (n.toInt * m.toInt + (hi ++ lo).toInt)

theorem LongMul.product_exact (op : LongMul) (n m hi lo : Word) :
    op.product n m hi lo = op.exact64 n m hi lo := by
  have bound := umaal_bound n m hi lo
  have computes := op.computes_product n m hi lo
  cases op with
  | umull =>
    apply BitVec.eq_of_toNat_eq
    rw [show (LongMul.umull.product n m hi lo).toNat = _ from computes, exact64,
      BitVec.toNat_ofNat, Nat.mod_eq_of_lt (by omega)]
  | umlal =>
    apply BitVec.eq_of_toNat_eq
    rw [show (LongMul.umlal.product n m hi lo).toNat = _ from computes, exact64,
      BitVec.toNat_ofNat]
  | umaal =>
    apply BitVec.eq_of_toNat_eq
    rw [computes.2, exact64, BitVec.toNat_ofNat, Nat.mod_eq_of_lt bound]
  | smull =>
    rw [exact64, BitVec.ofInt_mul]
    rfl
  | smlal =>
    rw [exact64, BitVec.ofInt_add, BitVec.ofInt_mul, BitVec.ofInt_toInt, BitVec.add_comm]
    rfl

def LongMul.ofKind : OpKind → Option LongMul
  | .umull => some .umull
  | .umlal => some .umlal
  | .umaal => some .umaal
  | .smull => some .smull
  | .smlal => some .smlal
  | _ => none

def armHalf (v : Word) (top : Bool) : ℤ := (v.extractLsb' (if top then 16 else 0) 16).toInt

def armInsert (dst src : Word) (lsb width : Nat) : Word :=
  (dst.extractLsb' (lsb + width) 32 ++ src.extractLsb' 0 width ++ dst.extractLsb' 0 lsb).setWidth 32

def armExtend (ext : Word → Word) (d : Decoded) (r : Regs) : Word :=
  let val := ext (armShift (r d.rm) .ror (immShift d) false).value
  if d.imm.getLsbD 31 ∧ d.rn ≠ 15 then r d.rn + val else val

/-- What the architecture puts into the destination. -/
def armValue (d : Decoded) (r : Regs) (carry : Bool) : Word :=
  let lsb := fieldLsb d
  let inserted := fieldMsb d - lsb + 1
  match d.kind with
  | .lslImm => (armShiftImm (r d.rm) 0 (immShift d) carry).value
  | .lsrImm => (armShiftImm (r d.rm) 1 (immShift d) carry).value
  | .asrImm => (armShiftImm (r d.rm) 2 (immShift d) carry).value
  | .rorImm => (armShiftImm (r d.rm) 3 (immShift d) carry).value
  | .lslReg => (armShift (r d.rn) .lsl (regAmount d r) carry).value
  | .lsrReg => (armShift (r d.rn) .lsr (regAmount d r) carry).value
  | .asrReg => (armShift (r d.rn) .asr (regAmount d r) carry).value
  | .rorReg | .rorRegNf => (armShift (r d.rn) .ror (regAmount d r) carry).value
  | .mul => BitVec.ofInt 32 ((r d.rd).toInt * (r d.rm).toInt)
  | .mulW => BitVec.ofInt 32 ((r d.rn).toInt * (r d.rm).toInt)
  | .mla => BitVec.ofInt 32 ((r d.rn).toInt * (r d.rm).toInt + (r d.ra).toInt)
  | .mls => BitVec.ofInt 32 ((r d.ra).toInt - (r d.rn).toInt * (r d.rm).toInt)
  | .smla => BitVec.ofInt 32 (armHalf (r d.rn) (d.imm.getLsbD 1) *
      armHalf (r d.rm) (d.imm.getLsbD 0) + (r d.ra).toInt)
  | .uxtb => armExtend (fun v => (v.setWidth 8).setWidth 32) d r
  | .sxtb => armExtend (fun v => (v.setWidth 8).signExtend 32) d r
  | .uxth => armExtend (fun v => (v.setWidth 16).setWidth 32) d r
  | .sxth => armExtend (fun v => (v.setWidth 16).signExtend 32) d r
  | .ubfx => ((r d.rn).extractLsb' lsb (fieldWidth d)).setWidth 32
  | .sbfx => ((r d.rn).extractLsb' lsb (fieldWidth d)).signExtend 32
  | .bfi => armInsert (r d.rd) (r d.rn) lsb inserted
  | .bfc => armInsert (r d.rd) 0 lsb inserted
  | .udiv => BitVec.ofNat 32 ((r d.rn).toNat / (r d.rm).toNat)
  | .sdiv => BitVec.ofInt 32 ((r d.rn).toInt.tdiv (r d.rm).toInt)
  | _ => r d.rd

def armRegs (d : Decoded) (r : Regs) (carry : Bool) : Regs :=
  match LongMul.ofKind d.kind with
  | some op =>
    let v := op.exact64 (r d.rn) (r d.rm) (r d.ra) (r d.rd)
    Function.update (Function.update r d.rd (v.setWidth 32)) d.ra (v.extractLsb' 32 32)
  | none => Function.update r d.rd (armValue d r carry)

/-- The bit fields that the architecture leaves open. -/
def Unpredictable (d : Decoded) : Prop :=
  match d.kind with
  | .ubfx | .sbfx => d.rd = 15 ∨ d.rn = 15 ∨ 32 < fieldLsb d + fieldWidth d
  | .bfi => fieldMsb d < fieldLsb d ∨ d.rd = 15 ∨ d.rn = 15
  | .bfc => fieldMsb d < fieldLsb d ∨ d.rd = 15
  | _ => False

/-- A division by zero may be trapped, a bit field that is left open is a fault, and otherwise the
registers are those of the architecture. -/
def ArmResult {δ : Type u} (env : Env δ) (f : FetchResult) (d : Decoded) (m : Machine δ)
    (o : Outcome δ) : Prop :=
  let r := m.cpu.r
  if (d.kind = .udiv ∨ d.kind = .sdiv) ∧ r d.rm = 0 ∧ m.world.scs.ccr.getLsbD 4 = true then
    o = (.cont, m.usageFault env f Machine.ufsrDivbyzero)
  else
    (Unpredictable d → o = (.cont, m.usageFault env f (1#32 <<< 16))) ∧
      (¬ Unpredictable d → o.1 = .ok ∧ o.2.cpu.r = armRegs d r (carryFlag m.cpu.xpsr))

namespace ExecHelpers

theorem getLsbD_widthMask {width i : Nat} (within : width ≤ 32) (inside : i < 32) :
    (widthMask width).getLsbD i = decide (i < width) := by
  rw [widthMask]
  split
  · rename_i whole
    rw [whole]
    revert i
    decide
  · rename_i part
    have mask : (1#32 <<< width - 1 : Word) = BitVec.ofNat 32 (2 ^ width - 1) := by
      apply BitVec.eq_of_toNat_eq
      have pos := Nat.two_pow_pos width
      have small : 2 ^ width < 2 ^ 32 := Nat.pow_lt_pow_right (by decide) (by omega)
      have one : (1#32 <<< width).toNat = 2 ^ width := by
        rw [BitVec.toNat_shiftLeft, Nat.shiftLeft_eq, show (1#32).toNat = 1 from rfl, Nat.one_mul,
          Nat.mod_eq_of_lt small]
      rw [BitVec.toNat_sub, one, BitVec.toNat_ofNat, show (1 : Word).toNat = 1 from rfl]
      omega
    rw [mask, getLsbD_twoPow_sub_one 32 width i within]

theorem ubfx_arm (v : Word) {lsb width : Nat} (good : badField lsb width = false) :
    ubfx v lsb width = (v.extractLsb' lsb width).setWidth 32 := by
  obtain ⟨-, within, -, -⟩ := Host.badField_false good
  apply BitVec.eq_of_getLsbD_eq
  intro i inside
  rw [ubfx, good, if_neg Bool.false_ne_true, BitVec.getLsbD_and, getLsbD_widthMask within inside,
    BitVec.getLsbD_ushiftRight, BitVec.getLsbD_setWidth, BitVec.getLsbD_extractLsb']
  simp [inside, Bool.and_comm]

theorem sbfx_arm (v : Word) {lsb width : Nat} (good : badField lsb width = false) :
    sbfx v lsb width = (v.extractLsb' lsb width).signExtend 32 := by
  obtain ⟨pos, within, -, -⟩ := Host.badField_false good
  have top : (v.extractLsb' lsb width).msb = (ubfx v lsb width).getLsbD (width - 1) := by
    rw [ubfx_arm v good, BitVec.msb_eq_getLsbD_last, BitVec.getLsbD_setWidth,
      decide_eq_true (by omega), Bool.true_and]
  have bits (i : Nat) (inside : i < 32) : ((v.extractLsb' lsb width).signExtend 32).getLsbD i =
      if i < width then (ubfx v lsb width).getLsbD i else (ubfx v lsb width).getLsbD (width - 1) := by
    rw [BitVec.getLsbD_signExtend, decide_eq_true inside, Bool.true_and, top]
    split
    · rw [ubfx_arm v good, BitVec.getLsbD_setWidth, decide_eq_true inside, Bool.true_and]
    · rfl
  have none (i : Nat) (above : width ≤ i) : (ubfx v lsb width).getLsbD i = false := by
    rw [ubfx_arm v good, BitVec.getLsbD_setWidth, BitVec.getLsbD_of_ge _ _ above, Bool.and_false]
  apply BitVec.eq_of_getLsbD_eq
  intro i inside
  rw [bits i inside]
  simp only [sbfx, if_neg (show ¬ (width = 0 ∨ 32 < width) by omega)]
  split
  · rename_i whole
    rw [if_pos (by omega)]
  · rename_i part
    have mask : ~~~((1#32 <<< (width - 1)) <<< 1 - 1) = ~~~widthMask width := by
      rw [widthMask, if_neg part, ← BitVec.shiftLeft_add, show width - 1 + 1 = width by omega]
    rw [mask]
    cases sign : (ubfx v lsb width).getLsbD (width - 1) with
    | false =>
      rw [if_neg Bool.false_ne_true]
      split
      · rfl
      · exact none i (by omega)
    | true =>
      rw [if_pos rfl, BitVec.getLsbD_or, BitVec.getLsbD_not, getLsbD_widthMask within inside,
        decide_eq_true inside, Bool.true_and]
      split
      · rename_i low
        rw [decide_eq_true low, Bool.not_true, Bool.or_false]
      · rename_i high
        rw [decide_eq_false high, Bool.not_false, Bool.or_true]

theorem bfi_arm (dst src : Word) {lsb width : Nat} (good : badField lsb width = false) :
    bfi dst src lsb width = armInsert dst src lsb width := by
  obtain ⟨-, within, -, fits⟩ := Host.badField_false good
  apply BitVec.eq_of_getLsbD_eq
  intro i inside
  rw [bfi, good, if_neg Bool.false_ne_true, armInsert]
  simp only [BitVec.getLsbD_or, BitVec.getLsbD_and, BitVec.getLsbD_not, BitVec.getLsbD_shiftLeft,
    BitVec.getLsbD_setWidth, BitVec.getLsbD_append, BitVec.getLsbD_extractLsb']
  by_cases low : i < lsb
  · simp [low, inside]
  · rw [getLsbD_widthMask within (show i - lsb < 32 by omega)]
    by_cases field : i - lsb < width
    · simp [low, inside, field]
    · simp [low, inside, field, show i - lsb - width < 32 by omega,
        show lsb + width + (i - lsb - width) = i by omega]

end ExecHelpers

namespace DataProc

theorem halfOf_arm (v : Word) (top : Bool) : halfOf v top = BitVec.ofInt 32 (armHalf v top) := by
  cases top with
  | false =>
    have low : v.setWidth 16 = v.extractLsb' 0 16 := BitVec.setWidth_eq_extractLsb' (by decide)
    rw [halfOf, armHalf, if_neg Bool.false_ne_true, if_neg Bool.false_ne_true, low]
    rfl
  | true =>
    rw [halfOf, armHalf, if_pos rfl, if_pos rfl, BitVec.setWidth_ushiftRight_eq_extractLsb]
    rfl

theorem rotated_arm (v : Word) {rot : Nat} (within : rot < 32) :
    (if rot = 0 then v else rotate v rot) = (armShift v .ror rot false).value := by
  by_cases turns : rot = 0
  · rw [if_pos turns, turns]
    rfl
  · rw [if_neg turns, armShift_ror v (Nat.pos_of_ne_zero turns) (Nat.mod_eq_of_lt within).symm,
      if_neg turns]

theorem and_mask_arm (v : Word) {k : Nat} (within : k < 32) :
    v &&& BitVec.ofNat 32 (2 ^ k - 1) = (v.setWidth k).setWidth 32 := by
  apply BitVec.eq_of_toNat_eq
  rw [toNat_and_mask v k within, BitVec.toNat_setWidth_of_le (by omega), BitVec.toNat_setWidth]

theorem extend_arm {ext ext' : Word → Word} (same : ∀ v, ext v = ext' v) (d : Decoded) (r : Regs) :
    (extend ext d r).r = Function.update r d.rd (armExtend ext' d r) := by
  simp only [extend, put, armExtend, rotated_arm (r d.rm) (immShift_lt d), same]

variable {d : Decoded} (itRemaining : Byte) (pcFetch : Word) (r : Regs) (xpsr : Word)

theorem long_arm {op : LongMul} (is : d.kind = op.kind) (named : LongMul.ofKind op.kind = some op) :
    (dataProc d itRemaining pcFetch r xpsr).r = armRegs d r (carryFlag xpsr) := by
  rw [LongMul.dataProc_long is, putLong, LongMul.product_exact, armRegs, is, named]
  dsimp only [split64]
  rw [BitVec.setWidth_ushiftRight_eq_extractLsb]

theorem dataProc_arm (kind : d.kind ∈ Host.plainKinds) :
    (dataProc d itRemaining pcFetch r xpsr).r = armRegs d r (carryFlag xpsr) := by
  have apart (k : OpKind) (is : d.kind = k) (out : k ∉ Host.plainKinds) : False := out (is ▸ kind)
  cases is : d.kind
  all_goals first
    | exact (apart _ is (by decide)).elim
    | skip
  case umull => exact @long_arm _ _ _ _ _ .umull is rfl
  case umlal => exact @long_arm _ _ _ _ _ .umlal is rfl
  case umaal => exact @long_arm _ _ _ _ _ .umaal is rfl
  case smull => exact @long_arm _ _ _ _ _ .smull is rfl
  case smlal => exact @long_arm _ _ _ _ _ .smlal is rfl
  all_goals simp only [armRegs, armValue, is, LongMul.ofKind]
  case lslImm => exact (constant_shifted (by rw [is]; rfl)).value
  case lsrImm => exact (constant_shifted (by rw [is]; rfl)).value
  case asrImm => exact (constant_shifted (by rw [is]; rfl)).value
  case rorImm => exact (constant_shifted (by rw [is]; rfl)).value
  case lslReg => exact (register_shifted (by rw [is]; rfl)).value
  case lsrReg => exact (register_shifted (by rw [is]; rfl)).value
  case asrReg => exact (register_shifted (by rw [is]; rfl)).value
  case rorReg | rorRegNf => exact (register_shifted (by rw [is]; rfl)).value
  all_goals simp only [dataProc, is]
  case uxtb =>
    have same (v : Word) : v &&& 0xff = (v.setWidth 8).setWidth 32 := @and_mask_arm v 8 (by decide)
    exact extend_arm same d r
  case uxth =>
    have same (v : Word) : v &&& 0xffff = (v.setWidth 16).setWidth 32 :=
      @and_mask_arm v 16 (by decide)
    exact extend_arm same d r
  case sxtb | sxth => exact extend_arm (fun v => rfl) d r
  case mul | mulW =>
    rw [BitVec.ofInt_mul, BitVec.ofInt_toInt, BitVec.ofInt_toInt]
    rfl
  case mla =>
    rw [BitVec.ofInt_add, BitVec.ofInt_mul, BitVec.ofInt_toInt, BitVec.ofInt_toInt,
      BitVec.ofInt_toInt]
    rfl
  case mls =>
    rw [Int.sub_eq_add_neg, BitVec.ofInt_add, BitVec.ofInt_neg, BitVec.ofInt_mul,
      BitVec.ofInt_toInt, BitVec.ofInt_toInt, BitVec.ofInt_toInt, BitVec.sub_eq_add_neg]
    rfl
  case smla =>
    rw [BitVec.ofInt_add, BitVec.ofInt_mul, ← halfOf_arm, ← halfOf_arm, BitVec.ofInt_toInt]
    rfl

end DataProc

section

variable {δ : Type u} (env : Env δ) (f : FetchResult) {d : Decoded} (m : Machine δ)

theorem armResult_plain (kind : d.kind ∈ Host.plainKinds) :
    ArmResult env f d m (executeDecoded env f d m) := by
  have written := dataProc_arm m.it.remaining f.pcFetch m.cpu.r m.cpu.xpsr kind
  have result : ArmResult env f d m (data m (dataOf m f d)) ↔
      (Unpredictable d → (data m (dataOf m f d)) = (.cont, m.usageFault env f (1#32 <<< 16))) ∧
        (¬ Unpredictable d → (data m (dataOf m f d)).1 = .ok ∧
          (data m (dataOf m f d)).2.cpu.r = armRegs d m.cpu.r (carryFlag m.cpu.xpsr)) := by
    rw [ArmResult, if_neg]
    rintro ⟨is | is, -⟩ <;> rw [is] at kind <;> exact absurd kind (by decide)
  have open' : ¬ Unpredictable d := by
    rw [Unpredictable]
    split
    case h_5 => exact not_false
    all_goals
      rename_i is
      exact absurd kind (by rw [is]; decide)
  have runs : executeDecoded env f d m = data m (dataOf m f d) := by
    rw [executeDecoded]
    generalize d.kind = k at kind ⊢
    cases k
    all_goals first
      | rfl
      | exact absurd kind (by decide)
  rw [runs, result]
  exact ⟨fun is => absurd is open', fun _ => ⟨rfl, written⟩⟩

theorem armResult_bitField {bad : Bool} {v : Word}
    (kind : d.kind ∈ [OpKind.ubfx, .sbfx, .bfi, .bfc]) (is : bad = true ↔ Unpredictable d)
    (value : bad = false → v = armValue d m.cpu.r (carryFlag m.cpu.xpsr)) :
    ArmResult env f d m (bitField env m f d bad v) := by
  have single : LongMul.ofKind d.kind = none := by
    revert kind
    cases d.kind <;> decide
  rw [ArmResult, if_neg (by rintro ⟨is | is, -⟩ <;> rw [is] at kind <;> exact absurd kind (by decide)),
    ← is]
  cases bad with
  | true => exact ⟨fun _ => rfl, fun other => absurd rfl other⟩
  | false =>
    refine ⟨nofun, fun _ => ⟨rfl, ?_⟩⟩
    rw [armRegs, single, ← value rfl]
    rfl

theorem fieldMsb_lt (d : Decoded) : fieldMsb d < 32 := by
  rw [fieldMsb, show (d.raw &&& 0x1f).toNat = _ from toNat_and_mask d.raw 5 (by decide)]
  exact Nat.mod_lt _ (by decide)

theorem armResult_field (kind : d.kind ∈ [OpKind.ubfx, .sbfx, .bfi, .bfc]) :
    ArmResult env f d m (executeDecoded env f d m) := by
  have msb := fieldMsb_lt d
  have pos : 0 < fieldWidth d := Nat.succ_pos _
  have cases := kind
  simp only [List.mem_cons, List.not_mem_nil, or_false] at cases
  rcases cases with is | is | is | is
  all_goals
    simp only [executeDecoded, is]
    refine armResult_bitField env f m kind ?_ fun good => ?_
  case inl.refine_1 | inr.inl.refine_1 | inr.inr.inl.refine_1 | inr.inr.inr.refine_1 =>
    simp only [Unpredictable, is, Bool.or_eq_true, decide_eq_true_iff]
    by_cases rd : d.rd = 15 <;> by_cases rn : d.rn = 15 <;>
      simp only [rd, rn, true_or, or_true, false_or, or_false] <;>
      omega
  all_goals
    simp only [Bool.or_eq_false_iff, decide_eq_false_iff_not] at good
    simp only [armValue, is]
  case inl.refine_2 => exact ubfx_arm _ (by simp [badField]; omega)
  case inr.inl.refine_2 => exact sbfx_arm _ (by simp [badField]; omega)
  case inr.inr.inl.refine_2 => exact bfi_arm _ _ (by simp [badField]; omega)
  case inr.inr.inr.refine_2 => exact bfi_arm _ _ (by simp [badField]; omega)

theorem armResult_div {div : Word → Word → Word} (kind : d.kind = .udiv ∨ d.kind = .sdiv)
    (value : m.cpu.r d.rm ≠ 0 → div (m.cpu.r d.rn) (m.cpu.r d.rm) =
      armValue d m.cpu.r (carryFlag m.cpu.xpsr))
    (none : m.cpu.r d.rm = 0 → armValue d m.cpu.r (carryFlag m.cpu.xpsr) = 0) :
    ArmResult env f d m (execDiv env m f d div) := by
  have single : LongMul.ofKind d.kind = .none := by rcases kind with is | is <;> rw [is] <;> rfl
  have closed : ¬ Unpredictable d := by
    rcases kind with is | is <;> simp only [Unpredictable, is] <;> exact not_false
  have written (v : Word) (is : v = armValue d m.cpu.r (carryFlag m.cpu.xpsr)) :
      (m.setReg d.rd v).cpu.r = armRegs d m.cpu.r (carryFlag m.cpu.xpsr) := by
    rw [armRegs, single, is]
    rfl
  simp only [ArmResult, kind, true_and, execDiv]
  by_cases zero : m.cpu.r d.rm = 0
  · rw [if_pos zero]
    by_cases trap : m.world.scs.ccr.getLsbD 4 = true
    · rw [if_pos ⟨zero, trap⟩, if_pos trap]
    · rw [if_neg fun is => trap is.2, if_neg trap]
      exact ⟨fun is => absurd is closed, fun _ => ⟨rfl, written 0 (none zero).symm⟩⟩
  · rw [if_neg fun is => zero is.1, if_neg zero]
    exact ⟨fun is => absurd is closed, fun _ => ⟨rfl, written _ (value zero)⟩⟩

theorem armResult_quotient (kind : d.kind = .udiv ∨ d.kind = .sdiv) :
    ArmResult env f d m (executeDecoded env f d m) := by
  rcases kind with is | is
  all_goals simp only [executeDecoded, is]
  · refine armResult_div env f m (.inl is) (fun _ => ?_) fun zero => ?_
    · simp only [armValue, is]
      apply BitVec.eq_of_toNat_eq
      have bound := Nat.div_le_self (m.cpu.r d.rn).toNat (m.cpu.r d.rm).toNat
      have small := (m.cpu.r d.rn).isLt
      rw [BitVec.toNat_ofNat, BitVec.toNat_udiv, Nat.mod_eq_of_lt (by omega)]
    · simp only [armValue, is, zero]
      exact congrArg (BitVec.ofNat 32) (Nat.div_zero _)
  · refine armResult_div env f m (.inr is) (fun _ => ?_) fun zero => ?_
    · simp only [armValue, is]
      apply BitVec.eq_of_toInt_eq
      rw [BitVec.toInt_sdiv, BitVec.toInt_ofInt]
    · simp only [armValue, is, zero]
      exact congrArg (BitVec.ofInt 32) (Int.tdiv_zero _)

/-- Executing an arithmetic instruction is defined in C, with the result of the architecture,
exactly if it is neither the one quotient nor a sum of `SMLAxy` out of range. -/
theorem host_arithmetic (kind : d.kind ∈ Host.arithmeticKinds) :
    (Host.execute env f d m = some (executeDecoded env f d m) ∧
      ArmResult env f d m (executeDecoded env f d m)) ↔ ¬ Host.Undefined d m.cpu.r := by
  have result : ArmResult env f d m (executeDecoded env f d m) := by
    rcases List.mem_append.mp kind with plain | other
    · exact armResult_plain env f m plain
    · simp only [List.mem_cons, List.not_mem_nil, or_false] at other
      rcases other with is | is | is | is | is | is
      · exact armResult_field env f m (by rw [is]; decide)
      · exact armResult_field env f m (by rw [is]; decide)
      · exact armResult_field env f m (by rw [is]; decide)
      · exact armResult_field env f m (by rw [is]; decide)
      · exact armResult_quotient env f m (.inl is)
      · exact armResult_quotient env f m (.inr is)
  rw [and_iff_left result, Host.execute_eq env f m kind]
  split
  · rename_i undefined
    exact ⟨nofun, fun defined => absurd undefined defined⟩
  · rename_i defined
    exact ⟨fun _ => defined, fun _ => rfl⟩

end

theorem host_arithmetic_smla :
    (Host.execute Board.env umaalFetch (Decode.decode32 0xfb113002)
          (umaalBoard 0x7fff 0 0x8000 0x80000000) =
        some (executeDecoded Board.env umaalFetch (Decode.decode32 0xfb113002)
          (umaalBoard 0x7fff 0 0x8000 0x80000000)) ∧
      ArmResult Board.env umaalFetch (Decode.decode32 0xfb113002)
        (umaalBoard 0x7fff 0 0x8000 0x80000000)
        (executeDecoded Board.env umaalFetch (Decode.decode32 0xfb113002)
          (umaalBoard 0x7fff 0 0x8000 0x80000000))) ↔
      ¬ Host.Undefined (Decode.decode32 0xfb113002)
        (umaalBoard 0x7fff 0 0x8000 0x80000000).cpu.r :=
  host_arithmetic Board.env umaalFetch (umaalBoard 0x7fff 0 0x8000 0x80000000) (by decide)

theorem host_arithmetic_least : ¬ ∀ (f : FetchResult) (d : Decoded) (m : Machine Unit),
    d.kind ∈ Host.arithmeticKinds → Host.execute Board.env f d m =
      some (executeDecoded Board.env f d m) ∧
        ArmResult Board.env f d m (executeDecoded Board.env f d m) := by
  intro defined
  have none : Host.execute Board.env umaalFetch (Decode.decode32 0xfb90f0f1)
      (umaalBoard 0xffffffff 0x80000000 0 0) = .none := rfl
  have some' := (defined umaalFetch (Decode.decode32 0xfb90f0f1)
    (umaalBoard 0xffffffff 0x80000000 0 0) (by decide)).1
  rw [none] at some'
  exact nomatch some'

end M33mu
