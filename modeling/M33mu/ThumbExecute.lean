import M33mu.ArmArithmetic
import M33mu.Breakpoints
import M33mu.ThumbData
import M33mu.ThumbMemory
import M33mu.ThumbSpace

namespace M33mu

open Lib Execute DataProc

namespace Thumb

/-- An instruction of the architecture with the flags of the emulator. -/
def emulate (acc : MemAccess) (i : Thumb) (s : Core) : Option Core :=
  match i.operation s.r s.flags.c with
  | some (rd, a) => some { (s.alu rd a).next with flags := i.shown a s.flags }
  | none => i.act acc s

end Thumb

namespace Machine

variable {δ : Type u}

def core (place : Word → Option (Buffer × Word)) (pc : Word) (m : Machine δ) : Core :=
  ⟨Function.update m.cpu.r 15 0, .ofXpsr m.cpu.xpsr, pc, m.world.view place⟩

def after (m : Machine δ) (r : Regs) (xpsr : Word) (w : World δ) : Machine δ :=
  { m with cpu := { m.cpu with r := r, xpsr := xpsr }, world := w }

def Arrives (env : Env δ) (acc : MemAccess) (prog : Word → Option Thumb)
    (place : Word → Option (Buffer × Word)) (m : Machine δ) (o : Outcome δ) (s : Core) : Prop :=
  ∃ r xpsr w, o = (.ok, m.after r xpsr w) ∧ World.Serves env m.cpu.secState acc prog place w ∧
    (m.after r xpsr w).core place (r 15 &&& ~~~1#32) = s ∧ r 13 = m.cpu.r 13

variable {env : Env δ} {acc : MemAccess} {prog : Word → Option Thumb}
  {place : Word → Option (Buffer × Word)} {m : Machine δ} {pc : Word}

theorem dest_other {a : Alu} {rd : Option Reg} {r : Regs} {i : Reg} (other : rd ≠ some i) :
    a.dest rd r i = r i := by
  cases rd with
  | none => rfl
  | some rd => exact Function.update_of_ne (fun is => other (congrArg some is.symm)) _ _

theorem dest_update {a : Alu} {rd : Option Reg} {r : Regs} {i : Reg} {v : Word}
    (other : rd ≠ some i) : Function.update (a.dest rd r) i v = a.dest rd (Function.update r i v) := by
  cases rd with
  | none => rfl
  | some rd => exact Function.update_comm (fun is => other (congrArg some is)) _ _ r

theorem core_set {rd : Reg} (other : rd ≠ 15) (r : Regs) (v : Word) :
    Function.update (Function.update r rd v) 15 0 =
      Function.update (Function.update r 15 0) rd v :=
  (Function.update_comm other.symm 0 v r).symm

theorem next_pc (even : pc &&& ~~~1#32 = pc) : ((pc + 2) ||| 1) &&& ~~~1#32 = pc + 2 := by
  rw [or_one_clear]
  have low := toNat_clear pc
  rw [even] at low
  apply BitVec.eq_of_toNat_eq
  have two : (2 : Word).toNat = 2 := rfl
  rw [toNat_clear, BitVec.toNat_add, two]
  omega

section

variable (serves : World.Serves env m.cpu.secState acc prog place m.world)
  (fetched : m.cpu.r 15 = (pc + 2) ||| 1) (even : pc &&& ~~~1#32 = pc)

include serves fetched even

theorem arrives_skip : Arrives env acc prog place m (.ok, m) (m.core place pc).next := by
  refine ⟨m.cpu.r, m.cpu.xpsr, m.world, rfl, serves, ?_, rfl⟩
  rw [fetched, next_pc even]
  rfl

theorem arrives_set {rd : Reg} (general : rd ≠ 13 ∧ rd ≠ 15) (v : Word) :
    Arrives env acc prog place m (.ok, m.setReg rd v) ((m.core place pc).set rd v).next := by
  refine ⟨Function.update m.cpu.r rd v, m.cpu.xpsr, m.world, rfl, serves, ?_, ?_⟩
  · rw [Function.update_of_ne general.2.symm, fetched, next_pc even, core, after]
    dsimp only
    rw [core_set general.2]
    rfl
  · exact Function.update_of_ne general.1.symm _ _

omit fetched even in
theorem arrives_jump (target : Word) :
    Arrives env acc prog place m (branchTo m target) ((m.core place pc).jump target) := by
  refine ⟨Function.update m.cpu.r 15 (target ||| 1), m.cpu.xpsr, m.world, rfl, serves, ?_, ?_⟩
  · rw [Function.update_self, or_one_clear, core, after]
    dsimp only
    rw [Function.update_idem]
    rfl
  · exact Function.update_of_ne (by decide) _ _

omit fetched even in
theorem arrives_link (link target : Word) : Arrives env acc prog place m
    (branchTo (m.setReg 14 link) target) (((m.core place pc).set 14 link).jump target) := by
  refine ⟨Function.update (Function.update m.cpu.r 14 link) 15 (target ||| 1), m.cpu.xpsr,
    m.world, rfl, serves, ?_, ?_⟩
  · rw [Function.update_self, or_one_clear, core, after]
    dsimp only
    rw [Function.update_idem, core_set (by decide)]
    rfl
  · rw [Function.update_of_ne (by decide), Function.update_of_ne (by decide)]

theorem arrives_load {rd : Reg} (general : rd ≠ 13 ∧ rd ≠ 15) {a : Word} {n : Nat}
    (ok : acc.reads a n = true) (f : FetchResult) (isExec : Bool) (ext : Word → Word) :
    Arrives env acc prog place m
      (m.load env f a (BitVec.ofNat 32 n) isExec fun val m => (.ok, m.setReg rd (ext val)))
      ((m.core place pc).set rd (ext ((m.world.view place).value a n))).next := by
  obtain ⟨w, read, touched, map⟩ := serves.read ok
  refine ⟨Function.update m.cpu.r rd (ext ((m.world.view place).value a n)), m.cpu.xpsr, w, ?_,
    serves.kept touched (by rw [map]), ?_, ?_⟩
  · rw [load, read]
    rfl
  · have view : w.view place = m.world.view place := by
      funext x
      rw [World.view, World.view, map]
    rw [Function.update_of_ne general.2.symm, fetched, next_pc even, core, after]
    dsimp only
    rw [core_set general.2, view]
    rfl
  · exact Function.update_of_ne general.1.symm _ _

theorem arrives_store {a : Word} {n : Nat} (ok : acc.writes a n = true) (f : FetchResult)
    (v : Word) : Arrives env acc prog place m
      (m.store env f a (BitVec.ofNat 32 n) v fun m => (.ok, m))
      { m.core place pc with mem := (m.world.view place).putValue a v n }.next := by
  obtain ⟨w, written, serves', view⟩ := serves.write ok v
  refine ⟨m.cpu.r, m.cpu.xpsr, w, ?_, serves', ?_, rfl⟩
  · rw [store, written]
    rfl
  · rw [fetched, next_pc even, core, after]
    dsimp only
    rw [view]
    rfl

end

end Machine

section

open Thumb ExecHelpers

theorem getLsbD_ff : ∀ n < 32, (0xff : Word).getLsbD n = decide (n < 8) := by decide

theorem bswap32_arm (x : Word) : bswap32 x = RevOp.rev.arm x := by
  apply BitVec.eq_of_getLsbD_eq
  intro i low
  simp only [bswap32, RevOp.arm, BitVec.getLsbD_or, BitVec.getLsbD_shiftLeft, BitVec.getLsbD_and,
    BitVec.getLsbD_ushiftRight, BitVec.getLsbD_append, BitVec.getLsbD_extractLsb']
  grind [getLsbD_ff]

theorem rev16_arm (x : Word) : rev16 x = RevOp.rev16.arm x := by
  have low : ∀ n < 32, (0x00ff00ff : Word).getLsbD n = decide (n % 16 < 8) := by decide
  have high : ∀ n < 32, (0xff00ff00 : Word).getLsbD n = decide (8 ≤ n % 16) := by decide
  apply BitVec.eq_of_getLsbD_eq
  intro i inside
  simp only [rev16, RevOp.arm, BitVec.getLsbD_or, BitVec.getLsbD_shiftLeft, BitVec.getLsbD_and,
    BitVec.getLsbD_ushiftRight, BitVec.getLsbD_append, BitVec.getLsbD_extractLsb']
  grind

theorem half_signExtend (h : Half) : (if (h.setWidth 32).getLsbD 15 then
    h.setWidth 32 ||| 0xffff0000 else h.setWidth 32 : Word) = h.signExtend 32 := by
  rw [signExtend_eq_or, BitVec.msb_eq_getLsbD_last, BitVec.getLsbD_setWidth]
  rfl

theorem revsh_arm (x : Word) : revsh x = RevOp.revsh.arm x := by
  have swap : (x &&& 0xffff &&& 0xff) <<< 8 ||| ((x &&& 0xffff) >>> 8 &&& 0xff) =
      (x.extractLsb' 0 8 ++ x.extractLsb' 8 8).setWidth 32 := by
    have half : ∀ n < 32, (0xffff : Word).getLsbD n = decide (n < 16) := by decide
    apply BitVec.eq_of_getLsbD_eq
    intro i low
    simp only [BitVec.getLsbD_or, BitVec.getLsbD_shiftLeft, BitVec.getLsbD_and,
      BitVec.getLsbD_ushiftRight, BitVec.getLsbD_append, BitVec.getLsbD_extractLsb',
      BitVec.getLsbD_setWidth]
    grind [getLsbD_ff]
  rw [revsh, swap]
  exact half_signExtend _

theorem extSb_arm (v : Word) : extSb v = (v.setWidth 8).signExtend 32 := by
  have high : ∀ n < 32, (0xffffff80 : Word).getLsbD n = decide (7 ≤ n) := by decide
  apply BitVec.eq_of_getLsbD_eq
  intro i low
  rw [extSb]
  simp only [BitVec.getLsbD_signExtend, BitVec.getLsbD_setWidth, BitVec.msb_eq_getLsbD_last]
  split
  · rw [BitVec.getLsbD_or]
    grind
  · rw [BitVec.getLsbD_and]
    grind [getLsbD_ff]

variable (m : ByteMem 32) (a : Word)

theorem extSh_value : extSh (m.value a 2) = ((m.value a 2).setWidth 16).signExtend 32 := by
  have half : ((m.value a 2).setWidth 16).setWidth 32 = m.value a 2 := little_truncate _ 2
  rw [extSh, ← half_signExtend, half]

theorem and_byte_value : m.value a 1 &&& 0xff = m.value a 1 :=
  (and_mask_arm (m.value a 1) (k := 8) (by decide)).trans (little_truncate _ 1)

theorem and_half_value : m.value a 2 &&& 0xffff = m.value a 2 :=
  (and_mask_arm (m.value a 2) (k := 16) (by decide)).trans (little_truncate _ 2)

theorem putValue_and_half (v : Word) : m.putValue a (v &&& 0xffff) 2 = m.putValue a v 2 := by
  have half : ∀ n < 32, (0xffff : Word).getLsbD n = decide (n < 16) := by decide
  funext x
  rw [ByteMem.putValue, ByteMem.putValue]
  split
  · rename_i near
    apply BitVec.eq_of_getLsbD_eq
    intro i low
    simp only [BitVec.getLsbD_setWidth, BitVec.getLsbD_ushiftRight, BitVec.getLsbD_and]
    grind
  · rfl

end

namespace Thumb

theorem low_general (r : BitVec 3) : low r ≠ 13 ∧ low r ≠ 15 := by
  revert r
  decide

theorem wide_eq (r : BitVec 4) (i : Reg) : wide r = i ↔ r = BitVec.ofNat 4 i := by
  revert r i
  decide

theorem wide_general {r : BitVec 4} (sp : r ≠ 13) (pc : r ≠ 15) : wide r ≠ 13 ∧ wide r ≠ 15 :=
  ⟨fun is => sp ((wide_eq r 13).mp is), fun is => pc ((wide_eq r 15).mp is)⟩

theorem dest_operation {i : Thumb} {r : Regs} {carry : Bool} {rd : Reg} {a : Alu}
    (sets : i.operation r carry = some (some rd, a)) : rd ≠ 13 ∧ rd ≠ 15 := by
  cases i with
  | shift | addSubReg | addSubImm =>
    cases sets
    exact low_general _
  | immediate op =>
    cases op <;> cases sets <;> exact low_general _
  | alu op =>
    cases op <;> cases sets <;> exact low_general _
  | high op rm rdn =>
    cases op with
    | cmp =>
      rw [operation] at sets
      split at sets <;> cases sets
    | add | mov => cases sets
  | _ => cases sets

theorem operation_blank (i : Thumb) (r : Regs) (v : Word) (carry : Bool) :
    i.operation (Function.update r 15 v) carry = i.operation r carry := by
  have low (x : BitVec 3) : Function.update r 15 v (low x) = r (low x) :=
    Function.update_of_ne (low_general x).2 _ _
  cases i with
  | immediate op => cases op <;> simp only [operation, low]
  | high op rm rdn =>
    cases op with
    | cmp =>
      simp only [operation]
      split
      · rfl
      · rename_i general
        rw [not_or] at general
        rw [Function.update_of_ne (fun is => general.1 ((wide_eq rm 15).mp is)),
          Function.update_of_ne (fun is => general.2 ((wide_eq rdn 15).mp is))]
    | add | mov => rfl
  | _ => simp only [operation, low]

end Thumb

namespace Machine

variable {δ : Type u} {env : Env δ} {acc : MemAccess} {prog : Word → Option Thumb}
  {place : Word → Option (Buffer × Word)} {m : Machine δ} {f : FetchResult}

open Thumb

theorem execute_operation {i : Thumb} {r : Regs} {carry : Bool} {rd : Option Reg} {a : Alu}
    (sets : i.operation r carry = some (rd, a)) :
    executeDecoded env f i.decoded m = data m (dataOf m f i.decoded) := by
  have general (x : BitVec 3) : low x ≠ 13 := (low_general x).1
  cases i with
  | shift op => cases op <;> rfl
  | addSubReg sub => cases sub <;> rfl
  | addSubImm sub imm3 rn rd => cases sub <;> exact if_neg (general rd)
  | immediate op rdn =>
    cases op with
    | mov | cmp => rfl
    | add | sub => exact if_neg (general rdn)
  | alu op => cases op <;> rfl
  | high op => cases op with
    | cmp => rfl
    | add | mov => cases sets
  | _ => cases sets

section

variable {pc : Word}

theorem core_low (x : BitVec 3) : (m.core place pc).r (low x) = m.cpu.r (low x) :=
  Function.update_of_ne (low_general x).2 _ _

theorem core_wide {x : BitVec 4} (general : x ≠ 15) :
    (m.core place pc).r (wide x) = m.cpu.r (wide x) :=
  Function.update_of_ne (fun is => general ((wide_eq x 15).mp is)) _ _

theorem core_sp : (m.core place pc).r 13 = m.cpu.r 13 :=
  Function.update_of_ne (show (13 : Reg) ≠ 15 by decide) 0 m.cpu.r

end

def transfer (env : Env δ) (op : MemOp) (m : Machine δ) (f : FetchResult) (d : Decoded)
    (a : Word) : Outcome δ :=
  match op with
  | .str => storePart env m f a 4 (m.cpu.r d.rd)
  | .strh => storePart env m f a 2 (m.cpu.r d.rd &&& 0xffff)
  | .strb => storePart env m f a 1 (m.cpu.r d.rd)
  | .ldrsb => loadPart env m f d a 1 extSb
  | .ldr => loadWord env m f d a false
  | .ldrh => loadPart env m f d a 2 (· &&& 0xffff)
  | .ldrb => loadPart env m f d a 1 (· &&& 0xff)
  | .ldrsh => loadPart env m f d a 2 extSh

theorem execute_memReg (op : MemOp) (rm rn rt : BitVec 3) :
    executeDecoded env f (memReg op rm rn rt).decoded m =
      transfer env op m f (memReg op rm rn rt).decoded (m.cpu.r (low rn) + m.cpu.r (low rm)) := by
  have address (mask : Word) : offsetAddr m (memReg op rm rn rt).decoded mask =
      m.cpu.r (low rn) + m.cpu.r (low rm) := by
    have imm : (memReg op rm rn rt).decoded.imm = 0#32 := rfl
    rw [offsetAddr, imm, BitVec.zero_and, BitVec.shiftLeft_eq', BitVec.toNat_zero,
      BitVec.shiftLeft_zero]
    rfl
  cases op with
  | ldrsb => rfl
  | strb | ldrb =>
    rw [← address 0x1f]
    rfl
  | _ =>
    rw [← address 0x3]
    rfl

theorem execute_memImm (size : Thumb.Size) (load : Bool) (imm5 : BitVec 5) (rn rt : BitVec 3) :
    executeDecoded env f (memImm size load imm5 rn rt).decoded m =
      transfer env (size.op load) m f (memImm size load imm5 rn rt).decoded
        (m.cpu.r (low rn) + imm5.setWidth 32 <<< size.scale) := by
  cases size <;> cases load <;> rfl

theorem execute_memSp (load : Bool) (rt : BitVec 3) (imm8 : BitVec 8) :
    executeDecoded env f (memSp load rt imm8).decoded m =
      transfer env (Thumb.Size.word.op load) m f (memSp load rt imm8).decoded
        (m.cpu.r 13 + imm8.setWidth 32 <<< 2) := by
  cases load <;> rfl

theorem execute_addSp (rd : BitVec 3) (imm8 : BitVec 8) :
    executeDecoded env f (addSp rd imm8).decoded m =
      (.ok, m.setReg (low rd) (m.cpu.r 13 + imm8.setWidth 32 <<< 2)) :=
  if_neg (low_general rd).1

theorem data_put (r : Reg) (v : Word) : data m (put m.cpu.r r v) = (.ok, m.setReg r v) := rfl

theorem extend_plain (op : ExtendOp) (rm rd : BitVec 3) (ext : Word → Word) (r : Regs) :
    DataProc.extend ext (extend op rm rd).decoded r = put r (low rd) (ext (r (low rm))) := by
  have imm : (extend op rm rd).decoded.imm = 0#32 := rfl
  have none : immShift (extend op rm rd).decoded = 0 := by
    rw [immShift, imm, BitVec.zero_and, BitVec.toNat_zero]
  rw [DataProc.extend, none, imm, BitVec.getLsbD_zero, if_neg fun is => Bool.false_ne_true is.1]
  rfl

theorem dataOf_extend (op : ExtendOp) (rm rd : BitVec 3) :
    dataOf m f (extend op rm rd).decoded = put m.cpu.r (low rd) (op.arm (m.cpu.r (low rm))) := by
  cases op with
  | sxth => exact extend_plain .sxth rm rd (fun v => (v.setWidth 16).signExtend 32) _
  | sxtb => exact extend_plain .sxtb rm rd (fun v => (v.setWidth 8).signExtend 32) _
  | uxth =>
    rw [ExtendOp.arm, ← and_mask_arm _ (by decide)]
    exact extend_plain .uxth rm rd (· &&& 0xffff) _
  | uxtb =>
    rw [ExtendOp.arm, ← and_mask_arm _ (by decide)]
    exact extend_plain .uxtb rm rd (· &&& 0xff) _

theorem execute_extend (op : ExtendOp) (rm rd : BitVec 3) :
    executeDecoded env f (extend op rm rd).decoded m =
      (.ok, m.setReg (low rd) (op.arm (m.cpu.r (low rm)))) := by
  rw [← data_put, ← dataOf_extend (f := f)]
  cases op <;> rfl

theorem raw_highAdd (rm rdn : BitVec 4) :
    (high .add rm rdn).encode.setWidth 32 &&& 0xfc00 = (0x4400 : Word) := by
  revert rm rdn
  decide

theorem execute_highAdd {rm rdn : BitVec 4} :
    executeDecoded env f (high .add rm rdn).decoded m =
      (.ok, m.setReg (wide rdn) (m.cpu.r (wide rdn) + m.cpu.r (wide rm))) := by
  have form := regForm_half (high .add rm rdn).decoded _ rfl
  have raw := raw_highAdd rm rdn
  have sum : dataOf m f (high .add rm rdn).decoded =
      put m.cpu.r (wide rdn) (m.cpu.r (wide rdn) + m.cpu.r (wide rm)) := by
    have same : dataOf m f (high .add rm rdn).decoded =
        addReg (high .add rm rdn).decoded m.it.remaining m.cpu.r m.cpu.xpsr := rfl
    rw [same, addReg, form, if_neg Bool.false_ne_true, ← ExecHelpers.addWithCarry_value]
    have quiet : ((high .add rm rdn).decoded.raw &&& 0xfc00 != 0x4400) = false := by
      rw [bne_eq_false_iff_eq]
      exact raw
    rw [quiet, Bool.and_false, Bool.false_and]
    rfl
  rw [← data_put, ← sum]
  rfl

theorem execute_highMov {rm rdn : BitVec 4} (general : rdn ≠ 15 ∧ rdn ≠ 13) :
    executeDecoded env f (high .mov rm rdn).decoded m =
      (.ok, m.setReg (wide rdn) (m.cpu.r (wide rm))) := by
  have pc : wide rdn ≠ 15 := fun is => general.1 ((wide_eq rdn 15).mp is)
  have sp : wide rdn ≠ 13 := fun is => general.2 ((wide_eq rdn 13).mp is)
  exact (if_neg pc).trans (if_neg sp)

theorem and_ne_of_low {a mask : Word} (low : a < firstDevice) (high : firstDevice ≤ mask) :
    a &&& mask ≠ mask := by
  intro is
  have part : (a &&& mask).toNat ≤ a.toNat := BitVec.toNat_and a mask ▸ Nat.and_le_left
  rw [is] at part
  exact absurd part (Nat.not_le.mpr (Nat.lt_of_lt_of_le low high))

theorem execute_bx {rm : BitVec 4} (target : Target (m.cpu.r (wide rm))) :
    executeDecoded env f (bx false false rm).decoded m = branchTo m (m.cpu.r (wide rm)) := by
  have low := target.2
  generalize word : m.cpu.r (wide rm) = a at low
  have exc : isExcReturn a ≠ true := fun is =>
    and_ne_of_low low (by decide) (beq_iff_eq.mp is)
  have high : a &&& 0xF0000000 ≠ 0xF0000000 := and_ne_of_low low (by decide)
  have sentinel : a ≠ Cpu.tzRetLrSentinel := by
    rintro rfl
    exact absurd low (by decide)
  have same : executeDecoded env f (bx false false rm).decoded m =
    execBx env m f (bx false false rm).decoded := rfl
  have reg : m.cpu.r (bx false false rm).decoded.rm = a := word
  rw [same, execBx, reg, if_neg fun is => exc is.2, if_neg high, if_neg fun is => sentinel is.2.2]

theorem execute_ldrLiteral (rt : BitVec 3) (imm8 : BitVec 8) :
    executeDecoded env f (ldrLiteral rt imm8).decoded m =
      m.load env f (((f.pcFetch + 4) &&& ~~~3#32) + imm8.setWidth 32 <<< 2) 4 true
        fun val m => (.ok, m.setReg (low rt) val) := by
  have same : executeDecoded env f (ldrLiteral rt imm8).decoded m =
    loadWord env m f (ldrLiteral rt imm8).decoded
      (((f.pcFetch + 4) &&& ~~~3#32) + imm8.setWidth 32 <<< 2) true := rfl
  have pc : (ldrLiteral rt imm8).decoded.rd ≠ 15 := (low_general rt).2
  rw [same, loadWord]
  simp only [if_neg pc]
  rfl

theorem execute_cbz (off : BitVec 6) (rn : BitVec 3) :
    executeDecoded env f (cbz false off rn).decoded m =
      if (m.cpu.r (low rn) == 0) = true then
        branchTo m (f.pcFetch + 4 + (off ++ 0#1).setWidth 32) else (.ok, m) := by
  simp only [beq_iff_eq]
  rfl

theorem execute_cbnz (off : BitVec 6) (rn : BitVec 3) :
    executeDecoded env f (cbz true off rn).decoded m =
      if (!(m.cpu.r (low rn) == 0)) = true then
        branchTo m (f.pcFetch + 4 + (off ++ 0#1).setWidth 32) else (.ok, m) := by
  simp only [Bool.not_eq_true', beq_eq_false_iff_ne, ite_not]
  rfl

theorem execute_bCond (place : Word → Option (Buffer × Word)) (c : Fin 14) (off : BitVec 8) :
    executeDecoded env f (bCond c off).decoded m =
      if Branch.holds c (m.core place f.pcFetch).flags = true then
        branchTo m (f.pcFetch + 4 + (off ++ 0#1).signExtend 32) else (.ok, m) := by
  rw [← Branch.condPassed_condition]
  rfl

theorem execute_rev (op : RevOp) (rm rd : BitVec 3) :
    executeDecoded env f (rev op rm rd).decoded m =
      (.ok, m.setReg (low rd) (op.arm (m.cpu.r (low rm)))) := by
  cases op with
  | rev =>
    rw [← bswap32_arm]
    rfl
  | rev16 =>
    rw [← rev16_arm]
    rfl
  | revsh =>
    rw [← revsh_arm]
    rfl

section

variable (serves : World.Serves env m.cpu.secState acc prog place m.world)
  (fetched : m.cpu.r 15 = (f.pcFetch + 2) ||| 1) (even : f.pcFetch &&& ~~~1#32 = f.pcFetch)
  {s : Core}

include serves fetched even

theorem arrives_loaded {rt : BitVec 3} {a : Word} {n : Nat} {x e : Word → Word}
    (isExec : Bool)
    (same : x ((m.world.view place).value a n) = e ((m.world.view place).value a n))
    (act : (m.core place f.pcFetch).load acc (low rt) a n e = some s) :
    Arrives env acc prog place m
      (m.load env f a (BitVec.ofNat 32 n) isExec fun val m => (.ok, m.setReg (low rt) (x val)))
      s := by
  rw [Core.load] at act
  split at act
  · cases act
    rename_i ok
    have arrives := arrives_load serves fetched even (low_general rt) ok f isExec x
    rw [same] at arrives
    exact arrives
  · cases act

theorem arrives_stored {a : Word} {n : Nat} {v v' : Word}
    (same : (m.world.view place).putValue a v n = (m.world.view place).putValue a v' n)
    (act : (m.core place f.pcFetch).store acc a n v' = some s) :
    Arrives env acc prog place m (m.store env f a (BitVec.ofNat 32 n) v fun m => (.ok, m)) s := by
  rw [Core.store] at act
  split at act
  · cases act
    rename_i ok
    have arrives := arrives_store serves fetched even ok f v
    rw [same] at arrives
    exact arrives
  · cases act

theorem arrives_transfer {op : MemOp} {d : Decoded} {rt : BitVec 3} {a : Word}
    (rd : d.rd = low rt) (act : op.run acc (m.core place f.pcFetch) (low rt) a = some s) :
    Arrives env acc prog place m (transfer env op m f d a) s := by
  have pc : low rt ≠ 15 := (low_general rt).2
  cases op with
  | str =>
    rw [MemOp.run, core_low, ← rd] at act
    exact arrives_stored serves fetched even rfl act
  | strh =>
    rw [MemOp.run, core_low, ← rd] at act
    exact arrives_stored serves fetched even (putValue_and_half _ _ _) act
  | strb =>
    rw [MemOp.run, core_low, ← rd] at act
    exact arrives_stored serves fetched even rfl act
  | ldr =>
    simp only [transfer, loadWord, rd, if_neg pc]
    exact arrives_loaded serves fetched even (x := id) (e := id) false rfl act
  | ldrsb =>
    simp only [transfer, loadPart, rd]
    exact arrives_loaded serves fetched even (x := extSb)
      (e := fun v => (v.setWidth 8).signExtend 32) false (extSb_arm _) act
  | ldrh =>
    simp only [transfer, loadPart, rd]
    exact arrives_loaded serves fetched even (x := (· &&& 0xffff)) (e := id) false
      (and_half_value _ _) act
  | ldrb =>
    simp only [transfer, loadPart, rd]
    exact arrives_loaded serves fetched even (x := (· &&& 0xff)) (e := id) false
      (and_byte_value _ _) act
  | ldrsh =>
    simp only [transfer, loadPart, rd]
    exact arrives_loaded serves fetched even (x := extSh)
      (e := fun v => (v.setWidth 16).signExtend 32) false (extSh_value _ _) act

theorem arrives_data {rd : Option Reg} {a : Alu} {flags : Flags} {res : DataResult}
    (general : ∀ r, rd = some r → r ≠ 13 ∧ r ≠ 15)
    (gives : res.Gives m.cpu.r m.cpu.xpsr rd a flags) :
    Arrives env acc prog place m (data m res)
      { ((m.core place f.pcFetch).alu rd a).next with flags := flags } := by
  have regs := gives.regs
  refine ⟨res.r, (m.cpu.withData res).xpsr, m.world, rfl, serves, ?_, ?_⟩
  · have pc : res.r 15 = m.cpu.r 15 := by
      rw [regs]
      exact dest_other fun is => (general 15 is).2 rfl
    have blank : Function.update res.r 15 0 = a.dest rd (Function.update m.cpu.r 15 0) := by
      rw [regs]
      exact dest_update fun is => (general 15 is).2 rfl
    have shown : Flags.ofXpsr (m.cpu.withData res).xpsr = flags := gives.flags
    rw [pc, fetched, next_pc even, core, after]
    dsimp only
    rw [shown, blank]
    rfl
  · rw [regs]
    exact dest_other fun is => (general 13 is).1 rfl

theorem arrives_act {i : Thumb} (act : i.act acc (m.core place f.pcFetch) = some s) :
    Arrives env acc prog place m (executeDecoded env f i.decoded m) s := by
  cases i with
  | high op rm rdn =>
    cases op with
    | add =>
      rw [act_highAdd] at act
      split at act
      · cases act
      · rename_i general
        rw [not_or, not_or] at general
        cases act
        rw [execute_highAdd, core_wide general.1, core_wide general.2.1]
        exact arrives_set serves fetched even (wide_general general.2.2 general.2.1) _
    | cmp => cases act
    | mov =>
      rw [act_highMov] at act
      split at act
      · cases act
      · rename_i general
        rw [not_or, not_or] at general
        cases act
        rw [execute_highMov general.2, core_wide general.1]
        exact arrives_set serves fetched even (wide_general general.2.2 general.2.1) _
  | bx link ns rm =>
    cases ns with
    | true => cases act
    | false =>
      rw [act_bx] at act
      split at act
      · cases act
      · rename_i general
        rw [not_or, not_not] at general
        rw [core_wide general.1] at act general
        cases act
        cases link with
        | false =>
          rw [execute_bx general.2]
          exact arrives_jump serves _
        | true => exact arrives_link serves _ _
  | ldrLiteral rt imm8 =>
    rw [execute_ldrLiteral]
    exact arrives_loaded serves fetched even (x := id) (e := id) true rfl act
  | memReg op rm rn rt =>
    rw [act_memReg, core_low, core_low] at act
    rw [execute_memReg]
    exact arrives_transfer serves fetched even rfl act
  | memImm size load imm5 rn rt =>
    rw [act_memImm, core_low] at act
    rw [execute_memImm]
    exact arrives_transfer serves fetched even rfl act
  | memSp load rt imm8 =>
    rw [act_memSp, core_sp] at act
    rw [execute_memSp]
    exact arrives_transfer serves fetched even rfl act
  | adr rd imm8 =>
    cases act
    exact arrives_set serves fetched even (low_general rd) _
  | addSp rd imm8 =>
    cases act
    rw [core_sp, execute_addSp]
    exact arrives_set serves fetched even (low_general rd) _
  | cbz nonzero off rn =>
    cases act
    rw [core_low]
    cases nonzero with
    | false =>
      rw [Bool.bne_false, execute_cbz]
      split
      · exact arrives_jump serves _
      · exact arrives_skip serves fetched even
    | true =>
      rw [Bool.bne_true, execute_cbnz]
      split
      · exact arrives_jump serves _
      · exact arrives_skip serves fetched even
  | extend op rm rd =>
    cases act
    rw [core_low, execute_extend]
    exact arrives_set serves fetched even (low_general rd) _
  | rev op rm rd =>
    cases act
    rw [core_low, execute_rev]
    exact arrives_set serves fetched even (low_general rd) _
  | hint op =>
    cases op with
    | nop | yield =>
      cases act
      exact arrives_skip serves fetched even
    | _ => cases act
  | bCond c off =>
    cases act
    rw [execute_bCond (f := f) place]
    split
    · exact arrives_jump serves _
    · exact arrives_skip serves fetched even
  | b off =>
    cases act
    exact arrives_jump serves _
  | _ => cases act

theorem execute_emulate (outside : m.it.remaining = 0) {i : Thumb}
    (runs : i.emulate acc (m.core place f.pcFetch) = some s) :
    Arrives env acc prog place m (executeDecoded env f i.decoded m) s := by
  rw [Thumb.emulate] at runs
  split at runs
  · rename_i rd a sets
    cases runs
    have sets' : i.operation m.cpu.r (DataProc.carryFlag m.cpu.xpsr) = some (rd, a) :=
      (operation_blank i m.cpu.r 0 _).symm.trans sets
    have gives := gives_operation f.pcFetch sets'
    rw [← outside] at gives
    rw [execute_operation sets']
    exact arrives_data serves fetched even (fun r is => dest_operation (is ▸ sets')) gives
  · exact arrives_act serves fetched even runs

end

end Machine

end M33mu
