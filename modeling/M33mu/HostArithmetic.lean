import M33mu.Execute
import M33mu.Lib.HostArith
import M33mu.LongMultiply
import M33mu.Shifts

/-!
The arithmetic opcodes once more, with the operators of C that they are written with: `none` for a
shift by the width or more, for a division by zero and for a signed result out of range.
-/

namespace M33mu

open Lib Lib.HostArith DataProc ExecHelpers Execute

namespace Host

def lsl (value : Word) (amount : Byte) (carryIn : Bool) : Option ShiftResult :=
  let n := amount.toNat
  if n = 0 then some ⟨value, carryIn⟩
  else if n < 32 then do
    let v ← shl value n
    let out ← shr value (32 - n)
    some ⟨v, out.getLsbD 0⟩
  else if n = 32 then some ⟨0, value.getLsbD 0⟩
  else some ⟨0, false⟩

def lsr (value : Word) (amount : Byte) (carryIn : Bool) : Option ShiftResult :=
  let n := amount.toNat
  if n = 0 then some ⟨value, carryIn⟩
  else if n < 32 then do
    let v ← shr value n
    let out ← shr value (n - 1)
    some ⟨v, out.getLsbD 0⟩
  else if n = 32 then do
    let sign ← shr value 31
    some ⟨0, sign != 0⟩
  else some ⟨0, false⟩

def asr (value : Word) (amount : Byte) (carryIn : Bool) : Option ShiftResult :=
  let n := amount.toNat
  if n = 0 then some ⟨value, carryIn⟩
  else if n < 32 then do
    let v ← shr value n
    let fill ← if value.getLsbD 31 then shl 0xffffffff (32 - n) else some 0
    let out ← shr value (n - 1)
    some ⟨v ||| fill, out.getLsbD 0⟩
  else some ⟨if value.getLsbD 31 then 0xffffffff else 0, value.getLsbD 31⟩

def rotate (value : Word) (rot : Nat) : Option Word := do
  let right ← shr value rot
  let left ← shl value (32 - rot)
  some (right ||| left)

def ror (value : Word) (amount : Byte) (carryIn : Bool) : Option ShiftResult :=
  let rot := (amount &&& 31).toNat
  if amount = 0 then some ⟨value, carryIn⟩
  else if rot = 0 then some ⟨value, value.getLsbD 31⟩
  else do
    let v ← rotate value rot
    let sign ← shr v 31
    some ⟨v, sign != 0⟩

def shiftCImm (value : Word) (type imm5 : Byte) (carryIn : Bool) : Option ShiftResult :=
  match (type &&& 0x3).toNat with
  | 0 => if imm5 = 0 then some ⟨value, carryIn⟩ else lsl value imm5 carryIn
  | 1 => lsr value (if imm5 = 0 then 32 else imm5) carryIn
  | 2 => asr value (if imm5 = 0 then 32 else imm5) carryIn
  | _ =>
    if imm5 = 0 then do
      let top ← shl (if carryIn then 1 else 0) 31
      let low ← shr value 1
      some ⟨top ||| low, value.getLsbD 0⟩
    else ror value imm5 carryIn

def rorRegShiftC (value shiftN : Word) (carryIn : Bool) : Option ShiftResult :=
  let amount := shiftN &&& 0xff
  let rot := (amount &&& 31).toNat
  if amount = 0 then some ⟨value, carryIn⟩
  else if rot = 0 then some ⟨value, value.getLsbD 31⟩
  else do
    let v ← rotate value rot
    some ⟨v, v.getLsbD 31⟩

def lslImm (val : Word) (sh : Nat) (carryIn : Bool) : Option ShiftResult :=
  if sh = 0 then some ⟨val, carryIn⟩
  else do
    let out ← shr val (32 - sh)
    let res ← shl val sh
    some ⟨res, out.getLsbD 0⟩

def lsrImm (val : Word) (sh : Nat) : Option ShiftResult :=
  if sh = 0 then do
    let out ← shr val 31
    some ⟨0, out.getLsbD 0⟩
  else do
    let out ← shr val (sh - 1)
    let res ← shr val sh
    some ⟨res, out.getLsbD 0⟩

def asrImm (val : Word) (sh : Nat) : Option ShiftResult :=
  if sh = 0 then do
    let out ← shr val 31
    some ⟨if val.getLsbD 31 then 0xffffffff else 0, out.getLsbD 0⟩
  else do
    let out ← shr val (sh - 1)
    let res ← sar val sh
    some ⟨res, out.getLsbD 0⟩

theorem getLsbD_top (value : Word) : (value >>> 31 != 0) = value.getLsbD 31 := by
  rw [Bool.eq_iff_iff, bne_iff_ne, ne_eq, BitVec.toNat_eq, BitVec.toNat_ushiftRight,
    Nat.shiftRight_eq_div_pow, ← BitVec.msb_eq_getLsbD_last (x := value), BitVec.msb_eq_decide,
    decide_eq_true_iff]
  have bound := value.isLt
  have zero : (0 : Word).toNat = 0 := rfl
  omega

theorem lsl_eq (value : Word) (amount : Byte) (carryIn : Bool) :
    lsl value amount carryIn = some (ExecHelpers.lsl value amount carryIn) := by
  simp only [lsl, ExecHelpers.lsl]
  split
  · rfl
  split
  · rename_i some' within
    rw [shl_of_lt _ within, shr_of_lt _ (by omega)]
    rfl
  split <;> rfl

theorem lsr_eq (value : Word) (amount : Byte) (carryIn : Bool) :
    lsr value amount carryIn = some (ExecHelpers.lsr value amount carryIn) := by
  simp only [lsr, ExecHelpers.lsr]
  split
  · rfl
  split
  · rename_i some' within
    rw [shr_of_lt _ within, shr_of_lt _ (by omega)]
    rfl
  split
  · rw [shr_of_lt _ (by decide), Option.bind_eq_bind, Option.bind_some, getLsbD_top]
  · rfl

theorem asr_eq (value : Word) (amount : Byte) (carryIn : Bool) :
    asr value amount carryIn = some (ExecHelpers.asr value amount carryIn) := by
  simp only [asr, ExecHelpers.asr]
  split
  · rfl
  split
  · rename_i some' within
    rw [shr_of_lt _ within, shr_of_lt _ (by omega), shl_of_lt _ (by omega)]
    cases value.getLsbD 31 <;> rfl
  · rfl

theorem rotate_eq (value : Word) {rot : Nat} (turns : rot ≠ 0) (within : rot < 32) :
    rotate value rot = some (ExecHelpers.rotate value rot) := by
  rw [rotate, shr_of_lt _ within, shl_of_lt _ (by omega)]
  rfl

theorem ror_eq (value : Word) (amount : Byte) (carryIn : Bool) :
    ror value amount carryIn = some (ExecHelpers.ror value amount carryIn) := by
  have within : (amount &&& 31).toNat < 32 := by
    rw [toNat_low5]
    exact Nat.mod_lt _ (by decide)
  simp only [ror, ExecHelpers.ror]
  split
  · rfl
  split
  · rfl
  · rename_i none turns
    rw [rotate_eq value turns within, Option.bind_eq_bind, Option.bind_some,
      shr_of_lt _ (by decide), Option.bind_some, getLsbD_top]

theorem shiftCImm_eq (value : Word) (type imm5 : Byte) (carryIn : Bool) :
    shiftCImm value type imm5 carryIn = some (ExecHelpers.shiftCImm value type imm5 carryIn) := by
  simp only [shiftCImm, ExecHelpers.shiftCImm, lsl_eq, lsr_eq, asr_eq, ror_eq]
  generalize (type &&& 0x3).toNat = k
  match k with
  | 0 => exact (apply_ite some (imm5 = 0) _ _).symm
  | 1 => rfl
  | 2 => rfl
  | k + 3 =>
    rw [shl_of_lt _ (by decide), shr_of_lt _ (by decide)]
    exact (apply_ite some (imm5 = 0) _ _).symm

theorem rorRegShiftC_eq (value shiftN : Word) (carryIn : Bool) :
    rorRegShiftC value shiftN carryIn = some (ExecHelpers.rorRegShiftC value shiftN carryIn) := by
  have within : ((shiftN &&& 0xff) &&& 31).toNat < 32 := by
    rw [show ((shiftN &&& 0xff) &&& 31).toNat = _ from
      toNat_and_mask (shiftN &&& 0xff) 5 (by decide)]
    exact Nat.mod_lt _ (by decide)
  simp only [rorRegShiftC, ExecHelpers.rorRegShiftC]
  split
  · rfl
  split
  · rfl
  · rename_i none turns
    rw [rotate_eq value turns within]
    rfl

theorem lslImm_eq (val : Word) {sh : Nat} (within : sh < 32) (carryIn : Bool) :
    lslImm val sh carryIn = some (if sh = 0 then ⟨val, carryIn⟩
      else ⟨val <<< sh, (val >>> (32 - sh)).getLsbD 0⟩) := by
  rw [lslImm]
  split
  · rfl
  · rw [shr_of_lt _ (by omega), shl_of_lt _ within]
    rfl

theorem lsrImm_eq (val : Word) {sh : Nat} (within : sh < 32) :
    lsrImm val sh = some (if sh = 0 then ⟨0, val.getLsbD 31⟩
      else ⟨val >>> sh, (val >>> (sh - 1)).getLsbD 0⟩) := by
  rw [lsrImm]
  split
  · rw [shr_of_lt _ (by decide), Option.bind_eq_bind, Option.bind_some, BitVec.getLsbD_ushiftRight]
  · rw [shr_of_lt _ (by omega), shr_of_lt _ within]
    rfl

theorem asrImm_eq (val : Word) {sh : Nat} (within : sh < 32) :
    asrImm val sh = some (if sh = 0 then
        ⟨if val.getLsbD 31 then 0xffffffff else 0, val.getLsbD 31⟩
      else ⟨val.sshiftRight sh, (val >>> (sh - 1)).getLsbD 0⟩) := by
  rw [asrImm]
  split
  · rw [shr_of_lt _ (by decide), Option.bind_eq_bind, Option.bind_some, BitVec.getLsbD_ushiftRight]
  · rw [shr_of_lt _ (by omega), sar_of_lt _ within]
    rfl

def widthMask (width : Nat) : Option Word :=
  if width = 32 then some 0xffffffff
  else do
    let top ← shl (1 : Word) width
    some (top - 1)

def ubfx (value : Word) (lsb width : Nat) : Option Word :=
  if badField lsb width then some 0
  else do
    let mask ← widthMask width
    let low ← shr value lsb
    some (low &&& mask)

def sbfx (value : Word) (lsb width : Nat) : Option Word := do
  let extracted ← ubfx value lsb width
  if width = 0 ∨ 32 < width then some 0
  else if width = 32 then some extracted
  else do
    let signBit ← shl (1 : Word) (width - 1)
    if extracted &&& signBit ≠ 0 then do
      let above ← shl signBit 1
      some (extracted ||| ~~~(above - 1))
    else some extracted

def bfi (dst src : Word) (lsb width : Nat) : Option Word :=
  if badField lsb width then some dst
  else do
    let low ← widthMask width
    let mask ← if width = 32 then some low else shl low lsb
    let field ← shl src lsb
    some ((dst &&& ~~~mask) ||| (field &&& mask))

def bfc (dst : Word) (lsb width : Nat) : Option Word := bfi dst 0 lsb width

theorem badField_false {lsb width : Nat} (good : badField lsb width = false) :
    0 < width ∧ width ≤ 32 ∧ lsb < 32 ∧ lsb + width ≤ 32 := by
  simp only [badField, Bool.or_eq_false_iff, decide_eq_false_iff_not] at good
  omega

theorem widthMask_eq {width : Nat} (within : width ≤ 32) :
    widthMask width = some (ExecHelpers.widthMask width) := by
  rw [widthMask, ExecHelpers.widthMask]
  split
  · rfl
  · rw [shl_of_lt _ (by omega)]
    rfl

theorem ubfx_eq (value : Word) (lsb width : Nat) :
    ubfx value lsb width = some (ExecHelpers.ubfx value lsb width) := by
  rw [ubfx, ExecHelpers.ubfx]
  cases bad : badField lsb width with
  | true => rfl
  | false =>
    obtain ⟨-, within, low, -⟩ := badField_false bad
    rw [if_neg Bool.false_ne_true, if_neg Bool.false_ne_true, widthMask_eq within,
      shr_of_lt _ low]
    rfl

theorem sbfx_eq (value : Word) (lsb width : Nat) :
    sbfx value lsb width = some (ExecHelpers.sbfx value lsb width) := by
  rw [sbfx, ubfx_eq, Option.bind_eq_bind, Option.bind_some]
  simp only [ExecHelpers.sbfx]
  split
  · rfl
  split
  · rfl
  · rename_i field whole
    rw [not_or] at field
    have sign := and_bit_ne (ExecHelpers.ubfx value lsb width) (show width - 1 < 32 by omega)
    rw [shl_of_lt _ (by omega), Option.bind_some]
    simp only [sign]
    split
    · rw [shl_of_lt _ (by decide)]
      rfl
    · rfl

theorem bfi_eq (dst src : Word) (lsb width : Nat) :
    bfi dst src lsb width = some (ExecHelpers.bfi dst src lsb width) := by
  rw [bfi, ExecHelpers.bfi]
  cases bad : badField lsb width with
  | true => rfl
  | false =>
    obtain ⟨-, within, low, fits⟩ := badField_false bad
    rw [if_neg Bool.false_ne_true, if_neg Bool.false_ne_true, widthMask_eq within,
      Option.bind_eq_bind, Option.bind_some, shl_of_lt src low]
    by_cases whole : width = 32
    · have none : lsb = 0 := by omega
      simp only [if_pos whole, none, BitVec.shiftLeft_zero]
      rfl
    · rw [if_neg whole, shl_of_lt _ low]
      rfl

/-- `mm_smul64`: the 64-bit product of two signed words. -/
def smul64 (a b : Word) : Option (Word × Word) := do
  let prod ← mulS (a.signExtend 64) (b.signExtend 64)
  let hi ← shr prod 32
  some (prod.setWidth 32, hi.setWidth 32)

def split64 (acc : BitVec 64) : Option (Word × Word) := do
  let hi ← shr acc 32
  some (acc.setWidth 32, hi.setWidth 32)

def join64 (hi lo : Word) : Option (BitVec 64) := do
  let top ← shl (hi.setWidth 64) 32
  some (top ||| lo.setWidth 64)

def mulLong (prod : Word × Word) (accumulate : Bool) (d : Decoded) (r : Regs) :
    Option (Word × Word) :=
  if accumulate then do
    let acc ← join64 (r d.ra) (r d.rd)
    let more ← join64 prod.2 prod.1
    split64 (acc + more)
  else some prod

def halfOf (v : Word) (top : Bool) : Option Word :=
  (if top then shr v 16 else some v).map fun half => (half.setWidth 16).signExtend 32

def smla (d : Decoded) (r : Regs) : Option Word := do
  let rnHalf ← halfOf (r d.rn) (d.imm.getLsbD 1)
  let rmHalf ← halfOf (r d.rm) (d.imm.getLsbD 0)
  let prod ← mulS rnHalf rmHalf
  addS prod (r d.ra)

def rotated (d : Decoded) (r : Regs) : Option Word :=
  if immShift d = 0 then some (r d.rm) else rotate (r d.rm) (immShift d)

def extend (ext : Word → Word) (d : Decoded) (r : Regs) : Option Word := do
  let val ← rotated d r
  some (if d.imm.getLsbD 31 ∧ d.rn ≠ 15 then r d.rn + ext val else ext val)

theorem smul64_eq (a b : Word) : smul64 a b = some (ExecHelpers.smul64 a b) := by
  rw [smul64, mulS_signExtend (by decide) (by decide), Option.bind_eq_bind, Option.bind_some,
    shr_of_lt _ (by decide)]
  rfl

theorem split64_eq (acc : BitVec 64) : split64 acc = some (ExecHelpers.split64 acc) := by
  rw [split64, shr_of_lt _ (by decide)]
  rfl

theorem join64_eq (hi lo : Word) : join64 hi lo = some (ExecHelpers.join64 hi lo) := by
  rw [join64, shl_of_lt _ (by decide)]
  rfl

theorem mulLong_eq (prod : Word × Word) (accumulate : Bool) (d : Decoded) (r : Regs) :
    mulLong prod accumulate d r = some (if accumulate then
      ExecHelpers.split64 (ExecHelpers.join64 (r d.ra) (r d.rd) + ExecHelpers.join64 prod.2 prod.1)
      else prod) := by
  rw [mulLong, join64_eq, join64_eq]
  cases accumulate with
  | false => rfl
  | true =>
    rw [if_pos rfl, if_pos rfl, ← split64_eq]
    rfl

def SmlaFits (d : Decoded) (r : Regs) : Prop :=
  InRange 32 ((DataProc.halfOf (r d.rn) (d.imm.getLsbD 1)).toInt *
    (DataProc.halfOf (r d.rm) (d.imm.getLsbD 0)).toInt + (r d.ra).toInt)

instance (d : Decoded) (r : Regs) : Decidable (SmlaFits d r) :=
  inferInstanceAs (Decidable (InRange _ _))

theorem halfOf_eq (v : Word) (top : Bool) : halfOf v top = some (DataProc.halfOf v top) := by
  rw [halfOf, DataProc.halfOf]
  cases top with
  | false => rfl
  | true => rw [if_pos rfl, if_pos rfl, shr_of_lt _ (by decide), Option.map_some]

theorem smla_eq (d : Decoded) (r : Regs) :
    smla d r = if SmlaFits d r then
      some (DataProc.halfOf (r d.rn) (d.imm.getLsbD 1) *
        DataProc.halfOf (r d.rm) (d.imm.getLsbD 0) + r d.ra)
    else none := by
  have product : mulS (DataProc.halfOf (r d.rn) (d.imm.getLsbD 1))
      (DataProc.halfOf (r d.rm) (d.imm.getLsbD 0)) = some (DataProc.halfOf (r d.rn) (d.imm.getLsbD 1) *
        DataProc.halfOf (r d.rm) (d.imm.getLsbD 0)) :=
    mulS_signExtend (by decide) (by decide) ..
  have value := toInt_of_signed (by decide) product
  rw [smla, halfOf_eq, halfOf_eq, Option.bind_eq_bind, Option.bind_some, Option.bind_some, product,
    Option.bind_some, addS_eq, value]
  rfl

theorem rotated_eq (d : Decoded) (r : Regs) :
    rotated d r = some (if immShift d = 0 then r d.rm
      else ExecHelpers.rotate (r d.rm) (immShift d)) := by
  rw [rotated]
  split
  · rfl
  · rename_i turns
    exact rotate_eq _ turns (immShift_lt d)

def extended (ext : Word → Word) (d : Decoded) (r : Regs) : Word :=
  let rot := immShift d
  let val := ext (if rot = 0 then r d.rm else ExecHelpers.rotate (r d.rm) rot)
  if d.imm.getLsbD 31 ∧ d.rn ≠ 15 then r d.rn + val else val

theorem extend_eq {α : Type u} (ext : Word → Word) (d : Decoded) (r : Regs) (g : Word → α) :
    (extend ext d r).map g = some (g (extended ext d r)) := by
  rw [extend, rotated_eq]
  rfl

theorem umul64_eq (a b : Word) : split64 (a.setWidth 64 * b.setWidth 64) =
    some (ExecHelpers.umul64 a b) :=
  split64_eq _

section

variable {δ : Type u} (env : Env δ) (f : FetchResult) (d : Decoded) (m : Machine δ)

def bitField (bad : Bool) (res : Option Word) : Option (Outcome δ) :=
  if bad then some (.cont, m.usageFault env f (1#32 <<< 16))
  else res.map fun v => (.ok, m.setReg d.rd v)

def execBfx (extract : Word → Nat → Nat → Option Word) : Option (Outcome δ) :=
  let lsb := fieldLsb d
  let width := fieldWidth d
  bitField env f d m (d.rd = 15 || d.rn = 15 || 32 ≤ lsb || width = 0 || 32 < lsb + width)
    (extract (m.cpu.r d.rn) lsb width)

def execBfi : Option (Outcome δ) :=
  let lsb := fieldLsb d
  let width := fieldMsb d - lsb + 1
  bitField env f d m
    (fieldMsb d < lsb || d.rd = 15 || d.rn = 15 || 32 ≤ lsb || width = 0 || 32 < lsb + width)
    (bfi (m.cpu.r d.rd) (m.cpu.r d.rn) lsb width)

def execBfc : Option (Outcome δ) :=
  let lsb := fieldLsb d
  let width := fieldMsb d - lsb + 1
  bitField env f d m
    (fieldMsb d < lsb || d.rd = 15 || 32 ≤ lsb || width = 0 || 32 < lsb + width)
    (bfc (m.cpu.r d.rd) lsb width)

def execDiv (div : Word → Word → Option Word) : Option (Outcome δ) :=
  let divisor := m.cpu.r d.rm
  if divisor = 0 then
    if m.world.scs.ccr.getLsbD 4 then some (.cont, m.usageFault env f Machine.ufsrDivbyzero)
    else some (.ok, m.setReg d.rd 0)
  else (div (m.cpu.r d.rn) divisor).map fun v => (.ok, m.setReg d.rd v)

def execute : Option (Outcome δ) :=
  let r := m.cpu.r
  let c := carryFlag m.cpu.xpsr
  let it := m.it.remaining
  let amount := (r d.rm).setWidth 8
  let shiftedBy (setflags : Bool) (res : ShiftResult) := data m (shifted r d.rd res setflags)
  let pair (res : Word × Word) := data m (putLong d r res)
  match d.kind with
  | .lslReg => (lsl (r d.rn) amount c).map (shiftedBy (setFlagsOutside d it))
  | .lsrReg => (lsr (r d.rn) amount c).map (shiftedBy (setFlagsOutside d it))
  | .asrReg => (asr (r d.rn) amount c).map (shiftedBy (d.len = 2 && it = 0))
  | .rorReg => (rorRegShiftC (r d.rn) (r d.rm &&& 0xff) c).map fun res =>
      data m (logical r d.rd res.value res.carryOut (it ≤ 1))
  | .rorRegNf => (rorRegShiftC (r d.rn) (r d.rm &&& 0xff) c).map fun res =>
      data m (put r d.rd res.value)
  | .lslImm => (lslImm (r d.rm) (immShift d) c).map (shiftedBy (setFlagsLast d it))
  | .lsrImm => (lsrImm (r d.rm) (immShift d)).map (shiftedBy (setFlagsOutside d it))
  | .asrImm => (asrImm (r d.rm) (immShift d)).map (shiftedBy (setFlagsOutside d it))
  | .rorImm => (shiftCImm (r d.rm) 3 ((d.imm &&& 0x1f).setWidth 8) c).map
      (shiftedBy (setFlagsLast d it))
  -- products, sums and differences of unsigned values wrap
  | .mul => some (data m (mul d r))
  | .mulW => some (data m (mulW d r))
  | .mla => some (data m (put r d.rd (r d.rn * r d.rm + r d.ra)))
  | .mls => some (data m (put r d.rd (r d.ra - r d.rn * r d.rm)))
  | .smla => (smla d r).map fun v => data m (put r d.rd v)
  | .umull => ((split64 ((r d.rn).setWidth 64 * (r d.rm).setWidth 64)).bind
      (mulLong · false d r)).map pair
  | .umlal => ((split64 ((r d.rn).setWidth 64 * (r d.rm).setWidth 64)).bind
      (mulLong · true d r)).map pair
  | .umaal => (split64 ((r d.rn).setWidth 64 * (r d.rm).setWidth 64 + (r d.rd).setWidth 64 +
      (r d.ra).setWidth 64)).map pair
  | .smull => ((smul64 (r d.rn) (r d.rm)).bind (mulLong · false d r)).map pair
  | .smlal => ((smul64 (r d.rn) (r d.rm)).bind (mulLong · true d r)).map pair
  | .uxtb => (extend (· &&& 0xff) d r).map fun v => data m (put r d.rd v)
  | .sxtb => (extend (fun v => (v.setWidth 8).signExtend 32) d r).map fun v => data m (put r d.rd v)
  | .sxth => (extend (fun v => (v.setWidth 16).signExtend 32) d r).map fun v =>
      data m (put r d.rd v)
  | .uxth => (extend (· &&& 0xffff) d r).map fun v => data m (put r d.rd v)
  | .ubfx => execBfx env f d m ubfx
  | .sbfx => execBfx env f d m sbfx
  | .bfi => execBfi env f d m
  | .bfc => execBfc env f d m
  | .udiv => execDiv env f d m divU
  | .sdiv => execDiv env f d m divS
  | _ => none

end

def plainKinds : List OpKind :=
  [.lslReg, .lsrReg, .asrReg, .rorReg, .rorRegNf, .lslImm, .lsrImm, .asrImm, .rorImm, .mul, .mulW,
    .mla, .mls, .smla, .umull, .umlal, .umaal, .smull, .smlal, .uxtb, .sxtb, .sxth, .uxth]

def arithmeticKinds : List OpKind := plainKinds ++ [.ubfx, .sbfx, .bfi, .bfc, .udiv, .sdiv]

def Undefined (d : Decoded) (r : Regs) : Prop :=
  d.kind = .sdiv ∧ r d.rn = 0x80000000 ∧ r d.rm = 0xffffffff ∨ d.kind = .smla ∧ ¬ SmlaFits d r

instance (d : Decoded) (r : Regs) : Decidable (Undefined d r) :=
  inferInstanceAs (Decidable (_ ∨ _))

section

variable {δ : Type u} (env : Env δ) (f : FetchResult) {d : Decoded} (m : Machine δ)

theorem bitField_eq (bad : Bool) (v : Word) :
    bitField env f d m bad (some v) = some (Execute.bitField env m f d bad v) := by
  cases bad <;> rfl

theorem execDiv_eq {div : Word → Word → Option Word} {div' : Word → Word → Word}
    (same : m.cpu.r d.rm ≠ 0 →
      div (m.cpu.r d.rn) (m.cpu.r d.rm) = some (div' (m.cpu.r d.rn) (m.cpu.r d.rm))) :
    execDiv env f d m div = some (Execute.execDiv env m f d div') := by
  simp only [execDiv, Execute.execDiv]
  split
  · split <;> rfl
  · rename_i some'
    rw [same some']
    rfl

theorem execute_eq (kind : d.kind ∈ arithmeticKinds) :
    execute env f d m =
      if Undefined d m.cpu.r then none else some (executeDecoded env f d m) := by
  have within := immShift_lt d
  have defined (div : d.kind ≠ .sdiv) (mul : d.kind ≠ .smla) : ¬ Undefined d m.cpu.r :=
    not_or.mpr ⟨fun is => div is.1, fun is => mul is.1⟩
  cases is : d.kind
  all_goals first
    | exact absurd kind (by rw [is]; decide)
    | skip
  case smla =>
    simp only [execute, executeDecoded, is, dataOf, dataProc, smla_eq, Undefined, reduceCtorEq,
      false_and, false_or, true_and]
    by_cases fits : SmlaFits d m.cpu.r
    · rw [if_pos fits, if_neg (not_not.mpr fits)]
      rfl
    · rw [if_neg fits, if_pos fits]
      rfl
  case sdiv =>
    simp only [execute, executeDecoded, is, Undefined, reduceCtorEq, false_and, or_false, true_and]
    have quotient (some' : m.cpu.r d.rm ≠ 0) := divS_eq (by decide) (m.cpu.r d.rn) (m.cpu.r d.rm)
    by_cases large : m.cpu.r d.rn = 0x80000000 ∧ m.cpu.r d.rm = 0xffffffff
    · have some' : m.cpu.r d.rm ≠ 0 := by
        rw [large.2]
        decide
      rw [if_pos large, execDiv, if_neg some', quotient some', if_pos (.inr large)]
      rfl
    · rw [if_neg large]
      refine execDiv_eq env f m fun some' => ?_
      exact (quotient some').trans (if_neg (not_or.mpr ⟨some', large⟩))
  all_goals
    rw [if_neg (defined (by rw [is]; decide) (by rw [is]; decide))]
    simp only [execute, executeDecoded, is, dataOf, dataProc]
  case udiv => exact execDiv_eq env f m fun some' => divU_of_ne _ some'
  case ubfx =>
    rw [execBfx, ubfx_eq]
    exact bitField_eq ..
  case sbfx =>
    rw [execBfx, sbfx_eq]
    exact bitField_eq ..
  case bfi =>
    rw [execBfi, bfi_eq]
    exact bitField_eq ..
  case bfc =>
    rw [execBfc, bfc, bfi_eq]
    exact bitField_eq ..
  case lslReg =>
    rw [lsl_eq]
    rfl
  case lsrReg =>
    rw [lsr_eq]
    rfl
  case asrReg =>
    rw [asr_eq]
    rfl
  case rorReg | rorRegNf =>
    rw [rorRegShiftC_eq]
    rfl
  case lslImm =>
    rw [lslImm_eq _ within]
    rfl
  case lsrImm =>
    rw [lsrImm_eq _ within]
    rfl
  case asrImm =>
    rw [asrImm_eq _ within]
    rfl
  case rorImm =>
    rw [shiftCImm_eq]
    rfl
  case umull | umlal =>
    rw [umul64_eq, Option.bind_some, mulLong_eq]
    rfl
  case smull | smlal =>
    rw [smul64_eq, Option.bind_some, mulLong_eq]
    rfl
  case umaal =>
    rw [split64_eq]
    rfl
  case uxtb | sxtb | uxth | sxth =>
    exact extend_eq _ d m.cpu.r (data m <| put m.cpu.r d.rd ·)

end

end Host

end M33mu
