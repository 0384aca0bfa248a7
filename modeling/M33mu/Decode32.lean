import M33mu.Decode
import M33mu.ExecHelpers

/-!
The decoder of the 32-bit instructions: the rules of `decode_32`, in the order in which it tries
them.
-/

namespace M33mu

namespace Decode32

abbrev Rule := Word → Decoded → Bool × Decoded

def reg (insn : Word) (lo : Nat) : Reg := Fin.ofNat 16 (insn.toNat >>> lo)

def bits (insn : Word) (lo n : Nat) : Word := BitVec.ofNat 32 (insn.toNat >>> lo % 2 ^ n)

def signed (insn : Word) (u : Nat) (imm : Word) : Word := if insn.getLsbD u then imm else -imm

def imm12 (insn : Word) : Word := bits insn 26 1 <<< 11 ||| bits insn 12 3 <<< 8 ||| bits insn 0 8

/-- `thumb_expand_imm12`: what the executor expands, without its carry. -/
def thumbExpandImm12 (imm12 : Word) : Word := (ExecHelpers.thumbExpandImm12C imm12 false).value

def imm5 (insn : Word) : Word := bits insn 12 3 <<< 2 ||| bits insn 6 2

def shiftType (insn : Word) : Word := bits insn 4 2

/-- Type in bits 6:5 and amount in bits 4:0, for the executor. -/
def packedShift (insn : Word) : Word := shiftType insn <<< 5 ||| imm5 insn

def ldrLiteral : Rule := fun insn d =>
  if insn &&& 0xff7f0000 = 0xf85f0000 then
    { d with rd := reg insn 12, imm := signed insn 23 (bits insn 0 12) }.is .ldrLiteral
  else (false, d)

def sg : Rule := fun insn d => if insn = 0xe97fe97f then d.is .sg else (false, d)

def clrex : Rule := fun insn d => if insn = 0xf3bf8f2f then d.is .clrex else (false, d)

def oneSource (insn : Word) : Prop :=
  reg insn 16 = reg insn 0 ∧ reg insn 8 ≠ 15 ∧ reg insn 16 ≠ 15

instance (insn : Word) : Decidable (oneSource insn) := inferInstanceAs (Decidable (_ ∧ _))

def fromRm (insn : Word) (d : Decoded) : Decoded := { d with rd := reg insn 8, rm := reg insn 16 }

def reverse : Rule := fun insn d =>
  if insn &&& 0xfff00000 = 0xfa900000 ∧ oneSource insn then
    if insn &&& 0xf0f0 = 0xf080 then (fromRm insn d).is .rev
    else if insn &&& 0xf0f0 = 0xf090 then (fromRm insn d).is .rev16
    else if insn &&& 0xf0f0 = 0xf0b0 then (fromRm insn d).is .revsh
    else (false, d)
  else (false, d)

def rbit : Rule := fun insn d =>
  if insn &&& 0xfff0f0f0 = 0xfa90f0a0 ∧ oneSource insn then (fromRm insn d).is .rbit else (false, d)

def testTarget : Rule := fun insn d =>
  if insn &&& 0xfff0f03f = 0xe840f000 then
    if reg insn 8 = 15 ∨ reg insn 16 = 15 then (true, d)
    else
      { d with rn := reg insn 16, rd := reg insn 8 }.is
        (match (bits insn 6 2).toNat with
        | 0 => .tt
        | 1 => .ttt
        | 2 => .tta
        | _ => .ttat)
  else (false, d)

def threeRegs (insn : Word) (d : Decoded) : Decoded :=
  { d with rn := reg insn 16, rd := reg insn 8, rm := reg insn 0 }

def threeRegsOk (insn : Word) : Prop := reg insn 16 ≠ 15 ∧ reg insn 8 ≠ 15 ∧ reg insn 0 ≠ 15

instance (insn : Word) : Decidable (threeRegsOk insn) := inferInstanceAs (Decidable (_ ∧ _))

def divide : Rule := fun insn d =>
  if insn &&& 0xf0f0 = 0xf0f0 ∧ threeRegsOk insn then
    if insn &&& 0xfff00000 = 0xfbb00000 then (threeRegs insn d).is .udiv
    else if insn &&& 0xfff00000 = 0xfb900000 then (threeRegs insn d).is .sdiv
    else (false, d)
  else (false, d)

/-- The flag for setting flags is bit 20, which the pattern fixes. -/
def mulW : Rule := fun insn d =>
  if insn &&& 0xfff0f0f0 = 0xfb00f000 ∧ threeRegsOk insn then
    { threeRegs insn d with imm := bits insn 20 1 }.is .mulW
  else (false, d)

def longRegs (insn : Word) (d : Decoded) : Decoded :=
  { d with rn := reg insn 16, rd := reg insn 12, rm := reg insn 0, ra := reg insn 8 }

def longRegsOk (insn : Word) : Prop :=
  reg insn 16 ≠ 15 ∧ reg insn 0 ≠ 15 ∧ reg insn 12 ≠ 15 ∧ reg insn 8 ≠ 15 ∧
    reg insn 12 ≠ reg insn 8

instance (insn : Word) : Decidable (longRegsOk insn) := inferInstanceAs (Decidable (_ ∧ _))

def umaal : Rule := fun insn d =>
  if insn &&& 0xfff000f0 = 0xfbe00060 ∧ longRegsOk insn then (longRegs insn d).is .umaal
  else (false, d)

def mulLong : Rule := fun insn d =>
  if insn &&& 0xf0 = 0 ∧ longRegsOk insn then
    if insn &&& 0xfff00000 = 0xfba00000 then (longRegs insn d).is .umull
    else if insn &&& 0xfff00000 = 0xfbe00000 then (longRegs insn d).is .umlal
    else if insn &&& 0xfff00000 = 0xfb800000 then (longRegs insn d).is .smull
    else if insn &&& 0xfff00000 = 0xfbc00000 then (longRegs insn d).is .smlal
    else (false, d)
  else (false, d)

def fourRegs (insn : Word) (d : Decoded) : Decoded := { threeRegs insn d with ra := reg insn 12 }

def fourRegsOk (insn : Word) : Prop := reg insn 12 ≠ 15 ∧ threeRegsOk insn

instance (insn : Word) : Decidable (fourRegsOk insn) := inferInstanceAs (Decidable (_ ∧ _))

/-- Bit 1 of the immediate selects the top halfword of `Rn`, bit 0 that of `Rm`. -/
def smla : Rule := fun insn d =>
  if insn &&& 0xfff000c0 = 0xfb100000 ∧ fourRegsOk insn then
    { fourRegs insn d with imm := bits insn 4 2 }.is .smla
  else (false, d)

def mla : Rule := fun insn d =>
  if insn &&& 0xfff00000 = 0xfb000000 ∧ fourRegsOk insn then
    (fourRegs insn d).is (if insn.getLsbD 4 then .mls else .mla)
  else (false, d)

def clz : Rule := fun insn d =>
  if insn &&& 0xfff0f0f0 = 0xfab0f080 ∧ oneSource insn then (fromRm insn d).is .clz else (false, d)

def transfer (insn : Word) (imm : Word) (d : Decoded) : Decoded :=
  { d with rn := reg insn 16, rd := reg insn 12, imm := imm }

def offset8 (insn : Word) : Prop := insn &&& 0xd00 = 0xc00

instance (insn : Word) : Decidable (offset8 insn) := inferInstanceAs (Decidable (_ = _))

/-- The offset forms of `LDRSB` and `LDRSH`; a destination of 15 ends the search. -/
def loadSigned (pat12 pat8 : Word) (kind : OpKind) : Rule := fun insn d =>
  if insn &&& 0xfff00000 = pat12 then
    if reg insn 12 = 15 then (true, d) else (transfer insn (bits insn 0 12) d).is kind
  else if insn &&& 0xfff00000 = pat8 ∧ offset8 insn then
    if reg insn 12 = 15 then (true, d)
    else (transfer insn (signed insn 9 (bits insn 0 8)) d).is kind
  else (false, d)

def ldrshImm : Rule := loadSigned 0xf9b00000 0xf9300000 .ldrshImm

def ldrex : Rule := fun insn d =>
  if insn &&& 0xfff00f00 = 0xe8500f00 then
    { d with rn := reg insn 16, rd := reg insn 12 }.is .ldrex
  else (false, d)

def strex : Rule := fun insn d =>
  if insn &&& 0xfff000ff = 0xe8400000 then
    { d with rn := reg insn 16, rm := reg insn 12, rd := reg insn 8 }.is .strex
  else (false, d)

def multiple : Rule := fun insn d =>
  if insn &&& 0xfe400000 = 0xe8000000 then
    { d with
      rn := reg insn 16
      imm := bits insn 23 2 <<< 24 ||| bits insn 21 1 <<< 16 ||| bits insn 0 16 }.is
      (if insn.getLsbD 20 then .ldm else .stm)
  else (false, d)

/-- A destination of 15 leaves the instruction undefined. -/
def mrs : Rule := fun insn d =>
  if insn &&& 0xffff0000 = 0xf3ef0000 then
    let d := { d with kind := .mrs, rd := reg insn 8 }
    if d.rd = 15 then (true, d) else { d with imm := bits insn 0 8 }.is .mrs
  else (false, d)

def barrier : Rule := fun insn d =>
  if insn &&& 0xfffffff0 = 0xf3bf8f40 then d.is .dsb
  else if insn &&& 0xfffffff0 = 0xf3bf8f50 then d.is .dmb
  else if insn &&& 0xfffffff0 = 0xf3bf8f60 then d.is .isb
  else (false, d)

def mvnReg : Rule := fun insn d =>
  if insn &&& 0xffef8000 = 0xea6f0000 then
    let rd := reg insn 8
    let rm := reg insn 0
    if rd = 13 ∨ rd = 15 ∨ rm = 13 ∨ rm = 15 then (true, d)
    else { d with rd := rd, rm := rm }.is .mvnReg
  else (false, d)

/-- The immediate stays unexpanded, so that the executor can compute the carry. -/
def mvnImm : Rule := fun insn d =>
  if insn &&& 0xfbef8000 = 0xf06f0000 then
    if reg insn 8 = 13 ∨ reg insn 8 = 15 then (true, d)
    else { d with rd := reg insn 8, imm := imm12 insn }.is .mvnImm
  else (false, d)

def msr : Rule := fun insn d =>
  if insn &&& 0xfff08000 = 0xf3808000 then
    { d with rm := reg insn 16, imm := bits insn 8 4 <<< 8 ||| bits insn 0 8 }.is .msr
  else (false, d)

def farOffset (insn : Word) : Word :=
  let s := bits insn 26 1
  let i1 := bits insn 13 1 ^^^ 1 ^^^ s
  let i2 := bits insn 11 1 ^^^ 1 ^^^ s
  let imm := s <<< 24 ||| i1 <<< 23 ||| i2 <<< 22 ||| bits insn 16 10 <<< 12 |||
    bits insn 0 11 <<< 1
  if s ≠ 0 then imm ||| 0xfe000000 else imm

/-- The offset of the conditional branch; `J1` and `J2` are not inverted. -/
def condOffset (insn : Word) : Word :=
  let s := bits insn 26 1
  let imm := s <<< 20 ||| bits insn 13 1 <<< 19 ||| bits insn 11 1 <<< 18 |||
    bits insn 16 6 <<< 12 ||| bits insn 0 11 <<< 1
  if s ≠ 0 then imm ||| 0xffe00000 else imm

def bl : Rule := fun insn d =>
  if insn &&& 0xf800d000 = 0xf000d000 then { d with imm := farOffset insn }.is .bl else (false, d)

def bCondWide : Rule := fun insn d =>
  if insn &&& 0xf800d000 = 0xf0008000 then
    { d with cond := (bits insn 22 4).setWidth 8, imm := condOffset insn }.is .bCondWide
  else (false, d)

def bUncondWide : Rule := fun insn d =>
  if insn &&& 0xf800d000 = 0xf0009000 then { d with imm := farOffset insn }.is .bUncondWide
  else (false, d)

def shiftReg : Rule := fun insn d =>
  if insn &&& 0xffe0f0f0 = 0xfa00f000 then (threeRegs insn d).is .lslReg
  else if insn &&& 0xffe0f0f0 = 0xfa20f000 then (threeRegs insn d).is .lsrReg
  else if insn &&& 0xffe0f0f0 = 0xfa40f000 then (threeRegs insn d).is .asrReg
  else if insn &&& 0xffe0f0f0 = 0xfa60f000 then (threeRegs insn d).is .rorRegNf
  else (false, d)

def dataImm (insn : Word) (imm : Word) (d : Decoded) : Decoded :=
  { d with rn := reg insn 16, rd := reg insn 8, imm := imm }

def rsbImm : Rule := fun insn d =>
  if insn &&& 0xfbe08000 = 0xf1c00000 then
    (dataImm insn (thumbExpandImm12 (imm12 insn)) d).is .rsbImm
  else (false, d)

/-- `ADDW`, whose immediate is plain. -/
def addw : Rule := fun insn d =>
  if insn &&& 0xfbf08000 = 0xf2000000 then (dataImm insn (imm12 insn) d).is .addImm else (false, d)

def movImm : Rule := fun insn d =>
  if insn &&& 0xfbf08000 = 0xf0400000 ∧ reg insn 16 = 15 then
    { d with rd := reg insn 8, imm := thumbExpandImm12 (imm12 insn) }.is .movImm
  else (false, d)

def orrImm : Rule := fun insn d =>
  if insn &&& 0xff700000 = 0xf0400000 then
    (dataImm insn (thumbExpandImm12 (imm12 insn)) d).is .orrReg
  else (false, d)

def dataShifted (insn : Word) (d : Decoded) : Decoded :=
  { threeRegs insn d with imm := packedShift insn }

/-- `MOV` and the shifts by an immediate, as `ORR` with `Rn = 1111`. -/
def moveKind (insn : Word) : OpKind :=
  match (shiftType insn).toNat with
  | 0 => if imm5 insn = 0 then .movReg else .lslImm
  | 1 => .lsrImm
  | 2 => .asrImm
  | _ => .rorImm

def dataReg : Rule := fun insn d =>
  if insn &&& 0xfe000000 = 0xea000000 then
    match (bits insn 21 4).toNat with
    | 0x8 => (dataShifted insn d).is .addReg
    | 0xD =>
      if reg insn 8 = 15 then
        { d with rn := reg insn 16, rm := reg insn 0, imm := packedShift insn }.is .cmpReg
      else (dataShifted insn d).is .subReg
    | 0x4 => (dataShifted insn d).is .eorReg
    | 0xA => (dataShifted insn d).is .adcsReg
    | 0xB => (dataShifted insn d).is .sbcsReg
    | 0xE => (dataShifted insn d).is .rsbReg
    | 0x1 => (dataShifted insn d).is .bicReg
    | 0x0 =>
      if reg insn 8 = 15 then
        { d with rn := reg insn 16, rm := reg insn 0, imm := packedShift insn }.is .tstReg
      else (dataShifted insn d).is .andReg
    | 0x2 =>
      if reg insn 16 = 15 then
        { d with rd := reg insn 8, rm := reg insn 0, imm := imm5 insn }.is (moveKind insn)
      else (dataShifted insn d).is .orrReg
    | 0x3 => (dataShifted insn d).is .ornReg
    | _ => (false, d)
  else (false, d)

/-- The extensions, with a rotation and an addend unless `Rn = 1111`. -/
def extend : Rule := fun insn d =>
  let family := insn &&& 0xfff0f000
  if family = 0xfa50f000 ∨ family = 0xfa40f000 ∨ family = 0xfa10f000 ∨ family = 0xfa00f000 then
    if reg insn 8 = 15 ∨ reg insn 0 = 15 then (true, d)
    else
      { threeRegs insn d with
        imm := bits insn 4 2 <<< 3 ||| if reg insn 16 ≠ 15 then 0x80000000 else 0 }.is
        (if family = 0xfa40f000 then .sxtb
        else if family = 0xfa50f000 then .uxtb
        else if family = 0xfa00f000 then .sxth
        else .uxth)
  else (false, d)

def ldrsbImm : Rule := loadSigned 0xf9900000 0xf9100000 .ldrsbImm

def imm16 (insn : Word) : Word :=
  bits insn 26 1 <<< 11 ||| bits insn 16 4 <<< 12 ||| bits insn 12 3 <<< 8 ||| bits insn 0 8

def movw : Rule := fun insn d =>
  if insn &&& 0xfbf08000 = 0xf2400000 then { d with rd := reg insn 8, imm := imm16 insn }.is .movw
  else (false, d)

def movt : Rule := fun insn d =>
  if insn &&& 0xfbf08000 = 0xf2c00000 then { d with rd := reg insn 8, imm := imm16 insn }.is .movt
  else (false, d)

/-- The opcodes with a modified immediate; `none` is an opcode that is not decoded. -/
def modifiedKind (insn : Word) : Option OpKind :=
  let sbit := insn.getLsbD 20
  let noDest := decide (reg insn 8 = 15)
  match (bits insn 21 4).toNat with
  | 0x0 => some (if noDest then .tstImm else .andReg)
  | 0x1 => some .bicReg
  | 0x2 => some .orrReg
  | 0x3 => some .ornImm
  | 0x4 => some .eorReg
  | 0xA => some .adcImm
  | 0x8 => some (if noDest && sbit then .cmnImm else .addImm)
  | 0xB => some (if sbit then .sbcImm else .sbcImmNf)
  | 0xD => some (if noDest then .cmpImm else if sbit then .subImm else .subImmNf)
  | _ => none

/-- Without an opcode the fields are set all the same, and the search goes on. -/
def modifiedImm : Rule := fun insn d =>
  if insn &&& 0xfa000000 = 0xf0000000 then
    let d := dataImm insn (thumbExpandImm12 (imm12 insn)) d
    match modifiedKind insn with
    | some kind => d.is kind
    | none => (false, { d with kind := .undefined })
  else (false, d)

/-- `SUBW`, whose immediate is plain. -/
def subw : Rule := fun insn d =>
  if (insn &&& 0xff700000 = 0xf2200000 ∨ insn &&& 0xff700000 = 0xf6200000) ∧
      insn.getLsbD 20 = false then
    (dataImm insn (imm12 insn) d).is .subImmNf
  else (false, d)

def offset12 : Rule := fun insn d =>
  let d' := transfer insn (bits insn 0 12) d
  if insn &&& 0xfff00000 = 0xf8a00000 then d'.is .strhImm
  else if insn &&& 0xfff00000 = 0xf8b00000 then d'.is .ldrhImm
  else if insn &&& 0xfff00000 = 0xf8c00000 then d'.is .strImm
  else if insn &&& 0xfff00000 = 0xf8d00000 then d'.is .ldrImm
  else (false, d)

def transferReg (insn : Word) (d : Decoded) : Decoded :=
  { transfer insn (bits insn 4 2) d with rm := reg insn 0 }

def wordReg : Rule := fun insn d =>
  if insn &&& 0xffc00f00 = 0xf8400000 ∧ insn.getLsbD 21 = false then
    (transferReg insn d).is (if insn.getLsbD 20 then .ldrReg else .strReg)
  else (false, d)

def word8 : Rule := fun insn d =>
  let d' := transfer insn (signed insn 9 (bits insn 0 8)) d
  let form := insn &&& 0xfff00f00
  if form = 0xf8400b00 ∨ form = 0xf8400900 then d'.is .strPostImm
  else if form = 0xf8500b00 ∨ form = 0xf8500900 then d'.is .ldrPostImm
  else if form = 0xf8400c00 then d'.is .strImm
  else if form = 0xf8500c00 then d'.is .ldrImm
  else if form = 0xf8400f00 ∨ form = 0xf8400d00 then d'.is .strPreImm
  else if form = 0xf8500f00 ∨ form = 0xf8500d00 then d'.is .ldrPreImm
  else (false, d)

def byteReg : Rule := fun insn d =>
  if insn &&& 0xfff00fc0 = 0xf8000000 ∨ insn &&& 0xfff00fc0 = 0xf8100000 then
    (transferReg insn d).is (if insn.getLsbD 20 then .ldrbReg else .strbReg)
  else (false, d)

def ldrshReg : Rule := fun insn d =>
  if insn &&& 0xfff00fc0 = 0xf9300000 then (transferReg insn d).is .ldrshReg else (false, d)

def byte12 : Rule := fun insn d =>
  if insn &&& 0xfff00000 = 0xf8800000 ∨ insn &&& 0xfff00000 = 0xf8900000 then
    (transfer insn (signed insn 23 (bits insn 0 12)) d).is
      (if insn.getLsbD 20 then .ldrbImm else .strbImm)
  else (false, d)

/-- All that is left of the byte transfers; the forms that write nothing back are offsets. -/
def byte8 : Rule := fun insn d =>
  if insn &&& 0xff000000 = 0xf8000000 ∧ bits insn 20 3 ≤ 1 then
    let load := insn.getLsbD 20
    (transfer insn (signed insn 9 (bits insn 0 8)) d).is
      (if insn &&& 0x500 = 0x100 then if load then .ldrbPostImm else .strbPostImm
      else if insn &&& 0x500 = 0x500 then if load then .ldrbPreImm else .strbPreImm
      else if load then .ldrbImm else .strbImm)
  else (false, d)

def half8 (pat : Word) (post pre off : OpKind) : Rule := fun insn d =>
  if insn &&& 0xfff00800 = pat ||| 0x800 ∧ reg insn 12 ≠ 13 ∧ reg insn 12 ≠ 15 then
    let d' := transfer insn (signed insn 9 (bits insn 0 8)) d
    if insn &&& 0x500 = 0x100 then d'.is post
    else if insn &&& 0x500 = 0x500 then d'.is pre
    else if insn &&& 0x500 = 0x400 then d'.is off
    else (false, d)
  else (false, d)

def ldrh8 : Rule := half8 0xf8300000 .ldrhPostImm .ldrhPreImm .ldrhImm

def strh8 : Rule := half8 0xf8200000 .strhPostImm .strhPreImm .strhImm

def halfReg : Rule := fun insn d =>
  if insn &&& 0xfff00fc0 = 0xf8200000 then (transferReg insn d).is .strhReg
  else if insn &&& 0xfff00fc0 = 0xf8300000 then (transferReg insn d).is .ldrhReg
  else (false, d)

def ubfx : Rule := fun insn d =>
  if insn &&& 0xfff00000 = 0xf3c00000 ∧ reg insn 16 ≠ 15 ∧ reg insn 8 ≠ 15 then
    { d with rd := reg insn 8, rn := reg insn 16, imm := imm5 insn ||| bits insn 0 5 <<< 8 }.is .ubfx
  else (false, d)

def sbfx : Rule := fun insn d =>
  if insn &&& 0xfff00000 = 0xf3400000 then
    { d with rd := reg insn 8, rn := reg insn 16 }.is .sbfx
  else (false, d)

def bitFieldInsert : Rule := fun insn d =>
  if insn &&& 0xfff08020 = 0xf3600000 then
    { d with rd := reg insn 8, rn := reg insn 16 }.is (if reg insn 16 = 15 then .bfc else .bfi)
  else (false, d)

def tableBranch : Rule := fun insn d =>
  if insn &&& 0xfff0ffe0 = 0xe8d0f000 then
    { d with rn := reg insn 16, rm := reg insn 0 }.is (if insn.getLsbD 4 then .tbh else .tbb)
  else (false, d)

def dual : Rule := fun insn d =>
  if insn &&& 0xfe000000 = 0xe8000000 then
    { d with
      rn := reg insn 16
      rd := reg insn 12
      rm := reg insn 8
      imm := bits insn 0 8 <<< 2 ||| (if insn.getLsbD 23 then 0x80000000 else 0) |||
        (if insn.getLsbD 21 then 0x40000000 else 0) |||
        (if insn.getLsbD 24 then 0x20000000 else 0) }.is
      (if insn.getLsbD 20 then .ldrd else .strd)
  else (false, d)

def rules : List Rule :=
  [ldrLiteral, sg, clrex, reverse, rbit, testTarget, divide, mulW, umaal, mulLong, smla, mla, clz,
    ldrshImm, ldrex, strex, multiple, mrs, barrier, mvnReg, mvnImm, msr, bl, bCondWide,
    bUncondWide, shiftReg, rsbImm, addw, movImm, orrImm, dataReg, extend, ldrsbImm, movw, movt,
    modifiedImm, subw, offset12, wordReg, word8, byteReg, ldrshReg, byte12, byte8, ldrh8, strh8,
    halfReg, ubfx, sbfx, bitFieldInsert, tableBranch, dual]

def firstRule (insn : Word) : List Rule → Decoded → Decoded
  | [], d => d
  | rule :: rules, d =>
    match rule insn d with
    | (true, d) => d
    | (false, d) => firstRule insn rules d

end Decode32

/-- `decode_32`. -/
def Decode.decode32 (insn : Word) : Decoded :=
  Decode32.firstRule insn Decode32.rules (.default 4 insn)

end M33mu
