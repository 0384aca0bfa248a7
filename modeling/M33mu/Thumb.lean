import M33mu.Branches
import M33mu.Lib.Fields

namespace M33mu

open Lib Decode

namespace Thumb

inductive ShiftOp | lsl | lsr | asr
  deriving DecidableEq, Repr

inductive ImmOp | mov | cmp | add | sub
  deriving DecidableEq, Repr

inductive AluOp
  | and | eor | lsl | lsr | asr | adc | sbc | ror | tst | rsb | cmp | cmn | orr | mul | bic | mvn
  deriving DecidableEq, Repr

inductive HighOp | add | cmp | mov
  deriving DecidableEq, Repr

inductive MemOp | str | strh | strb | ldrsb | ldr | ldrh | ldrb | ldrsh
  deriving DecidableEq, Repr

inductive Size | word | byte | half
  deriving DecidableEq, Repr

inductive ExtendOp | sxth | sxtb | uxth | uxtb
  deriving DecidableEq, Repr

inductive RevOp | rev | rev16 | revsh
  deriving DecidableEq, Repr

inductive HintOp | nop | yield | wfe | wfi | sev
  deriving DecidableEq, Repr

def ShiftOp.code : ShiftOp → BitVec 2
  | lsl => 0b00
  | lsr => 0b01
  | asr => 0b10

def ImmOp.code : ImmOp → BitVec 2
  | mov => 0b00
  | cmp => 0b01
  | add => 0b10
  | sub => 0b11

def AluOp.code : AluOp → BitVec 4
  | and => 0x0
  | eor => 0x1
  | lsl => 0x2
  | lsr => 0x3
  | asr => 0x4
  | adc => 0x5
  | sbc => 0x6
  | ror => 0x7
  | tst => 0x8
  | rsb => 0x9
  | cmp => 0xa
  | cmn => 0xb
  | orr => 0xc
  | mul => 0xd
  | bic => 0xe
  | mvn => 0xf

def HighOp.code : HighOp → BitVec 2
  | add => 0b00
  | cmp => 0b01
  | mov => 0b10

def MemOp.code : MemOp → BitVec 3
  | str => 0b000
  | strh => 0b001
  | strb => 0b010
  | ldrsb => 0b011
  | ldr => 0b100
  | ldrh => 0b101
  | ldrb => 0b110
  | ldrsh => 0b111

def Size.code : Size → BitVec 4
  | word => 0b0110
  | byte => 0b0111
  | half => 0b1000

def ExtendOp.code : ExtendOp → BitVec 2
  | sxth => 0b00
  | sxtb => 0b01
  | uxth => 0b10
  | uxtb => 0b11

def RevOp.code : RevOp → BitVec 2
  | rev => 0b00
  | rev16 => 0b01
  | revsh => 0b11

def HintOp.code : HintOp → BitVec 4
  | nop => 0
  | yield => 1
  | wfe => 2
  | wfi => 3
  | sev => 4

def ShiftOp.kind : ShiftOp → OpKind
  | lsl => .lslImm
  | lsr => .lsrImm
  | asr => .asrImm

def AluOp.kind : AluOp → OpKind
  | and => .andReg
  | eor => .eorReg
  | lsl => .lslReg
  | lsr => .lsrReg
  | asr => .asrReg
  | adc => .adcsReg
  | sbc => .sbcsReg
  | ror => .rorReg
  | tst => .tstReg
  | rsb => .neg
  | cmp => .cmpReg
  | cmn => .cmnReg
  | orr => .orrReg
  | mul => .mul
  | bic => .bicReg
  | mvn => .mvnReg

def HighOp.kind : HighOp → OpKind
  | add => .addReg
  | cmp => .cmpReg
  | mov => .movReg

def MemOp.kind : MemOp → OpKind
  | str => .strReg
  | strh => .strhReg
  | strb => .strbReg
  | ldrsb => .ldrsbReg
  | ldr => .ldrReg
  | ldrh => .ldrhReg
  | ldrb => .ldrbReg
  | ldrsh => .ldrshReg

def Size.kind : Size → Bool → OpKind
  | word, load => if load then .ldrImm else .strImm
  | byte, load => if load then .ldrbImm else .strbImm
  | half, load => if load then .ldrhImm else .strhImm

def Size.scale : Size → Nat
  | word => 2
  | byte => 0
  | half => 1

def ExtendOp.kind : ExtendOp → OpKind
  | sxth => .sxth
  | sxtb => .sxtb
  | uxth => .uxth
  | uxtb => .uxtb

def RevOp.kind : RevOp → OpKind
  | rev => .rev
  | rev16 => .rev16
  | revsh => .revsh

def HintOp.kind : HintOp → OpKind
  | nop => .nop
  | yield => .yield
  | wfe => .wfe
  | wfi => .wfi
  | sev => .sev

/-- `BX` and `BLX`, and what they are to the Non-secure state. -/
def exchange (link ns : Bool) : OpKind :=
  if ns then if link then .blxns else .bxns else if link then .blx else .bx

end Thumb

open Thumb in
inductive Thumb
  | shift (op : ShiftOp) (imm5 : BitVec 5) (rm rd : BitVec 3)
  | addSubReg (sub : Bool) (rm rn rd : BitVec 3)
  | addSubImm (sub : Bool) (imm3 rn rd : BitVec 3)
  | immediate (op : ImmOp) (rdn : BitVec 3) (imm8 : BitVec 8)
  | alu (op : AluOp) (rm rdn : BitVec 3)
  | high (op : HighOp) (rm rdn : BitVec 4)
  | bx (link ns : Bool) (rm : BitVec 4)
  | ldrLiteral (rt : BitVec 3) (imm8 : BitVec 8)
  | memReg (op : MemOp) (rm rn rt : BitVec 3)
  | memImm (size : Size) (load : Bool) (imm5 : BitVec 5) (rn rt : BitVec 3)
  | memSp (load : Bool) (rt : BitVec 3) (imm8 : BitVec 8)
  | adr (rd : BitVec 3) (imm8 : BitVec 8)
  | addSp (rd : BitVec 3) (imm8 : BitVec 8)
  | adjustSp (sub : Bool) (imm7 : BitVec 7)
  | cbz (nonzero : Bool) (off : BitVec 6) (rn : BitVec 3)
  | extend (op : ExtendOp) (rm rd : BitVec 3)
  | rev (op : RevOp) (rm rd : BitVec 3)
  | cps (field : BitVec 5)
  | pushPop (pop extra : Bool) (list : BitVec 8)
  | bkpt (imm8 : BitVec 8)
  | hint (op : HintOp)
  | otherHint (op : BitVec 4)
  | it (first mask : BitVec 4)
  | multiple (load : Bool) (rn : BitVec 3) (list : BitVec 8)
  | bCond (c : Fin 14) (off : BitVec 8)
  | udf (imm8 : BitVec 8)
  | svc (imm8 : BitVec 8)
  | b (off : BitVec 11)
  deriving DecidableEq, Repr

namespace Thumb

/-- The bits of the fourth operand of `ADD`, `CMP` and `MOV` are apart from each other. -/
def highHalf (op : BitVec 2) (rm rdn : BitVec 4) : Half :=
  0b010001#6 ++ op ++ rdn.extractLsb' 3 1 ++ rm ++ rdn.extractLsb' 0 3

def encode : Thumb → Half
  | shift op imm5 rm rd => 0b000#3 ++ op.code ++ imm5 ++ rm ++ rd
  | addSubReg sub rm rn rd => 0b000110#6 ++ BitVec.ofBool sub ++ rm ++ rn ++ rd
  | addSubImm sub imm3 rn rd => 0b000111#6 ++ BitVec.ofBool sub ++ imm3 ++ rn ++ rd
  | immediate op rdn imm8 => 0b001#3 ++ op.code ++ rdn ++ imm8
  | alu op rm rdn => 0b010000#6 ++ op.code ++ rm ++ rdn
  | high op rm rdn => highHalf op.code rm rdn
  | bx link ns rm => 0b01000111#8 ++ BitVec.ofBool link ++ rm ++ BitVec.ofBool ns ++ 0b00#2
  | ldrLiteral rt imm8 => 0b01001#5 ++ rt ++ imm8
  | memReg op rm rn rt => 0b0101#4 ++ op.code ++ rm ++ rn ++ rt
  | memImm size load imm5 rn rt => size.code ++ BitVec.ofBool load ++ imm5 ++ rn ++ rt
  | memSp load rt imm8 => 0b1001#4 ++ BitVec.ofBool load ++ rt ++ imm8
  | adr rd imm8 => 0b10100#5 ++ rd ++ imm8
  | addSp rd imm8 => 0b10101#5 ++ rd ++ imm8
  | adjustSp sub imm7 => 0b10110000#8 ++ BitVec.ofBool sub ++ imm7
  | cbz nonzero off rn =>
    Branch.zeroHalf (.ofBool nonzero) (off.extractLsb' 5 1) (off.extractLsb' 0 5) rn
  | extend op rm rd => 0b10110010#8 ++ op.code ++ rm ++ rd
  | rev op rm rd => 0b10111010#8 ++ op.code ++ rm ++ rd
  | cps field => 0b10110110011#11 ++ field
  | pushPop pop extra list => 0b1011#4 ++ BitVec.ofBool pop ++ 0b10#2 ++ BitVec.ofBool extra ++ list
  | bkpt imm8 => 0b10111110#8 ++ imm8
  | hint op => 0b10111111#8 ++ op.code ++ 0#4
  | otherHint op => 0b10111111#8 ++ op ++ 0#4
  | it first mask => 0b10111111#8 ++ first ++ mask
  | multiple load rn list => 0b1100#4 ++ BitVec.ofBool load ++ rn ++ list
  | bCond c off => 0b1101#4 ++ Branch.condition c ++ off
  | udf imm8 => 0b11011110#8 ++ imm8
  | svc imm8 => 0b11011111#8 ++ imm8
  | b off => 0b11100#5 ++ off

/-- The encodings that are not taken by another instruction: a load or store multiple has registers,
`IT` has a mask, and the unallocated hints come after the five that have a name. -/
def Proper : Thumb → Prop
  | multiple _ _ list => list ≠ 0
  | it _ mask => mask ≠ 0
  | otherHint op => 5 ≤ op
  | _ => True

def low (r : BitVec 3) : Reg := Fin.ofNat 16 r.toNat

def wide (r : BitVec 4) : Reg := Fin.ofNat 16 r.toNat

def blank (i : Thumb) (kind : OpKind) : Decoded :=
  { Decoded.default 2 (i.encode.setWidth 32) with kind := kind, undefined := false }

def decoded (i : Thumb) : Decoded :=
  match i with
  | shift op imm5 rm rd =>
    { i.blank op.kind with rm := low rm, rd := low rd, imm := imm5.setWidth 32 }
  | addSubReg sub rm rn rd =>
    { i.blank (if sub then .subReg else .addReg) with rm := low rm, rn := low rn, rd := low rd }
  | addSubImm sub imm3 rn rd =>
    { i.blank (if sub then .subImm else .addImm) with
      rn := low rn, rd := low rd, imm := imm3.setWidth 32 }
  | immediate .mov rdn imm8 => { i.blank .movImm with rd := low rdn, imm := imm8.setWidth 32 }
  | immediate .cmp rdn imm8 => { i.blank .cmpImm with rn := low rdn, imm := imm8.setWidth 32 }
  | immediate .add rdn imm8 =>
    { i.blank .addImm with rd := low rdn, rn := low rdn, imm := imm8.setWidth 32 }
  | immediate .sub rdn imm8 =>
    { i.blank .subImm with rd := low rdn, rn := low rdn, imm := imm8.setWidth 32 }
  | alu .rsb rm rdn => { i.blank .neg with rm := low rm, rd := low rdn }
  | alu op rm rdn => { i.blank op.kind with rm := low rm, rd := low rdn, rn := low rdn }
  | high op rm rdn => { i.blank op.kind with rm := wide rm, rd := wide rdn, rn := wide rdn }
  | bx link ns rm => { i.blank (exchange link ns) with rm := wide rm }
  | ldrLiteral rt imm8 => { i.blank .ldrLiteral with rd := low rt, imm := imm8.setWidth 32 <<< 2 }
  | memReg op rm rn rt => { i.blank op.kind with rm := low rm, rn := low rn, rd := low rt }
  | memImm size load imm5 rn rt =>
    { i.blank (size.kind load) with
      rn := low rn, rd := low rt, imm := imm5.setWidth 32 <<< size.scale }
  | memSp load rt imm8 =>
    { i.blank (if load then .ldrImm else .strImm) with
      rn := 13, rd := low rt, imm := imm8.setWidth 32 <<< 2 }
  | adr rd imm8 => { i.blank .adr with rd := low rd, imm := imm8.setWidth 32 <<< 2 }
  | addSp rd imm8 =>
    { i.blank .addSpImm with rd := low rd, rn := 13, imm := imm8.setWidth 32 <<< 2 }
  | adjustSp sub imm7 =>
    { i.blank (if sub then .subSpImm else .addSpImm) with
      rd := 13, rn := 13, imm := imm7.setWidth 32 <<< 2 }
  | cbz nonzero off rn =>
    { i.blank (if nonzero then .cbnz else .cbz) with
      rn := low rn, imm := (off ++ 0#1).setWidth 32 }
  | extend op rm rd => { i.blank op.kind with rm := low rm, rd := low rd }
  | rev op rm rd => { i.blank op.kind with rm := low rm, rd := low rd }
  | cps field => { i.blank .cps with imm := field.setWidth 32 }
  | pushPop pop extra list =>
    { i.blank (if pop then .pop else .push) with imm := (BitVec.ofBool extra ++ list).setWidth 32 }
  | bkpt imm8 => { i.blank .bkpt with imm := imm8.setWidth 32 }
  | hint op => i.blank op.kind
  -- The decoder takes the rest of the hints for an `IT` with an empty mask.
  | otherHint op => { i.blank .it with imm := (op ++ 0#4).setWidth 32 }
  | it first mask => { i.blank .it with imm := (first ++ mask).setWidth 32 }
  | multiple load rn list =>
    { i.blank (if load then .ldm else .stm) with
      rn := low rn, imm := 0x01010000 ||| list.setWidth 32 }
  | bCond c off =>
    { i.blank .bCond with
      cond := (Branch.condition c).setWidth 8, imm := (off ++ 0#1).signExtend 32 }
  | udf imm8 => { i.blank .udf with imm := imm8.setWidth 32 }
  | svc imm8 => { i.blank .svc with imm := imm8.setWidth 32 }
  | b off => { i.blank .bUncond with imm := (off ++ 0#1).signExtend 32 }

end Thumb

end M33mu
