import M33mu.Types

namespace M33mu

inductive OpKind
  | undefined | nop | it | bCond | bUncond | bl | bx | blx | cbz | cbnz | adr | movImm | movReg
  | mvnReg | addImm | addReg | subImm | subReg | cmpImm | cmpReg | andReg | eorReg | orrReg
  | bicReg | tstReg | uxtb | sxtb | sxth | uxth | lslImm | lslReg | lsrImm | lsrReg | asrImm
  | asrReg | rorReg | rorImm | neg | addSpImm | subSpImm | ldrImm | strImm | ldrReg | strReg
  | ldrPostImm | ldrPreImm | ldrbPostImm | ldrbPreImm | strbPostImm | strbPreImm | strPostImm
  | strPreImm | ldrd | strd | ldrLiteral | ldm | stm | ldrbImm | strbImm | strbReg | ldrbReg
  | ldrhImm | ldrhPreImm | ldrhPostImm | strhImm | strhPreImm | strhPostImm | strhReg | ldrhReg
  | ldrsbReg | ldrsbImm | ldrshReg | ldrshImm | clz | rbit | push | pop | adcsReg | adcImm
  | sbcsReg | subImmNf | rev | rev16 | revsh | mul | wfi | wfe | sev | yield | svc | bkpt | udf
  | bUncondWide | bCondWide | movw | movt | ubfx | sbfx | bfi | bfc | tbb | tbh | ldrex | strex
  | clrex | tstImm | mrs | msr | mvnImm | cmnImm | cmnReg | cps | sg | bxns | blxns | tt | ttt
  | tta | ttat | udiv | sdiv | umull | umlal | umaal | smull | smlal | smla | mla | mls | mulW
  | ornReg | ornImm | rsbImm | rsbReg | rorRegNf | sbcImm | sbcImmNf | dsb | dmb | isb
  deriving DecidableEq, Repr

structure FetchResult where
  insn : Word
  len : Byte
  fault : Bool
  faultAddr : Word
  pcFetch : Word
  deriving DecidableEq, Repr

structure Decoded where
  kind : OpKind
  cond : Byte
  rd : Reg
  rn : Reg
  rm : Reg
  /-- The second destination or source of long multiplications. -/
  ra : Reg
  imm : Word
  len : Byte
  raw : Word
  undefined : Bool
  deriving DecidableEq, Repr

namespace Decoded

def default (len : Byte) (raw : Word) : Decoded where
  kind := .undefined
  cond := 14
  rd := 0
  rn := 0
  rm := 0
  ra := 0
  imm := 0
  len := len
  raw := raw
  undefined := true

/-- `d->kind = kind; d->undefined = MM_FALSE; return MM_TRUE;` -/
def is (d : Decoded) (kind : OpKind) : Bool × Decoded :=
  (true, { d with kind := kind, undefined := false })

end Decoded

namespace Decode

def reg (hw1 : Half) (lo n : Nat) : Reg := Fin.ofNat 16 (hw1.toNat >>> lo % 2 ^ n)

def imm (hw1 : Half) (lo n : Nat) : Word := BitVec.ofNat 32 (hw1.toNat >>> lo % 2 ^ n)

def control (hw1 : Half) (d : Decoded) : Bool × Decoded :=
  if hw1 &&& 0xff00 = 0xde00 then { d with imm := imm hw1 0 8 }.is .udf
  else if hw1 &&& 0xff00 = 0xbe00 then { d with imm := imm hw1 0 8 }.is .bkpt
  else if hw1 &&& 0xff00 = 0xdf00 then { d with imm := imm hw1 0 8 }.is .svc
  else if hw1 = 0xbf00 then d.is .nop
  else if hw1 = 0xbf10 then d.is .yield
  else if hw1 = 0xbf20 then d.is .wfe
  else if hw1 = 0xbf30 then d.is .wfi
  else if hw1 = 0xbf40 then d.is .sev
  else if hw1 &&& 0xffe0 = 0xb660 then { d with imm := imm hw1 0 5 }.is .cps
  else if hw1 &&& 0xff00 = 0xbf00 then { d with imm := imm hw1 0 8 }.is .it
  else (false, d)

def branchCond (hw1 : Half) (d : Decoded) : Bool × Decoded :=
  if hw1 &&& 0xf000 = 0xd000 ∧ hw1 >>> 8 &&& 0x0f ≠ 15 then
    let off := imm hw1 0 8 <<< 1
    { d with
      cond := (hw1 >>> 8 &&& 0x0f).setWidth 8
      imm := if off.getLsbD 8 then off ||| 0xfffffe00 else off }.is .bCond
  else (false, d)

def branchUncond (hw1 : Half) (d : Decoded) : Bool × Decoded :=
  if hw1 &&& 0xf800 = 0xe000 then
    let off := imm hw1 0 11 <<< 1
    { d with imm := if off.getLsbD 11 then off ||| 0xfffff000 else off }.is .bUncond
  else (false, d)

def branchMisc (hw1 : Half) (d : Decoded) : Bool × Decoded :=
  if hw1 &&& 0xf500 = 0xb100 then
    { d with rn := reg hw1 0 3, imm := imm hw1 9 1 <<< 6 ||| imm hw1 3 5 <<< 1 }.is
      (if hw1.getLsbD 11 then .cbnz else .cbz)
  else if hw1 &&& 0xff87 = 0x4704 then { d with rm := reg hw1 3 4 }.is .bxns
  else if hw1 &&& 0xff87 = 0x4784 then { d with rm := reg hw1 3 4 }.is .blxns
  else if hw1 &&& 0xff87 = 0x4700 then { d with rm := reg hw1 3 4 }.is .bx
  else if hw1 &&& 0xff87 = 0x4780 then { d with rm := reg hw1 3 4 }.is .blx
  else (false, d)

def extRev (hw1 : Half) (d : Decoded) : Bool × Decoded :=
  let d' := { d with rd := reg hw1 0 3, rm := reg hw1 3 3 }
  if hw1 &&& 0xffc0 = 0xb2c0 then { d' with imm := 0 }.is .uxtb
  else if hw1 &&& 0xffc0 = 0xb240 then { d' with imm := 0 }.is .sxtb
  else if hw1 &&& 0xffc0 = 0xb200 then d'.is .sxth
  else if hw1 &&& 0xffc0 = 0xb280 then d'.is .uxth
  else if hw1 &&& 0xffc0 = 0xba00 then d'.is .rev
  else if hw1 &&& 0xffc0 = 0xba40 then d'.is .rev16
  else if hw1 &&& 0xffc0 = 0xbac0 then d'.is .revsh
  else (false, d)

/-- ADD, CMP and MOV of high registers; the fourth operation is left to `BX` and writes the
register fields without decoding anything. -/
def highReg (hw1 : Half) (d : Decoded) : Bool × Decoded :=
  if hw1 &&& 0xfc00 = 0x4400 then
    let rd := Fin.ofNat 16 (hw1.toNat % 8 + (hw1.toNat >>> 7 % 2) * 8)
    let d := { d with rm := reg hw1 3 4, rd := rd, rn := rd }
    match hw1.toNat >>> 8 % 4 with
    | 0 => d.is .addReg
    | 1 => d.is .cmpReg
    | 2 => d.is .movReg
    | _ => (false, d)
  else (false, d)

def aluKind (opcode : Nat) : OpKind :=
  match opcode with
  | 0x0 => .andReg
  | 0x1 => .eorReg
  | 0x2 => .lslReg
  | 0x3 => .lsrReg
  | 0x4 => .asrReg
  | 0x5 => .adcsReg
  | 0x6 => .sbcsReg
  | 0x7 => .rorReg
  | 0x8 => .tstReg
  | 0x9 => .neg
  | 0xa => .cmpReg
  | 0xb => .cmnReg
  | 0xc => .orrReg
  | 0xd => .mul
  | 0xe => .bicReg
  | _ => .mvnReg

/-- The rest of `decode_16_data_proc`. -/
def lowReg (hw1 : Half) (d : Decoded) : Bool × Decoded :=
  let rdn := reg hw1 8 3
  let imm8 := imm hw1 0 8
  if hw1 &&& 0xf800 = 0x2000 then { d with rd := rdn, imm := imm8 }.is .movImm
  else if hw1 &&& 0xf800 = 0x2800 then { d with rn := rdn, imm := imm8 }.is .cmpImm
  else if hw1 &&& 0xf800 = 0x3000 then { d with rd := rdn, rn := rdn, imm := imm8 }.is .addImm
  else if hw1 &&& 0xf800 = 0x3800 then { d with rd := rdn, rn := rdn, imm := imm8 }.is .subImm
  else if hw1 &&& 0xf800 = 0x1800 then
    let d := { d with rn := reg hw1 3 3, rd := reg hw1 0 3 }
    if hw1.getLsbD 10 then
      { d with imm := imm hw1 6 3 }.is (if hw1.getLsbD 9 then .subImm else .addImm)
    else { d with rm := reg hw1 6 3 }.is (if hw1.getLsbD 9 then .subReg else .addReg)
  else if hw1 &&& 0xfc00 = 0x4000 then
    let opcode := hw1.toNat >>> 6 % 16
    let d := { d with rm := reg hw1 3 3, rd := reg hw1 0 3 }
    if opcode = 0x9 then d.is .neg else { d with rn := d.rd }.is (aluKind opcode)
  else if hw1 &&& 0xe000 = 0 ∧ hw1 >>> 11 &&& 0x3 ≠ 3 then
    { d with rm := reg hw1 3 3, rd := reg hw1 0 3, imm := imm hw1 6 5 }.is
      (match hw1.toNat >>> 11 % 4 with
      | 0 => .lslImm
      | 1 => .lsrImm
      | _ => .asrImm)
  else (false, d)

def loadstore (hw1 : Half) (d : Decoded) : Bool × Decoded :=
  let low := { d with rn := reg hw1 3 3, rd := reg hw1 0 3 }
  let lowReg := { low with rm := reg hw1 6 3 }
  if hw1 &&& 0xf800 = 0x4800 then
    { d with rd := reg hw1 8 3, imm := imm hw1 0 8 <<< 2 }.is .ldrLiteral
  else if hw1 &&& 0xf800 = 0x6000 ∨ hw1 &&& 0xf800 = 0x6800 then
    { low with imm := imm hw1 6 5 <<< 2 }.is (if hw1.getLsbD 11 then .ldrImm else .strImm)
  else if hw1 &&& 0xf800 = 0x9000 ∨ hw1 &&& 0xf800 = 0x9800 then
    { d with rn := 13, rd := reg hw1 8 3, imm := imm hw1 0 8 <<< 2 }.is
      (if hw1.getLsbD 11 then .ldrImm else .strImm)
  else if hw1 &&& 0xf000 = 0x7000 then
    { low with imm := imm hw1 6 5 }.is (if hw1.getLsbD 11 then .ldrbImm else .strbImm)
  else if hw1 &&& 0xf000 = 0x8000 then
    { low with imm := imm hw1 6 5 <<< 1 }.is (if hw1.getLsbD 11 then .ldrhImm else .strhImm)
  else if hw1 &&& 0xfe00 = 0x5000 ∨ hw1 &&& 0xfe00 = 0x5800 then
    lowReg.is (if hw1.getLsbD 11 then .ldrReg else .strReg)
  else if hw1 &&& 0xfe00 = 0x5200 ∨ hw1 &&& 0xfe00 = 0x5a00 then
    lowReg.is (if hw1 &&& 0xfe00 = 0x5a00 then .ldrhReg else .strhReg)
  else if hw1 &&& 0xfe00 = 0x5400 then lowReg.is .strbReg
  else if hw1 &&& 0xfe00 = 0x5c00 then lowReg.is .ldrbReg
  else if hw1 &&& 0xfe00 = 0x5600 then lowReg.is .ldrsbReg
  else if hw1 &&& 0xfe00 = 0x5e00 then lowReg.is .ldrshReg
  else (false, d)

def stackMisc (hw1 : Half) (d : Decoded) : Bool × Decoded :=
  let sp := { d with rd := 13, rn := 13, imm := imm hw1 0 7 <<< 2 }
  if hw1 &&& 0xf800 = 0xa000 then
    { d with rd := reg hw1 8 3, imm := imm hw1 0 8 <<< 2 }.is .adr
  else if hw1 &&& 0xf800 = 0xa800 then
    { d with rd := reg hw1 8 3, rn := 13, imm := imm hw1 0 8 <<< 2 }.is .addSpImm
  else if hw1 &&& 0xff80 = 0xb000 then sp.is .addSpImm
  else if hw1 &&& 0xff80 = 0xb080 then sp.is .subSpImm
  else if hw1 &&& 0xf600 = 0xb400 then
    { d with imm := imm hw1 0 9 }.is (if hw1.getLsbD 11 then .pop else .push)
  else (false, d)

def stmLdm (hw1 : Half) (d : Decoded) : Bool × Decoded :=
  if hw1 &&& 0xf000 = 0xc000 ∧ hw1 &&& 0xff ≠ 0 then
    { d with rn := reg hw1 8 3, imm := 1#32 <<< 24 ||| 1#32 <<< 16 ||| imm hw1 0 8 }.is
      (if hw1.getLsbD 11 then .ldm else .stm)
  else (false, d)

def firstOf (fs : List (Half → Decoded → Bool × Decoded)) (hw1 : Half) (d : Decoded) : Decoded :=
  match fs with
  | [] => d
  | f :: fs =>
    match f hw1 d with
    | (true, d) => d
    | (false, d) => firstOf fs hw1 d

def decode16 (hw1 : Half) : Decoded :=
  let decoders := match hw1.toNat >>> 12 with
    | 0x0 | 0x1 | 0x2 | 0x3 => [highReg, lowReg]
    | 0x4 | 0x5 => [branchMisc, highReg, lowReg, extRev, loadstore]
    | 0x6 | 0x7 | 0x8 | 0x9 => [loadstore]
    | 0xa | 0xb => [stackMisc, branchMisc, extRev]
    | 0xc => [stmLdm]
    | 0xd => [branchCond]
    | 0xe => [branchUncond]
    | _ => []
  firstOf (control :: decoders) hw1 (.default 2 (hw1.setWidth 32))

/-- `mm_decode_t32`, over the decoder of the 32-bit instructions. -/
def decodeT32 (decode32 : Word → Decoded) (fetch : FetchResult) : Decoded :=
  if fetch.fault ∨ fetch.len = 0 then .default fetch.len fetch.insn
  else if fetch.len = 2 then decode16 (fetch.insn.setWidth 16)
  else decode32 fetch.insn

end Decode

end M33mu
