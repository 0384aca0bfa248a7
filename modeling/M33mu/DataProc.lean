import M33mu.Decode
import M33mu.ExecHelpers

/-!
The instructions that read and write general registers and flags and nothing else. Each gives the
registers after it and the flags it writes.
-/

namespace M33mu

abbrev Regs := Reg → Word

structure DataResult where
  r : Regs
  flags : Option FlagWrite

namespace DataProc

open ExecHelpers

def put (r : Regs) (rd : Reg) (v : Word) : DataResult := ⟨Function.update r rd v, none⟩

def putFlags (r : Regs) (rd : Reg) (v : Word) (setflags : Bool) (w : FlagWrite) : DataResult :=
  ⟨Function.update r rd v, if setflags then some w else none⟩

/-- `cpu.r[d.rd] = res`, with N, Z, C and V from an addition. -/
def arith (r : Regs) (rd : Reg) (res : ArithResult) (setflags : Bool) : DataResult :=
  putFlags r rd res.value setflags ⟨.nzcv, res.value, res.carry, res.overflow⟩

/-- `cpu.r[d.rd] = res`, with N, Z and C from a shift and V cleared. -/
def shifted (r : Regs) (rd : Reg) (res : ShiftResult) (setflags : Bool) : DataResult :=
  putFlags r rd res.value setflags ⟨.nzcv, res.value, res.carryOut, false⟩

/-- `cpu.r[d.rd] = res`, with N, Z and C, and V kept. -/
def logical (r : Regs) (rd : Reg) (res : Word) (carry setflags : Bool) : DataResult :=
  putFlags r rd res setflags ⟨.nzc, res, carry, false⟩

def carryFlag (xpsr : Word) : Bool := xpsr.getLsbD 29

def sBit (d : Decoded) : Bool := d.raw.getLsbD 20

/-- The operand comes with a shift, `(d.raw & 0xfe000000u) == 0xea000000u`. -/
def regForm (d : Decoded) : Bool := d.raw &&& 0xfe000000 == 0xea000000

/-- Flags for a 16-bit form outside or at the end of an IT block. -/
def setFlagsLast (d : Decoded) (itRemaining : Byte) : Bool :=
  if d.len = 2 then itRemaining ≤ 1 else d.len = 4 && sBit d && itRemaining ≤ 1

/-- Flags for a 16-bit form outside an IT block. -/
def setFlagsOutside (d : Decoded) (itRemaining : Byte) : Bool :=
  if d.len = 2 then itRemaining = 0 else d.len = 4 && sBit d && itRemaining ≤ 1

def imm12 (d : Decoded) : Word :=
  (d.raw >>> 26 &&& 1) <<< 11 ||| (d.raw >>> 12 &&& 0x7) <<< 8 ||| (d.raw &&& 0xff)

/-- The second operand of `AND`, `EOR`, `ORR` and `BIC`, and the carry out. -/
def logicalRhs (d : Decoded) (r : Regs) (xpsr : Word) (setflags : Bool) : ShiftResult :=
  if regForm d then shiftRegOperand (r d.rm) d.imm xpsr
  else if d.len = 4 then
    ⟨d.imm, if setflags then (thumbExpandImm12C (imm12 d) (carryFlag xpsr)).carryOut
      else carryFlag xpsr⟩
  else ⟨r d.rm, carryFlag xpsr⟩

/-- `AND`, `EOR`, `ORR` and `BIC` by the function `op` of their operands. -/
def logicalOp (op : Word → Word → Word) (lhs : Word) (d : Decoded) (itRemaining : Byte) (r : Regs)
    (xpsr : Word) : DataResult :=
  let setflags := setFlagsLast d itRemaining
  let rhs := logicalRhs d r xpsr setflags
  logical r d.rd (op lhs rhs.value) rhs.carryOut setflags

def andReg (d : Decoded) (itRemaining : Byte) (r : Regs) (xpsr : Word) : DataResult :=
  logicalOp (· &&& ·) (r d.rn) d itRemaining r xpsr

def eorReg (d : Decoded) (itRemaining : Byte) (r : Regs) (xpsr : Word) : DataResult :=
  logicalOp (· ^^^ ·) (r d.rn) d itRemaining r xpsr

/-- `Rn = 1111` is the `MOV` alias. -/
def orrReg (d : Decoded) (itRemaining : Byte) (r : Regs) (xpsr : Word) : DataResult :=
  logicalOp (· ||| ·) (if d.rn = 15 then 0 else r d.rn) d itRemaining r xpsr

def bicReg (d : Decoded) (itRemaining : Byte) (r : Regs) (xpsr : Word) : DataResult :=
  logicalOp (fun lhs rhs => lhs &&& ~~~rhs) (r d.rn) d itRemaining r xpsr

def orn (d : Decoded) (itRemaining : Byte) (r : Regs) (xpsr : Word) : DataResult :=
  let setflags := d.len = 4 && sBit d && itRemaining ≤ 1
  let rhs : ShiftResult :=
    if d.kind = .ornReg then shiftRegOperand (r d.rm) d.imm xpsr
    else ⟨d.imm, if setflags then (thumbExpandImm12C (imm12 d) (carryFlag xpsr)).carryOut
      else carryFlag xpsr⟩
  logical r d.rd (r d.rn ||| ~~~rhs.value) rhs.carryOut setflags

def tstReg (d : Decoded) (r : Regs) (xpsr : Word) : DataResult :=
  let rhs : ShiftResult :=
    if regForm d then shiftRegOperand (r d.rm) d.imm xpsr else ⟨r d.rm, carryFlag xpsr⟩
  ⟨r, some ⟨.nzc, r d.rn &&& rhs.value, rhs.carryOut, false⟩⟩

def tstImm (d : Decoded) (r : Regs) (xpsr : Word) : DataResult :=
  let carry :=
    if d.len = 4 then (thumbExpandImm12C (imm12 d) (carryFlag xpsr)).carryOut else carryFlag xpsr
  ⟨r, some ⟨.nzc, r d.rn &&& d.imm, carry, false⟩⟩

/-- `CMP` and `CMN`: the flags of an addition. -/
def compare (r : Regs) (res : ArithResult) : DataResult :=
  ⟨r, some ⟨.nzcv, res.value, res.carry, res.overflow⟩⟩

/-- `CMP` takes a shifted operand, `CMN` does not. -/
def cmpReg (d : Decoded) (r : Regs) (xpsr : Word) : DataResult :=
  let rhs := if regForm d then (shiftRegOperand (r d.rm) d.imm xpsr).value else r d.rm
  compare r (addWithCarry (r d.rn) (~~~rhs) true)

def addImm (d : Decoded) (itRemaining : Byte) (r : Regs) : DataResult :=
  arith r d.rd (addWithCarry (r d.rn) d.imm false)
    (if d.len = 2 then itRemaining = 0 else sBit d && itRemaining ≤ 1)

def subImm (d : Decoded) (itRemaining : Byte) (r : Regs) : DataResult :=
  arith r d.rd (addWithCarry (r d.rn) (~~~d.imm) true)
    (if d.len = 2 then itRemaining ≤ 1 else sBit d && itRemaining ≤ 1)

def subImmNf (d : Decoded) (r : Regs) : DataResult := put r d.rd (r d.rn - d.imm)

def rsbImm (d : Decoded) (r : Regs) : DataResult :=
  arith r d.rd (addWithCarry d.imm (~~~r d.rn) true) (sBit d)

def rsbReg (d : Decoded) (r : Regs) (xpsr : Word) : DataResult :=
  let rhs := (shiftRegOperand (r d.rm) d.imm xpsr).value
  arith r d.rd (addWithCarry rhs (~~~r d.rn) true) (sBit d)

def addReg (d : Decoded) (itRemaining : Byte) (r : Regs) (xpsr : Word) : DataResult :=
  if regForm d then
    arith r d.rd (addWithCarry (r d.rn) (shiftRegOperand (r d.rm) d.imm xpsr).value false) (sBit d)
  else
    arith r d.rd (addWithCarry (r d.rn) (r d.rm) false)
      (d.len = 2 && d.raw &&& 0xfc00 != 0x4400 && itRemaining ≤ 1)

def subReg (d : Decoded) (itRemaining : Byte) (r : Regs) (xpsr : Word) : DataResult :=
  if regForm d then
    arith r d.rd (addWithCarry (r d.rn) (~~~(shiftRegOperand (r d.rm) d.imm xpsr).value) true)
      (sBit d)
  else arith r d.rd (addWithCarry (r d.rn) (~~~r d.rm) true) (d.len = 2 && itRemaining ≤ 1)

/-- The operand of `ADC` and `SBC`: shifted in the 32-bit form. -/
def carryRhs (d : Decoded) (r : Regs) (xpsr : Word) : Word :=
  if regForm d then (shiftRegOperand (r d.rm) d.imm xpsr).value else r d.rm

def sbcsReg (d : Decoded) (itRemaining : Byte) (r : Regs) (xpsr : Word) : DataResult :=
  arith r d.rd (addWithCarry (r d.rn) (~~~carryRhs d r xpsr) (carryFlag xpsr))
    (if regForm d then sBit d && itRemaining ≤ 1 else itRemaining ≤ 1)

def adcsReg (d : Decoded) (itRemaining : Byte) (r : Regs) (xpsr : Word) : DataResult :=
  arith r d.rd (addWithCarry (r d.rn) (carryRhs d r xpsr) (carryFlag xpsr))
    (setFlagsLast d itRemaining)

def adcImm (d : Decoded) (itRemaining : Byte) (r : Regs) (xpsr : Word) : DataResult :=
  arith r d.rd (addWithCarry (r d.rn) d.imm (carryFlag xpsr))
    (d.len = 4 && sBit d && itRemaining ≤ 1)

def sbcImm (d : Decoded) (r : Regs) (xpsr : Word) : DataResult :=
  arith r d.rd (addWithCarry (r d.rn) (~~~d.imm) (carryFlag xpsr)) (d.kind = .sbcImm)

def neg (d : Decoded) (r : Regs) : DataResult :=
  arith r d.rd (addWithCarry 0 (~~~r d.rm) true) true

def lslReg (d : Decoded) (itRemaining : Byte) (r : Regs) (xpsr : Word) : DataResult :=
  shifted r d.rd (lsl (r d.rn) ((r d.rm).setWidth 8) (carryFlag xpsr)) (setFlagsOutside d itRemaining)

def lsrReg (d : Decoded) (itRemaining : Byte) (r : Regs) (xpsr : Word) : DataResult :=
  shifted r d.rd (lsr (r d.rn) ((r d.rm).setWidth 8) (carryFlag xpsr)) (setFlagsOutside d itRemaining)

def asrReg (d : Decoded) (itRemaining : Byte) (r : Regs) (xpsr : Word) : DataResult :=
  shifted r d.rd (asr (r d.rn) ((r d.rm).setWidth 8) (carryFlag xpsr))
    (d.len = 2 && itRemaining = 0)

def rorReg (d : Decoded) (itRemaining : Byte) (r : Regs) (xpsr : Word) : DataResult :=
  let res := rorRegShiftC (r d.rn) (r d.rm &&& 0xff) (carryFlag xpsr)
  logical r d.rd res.value res.carryOut (itRemaining ≤ 1)

def rorRegNf (d : Decoded) (r : Regs) (xpsr : Word) : DataResult :=
  put r d.rd (rorRegShiftC (r d.rn) (r d.rm &&& 0xff) (carryFlag xpsr)).value

def immShift (d : Decoded) : Nat := (d.imm &&& 0x1f).toNat

def lslImm (d : Decoded) (itRemaining : Byte) (r : Regs) (xpsr : Word) : DataResult :=
  let val := r d.rm
  let sh := immShift d
  shifted r d.rd
    (if sh = 0 then ⟨val, carryFlag xpsr⟩ else ⟨val <<< sh, (val >>> (32 - sh)).getLsbD 0⟩)
    (setFlagsLast d itRemaining)

def lsrImm (d : Decoded) (itRemaining : Byte) (r : Regs) : DataResult :=
  let val := r d.rm
  let sh := immShift d
  shifted r d.rd
    (if sh = 0 then ⟨0, val.getLsbD 31⟩ else ⟨val >>> sh, (val >>> (sh - 1)).getLsbD 0⟩)
    (setFlagsOutside d itRemaining)

def asrImm (d : Decoded) (itRemaining : Byte) (r : Regs) : DataResult :=
  let val := r d.rm
  let sh := immShift d
  shifted r d.rd
    (if sh = 0 then ⟨if val.getLsbD 31 then 0xffffffff else 0, val.getLsbD 31⟩
    else ⟨val.sshiftRight sh, (val >>> (sh - 1)).getLsbD 0⟩)
    (setFlagsOutside d itRemaining)

def rorImm (d : Decoded) (itRemaining : Byte) (r : Regs) (xpsr : Word) : DataResult :=
  shifted r d.rd (shiftCImm (r d.rm) 3 ((d.imm &&& 0x1f).setWidth 8) (carryFlag xpsr))
    (setFlagsLast d itRemaining)

def mvnImm (d : Decoded) (r : Regs) (xpsr : Word) : DataResult :=
  let imm32 := thumbExpandImm12C d.imm (carryFlag xpsr)
  logical r d.rd (~~~imm32.value) imm32.carryOut (sBit d)

/-- The 32-bit form takes its registers and shift from the raw instruction. -/
def mvnReg (d : Decoded) (itRemaining : Byte) (r : Regs) (xpsr : Word) : DataResult :=
  if d.len = 2 then
    let res := ~~~r d.rm
    putFlags r d.rd res (itRemaining ≤ 1) ⟨.nz, res, false, false⟩
  else
    let rd := Fin.ofNat 16 (d.raw >>> 8).toNat
    let rm := Fin.ofNat 16 d.raw.toNat
    let imm5 := ((d.raw >>> 12 &&& 0x7) <<< 2 ||| (d.raw >>> 6 &&& 0x3)).setWidth 8
    let res := shiftCImm (r rm) ((d.raw >>> 4 &&& 0x3).setWidth 8) imm5 (carryFlag xpsr)
    logical r rd (~~~res.value) res.carryOut (sBit d)

def mul (d : Decoded) (r : Regs) : DataResult :=
  let res := r d.rd * r d.rm
  putFlags r d.rd res true ⟨.nz, res, false, false⟩

def mulW (d : Decoded) (r : Regs) : DataResult :=
  let res := r d.rn * r d.rm
  putFlags r d.rd res (d.imm.getLsbD 0) ⟨.nz, res, false, false⟩

/-- `UXTB`, `SXTB`, `UXTH` and `SXTH` by the function that extends the rotated value. -/
def extend (ext : Word → Word) (d : Decoded) (r : Regs) : DataResult :=
  let rot := immShift d
  let val := ext (if rot = 0 then r d.rm else rotate (r d.rm) rot)
  put r d.rd (if d.imm.getLsbD 31 ∧ d.rn ≠ 15 then r d.rn + val else val)

def uxtb : Decoded → Regs → DataResult := extend (· &&& 0xff)

def sxtb : Decoded → Regs → DataResult := extend fun v => (v.setWidth 8).signExtend 32

def sxth : Decoded → Regs → DataResult := extend fun v => (v.setWidth 16).signExtend 32

def uxth : Decoded → Regs → DataResult := extend (· &&& 0xffff)

/-- `cpu.r[d.rd] = lo; cpu.r[d.ra] = hi;` -/
def putLong (d : Decoded) (r : Regs) (res : Word × Word) : DataResult :=
  ⟨Function.update (Function.update r d.rd res.1) d.ra res.2, none⟩

/-- The long product, added to the destination pair by `UMLAL` and `SMLAL`. -/
def mulLong (prod : Word × Word) (accumulate : Bool) (d : Decoded) (r : Regs) : DataResult :=
  putLong d r
    (if accumulate then split64 (join64 (r d.ra) (r d.rd) + join64 prod.2 prod.1) else prod)

def umaal (d : Decoded) (r : Regs) : DataResult :=
  putLong d r (split64 ((r d.rn).setWidth 64 * (r d.rm).setWidth 64 + (r d.rd).setWidth 64 +
    (r d.ra).setWidth 64))

def halfOf (v : Word) (top : Bool) : Word :=
  ((if top then v >>> 16 else v).setWidth 16).signExtend 32

def smla (d : Decoded) (r : Regs) : DataResult :=
  put r d.rd
    (halfOf (r d.rn) (d.imm.getLsbD 1) * halfOf (r d.rm) (d.imm.getLsbD 0) + r d.ra)

/-- The data-processing instructions; `d.kind` is one of those named here. -/
def dataProc (d : Decoded) (itRemaining : Byte) (pcFetch : Word) (r : Regs) (xpsr : Word) :
    DataResult :=
  match d.kind with
  | .movImm => put r d.rd d.imm
  | .movw => put r d.rd (d.imm &&& 0xffff)
  | .movt => put r d.rd ((r d.rd &&& 0x0000ffff) ||| (d.imm &&& 0xffff) <<< 16)
  | .rsbImm => rsbImm d r
  | .addReg => addReg d itRemaining r xpsr
  | .lslReg => lslReg d itRemaining r xpsr
  | .lslImm => lslImm d itRemaining r xpsr
  | .lsrReg => lsrReg d itRemaining r xpsr
  | .lsrImm => lsrImm d itRemaining r
  | .rorImm => rorImm d itRemaining r xpsr
  | .asrReg => asrReg d itRemaining r xpsr
  | .asrImm => asrImm d itRemaining r
  | .rorReg => rorReg d itRemaining r xpsr
  | .rorRegNf => rorRegNf d r xpsr
  | .neg => neg d r
  | .sbcsReg => sbcsReg d itRemaining r xpsr
  | .adcsReg => adcsReg d itRemaining r xpsr
  | .adcImm => adcImm d itRemaining r xpsr
  | .andReg => andReg d itRemaining r xpsr
  | .eorReg => eorReg d itRemaining r xpsr
  | .tstReg => tstReg d r xpsr
  | .tstImm => tstImm d r xpsr
  | .orrReg => orrReg d itRemaining r xpsr
  | .ornReg | .ornImm => orn d itRemaining r xpsr
  | .bicReg => bicReg d itRemaining r xpsr
  | .mul => mul d r
  | .rev => put r d.rd (bswap32 (r d.rm))
  | .rev16 => put r d.rd (rev16 (r d.rm))
  | .revsh => put r d.rd (revsh (r d.rm))
  | .umull => mulLong (umul64 (r d.rn) (r d.rm)) false d r
  | .umlal => mulLong (umul64 (r d.rn) (r d.rm)) true d r
  | .umaal => umaal d r
  | .smull => mulLong (smul64 (r d.rn) (r d.rm)) false d r
  | .smlal => mulLong (smul64 (r d.rn) (r d.rm)) true d r
  | .mla => put r d.rd (r d.rn * r d.rm + r d.ra)
  | .smla => smla d r
  | .mls => put r d.rd (r d.ra - r d.rn * r d.rm)
  | .mulW => mulW d r
  | .uxtb => uxtb d r
  | .sxtb => sxtb d r
  | .sxth => sxth d r
  | .uxth => uxth d r
  | .mvnImm => mvnImm d r xpsr
  | .mvnReg => mvnReg d itRemaining r xpsr
  | .subReg => subReg d itRemaining r xpsr
  | .rsbReg => rsbReg d r xpsr
  | .adr => put r d.rd (adrValue pcFetch d.imm)
  | .cmpImm => compare r (addWithCarry (r d.rn) (~~~d.imm) true)
  | .cmnImm => compare r (addWithCarry (r d.rn) d.imm false)
  | .sbcImm | .sbcImmNf => sbcImm d r xpsr
  | .cmpReg => cmpReg d r xpsr
  | .cmnReg => compare r (addWithCarry (r d.rn) (r d.rm) false)
  | .clz => put r d.rd (clz (r d.rm))
  | .rbit => put r d.rd (rbit (r d.rm))
  | .tt | .ttt | .tta | .ttat => put r d.rd 0
  | .addImm => addImm d itRemaining r
  | .subImm => subImm d itRemaining r
  | .subImmNf => subImmNf d r
  | _ => ⟨r, none⟩

end DataProc

end M33mu
