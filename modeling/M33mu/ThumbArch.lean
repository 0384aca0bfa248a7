import M33mu.Lib.ByteValues
import M33mu.Shifts
import M33mu.Thumb

namespace M33mu

open Lib

structure Core where
  r : Regs
  flags : Flags
  /-- The address of the instruction that is next. -/
  pc : Word
  mem : ByteMem 32

structure MemAccess where
  reads : Word → Nat → Bool
  writes : Word → Nat → Bool

/-- `AddWithCarry`. -/
def armAdd (x y : Word) (carry : Bool) : Alu :=
  let unsigned := x.toNat + y.toNat + carry.toNat
  let signed := x.toInt + y.toInt + carry.toNat
  let res := BitVec.ofNat 32 unsigned
  ⟨res, some (res.toNat ≠ unsigned), some (res.toInt ≠ signed)⟩

def armShifted (x : Word) (type : ShiftType) (n : Nat) (carry : Bool) : Alu :=
  let res := armShift x type n carry
  ⟨res.value, if n = 0 then none else some res.carryOut, none⟩

namespace Core

def next (s : Core) : Core := { s with pc := s.pc + 2 }

def jump (s : Core) (a : Word) : Core := { s with pc := a &&& ~~~1#32 }

def set (s : Core) (rd : Reg) (v : Word) : Core := { s with r := Function.update s.r rd v }

def alu (s : Core) (rd : Option Reg) (a : Alu) : Core :=
  { s with
    r := match rd with
      | some rd => Function.update s.r rd a.value
      | none => s.r
    flags := a.flags s.flags }

def load (acc : MemAccess) (s : Core) (rt : Reg) (a : Word) (n : Nat) (ext : Word → Word) :
    Option Core :=
  if acc.reads a n then some (s.set rt (ext (s.mem.value a n))).next else none

def store (acc : MemAccess) (s : Core) (a : Word) (n : Nat) (v : Word) : Option Core :=
  if acc.writes a n then some { s with mem := s.mem.putValue a v n }.next else none

end Core

namespace Thumb

def ShiftOp.type : ShiftOp → ShiftType
  | lsl => .lsl
  | lsr => .lsr
  | asr => .asr

/-- `DecodeImmShift`: the right shifts go by 32 instead of zero. -/
def ShiftOp.amount (op : ShiftOp) (imm5 : BitVec 5) : Nat :=
  match op with
  | lsl => imm5.toNat
  | lsr | asr => if imm5 = 0 then 32 else imm5.toNat

def addSub (sub : Bool) (x y : Word) : Alu := armAdd x (if sub then ~~~y else y) sub

def AluOp.arm (op : AluOp) (x y : Word) (carry : Bool) : Alu :=
  let amount := (y.setWidth 8).toNat
  match op with
  | and | tst => .plain (x &&& y)
  | eor => .plain (x ^^^ y)
  | lsl => armShifted x .lsl amount carry
  | lsr => armShifted x .lsr amount carry
  | asr => armShifted x .asr amount carry
  | adc => armAdd x y carry
  | sbc => armAdd x (~~~y) carry
  | ror => armShifted x .ror amount carry
  | rsb => armAdd (~~~y) 0 true
  | cmp => armAdd x (~~~y) true
  | cmn => armAdd x y false
  | orr => .plain (x ||| y)
  | mul => .plain (x * y)
  | bic => .plain (x &&& ~~~y)
  | mvn => .plain (~~~y)

def AluOp.compares : AluOp → Bool
  | tst | cmp | cmn => true
  | _ => false

def ExtendOp.arm (op : ExtendOp) (x : Word) : Word :=
  match op with
  | sxth => (x.setWidth 16).signExtend 32
  | sxtb => (x.setWidth 8).signExtend 32
  | uxth => (x.setWidth 16).setWidth 32
  | uxtb => (x.setWidth 8).setWidth 32

def RevOp.arm (op : RevOp) (x : Word) : Word :=
  let byte (k : Nat) : Byte := x.extractLsb' (8 * k) 8
  match op with
  | rev => byte 0 ++ byte 1 ++ byte 2 ++ byte 3
  | rev16 => byte 2 ++ byte 3 ++ byte 0 ++ byte 1
  | revsh => (byte 0 ++ byte 1).signExtend 32

def operation (i : Thumb) (r : Regs) (carry : Bool) : Option (Option Reg × Alu) :=
  match i with
  | shift op imm5 rm rd =>
    some (some (low rd), armShifted (r (low rm)) op.type (op.amount imm5) carry)
  | addSubReg sub rm rn rd => some (some (low rd), addSub sub (r (low rn)) (r (low rm)))
  | addSubImm sub imm3 rn rd => some (some (low rd), addSub sub (r (low rn)) (imm3.setWidth 32))
  | immediate .mov rdn imm8 => some (some (low rdn), .plain (imm8.setWidth 32))
  | immediate .cmp rdn imm8 => some (none, addSub true (r (low rdn)) (imm8.setWidth 32))
  | immediate .add rdn imm8 =>
    some (some (low rdn), addSub false (r (low rdn)) (imm8.setWidth 32))
  | immediate .sub rdn imm8 => some (some (low rdn), addSub true (r (low rdn)) (imm8.setWidth 32))
  | alu op rm rdn =>
    some (if op.compares then none else some (low rdn), op.arm (r (low rdn)) (r (low rm)) carry)
  | high .cmp rm rdn =>
    if rm = 15 ∨ rdn = 15 then none else some (none, addSub true (r (wide rdn)) (r (wide rm)))
  | _ => none

def MemOp.run (op : MemOp) (acc : MemAccess) (s : Core) (rt : Reg) (a : Word) : Option Core :=
  match op with
  | str => s.store acc a 4 (s.r rt)
  | strh => s.store acc a 2 (s.r rt)
  | strb => s.store acc a 1 (s.r rt)
  | ldrsb => s.load acc rt a 1 fun v => (v.setWidth 8).signExtend 32
  | ldr => s.load acc rt a 4 id
  | ldrh => s.load acc rt a 2 id
  | ldrb => s.load acc rt a 1 id
  | ldrsh => s.load acc rt a 2 fun v => (v.setWidth 16).signExtend 32

def Size.op : Size → Bool → MemOp
  | word, load => if load then .ldr else .str
  | byte, load => if load then .ldrb else .strb
  | half, load => if load then .ldrh else .strh

/-- From here on the addresses are never for code: those of devices and of the system. -/
def firstDevice : Word := 0xA0000000

def Target (a : Word) : Prop := a.getLsbD 0 = true ∧ a < firstDevice

instance (a : Word) : Decidable (Target a) := inferInstanceAs (Decidable (_ ∧ _))

def pcRead (s : Core) : Word := s.pc + 4

def pcAligned (s : Core) : Word := pcRead s &&& ~~~3#32

def act (acc : MemAccess) (i : Thumb) (s : Core) : Option Core :=
  match i with
  | high .add rm rdn =>
    if rm = 15 ∨ rdn = 15 ∨ rdn = 13 then none
    else some (s.set (wide rdn) (s.r (wide rdn) + s.r (wide rm))).next
  | high .mov rm rdn =>
    if rm = 15 ∨ rdn = 15 ∨ rdn = 13 then none else some (s.set (wide rdn) (s.r (wide rm))).next
  | bx link false rm =>
    let target := s.r (wide rm)
    if rm = 15 ∨ ¬ Target target then none
    else some ((if link then s.set 14 ((s.pc + 2) ||| 1) else s).jump target)
  | ldrLiteral rt imm8 => s.load acc (low rt) (pcAligned s + imm8.setWidth 32 <<< 2) 4 id
  | memReg op rm rn rt => op.run acc s (low rt) (s.r (low rn) + s.r (low rm))
  | memImm size load imm5 rn rt =>
    (size.op load).run acc s (low rt) (s.r (low rn) + imm5.setWidth 32 <<< size.scale)
  | memSp load rt imm8 =>
    (Size.word.op load).run acc s (low rt) (s.r 13 + imm8.setWidth 32 <<< 2)
  | adr rd imm8 => some (s.set (low rd) (pcAligned s + imm8.setWidth 32 <<< 2)).next
  | addSp rd imm8 => some (s.set (low rd) (s.r 13 + imm8.setWidth 32 <<< 2)).next
  | cbz nonzero off rn =>
    some (if (s.r (low rn) == 0) != nonzero then s.jump (pcRead s + (off ++ 0#1).setWidth 32)
      else s.next)
  | extend op rm rd => some (s.set (low rd) (op.arm (s.r (low rm)))).next
  | rev op rm rd => some (s.set (low rd) (op.arm (s.r (low rm)))).next
  | hint .nop | hint .yield => some s.next
  | bCond c off =>
    some (if Branch.holds c s.flags then s.jump (pcRead s + (off ++ 0#1).signExtend 32)
      else s.next)
  | b off => some (s.jump (pcRead s + (off ++ 0#1).signExtend 32))
  | _ => none

section

variable {acc : MemAccess} {s : Core}

theorem act_highAdd (rm rdn : BitVec 4) : (high .add rm rdn).act acc s =
    if rm = 15 ∨ rdn = 15 ∨ rdn = 13 then none
    else some (s.set (wide rdn) (s.r (wide rdn) + s.r (wide rm))).next := rfl

theorem act_highMov (rm rdn : BitVec 4) : (high .mov rm rdn).act acc s =
    if rm = 15 ∨ rdn = 15 ∨ rdn = 13 then none
    else some (s.set (wide rdn) (s.r (wide rm))).next := rfl

theorem act_bx (link : Bool) (rm : BitVec 4) : (bx link false rm).act acc s =
    if rm = 15 ∨ ¬ Target (s.r (wide rm)) then none
    else some ((if link then s.set 14 ((s.pc + 2) ||| 1) else s).jump (s.r (wide rm))) := rfl

theorem act_memReg (op : MemOp) (rm rn rt : BitVec 3) : (memReg op rm rn rt).act acc s =
    op.run acc s (low rt) (s.r (low rn) + s.r (low rm)) := rfl

theorem act_memImm (size : Size) (load : Bool) (imm5 : BitVec 5) (rn rt : BitVec 3) :
    (memImm size load imm5 rn rt).act acc s =
      (size.op load).run acc s (low rt) (s.r (low rn) + imm5.setWidth 32 <<< size.scale) := rfl

theorem act_memSp (load : Bool) (rt : BitVec 3) (imm8 : BitVec 8) :
    (memSp load rt imm8).act acc s =
      (Size.word.op load).run acc s (low rt) (s.r 13 + imm8.setWidth 32 <<< 2) := rfl

theorem act_bCond (c : Fin 14) (off : BitVec 8) : (bCond c off).act acc s =
    some (if Branch.holds c s.flags then s.jump (pcRead s + (off ++ 0#1).signExtend 32)
      else s.next) := rfl

end

def run (acc : MemAccess) (i : Thumb) (s : Core) : Option Core :=
  match i.operation s.r s.flags.c with
  | some (rd, a) => some (s.alu rd a).next
  | none => i.act acc s

end Thumb

def Core.step (acc : MemAccess) (prog : Word → Option Thumb) (s : Core) : Option Core :=
  (prog s.pc).bind fun i => i.run acc s

end M33mu
