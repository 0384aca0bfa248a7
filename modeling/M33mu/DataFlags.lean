import M33mu.DataProc
import M33mu.ItState

namespace M33mu

open ExecHelpers

/-- What an instruction computes: its result, and a carry and an overflow if an adder or a shifter
gives them. -/
structure Alu where
  value : Word
  carry : Option Bool
  overflow : Option Bool
  deriving DecidableEq, Repr

namespace Alu

def sum (res : ArithResult) : Alu := ⟨res.value, some res.carry, some res.overflow⟩

def shift (value : Word) (carry : Bool) : Alu := ⟨value, some carry, none⟩

def plain (value : Word) : Alu := ⟨value, none, none⟩

def flags (a : Alu) (old : Flags) : Flags :=
  ⟨a.value.getLsbD 31, a.value = 0, a.carry.getD old.c, a.overflow.getD old.v⟩

theorem not_n_and_z (a : Alu) (old : Flags) :
    ¬ ((a.flags old).n = true ∧ (a.flags old).z = true) := by
  rintro ⟨n, z⟩
  have zero : a.value = 0 := of_decide_eq_true z
  have sign : a.value.getLsbD 31 = true := n
  rw [zero] at sign
  exact absurd sign (by decide)

end Alu

namespace DataProc

def operand (d : Decoded) (r : Regs) (xpsr : Word) : ShiftResult := logicalRhs d r xpsr true

def ornOperand (d : Decoded) (r : Regs) (xpsr : Word) : ShiftResult :=
  if d.kind = .ornReg then shiftRegOperand (r d.rm) d.imm xpsr
  else ⟨d.imm, (thumbExpandImm12C (imm12 d) (carryFlag xpsr)).carryOut⟩

def immShifted (d : Decoded) (r : Regs) (xpsr : Word) : ShiftResult :=
  let val := r d.rm
  let sh := immShift d
  match d.kind with
  | .lslImm =>
    if sh = 0 then ⟨val, carryFlag xpsr⟩ else ⟨val <<< sh, (val >>> (32 - sh)).getLsbD 0⟩
  | .lsrImm =>
    if sh = 0 then ⟨0, val.getLsbD 31⟩ else ⟨val >>> sh, (val >>> (sh - 1)).getLsbD 0⟩
  | .asrImm =>
    if sh = 0 then ⟨if val.getLsbD 31 then 0xffffffff else 0, val.getLsbD 31⟩
    else ⟨val.sshiftRight sh, (val >>> (sh - 1)).getLsbD 0⟩
  | _ => shiftCImm val 3 ((d.imm &&& 0x1f).setWidth 8) (carryFlag xpsr)

def regShifted (d : Decoded) (r : Regs) (xpsr : Word) : ShiftResult :=
  let amount := (r d.rm).setWidth 8
  match d.kind with
  | .lslReg => lsl (r d.rn) amount (carryFlag xpsr)
  | .lsrReg => lsr (r d.rn) amount (carryFlag xpsr)
  | .asrReg => asr (r d.rn) amount (carryFlag xpsr)
  | _ => rorRegShiftC (r d.rn) (r d.rm &&& 0xff) (carryFlag xpsr)

def alu (d : Decoded) (r : Regs) (xpsr : Word) : Alu :=
  let c := carryFlag xpsr
  let op := operand d r xpsr
  let shifted := (shiftRegOperand (r d.rm) d.imm xpsr).value
  let rhs := carryRhs d r xpsr
  match d.kind with
  | .movImm => .plain d.imm
  | .addImm | .cmnImm => .sum (addWithCarry (r d.rn) d.imm false)
  | .subImm | .cmpImm => .sum (addWithCarry (r d.rn) (~~~d.imm) true)
  | .rsbImm => .sum (addWithCarry d.imm (~~~r d.rn) true)
  | .adcImm => .sum (addWithCarry (r d.rn) d.imm c)
  | .sbcImm => .sum (addWithCarry (r d.rn) (~~~d.imm) c)
  | .neg => .sum (addWithCarry 0 (~~~r d.rm) true)
  | .addReg => .sum (addWithCarry (r d.rn) rhs false)
  | .subReg | .cmpReg => .sum (addWithCarry (r d.rn) (~~~rhs) true)
  | .adcsReg => .sum (addWithCarry (r d.rn) rhs c)
  | .sbcsReg => .sum (addWithCarry (r d.rn) (~~~rhs) c)
  | .rsbReg => .sum (addWithCarry shifted (~~~r d.rn) true)
  | .andReg => .shift (r d.rn &&& op.value) op.carryOut
  | .eorReg => .shift (r d.rn ^^^ op.value) op.carryOut
  | .orrReg => .shift ((if d.rn = 15 then 0 else r d.rn) ||| op.value) op.carryOut
  | .bicReg => .shift (r d.rn &&& ~~~op.value) op.carryOut
  | .ornReg | .ornImm =>
    .shift (r d.rn ||| ~~~(ornOperand d r xpsr).value) (ornOperand d r xpsr).carryOut
  | .tstReg =>
    let rhs : ShiftResult :=
      if regForm d then shiftRegOperand (r d.rm) d.imm xpsr else ⟨r d.rm, c⟩
    .shift (r d.rn &&& rhs.value) rhs.carryOut
  | .tstImm =>
    .shift (r d.rn &&& d.imm)
      (if d.len = 4 then (thumbExpandImm12C (imm12 d) c).carryOut else c)
  | .mvnImm =>
    let imm32 := thumbExpandImm12C d.imm c
    .shift (~~~imm32.value) imm32.carryOut
  | .mvnReg =>
    if d.len = 2 then .plain (~~~r d.rm)
    else
      let res := shiftCImm (r (Fin.ofNat 16 d.raw.toNat)) ((d.raw >>> 4 &&& 0x3).setWidth 8)
        (((d.raw >>> 12 &&& 0x7) <<< 2 ||| (d.raw >>> 6 &&& 0x3)).setWidth 8) c
      .shift (~~~res.value) res.carryOut
  | .lslImm | .lsrImm | .asrImm | .rorImm =>
    .shift (immShifted d r xpsr).value (immShifted d r xpsr).carryOut
  | .lslReg | .lsrReg | .asrReg | .rorReg | .rorRegNf =>
    .shift (regShifted d r xpsr).value (regShifted d r xpsr).carryOut
  | .mul => .plain (r d.rd * r d.rm)
  | .mulW => .plain (r d.rn * r d.rm)
  | .cmnReg => .sum (addWithCarry (r d.rn) (r d.rm) false)
  | .movReg => .plain (r d.rm)
  | _ => .plain 0

def writes (d : Decoded) (itRemaining : Byte) : Bool :=
  match d.kind with
  | .addImm => if d.len = 2 then itRemaining = 0 else sBit d && itRemaining ≤ 1
  | .subImm => if d.len = 2 then itRemaining ≤ 1 else sBit d && itRemaining ≤ 1
  | .cmnImm | .cmnReg | .cmpImm | .cmpReg | .tstReg | .tstImm | .sbcImm | .neg | .mul => true
  | .mulW => d.imm.getLsbD 0
  | .rsbImm | .rsbReg | .mvnImm => sBit d
  | .adcImm | .ornReg | .ornImm => d.len = 4 && sBit d && itRemaining ≤ 1
  | .addReg =>
    if regForm d then sBit d else d.len = 2 && d.raw &&& 0xfc00 != 0x4400 && itRemaining ≤ 1
  | .subReg => if regForm d then sBit d else d.len = 2 && itRemaining ≤ 1
  | .sbcsReg => if regForm d then sBit d && itRemaining ≤ 1 else itRemaining ≤ 1
  | .adcsReg | .andReg | .eorReg | .orrReg | .bicReg | .lslImm | .rorImm =>
    setFlagsLast d itRemaining
  | .lsrImm | .asrImm | .lslReg | .lsrReg => setFlagsOutside d itRemaining
  | .asrReg => d.len = 2 && itRemaining = 0
  | .rorReg => itRemaining ≤ 1
  | .mvnReg => if d.len = 2 then itRemaining ≤ 1 else sBit d
  | _ => false

def clearsV : OpKind → Bool
  | .lslImm | .lsrImm | .asrImm | .rorImm | .lslReg | .lsrReg | .asrReg => true
  | _ => false

def flagsAfter (res : DataResult) (xpsr : Word) : Flags :=
  .ofXpsr (match res.flags with
    | some w => w.apply xpsr
    | none => xpsr)

theorem flagsAfter_some (r : Regs) (w : FlagWrite) (xpsr : Word) :
    flagsAfter ⟨r, some w⟩ xpsr =
      ⟨w.res.getLsbD 31, w.res = 0, w.mask = .nz && xpsr.getLsbD 29 || w.carry,
        w.mask ≠ .nzcv && xpsr.getLsbD 28 || w.overflow⟩ := by
  rw [flagsAfter, Flags.ofXpsr, FlagWrite.n_apply, FlagWrite.z_apply, FlagWrite.c_apply,
    FlagWrite.v_apply]

variable (r : Regs) (rd : Reg) (xpsr : Word) (setflags : Bool)

theorem flagsAfter_sum (res : ArithResult) : flagsAfter (arith r rd res setflags) xpsr =
    if setflags then (Alu.sum res).flags (.ofXpsr xpsr) else .ofXpsr xpsr := by
  cases setflags with
  | false => rfl
  | true => exact flagsAfter_some ..

theorem flagsAfter_compare (res : ArithResult) :
    flagsAfter (compare r res) xpsr = (Alu.sum res).flags (.ofXpsr xpsr) := flagsAfter_some ..

theorem flagsAfter_logical (value : Word) (carry : Bool) :
    flagsAfter (logical r rd value carry setflags) xpsr =
      if setflags then (Alu.shift value carry).flags (.ofXpsr xpsr) else .ofXpsr xpsr := by
  cases setflags with
  | false => rfl
  | true => exact (flagsAfter_some ..).trans (congrArg _ (Bool.or_false _))

theorem flagsAfter_shifted (res : ShiftResult) : flagsAfter (shifted r rd res setflags) xpsr =
    if setflags then { (Alu.shift res.value res.carryOut).flags (.ofXpsr xpsr) with v := false }
    else .ofXpsr xpsr := by
  cases setflags with
  | false => rfl
  | true => exact flagsAfter_some ..

theorem flagsAfter_nz (value : Word) :
    flagsAfter (putFlags r rd value setflags ⟨.nz, value, false, false⟩) xpsr =
      if setflags then (Alu.plain value).flags (.ofXpsr xpsr) else .ofXpsr xpsr := by
  cases setflags with
  | false => rfl
  | true =>
    refine (flagsAfter_some ..).trans ?_
    show (⟨_, _, (decide (FlagMask.nz = .nz) && _ || false),
      (decide (FlagMask.nz ≠ .nzcv) && _ || false)⟩ : Flags) = _
    simp only [Bool.or_false]
    rfl

theorem flagsAfter_test (value : Word) (carry : Bool) :
    flagsAfter ⟨r, some ⟨.nzc, value, carry, false⟩⟩ xpsr =
      (Alu.shift value carry).flags (.ofXpsr xpsr) :=
  (flagsAfter_some ..).trans (congrArg _ (Bool.or_false _))

theorem flagsAfter_logicalOp (op : Word → Word → Word) (lhs : Word) (d : Decoded)
    (itRemaining : Byte) : flagsAfter (logicalOp op lhs d itRemaining r xpsr) xpsr =
      if setFlagsLast d itRemaining then
        (Alu.shift (op lhs (operand d r xpsr).value) (operand d r xpsr).carryOut).flags
          (.ofXpsr xpsr)
      else .ofXpsr xpsr := by
  refine (flagsAfter_logical ..).trans ?_
  cases setFlagsLast d itRemaining <;> rfl

theorem flagsAfter_orn (d : Decoded) (itRemaining : Byte) :
    flagsAfter (orn d itRemaining r xpsr) xpsr =
      if d.len = 4 && sBit d && itRemaining ≤ 1 then
        (Alu.shift (r d.rn ||| ~~~(ornOperand d r xpsr).value) (ornOperand d r xpsr).carryOut).flags
          (.ofXpsr xpsr)
      else .ofXpsr xpsr := by
  refine (flagsAfter_logical ..).trans ?_
  cases d.len = 4 && sBit d && itRemaining ≤ 1 <;> rfl

def written (d : Decoded) (itRemaining : Byte) (r : Regs) (xpsr : Word) : Flags :=
  let a := (alu d r xpsr).flags (.ofXpsr xpsr)
  if writes d itRemaining then if clearsV d.kind then { a with v := false } else a
  else .ofXpsr xpsr

theorem flagsAfter_dataProc (d : Decoded) (itRemaining : Byte) (pcFetch : Word) :
    flagsAfter (dataProc d itRemaining pcFetch r xpsr) xpsr = written d itRemaining r xpsr := by
  cases kind : d.kind
  all_goals
    simp only [dataProc, written, writes, alu, clearsV, kind, Bool.false_eq_true, if_false, if_true]
  case addImm | subImm | rsbImm | adcImm | neg | adcsReg | rsbReg => exact flagsAfter_sum ..
  case addReg | subReg =>
    simp only [addReg, subReg, carryRhs]
    split <;> exact flagsAfter_sum ..
  case sbcsReg => exact flagsAfter_sum ..
  case sbcImm | sbcImmNf =>
    refine (flagsAfter_sum ..).trans ?_
    simp only [kind, reduceCtorEq, decide_true, decide_false, Bool.false_eq_true, if_false, if_true]
  case cmpImm | cmnImm | cmnReg | cmpReg => exact flagsAfter_compare ..
  case andReg | eorReg | orrReg | bicReg => exact flagsAfter_logicalOp ..
  case ornReg | ornImm => exact flagsAfter_orn ..
  case tstReg | tstImm => exact flagsAfter_test ..
  case mvnImm => exact flagsAfter_logical ..
  case mvnReg =>
    simp only [mvnReg]
    split
    · exact flagsAfter_nz ..
    · exact flagsAfter_logical ..
  case lslImm | lsrImm | asrImm | rorImm =>
    refine (flagsAfter_shifted ..).trans ?_
    simp only [immShifted, kind]
  case lslReg | lsrReg | asrReg =>
    refine (flagsAfter_shifted ..).trans ?_
    simp only [regShifted, kind]
  case rorReg =>
    refine (flagsAfter_logical ..).trans ?_
    simp only [regShifted, kind]
  case mul | mulW => exact flagsAfter_nz ..
  all_goals rfl

theorem written_eq_iff {d : Decoded} {itRemaining : Byte} {r : Regs} {xpsr : Word} (s : Bool)
    (set : Flags.ofXpsr xpsr = ⟨true, true, true, true⟩) :
    written d itRemaining r xpsr =
        (if s then (alu d r xpsr).flags (.ofXpsr xpsr) else .ofXpsr xpsr) ↔
      writes d itRemaining = s ∧ (s = true → clearsV d.kind = false) := by
  have never := (alu d r xpsr).not_n_and_z (.ofXpsr xpsr)
  have overflow : clearsV d.kind = true → (alu d r xpsr).overflow = none := by
    cases kind : d.kind <;> simp only [clearsV, alu, kind, Bool.false_eq_true, false_implies] <;>
      exact fun _ => rfl
  rw [written]
  rw [set] at never ⊢
  cases writes d itRemaining with
  | false =>
    cases s with
    | false => exact iff_of_true rfl ⟨rfl, nofun⟩
    | true =>
      refine iff_of_false (fun same => never ?_) (fun same => nomatch same.1)
      exact ⟨(congrArg Flags.n same).symm, (congrArg Flags.z same).symm⟩
  | true =>
    cases clears : clearsV d.kind with
    | false =>
      cases s with
      | false =>
        refine iff_of_false (fun same => never ?_) (fun same => nomatch same.1)
        exact ⟨congrArg Flags.n same, congrArg Flags.z same⟩
      | true => exact iff_of_true rfl ⟨rfl, fun _ => rfl⟩
    | true =>
      cases s with
      | false =>
        refine iff_of_false (fun same => never ?_) (fun same => nomatch same.1)
        exact ⟨congrArg Flags.n same, congrArg Flags.z same⟩
      | true =>
        refine iff_of_false (fun same => ?_) (fun same => nomatch same.2 rfl)
        have kept : ((alu d r xpsr).flags ⟨true, true, true, true⟩).v = true := by
          rw [Alu.flags, overflow clears]
          rfl
        exact nomatch (congrArg Flags.v same).trans kept

end DataProc

end M33mu
