import M33mu.FlagSetting
import M33mu.LongMultiply
import M33mu.PcOperand
import M33mu.Shifts
import Mathlib.Data.List.Chain
import Mathlib.Data.List.Induction

namespace M33mu

open Lib Decode Decode32 DataProc ExecHelpers Execute

/-- `AddWithCarry` of the architecture: the result, and N, Z, C and V. -/
def armAddWithCarry (a b : Word) (carry : Bool) : Word × Flags :=
  let unsignedSum := a.toNat + b.toNat + carry.toNat
  let signedSum := a.toInt + b.toInt + carry.toNat
  let result := BitVec.ofNat 32 unsignedSum
  (result, ⟨result.msb, result = 0, result.toNat ≠ unsignedSum, result.toInt ≠ signedSum⟩)

namespace ExecHelpers

theorem toNat_addWithCarry (a b : Word) (carry : Bool) :
    (addWithCarry a b carry).value.toNat = (a.toNat + b.toNat + carry.toNat) % 2 ^ 32 := by
  have one : (1#64).toNat = 1 := rfl
  have none : (0#64).toNat = 0 := rfl
  cases carry <;>
    simp only [addWithCarry, BitVec.toNat_setWidth, BitVec.toNat_add, Bool.false_eq_true, if_true,
      if_false, one, none, Bool.toNat_true, Bool.toNat_false] <;>
    omega

theorem carry_addWithCarry (a b : Word) (carry : Bool) :
    (addWithCarry a b carry).carry = decide (2 ^ 32 ≤ a.toNat + b.toNat + carry.toNat) := by
  have above (v : BitVec 64) : (v >>> 32 != 0) = decide (2 ^ 32 ≤ v.toNat) := by
    rw [bne, Bool.eq_iff_iff, Bool.not_eq_true', beq_eq_false_iff_ne, decide_eq_true_iff, ne_eq,
      BitVec.toNat_eq, BitVec.toNat_ushiftRight, Nat.shiftRight_eq_div_pow]
    have zero : (0 : BitVec 64).toNat = 0 := rfl
    omega
  have one : (1#64).toNat = 1 := rfl
  have none : (0#64).toNat = 0 := rfl
  rw [addWithCarry, above, Bool.eq_iff_iff, decide_eq_true_iff, decide_eq_true_iff]
  cases carry <;>
    simp only [BitVec.toNat_setWidth, BitVec.toNat_add, Bool.false_eq_true, if_true, if_false, one,
      none, Bool.toNat_true, Bool.toNat_false] <;>
    omega

theorem addWithCarry_column (a b : Word) (carry : Bool) :
    (addWithCarry a b carry).value.toNat + 2 ^ 32 * (addWithCarry a b carry).carry.toNat =
      a.toNat + b.toNat + carry.toNat := by
  have left := a.isLt
  have right := b.isLt
  have small := carry.toNat_le
  rw [toNat_addWithCarry, carry_addWithCarry]
  by_cases carries : 2 ^ 32 ≤ a.toNat + b.toNat + carry.toNat
  · rw [decide_eq_true carries, Bool.toNat_true]
    omega
  · rw [decide_eq_false carries, Bool.toNat_false]
    omega

theorem range_of_sign (v : Word) :
    v.toInt = v.toNat - (2 ^ 32 * v.msb.toNat : ℕ) ∧ 2 ^ 31 * v.msb.toNat ≤ v.toNat ∧
      v.toNat < 2 ^ 31 * (v.msb.toNat + 1) := by
  have bound := v.isLt
  rw [BitVec.toInt_eq_msb_cond]
  cases sign : v.msb with
  | false =>
    have := of_decide_eq_false ((BitVec.msb_eq_decide v).symm.trans sign)
    simp only [Bool.toNat_false, Bool.false_eq_true, if_false]
    omega
  | true =>
    have := of_decide_eq_true ((BitVec.msb_eq_decide v).symm.trans sign)
    simp only [Bool.toNat_true, if_true]
    omega

theorem overflow_addWithCarry (a b : Word) (carry : Bool) :
    (addWithCarry a b carry).overflow =
      decide ((addWithCarry a b carry).value.toInt ≠ a.toInt + b.toInt + carry.toNat) := by
  have left := a.isLt
  have right := b.isLt
  have small := carry.toNat_le
  have value := toNat_addWithCarry a b carry
  have signs : (addWithCarry a b carry).overflow =
      (!(a.msb ^^ b.msb) && (a.msb ^^ (addWithCarry a b carry).value.msb)) := by
    simp [addWithCarry, BitVec.msb_eq_getLsbD_last]
  have ra := range_of_sign a
  have rb := range_of_sign b
  have rz := range_of_sign (addWithCarry a b carry).value
  rw [signs, Bool.eq_iff_iff, decide_eq_true_iff]
  revert ra rb rz
  generalize a.msb = x
  generalize b.msb = y
  generalize (addWithCarry a b carry).value.msb = z
  intro ra rb rz
  cases x <;> cases y <;> cases z <;>
    simp only [Bool.toNat_true, Bool.toNat_false, Bool.xor_false, Bool.xor_true, Bool.not_true,
      Bool.not_false, Bool.and_true, Bool.and_false, Bool.false_eq_true, true_iff,
      false_iff] at ra rb rz ⊢ <;>
    omega

theorem addWithCarry_arm (a b : Word) (carry : Bool) (old : Flags) :
    ((addWithCarry a b carry).value, (Alu.sum (addWithCarry a b carry)).flags old) =
      armAddWithCarry a b carry := by
  have value : (addWithCarry a b carry).value = BitVec.ofNat 32 (a.toNat + b.toNat + carry.toNat) :=
    BitVec.eq_of_toNat_eq (toNat_addWithCarry a b carry)
  have left := a.isLt
  have right := b.isLt
  have small := carry.toNat_le
  rw [armAddWithCarry, Alu.flags, Alu.sum, ← value]
  refine congrArg (Prod.mk _) ?_
  rw [Option.getD_some, Option.getD_some, overflow_addWithCarry, carry_addWithCarry,
    toNat_addWithCarry, BitVec.msb_eq_getLsbD_last]
  have carries : decide (2 ^ 32 ≤ a.toNat + b.toNat + carry.toNat) =
      decide ((a.toNat + b.toNat + carry.toNat) % 2 ^ 32 ≠ a.toNat + b.toNat + carry.toNat) := by
    rw [Bool.eq_iff_iff, decide_eq_true_iff, decide_eq_true_iff]
    omega
  rw [← carries]

end ExecHelpers

inductive LimbOp
  | add
  | sub
  deriving DecidableEq, Repr

namespace LimbOp

def leads : LimbOp → List OpKind
  | add => [.addImm, .addReg]
  | sub => [.subImm, .subReg]

def follows : LimbOp → List OpKind
  | add => [.adcImm, .adcsReg]
  | sub => [.sbcImm, .sbcsReg]

/-- The second operand of `AddWithCarry`. -/
def second : LimbOp → Word → Word
  | add, b => b
  | sub, b => ~~~b

def carryIn : LimbOp → Bool
  | add => false
  | sub => true

/-- The instructions as they stand in a program, each with the instructions of an IT block that are
left: flag-setting, and not to the stack pointer. -/
def Program (op : LimbOp) : List (DataInsn × Fin 5) → Prop
  | [] => True
  | first :: rest => first.1.decoded.kind ∈ op.leads ∧ (∀ s ∈ rest, s.1.decoded.kind ∈ op.follows) ∧
      ∀ s ∈ first :: rest, s.1.SetsFlags s.2 = true ∧ s.1.decoded.rd ≠ 13

theorem Program.initial {op : LimbOp} {part program : List (DataInsn × Fin 5)}
    (shape : op.Program program) (within : part <+: program) : op.Program part := by
  obtain ⟨rest, rfl⟩ := within
  cases part with
  | nil => trivial
  | cons first part =>
    obtain ⟨leads, follow, flags⟩ := shape
    exact ⟨leads, fun s mem => follow s (List.mem_append_left _ mem),
      fun s mem => flags s (List.mem_append_left _ mem)⟩

end LimbOp

/-- The carry is handed on by every 16-bit form; by the 32-bit forms with an immediate but for
`SBC`, and by those of `ADC` and `SBC` with a register, only where no other instruction of the
IT block follows. -/
def DataInsn.HandsOn (k : Fin 5) : DataInsn → Bool
  | .narrow _ _ => true
  | .wide insn _ _ => k ≤ 1 || (decode32 insn).kind ∈ [OpKind.addReg, .subReg, .sbcImm]

namespace DataProc

def secondOperand (d : Decoded) (r : Regs) (carry : Bool) : Word :=
  if d.kind ∈ [OpKind.addImm, .subImm, .adcImm, .sbcImm] then d.imm
  else if regForm d then
    (armShiftImm (r d.rm) (d.imm >>> 5 &&& 0x3).toNat (d.imm &&& 0x1f).toNat carry).value
  else r d.rm

theorem shiftRegOperand_eq (v packed xpsr : Word) :
    shiftRegOperand v packed xpsr =
      armShiftImm v (packed >>> 5 &&& 0x3).toNat (packed &&& 0x1f).toNat (carryFlag xpsr) := by
  have type := toNat_and_mask (packed >>> 5) 2 (by decide)
  have amount := toNat_and_mask packed 5 (by decide)
  have type' : ((packed >>> 5 &&& 0x3).setWidth 8).toNat % 4 = (packed >>> 5 &&& 0x3).toNat := by
    rw [BitVec.toNat_setWidth, show (packed >>> 5 &&& 0x3).toNat = _ from type]
    omega
  have amount' : ((packed &&& 0x1f).setWidth 8).toNat = (packed &&& 0x1f).toNat := by
    rw [BitVec.toNat_setWidth, show (packed &&& 0x1f).toNat = _ from amount]
    omega
  rw [shiftRegOperand, shiftCImm_eq, type', amount', carryFlag]

theorem carryRhs_eq {d : Decoded} (r : Regs) (xpsr : Word)
    (other : d.kind ∉ [OpKind.addImm, .subImm, .adcImm, .sbcImm]) :
    carryRhs d r xpsr = secondOperand d r (carryFlag xpsr) := by
  rw [carryRhs, secondOperand, if_neg other, shiftRegOperand_eq]

variable {op : LimbOp} {d : Decoded}

def limbCarry (op : LimbOp) (d : Decoded) (xpsr : Word) : Bool :=
  if d.kind ∈ op.leads then op.carryIn else carryFlag xpsr

theorem alu_limb (kind : d.kind ∈ op.leads ++ op.follows) (r : Regs) (xpsr : Word) :
    alu d r xpsr = .sum (addWithCarry (r d.rn)
      (op.second (secondOperand d r (carryFlag xpsr))) (limbCarry op d xpsr)) := by
  have imm (is : d.kind ∈ [OpKind.addImm, .subImm, .adcImm, .sbcImm]) :
      secondOperand d r (carryFlag xpsr) = d.imm := if_pos is
  cases op
  all_goals
    simp only [LimbOp.leads, LimbOp.follows, List.cons_append, List.nil_append, List.mem_cons,
      List.not_mem_nil, or_false] at kind
    rcases kind with is | is | is | is
    all_goals
      simp only [limbCarry, alu, is, LimbOp.second, LimbOp.leads, LimbOp.carryIn]
      first
        | rw [imm (by rw [is]; decide)]; rfl
        | rw [carryRhs_eq r xpsr (by rw [is]; decide)]; rfl

theorem clearsV_limb (kind : d.kind ∈ op.leads ++ op.follows) : clearsV d.kind = false := by
  revert kind
  cases op <;> cases d.kind <;> decide

theorem value_limb (kind : d.kind ∈ op.leads ++ op.follows) (itRemaining : Byte) (pcFetch : Word)
    (r : Regs) (xpsr : Word) :
    (dataProc d itRemaining pcFetch r xpsr).r d.rd = (alu d r xpsr).value := by
  have written (v : Word) (s : Bool) (w : FlagWrite) : (putFlags r d.rd v s w).r d.rd = v :=
    Function.update_self ..
  cases op
  all_goals
    simp only [LimbOp.leads, LimbOp.follows, List.cons_append, List.nil_append, List.mem_cons,
      List.not_mem_nil, or_false] at kind
    rcases kind with is | is | is | is
    all_goals simp only [dataProc, alu, is]
  case add.inr.inl =>
    rw [addReg, carryRhs]
    split <;> exact written ..
  case sub.inr.inl =>
    rw [subReg, carryRhs]
    split <;> exact written ..
  all_goals exact written ..

end DataProc

theorem DataInsn.writes_limb {op : LimbOp} {i : DataInsn} {k : Fin 5}
    (kind : i.decoded.kind ∈ op.leads ++ op.follows) (sets : i.SetsFlags k = true) :
    i.writes k = i.HandsOn k := by
  cases i with
  | narrow hw1 data =>
    have first : k = 0 := of_decide_eq_true sets
    rw [first, writes, HandsOn]
    revert kind
    rw [decoded]
    cases op <;> cases (decode16 hw1).kind <;> decide
  | wide insn data defined =>
    have bit : sBitOf insn = true := sets
    rw [writes, HandsOn, bit]
    revert kind
    rw [decoded]
    generalize decide (k ≤ 1) = last
    cases op <;> cases (decode32 insn).kind <;> cases last <;> decide

/-- An instruction for one limb, executed in `before` with `left` instructions of an IT block left,
its own included. -/
structure Limb (δ : Type u) where
  insn : DataInsn
  left : Fin 5
  env : Env δ
  fetch : FetchResult
  before : Machine δ
  position : before.it.remaining = BitVec.ofNat 8 left

namespace Limb

variable {δ : Type u} {op : LimbOp}

def after (l : Limb δ) : Machine δ := (executeDecoded l.env l.fetch l.insn.decoded l.before).2

def lhs (l : Limb δ) : Word := l.before.cpu.r l.insn.decoded.rn

def rhs (l : Limb δ) : Word := secondOperand l.insn.decoded l.before.cpu.r l.before.flags.c

def result (l : Limb δ) : Word := l.after.cpu.r l.insn.decoded.rd

def carryIn (op : LimbOp) (l : Limb δ) : Bool := limbCarry op l.insn.decoded l.before.cpu.xpsr

/-- What the architecture makes of the limb and the flags. -/
def expected (op : LimbOp) (l : Limb δ) : Word × Flags :=
  armAddWithCarry l.lhs (op.second l.rhs) (l.carryIn op)

section

variable {l : Limb δ}

theorem executed (kind : l.insn.decoded.kind ∈ op.leads ++ op.follows)
    (dest : l.insn.decoded.rd ≠ 13) :
    executeDecoded l.env l.fetch l.insn.decoded l.before =
      data l.before (dataOf l.before l.fetch l.insn.decoded) := by
  cases op
  all_goals
    simp only [LimbOp.leads, LimbOp.follows, List.cons_append, List.nil_append, List.mem_cons,
      List.not_mem_nil, or_false] at kind
    rcases kind with is | is | is | is
    all_goals simp only [executeDecoded, is]
  case add.inl | sub.inl =>
    rw [dataOrSp, if_neg dest]
    rfl

theorem result_eq (kind : l.insn.decoded.kind ∈ op.leads ++ op.follows)
    (dest : l.insn.decoded.rd ≠ 13) : l.result = (l.expected op).1 := by
  have sum := addWithCarry_arm l.lhs (op.second l.rhs) (l.carryIn op) l.before.flags
  rw [expected, ← sum, result, after, executed kind dest]
  show (dataOf l.before l.fetch l.insn.decoded).r l.insn.decoded.rd = _
  rw [dataOf, value_limb kind, alu_limb kind]
  rfl

theorem flags_after (kind : l.insn.decoded.kind ∈ op.leads ++ op.follows)
    (sets : l.insn.SetsFlags l.left = true) :
    l.after.flags = if l.insn.HandsOn l.left then (l.expected op).2 else l.before.flags := by
  have sum := addWithCarry_arm l.lhs (op.second l.rhs) (l.carryIn op) l.before.flags
  have stays : ¬ (l.insn.decoded.kind = .movReg ∧ l.insn.decoded.rd = 15) := by
    rintro ⟨is, -⟩
    rw [is] at kind
    revert kind
    cases op <;> decide
  rw [after, Machine.flags_executeDecoded l.insn.decoded_kind stays, l.position, written,
    l.insn.writes_decoded, DataInsn.writes_limb kind sets, clearsV_limb kind, alu_limb kind,
    expected, ← sum]
  rfl

end

structure Runs (program : List (DataInsn × Fin 5)) (run : List (Limb δ)) : Prop where
  insns : run.map (fun l => (l.insn, l.left)) = program
  linked : run.IsChain fun l next => next.before.flags.c = l.after.flags.c

end Limb

namespace LimbOp

def total : LimbOp → (m x y : ℕ) → ℕ
  | add, m, x, y => (x + y) % m
  | sub, m, x, y => (m + x - y) % m

def carryOut : LimbOp → (m x y : ℕ) → Bool
  | add, m, x, y => m ≤ x + y
  | sub, _, x, y => y ≤ x

def sum : LimbOp → (m x y : ℕ) → ℕ
  | add, _, x, y => x + y
  | sub, m, x, y => x + (m - y)

theorem sum_reduced (op : LimbOp) {m x y : ℕ} (small : y < m) :
    op.sum m x y % m = op.total m x y ∧ decide (m ≤ op.sum m x y) = op.carryOut m x y := by
  cases op with
  | add => exact ⟨rfl, rfl⟩
  | sub =>
    have order : x + (m - y) = m + x - y := by omega
    refine ⟨congrArg (· % m) order, decide_eq_decide.mpr ?_⟩
    rw [sum]
    omega

end LimbOp

/-- The limbs are those of the sum or difference, C tells of it as a whole, and N, Z and V of the
limb at the top. -/
structure Limb.Right {δ : Type u} (op : LimbOp) (run : List (Limb δ)) : Prop where
  value : number (run.map result) =
    op.total (2 ^ (32 * run.length)) (number (run.map lhs)) (number (run.map rhs))
  flags : ∀ l ∈ run.getLast?, l.after.flags = { (l.expected op).2 with
    c := op.carryOut (2 ^ (32 * run.length)) (number (run.map lhs)) (number (run.map rhs)) }

namespace Limb

variable {δ : Type u} {op : LimbOp}

structure Good (op : LimbOp) (l : Limb δ) : Prop where
  kind : l.insn.decoded.kind ∈ op.leads ++ op.follows
  sets : l.insn.SetsFlags l.left = true
  dest : l.insn.decoded.rd ≠ 13

def column (op : LimbOp) (l : Limb δ) : ℕ := l.lhs.toNat + (op.second l.rhs).toNat

theorem arm_column (a b : Word) (carry : Bool) :
    (armAddWithCarry a b carry).1.toNat + 2 ^ 32 * (armAddWithCarry a b carry).2.c.toNat =
      a.toNat + b.toNat + carry.toNat := by
  rw [← addWithCarry_arm a b carry ⟨false, false, false, false⟩]
  exact addWithCarry_column a b carry

def CarriesFrom (op : LimbOp) : Bool → List (Limb δ) → Prop
  | _, [] => True
  | c, l :: rest => l.carryIn op = c ∧ CarriesFrom op l.after.flags.c rest

def carryAfter (c : Bool) (run : List (Limb δ)) : Bool :=
  run.getLast?.elim c (·.after.flags.c)

theorem carryAfter_cons (c : Bool) (l : Limb δ) (rest : List (Limb δ)) :
    carryAfter c (l :: rest) = carryAfter l.after.flags.c rest := by
  cases rest with
  | nil => rfl
  | cons next rest =>
    rw [carryAfter, carryAfter, List.getLast?_cons_cons]
    cases last : (next :: rest).getLast? with
    | none => simp at last
    | some l => rfl

theorem ripple {c : Bool} {run : List (Limb δ)} (good : ∀ l ∈ run, l.Good op)
    (handsOn : ∀ l ∈ run, l.insn.HandsOn l.left = true) (carries : CarriesFrom op c run) :
    Ripple (2 ^ 32) c.toNat (run.map (column op)) (run.map fun l => l.result.toNat)
      (carryAfter c run).toNat := by
  induction run generalizing c with
  | nil => exact .nil _
  | cons l rest ih =>
    obtain ⟨kind, sets, dest⟩ := good l (List.mem_cons_self ..)
    obtain ⟨rfl, carries⟩ := carries
    have flags := flags_after kind sets
    rw [handsOn l (List.mem_cons_self ..), if_pos rfl] at flags
    rw [carryAfter_cons]
    refine .cons ?_ (ih (fun l mem => good l (List.mem_cons_of_mem _ mem))
      (fun l mem => handsOn l (List.mem_cons_of_mem _ mem)) carries)
    show l.result.toNat + 2 ^ 32 * l.after.flags.c.toNat = l.column op + (l.carryIn op).toNat
    rw [result_eq kind dest, flags, expected, column]
    exact arm_column ..

theorem ofDigits_columns (op : LimbOp) (run : List (Limb δ)) :
    Nat.ofDigits (2 ^ 32) (run.map (column op)) + op.carryIn.toNat =
      op.sum (2 ^ (32 * run.length)) (number (run.map lhs)) (number (run.map rhs)) := by
  have split : Nat.ofDigits (2 ^ 32) (run.map (column op)) = number (run.map lhs) +
      Nat.ofDigits (2 ^ 32) (run.map fun l => (op.second l.rhs).toNat) := by
    rw [number, worth, List.map_map, ← ofDigits_map_add]
    rfl
  rw [split]
  cases op with
  | add =>
    rw [number, number, worth, worth, List.map_map, List.map_map]
    rfl
  | sub =>
    have small : ∀ d ∈ run.map fun l => l.rhs.toNat, d < 2 ^ 32 := fun d mem => by
      obtain ⟨l, -, rfl⟩ := List.mem_map.mp mem
      exact l.rhs.isLt
    have complement := ofDigits_complement small
    rw [List.map_map, List.length_map, ← pow_mul] at complement
    have inverted : (run.map fun l => (LimbOp.sub.second l.rhs).toNat) =
        run.map ((fun d => 2 ^ 32 - 1 - d) ∘ fun l => l.rhs.toNat) :=
      List.map_congr_left fun l _ => BitVec.toNat_not
    have whole : number (run.map rhs) = Nat.ofDigits (2 ^ 32) (run.map fun l => l.rhs.toNat) := by
      rw [number, worth, List.map_map]
      rfl
    rw [inverted, whole]
    simp only [LimbOp.carryIn, LimbOp.sum, Bool.toNat_true]
    omega

theorem number_lt (limbs : List Word) : number limbs < 2 ^ (32 * limbs.length) := by
  have bound := Nat.ofDigits_lt_base_pow_length (b := 2 ^ 32) (l := limbs.map BitVec.toNat)
    (by decide) fun d mem => by
      obtain ⟨x, -, rfl⟩ := List.mem_map.mp mem
      exact x.isLt
  rwa [List.length_map, ← pow_mul] at bound

theorem sum_of_ripple {v m s : ℕ} {c : Bool} (small : v < m) (is : v + m * c.toNat = s) :
    v = s % m ∧ c = decide (m ≤ s) := by
  cases c with
  | false =>
    rw [Bool.toNat_false, Nat.mul_zero, Nat.add_zero] at is
    rw [← is]
    exact ⟨(Nat.mod_eq_of_lt small).symm, (decide_eq_false (Nat.not_le.mpr small)).symm⟩
  | true =>
    rw [Bool.toNat_true, Nat.mul_one] at is
    rw [← is, Nat.add_mod_right]
    exact ⟨(Nat.mod_eq_of_lt small).symm, (decide_eq_true (Nat.le_add_left ..)).symm⟩

theorem carriesFrom_follows {l : Limb δ} {rest : List (Limb δ)}
    (linked : (l :: rest).IsChain fun l next => next.before.flags.c = l.after.flags.c)
    (follow : ∀ l ∈ rest, l.insn.decoded.kind ∈ op.follows) :
    CarriesFrom op l.after.flags.c rest := by
  induction rest generalizing l with
  | nil => trivial
  | cons next rest ih =>
    obtain ⟨link, linked⟩ := List.isChain_cons_cons.mp linked
    refine ⟨?_, ih linked fun l mem => follow l (List.mem_cons_of_mem _ mem)⟩
    have other : next.insn.decoded.kind ∉ op.leads := by
      have follows := follow next (List.mem_cons_self ..)
      revert follows
      cases op <;> cases next.insn.decoded.kind <;> decide
    rw [carryIn, limbCarry, if_neg other]
    exact link

variable {program : List (DataInsn × Fin 5)} {run : List (Limb δ)}

theorem Runs.carriesFrom (runs : Runs program run) (shape : op.Program program) :
    CarriesFrom op op.carryIn run := by
  obtain ⟨rfl, linked⟩ := runs
  cases run with
  | nil => trivial
  | cons l rest =>
    obtain ⟨leads, follow, -⟩ := shape
    refine ⟨if_pos leads, carriesFrom_follows linked fun l mem => ?_⟩
    exact follow _ (List.mem_map_of_mem mem)

theorem Runs.good (runs : Runs program run) (shape : op.Program program) :
    ∀ l ∈ run, l.Good op := by
  obtain ⟨rfl, -⟩ := runs
  cases run with
  | nil => exact fun l mem => nomatch mem
  | cons l rest =>
    obtain ⟨leads, follow, flags⟩ := shape
    intro l' mem
    have among : (l'.insn, l'.left) ∈ (l :: rest).map fun l => (l.insn, l.left) :=
      List.mem_map_of_mem mem
    obtain ⟨sets, dest⟩ := flags _ among
    refine ⟨List.mem_append.mpr ?_, sets, dest⟩
    rcases List.mem_cons.mp mem with rfl | mem
    · exact .inl leads
    · exact .inr (follow _ (List.mem_map_of_mem mem))

theorem Runs.right (runs : Runs program run) (shape : op.Program program)
    (handsOn : ∀ s ∈ program, s.1.HandsOn s.2 = true) : Right op run := by
  have good := runs.good shape
  have carries := runs.carriesFrom shape
  have hands : ∀ l ∈ run, l.insn.HandsOn l.left = true := fun l mem =>
    handsOn (l.insn, l.left) (runs.insns ▸ List.mem_map_of_mem mem)
  have value := (ripple good hands carries).value
  have small := number_lt (run.map result)
  have second := number_lt (run.map rhs)
  rw [ofDigits_columns, List.length_map, ← pow_mul] at value
  rw [List.length_map] at small second
  have limbs : Nat.ofDigits (2 ^ 32) (run.map fun l => l.result.toNat) =
      number (run.map result) := by
    rw [number, worth, List.map_map]
    rfl
  rw [limbs] at value
  obtain ⟨total, out⟩ := sum_of_ripple small value
  obtain ⟨reduced, carry⟩ := op.sum_reduced (x := number (run.map lhs)) second
  rw [reduced] at total
  rw [carry] at out
  refine ⟨total, fun l last => ?_⟩
  have mem := List.mem_of_getLast? last
  have flags := flags_after (good l mem).kind (good l mem).sets
  rw [hands l mem, if_pos rfl] at flags
  have top : carryAfter op.carryIn run = l.after.flags.c := by
    rw [carryAfter, Option.mem_def.mp last]
    rfl
  rw [← out, top, flags]

def signed (dev : δ) (c : Bool) (k : Fin 5) : Machine δ :=
  let m := uniform dev 0
  { m with
    cpu := { m.cpu with xpsr := 0xc0000000 ||| if c then 0x20000000 else 0 }
    it := { m.it with remaining := BitVec.ofNat 8 k } }

theorem flags_signed (dev : δ) (c : Bool) (k : Fin 5) :
    (signed dev c k).flags = ⟨true, true, c, false⟩ := by
  show Flags.ofXpsr (0xc0000000 ||| if c then 0x20000000 else 0) = ⟨true, true, c, false⟩
  cases c <;> decide

theorem exists_limb (dev : δ) (s : DataInsn × Fin 5) (c : Bool) :
    ∃ l : Limb δ, (l.insn, l.left) = s ∧ l.before.flags = ⟨true, true, c, false⟩ :=
  ⟨⟨s.1, s.2, answering fun _ => none, ⟨0, 4, false, 0, 0⟩, signed dev c s.2, rfl⟩, rfl,
    flags_signed dev c s.2⟩

theorem exists_run (dev : δ) (program : List (DataInsn × Fin 5)) :
    ∃ run : List (Limb δ), Runs program run ∧
      ∀ l ∈ run.getLast?, l.before.flags.n = true ∧ l.before.flags.z = true := by
  induction program using List.reverseRecOn with
  | nil => exact ⟨[], ⟨rfl, .nil⟩, fun l last => absurd last (by simp)⟩
  | append_singleton program s ih =>
    obtain ⟨run, ⟨insns, linked⟩, -⟩ := ih
    obtain ⟨l, rfl, flags⟩ := exists_limb dev s (carryAfter false run)
    refine ⟨run ++ [l], ⟨?_, ?_⟩, fun l' last => ?_⟩
    · rw [List.map_append, insns, List.map_singleton]
    · refine List.isChain_append.mpr ⟨linked, .singleton _, fun l' last next mem => ?_⟩
      obtain rfl := Option.some.inj mem
      rw [flags, carryAfter, Option.mem_def.mp last]
      rfl
    · rw [List.getLast?_concat] at last
      obtain rfl := Option.some.inj last
      rw [flags]
      exact ⟨rfl, rfl⟩

theorem Runs.wrong {s : DataInsn × Fin 5} (runs : Runs (program ++ [s]) run)
    (shape : op.Program (program ++ [s])) (stale : s.1.HandsOn s.2 = false)
    (signed : ∀ l ∈ run.getLast?, l.before.flags.n = true ∧ l.before.flags.z = true) :
    ¬ Right op run := by
  intro right
  have good := runs.good shape
  obtain ⟨before, rest, rfl, -, last⟩ := List.map_eq_append_iff.mp runs.insns
  obtain ⟨l, rfl, rfl⟩ := List.map_eq_singleton_iff.mp last
  have top : l ∈ (before ++ [l]).getLast? := List.getLast?_concat
  obtain ⟨kind, sets, -⟩ := good l (List.mem_append_right _ (List.mem_singleton_self l))
  have kept := flags_after kind sets
  rw [stale, if_neg Bool.false_ne_true] at kept
  have is := right.flags l top
  rw [kept] at is
  obtain ⟨negative, zero⟩ := signed l top
  rw [is] at negative zero
  have none : (l.expected op).1 = 0 := of_decide_eq_true zero
  have sign : (l.expected op).1.msb = true := negative
  rw [none] at sign
  exact absurd sign (by decide)

end Limb

/-- A program adds or subtracts numbers of any length, however many of its limbs are run, exactly if
every one of its instructions hands its carry on. -/
theorem limb_chain_right {δ : Type u} [Inhabited δ] {op : LimbOp}
    {program : List (DataInsn × Fin 5)} (shape : op.Program program) :
    (∀ part, part <+: program → ∀ run : List (Limb δ), Limb.Runs part run → Limb.Right op run) ↔
      ∀ s ∈ program, s.1.HandsOn s.2 = true := by
  constructor
  · intro right s mem
    by_contra stale
    obtain ⟨before, rest, rfl⟩ := List.append_of_mem mem
    have part : before ++ [s] <+: before ++ s :: rest := ⟨rest, by simp⟩
    obtain ⟨run, runs, signed⟩ := Limb.exists_run (default : δ) (before ++ [s])
    exact runs.wrong (shape.initial part) (Bool.eq_false_iff.mpr stale) signed (right _ part run runs)
  · intro handsOn part within run runs
    exact runs.right (shape.initial within) fun s mem => handsOn s (within.mem mem)

/-- `SUBS.W r0, r0, r2` and `SBCS r1, r3`, outside an IT block. -/
def subtraction : List (DataInsn × Fin 5) :=
  [(.wide 0xebb00002 (by decide) (by decide), 0), (.narrow 0x4199 (by decide), 0)]

theorem limb_chain_right_subtraction :
    (∀ part, part <+: subtraction → ∀ run : List (Limb Unit),
      Limb.Runs part run → Limb.Right .sub run) ↔ ∀ s ∈ subtraction, s.1.HandsOn s.2 = true :=
  limb_chain_right ⟨by decide, by decide, by decide⟩

/-- `ADDS.W r0, r0, #1` and `ADCS.W r1, r1, #0`, together in an IT block. -/
def addition : List (DataInsn × Fin 5) :=
  [(.wide 0xf1100001 (by decide) (by decide), 2), (.wide 0xf1510100 (by decide) (by decide), 1)]

def lowLimb : Limb Unit where
  insn := .wide 0xf1100001 (by decide) (by decide)
  left := 2
  env := Board.env
  fetch := ⟨0xf1100001, 4, false, 0, 0⟩
  before := { umaalBoard 0 0xffffffff 0 0 with it := ⟨0, 2, 0⟩ }
  position := rfl

def highLimb : Limb Unit where
  insn := .wide 0xf1510100 (by decide) (by decide)
  left := 1
  env := Board.env
  fetch := ⟨0xf1510100, 4, false, 0, 4⟩
  before := { lowLimb.after with it := ⟨0, 1, 0⟩ }
  position := rfl

theorem limb_chain_lost : ¬ ∀ (op : LimbOp) (program : List (DataInsn × Fin 5)),
    op.Program program → ∀ run : List (Limb Unit), Limb.Runs program run → Limb.Right op run := by
  intro right
  have shape : LimbOp.add.Program addition := ⟨by decide, by decide, by decide⟩
  have runs : Limb.Runs addition [lowLimb, highLimb] :=
    ⟨rfl, List.isChain_cons_cons.mpr ⟨rfl, .singleton _⟩⟩
  have sum := (right .add addition shape _ runs).value
  revert sum
  decide

end M33mu
