import M33mu.Board
import M33mu.Encodings
import M33mu.Execute
import M33mu.Lib.Limbs

namespace M33mu

open Lib

inductive LongMul
  | umull
  | umlal
  | umaal
  | smull
  | smlal
  deriving DecidableEq, Repr

namespace LongMul

def kind : LongMul → OpKind
  | umull => .umull
  | umlal => .umlal
  | umaal => .umaal
  | smull => .smull
  | smlal => .smlal

def head : LongMul → Pattern 32
  | umull => ⟨0xfff000f0, 0xfba00000⟩
  | umlal => ⟨0xfff000f0, 0xfbe00000⟩
  | umaal => ⟨0xfff000f0, 0xfbe00060⟩
  | smull => ⟨0xfff000f0, 0xfb800000⟩
  | smlal => ⟨0xfff000f0, 0xfbc00000⟩

def rn (insn : Word) : Reg := Decode32.reg insn 16

def rm (insn : Word) : Reg := Decode32.reg insn 0

def rdLo (insn : Word) : Reg := Decode32.reg insn 12

def rdHi (insn : Word) : Reg := Decode32.reg insn 8

def Computes : LongMul → (n m hi lo : Word) → BitVec 64 → Prop
  | umull, n, m, _, _, v => v.toNat = n.toNat * m.toNat
  | umlal, n, m, hi, lo, v => v.toNat = (n.toNat * m.toNat + (hi ++ lo).toNat) % 2 ^ 64
  | umaal, n, m, hi, lo, v =>
    n.toNat * m.toNat + hi.toNat + lo.toNat < 2 ^ 64 ∧
      v.toNat = n.toNat * m.toNat + hi.toNat + lo.toNat
  | smull, n, m, _, _, v => v.toInt = n.toInt * m.toInt
  | smlal, n, m, hi, lo, v => v.toInt = (n.toInt * m.toInt + (hi ++ lo).toInt).bmod (2 ^ 64)

end LongMul

namespace Decode32

theorem candidates_long (op : LongMul) :
    candidates op.head = if op = .umaal then [umaal, mulLong] else [mulLong] := by
  cases op <;> rfl

theorem mulLong_accepted {insn : Word} {d d' : Decoded} (accepted : mulLong insn d = (true, d')) :
    longRegsOk insn ∧ d' = { longRegs insn d with
      kind := if insn &&& 0xfff00000 = 0xfba00000 then .umull
        else if insn &&& 0xfff00000 = 0xfbe00000 then .umlal
        else if insn &&& 0xfff00000 = 0xfb800000 then .smull
        else .smlal
      undefined := false } := by
  rw [mulLong] at accepted
  split at accepted
  · rename_i fields
    refine ⟨fields.2, ?_⟩
    repeat' split at accepted
    all_goals cases accepted
    all_goals simp only [*, if_true]
    all_goals rfl
  · cases accepted

theorem decode32_long {op : LongMul} {insn : Word} (head : op.head.Matches insn)
    (defined : (Decode.decode32 insn).undefined = false) :
    Decode.decode32 insn =
        { longRegs insn (.default 4 insn) with kind := op.kind, undefined := false } ∧
      longRegsOk insn := by
  obtain ⟨rule, mem, accepted⟩ := exists_candidate head defined
  rw [candidates_long] at mem
  have top (v : Word) (within : op.head.Within ⟨0xfff00000, v⟩) : insn &&& 0xfff00000 = v :=
    within.matches head
  cases op with
  | umaal =>
    simp only [if_true, List.mem_cons, List.not_mem_nil, or_false] at mem
    rcases mem with rfl | rfl
    · rw [umaal] at accepted
      split at accepted
      · rename_i fields
        exact ⟨(congrArg Prod.snd accepted).symm, fields.2⟩
      · cases accepted
    · have field : insn &&& 0xf0 ≠ 0 :=
        Pattern.Apart.not_matches (q := ⟨0xf0, 0⟩) (by decide) head
      rw [mulLong, if_neg fun fields => field fields.1] at accepted
      cases accepted
  | umull =>
    obtain rfl := List.mem_singleton.mp mem
    obtain ⟨regs, is⟩ := mulLong_accepted accepted
    rw [top 0xfba00000 (by decide)] at is
    exact ⟨is, regs⟩
  | umlal =>
    obtain rfl := List.mem_singleton.mp mem
    obtain ⟨regs, is⟩ := mulLong_accepted accepted
    rw [top 0xfbe00000 (by decide)] at is
    exact ⟨is, regs⟩
  | smull =>
    obtain rfl := List.mem_singleton.mp mem
    obtain ⟨regs, is⟩ := mulLong_accepted accepted
    rw [top 0xfb800000 (by decide)] at is
    exact ⟨is, regs⟩
  | smlal =>
    obtain rfl := List.mem_singleton.mp mem
    obtain ⟨regs, is⟩ := mulLong_accepted accepted
    rw [top 0xfbc00000 (by decide)] at is
    exact ⟨is, regs⟩

end Decode32

namespace ExecHelpers

theorem split64_append (v : BitVec 64) : (split64 v).2 ++ (split64 v).1 = v := by
  apply BitVec.eq_of_getLsbD_eq
  intro i inside
  simp only [split64, BitVec.getLsbD_append, BitVec.getLsbD_setWidth, BitVec.getLsbD_ushiftRight]
  by_cases low : i < 32
  · simp [low]
  · simp [low, show i - 32 < 32 by omega, show 32 + (i - 32) = i by omega]

theorem join64_eq (hi lo : Word) : join64 hi lo = hi ++ lo := by
  apply BitVec.eq_of_getLsbD_eq
  intro i inside
  simp only [join64, BitVec.getLsbD_append, BitVec.getLsbD_or, BitVec.getLsbD_shiftLeft,
    BitVec.getLsbD_setWidth]
  by_cases low : i < 32
  · simp [low, inside]
  · simp [low, inside, show i - 32 < 64 by omega, BitVec.getLsbD_of_ge lo i (by omega)]

theorem toNat_umul64 (n m : Word) :
    (n.setWidth 64 * m.setWidth 64).toNat = n.toNat * m.toNat := by
  have bound : n.toNat * m.toNat < 2 ^ 64 :=
    Nat.lt_of_lt_of_le (Nat.mul_lt_mul'' n.isLt m.isLt) (by decide)
  rw [BitVec.toNat_mul, BitVec.toNat_setWidth_of_le (by decide),
    BitVec.toNat_setWidth_of_le (by decide), Nat.mod_eq_of_lt bound]

theorem toInt_smul64 (n m : Word) :
    (n.signExtend 64 * m.signExtend 64).toInt = n.toInt * m.toInt := by
  have above := BitVec.toInt_mul_toInt_le (x := n) (y := m)
  have below := BitVec.le_toInt_mul_toInt (x := n) (y := m)
  rw [BitVec.toInt_mul, BitVec.toInt_signExtend_of_le (by decide),
    BitVec.toInt_signExtend_of_le (by decide)]
  exact Int.bmod_eq_of_le (Int.le_trans (by decide) below) (Int.lt_of_le_of_lt above (by decide))

end ExecHelpers

namespace LongMul

open Decode DataProc ExecHelpers Execute

def product : LongMul → (n m hi lo : Word) → BitVec 64
  | umull, n, m, _, _ => n.setWidth 64 * m.setWidth 64
  | umlal, n, m, hi, lo => (hi ++ lo) + n.setWidth 64 * m.setWidth 64
  | umaal, n, m, hi, lo => n.setWidth 64 * m.setWidth 64 + lo.setWidth 64 + hi.setWidth 64
  | smull, n, m, _, _ => n.signExtend 64 * m.signExtend 64
  | smlal, n, m, hi, lo => (hi ++ lo) + n.signExtend 64 * m.signExtend 64

theorem umaal_bound (n m hi lo : Word) : n.toNat * m.toNat + hi.toNat + lo.toNat < 2 ^ 64 := by
  have product : n.toNat * m.toNat ≤ (2 ^ 32 - 1) * (2 ^ 32 - 1) :=
    Nat.mul_le_mul (Nat.le_sub_one_of_lt n.isLt) (Nat.le_sub_one_of_lt m.isLt)
  have high := hi.isLt
  have low := lo.isLt
  omega

theorem computes_product (op : LongMul) (n m hi lo : Word) :
    op.Computes n m hi lo (op.product n m hi lo) := by
  cases op with
  | umull => exact toNat_umul64 n m
  | umlal =>
    rw [Computes, product, BitVec.toNat_add, toNat_umul64, Nat.add_comm]
  | umaal =>
    have bound := umaal_bound n m hi lo
    refine ⟨bound, ?_⟩
    rw [product, BitVec.toNat_add, BitVec.toNat_add, toNat_umul64,
      BitVec.toNat_setWidth_of_le (by decide), BitVec.toNat_setWidth_of_le (by decide),
      Nat.mod_add_mod, Nat.add_right_comm, Nat.mod_eq_of_lt bound]
  | smull => exact toInt_smul64 n m
  | smlal =>
    rw [Computes, product, BitVec.toInt_add, toInt_smul64, Int.add_comm]

theorem dataProc_long {op : LongMul} {d : Decoded} (kind : d.kind = op.kind) (itRemaining : Byte)
    (pcFetch : Word) (r : Regs) (xpsr : Word) :
    dataProc d itRemaining pcFetch r xpsr =
      putLong d r (split64 (op.product (r d.rn) (r d.rm) (r d.ra) (r d.rd))) := by
  cases op
  all_goals simp only [dataProc, kind, LongMul.kind, mulLong, product, DataProc.umaal, umul64,
    smul64, if_true, join64_eq, split64_append]
  all_goals rfl

end LongMul

section

open LongMul Decode DataProc ExecHelpers Execute

variable {δ : Type u}

theorem executeDecoded_long {op : LongMul} {insn : Word} (head : op.head.Matches insn)
    (defined : (decode32 insn).undefined = false) (env : Env δ) (f : FetchResult)
    (m : Machine δ) :
    ∃ m', executeDecoded env f (decode32 insn) m = (.ok, m') ∧
      op.Computes (m.cpu.r (rn insn)) (m.cpu.r (rm insn)) (m.cpu.r (rdHi insn))
        (m.cpu.r (rdLo insn)) (m'.cpu.r (rdHi insn) ++ m'.cpu.r (rdLo insn)) ∧
      (∀ i, i ≠ rdHi insn → i ≠ rdLo insn → m'.cpu.r i = m.cpu.r i) ∧
      m'.cpu.xpsr = m.cpu.xpsr := by
  obtain ⟨decoded, -, -, -, -, apart⟩ := Decode32.decode32_long head defined
  have kind : (decode32 insn).kind = op.kind := by rw [decoded]
  have rn : (decode32 insn).rn = rn insn := by rw [decoded]; rfl
  have rm : (decode32 insn).rm = rm insn := by rw [decoded]; rfl
  have rdLo : (decode32 insn).rd = rdLo insn := by rw [decoded]; rfl
  have rdHi : (decode32 insn).ra = rdHi insn := by rw [decoded]; rfl
  have runs : executeDecoded env f (decode32 insn) m = data m (dataOf m f (decode32 insn)) := by
    cases op
    all_goals simp only [executeDecoded, kind, LongMul.kind]
  refine ⟨_, runs, ?_⟩
  rw [dataOf, dataProc_long kind, putLong, rn, rm, rdLo, rdHi]
  refine ⟨?_, fun i high low => ?_, rfl⟩
  · simp only [Cpu.withData, Function.update_self]
    rw [Function.update_of_ne (by exact apart), Function.update_self, split64_append]
    exact computes_product ..
  · simp only [Cpu.withData]
    rw [Function.update_of_ne high, Function.update_of_ne low]

abbrev number (limbs : List Word) : ℕ := worth BitVec.toNat (2 ^ 32) limbs

/-- Each result of `step` is that of a `UMAAL`, in some machine that holds the operands. -/
def RunsUmaal (δ : Type u) (step : Word → Word → Word → Word → Word × Word) : Prop :=
  ∀ x y t c, ∃ (insn : Word) (env : Env δ) (f : FetchResult) (m : Machine δ),
    LongMul.umaal.head.Matches insn ∧ (decode32 insn).undefined = false ∧
      m.cpu.r (rn insn) = x ∧ m.cpu.r (rm insn) = y ∧ m.cpu.r (rdLo insn) = t ∧
      m.cpu.r (rdHi insn) = c ∧
      let m' := (executeDecoded env f (decode32 insn) m).2
      step x y t c = (m'.cpu.r (rdLo insn), m'.cpu.r (rdHi insn))

theorem RunsUmaal.mulAdds {step : Word → Word → Word → Word → Word × Word}
    (runs : RunsUmaal δ step) : MulAdds BitVec.toNat step (2 ^ 32) := by
  intro x y t c
  obtain ⟨insn, env, f, m, head, defined, rfl, rfl, rfl, rfl, is⟩ := runs x y t c
  obtain ⟨m', done, ⟨-, sum⟩, -⟩ := executeDecoded_long head defined env f m
  rw [done] at is
  rw [is, Nat.add_right_comm, ← sum, BitVec.toNat_append, ← Nat.shiftLeft_add_eq_or_of_lt
    (BitVec.isLt _), Nat.shiftLeft_eq, Nat.mul_comm, Nat.add_comm]

/-- The long products are exact, and so are the products of many limbs that `UMAAL` builds. -/
theorem long_products {op : LongMul} {insn : Word} (head : op.head.Matches insn)
    (defined : (decode32 insn).undefined = false) (env : Env δ) (f : FetchResult)
    (m : Machine δ) {step : Word → Word → Word → Word → Word × Word} (runs : RunsUmaal δ step)
    (xs ms : List Word) :
    (∃ m', executeDecoded env f (decode32 insn) m = (.ok, m') ∧
      op.Computes (m.cpu.r (rn insn)) (m.cpu.r (rm insn)) (m.cpu.r (rdHi insn))
        (m.cpu.r (rdLo insn)) (m'.cpu.r (rdHi insn) ++ m'.cpu.r (rdLo insn)) ∧
      (∀ i, i ≠ rdHi insn → i ≠ rdLo insn → m'.cpu.r i = m.cpu.r i) ∧
      m'.cpu.xpsr = m.cpu.xpsr) ∧
    number (schoolbook step 0 xs ms (.replicate xs.length 0)) = number xs * number ms := by
  refine ⟨executeDecoded_long head defined env f m, ?_⟩
  have same : (List.replicate xs.length (0 : Word)).length = xs.length := List.length_replicate
  have none : (0 : Word).toNat = 0 := rfl
  rw [number, worth_schoolbook runs.mulAdds none xs ms same, worth_replicate none, Nat.zero_add]

/-- The board with the operands of `UMAAL r2, r3, r1, r0` in its registers. -/
def umaalBoard (x y t c : Word) : Machine Unit where
  toSys := { Board.sys with cpu := { Board.cpu with
    r := fun i => match i.val with
      | 0 => y
      | 1 => x
      | 2 => t
      | _ => c } }
  it := ⟨0, 0, 0⟩
  done := false
  resetAgain := false
  transfers := []

def umaalFetch : FetchResult := ⟨0xfbe12360, 4, false, 0, 0⟩

def umaalLimb (x y t c : Word) : Word × Word :=
  let m' := (executeDecoded Board.env umaalFetch (decode32 0xfbe12360) (umaalBoard x y t c)).2
  (m'.cpu.r 2, m'.cpu.r 3)

theorem umaalLimb_runs : RunsUmaal Unit umaalLimb := fun x y t c =>
  ⟨0xfbe12360, Board.env, umaalFetch, umaalBoard x y t c, by decide, by decide, rfl, rfl, rfl, rfl,
    rfl⟩

theorem long_products_board :
    (∃ m', executeDecoded Board.env umaalFetch (decode32 0xfbc00101)
        (umaalBoard 7 0xffffffff 0 0) = (.ok, m') ∧
      LongMul.smlal.Computes 0xffffffff 7 7 0xffffffff (m'.cpu.r 1 ++ m'.cpu.r 0) ∧
      (∀ i, i ≠ 1 → i ≠ 0 → m'.cpu.r i = (umaalBoard 7 0xffffffff 0 0).cpu.r i) ∧
      m'.cpu.xpsr = (umaalBoard 7 0xffffffff 0 0).cpu.xpsr) ∧
    number (schoolbook umaalLimb 0 [0xffffffff, 0xffffffff] [0xffffffff, 0, 0x80000000] [0, 0]) =
      number [0xffffffff, 0xffffffff] * number [0xffffffff, 0, 0x80000000] :=
  long_products (by decide : LongMul.smlal.head.Matches 0xfbc00101) (by decide) Board.env
    umaalFetch (umaalBoard 7 0xffffffff 0 0) umaalLimb_runs [0xffffffff, 0xffffffff]
    [0xffffffff, 0, 0x80000000]

end

end M33mu
