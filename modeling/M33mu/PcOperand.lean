import M33mu.DecodeFacts
import M33mu.Board

namespace M33mu

namespace Decoded

/-- The forms in which R15 is a source operand: `MOV`, `ADD` and `CMP` of high registers, `ADR` in
its three forms, the literal loads and the table branches. -/
def ReadsPc (d : Decoded) : Prop :=
  match d.kind with
  | .movReg => d.len = 2 ∧ d.rm = 15
  | .addReg | .cmpReg => d.len = 2 ∧ (d.rn = 15 ∨ d.rm = 15)
  | .adr | .ldrLiteral => True
  | .addImm => d.raw &&& 0xfbf08000 = 0xf2000000 ∧ d.rn = 15
  | .subImmNf => d.raw &&& 0xfbf08000 = 0xf2a00000 ∧ d.rn = 15
  | .ldrbImm | .ldrbReg | .ldrbPostImm | .ldrbPreImm | .ldrhImm | .ldrhReg | .ldrhPostImm
  | .ldrhPreImm | .ldrsbImm | .ldrsbReg | .ldrshImm | .ldrshReg | .ldrd => d.len = 4 ∧ d.rn = 15
  | .tbb | .tbh => d.rn = 15 ∨ d.rm = 15
  | _ => False

/-- The value that R15 stands for: four bytes on, and aligned for `ADR` and the literal loads. -/
def pcOperand (d : Decoded) (pcFetch : Word) : Word :=
  match d.kind with
  | .movReg | .addReg | .cmpReg | .tbb | .tbh => pcFetch + 4
  | _ => (pcFetch + 4) &&& ~~~3#32

/-- The kinds that do not take R15 from the register file, and the comparison of R15 with itself,
whose flags do not depend on it. -/
def SubstitutesPc (d : Decoded) : Prop :=
  match d.kind with
  | .adr | .ldrLiteral => True
  | .tbb | .tbh => d.rm ≠ 15
  | .cmpReg => d.rn = d.rm
  | _ => False

end Decoded

open DataProc Execute ExecHelpers

section

variable {δ : Type u} (env : Env δ)

/-- `ADDW` and `SUBW` of R15, with the stack pointer where it is the destination. -/
def adrOrSp (m : Machine δ) (f : FetchResult) (d : Decoded) (value : Word) : Outcome δ :=
  let m := (data m (put m.cpu.r d.rd value)).2
  if d.rd = 13 then m.setSp env f value else (.ok, m)

/-- `LDRD` from a base. -/
def dualFrom (m : Machine δ) (f : FetchResult) (d : Decoded) (base : Word) : Outcome δ :=
  let imm := d.imm &&& 0x3ff
  let moved := if d.imm.getLsbD 31 then base + imm else base - imm
  let addr := if d.imm.getLsbD 29 then moved else base
  m.load env f addr 4 false fun v1 m =>
    m.load env f (addr + 4) 4 false fun v2 m =>
      let m := (m.setReg d.rd v1).setReg d.rm v2
      if d.imm.getLsbD 30 then m.setRegOrSp env f d.rn moved else (.ok, m)

def tableFrom (m : Machine δ) (f : FetchResult) (d : Decoded) (pc rn rm : Word) : Outcome δ :=
  match tableEntry env m.world m.cpu.secState rn rm (d.kind = .tbh) with
  | (_, some entry, w) => (.cont, (m.withWorld w).handlePcWrite env ((pc + entry * 2) ||| 1))
  | (addr, none, w) => (.cont, (m.withWorld w).memFault env f addr false)

/-- The instruction with `pc` for R15 wherever it is a source. -/
def executeAs (pc : Word) (f : FetchResult) (d : Decoded) (m : Machine δ) : Outcome δ :=
  let src (i : Reg) : Word := if i = 15 then pc else m.cpu.r i
  match d.kind with
  | .movReg =>
    if d.rd = 15 then (.ok, m.handlePcWrite env (src d.rm))
    else m.setRegOrSp env f d.rd (src d.rm)
  | .addReg =>
    data m (arith m.cpu.r d.rd (addWithCarry (src d.rn) (src d.rm) false)
      (d.len = 2 && d.raw &&& 0xfc00 != 0x4400 && m.it.remaining ≤ 1))
  | .cmpReg => data m (compare m.cpu.r (addWithCarry (src d.rn) (~~~src d.rm) true))
  | .adr => data m (put m.cpu.r d.rd (pc + d.imm))
  | .addImm => adrOrSp env m f d (pc + d.imm)
  | .subImmNf => adrOrSp env m f d (pc - d.imm)
  | .ldrLiteral => loadWord env m f d (pc + d.imm) true
  | .ldrbImm => loadPart env m f d (src d.rn + d.imm) 1 (· &&& 0xff)
  | .ldrbReg => loadPart env m f d (src d.rn + src d.rm <<< (d.imm &&& 0x1f)) 1 (· &&& 0xff)
  | .ldrbPostImm => loadByteWriteBack env m f d (src d.rn) (src d.rn + d.imm)
  | .ldrbPreImm => loadByteWriteBack env m f d (src d.rn + d.imm) (src d.rn + d.imm)
  | .ldrhImm => loadPart env m f d (src d.rn + d.imm) 2 (· &&& 0xffff)
  | .ldrhReg => loadPart env m f d (src d.rn + src d.rm <<< (d.imm &&& 0x3)) 2 (· &&& 0xffff)
  | .ldrhPostImm => loadHalfWriteBack env m f d (src d.rn) (src d.rn + d.imm)
  | .ldrhPreImm => loadHalfWriteBack env m f d (src d.rn + d.imm) (src d.rn + d.imm)
  | .ldrsbImm => loadPart env m f d (src d.rn + d.imm) 1 extSb
  | .ldrsbReg => loadPart env m f d (src d.rn + src d.rm) 1 extSb
  | .ldrshImm => loadPart env m f d (src d.rn + d.imm) 2 extSh
  | .ldrshReg => loadPart env m f d (src d.rn + src d.rm <<< (d.imm &&& 0x3)) 2 extSh
  | .ldrd => dualFrom env m f d (src d.rn)
  | .tbb | .tbh => tableFrom env m f d pc (src d.rn) (src d.rm)
  | _ => executeDecoded env f d m

end

theorem readAs_self (r : Regs) (i : Reg) : (if i = 15 then r 15 else r i) = r i := by
  split
  · rename_i is
    rw [is]
  · rfl

section

variable {δ : Type u}

def answering (answer : Word → Option Word) : Env δ where
  mmio :=
    [⟨0, 0xffffffff, fun off _ w => (answer off, w), fun _ _ _ w => (false, w)⟩,
      ⟨0xffffffff, 1, fun off _ w => (answer (0xffffffff + off), w), fun _ _ _ w => (false, w)⟩]
  blockSecure := none
  flashWrite := none
  quitOnFaults := false
  optGdb := false

def bare (dev : δ) : World δ where
  scs := .init 0
  nvic := .init
  sauLayout := .unknown
  resetPending := false
  map := .init
  activeSec := .secure
  faultPending := false
  dev := dev

def uniform (dev : δ) (v : Word) : Machine δ where
  cpu := { Board.cpu with r := fun _ => v }
  world := bare dev
  trace := []
  it := ⟨0, 0, 0⟩
  done := false
  resetAgain := false
  transfers := []

theorem busRead_answering (answer : Word → Option Word) (w : World δ) (addr size : Word) :
    w.busRead (answering answer) addr size = (answer addr, w) := by
  have low : decide ((0 : Word) ≤ addr) = true := decide_eq_true (by bv_omega)
  by_cases below : addr < 0xffffffff
  · have here : decide (addr - 0 < 0xffffffff) = true := by simpa using below
    simp only [World.busRead, World.busFind, answering, List.find?_cons, low, here, Bool.and_true]
    exact congrArg (fun a => (answer a, w)) (BitVec.sub_zero addr)
  · obtain rfl : addr = 0xffffffff := by bv_omega
    have last : decide ((0xffffffff : Word) - 0 < 0xffffffff) = false := by decide
    have top : (decide ((0xffffffff : Word) ≤ 0xffffffff) &&
      decide ((0xffffffff : Word) - 0xffffffff < 1)) = true := by decide
    simp only [World.busRead, World.busFind, answering, List.find?_cons, last, Bool.and_false, top]
    rfl

theorem readMem_init (addr size : Word) :
    (Memmap.init.readFlash addr size <|> Memmap.init.readRam addr size) = none := rfl

theorem read_answering (answer : Word → Option Word) {w : World δ} (blank : w.map = .init)
    (sec : SecState) (addr size : Word) :
    w.read (answering answer) sec addr size = (answer addr, { w with activeSec := sec }) := by
  have free : w.map.prot = none := congrArg Memmap.prot blank
  have intercepted : w.interceptOk (answering answer) .read sec addr size = (true, w) := by
    rw [World.interceptOk, free]
  rw [World.read, intercepted]
  simp only [blank, readMem_init]
  exact busRead_answering answer _ addr size

theorem read8_answering (answer : Word → Option Word) {w : World δ} (blank : w.map = .init)
    (sec : SecState) (addr : Word) :
    w.read8 (answering answer) sec addr = ((answer addr).map (·.setWidth 8), w) := by
  have free : w.map.prot = none := congrArg Memmap.prot blank
  have intercepted : w.interceptOk (answering answer) .read sec addr 1 = (true, w) := by
    rw [World.interceptOk, free]
  rw [World.read8, intercepted]
  simp only [blank, Memmap.init, Option.bind_none]
  show (((w.busRead (answering answer) addr 1).1.map (·.setWidth 8)),
    (w.busRead (answering answer) addr 1).2) = _
  rw [busRead_answering]

theorem load_answering {answer : Word → Option Word} {m : Machine δ} (blank : m.world.map = .init)
    {f : FetchResult} {addr size : Word} {isExec : Bool} {k : Word → Machine δ → Outcome δ}
    (kept : ∀ v m', m'.world.map = .init → (k v m').1 = .ok) :
    (m.load (answering answer) f addr size isExec k).1 =
      if (answer addr).isSome then .ok else .cont := by
  rw [Machine.load, read_answering answer blank]
  cases answer addr with
  | none => rfl
  | some v => exact kept v _ blank

theorem readWords_answering {answer : Word → Option Word} (all : ∀ addr, (answer addr).isSome)
    {w : World δ} (blank : w.map = .init) (sec : SecState) (addr : Word) (n : Nat) :
    ∃ vs w', w.readWords (answering answer) sec addr n = (some vs, w') ∧ vs.length = n := by
  induction n generalizing w addr with
  | zero => exact ⟨[], w, rfl, rfl⟩
  | succ n ih =>
    obtain ⟨v, here⟩ := Option.isSome_iff_exists.mp (all addr)
    obtain ⟨vs, w', rest, len⟩ := ih (w := { w with activeSec := sec }) blank (addr + 4)
    refine ⟨v :: vs, w', ?_, congrArg (· + 1) len⟩
    rw [World.readWords, read_answering answer blank, here]
    simp only [rest, Option.map_some]

theorem readFrame_answering {answer : Word → Option Word} (all : ∀ addr, (answer addr).isSome)
    {w : World δ} (blank : w.map = .init) (sec : SecState) (sp : Word) :
    ∃ frame w', w.readFrame (answering answer) sec sp = (some frame, w') := by
  obtain ⟨vs, w', eq, len⟩ := readWords_answering all blank sec sp 8
  match vs, len with
  | [r0, r1, r2, r3, r12, lr, pc, xpsr], _ =>
    exact ⟨⟨r0, r1, r2, r3, r12, lr, pc, xpsr⟩, w', by rw [World.readFrame, eq]⟩

theorem handlePcWrite_answering {answer : Word → Option Word} (all : ∀ addr, (answer addr).isSome)
    {m : Machine δ} (blank : m.world.map = .init) (v : Word) :
    if isExcReturn v then
      ∃ frame, (m.handlePcWrite (answering answer) v).trace =
        .ret v m.cpu.mode m.cpu.secState frame :: m.trace
    else m.handlePcWrite (answering answer) v = m.setReg 15 (v ||| 1) := by
  split
  · rename_i exc
    obtain ⟨info, hd⟩ : ∃ info, excReturnDecode v = some info := by
      rw [excReturnDecode, if_pos exc]
      exact ⟨_, rfl⟩
    obtain ⟨frame, w', read⟩ := readFrame_answering all blank info.targetSec (m.cpu.unstackSp info)
    rw [Machine.handlePcWrite, if_pos exc, Machine.excReturn_of_frame _ hd read]
    exact ⟨_, rfl⟩
  · rename_i plain
    rw [Machine.handlePcWrite, if_neg plain]

theorem handlePcWrite_ne {answer : Word → Option Word} (all : ∀ addr, (answer addr).isSome)
    {m : Machine δ} (blank : m.world.map = .init) {v v' : Word} (ne : v ||| 1 ≠ v' ||| 1) :
    m.handlePcWrite (answering answer) v ≠ m.handlePcWrite (answering answer) v' := by
  have left := handlePcWrite_answering all blank v
  have right := handlePcWrite_answering all blank v'
  intro same
  split at left <;> split at right
  · obtain ⟨frame, left⟩ := left
    obtain ⟨frame', right⟩ := right
    have heads := (left.symm.trans (congrArg (·.trace) same)).trans right
    simp only [List.cons.injEq, Event.ret.injEq] at heads
    exact ne (congrArg (· ||| 1) heads.1.1)
  · obtain ⟨frame, left⟩ := left
    have lengths := congrArg List.length ((left.symm.trans (congrArg (·.trace) same)).trans
      (congrArg (·.trace) right))
    exact absurd lengths (Nat.succ_ne_self _)
  · obtain ⟨frame, right⟩ := right
    have lengths := congrArg List.length ((right.symm.trans (congrArg (·.trace) same.symm)).trans
      (congrArg (·.trace) left))
    exact absurd lengths (Nat.succ_ne_self _)
  · have r15 := congrArg (·.cpu.r 15) ((left.symm.trans same).trans right)
    exact ne (by simpa [Machine.setReg] using r15)

def loadAddress (d : Decoded) (r : Regs) (v : Word) : Word :=
  let rm := if d.rm = 15 then v else r d.rm
  match d.kind with
  | .ldrbImm | .ldrbPreImm | .ldrhImm | .ldrhPreImm | .ldrsbImm | .ldrshImm => v + d.imm
  | .ldrbPostImm | .ldrhPostImm => v
  | .ldrbReg => v + rm <<< (d.imm &&& 0x1f)
  | .ldrhReg | .ldrshReg => v + rm <<< (d.imm &&& 0x3)
  | .ldrsbReg => v + rm
  | _ =>
    if d.imm.getLsbD 29 then
      if d.imm.getLsbD 31 then v + (d.imm &&& 0x3ff) else v - (d.imm &&& 0x3ff)
    else v

def IsLoad (d : Decoded) : Prop :=
  d.kind ∈ [OpKind.ldrbImm, .ldrbReg, .ldrbPostImm, .ldrbPreImm, .ldrhImm, .ldrhReg, .ldrhPostImm,
    .ldrhPreImm, .ldrsbImm, .ldrsbReg, .ldrshImm, .ldrshReg, .ldrd]

theorem executeAs_load {answer : Word → Option Word} {m : Machine δ} (blank : m.world.map = .init)
    {f : FetchResult} {d : Decoded} (load : IsLoad d) (base : d.rn = 15) (v : Word)
    (pair : ∀ addr, (answer (addr + 4)).isSome = (answer addr).isSome) :
    (executeAs (answering answer) v f d m).1 =
      if (answer (loadAddress d m.cpu.r v)).isSome then .ok else .cont := by
  have ne : (15 : Reg) ≠ 13 := by decide
  simp only [IsLoad, List.mem_cons, List.not_mem_nil, or_false] at load
  rcases load with is | is | is | is | is | is | is | is | is | is | is | is | is
  case inr.inr.inr.inr.inr.inr.inr.inr.inr.inr.inr.inr =>
    simp only [executeAs, loadAddress, is, base, if_true, dualFrom]
    generalize (if d.imm.getLsbD 29 = true then
      if d.imm.getLsbD 31 = true then v + (d.imm &&& 0x3ff) else v - (d.imm &&& 0x3ff)
      else v) = addr
    have second := pair addr
    rw [Machine.load, read_answering answer blank]
    cases found : answer addr with
    | none => rfl
    | some v1 =>
      rw [found] at second
      rw [← second]
      have kept : (m.withWorld { m.world with activeSec := m.cpu.secState }).world.map = .init := blank
      refine load_answering kept fun v2 m' blank' => ?_
      split
      · rw [Machine.setRegOrSp, if_neg ne]
      · rfl
  all_goals
    simp only [executeAs, loadAddress, is, base, if_true]
    refine load_answering blank fun v m' blank' => ?_
    first
    | rfl
    | rw [base, Machine.setRegOrSp, if_neg ne]

theorem getLsbD_zero_add (x y : Word) : (x + y).getLsbD 0 = (x.getLsbD 0 ^^ y.getLsbD 0) := by
  rw [BitVec.getLsbD_add (by decide), BitVec.carry_zero, Bool.xor_false]

theorem getLsbD_zero_sub (x y : Word) : (x - y).getLsbD 0 = (x.getLsbD 0 ^^ y.getLsbD 0) := by
  have sum := getLsbD_zero_add (x - y) y
  rw [BitVec.sub_add_cancel] at sum
  rw [sum, Bool.xor_assoc, Bool.xor_self, Bool.xor_false]

theorem getLsbD_one_double (x : Word) : (x + x).getLsbD 1 = x.getLsbD 0 := by
  have double : x + x = x <<< 1 := by
    apply BitVec.eq_of_toNat_eq
    rw [BitVec.toNat_add, BitVec.toNat_shiftLeft, Nat.shiftLeft_eq]
    omega
  rw [double]
  simp

/-- An odd value and an even one lead to addresses that differ in bit 0, or in bit 1 where the value
is added to itself. -/
theorem exists_bit_ne (d : Decoded) (r : Regs) {v v' : Word} (odd : v.getLsbD 0 = true)
    (even : v'.getLsbD 0 = false) :
    ∃ i < 2, (loadAddress d r v).getLsbD i ≠ (loadAddress d r v').getLsbD i := by
  have offset (c : Word) : (v + c).getLsbD 0 ≠ (v' + c).getLsbD 0 := by
    rw [getLsbD_zero_add, getLsbD_zero_add, odd, even]
    cases c.getLsbD 0 <;> decide
  have below (c : Word) : (v - c).getLsbD 0 ≠ (v' - c).getLsbD 0 := by
    rw [getLsbD_zero_sub, getLsbD_zero_sub, odd, even]
    cases c.getLsbD 0 <;> decide
  have itself : v.getLsbD 0 ≠ v'.getLsbD 0 := by
    rw [odd, even]
    decide
  have indexed (s : Nat) : ∃ i < 2,
      (v + (if d.rm = 15 then v else r d.rm) <<< s).getLsbD i ≠
        (v' + (if d.rm = 15 then v' else r d.rm) <<< s).getLsbD i := by
    split
    · cases s with
      | zero =>
        refine ⟨1, by decide, ?_⟩
        rw [BitVec.shiftLeft_zero, BitVec.shiftLeft_zero, getLsbD_one_double, getLsbD_one_double]
        exact itself
      | succ s =>
        refine ⟨0, by decide, ?_⟩
        have clear (x : Word) : (x <<< (s + 1)).getLsbD 0 = false := by simp
        rw [getLsbD_zero_add, getLsbD_zero_add, clear, clear, Bool.xor_false, Bool.xor_false]
        exact itself
    · exact ⟨0, by decide, offset _⟩
  have plain := indexed 0
  rw [BitVec.shiftLeft_zero, BitVec.shiftLeft_zero] at plain
  simp only [loadAddress]
  split
  iterate 6 · exact ⟨0, by decide, offset _⟩
  iterate 2 · exact ⟨0, by decide, itself⟩
  · exact indexed _
  iterate 2 · exact indexed _
  · exact plain
  · split
    · split
      · exact ⟨0, by decide, offset _⟩
      · exact ⟨0, by decide, below _⟩
    · exact ⟨0, by decide, itself⟩

theorem executeDecoded_load {env : Env δ} {m : Machine δ} {f : FetchResult} {d : Decoded}
    (load : IsLoad d) : executeDecoded env f d m = executeAs env (m.cpu.r 15) f d m := by
  simp only [IsLoad, List.mem_cons, List.not_mem_nil, or_false] at load
  rcases load with is | is | is | is | is | is | is | is | is | is | is | is | is
  case inr.inr.inr.inr.inr.inr.inr.inr.inr.inr.inr.inr =>
    simp only [executeDecoded, executeAs, is, readAs_self, execDual, dualFrom, if_true]
  all_goals
    simp only [executeDecoded, executeAs, is, readAs_self]
    try rfl

theorem setRegOrSp_r {env : Env δ} {m : Machine δ} (free : ∀ v, Machine.spLimited m.cpu v = false)
    (f : FetchResult) (i : Reg) (v : Word) : (m.setRegOrSp env f i v).2.cpu.r i = v := by
  rw [Machine.setRegOrSp]
  split
  · rename_i is
    rw [Machine.setSp, free, is]
    exact m.cpu.setActiveSp_r_13 v
  · exact m.cpu.setReg_r_self i v

def nextPc (f : FetchResult) (d : Decoded) : Word := (f.pcFetch + d.len.setWidth 32) ||| 1

def UsesForPc (δ : Type u) (f : FetchResult) (d : Decoded) (v : Word) : Prop :=
  ∀ (env : Env δ) (m : Machine δ), m.cpu.r 15 = nextPc f d →
    executeDecoded env f d m = executeAs env v f d m

def Differs (δ : Type u) (f : FetchResult) (d : Decoded) : Prop :=
  ∃ (env : Env δ) (m : Machine δ), m.cpu.r 15 = nextPc f d ∧
    executeDecoded env f d m ≠ executeAs env (d.pcOperand f.pcFetch) f d m

theorem pcOperand_aligned {d : Decoded} (load : IsLoad d) (p : Word) :
    d.pcOperand p = (p + 4) &&& ~~~3#32 := by
  simp only [IsLoad, List.mem_cons, List.not_mem_nil, or_false] at load
  rcases load with is | is | is | is | is | is | is | is | is | is | is | is | is <;>
    simp only [Decoded.pcOperand, is]

theorem odd_or_one (v : Word) : (v ||| 1).getLsbD 0 = true := by simp

theorem even_aligned (v : Word) : (v &&& ~~~3#32).getLsbD 0 = false := by
  have clear : (~~~3#32).getLsbD 0 = false := by decide
  rw [BitVec.getLsbD_and, clear, Bool.and_false]

def whereBit (i : Nat) (b : Bool) (addr : Word) : Option Word :=
  if addr.getLsbD i = b then some 0 else none

theorem whereBit_pair {i : Nat} (low : i < 2) (b : Bool) (addr : Word) :
    (whereBit i b (addr + 4)).isSome = (whereBit i b addr).isSome := by
  have ends : (addr + 4).setWidth 2 = addr.setWidth 2 := by
    rw [BitVec.setWidth_add _ _ (by decide)]
    simp
  have same : (addr + 4).getLsbD i = addr.getLsbD i := by
    simpa only [BitVec.getLsbD_setWidth, low, decide_true, Bool.true_and] using
      congrArg (BitVec.getLsbD · i) ends
  rw [whereBit, same]
  rfl

theorem dataOrSp_eq {env : Env δ} {m : Machine δ} {f : FetchResult} {d : Decoded} {v : Word}
    (res : dataOf m f d = put m.cpu.r d.rd v) : dataOrSp env m f d = adrOrSp env m f d v := by
  simp only [dataOrSp, adrOrSp, res]
  split
  · rename_i sp
    rw [sp]
    have written : (data m (put m.cpu.r 13 v)).2.cpu.r 13 = v := by
      show Function.update m.cpu.r 13 v 13 = v
      exact Function.update_self ..
    rw [written]
  · rfl

theorem adrOrSp_r {env : Env δ} {m : Machine δ} (free : ∀ v, Machine.spLimited m.cpu v = false)
    (f : FetchResult) (d : Decoded) (v : Word) : (adrOrSp env m f d v).2.cpu.r d.rd = v := by
  simp only [adrOrSp]
  split
  · rename_i sp
    have free' : Machine.spLimited (data m (put m.cpu.r d.rd v)).2.cpu v = false := free v
    rw [Machine.setSp, free', sp]
    exact Cpu.setActiveSp_r_13 _ v
  · exact Function.update_self ..

theorem executeDecoded_addw {env : Env δ} {m : Machine δ} {f : FetchResult} {d : Decoded}
    (is : d.kind = .addImm) (source : d.rn = 15) (wide : d.len ≠ 2) (quiet : sBit d = false) :
    executeDecoded env f d m = adrOrSp env m f d (m.cpu.r 15 + d.imm) := by
  simp only [executeDecoded, is]
  refine dataOrSp_eq ?_
  simp only [dataOf, DataProc.dataProc, is, addImm, source, wide, quiet, arith, putFlags, put,
    ExecHelpers.addWithCarry_value, if_false, Bool.false_and, Bool.false_eq_true]

theorem executeDecoded_subw {env : Env δ} {m : Machine δ} {f : FetchResult} {d : Decoded}
    (is : d.kind = .subImmNf) (source : d.rn = 15) :
    executeDecoded env f d m = adrOrSp env m f d (m.cpu.r 15 - d.imm) := by
  simp only [executeDecoded, is]
  refine dataOrSp_eq ?_
  simp only [dataOf, DataProc.dataProc, is, subImmNf, source]

def entryAt (a addr : Word) : Option Word := some (if addr = a then 1 else 0)

theorem tableEntry_entryAt (a : Word) {w : World δ} (blank : w.map = .init) (sec : SecState)
    (rn rm : Word) (isTbh : Bool) :
    tableEntry (answering (entryAt a)) w sec rn rm isTbh =
      (rn + (if isTbh then rm <<< 1 else rm),
        some (if rn + (if isTbh then rm <<< 1 else rm) = a then 1 else 0),
        if isTbh then { w with activeSec := sec } else w) := by
  simp only [tableEntry, read_answering _ blank, read8_answering _ blank, entryAt]
  cases isTbh <;> simp only [Bool.false_eq_true, if_false, if_true, Option.map_some] <;> split <;> rfl

theorem even_add {v c : Word} (even : v.getLsbD 0 = false) (even' : c.getLsbD 0 = false) :
    (v + c).getLsbD 0 = false := by
  rw [getLsbD_zero_add, even, even']
  rfl

theorem even_plus_four {p : Word} (even : p.getLsbD 0 = false) : (p + 4).getLsbD 0 = false :=
  even_add even rfl

theorem clear_of_even {v : Word} (even : v.getLsbD 0 = false) : v &&& ~~~1#32 = v := by
  apply BitVec.eq_of_getLsbD_eq
  intro i hi
  rw [BitVec.getLsbD_and, BitVec.getLsbD_not, BitVec.getLsbD_one]
  cases i with
  | zero => rw [even, Bool.false_and]
  | succ i => simp [hi]

theorem execTableBranch_eq {env : Env δ} {m : Machine δ} {f : FetchResult} {d : Decoded}
    (even : f.pcFetch.getLsbD 0 = false) :
    execTableBranch env m f d = tableFrom env m f d (f.pcFetch + 4)
      (if d.rn = 15 then f.pcFetch + 4 else m.cpu.r d.rn) (m.cpu.r d.rm) := by
  have base : tableBase m f d = if d.rn = 15 then f.pcFetch + 4 else m.cpu.r d.rn := by
    rw [tableBase, clear_of_even (even_plus_four even)]
  have target (entry : Word) : tableTarget f entry = (f.pcFetch + 4 + entry * 2) ||| 1 := by
    rw [tableTarget, clear_of_even (even_plus_four even)]
  rw [execTableBranch, tableFrom, base]
  generalize tableEntry env m.world m.cpu.secState _ _ _ = found
  obtain ⟨addr, entry, w⟩ := found
  cases entry with
  | none => rfl
  | some entry => simp only [target]

theorem and_ne_of_lt {x mask v : Word} (lt : x < v) : x &&& mask ≠ v := by
  intro same
  have le : (x &&& mask).toNat ≤ x.toNat := by
    rw [BitVec.toNat_and]
    exact Nat.and_le_left
  rw [same] at le
  exact absurd lt (by bv_omega)

theorem regForm_of_narrow {d : Decoded} (narrow : d.raw < 0x10000) : regForm d = false := by
  have ne : d.raw &&& 0xfe000000 ≠ 0xea000000 := and_ne_of_lt (by bv_omega)
  simpa [regForm] using ne

theorem addWithCarry_self (v : Word) :
    ExecHelpers.addWithCarry v (~~~v) true = ⟨0, true, false⟩ := by
  have sum : v.setWidth 64 + (~~~v).setWidth 64 + 1#64 = 0x100000000#64 := by bv_omega
  have apart : (~~~(v ^^^ ~~~v)).getLsbD 31 = false := by simp
  simp only [ExecHelpers.addWithCarry, if_true, sum, BitVec.getLsbD_and, apart, Bool.false_and]
  rfl

theorem executeDecoded_of_substitutes {env : Env δ} {m : Machine δ} {f : FetchResult} {d : Decoded}
    (fetched : f.Fetched) (len : d.len = f.len) (raw : d.raw = f.insn) (reads : d.ReadsPc)
    (substitutes : d.SubstitutesPc) :
    executeDecoded env f d m = executeAs env (d.pcOperand f.pcFetch) f d m := by
  simp only [Decoded.SubstitutesPc] at substitutes
  split at substitutes <;> rename_i is
  · simp only [executeDecoded, executeAs, is, dataOf, DataProc.dataProc, Decoded.pcOperand]
    rfl
  · simp only [executeDecoded, executeAs, is, Decoded.pcOperand]
  · simp only [executeDecoded, executeAs, is, Decoded.pcOperand, execTableBranch_eq fetched.even,
      if_neg substitutes]
  · simp only [executeDecoded, executeAs, is, Decoded.pcOperand, execTableBranch_eq fetched.even,
      if_neg substitutes]
  · simp only [Decoded.ReadsPc, is, substitutes, or_self] at reads
    have narrow : regForm d = false :=
      regForm_of_narrow (raw ▸ fetched.narrow (len ▸ reads.1))
    simp only [executeDecoded, executeAs, is, dataOf, DataProc.dataProc, cmpReg, narrow, substitutes,
      addWithCarry_self, Bool.false_eq_true, if_false]
  · exact substitutes.elim

variable [Inhabited δ]

theorem differs_load {f : FetchResult} {d : Decoded} (load : IsLoad d) (base : d.rn = 15) :
    Differs δ f d := by
  let m := uniform (δ := δ) default (nextPc f d)
  obtain ⟨i, low, ne⟩ := exists_bit_ne (v := nextPc f d) d m.cpu.r (odd_or_one _)
    (even_aligned (f.pcFetch + 4))
  have pair := whereBit_pair low ((loadAddress d m.cpu.r (nextPc f d)).getLsbD i)
  refine ⟨answering (whereBit i ((loadAddress d m.cpu.r (nextPc f d)).getLsbD i)), m, rfl,
    fun same => ?_⟩
  have here := executeAs_load (m := m) (f := f) rfl load base (nextPc f d) pair
  have there := executeAs_load (m := m) (f := f) rfl load base (d.pcOperand f.pcFetch) pair
  rw [← same, executeDecoded_load load, pcOperand_aligned load] at there
  have status := here.symm.trans there
  rw [whereBit, whereBit, if_neg ne.symm, if_pos rfl] at status
  exact absurd status (by decide)

theorem exists_uniform (v : Word) : ∃ m : Machine δ, m.world.map = .init ∧
    (∀ w, Machine.spLimited m.cpu w = false) ∧ ∀ i, m.cpu.r i = v := by
  refine ⟨uniform default v, rfl, fun w => ?_, fun _ => rfl⟩
  have same : (uniform (δ := δ) default v).cpu.getActiveSplim = Board.cpu.getActiveSplim := rfl
  have none : Board.cpu.getActiveSplim = 0 := by decide
  rw [Machine.spLimited, same, none]
  rfl

theorem nextPc_ne {f : FetchResult} {d : Decoded} {v : Word} (even : v.getLsbD 0 = false) :
    nextPc f d ≠ v := by
  intro same
  have odd : v.getLsbD 0 = true := same ▸ odd_or_one (f.pcFetch + d.len.setWidth 32)
  rw [even] at odd
  exact absurd odd (by decide)

theorem or_one_of_even {v : Word} (even : v.getLsbD 0 = false) : v ||| 1 = v + 1 := by
  have apart : v &&& 1 = 0 := by
    refine BitVec.and_one_eq_setWidth_ofBool_getLsbD.trans ?_
    rw [even]
    rfl
  exact (BitVec.add_eq_or_of_and_eq_zero v 1 apart).symm

theorem nextPc_short {f : FetchResult} {d : Decoded} (even : f.pcFetch.getLsbD 0 = false)
    (short : d.len = 2) : nextPc f d = f.pcFetch + 3 := by
  rw [nextPc, short]
  refine (or_one_of_even (even_add even rfl)).trans ?_
  bv_omega

theorem differs_movReg {f : FetchResult} {d : Decoded} (even : f.pcFetch.getLsbD 0 = false)
    (is : d.kind = .movReg) (short : d.len = 2) (source : d.rm = 15) : Differs δ f d := by
  obtain ⟨m, blank, free, reg⟩ := exists_uniform (δ := δ) (nextPc f d)
  refine ⟨answering fun _ => some 0, m, reg 15, fun same => ?_⟩
  simp only [executeDecoded, executeAs, is, source, Decoded.pcOperand, if_true, reg] at same
  split at same
  · have ne : nextPc f d ||| 1 ≠ (f.pcFetch + 4) ||| 1 := by
      rw [nextPc_short even short, or_one_of_even (even_plus_four even), ← nextPc_short even short,
        nextPc, BitVec.or_assoc, BitVec.or_self]
      rw [← nextPc, nextPc_short even short]
      bv_omega
    exact handlePcWrite_ne (fun _ => rfl) blank ne (Prod.ext_iff.mp same).2
  · have values := congrArg (·.2.cpu.r d.rd) same
    simp only [setRegOrSp_r free] at values
    exact nextPc_ne (even_plus_four even) values

theorem differs_addReg {f : FetchResult} {d : Decoded} (even : f.pcFetch.getLsbD 0 = false)
    (is : d.kind = .addReg) (short : d.len = 2) (narrow : DataProc.regForm d = false)
    (source : d.rn = 15 ∨ d.rm = 15) : Differs δ f d := by
  obtain ⟨m, -, -, reg⟩ := exists_uniform (δ := δ) (nextPc f d)
  refine ⟨answering fun _ => some 0, m, reg 15, fun same => ?_⟩
  have values := congrArg (·.2.cpu.r d.rd) same
  simp only [executeDecoded, executeAs, is, Decoded.pcOperand, data, dataOf, DataProc.dataProc,
    addReg, narrow, arith, putFlags, Cpu.withData, Function.update_self, Bool.false_eq_true,
    if_false, ExecHelpers.addWithCarry_value, reg, nextPc_short even short] at values
  split at values <;> split at values
  · bv_omega
  · bv_omega
  · bv_omega
  · rename_i other other'
    exact source.elim other other'

theorem differs_cmpReg {f : FetchResult} {d : Decoded} (even : f.pcFetch.getLsbD 0 = false)
    (is : d.kind = .cmpReg) (narrow : DataProc.regForm d = false)
    (source : d.rn = 15 ∨ d.rm = 15) (ne : d.rn ≠ d.rm) : Differs δ f d := by
  obtain ⟨m, -, -, reg⟩ := exists_uniform (δ := δ) (nextPc f d)
  refine ⟨answering fun _ => some 0, m, reg 15, fun same => ?_⟩
  have flags := congrArg (·.2.cpu.xpsr.getLsbD 30) same
  simp only [executeDecoded, executeAs, is, Decoded.pcOperand, data, dataOf, DataProc.dataProc,
    cmpReg, narrow, DataProc.compare, Cpu.withData, FlagWrite.z_apply, Bool.false_eq_true, if_false,
    ExecHelpers.addWithCarry_not, reg, BitVec.sub_self] at flags
  have differ := nextPc_ne (f := f) (d := d) (even_plus_four even)
  split at flags <;> split at flags
  · rename_i rn rm
    exact ne (rn.trans rm.symm)
  · have gap : f.pcFetch + 4 - nextPc f d = 0 := by simpa using flags
    exact differ (by bv_omega)
  · have gap : nextPc f d - (f.pcFetch + 4) = 0 := by simpa using flags
    exact differ (by bv_omega)
  · rename_i other other'
    exact source.elim other other'

theorem differs_wide {f : FetchResult} {d : Decoded} (op : Word → Word)
    (inj : ∀ v v', op v = op v' → v = v')
    (code : ∀ (env : Env δ) (m : Machine δ),
      executeDecoded env f d m = adrOrSp env m f d (op (m.cpu.r 15)))
    (spec : ∀ (env : Env δ) (m : Machine δ) (pc : Word),
      executeAs env pc f d m = adrOrSp env m f d (op pc))
    (aligned : d.pcOperand f.pcFetch = (f.pcFetch + 4) &&& ~~~3#32) : Differs δ f d := by
  obtain ⟨m, -, free, reg⟩ := exists_uniform (δ := δ) (nextPc f d)
  refine ⟨answering fun _ => some 0, m, reg 15, fun same => ?_⟩
  rw [code, spec, reg, aligned] at same
  have values := congrArg (·.2.cpu.r d.rd) same
  simp only [adrOrSp_r free] at values
  exact nextPc_ne (even_aligned _) (inj _ _ values)

theorem nextPc_wide {f : FetchResult} {d : Decoded} (even : f.pcFetch.getLsbD 0 = false)
    (wide : d.len = 4) : nextPc f d = f.pcFetch + 5 := by
  rw [nextPc, wide]
  refine (or_one_of_even (even_plus_four even)).trans ?_
  bv_omega

theorem differs_table {f : FetchResult} {d : Decoded} (even : f.pcFetch.getLsbD 0 = false)
    (sized : d.len = 2 ∨ d.len = 4) (is : d.kind = .tbb ∨ d.kind = .tbh) (source : d.rm = 15) :
    Differs δ f d := by
  obtain ⟨m, blank, -, reg⟩ := exists_uniform (δ := δ) (nextPc f d)
  let base := if d.rn = 15 then f.pcFetch + 4 else nextPc f d
  let shifted (v : Word) : Word := if decide (d.kind = .tbh) then v <<< 1 else v
  refine ⟨answering (entryAt (base + shifted (nextPc f d))), m, reg 15, fun same => ?_⟩
  have code : executeDecoded (answering (entryAt (base + shifted (nextPc f d)))) f d m =
      tableFrom (answering (entryAt (base + shifted (nextPc f d)))) m f d (f.pcFetch + 4) base
        (nextPc f d) := by
    rcases is with is | is <;>
      simp only [executeDecoded, is, execTableBranch_eq even, reg, base]
  have spec : executeAs (answering (entryAt (base + shifted (nextPc f d)))) (d.pcOperand f.pcFetch) f
      d m = tableFrom (answering (entryAt (base + shifted (nextPc f d)))) m f d (f.pcFetch + 4) base
        (f.pcFetch + 4) := by
    rcases is with is | is <;>
      simp only [executeAs, is, Decoded.pcOperand, source, reg, base, if_true]
  rw [code, spec] at same
  have apart : base + shifted (f.pcFetch + 4) ≠ base + shifted (nextPc f d) := by
    rcases sized with short | wide
    · simp only [shifted, nextPc_short even short]
      split <;> bv_omega
    · simp only [shifted, nextPc_wide even wide]
      split <;> bv_omega
  simp only [tableFrom, tableEntry_entryAt _ blank] at same
  rw [if_pos rfl, if_neg apart] at same
  have targets : (f.pcFetch + 4 + 1 * 2 ||| 1) ||| 1 ≠ (f.pcFetch + 4 + 0 * 2 ||| 1) ||| 1 := by
    have four := even_plus_four even
    rw [BitVec.or_assoc, BitVec.or_assoc, BitVec.or_self, or_one_of_even (even_add four rfl),
      or_one_of_even (even_add four rfl)]
    bv_omega
  refine handlePcWrite_ne (fun addr => rfl) ?_ targets (Prod.ext_iff.mp same).2
  cases decide (d.kind = .tbh) <;> exact blank

theorem addw_quiet {d : Decoded} (pattern : d.raw &&& 0xfbf08000 = 0xf2000000) :
    sBit d = false ∧ ¬ d.raw < 0x10000 := by
  refine ⟨?_, fun lt => and_ne_of_lt (by bv_omega) pattern⟩
  have bit := congrArg (BitVec.getLsbD · 20) pattern
  have set : (0xfbf08000 : Word).getLsbD 20 = true := by decide
  have clear : (0xf2000000 : Word).getLsbD 20 = false := by decide
  show d.raw.getLsbD 20 = false
  simpa only [BitVec.getLsbD_and, set, clear, Bool.and_true] using bit

theorem differs_of_not {f : FetchResult} {d : Decoded} (fetched : f.Fetched) (len : d.len = f.len)
    (raw : d.raw = f.insn) (reads : d.ReadsPc) (kept : ¬ d.SubstitutesPc) : Differs δ f d := by
  have narrow (short : d.len = 2) : d.raw < 0x10000 := raw ▸ fetched.narrow (len ▸ short)
  have even := fetched.even
  have sized : d.len = 2 ∨ d.len = 4 := len ▸ fetched.sized
  simp only [Decoded.ReadsPc] at reads
  simp only [Decoded.SubstitutesPc] at kept
  split at reads <;> rename_i is <;> simp only [is] at kept
  case h_1 => exact differs_movReg even is reads.1 reads.2
  case h_2 =>
    exact differs_addReg even is reads.1 (regForm_of_narrow (narrow reads.1)) reads.2
  case h_3 => exact differs_cmpReg even is (regForm_of_narrow (narrow reads.1)) reads.2 kept
  case h_4 | h_5 => exact absurd trivial kept
  case h_6 =>
    obtain ⟨quiet, wide⟩ := addw_quiet reads.1
    have long : d.len ≠ 2 := fun short => wide (narrow short)
    exact differs_wide (· + d.imm) (fun v v' same => by simpa using same)
      (fun env m => executeDecoded_addw is reads.2 long quiet)
      (fun env m pc => by simp only [executeAs, is]) (by simp only [Decoded.pcOperand, is])
  case h_7 =>
    exact differs_wide (· - d.imm) (fun v v' same => by simpa using same)
      (fun env m => executeDecoded_subw is reads.2)
      (fun env m pc => by simp only [executeAs, is]) (by simp only [Decoded.pcOperand, is])
  case h_21 => exact differs_table even sized (.inl is) (of_not_not kept)
  case h_22 => exact differs_table even sized (.inr is) (of_not_not kept)
  case h_23 => exact reads.elim
  all_goals exact differs_load (by simp [IsLoad, is]) reads.2

/-- An instruction uses for R15 what R15 stands for exactly if its kind substitutes it. -/
theorem usesForPc_iff {f : FetchResult} {d : Decoded} (fetched : f.Fetched)
    (decoded : Decode.decodeT32 Decode.decode32 f = d) (reads : d.ReadsPc) :
    UsesForPc δ f d (d.pcOperand f.pcFetch) ↔ d.SubstitutesPc := by
  obtain ⟨len, raw⟩ := Decode.decodeT32_sameFetch fetched.narrow fetched.sized
  rw [decoded] at len raw
  constructor
  · intro uses
    by_cases substitutes : d.SubstitutesPc
    · exact substitutes
    · obtain ⟨env, m, r15, ne⟩ := differs_of_not (δ := δ) fetched len raw reads substitutes
      exact absurd (uses env m r15) ne
  · intro substitutes env m _
    exact executeDecoded_of_substitutes fetched len raw reads substitutes

end

namespace Board

/-- `ADR r0, #4`, at an address that is no multiple of four. -/
def adr : FetchResult := ⟨0xa001, 2, false, 0, 0x102⟩

/-- `ADDW r0, pc, #4`, which is `ADR` as well. -/
def addw : FetchResult := ⟨0xf20f0004, 4, false, 0, 0x100⟩

def atPc (pc : Word) : Machine Unit where
  cpu := cpu.setReg 15 pc
  world := world
  trace := []
  it := ⟨0, 0, 0⟩
  done := false
  resetAgain := false
  transfers := []

end Board

theorem usesForPc_adr :
    UsesForPc Unit Board.adr (Decode.decodeT32 Decode.decode32 Board.adr) 0x104 := by
  have is : (Decode.decodeT32 Decode.decode32 Board.adr).kind = .adr := by decide
  have uses := usesForPc_iff (δ := Unit) (f := Board.adr)
    ⟨rfl, .inl rfl, fun _ => by decide, by decide⟩ rfl (by simp only [Decoded.ReadsPc, is])
  have value : (Decode.decodeT32 Decode.decode32 Board.adr).pcOperand 0x102 = 0x104 := by
    simp only [Decoded.pcOperand, is]
    decide
  rw [← value]
  exact uses.mpr (by simp only [Decoded.SubstitutesPc, is])

theorem addw_of_pc :
    (Decode.decodeT32 Decode.decode32 Board.addw).ReadsPc ∧
      (executeDecoded Board.env Board.addw (Decode.decodeT32 Decode.decode32 Board.addw)
        (Board.atPc 0x105)).2.cpu.r 0 = 0x109 ∧
      ¬ UsesForPc Unit Board.addw (Decode.decodeT32 Decode.decode32 Board.addw)
        ((Decode.decodeT32 Decode.decode32 Board.addw).pcOperand 0x100) := by
  have is : (Decode.decodeT32 Decode.decode32 Board.addw).kind = .addImm := by decide
  refine ⟨?_, by decide, fun uses => ?_⟩
  · simp only [Decoded.ReadsPc, is]
    decide
  · have values := congrArg (·.2.cpu.r 0) (uses Board.env (Board.atPc 0x105) (by decide))
    exact absurd values (by decide)

end M33mu
