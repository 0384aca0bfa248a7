import M33mu.Board
import M33mu.EthMemory
import M33mu.Lib.WordRow
import M33mu.SpWrites

namespace M33mu

open Lib Execute

variable {δ : Type u} {env : Env δ} {f : FetchResult} {base off size a : Word}

theorem Cpu.getActiveSplim_setActiveSp (c : Cpu) (v : Word) :
    (c.setActiveSp v).getActiveSplim = c.getActiveSplim := by
  obtain ⟨top, low, valid, eq⟩ := c.exists_setActiveSp_eq v
  rw [eq, setBankSp]
  split <;> rfl

theorem Cpu.secState_setActiveSp (c : Cpu) (v : Word) :
    (c.setActiveSp v).secState = c.secState := by
  obtain ⟨top, low, valid, eq⟩ := c.exists_setActiveSp_eq v
  rw [eq, setBankSp]

theorem Cpu.r_setActiveSp (c : Cpu) (v : Word) :
    (c.setActiveSp v).r = Function.update c.r 13 v := by
  obtain ⟨top, low, valid, eq⟩ := c.exists_setActiveSp_eq v
  rw [eq]

namespace Machine

structure OnStack (env : Env δ) (base off size : Word) (m : Machine δ) : Prop where
  window : m.world.OpenTo env m.cpu.secState base off size
  r13 : m.cpu.r 13 = m.cpu.getActiveSp
  running : m.done = false

def stackByte (base off size : Word) (m : Machine δ) : ByteMem 32 :=
  m.world.windowByte base off size

def restored (g r : Reg → Word) (regs : List Reg) : Reg → Word := fun i =>
  if i ∈ regs then g i else r i

theorem restored_nil (g r : Reg → Word) : restored g r [] = r := rfl

theorem restored_cons (g r : Reg → Word) (reg : Reg) (regs : List Reg) :
    restored g (Function.update r reg (g reg)) regs = restored g r (reg :: regs) := by
  funext i
  simp only [restored, List.mem_cons]
  by_cases later : i ∈ regs
  · rw [if_pos later, if_pos (.inr later)]
  · by_cases here : i = reg
    · rw [if_neg later, if_pos (.inl here), here, Function.update_self]
    · rw [if_neg later, if_neg (not_or.mpr ⟨here, later⟩), Function.update_of_ne here]

theorem dist_next {n : Nat} (room : ByteMem.dist base a + 4 * (n + 1) ≤ size.toNat) :
    ByteMem.dist base (a + 4) + 4 * n ≤ size.toNat := by
  have inside := size.isLt
  have step : ByteMem.dist base (a + 4) = ByteMem.dist base a + 4 :=
    ByteMem.dist_add_right (k := 4) (by omega)
  omega

theorem past_next (a : Word) (n : Nat) :
    a + 4 * BitVec.ofNat 32 (n + 1) = a + 4 + 4 * BitVec.ofNat 32 n := by
  rw [BitVec.ofNat_add]
  grind

theorem past_last (a : Word) (n : Nat) :
    a + 4 * BitVec.ofNat 32 n + 4 = a + 4 * BitVec.ofNat 32 (n + 1) := by
  rw [BitVec.ofNat_add]
  grind

theorem storeRegs_onStack {m : Machine δ} {regs : List Reg}
    (window : m.world.OpenTo env m.cpu.secState base off size) (pc : 15 ∉ regs)
    (room : ByteMem.dist base a + 4 * regs.length ≤ size.toNat) :
    ∃ w ts, m.storeRegs env f regs a =
        ⟨a + 4 * BitVec.ofNat 32 regs.length, false, { m with world := w, transfers := ts }, none⟩ ∧
      w.OpenTo env m.cpu.secState base off size ∧
      w.windowByte base off size = (stackByte base off size m).putWords a (regs.map m.cpu.r) := by
  induction regs generalizing m a with
  | nil => exact ⟨m.world, m.transfers, by simp [storeRegs], window, rfl⟩
  | cons reg regs ih =>
    rw [List.length_cons] at room
    obtain ⟨w₁, written, window₁, same₁⟩ := window.write (a := a) (by omega) (m.cpu.r reg)
    obtain ⟨w, ts, loop, window', same⟩ := ih (m := (m.offer a).withWorld w₁) (a := a + 4) window₁
      (fun mem => pc (.tail _ mem)) (dist_next room)
    have first : reg ≠ 15 := fun here => pc (here ▸ .head _)
    have written' : (m.offer a).world.write env (m.offer a).cpu.secState a 4
        ((m.offer a).cpu.r reg) = (true, w₁) := written
    refine ⟨w, ts, ?_, window', ?_⟩
    · rw [storeRegs]
      dsimp only
      rw [if_neg first, written']
      dsimp only
      rw [loop, List.length_cons, past_next]
      rfl
    · rw [same]
      change (w₁.windowByte base off size).putWords _ _ = _
      rw [same₁]
      rfl

theorem storeRegs_append {m n : Machine δ} {regs : List Reg} {b : Word}
    (loop : m.storeRegs env f regs a = ⟨b, false, n, none⟩) (rest : List Reg) :
    m.storeRegs env f (regs ++ rest) a = n.storeRegs env f rest b := by
  induction regs generalizing m a with
  | nil =>
    rw [storeRegs] at loop
    cases loop
    rfl
  | cons reg regs ih =>
    rw [storeRegs] at loop
    rw [List.cons_append, storeRegs]
    dsimp only at loop ⊢
    split at loop
    · cases loop
    · exact ih loop

theorem loadRegs_onStack {m : Machine δ} {regs : List Reg} {g : Reg → Word}
    (window : m.world.OpenTo env m.cpu.secState base off size) (pc : 15 ∉ regs)
    (room : ByteMem.dist base a + 4 * regs.length ≤ size.toNat)
    (row : (stackByte base off size m).words a regs.length = regs.map g) :
    ∃ ts, ∀ rest, m.loadRegs env f (regs ++ rest) a =
      { m with cpu := { m.cpu with r := restored g m.cpu.r regs }, transfers := ts }.loadRegs env f
        rest (a + 4 * BitVec.ofNat 32 regs.length) := by
  induction regs generalizing m a with
  | nil => exact ⟨m.transfers, fun rest => by simp [restored_nil]⟩
  | cons reg regs ih =>
    rw [List.length_cons] at room row
    rw [ByteMem.words, List.map_cons, List.cons.injEq] at row
    have read := window.read (a := a) (by omega)
    have read' : (m.offer a).world.read env (m.offer a).cpu.secState a 4 =
        (some (g reg), m.world) := by
      rw [← row.1]
      exact read
    obtain ⟨ts, loop⟩ := ih (m := ((m.offer a).withWorld m.world).setReg reg (g reg)) (a := a + 4)
      window (fun mem => pc (.tail _ mem)) (dist_next room) row.2
    have first : reg ≠ 15 := fun here => pc (here ▸ .head _)
    refine ⟨ts, fun rest => ?_⟩
    rw [List.cons_append, loadRegs]
    dsimp only
    rw [read']
    dsimp only
    rw [if_neg first, loop rest, List.length_cons, past_next]
    simp only [setReg, Cpu.setReg, withWorld, offer, restored_cons]

def saved (low : List Reg) (ret : Bool) : List Reg := low ++ if ret then [14] else []

def loaded (low : List Reg) (ret : Bool) : List Reg := low ++ if ret then [15] else []

inductive Saves (d : Decoded) (low : List Reg) (ret : Bool) : Prop
  | push (kind : d.kind = .push) (regs : lowRegList d.imm = low) (lr : d.imm.getLsbD 8 = ret)
  | stmdb (kind : d.kind = .stm) (sp : d.rn = 13) (writeBack : d.imm.getLsbD 16 = true)
    (decrement : d.imm >>> 24 &&& 0x3 = 2) (regs : regList (d.imm &&& 0xffff) = saved low ret)
    (some : saved low ret ≠ [])

inductive Loads (d : Decoded) (low : List Reg) (ret : Bool) : Prop
  | pop (kind : d.kind = .pop) (regs : lowRegList d.imm = low) (pc : d.imm.getLsbD 8 = ret)
  | ldmia (kind : d.kind = .ldm) (sp : d.rn = 13) (writeBack : d.imm.getLsbD 16 = true)
    (increment : d.imm >>> 24 &&& 0x3 ≠ 2) (regs : regList (d.imm &&& 0xffff) = loaded low ret)
    (some : loaded low ret ≠ [])

theorem saved_false (low : List Reg) : saved low false = low := List.append_nil low

theorem saved_true (low : List Reg) : saved low true = low ++ [14] := rfl

theorem loaded_false (low : List Reg) : loaded low false = low := List.append_nil low

theorem loaded_true (low : List Reg) : loaded low true = low ++ [15] := rfl

def frameBytes (low : List Reg) (ret : Bool) : Word := 4 * BitVec.ofNat 32 (saved low ret).length

structure Moved (m m' : Machine δ) (r : Reg → Word) (sp : Word) : Prop where
  r : m'.cpu.r = Function.update r 13 sp
  activeSp : m'.cpu.getActiveSp = sp
  splim : m'.cpu.getActiveSplim = m.cpu.getActiveSplim
  secState : m'.cpu.secState = m.cpu.secState
  done : m'.done = m.done

theorem Moved.onStack {m m' : Machine δ} {r : Reg → Word} {sp : Word} (moved : Moved m m' r sp)
    (running : m.done = false) (window : m'.world.OpenTo env m.cpu.secState base off size) :
    OnStack env base off size m' where
  window := moved.secState ▸ window
  r13 := by rw [moved.r, Function.update_self, moved.activeSp]
  running := moved.done.trans running

theorem moved_setSp (env : Env δ) (f : FetchResult) {m n : Machine δ} {sp : Word}
    (free : spLimited m.cpu sp = false)
    (splim : n.cpu.getActiveSplim = m.cpu.getActiveSplim)
    (secState : n.cpu.secState = m.cpu.secState) (done : n.done = m.done) :
    Moved m (n.setSp env f sp).2 n.cpu.r sp ∧ (n.setSp env f sp).2.world = n.world := by
  have limited : spLimited n.cpu sp = false := by rwa [spLimited, splim]
  rw [setSp, limited]
  exact ⟨⟨Cpu.r_setActiveSp n.cpu sp, Cpu.getActiveSp_setActiveSp n.cpu sp,
    (Cpu.getActiveSplim_setActiveSp n.cpu sp).trans splim,
    (Cpu.secState_setActiveSp n.cpu sp).trans secState, done⟩, rfl⟩

variable {d : Decoded} {low : List Reg} {ret : Bool} {m : Machine δ}

theorem length_loaded (low : List Reg) (ret : Bool) :
    (loaded low ret).length = (saved low ret).length := by
  cases ret <;> simp [loaded, saved]

theorem notMem_saved {i : Reg} (out : i ∉ low) (lr : i ≠ 14) : i ∉ saved low ret := by
  cases ret <;> simp [saved, out, lr]

theorem execute_saves (on : OnStack env base off size m) (saves : Saves d low ret) (pc : 15 ∉ low)
    (room : ByteMem.dist base (m.cpu.getActiveSp - frameBytes low ret) +
      4 * (saved low ret).length ≤ size.toNat)
    (free : spLimited m.cpu (m.cpu.getActiveSp - frameBytes low ret) = false) :
    Moved m (executeDecoded env f d m).2 m.cpu.r (m.cpu.getActiveSp - frameBytes low ret) ∧
      (executeDecoded env f d m).2.world.OpenTo env m.cpu.secState base off size ∧
      stackByte base off size (executeDecoded env f d m).2 =
        (stackByte base off size m).putWords (m.cpu.getActiveSp - frameBytes low ret)
          ((saved low ret).map m.cpu.r) := by
  generalize target : m.cpu.getActiveSp - frameBytes low ret = sp at room free
  obtain ⟨w, ts, loop, window, same⟩ := storeRegs_onStack (f := f) on.window
    (notMem_saved pc (by decide)) room
  obtain ⟨n, executed, splim, secState, done, world, r⟩ : ∃ n : Machine δ,
      (executeDecoded env f d m).2 = (n.setSp env f sp).2 ∧
      n.cpu.getActiveSplim = m.cpu.getActiveSplim ∧ n.cpu.secState = m.cpu.secState ∧
      n.done = m.done ∧ n.world = w ∧
      Function.update n.cpu.r 13 sp = Function.update m.cpu.r 13 sp := by
    cases saves with
    | push kind regs lr =>
      have start : pushSp m d = sp := by
        rw [← target, pushSp, regs, lr, frameBytes, saved, List.length_append]
        cases ret <;> rfl
      refine ⟨{ m with world := w, transfers := ts }, ?_, rfl, rfl, rfl, rfl, rfl⟩
      simp only [executeDecoded, kind]
      simp only [execPush, pushRegs, start, regs, lr]
      cases ret with
      | false =>
        rw [saved_false] at loop
        simp only [loop, on.running, Bool.and_false, Bool.false_eq_true, if_false]
      | true =>
        have part : ByteMem.dist base sp + 4 * low.length ≤ size.toNat := by
          rw [saved_true, List.length_append] at room
          omega
        obtain ⟨w₁, ts₁, first, -, -⟩ := storeRegs_onStack (f := f) on.window pc part
        rw [saved_true, storeRegs_append first] at loop
        simp only [on.running] at loop
        simp only [first, on.running, loop, Bool.not_false, Bool.and_true, if_true,
          Bool.false_eq_true, if_false]
    | stmdb kind base writeBack decrement regs some =>
      have start : multiple m d = ⟨saved low ret, true, sp, sp⟩ := by
        simp only [multiple, regs, writeBack, base, decrement, if_true, on.r13, ← target,
          frameBytes]
      have stm : d.kind ≠ .ldm := by
        rw [kind]
        decide
      refine ⟨Machine.setReg { m with world := w, transfers := ts } 13 sp, ?_, rfl, rfl, rfl, rfl,
        Function.update_idem ..⟩
      simp only [executeDecoded, kind]
      simp only [execMultiple, start, some, if_false, stm, loop, on.running, false_and, base,
        if_true, Bool.not_false, Bool.and_true]
      simp only [setReg, Cpu.setReg, Function.update_self]
  obtain ⟨moved, kept⟩ := moved_setSp env f free splim secState done
  rw [← executed] at moved kept
  refine ⟨⟨moved.r.trans r, moved.activeSp, moved.splim, moved.secState, moved.done⟩, ?_, ?_⟩
  · rw [kept, world]
    exact window
  · rw [stackByte, kept, world, same]

def returned (g r : Reg → Word) (low : List Reg) (ret : Bool) : Reg → Word :=
  if ret then Function.update (restored g r low) 15 (g 14 ||| 1) else restored g r low

theorem four_mul (n : Nat) : BitVec.ofNat 32 (4 * n) = 4 * BitVec.ofNat 32 n := BitVec.ofNat_mul ..

theorem loadRegs_frame {g : Reg → Word}
    (window : m.world.OpenTo env m.cpu.secState base off size) (pc : 15 ∉ low)
    (room : ByteMem.dist base a + 4 * (saved low ret).length ≤ size.toNat)
    (row : (stackByte base off size m).words a (saved low ret).length = (saved low ret).map g)
    (leaves : ret = true → isExcReturn (g 14) = false) :
    ∃ ts, m.loadRegs env f (loaded low ret) a = ⟨a + frameBytes low ret, false,
      { m with cpu := { m.cpu with r := returned g m.cpu.r low ret }, transfers := ts }, none⟩ := by
  cases ret with
  | false =>
    rw [saved_false] at room row
    obtain ⟨ts, loop⟩ := loadRegs_onStack (f := f) window pc room row
    have whole := loop []
    rw [List.append_nil, loadRegs] at whole
    refine ⟨ts, ?_⟩
    rw [loaded_false, whole, frameBytes, saved_false]
    rfl
  | true =>
    have long : (saved low true).length = low.length + 1 := by
      rw [saved_true, List.length_append, List.length_singleton]
    rw [long] at room
    rw [long, ByteMem.words_succ, saved_true, List.map_append] at row
    obtain ⟨low', last⟩ := List.append_inj row (by rw [ByteMem.length_words, List.length_map])
    rw [List.map_singleton, List.singleton_inj, four_mul] at last
    obtain ⟨ts, loop⟩ := loadRegs_onStack (f := f) window pc (by omega) low'
    have here : ByteMem.dist base (a + BitVec.ofNat 32 (4 * low.length)) =
        ByteMem.dist base a + 4 * low.length := by
      have inside := size.isLt
      exact ByteMem.dist_add_right (by omega)
    rw [four_mul] at here
    have read := window.read (a := a + 4 * BitVec.ofNat 32 low.length) (by omega)
    refine ⟨(a + 4 * BitVec.ofNat 32 low.length) :: ts, ?_⟩
    rw [loaded_true, loop [15], loadRegs]
    have code : (World.windowByte base off size m.world).word (a + 4 * BitVec.ofNat 32 low.length) =
        g 14 := last
    simp only [offer, read, code, if_true, leaves rfl, Bool.false_eq_true, if_false, handlePcWrite,
      loadRegs, frameBytes, long, past_last]
    rfl

theorem execute_loads (on : OnStack env base off size m) (loads : Loads d low ret) (pc : 15 ∉ low)
    (sp : 13 ∉ low) {g : Reg → Word}
    (room : ByteMem.dist base m.cpu.getActiveSp + 4 * (saved low ret).length ≤ size.toNat)
    (row : (stackByte base off size m).words m.cpu.getActiveSp (saved low ret).length =
      (saved low ret).map g)
    (free : spLimited m.cpu (m.cpu.getActiveSp + frameBytes low ret) = false)
    (leaves : ret = true → isExcReturn (g 14) = false) :
    Moved m (executeDecoded env f d m).2 (returned g m.cpu.r low ret)
        (m.cpu.getActiveSp + frameBytes low ret) ∧
      (executeDecoded env f d m).2.world = m.world := by
  obtain ⟨ts, loop⟩ := loadRegs_frame (f := f) on.window pc room row leaves
  generalize target : m.cpu.getActiveSp + frameBytes low ret = sp' at loop free ⊢
  obtain ⟨n, executed, splim, secState, done, world, r⟩ : ∃ n : Machine δ,
      (executeDecoded env f d m).2 = (n.setSp env f sp').2 ∧
      n.cpu.getActiveSplim = m.cpu.getActiveSplim ∧ n.cpu.secState = m.cpu.secState ∧
      n.done = m.done ∧ n.world = m.world ∧ Function.update n.cpu.r 13 sp' =
        Function.update (returned g m.cpu.r low ret) 13 sp' := by
    cases loads with
    | pop kind regs pc =>
      have list : popList d = loaded low ret := by rw [popList, regs, pc, loaded]
      refine ⟨{ m with cpu := { m.cpu with r := returned g m.cpu.r low ret }, transfers := ts }, ?_,
        rfl, rfl, rfl, rfl, rfl⟩
      simp only [executeDecoded, kind]
      simp only [execPop, list, loop, Bool.false_eq_true, if_false]
    | ldmia kind base writeBack increment regs some =>
      have start : multiple m d = ⟨loaded low ret, true, m.cpu.getActiveSp, sp'⟩ := by
        simp only [multiple, regs, writeBack, base, increment, if_false, on.r13, ← target,
          frameBytes, length_loaded]
      have apart : 13 ∉ loaded low ret := by
        cases ret <;> simp [loaded, sp]
      refine ⟨Machine.setReg { m with
        cpu := { m.cpu with r := returned g m.cpu.r low ret }
        transfers := ts } 13 sp', ?_, rfl, rfl, rfl, rfl, Function.update_idem ..⟩
      simp only [executeDecoded, kind]
      simp only [execMultiple, start, some, if_false, kind, loop, on.running, base, if_true, apart,
        Bool.not_false, Bool.and_true, and_false]
      simp only [setReg, Cpu.setReg, Function.update_self]
  obtain ⟨moved, kept⟩ := moved_setSp env f free splim secState done
  rw [← executed] at moved kept
  exact ⟨⟨moved.r.trans r, moved.activeSp, moved.splim, moved.secState, moved.done⟩,
    kept.trans world⟩

/-- What a caller may count on, whatever was run: the stack is as it was from the stack pointer
on, and the stack pointer where it was. -/
structure Keeps (env : Env δ) (base off size : Word) (m m' : Machine δ) : Prop where
  onStack : OnStack env base off size m'
  activeSp : m'.cpu.getActiveSp = m.cpu.getActiveSp
  splim : m'.cpu.getActiveSplim = m.cpu.getActiveSplim
  secState : m'.cpu.secState = m.cpu.secState
  above : ∀ x, ByteMem.dist base m.cpu.getActiveSp ≤ ByteMem.dist base x →
    stackByte base off size m' x = stackByte base off size m x

theorem Keeps.trans {m m' m'' : Machine δ} (first : Keeps env base off size m m')
    (second : Keeps env base off size m' m'') : Keeps env base off size m m'' where
  onStack := second.onStack
  activeSp := second.activeSp.trans first.activeSp
  splim := second.splim.trans first.splim
  secState := second.secState.trans first.secState
  above x past := (second.above x (first.activeSp ▸ past)).trans (first.above x past)

structure Fits (base size : Word) (m : Machine δ) (low : List Reg) (ret : Bool) : Prop where
  pc : 15 ∉ low
  sp : 13 ∉ low
  room : ByteMem.dist base (m.cpu.getActiveSp - frameBytes low ret) + 4 * (saved low ret).length =
    ByteMem.dist base m.cpu.getActiveSp
  inside : ByteMem.dist base m.cpu.getActiveSp ≤ size.toNat
  free : spLimited m.cpu (m.cpu.getActiveSp - frameBytes low ret) = false
  free' : spLimited m.cpu m.cpu.getActiveSp = false
  leaves : ret = true → isExcReturn (m.cpu.r 14) = false

theorem Fits.below (fits : Fits base size m low ret) :
    ByteMem.dist base (m.cpu.getActiveSp - frameBytes low ret) + 4 * (saved low ret).length ≤
      size.toNat := by
  rw [fits.room]
  exact fits.inside

inductive WellNested (env : Env δ) (base off size : Word) : Machine δ → Machine δ → Prop
  | work {m m'} (keeps : Keeps env base off size m m') : WellNested env base off size m m'
  | next {m m' m''} (first : WellNested env base off size m m')
    (second : WellNested env base off size m' m'') : WellNested env base off size m m''
  | call {m b d d' low ret} {f f' : FetchResult} (saves : Saves d low ret)
    (fits : Fits base size m low ret)
    (body : WellNested env base off size (executeDecoded env f d m).2 b)
    (loads : Loads d' low ret) :
    WellNested env base off size m (executeDecoded env f' d' b).2

theorem call_keeps {b : Machine δ} {d' : Decoded} {g : FetchResult}
    (on : OnStack env base off size m) (saves : Saves d low ret) (fits : Fits base size m low ret)
    (body : Keeps env base off size (executeDecoded env f d m).2 b) (loads : Loads d' low ret) :
    Moved m (executeDecoded env g d' b).2 (returned m.cpu.r b.cpu.r low ret) m.cpu.getActiveSp ∧
      Keeps env base off size m (executeDecoded env g d' b).2 := by
  have small := size.isLt
  have inside := fits.inside
  obtain ⟨entered, window, frame⟩ := execute_saves (f := f) on saves fits.pc
    fits.below fits.free
  have sp : b.cpu.getActiveSp = m.cpu.getActiveSp - frameBytes low ret :=
    body.activeSp.trans entered.activeSp
  have back : b.cpu.getActiveSp + frameBytes low ret = m.cpu.getActiveSp := by
    rw [sp, BitVec.sub_add_cancel]
  have fits' := fits.room
  rw [← sp] at fits' frame
  have above (x : Word) (past : ByteMem.dist base b.cpu.getActiveSp ≤ ByteMem.dist base x) :
      stackByte base off size b x = (stackByte base off size m).putWords b.cpu.getActiveSp
        ((saved low ret).map m.cpu.r) x := by
    rw [← frame]
    exact body.above x (body.activeSp ▸ past)
  have row : (stackByte base off size b).words b.cpu.getActiveSp (saved low ret).length =
      (saved low ret).map m.cpu.r := by
    have put : ((stackByte base off size m).putWords b.cpu.getActiveSp
        ((saved low ret).map m.cpu.r)).words b.cpu.getActiveSp
        ((saved low ret).map m.cpu.r).length = (saved low ret).map m.cpu.r :=
      ByteMem.words_putWords (by decide) (by rw [List.length_map]; omega)
    rw [List.length_map] at put
    rw [← put]
    refine ByteMem.words_congr (fun x near => above x ?_) (by omega)
    have sum := ByteMem.dist_trans (x := x) (a := b.cpu.getActiveSp) (b := base) (by omega)
    omega
  have free : spLimited b.cpu (b.cpu.getActiveSp + frameBytes low ret) = false := by
    rw [back, spLimited, body.splim, entered.splim]
    exact fits.free'
  obtain ⟨left, same⟩ := execute_loads (f := g) body.onStack loads fits.pc fits.sp (by omega) row
    free fits.leaves
  rw [back] at left
  have splim := left.splim.trans (body.splim.trans entered.splim)
  have secState := left.secState.trans (body.secState.trans entered.secState)
  have running := left.done.trans body.onStack.running
  refine ⟨⟨left.r, left.activeSp, splim, secState, running.trans on.running.symm⟩,
    left.onStack body.onStack.running (same ▸ body.onStack.window), left.activeSp, splim, secState,
    fun x past => ?_⟩
  have kept : stackByte base off size (executeDecoded env g d' b).2 =
      stackByte base off size b := by
    rw [stackByte, same, stackByte]
  rw [kept, above x (by omega)]
  apply ByteMem.putWords_apart
  rw [List.length_map, ByteMem.dist_between (b := base) (by omega)]
  omega

theorem WellNested.keeps {m m' : Machine δ} (nested : WellNested env base off size m m')
    (on : OnStack env base off size m) : Keeps env base off size m m' := by
  induction nested with
  | work keeps => exact keeps
  | next _ _ ih ih' =>
    have first := ih on
    exact first.trans (ih' first.onStack)
  | call saves fits _ loads ih =>
    obtain ⟨entered, window, -⟩ := execute_saves on saves fits.pc
      fits.below fits.free
    exact (call_keeps on saves fits (ih (entered.onStack on.running window)) loads).2

/-- A routine that saves registers gives them back when it returns, with LR in the PC, and the stack
as it was, whatever is called in it. -/
theorem call_returns {m b : Machine δ} {d d' : Decoded} {low : List Reg} {ret : Bool}
    {f f' : FetchResult} (on : OnStack env base off size m) (saves : Saves d low ret)
    (fits : Fits base size m low ret)
    (body : WellNested env base off size (executeDecoded env f d m).2 b)
    (loads : Loads d' low ret) :
    (executeDecoded env f' d' b).2.cpu.r = Function.update (returned m.cpu.r b.cpu.r low ret) 13
        m.cpu.getActiveSp ∧
      Keeps env base off size m (executeDecoded env f' d' b).2 := by
  obtain ⟨entered, window, -⟩ := execute_saves (f := f) on saves fits.pc
    fits.below fits.free
  obtain ⟨left, keeps⟩ := call_keeps (g := f') on saves fits
    (body.keeps (entered.onStack on.running window)) loads
  exact ⟨left.r, keeps⟩

theorem OnStack.keeps_setReg {m : Machine δ} (on : OnStack env base off size m) {i : Reg}
    (other : i ≠ 13) (v : Word) : Keeps env base off size m (m.setReg i v) := by
  have sp : (m.setReg i v).cpu.r 13 = m.cpu.r 13 := by
    simp only [setReg, Cpu.setReg, Function.update_of_ne other.symm]
  exact ⟨⟨on.window, sp.trans on.r13, on.running⟩, rfl, rfl, rfl, fun _ _ => rfl⟩

theorem board_openTo (sec : SecState) :
    Board.world.OpenTo Board.env sec 0x20000000 0 0x10000 := by
  refine ⟨rfl, fun _ _ => ⟨rfl, rfl⟩, fun a inside => ?_, fun a inside => ?_⟩
  · have out : Memmap.offsetIn 0 0 a 4 = none := if_neg (by
      rw [ByteMem.dist] at inside
      bv_omega)
    change List.filterMap (fun w : Word × Word => Memmap.offsetIn w.1 w.2 a 4) [(0, 0), (0, 0)] = []
    simp only [List.filterMap_cons, out, List.filterMap_nil]
  · have found : Memmap.offsetIn 0x20000000 0x10000 a 4 = some (0 + (a - 0x20000000)) := by
      rw [ByteMem.dist] at inside
      rw [Memmap.offsetIn, if_pos (by bv_omega)]
      exact congrArg some (BitVec.zero_add _).symm
    simp only [Memmap.ramOffsetForAddr, Board.world, Board.map, ne_eq, not_true_eq_false, if_false,
      found]
    rfl

def caller : Machine Unit where
  cpu := ((Board.cpu.setReg 4 7).setReg 13 0x20008000).setReg 14 0x101
  world := Board.world
  trace := []
  it := ⟨0, 0, 0⟩
  done := false
  resetAgain := false
  transfers := []

/-- `PUSH {r4, lr}` and, in the routine, `PUSH {r4}`. -/
def outer : Decoded := { Decoded.default 2 0xB510 with kind := .push, imm := 0x110 }

def inner : Decoded := { Decoded.default 2 0xB410 with kind := .push, imm := 0x10 }

theorem caller_onStack : OnStack Board.env 0x20000000 0 0x10000 caller :=
  ⟨board_openTo _, by decide, rfl⟩

theorem outer_saves : Saves outer [4] true := .push rfl (by decide) rfl

theorem inner_saves : Saves inner [4] false := .push rfl (by decide) rfl

theorem outer_fits : Fits 0x20000000 0x10000 caller [4] true where
  pc := by decide
  sp := by decide
  room := by decide
  inside := by decide
  free := by decide
  free' := by decide
  leaves := by decide

def shortFetch : FetchResult := ⟨0, 2, false, 0, 0x100⟩

def entered : Machine Unit := (executeDecoded Board.env shortFetch outer caller).2

def working : Machine Unit := (executeDecoded Board.env shortFetch inner entered).2.setReg 4 0

/-- `POP {r4}` and `POP {r4, pc}`. -/
def innerEnd : Decoded := { inner with kind := .pop }

def outerEnd : Decoded := { outer with kind := .pop }

theorem inner_fits : Fits 0x20000000 0x10000 entered [4] false where
  pc := by decide
  sp := by decide
  room := by decide
  inside := by decide
  free := by decide
  free' := by decide
  leaves := by decide

theorem entered_onStack : OnStack Board.env 0x20000000 0 0x10000 entered := by
  obtain ⟨moved, window, -⟩ := execute_saves (f := shortFetch) caller_onStack outer_saves
    outer_fits.pc
    outer_fits.below outer_fits.free
  exact moved.onStack rfl window

theorem working_keeps : Keeps Board.env 0x20000000 0 0x10000
    (executeDecoded Board.env shortFetch inner entered).2 working := by
  obtain ⟨moved, window, -⟩ := execute_saves (f := shortFetch) entered_onStack inner_saves
    inner_fits.pc inner_fits.below inner_fits.free
  exact (moved.onStack entered_onStack.running window).keeps_setReg (by decide) 0

theorem call_returns_caller :
    (executeDecoded Board.env shortFetch outerEnd
        (executeDecoded Board.env shortFetch innerEnd working).2).2.cpu.r =
      Function.update (returned caller.cpu.r
        (executeDecoded Board.env shortFetch innerEnd working).2.cpu.r [4] true) 13 0x20008000 ∧
      Keeps Board.env 0x20000000 0 0x10000 caller (executeDecoded Board.env shortFetch outerEnd
        (executeDecoded Board.env shortFetch innerEnd working).2).2 :=
  call_returns caller_onStack outer_saves outer_fits
    (.call inner_saves inner_fits (.work working_keeps) (.pop rfl (by decide) rfl))
    (.pop rfl (by decide) rfl)

end Machine

end M33mu
