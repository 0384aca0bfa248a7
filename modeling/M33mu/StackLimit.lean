import M33mu.Board
import M33mu.Execute
import M33mu.RamWord

namespace M33mu

namespace Decoded

def LowersSp (d : Decoded) : Prop :=
  match d.kind with
  | .push => Execute.lowRegList d.imm ≠ [] ∨ d.imm.getLsbD 8 = true
  | .stm =>
    d.rn = 13 ∧ d.imm >>> 24 &&& 0x3 = 2 ∧ d.imm.getLsbD 16 = true ∧
      Execute.regList (d.imm &&& 0xffff) ≠ []
  | .strPreImm | .strbPreImm | .strhPreImm => d.rn = 13
  | .strd => d.rn = 13 ∧ d.imm.getLsbD 29 = true ∧ d.imm.getLsbD 30 = true
  | .subSpImm => d.rd = 13
  | .subImm | .subImmNf | .subReg => d.rd = 13 ∧ d.rn = 13
  | _ => False

def SubtractsImm (d : Decoded) : Prop :=
  d.kind = .subSpImm ∨ d.kind = .subImm ∨ d.kind = .subImmNf

end Decoded

namespace Machine

variable {δ : Type u} (env : Env δ)

def loweredSp (m : Machine δ) (d : Decoded) : Word :=
  match d.kind with
  | .push => Execute.pushSp m d
  | .stm => (Execute.multiple m d).written
  | .strd =>
    if d.imm.getLsbD 31 then m.cpu.r 13 + (d.imm &&& 0x3ff) else m.cpu.r 13 - (d.imm &&& 0x3ff)
  | .subSpImm | .subImm | .subImmNf => m.cpu.r 13 - d.imm
  | .subReg => (DataProc.subReg d m.it.remaining m.cpu.r m.cpu.xpsr).r 13
  | _ => m.cpu.r 13 + d.imm

/-- A UsageFault with STKOF is raised over the memory and the stack pointers of before; flags and
registers may have been written. -/
def Refuses (m : Machine δ) (f : FetchResult) (d : Decoded) : Prop :=
  ∃ p : Machine δ, p.world = m.world ∧
    p.cpu = { m.cpu with r := p.cpu.r, xpsr := p.cpu.xpsr } ∧
    executeDecoded env f d m = (.cont, { p.usageFault env f ufsrStkof with done := true })

theorem setSp_of_limited {m : Machine δ} {f : FetchResult} {v : Word}
    (limited : spLimited m.cpu v = true) :
    m.setSp env f v = (.cont, { m.usageFault env f ufsrStkof with done := true }) := by
  simp only [setSp, limited, if_true]

end Machine

namespace ExecHelpers

theorem shiftCImm_zero (type imm5 : Byte) : (shiftCImm 0 type imm5 false).value = 0 := by
  have lsl (n : Byte) : (lsl 0 n false).value = 0 := by
    simp only [lsl]
    split
    · rfl
    split
    · exact BitVec.zero_shiftLeft _
    split <;> rfl
  have lsr (n : Byte) : (lsr 0 n false).value = 0 := by
    simp only [lsr]
    split
    · rfl
    split
    · exact BitVec.zero_ushiftRight
    split <;> rfl
  have asr (n : Byte) : (asr 0 n false).value = 0 := by
    simp only [asr]
    split
    · rfl
    split <;> simp
  have ror (n : Byte) : (ror 0 n false).value = 0 := by
    simp only [ror, rotate]
    split
    · rfl
    split
    · rfl
    · simp
  simp only [shiftCImm]
  split
  · split
    · rfl
    · exact lsl _
  · exact lsr _
  · exact asr _
  · split
    · rfl
    · exact ror _

end ExecHelpers

namespace Machine

variable {δ : Type u} {env : Env δ}

theorem refuses_of_subtractsImm {m : Machine δ} {f : FetchResult} {d : Decoded}
    (lowers : d.LowersSp) (sub : d.SubtractsImm) (synced : m.cpu.r 13 = m.cpu.getActiveSp)
    (limited : spLimited m.cpu (m.loweredSp d) = true) : m.Refuses env f d := by
  rcases sub with kind | kind | kind
  · simp only [Decoded.LowersSp, kind] at lowers
    refine ⟨m, rfl, rfl, ?_⟩
    have value : m.cpu.getActiveSp + -d.imm = m.loweredSp d := by
      simp only [loweredSp, kind, synced]
      rw [BitVec.sub_eq_add_neg]
    simp only [executeDecoded, kind, Execute.spPlus, lowers, if_true, value]
    exact setSp_of_limited env limited
  · simp only [Decoded.LowersSp, kind] at lowers
    refine ⟨(Execute.data m (Execute.dataOf m f d)).2, rfl, rfl, ?_⟩
    have value : (m.cpu.withData (Execute.dataOf m f d)).r 13 = m.loweredSp d := by
      simp only [loweredSp, kind, Cpu.withData, Execute.dataOf, DataProc.dataProc, DataProc.subImm,
        DataProc.arith, DataProc.putFlags, lowers.1, lowers.2, Function.update_self,
        ExecHelpers.addWithCarry_not]
    simp only [executeDecoded, kind, Execute.dataOrSp, lowers.1, if_true]
    refine setSp_of_limited env ?_
    rw [← value] at limited
    exact limited
  · simp only [Decoded.LowersSp, kind] at lowers
    refine ⟨(Execute.data m (Execute.dataOf m f d)).2, rfl, rfl, ?_⟩
    have value : (m.cpu.withData (Execute.dataOf m f d)).r 13 = m.loweredSp d := by
      simp only [loweredSp, kind, Cpu.withData, Execute.dataOf, DataProc.dataProc, DataProc.subImmNf,
        DataProc.put, lowers.1, lowers.2, Function.update_self]
    simp only [executeDecoded, kind, Execute.dataOrSp, lowers.1, if_true]
    refine setSp_of_limited env ?_
    rw [← value] at limited
    exact limited

end Machine

def Memmap.Full (v : Word) : Prop := ∀ i < 4, ((v >>> (8 * i)).setWidth 8 : Byte) ≠ 0

namespace Memmap

theorem ne_zero_of_writeBufLe {buf buf' : Word → Byte} {off size v : Word} (full : Full v)
    (written : writeBufLe buf off size v = some buf') :
    buf' off ≠ 0 ∧ ∀ a, buf a ≠ 0 → buf' a ≠ 0 := by
  have put (buf : Word → Byte) (i : Nat) (lt : i < 4) (a : Word) (h : buf a ≠ 0) :
      Function.update buf (off + BitVec.ofNat 32 i) ((v >>> (8 * i)).setWidth 8) a ≠ 0 := by
    by_cases same : a = off + BitVec.ofNat 32 i
    · rw [same, Function.update_self]
      exact full i lt
    · rw [Function.update_of_ne same]
      exact h
  have first : Function.update buf (off + BitVec.ofNat 32 0) ((v >>> (8 * 0)).setWidth 8) off ≠ 0 := by
    have same : off = off + BitVec.ofNat 32 0 := (BitVec.add_zero off).symm
    rw [← same, Function.update_self]
    exact full 0 (by decide)
  simp only [writeBufLe] at written
  split at written
  · cases written
    exact ⟨put _ 3 (by decide) _ (put _ 2 (by decide) _ (put _ 1 (by decide) _ first)), fun a h =>
      put _ 3 (by decide) _ (put _ 2 (by decide) _ (put _ 1 (by decide) _
        (put _ 0 (by decide) _ h)))⟩
  split at written
  · cases written
    exact ⟨put _ 1 (by decide) _ first, fun a h => put _ 1 (by decide) _ (put _ 0 (by decide) _ h)⟩
  split at written
  · cases written
    exact ⟨first, fun a h => put _ 0 (by decide) _ h⟩
  · cases written

def flat (buf : Word → Byte) : Memmap :=
  { Board.map with
    ram := some buf
    ramBaseS := 0
    ramSizeS := 0xFFFFFFFF
    ramBaseNs := 0
    ramSizeNs := 0xFFFFFFFF }

theorem ramOffsetForAddr_flat (buf : Word → Byte) {addr size : Word} (small : size.toNat ≤ 4)
    (fits : addr.toNat + 4 ≤ 0xFFFFFFFF) : (flat buf).ramOffsetForAddr addr size = some addr := by
  have inside : addr - 0#32 + size ≤ 0xFFFFFFFF#32 := by
    have sum : addr.toNat + size.toNat ≤ 0xFFFFFFFF := Nat.le_trans (Nat.add_le_add_left small _) fits
    bv_omega
  have offset : offsetIn 0#32 0xFFFFFFFF#32 addr size = some addr := by
    rw [offsetIn, if_pos ⟨by bv_omega, inside⟩, BitVec.sub_zero]
  simp only [ramOffsetForAddr, flat, Board.map, ne_eq, not_true_eq_false, if_false]
  exact congrArg (fun o => (o <|> offsetIn 0#32 0xFFFFFFFF#32 addr size) <|> _) offset

end Memmap

namespace World

def quitEnv : Env Unit := { Board.env with quitOnFaults := true }

theorem write_flat {w : World Unit} {buf : Word → Byte} (flat : w.map = .flat buf) (sec : SecState)
    {addr size : Word} (v : Word) (sizes : size = 1 ∨ size = 2 ∨ size = 4)
    (fits : addr.toNat + 4 ≤ 0xFFFFFFFF) :
    ∃ w' buf', w.write quitEnv sec addr size v = (true, w') ∧ w'.map = .flat buf' ∧
      Memmap.writeBufLe buf addr size v = some buf' := by
  have small : size.toNat ≤ 4 := by
    rcases sizes with rfl | rfl | rfl <;> decide
  obtain ⟨buf', written⟩ : ∃ buf', Memmap.writeBufLe buf addr size v = some buf' := by
    rcases sizes with rfl | rfl | rfl <;> exact ⟨_, rfl⟩
  have stored : w.map.writeRam addr size v = some (.flat buf') := by
    have offset := Memmap.ramOffsetForAddr_flat buf small fits
    rw [Memmap.writeRam, flat, offset]
    simp [Memmap.flat, written]
  refine ⟨{ w with map := .flat buf' }, buf', ?_, rfl, written⟩
  have open' : w.map.prot = none := by
    rw [flat]
    rfl
  simp [write, interceptOk, open', quitEnv, Board.env, writeRamOrBus, stored]

theorem read_quitEnv_map (w : World Unit) (sec : SecState) (addr size : Word) :
    (w.read quitEnv sec addr size).2.map = w.map := by
  have verdict := w.interceptOk_map quitEnv .read sec addr size
  simp only [World.read]
  split
  · exact verdict
  split <;> exact verdict

theorem exceptionReadHandler_quitEnv_map (w : World Unit) (sec : SecState) (index : Word) :
    (w.exceptionReadHandler quitEnv sec index).2.map = w.map := by
  have vector := w.read_quitEnv_map sec (w.scs.vtor.get sec + index * 4) 4
  simp only [exceptionReadHandler, vectorRead]
  generalize w.read quitEnv sec _ 4 = r at vector ⊢
  obtain ⟨v, w'⟩ := r
  cases v with
  | some handler => exact vector
  | none =>
    simp only
    split
    · split <;> exact vector
    · exact vector

end World

namespace Machine

open World Execute

theorem usageFault_quitEnv_map (m : Machine Unit) (f : FetchResult) (bits : Word) :
    (m.usageFault quitEnv f bits).world.map = m.world.map := by
  have last (w : World Unit) (hw : Option Word) (addr : Word) :
      (if hw.isSome then (w.read quitEnv m.cpu.secState addr 4).2 else w).map = w.map := by
    split
    · exact read_quitEnv_map ..
    · rfl
  simp only [usageFault, afterCall, Sys.raiseUsageFault]
  rw [if_pos (show quitEnv.quitOnFaults = true from rfl)]
  refine (last _ _ _).trans ?_
  rw [read_quitEnv_map, read_quitEnv_map, exceptionReadHandler_quitEnv_map]
  rfl

theorem storeRegs_flat {m : Machine Unit} (f : FetchResult) (regs : List Reg) (addr : Word)
    {buf : Word → Byte} (flat : m.world.map = .flat buf) (full : ∀ i, Memmap.Full (m.cpu.r i))
    (odd : m.cpu.r 15 ||| 1 = m.cpu.r 15) (fits : addr.toNat + 4 * regs.length < 0xFFFFFFFF) :
    ∃ last w' ts buf', m.storeRegs quitEnv f regs addr =
        ⟨last, false, { m with world := w', transfers := ts }, none⟩ ∧
      last.toNat = addr.toNat + 4 * regs.length ∧ w'.map = .flat buf' ∧
      (regs ≠ [] → buf' addr ≠ 0) ∧ ∀ a, buf a ≠ 0 → buf' a ≠ 0 := by
  induction regs generalizing m addr buf with
  | nil => exact ⟨addr, m.world, m.transfers, buf, rfl, rfl, flat, fun empty => absurd rfl empty,
      fun _ h => h⟩
  | cons reg regs ih =>
    rw [List.length_cons] at fits
    have value : Memmap.Full (if reg = 15 then m.cpu.r 15 ||| 1 else m.cpu.r reg) := by
      split
      · rw [odd]
        exact full 15
      · exact full reg
    have inside : addr.toNat + 4 ≤ 0xFFFFFFFF := by omega
    obtain ⟨w', buf', write, flat', written⟩ :=
      World.write_flat flat m.cpu.secState _ (.inr (.inr rfl)) inside
    obtain ⟨mark, marks⟩ := Memmap.ne_zero_of_writeBufLe value written
    have next : (addr + 4).toNat = addr.toNat + 4 := by
      have four : (4 : Word).toNat = 4 := rfl
      rw [BitVec.toNat_add, four]
      omega
    have rest : (addr + 4).toNat + 4 * regs.length < 0xFFFFFFFF := by omega
    obtain ⟨last, w'', ts, buf'', stored, last_eq, flat'', -, marks'⟩ :=
      ih (m := (m.offer addr).withWorld w') (addr + 4) flat' full odd rest
    have write : (m.offer addr).world.write quitEnv (m.offer addr).cpu.secState addr 4
        (if reg = 15 then (m.offer addr).cpu.r 15 ||| 1 else (m.offer addr).cpu.r reg) =
        (true, w') := write
    refine ⟨last, w'', ts, buf'', ?_, ?_, flat'', fun _ => marks' _ mark,
      fun a h => marks' _ (marks _ h)⟩
    · simp only [storeRegs, write]
      exact stored
    · rw [last_eq, next, List.length_cons]
      omega

def overflowing (c v : Word) : Machine Unit where
  cpu := { Board.cpu with
    r := fun i => if i = 13 then c else v
    msp := .both c
    msplim := .both 0xFFFFFFFF }
  world := { Board.world with map := .flat fun _ => 0 }
  trace := []
  it := ⟨0, 0, 0⟩
  done := false
  resetAgain := false
  transfers := []

structure Base (imm c : Word) : Prop where
  full : Memmap.Full c
  fits : (c + imm).toNat + 4 ≤ 0xFFFFFFFF

theorem exists_base (imm : Word) : ∃ c, Base imm c := by
  by_cases low : (0x40404040#32 + imm).toNat + 4 ≤ 0xFFFFFFFF
  · exact ⟨0x40404040, by unfold Memmap.Full; decide, low⟩
  · exact ⟨0x80808080, by unfold Memmap.Full; decide, by bv_omega⟩

variable {f : FetchResult} {d : Decoded} {c v : Word}

theorem overflowing_full (full : Memmap.Full c) (i : Reg) :
    Memmap.Full ((overflowing c 0xFFFFFFFF).cpu.r i) := by
  show Memmap.Full (if i = 13 then c else 0xFFFFFFFF)
  split
  · exact full
  · unfold Memmap.Full
    decide

theorem usesPsp_overflowing : (overflowing c v).cpu.usesPsp = false := by
  simp [Cpu.usesPsp, Cpu.controlSpSel, overflowing, Board.cpu, Banked.both]

theorem spLimited_overflowing {newSp : Word} (below : newSp.toNat < 0xFFFFFFFF) :
    spLimited (overflowing c v).cpu newSp = true := by
  have limit : (overflowing c v).cpu.getActiveSplim = 0xFFFFFFFF#32 := by
    rw [Cpu.getActiveSplim, usesPsp_overflowing]
    rfl
  have lt : newSp < 0xFFFFFFFF#32 := by bv_omega
  simp [spLimited, limit, lt]

theorem not_refuses_of_changed {b : Word → Byte} {a : Word}
    (changed : (executeDecoded quitEnv f d (overflowing c v)).2.world.map = .flat b)
    (mark : b a ≠ 0) : ¬ (overflowing c v).Refuses quitEnv f d := by
  rintro ⟨p, world, -, outcome⟩
  have kept : (p.usageFault quitEnv f ufsrStkof).world.map = .flat fun _ => 0 := by
    rw [usageFault_quitEnv_map, world]
    rfl
  rw [outcome] at changed
  have ram := congrArg Memmap.ram (kept.symm.trans changed)
  have same : (fun _ : Word => (0 : Byte)) = b := Option.some.inj ram
  exact mark (congrFun same a).symm

theorem not_refuses_of_ok (ok : (executeDecoded quitEnv f d (overflowing c v)).1 = .ok) :
    ¬ (overflowing c v).Refuses quitEnv f d := by
  rintro ⟨p, -, -, outcome⟩
  rw [outcome] at ok
  cases ok

theorem setSp_quitEnv_map {p : Machine Unit} {v : Word} (limited : spLimited p.cpu v = true) :
    (p.setSp quitEnv f v).2.world.map = p.world.map := by
  rw [setSp_of_limited _ limited]
  exact usageFault_quitEnv_map p f ufsrStkof

theorem exists_mark_of_store {addr size x : Word} (sizes : size = 1 ∨ size = 2 ∨ size = 4)
    (fits : addr.toNat + 4 ≤ 0xFFFFFFFF) (full : Memmap.Full x) (newSp : Word)
    (below : newSp.toNat < 0xFFFFFFFF) :
    ∃ buf, ((overflowing c v).store quitEnv f addr size x fun m =>
      m.setSp quitEnv f newSp).2.world.map = .flat buf ∧ buf addr ≠ 0 := by
  obtain ⟨w', buf', write, flat', written⟩ :=
    World.write_flat (w := (overflowing c v).world) rfl (overflowing c v).cpu.secState x sizes fits
  obtain ⟨mark, -⟩ := Memmap.ne_zero_of_writeBufLe full written
  refine ⟨buf', ?_, mark⟩
  simp only [store, write]
  exact (setSp_quitEnv_map (p := (overflowing c v).withWorld w') (spLimited_overflowing below)).trans
    flat'

theorem overflowing_synced : (overflowing c v).cpu.r 13 = (overflowing c v).cpu.getActiveSp := by
  rw [Cpu.getActiveSp, usesPsp_overflowing]
  rfl

def Fails (d : Decoded) : Prop :=
  ∃ m : Machine Unit, m.cpu.r 13 = m.cpu.getActiveSp ∧
    spLimited m.cpu (m.loweredSp d) = true ∧ ∀ f, ¬ m.Refuses quitEnv f d

theorem fails_of_writeBack (kind : d.kind = .strPreImm ∨ d.kind = .strbPreImm) (rn : d.rn = 13) :
    Fails d := by
  obtain ⟨c, full, fits⟩ := exists_base d.imm
  have below : (c + d.imm).toNat < 0xFFFFFFFF := by omega
  have limited := spLimited_overflowing (c := c) (v := 0xFFFFFFFF) below
  have stored (f : FetchResult) {size : Word} (sizes : size = 1 ∨ size = 2 ∨ size = 4) :=
    exists_mark_of_store (c := c) (v := 0xFFFFFFFF) (f := f) sizes fits
      (overflowing_full full d.rd) (c + d.imm) below
  refine ⟨overflowing c 0xFFFFFFFF, overflowing_synced, ?_, fun f => ?_⟩
  · rcases kind with kind | kind <;> simp only [loweredSp, kind] <;> exact limited
  · rcases kind with kind | kind
    · obtain ⟨buf, changed, mark⟩ := stored f (.inr (.inr rfl))
      refine not_refuses_of_changed ?_ mark
      simp only [executeDecoded, kind, rn, storeWriteBack, setRegOrSp, if_true]
      exact changed
    · obtain ⟨buf, changed, mark⟩ := stored f (.inl rfl)
      refine not_refuses_of_changed ?_ mark
      simp only [executeDecoded, kind, rn, storeWriteBack, setRegOrSp, if_true]
      exact changed

theorem fails_of_half (kind : d.kind = .strhPreImm) (rn : d.rn = 13) : Fails d := by
  obtain ⟨c, full, fits⟩ := exists_base d.imm
  have below : (c + d.imm).toNat < 0xFFFFFFFF := by omega
  refine ⟨overflowing c 0, overflowing_synced, ?_, fun f => ?_⟩
  · simp only [loweredSp, kind]
    exact spLimited_overflowing below
  · obtain ⟨w', buf', write, -, -⟩ := World.write_flat (w := (overflowing c 0).world) rfl
      (overflowing c 0).cpu.secState ((overflowing c 0).cpu.r d.rd &&& 0xffff) (.inr (.inl rfl))
      fits
    have write : (overflowing c 0).world.write quitEnv (overflowing c 0).cpu.secState
        ((overflowing c 0).cpu.r 13 + d.imm) 2 ((overflowing c 0).cpu.r d.rd &&& 0xffff) =
        (true, w') := write
    refine not_refuses_of_ok ?_
    simp only [executeDecoded, kind, rn, storeHalfWriteBack, store, write]

theorem fails_of_subReg (kind : d.kind = .subReg) (rd : d.rd = 13) : Fails d := by
  have zero (i : Reg) : (overflowing 0 0).cpu.r i = 0 := by
    show (if i = 13 then (0 : Word) else 0) = 0
    exact ite_self 0
  have shifted : (ExecHelpers.shiftRegOperand 0 d.imm (overflowing 0 0).cpu.xpsr).value = 0 :=
    ExecHelpers.shiftCImm_zero _ _
  have value : (overflowing 0 0).loweredSp d = 0 := by
    simp only [loweredSp, kind, DataProc.subReg, zero, shifted]
    split <;>
      simp only [DataProc.arith, DataProc.putFlags, rd, Function.update_self,
        ExecHelpers.addWithCarry_not, BitVec.sub_self] <;> rfl
  refine ⟨overflowing 0 0, overflowing_synced, ?_, fun f => not_refuses_of_ok ?_⟩
  · rw [value]
    exact spLimited_overflowing (by decide)
  · simp only [executeDecoded, kind, data]

abbrev overflowingWords : Machine Unit := overflowing 0x40404040 0xFFFFFFFF

theorem overflowingWords_full (i : Reg) : Memmap.Full (overflowingWords.cpu.r i) :=
  overflowing_full (by unfold Memmap.Full; decide) i

theorem overflowingWords_odd : overflowingWords.cpu.r 15 ||| 1 = overflowingWords.cpu.r 15 := rfl

theorem fails_of_dual (kind : d.kind = .strd) (rn : d.rn = 13) (pre : d.imm.getLsbD 29 = true)
    (back : d.imm.getLsbD 30 = true) : Fails d := by
  obtain ⟨moved, hmoved⟩ : ∃ moved, moved = if d.imm.getLsbD 31
      then overflowingWords.cpu.r 13 + (d.imm &&& 0x3ff)
      else overflowingWords.cpu.r 13 - (d.imm &&& 0x3ff) := ⟨_, rfl⟩
  have near : moved.toNat + 8 < 0xFFFFFFFF := by
    have small : (d.imm &&& 0x3ff).toNat < 1024 :=
      (Lib.toNat_and_mask d.imm 10 (by decide)) ▸ Nat.mod_lt _ (by decide)
    have base : overflowingWords.cpu.r 13 = 0x40404040#32 := rfl
    rw [hmoved, base]
    split <;> bv_omega
  have below : moved.toNat < 0xFFFFFFFF := by omega
  refine ⟨overflowingWords, overflowing_synced, ?_, fun f => ?_⟩
  · simp only [loweredSp, kind, ← hmoved]
    exact spLimited_overflowing below
  · have fits : moved.toNat + 4 ≤ 0xFFFFFFFF := by omega
    have fits' : (moved + 4).toNat + 4 ≤ 0xFFFFFFFF := by bv_omega
    obtain ⟨w, buf, write, flat, written⟩ := World.write_flat (w := overflowingWords.world) rfl
      overflowingWords.cpu.secState (overflowingWords.cpu.r d.rd) (.inr (.inr rfl)) fits
    obtain ⟨w', buf', write', flat', written'⟩ := World.write_flat flat
      overflowingWords.cpu.secState (overflowingWords.cpu.r d.rm) (.inr (.inr rfl)) fits'
    obtain ⟨mark, -⟩ := Memmap.ne_zero_of_writeBufLe (overflowingWords_full d.rd) written
    obtain ⟨-, marks⟩ := Memmap.ne_zero_of_writeBufLe (overflowingWords_full d.rm) written'
    refine not_refuses_of_changed (b := buf') (a := moved) ?_ (marks _ mark)
    have second : (overflowingWords.withWorld w).world.write quitEnv
        (overflowingWords.withWorld w).cpu.secState (moved + 4) 4
        ((overflowingWords.withWorld w).cpu.r d.rm) = (true, w') := write'
    simp only [executeDecoded, kind, execDual, rn, pre, back, ← hmoved, if_true, store, write, second,
      setRegOrSp, reduceCtorEq, if_false]
    exact (setSp_quitEnv_map (p := overflowingWords.withWorld w')
      (spLimited_overflowing below)).trans flat'

theorem overflowingWords_below {n : Nat} (le : n ≤ 17) :
    (overflowingWords.cpu.getActiveSp - 4 * BitVec.ofNat 32 n).toNat = 0x40404040 - 4 * n := by
  have base : overflowingWords.cpu.getActiveSp = 0x40404040#32 := overflowing_synced.symm
  rw [base]
  bv_omega

theorem length_lowRegList_le (mask : Word) : (lowRegList mask).length ≤ 16 :=
  Nat.le_trans (List.length_filter_le _ _) (by decide)

theorem length_regList_le (mask : Word) : (regList mask).length ≤ 16 :=
  Nat.le_trans (List.length_filter_le _ _) (by decide)

theorem fails_of_push (kind : d.kind = .push)
    (some : lowRegList d.imm ≠ [] ∨ d.imm.getLsbD 8 = true) : Fails d := by
  obtain ⟨regs, hregs⟩ : ∃ regs, regs = lowRegList d.imm := ⟨_, rfl⟩
  obtain ⟨start, hstart⟩ : ∃ start, start = pushSp overflowingWords d := ⟨_, rfl⟩
  have few : regs.length ≤ 16 := hregs ▸ length_lowRegList_le _
  have start_le : start.toNat ≤ 0x40404040 := by
    rw [hstart, pushSp, overflowingWords_below]
    · omega
    · rw [← hregs]
      split <;> omega
  have below : start.toNat < 0xFFFFFFFF := by omega
  rw [← hregs] at some
  refine ⟨overflowingWords, overflowing_synced, ?_, fun f => ?_⟩
  · simp only [loweredSp, kind, ← hstart]
    exact spLimited_overflowing below
  have room : start.toNat + 4 * regs.length < 0xFFFFFFFF := by omega
  obtain ⟨last, w', ts, buf, stored, last_eq, flat, mark, marks⟩ :=
    storeRegs_flat f regs start rfl overflowingWords_full overflowingWords_odd room
  have checked (p : Machine Unit) (same : p.cpu = overflowingWords.cpu) :
      (p.setSp quitEnv f start).2.world.map = p.world.map := by
    refine setSp_quitEnv_map ?_
    rw [same]
    exact spLimited_overflowing below
  -- The low registers are stored first; where there are none, LR is at the lowest address.
  cases lr : d.imm.getLsbD 8 with
  | false =>
    have some : regs ≠ [] := some.resolve_right (by rw [lr]; decide)
    refine not_refuses_of_changed (b := buf) ?_ (mark some)
    have pushed : pushRegs quitEnv overflowingWords f d = ⟨last, false,
        { overflowingWords with world := w', transfers := ts }, none⟩ := by
      simp only [pushRegs, ← hregs, ← hstart, stored, lr, Bool.and_false, Bool.false_eq_true, if_false]
    simp only [executeDecoded, kind, execPush, pushed, ← hstart]
    exact (checked { overflowingWords with world := w', transfers := ts } rfl).trans flat
  | true =>
    have room' : last.toNat + 4 * [(14 : Reg)].length < 0xFFFFFFFF := by
      rw [List.length_singleton]
      omega
    obtain ⟨last', w'', ts', buf', stored', -, flat', mark', marks'⟩ :=
      storeRegs_flat (m := { overflowingWords with world := w', transfers := ts }) f [14] last flat
        overflowingWords_full overflowingWords_odd room'
    have marked : buf' start ≠ 0 := by
      by_cases none : regs = []
      · have same : last = start := by
          apply BitVec.eq_of_toNat_eq
          rw [last_eq, none, List.length_nil]
          rfl
        rw [← same]
        exact mark' (by decide)
      · exact marks' _ (mark none)
    refine not_refuses_of_changed (b := buf') ?_ marked
    have pushed : pushRegs quitEnv overflowingWords f d = ⟨last', false,
        { overflowingWords with world := w'', transfers := ts' }, none⟩ := by
      simp only [pushRegs, ← hregs, ← hstart, stored, stored', lr]
      rfl
    simp only [executeDecoded, kind, execPush, pushed, ← hstart]
    exact (checked { overflowingWords with world := w'', transfers := ts' } rfl).trans flat'

theorem fails_of_stm (kind : d.kind = .stm) (rn : d.rn = 13) (db : d.imm >>> 24 &&& 0x3 = 2)
    (back : d.imm.getLsbD 16 = true) (some : regList (d.imm &&& 0xffff) ≠ []) : Fails d := by
  obtain ⟨regs, hregs⟩ : ∃ regs, regs = regList (d.imm &&& 0xffff) := ⟨_, rfl⟩
  obtain ⟨start, hstart⟩ : ∃ start, start =
      overflowingWords.cpu.r 13 - 4 * BitVec.ofNat 32 regs.length := ⟨_, rfl⟩
  have few : regs.length ≤ 16 := hregs ▸ length_regList_le _
  have start_toNat : start.toNat = 0x40404040 - 4 * regs.length := by
    rw [hstart, overflowing_synced]
    exact overflowingWords_below (by omega)
  have below : start.toNat < 0xFFFFFFFF := by omega
  have multiple_eq : multiple overflowingWords d = ⟨regs, true, start, start⟩ := by
    simp only [multiple, db, rn, back, ← hregs, hstart, if_true]
  rw [← hregs] at some
  refine ⟨overflowingWords, overflowing_synced, ?_, fun f => ?_⟩
  · simp only [loweredSp, kind, multiple_eq]
    exact spLimited_overflowing below
  · have fits : start.toNat + 4 * regs.length < 0xFFFFFFFF := by omega
    obtain ⟨last, w', ts, buf, stored, -, flat, mark, -⟩ :=
      storeRegs_flat f regs start rfl overflowingWords_full overflowingWords_odd fits
    refine not_refuses_of_changed (b := buf) ?_ (mark some)
    simp only [executeDecoded, kind, execMultiple, multiple_eq, some, stored, rn, reduceCtorEq,
      if_false, false_and]
    have value : (overflowingWords.cpu.setReg 13 start).r 13 = start := Cpu.setReg_r_self ..
    refine (setSp_quitEnv_map ?_).trans flat
    show spLimited (overflowingWords.cpu.setReg 13 start)
      ((overflowingWords.cpu.setReg 13 start).r 13) = true
    rw [value]
    exact spLimited_overflowing (c := 0x40404040) (v := 0xFFFFFFFF) below

end Machine

def Decoded.RefusesAlways (d : Decoded) : Prop :=
  ∀ (δ : Type) (env : Env δ) (m : Machine δ) (f : FetchResult), m.cpu.r 13 = m.cpu.getActiveSp →
    Machine.spLimited m.cpu (m.loweredSp d) = true → m.Refuses env f d

theorem Decoded.refusesAlways_iff {d : Decoded} (lowers : d.LowersSp) :
    d.RefusesAlways ↔ d.SubtractsImm := by
  constructor
  · intro always
    have notFails : ¬ Machine.Fails d := by
      rintro ⟨m, synced, limited, fails⟩
      exact fails ⟨0, 0, false, 0, 0⟩ (always Unit World.quitEnv m _ synced limited)
    have kinds := lowers
    simp only [LowersSp] at kinds
    split at kinds
    · exact absurd (Machine.fails_of_push ‹_› kinds) notFails
    · obtain ⟨rn, db, back, some⟩ := kinds
      exact absurd (Machine.fails_of_stm ‹_› rn db back some) notFails
    · exact absurd (Machine.fails_of_writeBack (.inl ‹_›) kinds) notFails
    · exact absurd (Machine.fails_of_writeBack (.inr ‹_›) kinds) notFails
    · exact absurd (Machine.fails_of_half ‹_› kinds) notFails
    · obtain ⟨rn, pre, back⟩ := kinds
      exact absurd (Machine.fails_of_dual ‹_› rn pre back) notFails
    · exact .inl ‹_›
    · exact .inr (.inl ‹_›)
    · exact .inr (.inr ‹_›)
    · exact absurd (Machine.fails_of_subReg ‹_› kinds.1) notFails
    · exact kinds.elim
  · intro sub δ env m f synced limited
    exact Machine.refuses_of_subtractsImm lowers sub synced limited

namespace World

variable {δ : Type} (env : Env δ)

/-- The addresses of the words that memory takes while `ws` is pushed downwards from `sp`. -/
inductive PushWrites (sec : SecState) : World δ → Word → List Word → Word → Prop
  | here {w w' : World δ} {sp v : Word} {vs : List Word}
    (write : w.write env sec (sp - 4) 4 v = (true, w')) : PushWrites sec w sp (v :: vs) (sp - 4)
  | there {w w' : World δ} {sp v a : Word} {vs : List Word}
    (write : w.write env sec (sp - 4) 4 v = (true, w')) (later : PushWrites sec w' (sp - 4) vs a) :
    PushWrites sec w sp (v :: vs) a

def wordBelow (sp : Word) (k : Nat) : Word := sp - 4 * BitVec.ofNat 32 (k + 1)

theorem wordBelow_succ (sp : Word) (k : Nat) : wordBelow sp (k + 1) = wordBelow (sp - 4) k := by
  simp only [wordBelow, BitVec.ofNat_add]
  grind

theorem pushWrites_iff {w : World δ} {sec : SecState} {sp a : Word} {ws : List Word} :
    PushWrites env sec w sp ws a ↔
      ∃ k < ws.length, a = wordBelow sp k ∧ (w.pushWords env sec sp (ws.take (k + 1))).1.isSome := by
  induction ws generalizing w sp a with
  | nil =>
    constructor
    · nofun
    · rintro ⟨k, lt, -⟩
      exact absurd lt (Nat.not_lt_zero k)
  | cons v vs ih =>
    constructor
    · intro writes
      cases writes with
      | here write =>
        refine ⟨0, Nat.zero_lt_succ _, rfl, ?_⟩
        simp only [List.take_succ_cons, pushWords, write, List.take_zero, Option.isSome_some]
      | there write later =>
        obtain ⟨k, lt, rfl, pushed⟩ := ih.mp later
        refine ⟨k + 1, Nat.succ_lt_succ lt, (wordBelow_succ sp k).symm, ?_⟩
        simpa only [List.take_succ_cons, pushWords, write] using pushed
    · rintro ⟨k, lt, rfl, pushed⟩
      rcases write : w.write env sec (sp - 4) 4 v with ⟨_ | _, w'⟩
      · simp only [List.take_succ_cons, pushWords, write] at pushed
        cases pushed
      · cases k with
        | zero => exact .here write
        | succ k =>
          rw [wordBelow_succ]
          refine .there write (ih.mpr ⟨k, Nat.lt_of_succ_lt_succ lt, rfl, ?_⟩)
          simpa only [List.take_succ_cons, pushWords, write] using pushed

variable {env} in
theorem pushWords_take {w : World δ} {sec : SecState} {sp : Word} {ws : List Word}
    (pushed : (w.pushWords env sec sp ws).1.isSome) (n : Nat) :
    (w.pushWords env sec sp (ws.take n)).1.isSome := by
  induction ws generalizing w sp n with
  | nil => rwa [List.take_nil]
  | cons v vs ih =>
    cases n with
    | zero => rfl
    | succ n =>
      rcases write : w.write env sec (sp - 4) 4 v with ⟨_ | _, w'⟩
      · simp only [pushWords, write] at pushed
        cases pushed
      · simp only [List.take_succ_cons, pushWords, write] at pushed ⊢
        exact ih pushed n

end World

namespace Sys

variable {δ : Type} (env : Env δ)

def entryLimit (c : Cpu) : Word :=
  if c.usePspEntry then c.psplim.get c.secState else c.msplim.get c.secState

def entrySp (c : Cpu) : Word := c.bankSp c.secState c.usePspEntry

def EntersAbove (s : Sys δ) (pc xpsr : Word) : Prop :=
  ∀ a, World.PushWrites env s.cpu.secState s.world (entrySp s.cpu) (s.cpu.frame pc xpsr).words.reverse
    a → entryLimit s.cpu = 0 ∨ entryLimit s.cpu ≤ a

def FrameFits (s : Sys δ) (pc xpsr : Word) : Prop :=
  entryLimit s.cpu = 0 ∨ ∀ k < 8, World.wordBelow (entrySp s.cpu) k < entryLimit s.cpu →
    (s.world.pushWords env s.cpu.secState (entrySp s.cpu)
      ((s.cpu.frame pc xpsr).words.reverse.take (k + 1))).1 = none

theorem entersAbove_iff {s : Sys δ} {pc xpsr : Word} :
    s.EntersAbove env pc xpsr ↔ s.FrameFits env pc xpsr := by
  have length : (s.cpu.frame pc xpsr).words.reverse.length = 8 := rfl
  by_cases none : entryLimit s.cpu = 0
  · exact ⟨fun _ => .inl none, fun _ _ _ => .inl none⟩
  constructor
  · intro above
    refine .inr fun k lt below => ?_
    rw [← Option.not_isSome_iff_eq_none]
    intro pushed
    have writes := (World.pushWrites_iff env).mpr ⟨k, length ▸ lt, rfl, pushed⟩
    exact absurd ((above _ writes).resolve_left none) (by bv_omega)
  · rintro (zero | fits) a writes
    · exact .inl zero
    · obtain ⟨k, lt, rfl, pushed⟩ := (World.pushWrites_iff env).mp writes
      refine .inr ?_
      by_contra below
      rw [fits k (length ▸ lt) (by bv_omega)] at pushed
      cases pushed

theorem enter_pushes (s : Sys δ) (num pc xpsrIn xpsr handler : Word) (sec : SecState) :
    ((s.enter env num pc xpsrIn xpsr handler sec).1 = true ↔
      (s.world.pushWords env s.cpu.secState (entrySp s.cpu)
        (s.cpu.frame pc xpsrIn).words.reverse).1.isSome) ∧
      (s.enter env num pc xpsrIn xpsr handler sec).2.world =
        (s.world.pushWords env s.cpu.secState (entrySp s.cpu)
          (s.cpu.frame pc xpsrIn).words.reverse).2 := by
  simp only [enter, World.pushFrame, entrySp]
  rcases s.world.pushWords env s.cpu.secState _ _ with ⟨_ | sp, w⟩
  · exact ⟨iff_of_false Bool.false_ne_true Bool.false_ne_true, rfl⟩
  · exact ⟨iff_of_true rfl rfl, rfl⟩

theorem entersAbove_of_delivered_iff {s : Sys δ} {num pc xpsrIn xpsr handler : Word}
    {sec : SecState} (delivered : (s.enter env num pc xpsrIn xpsr handler sec).1 = true) :
    s.EntersAbove env pc xpsrIn ↔ entryLimit s.cpu = 0 ∨
      ∀ k < 8, entryLimit s.cpu ≤ World.wordBelow (entrySp s.cpu) k := by
  have pushed := World.pushWords_take ((enter_pushes env s num pc xpsrIn xpsr handler sec).1.mp delivered)
  rw [entersAbove_iff, FrameFits]
  refine or_congr_right (forall₂_congr fun k _ => ?_)
  have taken := pushed (k + 1)
  constructor
  · intro fits
    by_contra below
    rw [fits (BitVec.not_le.mp below)] at taken
    cases taken
  · exact fun above below => absurd above (BitVec.not_le.mpr below)

end Sys

/-- The limit holds back the subtractions of an immediate and no other instruction, and exception
entry only where its frame fits. -/
theorem stackLimit_kept_iff {d : Decoded} (lowers : d.LowersSp) {δ : Type} (env : Env δ) (s : Sys δ)
    (pc xpsr : Word) :
    (d.RefusesAlways ↔ d.SubtractsImm) ∧
      (s.EntersAbove env pc xpsr ↔ s.FrameFits env pc xpsr) :=
  ⟨Decoded.refusesAlways_iff lowers, Sys.entersAbove_iff env⟩

theorem stackLimit_kept_subSp : (Decode.decode16 0xb082).RefusesAlways := by
  have lowers : (Decode.decode16 0xb082).LowersSp := by
    show (Decode.decode16 0xb082).rd = 13
    decide
  exact (stackLimit_kept_iff lowers Board.env Board.sys 0 0).1.mpr (.inl (by decide))

def nearLimit : Machine Unit :=
  let m := Machine.overflowing 0x20008000 0x11
  { m with
    cpu := { m.cpu with msplim := .both 0x20007FE0 }
    world := Board.world }

theorem push_stores_below_limit :
    (Decode.decode16 0xb5ff).LowersSp ∧ nearLimit.cpu.r 13 = nearLimit.cpu.getActiveSp ∧
      Machine.spLimited nearLimit.cpu (nearLimit.loweredSp (Decode.decode16 0xb5ff)) = true ∧
      ¬ nearLimit.Refuses World.quitEnv ⟨0xb5ff, 2, false, 0, 0x20000100⟩
        (Decode.decode16 0xb5ff) := by
  refine ⟨.inl (by decide), by decide, by decide, ?_⟩
  rintro ⟨p, world, -, outcome⟩
  have kept : (p.usageFault World.quitEnv ⟨0xb5ff, 2, false, 0, 0x20000100⟩
      Machine.ufsrStkof).world.map.ram = some fun _ => 0 := by
    rw [Machine.usageFault_quitEnv_map, world]
    rfl
  have stored : (executeDecoded World.quitEnv ⟨0xb5ff, 2, false, 0, 0x20000100⟩
      (Decode.decode16 0xb5ff) nearLimit).2.world.map.ram.map (fun buf => buf 0x7FDC) = some 0x11 := by
    decide +kernel
  rw [outcome] at stored
  have erased := congrArg (Option.map fun buf : Word → Byte => buf 0x7FDC) kept
  rw [stored] at erased
  revert erased
  decide

end M33mu
