import M33mu.Execute
import Mathlib.Logic.Relation

/-!
What an instruction can do, other than `IT` and `MSR`: quiet steps and exception entries, and at
most one change of context before them.
-/

namespace M33mu

structure SecureCpuBank where
  msp : Word
  psp : Word
  msplim : Word
  psplim : Word
  control : Word
  priv : Bool
  primask : Word
  deriving DecidableEq, Repr

namespace Cpu

def secureBank (c : Cpu) : SecureCpuBank :=
  ⟨c.msp.s, c.psp.s, c.msplim.s, c.psplim.s, c.control.s, c.priv.s, c.primask.s⟩

/-- The context stays: security state, mode, Non-secure calls and `ITSTATE`, and in Non-secure
state the Secure bank. -/
structure Quiet (c c' : Cpu) : Prop where
  secState : c'.secState = c.secState
  mode : c'.mode = c.mode
  tz : c'.tz = c.tz
  itState : ItState.get c'.xpsr = ItState.get c.xpsr
  bank : c.secState = .nonsecure → c'.secureBank = c.secureBank

namespace Quiet

theorem refl (c : Cpu) : c.Quiet c := ⟨rfl, rfl, rfl, rfl, fun _ => rfl⟩

theorem trans {a b c : Cpu} (h : a.Quiet b) (h' : b.Quiet c) : a.Quiet c where
  secState := h'.secState.trans h.secState
  mode := h'.mode.trans h.mode
  tz := h'.tz.trans h.tz
  itState := h'.itState.trans h.itState
  bank ns := (h'.bank (h.secState.trans ns)).trans (h.bank ns)

end Quiet

theorem setReg_quiet (c : Cpu) (i : Reg) (v : Word) : c.Quiet (c.setReg i v) :=
  ⟨rfl, rfl, rfl, rfl, fun _ => rfl⟩

theorem withData_quiet (c : Cpu) (res : DataResult) : c.Quiet (c.withData res) := by
  refine ⟨rfl, rfl, rfl, ItState.get_congr fun i _ hi => ?_, fun _ => rfl⟩
  simp only [withData]
  split
  · exact FlagWrite.getLsbD_apply _ _ (by omega)
  · rfl

theorem initMspTop_quiet (c : Cpu) (sec : SecState) (v : Word) : c.Quiet (c.initMspTop sec v) := by
  simp only [initMspTop]
  split
  · exact ⟨rfl, rfl, rfl, rfl, fun _ => rfl⟩
  · exact .refl c

theorem updateMspMin_quiet (c : Cpu) (sec : SecState) (v : Word) :
    c.Quiet (c.updateMspMin sec v) := by
  simp only [updateMspMin]
  split
  · exact ⟨rfl, rfl, rfl, rfl, fun _ => rfl⟩
  · exact .refl c

theorem setActiveSp_quiet (c : Cpu) (v : Word) : c.Quiet (c.setActiveSp v) := by
  simp only [setActiveSp]
  split
  · have psp : c.Quiet { c with psp := c.psp.set c.secState v } :=
      ⟨rfl, rfl, rfl, rfl, fun ns => by simp [secureBank, ns]⟩
    exact psp.trans (setReg_quiet _ _ _)
  · have msp : c.Quiet { c with msp := c.msp.set c.secState v } :=
      ⟨rfl, rfl, rfl, rfl, fun ns => by simp [secureBank, ns]⟩
    exact ((msp.trans (initMspTop_quiet _ _ _)).trans (updateMspMin_quiet _ _ _)).trans
      (setReg_quiet _ _ _)

theorem enterNs_quiet (c : Cpu) (ns : c.secState = .nonsecure) :
    c.Quiet c.tzNoteNsMspTop.tzSyncR13FromActiveSp := by
  refine .trans ?_ (setActiveSp_quiet _ _)
  simp only [tzNoteNsMspTop, ns]
  exact c.initMspTop_quiet _ _

theorem exclSet_quiet (c : Cpu) (sec : SecState) (addr size : Word) :
    c.Quiet (c.exclSet sec addr size) := ⟨rfl, rfl, rfl, rfl, fun _ => rfl⟩

theorem exclClear_quiet (c : Cpu) : c.Quiet c.exclClear := ⟨rfl, rfl, rfl, rfl, fun _ => rfl⟩

/-- What `MSR` leaves alone in every state. -/
structure Still (c c' : Cpu) : Prop where
  secState : c'.secState = c.secState
  mode : c'.mode = c.mode
  tz : c'.tz = c.tz
  itState : ItState.get c'.xpsr = ItState.get c.xpsr

theorem setMsp_still (c : Cpu) (sec : SecState) (v : Word) : c.Still (c.setMsp sec v) := by
  simp only [setMsp, initMspTop, updateMspMin]
  cases sec
  · simp only
    split <;> exact ⟨rfl, rfl, rfl, rfl⟩
  · simp only
    split <;> split <;> exact ⟨rfl, rfl, rfl, rfl⟩

theorem writeSpecial_still (c : Cpu) (sysm val : Word) : c.Still (c.writeSpecial sysm val) := by
  simp only [writeSpecial]
  split
  case h_1 | h_5 => exact c.setMsp_still _ val
  all_goals exact ⟨rfl, rfl, rfl, rfl⟩

theorem execMsr_still (c : Cpu) (d : Decoded) : c.Still (c.execMsr d) := by
  simp only [execMsr]
  split
  · exact c.writeSpecial_still _ _
  split
  · refine ⟨rfl, rfl, rfl, ItState.get_congr fun i _ hi => ?_⟩
    have flags : ∀ i < 27, (0xF8000000#32).getLsbD i = false := by decide
    have low : (0xF8000000 : Word).getLsbD i = false := flags i hi
    simp only [ExecHelpers.xpsrWriteNzcvq, BitVec.getLsbD_or, BitVec.getLsbD_and,
      BitVec.getLsbD_not, flags i hi, low, Bool.not_false, Bool.and_true, Bool.and_false,
      Bool.or_false, show i < 32 by omega, decide_true]
  · exact ⟨rfl, rfl, rfl, rfl⟩

theorem execCps_quiet (c : Cpu) (d : Decoded) : c.Quiet (c.execCps d) := by
  simp only [execCps]
  split
  · exact ⟨rfl, rfl, rfl, rfl, fun ns => by simp [secureBank, ns]⟩
  · exact .refl c

theorem execWfe_quiet (c : Cpu) : c.Quiet c.execWfe := by
  simp only [execWfe]
  split <;> exact ⟨rfl, rfl, rfl, rfl, fun _ => rfl⟩

end Cpu

/-- What code asks for by itself: a value for `handle_pc_write`, or `SG`. -/
inductive Request
  | pcWrite (value : Word)
  | sg
  deriving DecidableEq, Repr

namespace Execute

variable {δ : Type u} (env : Env δ)

/-- What the loop of `LDM` and `POP` reads for the PC. -/
def loadedPc (w : World δ) (sec : SecState) : List Reg → Word → List Request
  | [], _ => []
  | reg :: regs, addr =>
    match w.read env sec addr 4 with
    | (none, _) => []
    | (some v, w) =>
      if reg = 15 then .pcWrite v :: loadedPc w sec regs (addr + 4)
      else loadedPc w sec regs (addr + 4)

def loadedWord (m : Machine δ) (d : Decoded) (addr : Word) : List Request :=
  if d.rd = 15 then ((m.world.read env m.cpu.secState addr 4).1.map .pcWrite).toList else []

def loadedEntry (m : Machine δ) (f : FetchResult) (d : Decoded) : List Request :=
  let entry :=
    (tableEntry env m.world m.cpu.secState (tableBase m f d) (m.cpu.r d.rm) (d.kind = .tbh)).2.1
  (entry.map fun entry => .pcWrite (tableTarget f entry)).toList

def requested (f : FetchResult) (d : Decoded) (m : Machine δ) : List Request :=
  let c := m.cpu
  match d.kind with
  | .sg => [.sg]
  | .bx => if d.rm = 14 then [.pcWrite (c.r d.rm)] else []
  | .movReg => if d.rd = 15 then [.pcWrite (c.r d.rm)] else []
  | .tbb | .tbh => loadedEntry env m f d
  | .ldrLiteral => loadedWord env m d (((f.pcFetch + 4) &&& ~~~3#32) + d.imm)
  | .ldrImm | .ldrPreImm => loadedWord env m d (c.r d.rn + d.imm)
  | .ldrReg => loadedWord env m d (offsetAddr m d 0x3)
  | .ldrPostImm => loadedWord env m d (c.r d.rn)
  | .ldm => loadedPc env m.world c.secState (multiple m d).regs (multiple m d).start
  | .pop => loadedPc env m.world c.secState (popList d) c.getActiveSp
  | _ => []

end Execute

namespace Machine

variable {δ : Type u} {env : Env δ} {f : FetchResult} {P : Request → Prop}

structure Quiet (m m' : Machine δ) : Prop where
  cpu : m.cpu.Quiet m'.cpu
  it : m'.it = m.it
  trace : m'.trace = m.trace

structure Entry (m m' : Machine δ) : Prop where
  entered : ∃ num, m.cpu.Entered m'.cpu num m.cpu.xpsr m.cpu.secState ∧
    m'.trace = .enter num m.cpu.secState m.cpu.secState (m.cpu.xpsr ||| 0x01000000) :: m.trace
  it : m'.it = m.it

abbrev Local : Machine δ → Machine δ → Prop := Relation.ReflTransGen fun a b => a.Quiet b ∨ a.Entry b

inductive Transfer (env : Env δ) (f : FetchResult) (P : Request → Prop) (m : Machine δ) :
    Machine δ → Prop
  | ret (excRet : Word) (requested : P (.pcWrite excRet))
    (h : (m.toSys.excReturnUnstack env excRet).1 = true) :
    Transfer env f P m (m.excReturn env excRet)
  | sg (requested : P .sg) (ns : m.cpu.secState = .nonsecure) :
    Transfer env f P m ({ m with cpu := m.cpu.tzExecSg }.record (.sg f.pcFetch))
  | bxns (target : Word) : Transfer env f P m { m with cpu := m.cpu.tzExecBxns target }
  | blxns (target returnAddr : Word) :
    Transfer env f P m
      ({ m with cpu := m.cpu.tzExecBlxns target returnAddr }.record (.call m.cpu.secState))
  | tzReturn (rec : TzRecord) (ns : m.cpu.secState = .nonsecure) (h : m.cpu.tz.pop.1 = some rec) :
    Transfer env f P m ({ m with cpu := m.cpu.tzReturn rec }.record (.tzReturn rec.sec))

inductive Effect (env : Env δ) (f : FetchResult) (P : Request → Prop) (m : Machine δ) :
    Machine δ → Prop
  | stays {m' : Machine δ} (h : m.Local m') : Effect env f P m m'
  | transfers {a b m' : Machine δ} (before : m.Quiet a) (transfer : Transfer env f P a b)
    (after : b.Local m') : Effect env f P m m'

theorem Quiet.refl (m : Machine δ) : m.Quiet m := ⟨.refl _, rfl, rfl⟩

theorem Quiet.trans {a b c : Machine δ} (h : a.Quiet b) (h' : b.Quiet c) : a.Quiet c :=
  ⟨h.cpu.trans h'.cpu, h'.it.trans h.it, h'.trace.trans h.trace⟩

theorem Quiet.of_cpu {m : Machine δ} {c : Cpu} (h : m.cpu.Quiet c) : m.Quiet { m with cpu := c } :=
  ⟨h, rfl, rfl⟩

theorem Quiet.local {m m' : Machine δ} (h : m.Quiet m') : m.Local m' := .single (.inl h)

theorem withWorld_quiet (m : Machine δ) (w : World δ) : m.Quiet (m.withWorld w) :=
  ⟨.refl _, rfl, rfl⟩

theorem offer_quiet (m : Machine δ) (addr : Word) : m.Quiet (m.offer addr) := ⟨.refl _, rfl, rfl⟩

theorem setReg_quiet (m : Machine δ) (i : Reg) (v : Word) : m.Quiet (m.setReg i v) :=
  .of_cpu (m.cpu.setReg_quiet i v)

namespace Effect

theorem of_quiet {m m' : Machine δ} (h : m.Quiet m') : Effect env f P m m' := .stays h.local

theorem of_cpu {m : Machine δ} {c : Cpu} (h : m.cpu.Quiet c) :
    Effect env f P m { m with cpu := c } := .of_quiet (.of_cpu h)

theorem quiet_trans {a b c : Machine δ} (h : a.Quiet b) (h' : Effect env f P b c) :
    Effect env f P a c := by
  cases h' with
  | stays h' => exact .stays (.head (.inl h) h')
  | transfers before transfer after => exact .transfers (h.trans before) transfer after

theorem trans_local {a b c : Machine δ} (h : Effect env f P a b) (h' : b.Local c) :
    Effect env f P a c := by
  cases h with
  | stays h => exact .stays (h.trans h')
  | transfers before transfer after => exact .transfers before transfer (after.trans h')

end Effect

theorem afterCall_local {m : Machine δ} {r : Bool × Sys δ}
    (h : m.toSys.Raised m.cpu.xpsr m.cpu.secState r) : m.Local (m.afterCall r) := by
  cases h with
  | entered num w h => exact .single (.inr ⟨⟨num, h, rfl⟩, rfl⟩)
  | refused w => exact Quiet.local ⟨.refl _, rfl, rfl⟩

def OnlyEnters (m m' : Machine δ) : Prop :=
  ∃ es, m'.trace = es ++ m.trace ∧
    ∀ e ∈ es, ∃ num origin target x, e = .enter num origin target x

theorem Local.onlyEnters {m m' : Machine δ} (h : m.Local m') : m.OnlyEnters m' := by
  induction h with
  | refl => exact ⟨[], rfl, nofun⟩
  | tail _ step ih =>
    obtain ⟨es, eq, only⟩ := ih
    cases step with
    | inl quiet => exact ⟨es, quiet.trace.trans eq, only⟩
    | inr entry =>
      obtain ⟨num, -, trace⟩ := entry.entered
      refine ⟨_ :: es, trace.trans (congrArg _ eq), fun e mem => ?_⟩
      cases mem with
      | head => exact ⟨_, _, _, _, rfl⟩
      | tail _ mem => exact only e mem

theorem memFault_local (m : Machine δ) (g : FetchResult) (addr : Word) (isExec : Bool) :
    m.Local (m.memFault env g addr isExec) :=
  afterCall_local (Sys.raiseMemFault_raised env m.toSys _ _ _ _)

theorem usageFault_local (m : Machine δ) (g : FetchResult) (ufsrBits : Word) :
    m.Local (m.usageFault env g ufsrBits) :=
  afterCall_local (Sys.raiseUsageFault_raised env m.toSys _ _ _)

theorem setSp_local (m : Machine δ) (g : FetchResult) (value : Word) :
    m.Local (m.setSp env g value).2 := by
  simp only [setSp]
  split
  · exact (usageFault_local m g _).trans (Quiet.local ⟨.refl _, rfl, rfl⟩)
  · exact (Quiet.of_cpu (m.cpu.setActiveSp_quiet value)).local

theorem setRegOrSp_local (m : Machine δ) (g : FetchResult) (i : Reg) (value : Word) :
    m.Local (m.setRegOrSp env g i value).2 := by
  simp only [setRegOrSp]
  split
  · exact setSp_local m g value
  · exact (setReg_quiet m i value).local

theorem load_effect_of_read {m : Machine δ} {g : FetchResult} {addr size : Word} {isExec : Bool}
    {k : Word → Machine δ → Outcome δ}
    (hk : ∀ v a, (m.world.read env m.cpu.secState addr size).1 = some v →
      Effect env f P a (k v a).2) :
    Effect env f P m (m.load env g addr size isExec k).2 := by
  simp only [load]
  split
  · rename_i v w read
    exact .quiet_trans (withWorld_quiet m w) (hk v _ (congrArg Prod.fst read))
  · exact .stays ((withWorld_quiet m _).local.trans (memFault_local _ _ _ _))

theorem load_effect {m : Machine δ} {g : FetchResult} {addr size : Word} {isExec : Bool}
    {k : Word → Machine δ → Outcome δ} (hk : ∀ v a, Effect env f P a (k v a).2) :
    Effect env f P m (m.load env g addr size isExec k).2 :=
  load_effect_of_read fun v a _ => hk v a

theorem store_effect {m : Machine δ} {g : FetchResult} {addr size value : Word}
    {k : Machine δ → Outcome δ} (hk : ∀ a, Effect env f P a (k a).2) :
    Effect env f P m (m.store env g addr size value k).2 := by
  simp only [store]
  split
  · exact .quiet_trans (withWorld_quiet m _) (hk _)
  · exact .stays ((withWorld_quiet m _).local.trans (memFault_local _ _ _ _))

theorem excReturn_effect (m : Machine δ) {excRet : Word} (requested : P (.pcWrite excRet)) :
    Effect env f P m (m.excReturn env excRet) := by
  by_cases h : (m.toSys.excReturnUnstack env excRet).1 = true
  · exact .transfers (.refl m) (.ret excRet requested h) .refl
  · refine .of_quiet ?_
    simp only [excReturn, h, afterCall]
    simp only [Sys.excReturnUnstack] at h ⊢
    split at h
    · exact ⟨.refl _, rfl, rfl⟩
    · split at h
      · exact absurd rfl h
      · exact ⟨⟨rfl, rfl, rfl, rfl, fun _ => rfl⟩, rfl, rfl⟩

theorem handlePcWrite_effect (m : Machine δ) {value : Word} (requested : P (.pcWrite value)) :
    Effect env f P m (m.handlePcWrite env value) := by
  simp only [handlePcWrite]
  split
  · exact excReturn_effect m requested
  · exact .of_quiet (setReg_quiet m _ _)

theorem loadRegs_effect (m : Machine δ) (g : FetchResult) (regs : List Reg) (addr : Word)
    (hP : ∀ req ∈ Execute.loadedPc env m.world m.cpu.secState regs addr, P req) :
    Effect env f P m (m.loadRegs env g regs addr).machine := by
  induction regs generalizing m addr with
  | nil => exact .of_quiet (.refl m)
  | cons reg regs ih =>
    refine .quiet_trans (offer_quiet m addr) ?_
    simp only [loadRegs]
    split
    · exact .stays ((withWorld_quiet _ _).local.trans (memFault_local _ _ _ _))
    · rename_i v w read
      simp only [Execute.loadedPc, show m.world.read env m.cpu.secState addr 4 = _ from read] at hP
      refine .quiet_trans (withWorld_quiet _ w) ?_
      split
      · rename_i pc
        simp only [pc, if_true, List.forall_mem_cons] at hP
        split
        · exact handlePcWrite_effect _ hP.1
        · rename_i hv
          simp only [handlePcWrite, hv]
          exact .quiet_trans (setReg_quiet _ _ _) (ih _ _ hP.2)
      · rename_i pc
        simp only [pc, if_false] at hP
        exact .quiet_trans (setReg_quiet _ _ _) (ih _ _ hP)

theorem storeRegs_local (m : Machine δ) (g : FetchResult) (regs : List Reg) (addr : Word) :
    m.Local (m.storeRegs env g regs addr).machine := by
  induction regs generalizing m addr with
  | nil => exact .refl
  | cons reg regs ih =>
    refine (offer_quiet m addr).local.trans ?_
    simp only [storeRegs]
    split
    · exact (withWorld_quiet _ _).local.trans (memFault_local _ _ _ _)
    · exact (withWorld_quiet _ _).local.trans (ih _ _)

theorem setSp_effect (m : Machine δ) (g : FetchResult) (value : Word) :
    Effect env f P m (m.setSp env g value).2 := .stays (setSp_local m g value)

theorem setRegOrSp_effect (m : Machine δ) (g : FetchResult) (i : Reg) (value : Word) :
    Effect env f P m (m.setRegOrSp env g i value).2 := .stays (setRegOrSp_local m g i value)

theorem usageFault_effect (m : Machine δ) (g : FetchResult) (ufsrBits : Word) :
    Effect env f P m (m.usageFault env g ufsrBits) := .stays (usageFault_local m g ufsrBits)

theorem setReg_effect (m : Machine δ) (i : Reg) (v : Word) : Effect env f P m (m.setReg i v) :=
  .of_quiet (setReg_quiet m i v)

end Machine

namespace Execute

open Machine

variable {δ : Type u} {env : Env δ} {f g : FetchResult} {d : Decoded} {P : Request → Prop}

theorem branchTo_effect (m : Machine δ) (target : Word) : Effect env f P m (branchTo m target).2 :=
  setReg_effect m _ _

theorem data_effect (m : Machine δ) (res : DataResult) : Effect env f P m (data m res).2 :=
  .of_cpu (m.cpu.withData_quiet res)

theorem dataOrSp_effect (m : Machine δ) : Effect env f P m (dataOrSp env m g d).2 := by
  simp only [dataOrSp]
  split
  · exact (data_effect m _).trans_local (setSp_local _ _ _)
  · exact data_effect m _

theorem spPlus_effect (m : Machine δ) (imm : Word) : Effect env f P m (spPlus env m g d imm).2 := by
  simp only [spPlus]
  split
  · exact setSp_effect m _ _
  · exact setReg_effect m _ _

theorem execBx_effect (m : Machine δ) (hP : d.rm = 14 → P (.pcWrite (m.cpu.r d.rm))) :
    Effect env f P m (execBx env m g d).2 := by
  simp only [execBx]
  split
  · rename_i h
    exact excReturn_effect m (hP h.1)
  split
  · exact branchTo_effect m _
  split
  · rename_i h
    split
    · rename_i rec pop
      exact .transfers (.refl m) (.tzReturn rec h.2.1 pop) (setSp_local _ _ _)
    · exact branchTo_effect m _
  · exact branchTo_effect m _

theorem execSg_effect (m : Machine δ) (hP : P .sg) : Effect env f P m (execSg m f).2 := by
  simp only [execSg]
  split
  · rename_i ns
    exact .transfers (.refl m) (.sg hP ns) .refl
  · exact .of_quiet (.refl m)

theorem execBlxns_effect (m : Machine δ) : Effect env f P m (execBlxns m g d).2 :=
  .transfers (.refl m) (.blxns _ _) .refl

theorem bitField_effect (m : Machine δ) (bad : Bool) (res : Word) :
    Effect env f P m (bitField env m g d bad res).2 := by
  simp only [bitField]
  split
  · exact usageFault_effect m _ _
  · exact setReg_effect m _ _

theorem execDiv_effect (m : Machine δ) (div : Word → Word → Word) :
    Effect env f P m (execDiv env m g d div).2 := by
  simp only [execDiv]
  split
  · split
    · exact usageFault_effect m _ _
    · exact setReg_effect m _ _
  · exact setReg_effect m _ _

theorem execTableBranch_effect (m : Machine δ)
    (hP : ∀ req ∈ loadedEntry env m g d, P req) :
    Effect env f P m (execTableBranch env m g d).2 := by
  simp only [execTableBranch]
  split
  · rename_i entry w read
    simp only [loadedEntry, read, Option.map_some] at hP
    exact .quiet_trans (withWorld_quiet m _) (handlePcWrite_effect _ (hP _ (.head _)))
  · exact .stays ((withWorld_quiet m _).local.trans (memFault_local _ _ _ _))

theorem execMrs_effect (m : Machine δ) : Effect env f P m (execMrs m d).2 := by
  simp only [execMrs]
  split
  · exact .of_quiet (.refl m)
  · exact setReg_effect m _ _

theorem mem_loadedWord {m : Machine δ} {addr v : Word} (pc : d.rd = 15)
    (read : (m.world.read env m.cpu.secState addr 4).1 = some v) :
    .pcWrite v ∈ loadedWord env m d addr := by
  rw [loadedWord, if_pos pc, read]
  exact .head _

theorem loadWord_effect (m : Machine δ) {addr : Word} {isExec : Bool}
    (hP : ∀ req ∈ loadedWord env m d addr, P req) :
    Effect env f P m (loadWord env m g d addr isExec).2 := by
  refine load_effect_of_read fun v a read => ?_
  split
  · rename_i pc
    exact handlePcWrite_effect a (hP _ (mem_loadedWord pc read))
  · exact setReg_effect a _ _

theorem loadPart_effect (m : Machine δ) (addr size : Word) (ext : Word → Word) :
    Effect env f P m (loadPart env m g d addr size ext).2 :=
  load_effect fun _ a => setReg_effect a _ _

theorem storePart_effect (m : Machine δ) (addr size value : Word) :
    Effect env f P m (storePart env m g addr size value).2 :=
  store_effect fun a => .of_quiet (.refl a)

theorem loadWriteBack_effect (m : Machine δ) {addr newRn : Word}
    (hP : ∀ req ∈ loadedWord env m d addr, P req) :
    Effect env f P m (loadWriteBack env m g d addr newRn).2 := by
  refine load_effect_of_read fun v a read => .trans_local ?_ (setRegOrSp_local _ _ _ _)
  split
  · rename_i pc
    exact handlePcWrite_effect a (hP _ (mem_loadedWord pc read))
  · exact setReg_effect a _ _

theorem loadByteWriteBack_effect (m : Machine δ) (addr newRn : Word) :
    Effect env f P m (loadByteWriteBack env m g d addr newRn).2 :=
  load_effect fun _ a => (setReg_effect a _ _).trans_local (setRegOrSp_local _ _ _ _)

theorem storeWriteBack_effect (m : Machine δ) (addr size newRn : Word) :
    Effect env f P m (storeWriteBack env m g d addr size newRn).2 :=
  store_effect fun a => setRegOrSp_effect a _ _ _

theorem loadHalfWriteBack_effect (m : Machine δ) (addr newRn : Word) :
    Effect env f P m (loadHalfWriteBack env m g d addr newRn).2 :=
  load_effect fun _ a => .quiet_trans (setReg_quiet a _ _) (setReg_effect _ _ _)

theorem storeHalfWriteBack_effect (m : Machine δ) (addr newRn : Word) :
    Effect env f P m (storeHalfWriteBack env m g d addr newRn).2 :=
  store_effect fun a => setReg_effect a _ _

theorem execLdrex_effect (m : Machine δ) : Effect env f P m (execLdrex env m g d).2 := by
  refine load_effect fun v a => ?_
  split
  · exact .of_cpu (a.cpu.exclSet_quiet _ _ _)
  · exact .quiet_trans (setReg_quiet a d.rd v) (.of_cpu (Cpu.exclSet_quiet _ _ _ _))

theorem execStrex_effect (m : Machine δ) : Effect env f P m (execStrex env m g d).2 := by
  have result (a : Machine δ) (v : Word) :
      Effect env f P a (if d.rd = 15 then a else a.setReg d.rd v) := by
    split
    · exact .of_quiet (.refl a)
    · exact setReg_effect a _ _
  rcases hc : m.cpu.exclCheckAndClear m.cpu.secState (m.cpu.r d.rn) 4 with ⟨ok, c⟩
  have clear : m.cpu.Quiet c := by
    rw [← show m.cpu.exclClear = c from congrArg Prod.snd hc]
    exact m.cpu.exclClear_quiet
  refine .quiet_trans (Quiet.of_cpu clear) ?_
  simp only [execStrex, hc]
  cases ok with
  | true =>
    refine store_effect (k := fun a => (.ok, if d.rd = 15 then a else a.setReg d.rd 0)) fun a => ?_
    exact result a _
  | false => exact result _ _

theorem execDual_effect (m : Machine δ) : Effect env f P m (execDual env m g d).2 := by
  have writeBack (a : Machine δ) (moved : Word) :
      Effect env f P a (if d.imm.getLsbD 30 then a.setRegOrSp env g d.rn moved else (.ok, a)).2 := by
    split
    · exact setRegOrSp_effect a _ _ _
    · exact .of_quiet (.refl a)
  simp only [execDual]
  split
  · refine load_effect fun v1 a => load_effect fun v2 b => ?_
    exact .quiet_trans ((setReg_quiet b _ _).trans (setReg_quiet _ _ _)) (writeBack _ _)
  · exact store_effect fun a => store_effect fun b => writeBack b _

theorem execMultiple_effect (m : Machine δ)
    (hP : d.kind = .ldm → ∀ req ∈ loadedPc env m.world m.cpu.secState (multiple m d).regs
      (multiple m d).start, P req) :
    Effect env f P m (execMultiple env m g d).2 := by
  simp only [execMultiple]
  split
  · exact .of_quiet (.refl m)
  generalize ht : (if d.kind = .ldm then _ else _ : Transferred δ) = t
  have loop : Effect env f P m t.machine := by
    subst ht
    split
    · rename_i ldm
      exact loadRegs_effect m _ _ _ (hP ldm)
    · exact .stays (storeRegs_local m _ _ _)
  split
  · split
    · exact loop
    · have written := (setReg_quiet t.machine d.rn (multiple m d).written).local
      refine loop.trans_local (written.trans ?_)
      split
      · exact setSp_local _ _ _
      · exact .refl
  · exact loop

theorem execPush_effect (m : Machine δ) : Effect env f P m (execPush env m g d).2 := by
  have stored : m.Local (pushRegs env m g d).machine := by
    simp only [pushRegs]
    split
    · exact (storeRegs_local m _ _ _).trans (storeRegs_local _ _ _ _)
    · exact storeRegs_local m _ _ _
  simp only [execPush]
  split
  · exact .stays stored
  · exact .stays (stored.trans (setSp_local _ _ _))

theorem execPop_effect (m : Machine δ)
    (hP : ∀ req ∈ loadedPc env m.world m.cpu.secState (popList d) m.cpu.getActiveSp, P req) :
    Effect env f P m (execPop env m g d).2 := by
  have loop := loadRegs_effect (f := f) m g _ _ hP
  simp only [execPop]
  split
  · exact loop
  · exact loop.trans_local (setSp_local _ _ _)

theorem execSvc_effect (m : Machine δ) : Effect env f P m (execSvc env m g d).2 :=
  .stays (afterCall_local (Sys.enterException_raised env m.toSys _ _ _))

end Execute

open Execute Machine

variable {δ : Type u} {env : Env δ} {f : FetchResult} {d : Decoded}

theorem executeDecoded_effect (m : Machine δ) (it : d.kind ≠ .it) (msr : d.kind ≠ .msr) :
    Effect env f (· ∈ requested env f d m) m (executeDecoded env f d m).2 := by
  have stays : Effect env f (· ∈ requested env f d m) m m := .of_quiet (.refl m)
  have branch (p : Prop) [Decidable p] (target : Word) :
      Effect env f (· ∈ requested env f d m) m (if p then branchTo m target else (.ok, m)).2 := by
    split
    · exact branchTo_effect m _
    · exact stays
  obtain ⟨kind⟩ := d
  cases kind
  case it => exact absurd rfl it
  case msr => exact absurd rfl msr
  case nop | dsb | dmb | isb | yield => exact stays
  case bUncond | bUncondWide => exact branchTo_effect m _
  case bCond | bCondWide | cbz => exact branch _ _
  case cbnz =>
    simp only [executeDecoded]
    split
    · exact stays
    · exact branchTo_effect m _
  case bx => exact execBx_effect m fun lr => by simp_all [requested]
  case blx | bl => exact .quiet_trans (setReg_quiet m _ _) (branchTo_effect _ _)
  case sg => exact execSg_effect m (.head _)
  case bxns => exact .transfers (.refl m) (.bxns _) .refl
  case blxns => exact execBlxns_effect m
  case addImm | subImm | subImmNf => exact dataOrSp_effect m
  case addSpImm | subSpImm => exact spPlus_effect m _
  case movReg =>
    simp only [executeDecoded]
    split
    · rename_i pc
      exact handlePcWrite_effect m (by simp [requested, pc])
    · exact setRegOrSp_effect m _ _ _
  case ubfx | sbfx | bfi | bfc => exact bitField_effect m _ _
  case udiv | sdiv => exact execDiv_effect m _
  case tbb | tbh => exact execTableBranch_effect m fun _ h => h
  case mrs => exact execMrs_effect m
  case cps => exact .of_cpu (m.cpu.execCps_quiet _)
  case bkpt =>
    simp only [executeDecoded]
    split
    · exact stays
    · exact .of_quiet ⟨.refl _, rfl, rfl⟩
  case ldrLiteral | ldrImm | ldrReg => exact loadWord_effect m fun _ h => h
  case ldrex => exact execLdrex_effect m
  case clrex => exact .of_cpu m.cpu.exclClear_quiet
  case strex => exact execStrex_effect m
  case strImm | strReg | strbReg | strbImm | strhImm | strhReg => exact storePart_effect m _ _ _
  case ldrbReg | ldrbImm | ldrsbImm | ldrsbReg | ldrhImm | ldrhReg | ldrshImm | ldrshReg =>
    exact loadPart_effect m _ _ _
  case ldrPostImm | ldrPreImm => exact loadWriteBack_effect m fun _ h => h
  case ldrbPostImm | ldrbPreImm => exact loadByteWriteBack_effect m _ _
  case strPostImm | strPreImm | strbPostImm | strbPreImm => exact storeWriteBack_effect m _ _ _
  case ldrhPreImm | ldrhPostImm => exact loadHalfWriteBack_effect m _ _
  case strhPreImm | strhPostImm => exact storeHalfWriteBack_effect m _ _
  case ldrd | strd => exact execDual_effect m
  case stm => exact execMultiple_effect m nofun
  case ldm => exact execMultiple_effect m fun _ _ h => h
  case wfi | sev => exact .of_cpu ⟨rfl, rfl, rfl, rfl, fun _ => rfl⟩
  case wfe => exact .of_cpu m.cpu.execWfe_quiet
  case svc => exact execSvc_effect m
  case push => exact execPush_effect m
  case pop => exact execPop_effect m fun _ h => h
  case undefined | udf => exact usageFault_effect m _ _
  all_goals exact data_effect m _

end M33mu
