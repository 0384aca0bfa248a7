import M33mu.Lib.Run
import M33mu.MainLoop

/-!
The tracking of the main stacks steers nothing: a machine runs on in the same way without it.
-/

namespace M33mu

open Lib

namespace Cpu

def withoutTracking (c : Cpu) : Cpu :=
  { c with mspTop := .both 0, mspMin := .both 0, mspTopValid := .both true }

theorem initMspTop_withoutTracking (c : Cpu) (sec : SecState) (v : Word) :
    c.withoutTracking.initMspTop sec v = c.withoutTracking := by
  cases sec <;> rfl

theorem updateMspMin_withoutTracking (c : Cpu) (sec : SecState) (v : Word) :
    c.withoutTracking.updateMspMin sec v = c.withoutTracking := by
  refine if_neg ?_
  cases sec <;> simp [withoutTracking, Banked.get, Banked.both]

theorem withoutTracking_initMspTop (c : Cpu) (sec : SecState) (v : Word) :
    (c.initMspTop sec v).withoutTracking = c.withoutTracking := by
  simp only [initMspTop]
  split <;> rfl

theorem withoutTracking_updateMspMin (c : Cpu) (sec : SecState) (v : Word) :
    (c.updateMspMin sec v).withoutTracking = c.withoutTracking := by
  simp only [updateMspMin]
  split <;> rfl

theorem setActiveSp_withoutTracking (c : Cpu) (v : Word) :
    c.withoutTracking.setActiveSp v = (c.setActiveSp v).withoutTracking := by
  have psp : c.withoutTracking.usesPsp = c.usesPsp := rfl
  simp only [setActiveSp, psp]
  split
  · rfl
  · have first : { c.withoutTracking with msp := c.msp.set c.secState v } =
        { c with msp := c.msp.set c.secState v }.withoutTracking := rfl
    have left := congrArg (fun c : Cpu => c.setReg 13 v) ((congrArg (fun c' : Cpu =>
      (c'.initMspTop c.secState v).updateMspMin c.secState v) first).trans
        ((congrArg (fun c' : Cpu => c'.updateMspMin c.secState v)
          (initMspTop_withoutTracking _ c.secState v)).trans
            (updateMspMin_withoutTracking _ c.secState v)))
    refine left.trans ?_
    have right := (withoutTracking_updateMspMin
      ({ c with msp := c.msp.set c.secState v }.initMspTop c.secState v) c.secState v).trans
        (withoutTracking_initMspTop _ c.secState v)
    exact congrArg (fun c : Cpu => c.setReg 13 v) right.symm

theorem setMsp_withoutTracking (c : Cpu) (sec : SecState) (v : Word) :
    c.withoutTracking.setMsp sec v = (c.setMsp sec v).withoutTracking := by
  obtain ⟨d, set⟩ : ∃ d, { c with msp := c.msp.set sec v } = d := ⟨_, rfl⟩
  have set' : { c.withoutTracking with msp := c.withoutTracking.msp.set sec v } = d.withoutTracking :=
    set ▸ rfl
  cases sec with
  | secure =>
    simp only [setMsp, set, set']
    rw [initMspTop_withoutTracking, updateMspMin_withoutTracking, withoutTracking_updateMspMin,
      withoutTracking_initMspTop]
  | nonsecure =>
    simp only [setMsp, set, set']
    rw [updateMspMin_withoutTracking, withoutTracking_updateMspMin]

theorem tzNoteNsMspTop_withoutTracking (c : Cpu) :
    c.withoutTracking.tzNoteNsMspTop = c.tzNoteNsMspTop.withoutTracking := by
  have sec : c.withoutTracking.secState = c.secState := rfl
  simp only [tzNoteNsMspTop, sec, noteMspTop]
  cases c.secState with
  | secure => rfl
  | nonsecure =>
    simp only
    rw [withoutTracking_initMspTop, initMspTop_withoutTracking]

theorem tzSyncR13FromActiveSp_withoutTracking (c : Cpu) :
    c.withoutTracking.tzSyncR13FromActiveSp = c.tzSyncR13FromActiveSp.withoutTracking :=
  setActiveSp_withoutTracking c c.getActiveSp

theorem tzExecSg_withoutTracking (c : Cpu) :
    c.withoutTracking.tzExecSg = c.tzExecSg.withoutTracking := by
  have sec : c.withoutTracking.secState = c.secState := rfl
  simp only [tzExecSg, sec]
  cases c.secState with
  | secure => rfl
  | nonsecure => exact tzSyncR13FromActiveSp_withoutTracking { c with secState := .secure }

theorem tzEnterNs_withoutTracking (c : Cpu) (target : Word) :
    (c.withoutTracking.tzNoteNsMspTop.tzSyncR13FromActiveSp).setReg 15 (target ||| 1) =
      ((c.tzNoteNsMspTop.tzSyncR13FromActiveSp).setReg 15 (target ||| 1)).withoutTracking := by
  rw [tzNoteNsMspTop_withoutTracking, tzSyncR13FromActiveSp_withoutTracking]
  rfl

theorem tzExecBxns_withoutTracking (c : Cpu) (target : Word) :
    c.withoutTracking.tzExecBxns target = (c.tzExecBxns target).withoutTracking :=
  tzEnterNs_withoutTracking { c with secState := .nonsecure } target

theorem tzExecBlxns_withoutTracking (c : Cpu) (target returnAddr : Word) :
    c.withoutTracking.tzExecBlxns target returnAddr =
      (c.tzExecBlxns target returnAddr).withoutTracking := by
  obtain ⟨c', linked⟩ : ∃ c', { c with tz := c.tz.push ⟨returnAddr ||| 1, c.secState, c.mode⟩ }.setReg
    14 tzRetLrSentinel = c' := ⟨_, rfl⟩
  have same := tzEnterNs_withoutTracking { c' with secState := .nonsecure } target
  rw [← linked] at same
  exact same

theorem execMsr_withoutTracking (c : Cpu) (d : Decoded) :
    c.withoutTracking.execMsr d = (c.execMsr d).withoutTracking := by
  have r : c.withoutTracking.r = c.r := rfl
  have xpsr : c.withoutTracking.xpsr = c.xpsr := rfl
  simp only [execMsr, r, xpsr]
  split
  · simp only [writeSpecial]
    split
    case h_1 => exact setMsp_withoutTracking c c.secState _
    case h_5 => exact setMsp_withoutTracking c .nonsecure _
    all_goals rfl
  split <;> rfl

theorem execCps_withoutTracking (c : Cpu) (d : Decoded) :
    c.withoutTracking.execCps d = (c.execCps d).withoutTracking := by
  simp only [execCps]
  split <;> rfl

theorem execWfe_withoutTracking (c : Cpu) : c.withoutTracking.execWfe = c.execWfe.withoutTracking := by
  have event : c.withoutTracking.eventReg = c.eventReg := rfl
  simp only [execWfe, event]
  split <;> rfl

end Cpu

namespace Sys

variable {δ : Type u} (env : Env δ)

def withoutTracking (s : Sys δ) : Sys δ := { s with cpu := s.cpu.withoutTracking }

theorem excReturnUnstack_withoutTracking (s : Sys δ) (excRet : Word) :
    s.withoutTracking.excReturnUnstack env excRet =
      (s.excReturnUnstack env excRet).map id withoutTracking := by
  simp only [excReturnUnstack]
  split
  · rfl
  · rename_i info _
    have frame : s.withoutTracking.world.readFrame env info.targetSec
        (s.withoutTracking.cpu.unstackSp info) =
        s.world.readFrame env info.targetSec (s.cpu.unstackSp info) := rfl
    rw [frame]
    generalize s.world.readFrame env info.targetSec (s.cpu.unstackSp info) = o
    obtain ⟨f, w⟩ := o
    cases f <;> rfl

theorem enter_withoutTracking (s : Sys δ) (num returnPc xpsrIn xpsr handler : Word)
    (handlerSec : SecState) :
    s.withoutTracking.enter env num returnPc xpsrIn xpsr handler handlerSec =
      (s.enter env num returnPc xpsrIn xpsr handler handlerSec).map id withoutTracking := by
  have frame : s.withoutTracking.world.pushFrame env s.withoutTracking.cpu.secState
      (s.withoutTracking.cpu.bankSp s.withoutTracking.cpu.secState s.withoutTracking.cpu.usePspEntry)
      (s.withoutTracking.cpu.frame returnPc xpsrIn) =
      s.world.pushFrame env s.cpu.secState (s.cpu.bankSp s.cpu.secState s.cpu.usePspEntry)
        (s.cpu.frame returnPc xpsrIn) := rfl
  simp only [enter, frame]
  generalize s.world.pushFrame env _ _ _ = o
  obtain ⟨sp, w⟩ := o
  cases sp <;> rfl

theorem raiseHardFault_withoutTracking (s : Sys δ) (faultPc faultXpsr : Word) :
    s.withoutTracking.raiseHardFault env faultPc faultXpsr =
      (s.raiseHardFault env faultPc faultXpsr).map id withoutTracking := by
  have sec : s.withoutTracking.cpu.secState = s.cpu.secState := rfl
  have world : s.withoutTracking.world = s.world := rfl
  simp only [raiseHardFault, sec, world]
  exact enter_withoutTracking env { s with world := _ } _ _ _ _ _ _

theorem raiseUsageFault_withoutTracking (s : Sys δ) (faultPc faultXpsr ufsrBits : Word) :
    s.withoutTracking.raiseUsageFault env faultPc faultXpsr ufsrBits =
      (s.raiseUsageFault env faultPc faultXpsr ufsrBits).map id withoutTracking := by
  simp only [raiseUsageFault]
  split
  · rfl
  · exact enter_withoutTracking env { s with world := _ } _ _ _ _ _ _

theorem enterExceptionEx_withoutTracking (s : Sys δ) (excNum returnPc xpsrIn : Word)
    (handlerSec : SecState) :
    s.withoutTracking.enterExceptionEx env excNum returnPc xpsrIn handlerSec =
      (s.enterExceptionEx env excNum returnPc xpsrIn handlerSec).map id withoutTracking := by
  have world : s.withoutTracking.world = s.world := rfl
  simp only [enterExceptionEx, world]
  generalize (ite (16 ≤ excNum) _ _ : Word × World δ) = v
  have entered := enter_withoutTracking env
    { s with world := v.2.noteEntry s.cpu.secState excNum } excNum returnPc xpsrIn
    ((xpsrIn &&& 0xF8000000) ||| 0x01000000 ||| (excNum &&& 0x1FF)) v.1 handlerSec
  have same : { s.withoutTracking with
      world := v.2.noteEntry s.withoutTracking.cpu.secState excNum } =
        withoutTracking { s with world := v.2.noteEntry s.cpu.secState excNum } := rfl
  simp only [same, entered]
  generalize enter env { s with world := v.2.noteEntry s.cpu.secState excNum } _ _ _ _ _ _ = r
  obtain ⟨ok, s'⟩ := r
  cases ok <;> rfl

theorem raiseMemFault_withoutTracking (s : Sys δ) (faultPc faultXpsr addr : Word) (isExec : Bool) :
    s.withoutTracking.raiseMemFault env faultPc faultXpsr addr isExec =
      (s.raiseMemFault env faultPc faultXpsr addr isExec).map id withoutTracking := by
  have sec : s.withoutTracking.cpu.secState = s.cpu.secState := rfl
  have world : s.withoutTracking.world = s.world := rfl
  have raised (w : World δ) (excNum : Word) (target : SecState) :
      Sys.enterExceptionEx env { s.withoutTracking with world := w } excNum faultPc faultXpsr target =
        (Sys.enterExceptionEx env { s with world := w } excNum faultPc faultXpsr target).map id
          withoutTracking :=
    enterExceptionEx_withoutTracking env { s with world := w } excNum faultPc faultXpsr target
  have escalated (w : World δ) :
      Sys.raiseHardFault env { s.withoutTracking with world := w } faultPc faultXpsr =
        (Sys.raiseHardFault env { s with world := w } faultPc faultXpsr).map id withoutTracking :=
    raiseHardFault_withoutTracking env { s with world := w } faultPc faultXpsr
  simp only [raiseMemFault, enterException, sec, world]
  split
  · exact raised _ _ _
  split
  · exact raised _ _ _
  · exact escalated _

end Sys

namespace Machine

variable {δ : Type u} (env : Env δ) (f : FetchResult)

def withoutTracking (m : Machine δ) : Machine δ := { m with toSys := m.toSys.withoutTracking }

end Machine

def Outcome.withoutTracking {δ : Type u} (o : Outcome δ) : Outcome δ := (o.1, o.2.withoutTracking)

namespace Machine

variable {δ : Type u} (env : Env δ) (f : FetchResult)

def Transferred.withoutTracking (t : Transferred δ) : Transferred δ :=
  { t with
    machine := t.machine.withoutTracking
    refused := t.refused.map fun (addr, m) => (addr, m.withoutTracking) }

theorem afterCall_withoutTracking {m : Machine δ} {r r' : Bool × Sys δ}
    (same : r' = r.map id Sys.withoutTracking) :
    m.withoutTracking.afterCall r' = (m.afterCall r).withoutTracking := by
  subst same
  rfl

theorem excReturn_withoutTracking (m : Machine δ) (excRet : Word) :
    m.withoutTracking.excReturn env excRet = (m.excReturn env excRet).withoutTracking := by
  have same : m.withoutTracking.toSys.excReturnUnstack env excRet =
      (m.toSys.excReturnUnstack env excRet).map id Sys.withoutTracking :=
    Sys.excReturnUnstack_withoutTracking env m.toSys excRet
  simp only [excReturn, same]
  generalize m.toSys.excReturnUnstack env excRet = r
  obtain ⟨ok, s⟩ := r
  cases ok <;> rfl

theorem handlePcWrite_withoutTracking (m : Machine δ) (value : Word) :
    m.withoutTracking.handlePcWrite env value = (m.handlePcWrite env value).withoutTracking := by
  simp only [handlePcWrite]
  split
  · exact excReturn_withoutTracking env m value
  · rfl

theorem memFault_withoutTracking (m : Machine δ) (addr : Word) (isExec : Bool) :
    m.withoutTracking.memFault env f addr isExec = (m.memFault env f addr isExec).withoutTracking :=
  afterCall_withoutTracking
    (Sys.raiseMemFault_withoutTracking env m.toSys f.pcFetch m.cpu.xpsr addr isExec)

theorem usageFault_withoutTracking (m : Machine δ) (ufsrBits : Word) :
    m.withoutTracking.usageFault env f ufsrBits = (m.usageFault env f ufsrBits).withoutTracking :=
  afterCall_withoutTracking
    (Sys.raiseUsageFault_withoutTracking env m.toSys f.pcFetch m.cpu.xpsr ufsrBits)

theorem setActiveSp_withoutTracking (m : Machine δ) (value : Word) :
    { m.withoutTracking with cpu := m.withoutTracking.cpu.setActiveSp value } =
      withoutTracking { m with cpu := m.cpu.setActiveSp value } :=
  congrArg (fun c => { m with cpu := c }) (m.cpu.setActiveSp_withoutTracking value)

theorem setSp_withoutTracking (m : Machine δ) (value : Word) :
    m.withoutTracking.setSp env f value = (m.setSp env f value).withoutTracking := by
  have limited : spLimited m.withoutTracking.cpu value = spLimited m.cpu value := rfl
  simp only [setSp, limited]
  split
  · rw [usageFault_withoutTracking]
    rfl
  · rw [setActiveSp_withoutTracking]
    rfl

theorem setRegOrSp_withoutTracking (m : Machine δ) (i : Reg) (value : Word) :
    m.withoutTracking.setRegOrSp env f i value = (m.setRegOrSp env f i value).withoutTracking := by
  simp only [setRegOrSp]
  split
  · exact setSp_withoutTracking env f m value
  · rfl

variable {env f}

theorem load_withoutTracking {m : Machine δ} {addr size : Word} {isExec : Bool}
    {k k' : Word → Machine δ → Outcome δ}
    (same : ∀ v a, k' v a.withoutTracking = (k v a).withoutTracking) :
    m.withoutTracking.load env f addr size isExec k' =
      (m.load env f addr size isExec k).withoutTracking := by
  have sec : m.withoutTracking.cpu.secState = m.cpu.secState := rfl
  have world : m.withoutTracking.world = m.world := rfl
  simp only [load, sec, world]
  generalize m.world.read env m.cpu.secState addr size = o
  obtain ⟨v, w⟩ := o
  cases v with
  | none =>
    exact congrArg (Prod.mk ExecStatus.cont)
      (memFault_withoutTracking env f (m.withWorld w) addr isExec)
  | some v => exact same v (m.withWorld w)

theorem store_withoutTracking {m : Machine δ} {addr size value : Word}
    {k k' : Machine δ → Outcome δ} (same : ∀ a, k' a.withoutTracking = (k a).withoutTracking) :
    m.withoutTracking.store env f addr size value k' =
      (m.store env f addr size value k).withoutTracking := by
  have sec : m.withoutTracking.cpu.secState = m.cpu.secState := rfl
  have world : m.withoutTracking.world = m.world := rfl
  simp only [store, sec, world]
  generalize m.world.write env m.cpu.secState addr size value = o
  obtain ⟨ok, w⟩ := o
  cases ok with
  | false =>
    exact congrArg (Prod.mk ExecStatus.cont) (memFault_withoutTracking env f (m.withWorld w) addr false)
  | true => exact same (m.withWorld w)

variable (env f) in
theorem loadRegs_withoutTracking (m : Machine δ) (regs : List Reg) (addr : Word) :
    m.withoutTracking.loadRegs env f regs addr = (m.loadRegs env f regs addr).withoutTracking := by
  induction regs generalizing m addr with
  | nil => rfl
  | cons reg regs ih =>
    have sec : (m.withoutTracking.offer addr).cpu.secState = m.cpu.secState := rfl
    have world : (m.withoutTracking.offer addr).world = m.world := rfl
    have sec' : (m.offer addr).cpu.secState = m.cpu.secState := rfl
    have world' : (m.offer addr).world = m.world := rfl
    simp only [loadRegs, sec, world, sec', world']
    generalize m.world.read env m.cpu.secState addr 4 = o
    obtain ⟨v, w⟩ := o
    have offered : (m.withoutTracking.offer addr).withWorld w =
        ((m.offer addr).withWorld w).withoutTracking := rfl
    cases v with
    | none =>
      simp only [offered]
      rw [memFault_withoutTracking]
      rfl
    | some v =>
      simp only [offered]
      split
      · rw [handlePcWrite_withoutTracking]
        split
        · rfl
        · exact ih _ _
      · exact ih (((m.offer addr).withWorld w).setReg reg v) _

variable (env f) in
theorem storeRegs_withoutTracking (m : Machine δ) (regs : List Reg) (addr : Word) :
    m.withoutTracking.storeRegs env f regs addr = (m.storeRegs env f regs addr).withoutTracking := by
  induction regs generalizing m addr with
  | nil => rfl
  | cons reg regs ih =>
    have cpu : (m.withoutTracking.offer addr).cpu = m.cpu.withoutTracking := rfl
    have world : (m.withoutTracking.offer addr).world = m.world := rfl
    have cpu' : (m.offer addr).cpu = m.cpu := rfl
    have world' : (m.offer addr).world = m.world := rfl
    have sec : m.cpu.withoutTracking.secState = m.cpu.secState := rfl
    have r : m.cpu.withoutTracking.r = m.cpu.r := rfl
    simp only [storeRegs, cpu, world, cpu', world', sec, r]
    generalize m.world.write env m.cpu.secState addr 4 _ = o
    obtain ⟨ok, w⟩ := o
    have offered : (m.withoutTracking.offer addr).withWorld w =
        ((m.offer addr).withWorld w).withoutTracking := rfl
    cases ok with
    | false =>
      simp only [offered]
      rw [memFault_withoutTracking]
      rfl
    | true => exact ih ((m.offer addr).withWorld w) _

end Machine

namespace Execute

open Machine

variable {δ : Type u} (env : Env δ) (m : Machine δ) (f : FetchResult) (d : Decoded)

theorem data_withoutTracking (res : DataResult) :
    data m.withoutTracking res = (data m res).withoutTracking := rfl

theorem dataOrSp_withoutTracking :
    dataOrSp env m.withoutTracking f d = (dataOrSp env m f d).withoutTracking := by
  have same : (data m.withoutTracking (dataOf m.withoutTracking f d)).2 =
      ((data m (dataOf m f d)).2).withoutTracking := rfl
  simp only [dataOrSp, same]
  split
  · exact setSp_withoutTracking env f _ _
  · rfl

theorem spPlus_withoutTracking (imm : Word) :
    spPlus env m.withoutTracking f d imm = (spPlus env m f d imm).withoutTracking := by
  simp only [spPlus]
  split
  · exact setSp_withoutTracking env f m _
  · rfl

theorem execBx_withoutTracking :
    execBx env m.withoutTracking f d = (execBx env m f d).withoutTracking := by
  have r : m.withoutTracking.cpu.r = m.cpu.r := rfl
  have sec : m.withoutTracking.cpu.secState = m.cpu.secState := rfl
  have tz : m.withoutTracking.cpu.tz = m.cpu.tz := rfl
  simp only [execBx, r, sec, tz]
  split
  · rw [excReturn_withoutTracking]
    rfl
  split
  · rfl
  split
  · split
    · exact setSp_withoutTracking env f (record { m with cpu := m.cpu.tzReturn _ } _) _
    · rfl
  · rfl

theorem execSg_withoutTracking :
    execSg m.withoutTracking f = (execSg m f).withoutTracking := by
  have sec : m.withoutTracking.cpu.secState = m.cpu.secState := rfl
  simp only [execSg, sec]
  split
  · exact congrArg (fun c => (ExecStatus.ok, record { m with cpu := c } (.sg f.pcFetch)))
      m.cpu.tzExecSg_withoutTracking
  · rfl

theorem execBlxns_withoutTracking :
    execBlxns m.withoutTracking f d = (execBlxns m f d).withoutTracking :=
  congrArg (fun c => (ExecStatus.ok, record { m with cpu := c } (.call m.cpu.secState)))
    (m.cpu.tzExecBlxns_withoutTracking _ _)

theorem bitField_withoutTracking (bad : Bool) (res : Word) :
    bitField env m.withoutTracking f d bad res = (bitField env m f d bad res).withoutTracking := by
  simp only [bitField]
  split
  · rw [usageFault_withoutTracking]
    rfl
  · rfl

theorem execDiv_withoutTracking (div : Word → Word → Word) :
    execDiv env m.withoutTracking f d div = (execDiv env m f d div).withoutTracking := by
  have r : m.withoutTracking.cpu.r = m.cpu.r := rfl
  have world : m.withoutTracking.world = m.world := rfl
  simp only [execDiv, r, world]
  split
  · split
    · rw [usageFault_withoutTracking]
      rfl
    · rfl
  · rfl

theorem execTableBranch_withoutTracking :
    execTableBranch env m.withoutTracking f d = (execTableBranch env m f d).withoutTracking := by
  have entry : tableEntry env m.withoutTracking.world m.withoutTracking.cpu.secState
      (tableBase m.withoutTracking f d) (m.withoutTracking.cpu.r d.rm) (d.kind = .tbh) =
      tableEntry env m.world m.cpu.secState (tableBase m f d) (m.cpu.r d.rm) (d.kind = .tbh) := rfl
  simp only [execTableBranch, entry]
  generalize tableEntry env m.world m.cpu.secState _ _ _ = o
  obtain ⟨addr, entry, w⟩ := o
  cases entry with
  | none =>
    exact congrArg (Prod.mk ExecStatus.cont) (memFault_withoutTracking env f (m.withWorld w) addr false)
  | some entry =>
    exact congrArg (Prod.mk ExecStatus.cont)
      (handlePcWrite_withoutTracking env (m.withWorld w) (tableTarget f entry))

theorem execMrs_withoutTracking : execMrs m.withoutTracking d = (execMrs m d).withoutTracking := by
  simp only [execMrs]
  split <;> rfl

theorem loadWord_withoutTracking (addr : Word) (isExec : Bool) :
    loadWord env m.withoutTracking f d addr isExec =
      (loadWord env m f d addr isExec).withoutTracking := by
  refine load_withoutTracking fun v a => ?_
  split
  · rw [handlePcWrite_withoutTracking]
    rfl
  · rfl

theorem loadPart_withoutTracking (addr size : Word) (ext : Word → Word) :
    loadPart env m.withoutTracking f d addr size ext =
      (loadPart env m f d addr size ext).withoutTracking :=
  load_withoutTracking fun _ _ => rfl

theorem storePart_withoutTracking (addr size value : Word) :
    storePart env m.withoutTracking f addr size value =
      (storePart env m f addr size value).withoutTracking :=
  store_withoutTracking fun _ => rfl

theorem loadWriteBack_withoutTracking (addr newRn : Word) :
    loadWriteBack env m.withoutTracking f d addr newRn =
      (loadWriteBack env m f d addr newRn).withoutTracking := by
  refine load_withoutTracking fun v a => ?_
  dsimp only
  split
  · rw [handlePcWrite_withoutTracking, setRegOrSp_withoutTracking]
  · exact setRegOrSp_withoutTracking env f (a.setReg d.rd v) d.rn newRn

theorem loadByteWriteBack_withoutTracking (addr newRn : Word) :
    loadByteWriteBack env m.withoutTracking f d addr newRn =
      (loadByteWriteBack env m f d addr newRn).withoutTracking :=
  load_withoutTracking fun v a =>
    setRegOrSp_withoutTracking env f (a.setReg d.rd (v &&& 0xff)) d.rn newRn

theorem storeWriteBack_withoutTracking (addr size newRn : Word) :
    storeWriteBack env m.withoutTracking f d addr size newRn =
      (storeWriteBack env m f d addr size newRn).withoutTracking :=
  store_withoutTracking fun a => setRegOrSp_withoutTracking env f a d.rn newRn

theorem loadHalfWriteBack_withoutTracking (addr newRn : Word) :
    loadHalfWriteBack env m.withoutTracking f d addr newRn =
      (loadHalfWriteBack env m f d addr newRn).withoutTracking :=
  load_withoutTracking fun _ _ => rfl

theorem storeHalfWriteBack_withoutTracking (addr newRn : Word) :
    storeHalfWriteBack env m.withoutTracking f d addr newRn =
      (storeHalfWriteBack env m f d addr newRn).withoutTracking :=
  store_withoutTracking fun _ => rfl

theorem execLdrex_withoutTracking :
    execLdrex env m.withoutTracking f d = (execLdrex env m f d).withoutTracking := by
  have r : m.withoutTracking.cpu.r = m.cpu.r := rfl
  simp only [execLdrex, r]
  refine load_withoutTracking fun v a => ?_
  split <;> rfl

theorem execStrex_withoutTracking :
    execStrex env m.withoutTracking f d = (execStrex env m f d).withoutTracking := by
  obtain ⟨ok, c, check⟩ : ∃ ok c,
      m.cpu.exclCheckAndClear m.cpu.secState (m.cpu.r d.rn) 4 = (ok, c) := ⟨_, _, rfl⟩
  have check' : m.withoutTracking.cpu.exclCheckAndClear m.withoutTracking.cpu.secState
      (m.withoutTracking.cpu.r d.rn) 4 = (ok, c.withoutTracking) :=
    congrArg (fun o : Bool × Cpu => (o.1, o.2.withoutTracking)) check
  simp only [execStrex, check, check']
  split
  · refine store_withoutTracking (m := { m with cpu := c }) fun a => ?_
    split <;> rfl
  · split <;> rfl

theorem execDual_withoutTracking :
    execDual env m.withoutTracking f d = (execDual env m f d).withoutTracking := by
  have r : m.withoutTracking.cpu.r = m.cpu.r := rfl
  have writeBack (a : Machine δ) (moved : Word) :
      (if d.imm.getLsbD 30 then a.withoutTracking.setRegOrSp env f d.rn moved
        else (.ok, a.withoutTracking)) =
      Outcome.withoutTracking
        (if d.imm.getLsbD 30 then a.setRegOrSp env f d.rn moved else (.ok, a)) := by
    split
    · exact setRegOrSp_withoutTracking env f a d.rn moved
    · rfl
  simp only [execDual, r]
  split
  · exact load_withoutTracking fun v₁ a => load_withoutTracking fun v₂ b =>
      writeBack ((b.setReg d.rd v₁).setReg d.rm v₂) _
  · exact store_withoutTracking fun a => store_withoutTracking fun b => writeBack b _

theorem execMultiple_withoutTracking :
    execMultiple env m.withoutTracking f d = (execMultiple env m f d).withoutTracking := by
  have same : multiple m.withoutTracking d = multiple m d := rfl
  simp only [execMultiple, same, loadRegs_withoutTracking, storeRegs_withoutTracking, ← apply_ite]
  generalize (if d.kind = .ldm then m.loadRegs env f (multiple m d).regs (multiple m d).start
    else m.storeRegs env f (multiple m d).regs (multiple m d).start) = t
  have machine : t.withoutTracking.machine = t.machine.withoutTracking := rfl
  have taken : t.withoutTracking.excReturnTaken = t.excReturnTaken := rfl
  have done : t.machine.withoutTracking.done = t.machine.done := rfl
  simp only [machine, taken, done]
  split
  · rfl
  split
  · split
    · rfl
    split
    · exact setSp_withoutTracking env f (t.machine.setReg d.rn (multiple m d).written) _
    · rfl
  · rfl

theorem pushRegs_withoutTracking :
    pushRegs env m.withoutTracking f d = (pushRegs env m f d).withoutTracking := by
  have sp : pushSp m.withoutTracking d = pushSp m d := rfl
  simp only [pushRegs, sp, storeRegs_withoutTracking]
  generalize m.storeRegs env f (lowRegList d.imm) (pushSp m d) = t
  have machine : t.withoutTracking.machine = t.machine.withoutTracking := rfl
  have addr : t.withoutTracking.addr = t.addr := rfl
  have done : t.machine.withoutTracking.done = t.machine.done := rfl
  simp only [machine, addr, done, storeRegs_withoutTracking]
  split
  · simp only [Transferred.withoutTracking, Transferred.mk.injEq, true_and]
    cases t.refused <;> rfl
  · rfl

theorem execPush_withoutTracking :
    execPush env m.withoutTracking f d = (execPush env m f d).withoutTracking := by
  have sp : pushSp m.withoutTracking d = pushSp m d := rfl
  simp only [execPush, sp, pushRegs_withoutTracking]
  generalize pushRegs env m f d = t
  have machine : t.withoutTracking.machine = t.machine.withoutTracking := rfl
  have done : t.machine.withoutTracking.done = t.machine.done := rfl
  simp only [machine, done]
  split
  · rfl
  · exact setSp_withoutTracking env f t.machine _

theorem execPop_withoutTracking :
    execPop env m.withoutTracking f d = (execPop env m f d).withoutTracking := by
  have sp : m.withoutTracking.cpu.getActiveSp = m.cpu.getActiveSp := rfl
  simp only [execPop, sp, loadRegs_withoutTracking]
  generalize m.loadRegs env f (popList d) m.cpu.getActiveSp = t
  have machine : t.withoutTracking.machine = t.machine.withoutTracking := rfl
  have taken : t.withoutTracking.excReturnTaken = t.excReturnTaken := rfl
  have addr : t.withoutTracking.addr = t.addr := rfl
  simp only [machine, taken, addr]
  split
  · rfl
  · exact setSp_withoutTracking env f t.machine _

theorem execSvc_withoutTracking :
    execSvc env m.withoutTracking f d = (execSvc env m f d).withoutTracking :=
  congrArg (Prod.mk ExecStatus.ok) (afterCall_withoutTracking
    (Sys.enterExceptionEx_withoutTracking env m.toSys Vect.svcall
      (f.pcFetch + d.len.setWidth 32) m.cpu.xpsr m.cpu.secState))

theorem branchTo_withoutTracking (target : Word) :
    branchTo m.withoutTracking target = (branchTo m target).withoutTracking := rfl

theorem executeDecoded_withoutTracking :
    executeDecoded env f d m.withoutTracking = (executeDecoded env f d m).withoutTracking := by
  have r : m.withoutTracking.cpu.r = m.cpu.r := rfl
  have xpsr : m.withoutTracking.cpu.xpsr = m.cpu.xpsr := rfl
  have self : (ExecStatus.ok, m.withoutTracking) = Outcome.withoutTracking (.ok, m) := rfl
  have core {c c' : Cpu} (same : c' = c.withoutTracking) :
      (ExecStatus.ok, { m.withoutTracking with cpu := c' }) =
        Outcome.withoutTracking (.ok, { m with cpu := c }) := by
    subst same
    rfl
  rcases hd : d with ⟨kind⟩
  have hk : d.kind = kind := by rw [hd]
  rw [← hd]
  cases kind
  all_goals simp only [executeDecoded, hk, r, xpsr]
  case nop | dsb | dmb | isb | yield => exact self
  case it => rfl
  case bUncond | bUncondWide => exact branchTo_withoutTracking m _
  case bCond | bCondWide | cbz | cbnz => split <;> rfl
  case bx => exact execBx_withoutTracking env m f d
  case blx | bl => rfl
  case sg => exact execSg_withoutTracking m f
  case bxns => exact core (m.cpu.tzExecBxns_withoutTracking _)
  case blxns => exact execBlxns_withoutTracking m f d
  case addImm | subImm | subImmNf => exact dataOrSp_withoutTracking env m f d
  case addSpImm | subSpImm => exact spPlus_withoutTracking env m f d _
  case movReg =>
    split
    · exact congrArg (Prod.mk ExecStatus.ok) (handlePcWrite_withoutTracking env m _)
    · exact setRegOrSp_withoutTracking env f m _ _
  case ubfx | sbfx | bfi | bfc => exact bitField_withoutTracking env m f d _ _
  case udiv | sdiv => exact execDiv_withoutTracking env m f d _
  case tbb | tbh => exact execTableBranch_withoutTracking env m f d
  case mrs => exact execMrs_withoutTracking m d
  case msr => exact core (m.cpu.execMsr_withoutTracking d)
  case cps => exact core (m.cpu.execCps_withoutTracking d)
  case bkpt => split <;> rfl
  case ldrLiteral | ldrImm | ldrReg => exact loadWord_withoutTracking env m f d _ _
  case ldrex => exact execLdrex_withoutTracking env m f d
  case clrex => exact core rfl
  case strex => exact execStrex_withoutTracking env m f d
  case strImm | strReg | strbReg | strbImm | strhImm | strhReg =>
    exact storePart_withoutTracking env m f _ _ _
  case ldrbReg | ldrbImm | ldrsbImm | ldrsbReg | ldrhImm | ldrhReg | ldrshImm | ldrshReg =>
    exact loadPart_withoutTracking env m f d _ _ _
  case ldrPostImm | ldrPreImm => exact loadWriteBack_withoutTracking env m f d _ _
  case ldrbPostImm | ldrbPreImm => exact loadByteWriteBack_withoutTracking env m f d _ _
  case strPostImm | strPreImm | strbPostImm | strbPreImm =>
    exact storeWriteBack_withoutTracking env m f d _ _ _
  case ldrhPreImm | ldrhPostImm => exact loadHalfWriteBack_withoutTracking env m f d _ _
  case strhPreImm | strhPostImm => exact storeHalfWriteBack_withoutTracking env m f d _ _
  case ldrd | strd => exact execDual_withoutTracking env m f d
  case stm | ldm => exact execMultiple_withoutTracking env m f d
  case wfi | sev => exact core rfl
  case wfe => exact core m.cpu.execWfe_withoutTracking
  case svc => exact execSvc_withoutTracking env m f d
  case push => exact execPush_withoutTracking env m f d
  case pop => exact execPop_withoutTracking env m f d
  case undefined | udf =>
    exact congrArg (Prod.mk ExecStatus.cont) (usageFault_withoutTracking env f m _)
  all_goals exact data_withoutTracking m _

end Execute

namespace Machine

variable {δ : Type u} (env : Env δ) (decode32 : Word → Decoded) (h : Host δ) (m : Machine δ)

theorem fetch_withoutTracking :
    m.withoutTracking.fetch env = ((m.fetch env).1, (m.fetch env).2.withoutTracking) := by
  have r : m.withoutTracking.cpu.r = m.cpu.r := rfl
  have sec : m.withoutTracking.cpu.secState = m.cpu.secState := rfl
  have world : m.withoutTracking.world = m.world := rfl
  simp only [fetch, r, sec, world]
  generalize m.world.fetchRead16 env m.cpu.secState _ = o
  obtain ⟨hw1, w⟩ := o
  cases hw1 with
  | none => rfl
  | some hw1 =>
    have sec : (m.withoutTracking.withWorld w).cpu.secState = m.cpu.secState := rfl
    have sec' : (m.withWorld w).cpu.secState = m.cpu.secState := rfl
    have world : (m.withoutTracking.withWorld w).world = w := rfl
    have world' : (m.withWorld w).world = w := rfl
    simp only [sec, sec', world, world']
    split
    · generalize w.fetchRead16 env m.cpu.secState _ = o
      obtain ⟨hw2, w⟩ := o
      cases hw2 <;> rfl
    · rfl

theorem endPass_withoutTracking : m.withoutTracking.endPass h = (m.endPass h).withoutTracking := by
  have world : (m.withoutTracking.withWorld (h.poll m.withoutTracking.world)).world =
      (m.withWorld (h.poll m.world)).world := rfl
  simp only [endPass, world]
  split <;> rfl

theorem ready_withoutTracking :
    m.withoutTracking.ready env h = ((m.ready env h).1, (m.ready env h).2.withoutTracking) := by
  let counted := m.withWorld { m.world with scs := m.world.scs.systickAdvance 1 }
  let ticked := counted.withWorld (h.tick counted.world)
  exact fetch_withoutTracking env (ticked.setReg 13 ticked.cpu.getActiveSp)

theorem afterExecute_withoutTracking (d : Decoded) (o : Outcome δ) :
    afterExecute h d o.withoutTracking = (afterExecute h d o).withoutTracking := by
  obtain ⟨status, m⟩ := o
  cases status with
  | cont => rfl
  | ok =>
    refine .trans ?_ (endPass_withoutTracking h _)
    have block : m.withoutTracking.inBlock d = m.inBlock d := rfl
    simp only [Outcome.withoutTracking, afterExecute, block]
    split <;> rfl

theorem executePass_withoutTracking :
    m.withoutTracking.executePass env decode32 h =
      (m.executePass env decode32 h).withoutTracking := by
  simp only [executePass, ready_withoutTracking]
  generalize m.ready env h = o
  obtain ⟨f, a⟩ := o
  have block (d : Decoded) : a.withoutTracking.inBlock d = a.inBlock d := rfl
  have it : a.withoutTracking.it = a.it := rfl
  have xpsr : a.withoutTracking.cpu.xpsr = a.cpu.xpsr := rfl
  simp only [block, it, xpsr]
  split
  · exact afterCall_withoutTracking
      (Sys.raiseMemFault_withoutTracking env a.toSys _ a.cpu.xpsr _ true)
  split
  · exact usageFault_withoutTracking env f a _
  split
  · rfl
  · rw [Execute.executeDecoded_withoutTracking, afterExecute_withoutTracking]

theorem dispatch_withoutTracking (excNum : Word) (handlerSec : SecState) :
    m.withoutTracking.dispatch env excNum handlerSec =
      (m.dispatch env excNum handlerSec).withoutTracking := by
  have same : m.withoutTracking.toSys.enterExceptionEx env excNum
      (m.withoutTracking.cpu.r 15 &&& ~~~1#32) m.withoutTracking.cpu.xpsr handlerSec =
      (m.toSys.enterExceptionEx env excNum (m.cpu.r 15 &&& ~~~1#32) m.cpu.xpsr handlerSec).map id
        Sys.withoutTracking :=
    Sys.enterExceptionEx_withoutTracking env m.toSys _ _ _ _
  simp only [dispatch, same]
  generalize m.toSys.enterExceptionEx env _ _ _ _ = r
  obtain ⟨ok, s⟩ := r
  cases ok <;> rfl

theorem pending_withoutTracking :
    m.withoutTracking.pending =
      m.pending.map fun (excNum, sec, m) => (excNum, sec, m.withoutTracking) := by
  have world : m.withoutTracking.world = m.world := rfl
  have selected : m.world.nvic.selectRouted m.withoutTracking.cpu =
      m.world.nvic.selectRouted m.cpu := rfl
  simp only [pending, world, selected]
  split
  · rfl
  split
  · rfl
  · cases m.world.nvic.selectRouted m.cpu <;> rfl

theorem handlePending_withoutTracking :
    m.withoutTracking.handlePending env decode32 h =
      (m.handlePending env decode32 h).withoutTracking := by
  simp only [handlePending, pending_withoutTracking]
  cases m.pending with
  | none => exact executePass_withoutTracking env decode32 h m
  | some p => exact dispatch_withoutTracking env p.2.2 p.1 p.2.1

theorem attend_withoutTracking :
    m.withoutTracking.attend h = ((m.attend h).1.withoutTracking, (m.attend h).2) := by
  have done : m.withoutTracking.done = m.done := rfl
  have again : m.withoutTracking.resetAgain = m.resetAgain := rfl
  have sleeping : m.withoutTracking.cpu.sleeping = m.cpu.sleeping := rfl
  have event : m.withoutTracking.cpu.eventReg = m.cpu.eventReg := rfl
  have world : m.withoutTracking.world = m.world := rfl
  have selected : m.world.nvic.selectRouted m.withoutTracking.cpu =
      m.world.nvic.selectRouted m.cpu := rfl
  simp only [attend, done, again, sleeping, event, world, selected]
  split
  · rfl
  split
  · rfl
  split
  · rfl
  split
  · rfl
  split
  · rw [endPass_withoutTracking]
  · rename_i delta _
    obtain ⟨a, ticked⟩ : ∃ a, (m.withWorld { m.world with scs := m.world.scs.systickAdvance delta }
      ).withWorld (h.tick (m.withWorld { m.world with scs := m.world.scs.systickAdvance delta }
        ).world) = a := ⟨_, rfl⟩
    have ticked' : (m.withoutTracking.withWorld { m.world with
        scs := m.world.scs.systickAdvance delta }).withWorld (h.tick (m.withoutTracking.withWorld
          { m.world with scs := m.world.scs.systickAdvance delta }).world) = a.withoutTracking :=
      congrArg withoutTracking ticked
    have woken : (if a.world.scs.pendSt || a.world.scs.pendSv then a.withoutTracking.wake
        else a.withoutTracking) =
        (if a.world.scs.pendSt || a.world.scs.pendSv then a.wake else a).withoutTracking := by
      split <;> rfl
    have world : a.withoutTracking.world = a.world := rfl
    simp only [ticked, ticked', world, woken, endPass_withoutTracking]
    rfl

theorem mainPass_withoutTracking :
    m.withoutTracking.mainPass env decode32 h = (m.mainPass env decode32 h).withoutTracking := by
  simp only [mainPass, attend_withoutTracking]
  generalize m.attend h = o
  obtain ⟨a, go⟩ := o
  cases go with
  | false => rfl
  | true => exact handlePending_withoutTracking env decode32 h a

theorem vectorApplyReset_withoutTracking :
    m.withoutTracking.vectorApplyReset env =
      (m.vectorApplyReset env).map id withoutTracking := by
  have world : m.withoutTracking.world = m.world := rfl
  have vtor : m.withoutTracking.cpu.vtor = m.cpu.vtor := rfl
  simp only [vectorApplyReset, world, vtor]
  generalize m.world.vectorRead env .secure _ 0 = o
  obtain ⟨v, w⟩ := o
  cases v with
  | none => rfl
  | some initialSp =>
    simp only
    generalize w.vectorRead env .secure _ 1 = o
    obtain ⟨v, w⟩ := o
    cases v with
    | none => rfl
    | some resetPc =>
      have active := Cpu.setActiveSp_withoutTracking { m.cpu with xpsr := 0x01000000 } initialSp
      exact congrArg (fun c : Cpu => (true, { m.withWorld w with
        cpu := ({ c.setReg 15 (resetPc ||| 1) with
          secState := .secure
          mode := .thread } : Cpu).setPrivileged false })) active

theorem restart_withoutTracking (vtor : Banked Word) (w : World δ) :
    m.withoutTracking.restart env vtor w = (m.restart env vtor w).withoutTracking := by
  have again : m.withoutTracking.resetAgain = m.resetAgain := rfl
  simp only [restart, again]
  split
  · rfl
  · obtain ⟨a, reset⟩ : ∃ a, { m with
        cpu := m.cpu.reset vtor
        world := w
        trace := []
        done := false
        resetAgain := false
        transfers := [] } = a := ⟨_, rfl⟩
    have reset' : { m.withoutTracking with
        cpu := m.withoutTracking.cpu.reset vtor
        world := w
        trace := []
        done := false
        resetAgain := false
        transfers := [] } = a.withoutTracking := congrArg withoutTracking reset
    simp only [reset, reset', vectorApplyReset_withoutTracking]
    generalize a.vectorApplyReset env = r
    obtain ⟨ok, a⟩ := r
    cases ok <;> rfl

theorem loopStep_withoutTracking (i : Input δ) :
    loopStep env decode32 m.withoutTracking i = (loopStep env decode32 m i).withoutTracking := by
  cases i with
  | pass h => exact mainPass_withoutTracking env decode32 h m
  | restart vtor w => exact restart_withoutTracking env m vtor w

theorem run_withoutTracking (is : List (Input δ)) :
    run (loopStep env decode32) m.withoutTracking is =
      (run (loopStep env decode32) m is).withoutTracking :=
  List.foldl_hom withoutTracking (loopStep_withoutTracking env decode32)

end Machine

end M33mu
