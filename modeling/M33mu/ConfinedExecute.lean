import M33mu.Confinement

namespace M33mu

open Lib

namespace Machine

variable {δ : Type u} (env : Env δ) (H : Set Word) (S : Word → Byte)

noncomputable def hide (m : Machine δ) : Machine δ := m.withWorld (m.world.veil H S)

noncomputable def veil : Veil (Machine δ) where
  low m := m.cpu.secState = .nonsecure
  inv m := m.world.Guards env H
  blur := hide H S

variable {env H S} {f : FetchResult}

theorem veiled_self {m : Machine δ} (guards : m.world.Guards env H) :
    (veil env H S).Veiled m (m.hide H S) :=
  ⟨Iff.rfl, fun _ => guards, fun _ => rfl⟩

theorem agree_self {b : β} {m : Machine δ} (guards : m.world.Guards env H) :
    (veil env H S).Agree (b, m) (b, m.hide H S) :=
  ⟨veiled_self guards, fun _ => rfl⟩

theorem afterCall_veiled {m : Machine δ} {r r' : Bool × Sys δ}
    (h : (Sys.veil env H S).Agree r r') :
    (veil env H S).Veiled (m.afterCall r) ((m.hide H S).afterCall r') := by
  refine ⟨h.low, h.inv, fun low => ?_⟩
  have same : r' = (r.1, (Sys.veil env H S).blur r.2) :=
    Prod.ext (h.output low) (h.eq low)
  rw [same]
  rfl

theorem syncCall_veiled {m : Machine δ} {r r' : Bool × Sys δ}
    (h : (Sys.veil env H S).Agree r r') :
    (veil env H S).Veiled (if r.1 then (m.afterCall r).syncIt else m.afterCall r)
      (if r'.1 then ((m.hide H S).afterCall r').syncIt else (m.hide H S).afterCall r') := by
  have called : (veil env H S).Veiled _ _ := afterCall_veiled (m := m) h
  refine ⟨?_, ?_, fun low => ?_⟩
  · split <;> split <;> exact called.low
  · split <;> exact called.inv
  · have still : r.2.cpu.secState = .nonsecure := by
      revert low
      split <;> exact id
    have same : (m.hide H S).afterCall r' = (m.afterCall r).hide H S := called.eq still
    rw [h.output still, same]
    split <;> rfl

theorem staysOut_of_local {g : Machine δ → Machine δ} (h : ∀ m : Machine δ, m.Local (g m)) :
    (veil env H S).StaysOut g := fun m out low => out ((h m).secState.symm.trans low)

section Access

variable (contained : env.Contained)
include contained

theorem memFault_veiled {m : Machine δ} (ns : m.cpu.secState = .nonsecure)
    (guards : m.world.Guards env H) (addr : Word) (isExec : Bool) :
    (veil env H S).Veiled (m.memFault env f addr isExec)
      ((m.hide H S).memFault env f addr isExec) :=
  afterCall_veiled (Sys.raiseMemFault_agree contained (s := m.toSys) ns guards _ _ _ _)

theorem usageFault_veiled {m : Machine δ} (ns : m.cpu.secState = .nonsecure)
    (guards : m.world.Guards env H) (ufsrBits : Word) :
    (veil env H S).Veiled (m.usageFault env f ufsrBits)
      ((m.hide H S).usageFault env f ufsrBits) :=
  afterCall_veiled (Sys.raiseUsageFault_agree contained (s := m.toSys) ns guards _ _ _)

theorem excReturn_veiled {m : Machine δ} (guards : m.world.Guards env H) (excRet : Word) :
    (veil env H S).Veiled (m.excReturn env excRet) ((m.hide H S).excReturn env excRet) :=
  syncCall_veiled (Sys.excReturnUnstack_agree contained (s := m.toSys) guards excRet)

theorem handlePcWrite_veiled {m : Machine δ} (guards : m.world.Guards env H) (value : Word) :
    (veil env H S).Veiled (m.handlePcWrite env value)
      ((m.hide H S).handlePcWrite env value) := by
  simp only [handlePcWrite]
  split
  · exact excReturn_veiled contained guards value
  · exact veiled_self guards

theorem setSp_agree {m : Machine δ} (ns : m.cpu.secState = .nonsecure)
    (guards : m.world.Guards env H) (value : Word) :
    (veil env H S).Agree (m.setSp env f value)
      ((m.hide H S).setSp env f value) := by
  have cpu : (m.hide H S).cpu = m.cpu := rfl
  simp only [setSp, cpu]
  split
  · have fault := usageFault_veiled contained (S := S) (f := f) ns guards ufsrStkof
    exact .of_veiled (fault.then (f := fun a => { a with done := true })
      (fun a _ after => veiled_self (m := { a with done := true }) after) fun a out => out) _
  · exact agree_self (m := { m with cpu := m.cpu.setActiveSp value }) guards

theorem setRegOrSp_agree {m : Machine δ} (ns : m.cpu.secState = .nonsecure)
    (guards : m.world.Guards env H) (i : Reg) (value : Word) :
    (veil env H S).Agree (m.setRegOrSp env f i value)
      ((m.hide H S).setRegOrSp env f i value) := by
  simp only [setRegOrSp]
  split
  · exact setSp_agree contained ns guards value
  · exact agree_self (m := m.setReg i value) guards

/-- A write of the stack pointer or of a base register, after a step that may have changed the
security state. -/
theorem Veiled.setSp {a b : Machine δ} (h : (veil env H S).Veiled a b) (value : Word) :
    (veil env H S).Agree (a.setSp env f value) (b.setSp env f value) :=
  (Veil.Agree.of_veiled h ()).then (k := fun _ a => a.setSp env f value)
    (fun _ _ low inv => setSp_agree contained low inv value)
    fun _ => staysOut_of_local fun a => setSp_local a f value

theorem Veiled.setRegOrSp {a b : Machine δ} (h : (veil env H S).Veiled a b) (i : Reg)
    (value : Word) :
    (veil env H S).Agree (a.setRegOrSp env f i value) (b.setRegOrSp env f i value) :=
  (Veil.Agree.of_veiled h ()).then (k := fun _ a => a.setRegOrSp env f i value)
    (fun _ _ low inv => setRegOrSp_agree contained low inv i value)
    fun _ => staysOut_of_local fun a => setRegOrSp_local a f i value

theorem load_agree {m : Machine δ} (ns : m.cpu.secState = .nonsecure)
    (guards : m.world.Guards env H) {addr size : Word} {isExec : Bool}
    {k : Word → Machine δ → Outcome δ}
    (hk : ∀ v a, a.cpu = m.cpu → a.world.Guards env H →
      (veil env H S).Agree (k v a) (k v (a.hide H S))) :
    (veil env H S).Agree (m.load env f addr size isExec k)
      ((m.hide H S).load env f addr size isExec k) := by
  have after := guards.read contained .nonsecure addr size
  have cpu : (m.hide H S).cpu = m.cpu := rfl
  have world : (m.hide H S).world = m.world.veil H S := rfl
  simp only [load, cpu, world, ns, World.read_veil contained guards.walled]
  generalize m.world.read env .nonsecure addr size = o at after ⊢
  obtain ⟨v, w⟩ := o
  cases v with
  | none => exact .of_veiled (memFault_veiled contained (m := m.withWorld w) ns after _ _) _
  | some v => exact hk v (m.withWorld w) rfl after

theorem store_agree {m : Machine δ} (ns : m.cpu.secState = .nonsecure)
    (guards : m.world.Guards env H) {addr size value : Word} {k : Machine δ → Outcome δ}
    (hk : ∀ a, a.cpu = m.cpu → a.world.Guards env H →
      (veil env H S).Agree (k a) (k (a.hide H S))) :
    (veil env H S).Agree (m.store env f addr size value k)
      ((m.hide H S).store env f addr size value k) := by
  have after := guards.write contained addr size value
  have cpu : (m.hide H S).cpu = m.cpu := rfl
  have world : (m.hide H S).world = m.world.veil H S := rfl
  simp only [store, cpu, world, ns, World.write_veil contained guards.walled]
  generalize m.world.write env .nonsecure addr size value = o at after ⊢
  obtain ⟨ok, w⟩ := o
  cases ok with
  | false => exact .of_veiled (memFault_veiled contained (m := m.withWorld w) ns after _ _) _
  | true => exact hk (m.withWorld w) rfl after

structure TransferAgree (env : Env δ) (H : Set Word) (S : Word → Byte)
    (t t' : Transferred δ) : Prop where
  machine : (veil env H S).Veiled t.machine t'.machine
  addr : t.machine.cpu.secState = .nonsecure → t'.addr = t.addr
  taken : t.machine.cpu.secState = .nonsecure → t'.excReturnTaken = t.excReturnTaken

theorem loadRegs_agree {m : Machine δ} (ns : m.cpu.secState = .nonsecure)
    (guards : m.world.Guards env H) (regs : List Reg) (addr : Word) :
    TransferAgree env H S (m.loadRegs env f regs addr)
      ((m.hide H S).loadRegs env f regs addr) := by
  induction regs generalizing m addr with
  | nil => exact ⟨veiled_self guards, fun _ => rfl, fun _ => rfl⟩
  | cons reg regs ih =>
    have after := guards.read contained .nonsecure addr 4
    have cpu : (offer (m.hide H S) addr).cpu = m.cpu := rfl
    have world : (offer (m.hide H S) addr).world = m.world.veil H S := rfl
    have cpu' : (m.offer addr).cpu = m.cpu := rfl
    have world' : (m.offer addr).world = m.world := rfl
    simp only [loadRegs, cpu, cpu', world, world', ns, World.read_veil contained guards.walled]
    generalize m.world.read env .nonsecure addr 4 = o at after ⊢
    obtain ⟨v, w⟩ := o
    cases v with
    | none =>
      exact ⟨memFault_veiled contained (m := (m.offer addr).withWorld w) ns after _ _, fun _ => rfl,
        fun _ => rfl⟩
    | some v =>
      dsimp only
      split
      · split
        · exact ⟨handlePcWrite_veiled contained (m := (m.offer addr).withWorld w) after v,
            fun _ => rfl, fun _ => rfl⟩
        · rename_i hv
          simp only [handlePcWrite, hv]
          exact ih (m := ((m.offer addr).withWorld w).setReg 15 (v ||| 1)) ns after _
      · exact ih (m := ((m.offer addr).withWorld w).setReg reg v) ns after _

theorem storeRegs_agree {m : Machine δ} (ns : m.cpu.secState = .nonsecure)
    (guards : m.world.Guards env H) (regs : List Reg) (addr : Word) :
    TransferAgree env H S (m.storeRegs env f regs addr)
      ((m.hide H S).storeRegs env f regs addr) := by
  induction regs generalizing m addr with
  | nil => exact ⟨veiled_self guards, fun _ => rfl, fun _ => rfl⟩
  | cons reg regs ih =>
    have after := guards.write contained addr 4 (if reg = 15 then m.cpu.r 15 ||| 1 else m.cpu.r reg)
    have cpu : (offer (m.hide H S) addr).cpu = m.cpu := rfl
    have world : (offer (m.hide H S) addr).world = m.world.veil H S := rfl
    have cpu' : (m.offer addr).cpu = m.cpu := rfl
    have world' : (m.offer addr).world = m.world := rfl
    simp only [storeRegs, cpu, cpu', world, world', ns, World.write_veil contained guards.walled]
    generalize m.world.write env .nonsecure addr 4 _ = o at after ⊢
    obtain ⟨ok, w⟩ := o
    cases ok with
    | false =>
      exact ⟨memFault_veiled contained (m := (m.offer addr).withWorld w) ns after _ _, fun _ => rfl,
        fun _ => rfl⟩
    | true => exact ih (m := (m.offer addr).withWorld w) ns after _

end Access

end Machine

namespace Execute

open Machine

variable {δ : Type u} {env : Env δ} {H : Set Word} {S : Word → Byte} {f : FetchResult}
  {d : Decoded} {m : Machine δ}

/-- What `LDM` and `STM` do after their loop. -/
def afterMultiple (env : Env δ) (f : FetchResult) (d : Decoded) (b : Multiple) (taken : Bool)
    (m : Machine δ) : Outcome δ :=
  if b.wbit && !m.done && !taken then
    if d.kind = .ldm ∧ d.rn ∈ b.regs then (.ok, m)
    else
      let m := m.setReg d.rn b.written
      if d.rn = 13 then m.setSp env f (m.cpu.r 13) else (.ok, m)
  else (.ok, m)

theorem execMultiple_transfer (m : Machine δ) : execMultiple env m f d =
    if (multiple m d).regs = [] then (.ok, m)
    else
      let t := if d.kind = .ldm then m.loadRegs env f (multiple m d).regs (multiple m d).start
        else m.storeRegs env f (multiple m d).regs (multiple m d).start
      afterMultiple env f d (multiple m d) t.excReturnTaken t.machine := rfl

theorem afterMultiple_local (m : Machine δ) (b : Multiple) (taken : Bool) :
    m.Local (afterMultiple env f d b taken m).2 := by
  have written := (setReg_quiet m d.rn b.written).local
  simp only [afterMultiple]
  split
  · split
    · exact .refl
    split
    · exact written.trans (setSp_local _ _ _)
    · exact written
  · exact .refl

theorem branchTo_agree (guards : m.world.Guards env H) (target : Word) :
    (veil env H S).Agree (branchTo m target) (branchTo (m.hide H S) target) :=
  agree_self (m := m.setReg 15 (target ||| 1)) guards

theorem data_agree (guards : m.world.Guards env H) (res : DataResult) :
    (veil env H S).Agree (data m res) (data (m.hide H S) res) :=
  agree_self (m := { m with cpu := m.cpu.withData res }) guards

theorem tableEntry_veil (contained : env.Contained) {w : World δ} (guards : w.Guards env H)
    (rnVal rmVal : Word) (isTbh : Bool) :
    tableEntry env (w.veil H S) .nonsecure rnVal rmVal isTbh =
        ((tableEntry env w .nonsecure rnVal rmVal isTbh).1,
          (tableEntry env w .nonsecure rnVal rmVal isTbh).2.1,
          (tableEntry env w .nonsecure rnVal rmVal isTbh).2.2.veil H S) ∧
      (tableEntry env w .nonsecure rnVal rmVal isTbh).2.2.Guards env H := by
  cases isTbh with
  | true =>
    simp only [tableEntry, if_true, World.read_veil contained guards.walled, true_and]
    exact guards.read contained _ _ _
  | false =>
    simp only [tableEntry, Bool.false_eq_true, if_false, World.read8_veil contained guards.walled,
      true_and]
    exact guards.congr (World.read8_sameWalls contained _ _ _)

theorem execMrs_agree (guards : m.world.Guards env H) :
    (veil env H S).Agree (execMrs m d) (execMrs (m.hide H S) d) := by
  simp only [execMrs]
  split
  · exact agree_self guards
  · exact agree_self (m := m.setReg d.rd (m.cpu.readSpecial (d.imm &&& 0xff))) guards

section Access

variable (contained : env.Contained) (ns : m.cpu.secState = .nonsecure)
  (guards : m.world.Guards env H)
include contained ns guards

theorem dataOrSp_agree : (veil env H S).Agree (dataOrSp env m f d)
    (dataOrSp env (m.hide H S) f d) := by
  have same : dataOf (m.hide H S) f d = dataOf m f d := rfl
  simp only [dataOrSp, same]
  split
  · exact setSp_agree contained (m := (data m (dataOf m f d)).2) ns guards _
  · exact data_agree guards _

theorem spPlus_agree (imm : Word) : (veil env H S).Agree (spPlus env m f d imm)
    (spPlus env (m.hide H S) f d imm) := by
  simp only [spPlus]
  split
  · exact setSp_agree contained ns guards _
  · exact agree_self (m := m.setReg d.rd (m.cpu.r 13 + imm)) guards

omit ns in
theorem execBx_agree : (veil env H S).Agree (execBx env m f d)
    (execBx env (m.hide H S) f d) := by
  have cpu : (m.hide H S).cpu = m.cpu := rfl
  simp only [execBx, cpu]
  split
  · exact .of_veiled (excReturn_veiled contained guards _) _
  split
  · exact branchTo_agree guards _
  split
  · split
    · rename_i rec _
      have returned := veiled_self (S := S)
        (m := { m with cpu := m.cpu.tzReturn rec }.record (.tzReturn rec.sec)) guards
      exact Machine.Veiled.setSp contained returned _
    · exact branchTo_agree guards _
  · exact branchTo_agree guards _

theorem bitField_agree (bad : Bool) (res : Word) :
    (veil env H S).Agree (bitField env m f d bad res)
      (bitField env (m.hide H S) f d bad res) := by
  simp only [bitField]
  split
  · exact .of_veiled (usageFault_veiled contained ns guards _) _
  · exact agree_self (m := m.setReg d.rd res) guards

theorem execDiv_agree (div : Word → Word → Word) :
    (veil env H S).Agree (execDiv env m f d div)
      (execDiv env (m.hide H S) f d div) := by
  have cpu : (m.hide H S).cpu = m.cpu := rfl
  have scs : (m.hide H S).world.scs = m.world.scs := rfl
  simp only [execDiv, cpu, scs]
  split
  · split
    · exact .of_veiled (usageFault_veiled contained ns guards _) _
    · exact agree_self (m := m.setReg d.rd 0) guards
  · exact agree_self (m := m.setReg d.rd (div (m.cpu.r d.rn) (m.cpu.r d.rm))) guards

theorem execTableBranch_agree : (veil env H S).Agree (execTableBranch env m f d)
    (execTableBranch env (m.hide H S) f d) := by
  have cpu : (m.hide H S).cpu = m.cpu := rfl
  have world : (m.hide H S).world = m.world.veil H S := rfl
  have base : tableBase (m.hide H S) f d = tableBase m f d := rfl
  obtain ⟨eq, after⟩ := tableEntry_veil contained (S := S) guards (tableBase m f d)
    (m.cpu.r d.rm) (d.kind = .tbh)
  simp only [execTableBranch, cpu, world, base, ns, eq]
  generalize tableEntry env m.world .nonsecure _ _ _ = o at after ⊢
  obtain ⟨addr, entry, w⟩ := o
  cases entry with
  | none => exact .of_veiled (memFault_veiled contained (m := m.withWorld w) ns after _ _) _
  | some entry => exact .of_veiled (handlePcWrite_veiled contained (m := m.withWorld w) after _) _

theorem loadWord_agree (addr : Word) (isExec : Bool) :
    (veil env H S).Agree (loadWord env m f d addr isExec)
      (loadWord env (m.hide H S) f d addr isExec) := by
  refine load_agree contained ns guards fun v a _ after => ?_
  split
  · exact .of_veiled (handlePcWrite_veiled contained after v) _
  · exact agree_self (m := a.setReg d.rd v) after

theorem loadPart_agree (addr size : Word) (ext : Word → Word) :
    (veil env H S).Agree (loadPart env m f d addr size ext)
      (loadPart env (m.hide H S) f d addr size ext) :=
  load_agree contained ns guards fun v a _ after =>
    agree_self (m := a.setReg d.rd (ext v)) after

theorem storePart_agree (addr size value : Word) :
    (veil env H S).Agree (storePart env m f addr size value)
      (storePart env (m.hide H S) f addr size value) :=
  store_agree contained ns guards fun _ _ after => agree_self after

theorem loadWriteBack_agree (addr newRn : Word) :
    (veil env H S).Agree (loadWriteBack env m f d addr newRn)
      (loadWriteBack env (m.hide H S) f d addr newRn) := by
  refine load_agree contained ns guards fun v a _ after => ?_
  refine Machine.Veiled.setRegOrSp contained ?_ d.rn newRn
  split
  · exact handlePcWrite_veiled contained after v
  · exact veiled_self (m := a.setReg d.rd v) after

theorem loadByteWriteBack_agree (addr newRn : Word) :
    (veil env H S).Agree (loadByteWriteBack env m f d addr newRn)
      (loadByteWriteBack env (m.hide H S) f d addr newRn) :=
  load_agree contained ns guards fun v a _ after =>
    Machine.Veiled.setRegOrSp contained (veiled_self (m := a.setReg d.rd (v &&& 0xff)) after) d.rn
      newRn

theorem storeWriteBack_agree (addr size newRn : Word) :
    (veil env H S).Agree (storeWriteBack env m f d addr size newRn)
      (storeWriteBack env (m.hide H S) f d addr size newRn) :=
  store_agree contained ns guards fun _ _ after =>
    Machine.Veiled.setRegOrSp contained (veiled_self after) d.rn newRn

theorem loadHalfWriteBack_agree (addr newRn : Word) :
    (veil env H S).Agree (loadHalfWriteBack env m f d addr newRn)
      (loadHalfWriteBack env (m.hide H S) f d addr newRn) :=
  load_agree contained ns guards fun v a _ after =>
    agree_self (m := (a.setReg d.rd (v &&& 0xffff)).setReg d.rn newRn) after

theorem storeHalfWriteBack_agree (addr newRn : Word) :
    (veil env H S).Agree (storeHalfWriteBack env m f d addr newRn)
      (storeHalfWriteBack env (m.hide H S) f d addr newRn) :=
  store_agree contained ns guards fun a _ after => agree_self (m := a.setReg d.rn newRn) after

theorem execLdrex_agree : (veil env H S).Agree (execLdrex env m f d)
    (execLdrex env (m.hide H S) f d) := by
  have cpu : (m.hide H S).cpu = m.cpu := rfl
  simp only [execLdrex, cpu]
  refine load_agree contained ns guards fun v a _ after => ?_
  split
  · exact agree_self (m := { a with cpu := a.cpu.exclSet a.cpu.secState (m.cpu.r d.rn) 4 }) after
  · exact agree_self (m := { a with
      cpu := (a.cpu.setReg d.rd v).exclSet a.cpu.secState (m.cpu.r d.rn) 4 }) after

theorem execStrex_agree : (veil env H S).Agree (execStrex env m f d)
    (execStrex env (m.hide H S) f d) := by
  have cpu : (m.hide H S).cpu = m.cpu := rfl
  have result (a : Machine δ) (v : Word) (after : a.world.Guards env H) :
      (veil env H S).Agree (ExecStatus.ok, if d.rd = 15 then a else a.setReg d.rd v)
        (ExecStatus.ok, if d.rd = 15 then a.hide H S
          else (a.hide H S).setReg d.rd v) := by
    split
    · exact agree_self after
    · exact agree_self (m := a.setReg d.rd v) after
  rcases hc : m.cpu.exclCheckAndClear m.cpu.secState (m.cpu.r d.rn) 4 with ⟨ok, c⟩
  have same : c.secState = m.cpu.secState :=
    congrArg (fun o : Bool × Cpu => o.2.secState) hc.symm
  simp only [execStrex, cpu, hc]
  cases ok with
  | true =>
    refine store_agree contained (m := { m with cpu := c }) (same.trans ns) guards
      (k := fun a => (.ok, if d.rd = 15 then a else a.setReg d.rd 0)) fun a _ after => ?_
    exact result a 0 after
  | false => exact result { m with cpu := c } 1 guards

theorem execDual_agree : (veil env H S).Agree (execDual env m f d)
    (execDual env (m.hide H S) f d) := by
  have cpu : (m.hide H S).cpu = m.cpu := rfl
  have writeBack (a : Machine δ) (moved : Word) (low : a.cpu.secState = .nonsecure)
      (after : a.world.Guards env H) : (veil env H S).Agree
        (if d.imm.getLsbD 30 then a.setRegOrSp env f d.rn moved else (.ok, a))
        (if d.imm.getLsbD 30 then (a.hide H S).setRegOrSp env f d.rn moved
          else (.ok, a.hide H S)) := by
    split
    · exact setRegOrSp_agree contained low after d.rn moved
    · exact agree_self after
  simp only [execDual, cpu]
  split
  · refine load_agree contained ns guards fun v₁ a same after => ?_
    refine load_agree contained (same ▸ ns) after fun v₂ b same' after' => ?_
    have low : b.cpu.secState = .nonsecure := by rw [same', same, ns]
    exact writeBack ((b.setReg d.rd v₁).setReg d.rm v₂) _ low after'
  · refine store_agree contained ns guards fun a same after => ?_
    have cpu' : (a.hide H S).cpu = a.cpu := rfl
    rw [cpu']
    refine store_agree contained (same ▸ ns) after fun b same' after' => ?_
    have low : b.cpu.secState = .nonsecure := by rw [same', same, ns]
    exact writeBack b _ low after'

theorem afterMultiple_agree (b : Multiple) (taken : Bool) :
    (veil env H S).Agree (afterMultiple env f d b taken m)
      (afterMultiple env f d b taken (m.hide H S)) := by
  have done : (m.hide H S).done = m.done := rfl
  simp only [afterMultiple, done]
  split
  · split
    · exact agree_self guards
    split
    · exact setSp_agree contained (m := m.setReg d.rn b.written) ns guards _
    · exact agree_self (m := m.setReg d.rn b.written) guards
  · exact agree_self guards

theorem execMultiple_agree : (veil env H S).Agree (execMultiple env m f d)
    (execMultiple env (m.hide H S) f d) := by
  have same : multiple (m.hide H S) d = multiple m d := rfl
  rw [execMultiple_transfer, execMultiple_transfer, same]
  split
  · exact agree_self guards
  have loop : TransferAgree env H S
      (if d.kind = .ldm then m.loadRegs env f (multiple m d).regs (multiple m d).start
        else m.storeRegs env f (multiple m d).regs (multiple m d).start)
      (if d.kind = .ldm then
          (m.hide H S).loadRegs env f (multiple m d).regs (multiple m d).start
        else (m.hide H S).storeRegs env f (multiple m d).regs (multiple m d).start) := by
    split
    · exact loadRegs_agree contained ns guards _ _
    · exact storeRegs_agree contained ns guards _ _
  have both : (veil env H S).Agree (_, _) (_, _) := ⟨loop.machine, loop.taken⟩
  exact both.then (k := afterMultiple env f d (multiple m d))
    (fun taken _ low after => afterMultiple_agree contained low after _ taken)
    fun taken => staysOut_of_local fun a => afterMultiple_local a _ taken

theorem execPush_agree : (veil env H S).Agree (execPush env m f d)
    (execPush env (m.hide H S) f d) := by
  have sp : pushSp (m.hide H S) d = pushSp m d := rfl
  have low := storeRegs_agree contained (S := S) (f := f) ns guards (lowRegList d.imm)
    (pushSp m d)
  have stays : (m.storeRegs env f (lowRegList d.imm) (pushSp m d)).machine.cpu.secState =
      .nonsecure := (storeRegs_local m f _ _).secState.trans ns
  have same := low.machine.eq stays
  have stored : (veil env H S).Veiled (pushRegs env m f d).machine
      (pushRegs env (m.hide H S) f d).machine := by
    have done : (storeRegs env (m.hide H S) f (lowRegList d.imm) (pushSp m d)).machine.done =
        (m.storeRegs env f (lowRegList d.imm) (pushSp m d)).machine.done := by
      rw [same]
      rfl
    simp only [pushRegs, sp, done]
    split
    · rw [low.addr stays, same]
      exact (storeRegs_agree contained stays (low.machine.inv stays) _ _).machine
    · exact low.machine
  simp only [execPush, sp]
  refine (Veil.Agree.of_veiled stored ()).then
    (k := fun _ a => if a.done then (.ok, a) else a.setSp env f (pushSp m d)) ?_ ?_
  · intro _ a low' after
    have done : ((veil env H S).blur a).done = a.done := rfl
    simp only [done]
    split
    · exact agree_self after
    · exact setSp_agree contained low' after _
  · intro _
    refine staysOut_of_local fun a => ?_
    split
    · exact .refl
    · exact setSp_local _ _ _

theorem execPop_agree : (veil env H S).Agree (execPop env m f d)
    (execPop env (m.hide H S) f d) := by
  have cpu : (m.hide H S).cpu = m.cpu := rfl
  have loop := loadRegs_agree contained (S := S) (f := f) ns guards (popList d)
    m.cpu.getActiveSp
  simp only [execPop, cpu]
  generalize m.loadRegs env f (popList d) m.cpu.getActiveSp = t at loop ⊢
  generalize (m.hide H S).loadRegs env f (popList d) m.cpu.getActiveSp = t' at loop ⊢
  have both : (veil env H S).Agree ((t.excReturnTaken, t.addr), t.machine)
      ((t'.excReturnTaken, t'.addr), t'.machine) :=
    ⟨loop.machine, fun low => Prod.ext (loop.taken low) (loop.addr low)⟩
  refine both.then (k := fun o a => if o.1 then (.ok, a) else a.setSp env f o.2) ?_ ?_
  · rintro ⟨taken, addr⟩ a low after
    cases taken with
    | true => exact agree_self after
    | false => exact setSp_agree contained low after addr
  · rintro ⟨taken, addr⟩
    refine staysOut_of_local fun a => ?_
    cases taken with
    | true => exact .refl
    | false => exact setSp_local _ _ _

theorem execSvc_agree : (veil env H S).Agree (execSvc env m f d)
    (execSvc env (m.hide H S) f d) :=
  .of_veiled (afterCall_veiled (Sys.enterException_agree contained (s := m.toSys) ns guards _ _ _))
    _

end Access

end Execute

open Execute Machine

variable {δ : Type u} {env : Env δ} {H : Set Word} {S : Word → Byte} {f : FetchResult} {d : Decoded}

theorem executeDecoded_agree (contained : env.Contained) {m : Machine δ}
    (ns : m.cpu.secState = .nonsecure) (guards : m.world.Guards env H) :
    (Machine.veil env H S).Agree (executeDecoded env f d m)
      (executeDecoded env f d (m.hide H S)) := by
  have cpu : (m.hide H S).cpu = m.cpu := rfl
  have self {b : ExecStatus} : (Machine.veil env H S).Agree (b, m) (b, m.hide H S) :=
    agree_self guards
  have branch (p : Prop) [Decidable p] (target : Word) :
      (Machine.veil env H S).Agree (if p then branchTo m target else (.ok, m))
        (if p then branchTo (m.hide H S) target else (.ok, m.hide H S)) := by
    split
    · exact branchTo_agree guards _
    · exact self
  have core (c : Cpu) : (Machine.veil env H S).Agree (ExecStatus.ok, { m with cpu := c })
      (.ok, { m.hide H S with cpu := c }) := agree_self (m := { m with cpu := c }) guards
  rcases hd : d with ⟨kind⟩
  have hk : d.kind = kind := by rw [hd]
  rw [← hd]
  cases kind
  all_goals simp only [executeDecoded, hk, cpu]
  case nop | dsb | dmb | isb | yield => exact self
  case it => exact agree_self (m := (execIt m d).2) guards
  case bUncond | bUncondWide => exact branchTo_agree guards _
  case bCond | bCondWide | cbz => exact branch _ _
  case cbnz =>
    split
    · exact self
    · exact branchTo_agree guards _
  case bx => exact execBx_agree contained guards
  case blx | bl => exact branchTo_agree (m := m.setReg 14 _) guards _
  case sg =>
    simp only [execSg, cpu, ns]
    exact agree_self (m := { m with cpu := m.cpu.tzExecSg }.record (.sg f.pcFetch)) guards
  case bxns => exact core _
  case blxns => exact agree_self (m := (execBlxns m f d).2) guards
  case addImm | subImm | subImmNf => exact dataOrSp_agree contained ns guards
  case addSpImm | subSpImm => exact spPlus_agree contained ns guards _
  case movReg =>
    split
    · exact .of_veiled (handlePcWrite_veiled contained guards _) _
    · exact setRegOrSp_agree contained ns guards _ _
  case ubfx | sbfx | bfi | bfc => exact bitField_agree contained ns guards _ _
  case udiv | sdiv => exact execDiv_agree contained ns guards _
  case tbb | tbh => exact execTableBranch_agree contained ns guards
  case mrs => exact execMrs_agree guards
  case msr => exact core _
  case cps => exact core _
  case bkpt =>
    split
    · exact self
    · exact agree_self (m := { m with done := true }) guards
  case ldrLiteral | ldrImm | ldrReg => exact loadWord_agree contained ns guards _ _
  case ldrex => exact execLdrex_agree contained ns guards
  case clrex => exact core _
  case strex => exact execStrex_agree contained ns guards
  case strImm | strReg | strbReg | strbImm | strhImm | strhReg =>
    exact storePart_agree contained ns guards _ _ _
  case ldrbReg | ldrbImm | ldrsbImm | ldrsbReg | ldrhImm | ldrhReg | ldrshImm | ldrshReg =>
    exact loadPart_agree contained ns guards _ _ _
  case ldrPostImm | ldrPreImm => exact loadWriteBack_agree contained ns guards _ _
  case ldrbPostImm | ldrbPreImm => exact loadByteWriteBack_agree contained ns guards _ _
  case strPostImm | strPreImm | strbPostImm | strbPreImm =>
    exact storeWriteBack_agree contained ns guards _ _ _
  case ldrhPreImm | ldrhPostImm => exact loadHalfWriteBack_agree contained ns guards _ _
  case strhPreImm | strhPostImm => exact storeHalfWriteBack_agree contained ns guards _ _
  case ldrd | strd => exact execDual_agree contained ns guards
  case stm | ldm => exact execMultiple_agree contained ns guards
  case wfi => exact core _
  case wfe => exact core _
  case sev => exact core _
  case svc => exact execSvc_agree contained ns guards
  case push => exact execPush_agree contained ns guards
  case pop => exact execPop_agree contained ns guards
  case undefined | udf => exact .of_veiled (usageFault_veiled contained ns guards _) _
  all_goals exact data_agree guards _

end M33mu
