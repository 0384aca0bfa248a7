import M33mu.Board
import M33mu.Decode32
import M33mu.Execute

namespace M33mu

theorem Cpu.getActiveSp_setActiveSp (c : Cpu) (v : Word) : (c.setActiveSp v).getActiveSp = v := by
  obtain ⟨top, low, valid, eq⟩ := c.exists_setActiveSp_eq v
  rw [eq]
  show (if c.usesPsp then (c.setBankSp c.secState c.usesPsp v).psp.get c.secState
    else (c.setBankSp c.secState c.usesPsp v).msp.get c.secState) = v
  cases c.usesPsp <;> simp [setBankSp]

namespace Decoded

abbrev dualBack (d : Decoded) : Prop := d.imm.getLsbD 30 = true

abbrev multipleBack (d : Decoded) : Prop := d.imm.getLsbD 16 = true

def regs (d : Decoded) : List Reg := Execute.regList (d.imm &&& 0xffff)

def WritesSp (d : Decoded) : Prop :=
  match d.kind with
  | .addImm | .subImm | .subImmNf | .addSpImm | .subSpImm | .addReg | .subReg | .movReg | .movImm
  | .movw | .ldrLiteral | .ldrImm | .ldrReg => d.rd = 13
  | .ldrPostImm | .ldrPreImm | .ldrbPostImm | .ldrbPreImm | .ldrhPostImm | .ldrhPreImm =>
    d.rd = 13 ∨ d.rn = 13
  | .strPostImm | .strPreImm | .strbPostImm | .strbPreImm | .strhPostImm | .strhPreImm => d.rn = 13
  | .ldrd => d.rd = 13 ∨ d.rm = 13 ∨ (d.rn = 13 ∧ d.dualBack)
  | .strd => d.rn = 13 ∧ d.dualBack
  | .ldm => 13 ∈ d.regs ∨ (d.rn = 13 ∧ d.multipleBack ∧ d.regs ≠ [])
  | .stm => d.rn = 13 ∧ d.multipleBack ∧ d.regs ≠ []
  | _ => False

def UsesSetter (d : Decoded) : Prop :=
  match d.kind with
  | .addImm | .subImm | .subImmNf | .addSpImm | .subSpImm | .movReg | .strd | .stm => True
  | .ldrPostImm | .ldrPreImm | .ldrbPostImm | .ldrbPreImm | .strPostImm | .strPreImm
  | .strbPostImm | .strbPreImm => d.rn = 13
  | .ldrd => d.rn = 13 ∧ d.dualBack
  | .ldm => d.rn = 13 ∧ d.multipleBack ∧ 13 ∉ d.regs
  | _ => False

end Decoded

namespace World

variable {δ : Type u} (env : Env δ)

def loadedWord (w : World δ) (sec : SecState) (addr size : Word) : Word :=
  (w.read env sec addr size).1.getD 0

def loadedSp (sec : SecState) : World δ → Word → List Reg → Word → Word
  | _, v, [], _ => v
  | w, v, reg :: regs, addr =>
    loadedSp sec (w.read env sec addr 4).2
      (if reg = 13 then w.loadedWord env sec addr 4 else v) regs (addr + 4)

end World

namespace Machine

variable {δ : Type u} (env : Env δ)

def dualBase (m : Machine δ) (d : Decoded) : Word :=
  if d.imm.getLsbD 31 then m.cpu.r d.rn + (d.imm &&& 0x3ff) else m.cpu.r d.rn - (d.imm &&& 0x3ff)

def dualAddr (m : Machine δ) (d : Decoded) : Word :=
  if d.imm.getLsbD 29 then m.dualBase d else m.cpu.r d.rn

def computedSp (m : Machine δ) (f : FetchResult) (d : Decoded) : Word :=
  let loaded := m.world.loadedWord env m.cpu.secState
  let back := m.cpu.r d.rn + d.imm
  match d.kind with
  | .addSpImm => m.cpu.r 13 + d.imm
  | .subSpImm => m.cpu.r 13 - d.imm
  | .movReg => m.cpu.r d.rm
  | .ldrLiteral => loaded (((f.pcFetch + 4) &&& ~~~3#32) + d.imm) 4
  | .ldrImm => loaded back 4
  | .ldrReg => loaded (Execute.offsetAddr m d 0x3) 4
  | .ldrPostImm => if d.rn = 13 then back else loaded (m.cpu.r d.rn) 4
  | .ldrPreImm => if d.rn = 13 then back else loaded back 4
  | .ldrbPostImm => if d.rn = 13 then back else loaded (m.cpu.r d.rn) 1 &&& 0xff
  | .ldrbPreImm => if d.rn = 13 then back else loaded back 1 &&& 0xff
  | .ldrhPostImm => if d.rn = 13 then back else loaded (m.cpu.r d.rn) 2 &&& 0xffff
  | .ldrhPreImm => if d.rn = 13 then back else loaded back 2 &&& 0xffff
  | .strPostImm | .strPreImm | .strbPostImm | .strbPreImm | .strhPostImm | .strhPreImm => back
  | .ldrd =>
    if d.rn = 13 ∧ d.dualBack then m.dualBase d
    else if d.rm = 13 then
      (m.world.read env m.cpu.secState (m.dualAddr d) 4).2.loadedWord env m.cpu.secState
        (m.dualAddr d + 4) 4
    else loaded (m.dualAddr d) 4
  | .strd => m.dualBase d
  | .ldm =>
    let b := Execute.multiple m d
    if d.rn = 13 ∧ b.wbit ∧ 13 ∉ b.regs then b.written
    else m.world.loadedSp env m.cpu.secState (m.cpu.r 13) b.regs b.start
  | .stm => (Execute.multiple m d).written
  | _ => (Execute.dataOf m f d).r 13

def NoFault (m : Machine δ) (o : Outcome δ) : Prop := o.2.done = false ∧ o.2.trace = m.trace

def ShowsSp (o : Outcome δ) (v : Word) : Prop := o.2.cpu.getActiveSp = v ∧ o.2.cpu.r 13 = v

def HidesSp (m : Machine δ) (o : Outcome δ) (v : Word) : Prop :=
  o.2.cpu.getActiveSp = m.cpu.getActiveSp ∧ o.2.cpu.r 13 = v

variable {env} {m : Machine δ} {f : FetchResult} {d : Decoded}

theorem not_noFault_of_raised {r : Bool × Sys δ} {x : Word} {sec : SecState}
    (raised : m.toSys.Raised x sec r) (status : ExecStatus) :
    ¬ m.NoFault (status, m.afterCall r) := by
  rintro ⟨done, trace⟩
  cases raised with
  | entered num w entered => exact absurd (congrArg List.length trace) (by simp [afterCall])
  | refused w => simp [afterCall] at done

theorem not_noFault_memFault (w : World δ) (status : ExecStatus) (addr : Word) (isExec : Bool) :
    ¬ m.NoFault (status, (m.withWorld w).memFault env f addr isExec) :=
  not_noFault_of_raised (m := m.withWorld w) (Sys.raiseMemFault_raised env _ _ _ _ _) status

theorem setSp_of_noFault {p : Machine δ} {v : Word} (quiet : m.NoFault (p.setSp env f v)) :
    p.setSp env f v = (.ok, { p with cpu := p.cpu.setActiveSp v }) := by
  simp only [setSp] at quiet ⊢
  split
  · rename_i limited
    rw [if_pos limited] at quiet
    cases quiet.1
  · rfl

theorem showsSp_setSp {p : Machine δ} {v : Word} (quiet : m.NoFault (p.setSp env f v)) :
    ShowsSp (p.setSp env f v) v := by
  rw [setSp_of_noFault quiet]
  exact ⟨p.cpu.getActiveSp_setActiveSp v, Cpu.setActiveSp_r_13 p.cpu v⟩

theorem load_of_noFault {p : Machine δ} {addr size : Word} {isExec : Bool}
    {k : Word → Machine δ → Outcome δ} (same : p.trace = m.trace)
    (quiet : m.NoFault (p.load env f addr size isExec k)) :
    p.load env f addr size isExec k = k (p.world.loadedWord env p.cpu.secState addr size)
      (p.withWorld (p.world.read env p.cpu.secState addr size).2) := by
  simp only [load, World.loadedWord] at quiet ⊢
  rcases read : p.world.read env p.cpu.secState addr size with ⟨_ | v, w⟩
  · simp only [read] at quiet
    exact absurd ⟨quiet.1, quiet.2.trans same.symm⟩ (not_noFault_memFault (m := p) w _ _ _)
  · rfl

theorem exists_store_of_noFault {p : Machine δ} {addr size v : Word} {k : Machine δ → Outcome δ}
    (same : p.trace = m.trace) (quiet : m.NoFault (p.store env f addr size v k)) :
    ∃ w, p.store env f addr size v k = k (p.withWorld w) := by
  simp only [store] at quiet ⊢
  rcases write : p.world.write env p.cpu.secState addr size v with ⟨_ | _, w⟩
  · simp only [write] at quiet
    exact absurd ⟨quiet.1, quiet.2.trans same.symm⟩ (not_noFault_memFault (m := p) w _ _ _)
  · exact ⟨w, rfl⟩

theorem not_noFault_excReturn {p : Machine δ} {v : Word} (same : p.trace = m.trace) :
    ¬ ((p.excReturn env v).done = false ∧ (p.excReturn env v).trace = m.trace) := by
  rintro ⟨running, quiet⟩
  cases ok : (p.toSys.excReturnUnstack env v).1 with
  | true =>
    obtain ⟨info, frame, w, -, returned⟩ := excReturn_of_ok env ok
    rw [returned] at quiet
    exact absurd (congrArg List.length (quiet.trans same.symm)) (by simp [syncIt])
  | false => exact absurd (done_excReturn_of_failed env ok) (by simp [running])

theorem loadRegs_of_noFault {p : Machine δ} {regs : List Reg} {addr : Word}
    (same : p.trace = m.trace) (running : (p.loadRegs env f regs addr).machine.done = false)
    (quiet : (p.loadRegs env f regs addr).machine.trace = m.trace) :
    (p.loadRegs env f regs addr).excReturnTaken = false ∧
      (p.loadRegs env f regs addr).machine.cpu.getActiveSp = p.cpu.getActiveSp ∧
      (p.loadRegs env f regs addr).machine.cpu.r 13 =
        p.world.loadedSp env p.cpu.secState (p.cpu.r 13) regs addr := by
  induction regs generalizing p addr with
  | nil => exact ⟨rfl, rfl, rfl⟩
  | cons reg regs ih =>
    rcases read : p.world.read env p.cpu.secState addr 4 with ⟨_ | v, w⟩
    · have step : (p.loadRegs env f (reg :: regs) addr).machine =
          ((p.offer addr).withWorld w).memFault env f addr false := by
        have read : (p.offer addr).world.read env (p.offer addr).cpu.secState addr 4 = (none, w) :=
          read
        simp only [loadRegs, read]
      rw [step] at running quiet
      exact absurd ⟨running, quiet.trans same.symm⟩
        (not_noFault_memFault (m := p.offer addr) w .cont addr false)
    · have read' : (p.offer addr).world.read env (p.offer addr).cpu.secState addr 4 =
          (some v, w) := read
      have loaded : p.world.loadedWord env p.cpu.secState addr 4 = v := by
        rw [World.loadedWord, read]
        rfl
      simp only [World.loadedSp, loaded, read]
      by_cases pc : reg = 15
      · have other : reg ≠ 13 := by
          rw [pc]
          decide
        cases ret : isExcReturn v with
        | true =>
          have step : (p.loadRegs env f (reg :: regs) addr).machine =
              ((p.offer addr).withWorld w).excReturn env v := by
            simp only [loadRegs, read', pc, ret, handlePcWrite, if_true]
          rw [step] at running quiet
          exact absurd ⟨running, quiet⟩
            (not_noFault_excReturn (p := (p.offer addr).withWorld w) same)
        | false =>
          have step : p.loadRegs env f (reg :: regs) addr =
              (((p.offer addr).withWorld w).setReg 15 (v ||| 1)).loadRegs env f regs (addr + 4) := by
            simp only [loadRegs, read', pc, ret, handlePcWrite, if_true, Bool.false_eq_true, if_false]
          rw [step] at running quiet ⊢
          have rest := ih (p := ((p.offer addr).withWorld w).setReg 15 (v ||| 1)) same running quiet
          have sp : (p.cpu.setReg 15 (v ||| 1)).r 13 = p.cpu.r 13 :=
            Cpu.setReg_r_of_ne _ (by decide) _
          rw [if_neg other, ← sp]
          exact rest
      · have step : p.loadRegs env f (reg :: regs) addr =
            (((p.offer addr).withWorld w).setReg reg v).loadRegs env f regs (addr + 4) := by
          simp only [loadRegs, read', pc, if_false]
        rw [step] at running quiet ⊢
        have rest := ih (p := ((p.offer addr).withWorld w).setReg reg v) same running quiet
        have sp : (p.cpu.setReg reg v).r 13 = if reg = 13 then v else p.cpu.r 13 := by
          split
          · rename_i sp
            rw [sp, Cpu.setReg_r_self]
          · exact Cpu.setReg_r_of_ne _ (Ne.symm ‹_›) v
        rw [← sp]
        exact rest

theorem storeRegs_of_noFault {p : Machine δ} {regs : List Reg} {addr : Word}
    (same : p.trace = m.trace) (running : (p.storeRegs env f regs addr).machine.done = false)
    (quiet : (p.storeRegs env f regs addr).machine.trace = m.trace) :
    (p.storeRegs env f regs addr).excReturnTaken = false ∧
      (p.storeRegs env f regs addr).machine.cpu = p.cpu := by
  induction regs generalizing p addr with
  | nil => exact ⟨rfl, rfl⟩
  | cons reg regs ih =>
    rcases write : (p.offer addr).world.write env (p.offer addr).cpu.secState addr 4
      (if reg = 15 then (p.offer addr).cpu.r 15 ||| 1 else (p.offer addr).cpu.r reg) with
      ⟨_ | _, w⟩
    · have step : (p.storeRegs env f (reg :: regs) addr).machine =
          ((p.offer addr).withWorld w).memFault env f addr false := by
        simp only [storeRegs, write]
      rw [step] at running quiet
      exact absurd ⟨running, quiet.trans same.symm⟩
        (not_noFault_memFault (m := p.offer addr) w .cont addr false)
    · have step : p.storeRegs env f (reg :: regs) addr =
          ((p.offer addr).withWorld w).storeRegs env f regs (addr + 4) := by
        simp only [storeRegs, write]
      rw [step] at running quiet ⊢
      exact ih (p := (p.offer addr).withWorld w) same running quiet

end Machine

namespace Execute

open Machine

variable {δ : Type u} {env : Env δ} {m : Machine δ} {f : FetchResult} {d : Decoded}

theorem dataOrSp_shows (rd : d.rd = 13) (quiet : m.NoFault (dataOrSp env m f d)) :
    ShowsSp (dataOrSp env m f d) ((dataOf m f d).r 13) := by
  simp only [dataOrSp, rd, if_true] at quiet ⊢
  exact showsSp_setSp quiet

theorem spPlus_shows (rd : d.rd = 13) {imm : Word} (quiet : m.NoFault (spPlus env m f d imm)) :
    ShowsSp (spPlus env m f d imm) (m.cpu.getActiveSp + imm) := by
  simp only [spPlus, rd, if_true] at quiet ⊢
  exact showsSp_setSp quiet

theorem data_hides : m.HidesSp (data m (dataOf m f d)) ((dataOf m f d).r 13) := ⟨rfl, rfl⟩

theorem loadWord_hides (rd : d.rd = 13) {addr : Word} {isExec : Bool}
    (quiet : m.NoFault (loadWord env m f d addr isExec)) :
    m.HidesSp (loadWord env m f d addr isExec) (m.world.loadedWord env m.cpu.secState addr 4) := by
  have loaded := load_of_noFault (p := m) rfl quiet
  rw [loadWord, loaded, rd, if_neg (by decide)]
  exact ⟨rfl, Cpu.setReg_r_self _ 13 _⟩

theorem loadWriteBack_shows (rn : d.rn = 13) {addr newRn : Word}
    (quiet : m.NoFault (loadWriteBack env m f d addr newRn)) :
    ShowsSp (loadWriteBack env m f d addr newRn) newRn := by
  have loaded := load_of_noFault (p := m) rfl quiet
  rw [loadWriteBack, loaded] at quiet ⊢
  simp only [rn, setRegOrSp, if_true] at quiet ⊢
  exact showsSp_setSp quiet

theorem loadWriteBack_hides (rn : d.rn ≠ 13) (rd : d.rd = 13) {addr newRn : Word}
    (quiet : m.NoFault (loadWriteBack env m f d addr newRn)) :
    m.HidesSp (loadWriteBack env m f d addr newRn)
      (m.world.loadedWord env m.cpu.secState addr 4) := by
  have loaded := load_of_noFault (p := m) rfl quiet
  rw [loadWriteBack, loaded]
  simp only [rd, setRegOrSp, rn, if_false, show (13 : Reg) ≠ 15 by decide]
  refine ⟨rfl, ?_⟩
  exact (Cpu.setReg_r_of_ne _ (Ne.symm rn) _).trans (Cpu.setReg_r_self _ 13 _)

theorem loadByteWriteBack_shows (rn : d.rn = 13) {addr newRn : Word}
    (quiet : m.NoFault (loadByteWriteBack env m f d addr newRn)) :
    ShowsSp (loadByteWriteBack env m f d addr newRn) newRn := by
  have loaded := load_of_noFault (p := m) rfl quiet
  rw [loadByteWriteBack, loaded] at quiet ⊢
  simp only [rn, setRegOrSp, if_true] at quiet ⊢
  exact showsSp_setSp quiet

theorem loadByteWriteBack_hides (rn : d.rn ≠ 13) (rd : d.rd = 13) {addr newRn : Word}
    (quiet : m.NoFault (loadByteWriteBack env m f d addr newRn)) :
    m.HidesSp (loadByteWriteBack env m f d addr newRn)
      (m.world.loadedWord env m.cpu.secState addr 1 &&& 0xff) := by
  have loaded := load_of_noFault (p := m) rfl quiet
  rw [loadByteWriteBack, loaded]
  simp only [rd, setRegOrSp, rn, if_false]
  exact ⟨rfl, (Cpu.setReg_r_of_ne _ (Ne.symm rn) _).trans (Cpu.setReg_r_self _ 13 _)⟩

theorem storeWriteBack_shows (rn : d.rn = 13) {addr size newRn : Word}
    (quiet : m.NoFault (storeWriteBack env m f d addr size newRn)) :
    ShowsSp (storeWriteBack env m f d addr size newRn) newRn := by
  obtain ⟨w, stored⟩ := exists_store_of_noFault (p := m) rfl quiet
  rw [storeWriteBack, stored] at quiet ⊢
  simp only [rn, setRegOrSp, if_true] at quiet ⊢
  exact showsSp_setSp quiet

theorem loadHalfWriteBack_hides (sp : d.rd = 13 ∨ d.rn = 13) {addr newRn : Word}
    (quiet : m.NoFault (loadHalfWriteBack env m f d addr newRn)) :
    m.HidesSp (loadHalfWriteBack env m f d addr newRn)
      (if d.rn = 13 then newRn else m.world.loadedWord env m.cpu.secState addr 2 &&& 0xffff) := by
  have loaded := load_of_noFault (p := m) rfl quiet
  rw [loadHalfWriteBack, loaded]
  refine ⟨rfl, ?_⟩
  split
  · rename_i rn
    rw [rn]
    exact Cpu.setReg_r_self _ 13 _
  · rename_i rn
    rw [sp.resolve_right rn]
    exact (Cpu.setReg_r_of_ne _ (Ne.symm rn) _).trans (Cpu.setReg_r_self _ 13 _)

theorem storeHalfWriteBack_hides (rn : d.rn = 13) {addr newRn : Word}
    (quiet : m.NoFault (storeHalfWriteBack env m f d addr newRn)) :
    m.HidesSp (storeHalfWriteBack env m f d addr newRn) newRn := by
  obtain ⟨w, stored⟩ := exists_store_of_noFault (p := m) rfl quiet
  rw [storeHalfWriteBack, stored, rn]
  exact ⟨rfl, Cpu.setReg_r_self _ 13 _⟩

theorem dualBack_shows (rn : d.rn = 13) (back : d.dualBack) {p : Machine δ} {v : Word}
    (quiet : m.NoFault (if d.imm.getLsbD 30 then p.setRegOrSp env f d.rn v else (.ok, p))) :
    ShowsSp (if d.imm.getLsbD 30 then p.setRegOrSp env f d.rn v else (.ok, p)) v := by
  have back : d.imm.getLsbD 30 = true := back
  rw [if_pos back] at quiet ⊢
  simp only [rn, setRegOrSp, if_true] at quiet ⊢
  exact showsSp_setSp quiet

theorem dualBack_hides (base : ¬ (d.rn = 13 ∧ d.dualBack)) {p : Machine δ} {v : Word}
    (active : p.cpu.getActiveSp = m.cpu.getActiveSp) :
    m.HidesSp (if d.imm.getLsbD 30 then p.setRegOrSp env f d.rn v else (.ok, p)) (p.cpu.r 13) := by
  split
  · rename_i back
    have rn : d.rn ≠ 13 := fun rn => base ⟨rn, back⟩
    rw [setRegOrSp, if_neg rn]
    exact ⟨active, Cpu.setReg_r_of_ne _ (Ne.symm rn) _⟩
  · exact ⟨active, rfl⟩

theorem execDual_shows (rn : d.rn = 13) (back : d.dualBack)
    (quiet : m.NoFault (execDual env m f d)) : ShowsSp (execDual env m f d) (m.dualBase d) := by
  simp only [execDual] at quiet ⊢
  by_cases load : d.kind = .ldrd
  · rw [if_pos load] at quiet ⊢
    have first := load_of_noFault (p := m) rfl quiet
    rw [first] at quiet ⊢
    have second := load_of_noFault (p := m.withWorld _) rfl quiet
    rw [second] at quiet ⊢
    exact dualBack_shows rn back quiet
  · rw [if_neg load] at quiet ⊢
    obtain ⟨w, first⟩ := exists_store_of_noFault (p := m) rfl quiet
    rw [first] at quiet ⊢
    obtain ⟨w', second⟩ := exists_store_of_noFault (p := m.withWorld w) rfl quiet
    rw [second] at quiet ⊢
    exact dualBack_shows rn back quiet

theorem execDual_hides (load : d.kind = .ldrd) (sp : d.rd = 13 ∨ d.rm = 13)
    (base : ¬ (d.rn = 13 ∧ d.dualBack)) (quiet : m.NoFault (execDual env m f d)) :
    m.HidesSp (execDual env m f d)
      (if d.rm = 13 then
        (m.world.read env m.cpu.secState (m.dualAddr d) 4).2.loadedWord env m.cpu.secState
          (m.dualAddr d + 4) 4
      else m.world.loadedWord env m.cpu.secState (m.dualAddr d) 4) := by
  simp only [execDual] at quiet ⊢
  rw [if_pos load] at quiet ⊢
  have first := load_of_noFault (p := m) rfl quiet
  rw [first] at quiet ⊢
  have second := load_of_noFault (p := m.withWorld _) rfl quiet
  rw [second] at quiet ⊢
  have written (v w : Word) : ((m.cpu.setReg d.rd v).setReg d.rm w).r 13 =
      if d.rm = 13 then w else v := by
    split
    · rename_i rm
      rw [rm]
      exact Cpu.setReg_r_self _ 13 _
    · rename_i rm
      rw [Cpu.setReg_r_of_ne _ (Ne.symm rm), sp.resolve_right rm]
      exact Cpu.setReg_r_self _ 13 _
  rw [← written]
  exact dualBack_hides base rfl

def transferLoop (env : Env δ) (m : Machine δ) (f : FetchResult) (d : Decoded) : Transferred δ :=
  if d.kind = .ldm then m.loadRegs env f d.regs (multiple m d).start
  else m.storeRegs env f d.regs (multiple m d).start

theorem transferLoop_excReturnTaken (running : (transferLoop env m f d).machine.done = false)
    (quiet : (transferLoop env m f d).machine.trace = m.trace) :
    (transferLoop env m f d).excReturnTaken = false := by
  simp only [transferLoop] at running quiet ⊢
  split
  · rename_i ldm
    rw [if_pos ldm] at running quiet
    exact (loadRegs_of_noFault rfl running quiet).1
  · rename_i stm
    rw [if_neg stm] at running quiet
    exact (storeRegs_of_noFault rfl running quiet).1

def multipleEnd (env : Env δ) (f : FetchResult) (d : Decoded) (written : Word)
    (t : Transferred δ) : Outcome δ :=
  let m := t.machine
  if d.imm.getLsbD 16 && !m.done && !t.excReturnTaken then
    if d.kind = .ldm ∧ d.rn ∈ d.regs then (.ok, m)
    else
      let m := m.setReg d.rn written
      if d.rn = 13 then m.setSp env f (m.cpu.r 13) else (.ok, m)
  else (.ok, m)

theorem execMultiple_eq (some : d.regs ≠ []) :
    execMultiple env m f d = multipleEnd env f d (multiple m d).written (transferLoop env m f d) :=
  if_neg some

theorem execMultiple_shows (rn : d.rn = 13) (back : d.multipleBack) (some : d.regs ≠ [])
    (base : d.kind = .ldm → 13 ∉ d.regs) (quiet : m.NoFault (execMultiple env m f d)) :
    ShowsSp (execMultiple env m f d) (multiple m d).written := by
  rw [execMultiple_eq some] at quiet ⊢
  have back : d.imm.getLsbD 16 = true := back
  have notIn : ¬ (d.kind = .ldm ∧ d.rn ∈ d.regs) := fun h => base h.1 (rn ▸ h.2)
  simp only [multipleEnd, back, Bool.true_and] at quiet ⊢
  split
  · rename_i goesOn
    rw [if_pos goesOn, if_neg notIn, if_pos rn] at quiet
    have value : ((transferLoop env m f d).machine.setReg d.rn (multiple m d).written).cpu.r 13 =
        (multiple m d).written := by
      rw [rn]
      exact Cpu.setReg_r_self _ 13 _
    rw [value] at quiet ⊢
    exact showsSp_setSp quiet
  · rename_i stops
    rw [if_neg stops] at quiet
    have taken := transferLoop_excReturnTaken quiet.1 quiet.2
    simp [taken, show (transferLoop env m f d).machine.done = false from quiet.1] at stops

theorem multipleEnd_hides (env : Env δ) (f : FetchResult) (t : Transferred δ) (written : Word)
    (ldm : d.kind = .ldm) (mem : 13 ∈ d.regs) :
    (multipleEnd env f d written t).2.done = t.machine.done ∧
      (multipleEnd env f d written t).2.trace = t.machine.trace ∧
      (multipleEnd env f d written t).2.cpu.getActiveSp = t.machine.cpu.getActiveSp ∧
      (multipleEnd env f d written t).2.cpu.r 13 = t.machine.cpu.r 13 := by
  simp only [multipleEnd]
  split
  · split
    · exact ⟨rfl, rfl, rfl, rfl⟩
    · rename_i notIn
      have rn : d.rn ≠ 13 := fun rn => notIn ⟨ldm, rn ▸ mem⟩
      rw [if_neg rn]
      exact ⟨rfl, rfl, rfl, Cpu.setReg_r_of_ne _ (Ne.symm rn) _⟩
  · exact ⟨rfl, rfl, rfl, rfl⟩

theorem execMultiple_hides (ldm : d.kind = .ldm) (mem : 13 ∈ d.regs)
    (quiet : m.NoFault (execMultiple env m f d)) :
    m.HidesSp (execMultiple env m f d)
      (m.world.loadedSp env m.cpu.secState (m.cpu.r 13) d.regs (multiple m d).start) := by
  have some : d.regs ≠ [] := List.ne_nil_of_mem mem
  rw [execMultiple_eq some] at quiet ⊢
  obtain ⟨done, trace, active, sp⟩ := multipleEnd_hides env f (transferLoop env m f d)
    (multiple m d).written ldm mem
  have loop : transferLoop env m f d = m.loadRegs env f d.regs (multiple m d).start := if_pos ldm
  have running := done.symm.trans quiet.1
  have same := trace.symm.trans quiet.2
  rw [loop] at running same active sp
  obtain ⟨-, active', sp'⟩ := loadRegs_of_noFault rfl running same
  rw [loop]
  exact ⟨active.trans active', sp.trans sp'⟩

end Execute

namespace Machine

open Execute

variable {δ : Type u} {env : Env δ} {m : Machine δ} {f : FetchResult} {d : Decoded}

theorem shows_of_usesSetter (writes : d.WritesSp) (setter : d.UsesSetter)
    (synced : m.cpu.r 13 = m.cpu.getActiveSp) (quiet : m.NoFault (executeDecoded env f d m)) :
    ShowsSp (executeDecoded env f d m) (m.computedSp env f d) := by
  have base (rn : d.rn = 13) : m.cpu.r d.rn = m.cpu.r 13 := by rw [rn]
  cases kind : d.kind with
  | addImm | subImm | subImmNf =>
    simp only [Decoded.WritesSp, kind] at writes
    simp only [executeDecoded, kind, computedSp] at quiet ⊢
    exact dataOrSp_shows writes quiet
  | addSpImm =>
    simp only [Decoded.WritesSp, kind] at writes
    simp only [executeDecoded, kind, computedSp, synced] at quiet ⊢
    exact spPlus_shows writes quiet
  | subSpImm =>
    simp only [Decoded.WritesSp, kind] at writes
    simp only [executeDecoded, kind, computedSp, synced, BitVec.sub_eq_add_neg] at quiet ⊢
    exact spPlus_shows writes quiet
  | movReg =>
    simp only [Decoded.WritesSp, kind] at writes
    have pc : (13 : Reg) ≠ 15 := by decide
    simp only [executeDecoded, kind, computedSp, writes, pc, if_false, setRegOrSp, if_true] at quiet ⊢
    exact showsSp_setSp quiet
  | ldrPostImm | ldrPreImm =>
    simp only [Decoded.UsesSetter, kind] at setter
    simp only [executeDecoded, kind, computedSp, setter, if_true] at quiet ⊢
    exact loadWriteBack_shows setter quiet
  | ldrbPostImm | ldrbPreImm =>
    simp only [Decoded.UsesSetter, kind] at setter
    simp only [executeDecoded, kind, computedSp, setter, if_true] at quiet ⊢
    exact loadByteWriteBack_shows setter quiet
  | strPostImm | strPreImm | strbPostImm | strbPreImm =>
    simp only [Decoded.UsesSetter, kind] at setter
    simp only [executeDecoded, kind, computedSp] at quiet ⊢
    exact storeWriteBack_shows setter quiet
  | ldrd =>
    simp only [Decoded.UsesSetter, kind] at setter
    simp only [executeDecoded, kind, computedSp] at quiet ⊢
    rw [if_pos setter]
    exact execDual_shows setter.1 setter.2 quiet
  | strd =>
    simp only [Decoded.WritesSp, kind] at writes
    simp only [executeDecoded, kind, computedSp] at quiet ⊢
    exact execDual_shows writes.1 writes.2 quiet
  | ldm =>
    simp only [Decoded.UsesSetter, kind] at setter
    simp only [Decoded.WritesSp, kind] at writes
    obtain ⟨rn, back, notIn⟩ := setter
    have some : d.regs ≠ [] := by
      rcases writes with mem | ⟨-, -, some⟩
      · exact absurd mem notIn
      · exact some
    simp only [executeDecoded, kind, computedSp] at quiet ⊢
    rw [if_pos ⟨rn, back, notIn⟩]
    exact execMultiple_shows rn back some (fun _ => notIn) quiet
  | stm =>
    simp only [Decoded.WritesSp, kind] at writes
    obtain ⟨rn, back, some⟩ := writes
    simp only [executeDecoded, kind, computedSp] at quiet ⊢
    exact execMultiple_shows rn back some (by simp [kind]) quiet
  | _ =>
    simp only [Decoded.UsesSetter, kind] at setter

theorem hides_of_not_usesSetter (writes : d.WritesSp) (direct : ¬ d.UsesSetter)
    (quiet : m.NoFault (executeDecoded env f d m)) :
    m.HidesSp (executeDecoded env f d m) (m.computedSp env f d) := by
  cases kind : d.kind with
  | addReg | subReg | movImm | movw =>
    simp only [executeDecoded, kind, computedSp]
    exact data_hides
  | ldrLiteral | ldrImm | ldrReg =>
    simp only [Decoded.WritesSp, kind] at writes
    simp only [executeDecoded, kind, computedSp] at quiet ⊢
    exact loadWord_hides writes quiet
  | ldrPostImm | ldrPreImm =>
    simp only [Decoded.WritesSp, Decoded.UsesSetter, kind] at writes direct
    simp only [executeDecoded, kind, computedSp, direct, if_false] at quiet ⊢
    exact loadWriteBack_hides direct (writes.resolve_right direct) quiet
  | ldrbPostImm | ldrbPreImm =>
    simp only [Decoded.WritesSp, Decoded.UsesSetter, kind] at writes direct
    simp only [executeDecoded, kind, computedSp, direct, if_false] at quiet ⊢
    exact loadByteWriteBack_hides direct (writes.resolve_right direct) quiet
  | ldrhPostImm | ldrhPreImm =>
    simp only [Decoded.WritesSp, kind] at writes
    simp only [executeDecoded, kind, computedSp] at quiet ⊢
    exact loadHalfWriteBack_hides writes quiet
  | strhPostImm | strhPreImm =>
    simp only [Decoded.WritesSp, kind] at writes
    simp only [executeDecoded, kind, computedSp] at quiet ⊢
    exact storeHalfWriteBack_hides writes quiet
  | strPostImm | strPreImm | strbPostImm | strbPreImm =>
    simp only [Decoded.WritesSp, Decoded.UsesSetter, kind] at writes direct
    exact absurd writes direct
  | ldrd =>
    simp only [Decoded.WritesSp, Decoded.UsesSetter, kind] at writes direct
    have sp : d.rd = 13 ∨ d.rm = 13 := by
      rcases writes with rd | rm | base
      · exact .inl rd
      · exact .inr rm
      · exact absurd base direct
    simp only [executeDecoded, kind, computedSp] at quiet ⊢
    rw [if_neg direct]
    exact execDual_hides kind sp direct quiet
  | ldm =>
    simp only [Decoded.WritesSp, Decoded.UsesSetter, kind] at writes direct
    have mem : 13 ∈ d.regs := by
      by_contra notIn
      rcases writes with mem | ⟨rn, back, -⟩
      · exact notIn mem
      · exact direct ⟨rn, back, notIn⟩
    simp only [executeDecoded, kind, computedSp] at quiet ⊢
    rw [if_neg (fun h => h.2.2 mem)]
    exact execMultiple_hides kind mem quiet
  | _ =>
    simp only [Decoded.WritesSp, Decoded.UsesSetter, kind, not_true_eq_false] at writes direct

/-- A value given to `R13` reaches the next instruction exactly when it went through the setter or
is the stack pointer of before. -/
theorem showsSp_iff (writes : d.WritesSp) (synced : m.cpu.r 13 = m.cpu.getActiveSp)
    (quiet : m.NoFault (executeDecoded env f d m)) :
    ShowsSp (executeDecoded env f d m) (m.computedSp env f d) ↔
      d.UsesSetter ∨ m.computedSp env f d = m.cpu.getActiveSp := by
  by_cases setter : d.UsesSetter
  · exact iff_of_true (shows_of_usesSetter writes setter synced quiet) (.inl setter)
  · obtain ⟨active, sp⟩ := hides_of_not_usesSetter writes setter quiet
    rw [ShowsSp, active]
    constructor
    · rintro ⟨same, -⟩
      exact .inr same.symm
    · rintro (uses | same)
      · exact absurd uses setter
      · exact ⟨same.symm, sp⟩

def stacked : Machine Unit :=
  ⟨⟨{ Board.cpu with r := fun i => if i = 13 then 0x20008000 else 16 }, Board.world, []⟩,
    ⟨0, 0, 0⟩, false, false, []⟩

theorem showsSp_iff_subSp :
    ShowsSp (executeDecoded Board.env ⟨0xb082, 2, false, 0, 0⟩ (Decode.decode16 0xb082) stacked)
        (stacked.computedSp Board.env ⟨0xb082, 2, false, 0, 0⟩ (Decode.decode16 0xb082)) ↔
      (Decode.decode16 0xb082).UsesSetter ∨
        stacked.computedSp Board.env ⟨0xb082, 2, false, 0, 0⟩ (Decode.decode16 0xb082) =
          stacked.cpu.getActiveSp := by
  have writes : (Decode.decode16 0xb082).WritesSp := by
    show (Decode.decode16 0xb082).rd = 13
    decide
  exact showsSp_iff writes (by decide) ⟨by decide +kernel, by decide +kernel⟩

theorem addSp_lost :
    ¬ ∀ (f : FetchResult) (d : Decoded) (m : Machine Unit), d.WritesSp →
      m.cpu.r 13 = m.cpu.getActiveSp → m.NoFault (executeDecoded Board.env f d m) →
      ShowsSp (executeDecoded Board.env f d m) (m.computedSp Board.env f d) := by
  intro shows
  have writes : (Decode.decode16 0x4485).WritesSp := by
    show (Decode.decode16 0x4485).rd = 13
    decide
  have lost := (shows ⟨0x4485, 2, false, 0, 0⟩ _ stacked writes (by decide)
    ⟨by decide +kernel, by decide +kernel⟩).1
  revert lost
  decide +kernel

end Machine

end M33mu
