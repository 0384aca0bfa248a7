import M33mu.Execute
import Mathlib.Logic.Relation

/-!
The elementary steps that every instruction is made of. What each of them preserves is preserved
by `mm_execute_decoded`.
-/

namespace M33mu

namespace Machine

variable {δ : Type u}

inductive Micro (env : Env δ) (f : FetchResult) (d : Decoded) (m : Machine δ) : Machine δ → Prop
  | reg (i : Reg) (v : Word) : Micro env f d m (m.setReg i v)
  | data (res : DataResult) : Micro env f d m { m with cpu := m.cpu.withData res }
  | sp (v : Word) : Micro env f d m { m with cpu := m.cpu.setActiveSp v }
  | offer (addr : Word) : Micro env f d m (m.offer addr)
  | stop : Micro env f d m { m with done := true }
  | read (addr size v : Word) {w : World δ}
    (h : m.world.read env m.cpu.secState addr size = (some v, w)) : Micro env f d m (m.withWorld w)
  | readRefused (addr size : Word) (isExec : Bool) {w : World δ}
    (h : m.world.read env m.cpu.secState addr size = (none, w)) :
    Micro env f d m ((m.withWorld w).memFault env f addr isExec)
  | read8 (addr : Word) (v : Byte) {w : World δ}
    (h : m.world.read8 env m.cpu.secState addr = (some v, w)) : Micro env f d m (m.withWorld w)
  | read8Refused (addr : Word) {w : World δ}
    (h : m.world.read8 env m.cpu.secState addr = (none, w)) :
    Micro env f d m ((m.withWorld w).memFault env f addr false)
  | write (addr size v : Word) {w : World δ}
    (h : m.world.write env m.cpu.secState addr size v = (true, w)) :
    Micro env f d m (m.withWorld w)
  | writeRefused (addr size v : Word) {w : World δ}
    (h : m.world.write env m.cpu.secState addr size v = (false, w)) :
    Micro env f d m ((m.withWorld w).memFault env f addr false)
  | usageFault (ufsrBits : Word) : Micro env f d m (m.usageFault env f ufsrBits)
  | svc (kind : d.kind = .svc) : Micro env f d m (Execute.execSvc env m f d).2
  | excReturn (excRet : Word) (h : isExcReturn excRet = true) :
    Micro env f d m (m.excReturn env excRet)
  | it (kind : d.kind = .it) : Micro env f d m (Execute.execIt m d).2
  | sg (kind : d.kind = .sg) (ns : m.cpu.secState = .nonsecure) :
    Micro env f d m ({ m with cpu := m.cpu.tzExecSg }.record (.sg f.pcFetch))
  | bxns (kind : d.kind = .bxns) (target : Word) :
    Micro env f d m { m with cpu := m.cpu.tzExecBxns target }
  | blxns (kind : d.kind = .blxns) : Micro env f d m (Execute.execBlxns m f d).2
  | tzReturn (kind : d.kind = .bx) (lr : d.rm = 14) (ns : m.cpu.secState = .nonsecure)
    (sentinel : m.cpu.r 14 = Cpu.tzRetLrSentinel) (rec : TzRecord)
    (top : m.cpu.tz.pop.1 = some rec) :
    Micro env f d m ({ m with cpu := m.cpu.tzReturn rec }.record (.tzReturn rec.sec))
  | msr (kind : d.kind = .msr) : Micro env f d m { m with cpu := m.cpu.execMsr d }
  | cps (kind : d.kind = .cps) : Micro env f d m { m with cpu := m.cpu.execCps d }
  | exclSet (kind : d.kind = .ldrex) (addr : Word) :
    Micro env f d m { m with cpu := m.cpu.exclSet m.cpu.secState addr 4 }
  | exclClear (kind : d.kind = .clrex ∨ d.kind = .strex) :
    Micro env f d m { m with cpu := m.cpu.exclClear }
  | wfi (kind : d.kind = .wfi) : Micro env f d m { m with cpu := { m.cpu with sleeping := true } }
  | wfe (kind : d.kind = .wfe) : Micro env f d m { m with cpu := m.cpu.execWfe }
  | sev (kind : d.kind = .sev) : Micro env f d m { m with cpu := { m.cpu with eventReg := true } }

abbrev Steps (env : Env δ) (f : FetchResult) (d : Decoded) : Machine δ → Machine δ → Prop :=
  Relation.ReflTransGen (Micro env f d)

variable {env : Env δ} {f : FetchResult} {d : Decoded}

theorem Micro.steps {m m' : Machine δ} (h : Micro env f d m m') : Steps env f d m m' := .single h

theorem Steps.keeps {K : Machine δ → Prop} (step : ∀ {a b}, Micro env f d a b → K a → K b)
    {m m' : Machine δ} (h : Steps env f d m m') (first : K m) : K m' := by
  induction h with
  | refl => exact first
  | tail _ last ih => exact step last ih

theorem Steps.eq_of_same {F : Machine δ → β} (step : ∀ {a b}, Micro env f d a b → F b = F a)
    {m m' : Machine δ} (h : Steps env f d m m') : F m' = F m :=
  h.keeps (K := fun a => F a = F m) (fun move same => (step move).trans same) rfl

theorem setSp_steps (m : Machine δ) (value : Word) :
    Steps env f d m (m.setSp env f value).2 := by
  simp only [setSp]
  split
  · exact (Micro.usageFault _).steps.tail .stop
  · exact (Micro.sp value).steps

theorem setRegOrSp_steps (m : Machine δ) (i : Reg) (value : Word) :
    Steps env f d m (m.setRegOrSp env f i value).2 := by
  simp only [setRegOrSp]
  split
  · exact setSp_steps m value
  · exact (Micro.reg i value).steps

theorem handlePcWrite_steps (m : Machine δ) (value : Word) :
    Steps env f d m (m.handlePcWrite env value) := by
  simp only [handlePcWrite]
  split
  · rename_i exc
    exact (Micro.excReturn value exc).steps
  · exact (Micro.reg 15 _).steps

theorem load_steps {m : Machine δ} {addr size : Word} {isExec : Bool}
    {k : Word → Machine δ → Outcome δ} (hk : ∀ v a, Steps env f d a (k v a).2) :
    Steps env f d m (m.load env f addr size isExec k).2 := by
  simp only [load]
  split
  · rename_i v w read
    exact .head (.read addr size v read) (hk v _)
  · rename_i w read
    exact (Micro.readRefused addr size isExec read).steps

theorem store_steps {m : Machine δ} {addr size value : Word} {k : Machine δ → Outcome δ}
    (hk : ∀ a, Steps env f d a (k a).2) :
    Steps env f d m (m.store env f addr size value k).2 := by
  simp only [store]
  split
  · rename_i w write
    exact .head (.write addr size value write) (hk _)
  · rename_i w write
    exact (Micro.writeRefused addr size value write).steps

theorem loadRegs_steps (m : Machine δ) (regs : List Reg) (addr : Word) :
    Steps env f d m (m.loadRegs env f regs addr).machine := by
  induction regs generalizing m addr with
  | nil => exact .refl
  | cons reg regs ih =>
    refine .head (.offer addr) ?_
    simp only [loadRegs]
    split
    · rename_i w read
      exact (Micro.readRefused addr 4 false read).steps
    · rename_i v w read
      refine .head (.read addr 4 v read) ?_
      split
      · have written : Steps env f d ((m.offer addr).withWorld w) _ := handlePcWrite_steps _ v
        split
        · exact written
        · exact written.trans (ih _ _)
      · exact .head (.reg reg v) (ih _ _)

theorem storeRegs_steps (m : Machine δ) (regs : List Reg) (addr : Word) :
    Steps env f d m (m.storeRegs env f regs addr).machine := by
  induction regs generalizing m addr with
  | nil => exact .refl
  | cons reg regs ih =>
    refine .head (.offer addr) ?_
    simp only [storeRegs]
    split
    · rename_i w write
      exact (Micro.writeRefused addr 4 _ write).steps
    · rename_i w write
      exact .head (.write addr 4 _ write) (ih _ _)

end Machine

namespace Execute

open Machine

variable {δ : Type u} {env : Env δ} {f : FetchResult} {d : Decoded}

theorem branchTo_steps (m : Machine δ) (target : Word) : Steps env f d m (branchTo m target).2 :=
  (Micro.reg 15 _).steps

theorem data_steps (m : Machine δ) (res : DataResult) : Steps env f d m (data m res).2 :=
  (Micro.data res).steps

theorem dataOrSp_steps (m : Machine δ) : Steps env f d m (dataOrSp env m f d).2 := by
  simp only [dataOrSp]
  split
  · exact (data_steps m _).trans (setSp_steps _ _)
  · exact data_steps m _

theorem spPlus_steps (m : Machine δ) (imm : Word) : Steps env f d m (spPlus env m f d imm).2 := by
  simp only [spPlus]
  split
  · exact setSp_steps m _
  · exact (Micro.reg _ _).steps

theorem execBx_steps (m : Machine δ) (bx : d.kind = .bx) :
    Steps env f d m (execBx env m f d).2 := by
  simp only [execBx]
  split
  · rename_i h
    exact (Micro.excReturn _ h.2).steps
  split
  · exact branchTo_steps m _
  split
  · rename_i h
    obtain ⟨lr, ns, sentinel⟩ := h
    split
    · rename_i rec top
      exact .head (.tzReturn bx lr ns (lr ▸ sentinel) rec top) (setSp_steps _ _)
    · exact branchTo_steps m _
  · exact branchTo_steps m _

theorem execSg_steps (m : Machine δ) (sg : d.kind = .sg) : Steps env f d m (execSg m f).2 := by
  simp only [execSg]
  split
  · rename_i ns
    exact (Micro.sg sg ns).steps
  · exact .refl

theorem bitField_steps (m : Machine δ) (bad : Bool) (res : Word) :
    Steps env f d m (bitField env m f d bad res).2 := by
  simp only [bitField]
  split
  · exact (Micro.usageFault _).steps
  · exact (Micro.reg _ _).steps

theorem execDiv_steps (m : Machine δ) (div : Word → Word → Word) :
    Steps env f d m (execDiv env m f d div).2 := by
  simp only [execDiv]
  split
  · split
    · exact (Micro.usageFault _).steps
    · exact (Micro.reg _ _).steps
  · exact (Micro.reg _ _).steps

theorem execTableBranch_steps (m : Machine δ) :
    Steps env f d m (execTableBranch env m f d).2 := by
  rw [execTableBranch, tableEntry]
  by_cases tbh : d.kind = .tbh
  · rw [decide_eq_true tbh, if_pos rfl, if_pos rfl]
    rcases read : m.world.read env m.cpu.secState
      (tableBase m f d + m.cpu.r d.rm <<< 1) 2 with ⟨_ | v, w⟩
    · exact (Micro.readRefused _ 2 false read).steps
    · exact .head (.read _ 2 v read) (handlePcWrite_steps _ _)
  · rw [decide_eq_false tbh, if_neg Bool.false_ne_true, if_neg Bool.false_ne_true]
    rcases read : m.world.read8 env m.cpu.secState (tableBase m f d + m.cpu.r d.rm) with ⟨_ | v, w⟩
    · exact (Micro.read8Refused _ read).steps
    · exact .head (.read8 _ v read) (handlePcWrite_steps _ _)

theorem execMrs_steps (m : Machine δ) : Steps env f d m (execMrs m d).2 := by
  simp only [execMrs]
  split
  · exact .refl
  · exact (Micro.reg _ _).steps

theorem loadWord_steps (m : Machine δ) (addr : Word) (isExec : Bool) :
    Steps env f d m (loadWord env m f d addr isExec).2 := by
  refine load_steps fun v a => ?_
  split
  · exact handlePcWrite_steps a v
  · exact (Micro.reg _ _).steps

theorem loadPart_steps (m : Machine δ) (addr size : Word) (ext : Word → Word) :
    Steps env f d m (loadPart env m f d addr size ext).2 :=
  load_steps fun _ _ => (Micro.reg _ _).steps

theorem storePart_steps (m : Machine δ) (addr size value : Word) :
    Steps env f d m (storePart env m f addr size value).2 :=
  store_steps fun _ => .refl

theorem loadWriteBack_steps (m : Machine δ) (addr newRn : Word) :
    Steps env f d m (loadWriteBack env m f d addr newRn).2 := by
  refine load_steps fun v a => ?_
  split
  · exact (handlePcWrite_steps a v).trans (setRegOrSp_steps _ _ _)
  · exact .head (.reg _ _) (setRegOrSp_steps _ _ _)

theorem loadByteWriteBack_steps (m : Machine δ) (addr newRn : Word) :
    Steps env f d m (loadByteWriteBack env m f d addr newRn).2 :=
  load_steps fun _ _ => .head (.reg _ _) (setRegOrSp_steps _ _ _)

theorem storeWriteBack_steps (m : Machine δ) (addr size newRn : Word) :
    Steps env f d m (storeWriteBack env m f d addr size newRn).2 :=
  store_steps fun a => setRegOrSp_steps a _ _

theorem loadHalfWriteBack_steps (m : Machine δ) (addr newRn : Word) :
    Steps env f d m (loadHalfWriteBack env m f d addr newRn).2 :=
  load_steps fun _ _ => .head (.reg _ _) (Micro.reg _ _).steps

theorem storeHalfWriteBack_steps (m : Machine δ) (addr newRn : Word) :
    Steps env f d m (storeHalfWriteBack env m f d addr newRn).2 :=
  store_steps fun _ => (Micro.reg _ _).steps

theorem execLdrex_steps (m : Machine δ) (ldrex : d.kind = .ldrex) :
    Steps env f d m (execLdrex env m f d).2 := by
  refine load_steps fun v a => ?_
  split
  · exact (Micro.exclSet ldrex _).steps
  · exact .head (.reg _ _) (Micro.exclSet ldrex _).steps

theorem execStrex_steps (m : Machine δ) (strex : d.kind = .strex) :
    Steps env f d m (execStrex env m f d).2 := by
  have result (a : Machine δ) (v : Word) :
      Steps env f d a (if d.rd = 15 then a else a.setReg d.rd v) := by
    split
    · exact .refl
    · exact (Micro.reg _ _).steps
  rcases hc : m.cpu.exclCheckAndClear m.cpu.secState (m.cpu.r d.rn) 4 with ⟨ok, c⟩
  obtain rfl : m.cpu.exclClear = c := congrArg Prod.snd hc
  refine .head (.exclClear (.inr strex)) ?_
  simp only [execStrex, hc]
  cases ok with
  | true =>
    refine store_steps (k := fun a => (.ok, if d.rd = 15 then a else a.setReg d.rd 0)) fun a => ?_
    exact result a _
  | false => exact result _ _

theorem execDual_steps (m : Machine δ) : Steps env f d m (execDual env m f d).2 := by
  have writeBack (a : Machine δ) (moved : Word) :
      Steps env f d a (if d.imm.getLsbD 30 then a.setRegOrSp env f d.rn moved else (.ok, a)).2 := by
    split
    · exact setRegOrSp_steps a _ _
    · exact .refl
  simp only [execDual]
  split
  · refine load_steps fun v1 a => load_steps fun v2 b => ?_
    exact .head (.reg _ _) (.head (.reg _ _) (writeBack _ _))
  · exact store_steps fun a => store_steps fun b => writeBack b _

theorem execMultiple_steps (m : Machine δ) : Steps env f d m (execMultiple env m f d).2 := by
  simp only [execMultiple]
  split
  · exact .refl
  generalize ht : (if d.kind = .ldm then _ else _ : Transferred δ) = t
  have loop : Steps env f d m t.machine := by
    subst ht
    split
    · exact loadRegs_steps m _ _
    · exact storeRegs_steps m _ _
  split
  · split
    · exact loop
    · refine loop.trans (.head (.reg d.rn (multiple m d).written) ?_)
      split
      · exact setSp_steps _ _
      · exact .refl
  · exact loop

theorem execPush_steps (m : Machine δ) : Steps env f d m (execPush env m f d).2 := by
  have stored : Steps env f d m (pushRegs env m f d).machine := by
    simp only [pushRegs]
    split
    · exact (storeRegs_steps m _ _).trans (storeRegs_steps _ _ _)
    · exact storeRegs_steps m _ _
  simp only [execPush]
  split
  · exact stored
  · exact stored.trans (setSp_steps _ _)

theorem execPop_steps (m : Machine δ) : Steps env f d m (execPop env m f d).2 := by
  have loop : Steps env f d m _ := loadRegs_steps m (popList d) m.cpu.getActiveSp
  simp only [execPop]
  split
  · exact loop
  · exact loop.trans (setSp_steps _ _)

end Execute

open Execute Machine

variable {δ : Type u} {env : Env δ} {f : FetchResult} {d : Decoded}

theorem executeDecoded_steps (m : Machine δ) : Steps env f d m (executeDecoded env f d m).2 := by
  have branch (p : Prop) [Decidable p] (target : Word) :
      Steps env f d m (if p then branchTo m target else (.ok, m)).2 := by
    split
    · exact branchTo_steps m _
    · exact .refl
  rcases hd : d with ⟨kind⟩
  have hk : d.kind = kind := by rw [hd]
  rw [← hd]
  cases kind
  all_goals simp only [executeDecoded, hk]
  case nop | dsb | dmb | isb | yield => exact .refl
  case it => exact (Micro.it hk).steps
  case bUncond | bUncondWide => exact branchTo_steps m _
  case bCond | bCondWide | cbz => exact branch _ _
  case cbnz =>
    split
    · exact .refl
    · exact branchTo_steps m _
  case bx => exact execBx_steps m hk
  case blx | bl => exact .head (.reg 14 _) (branchTo_steps _ _)
  case sg => exact execSg_steps m hk
  case bxns => exact (Micro.bxns hk _).steps
  case blxns => exact (Micro.blxns hk).steps
  case addImm | subImm | subImmNf => exact dataOrSp_steps m
  case addSpImm | subSpImm => exact spPlus_steps m _
  case movReg =>
    split
    · exact handlePcWrite_steps m _
    · exact setRegOrSp_steps m _ _
  case ubfx | sbfx | bfi | bfc => exact bitField_steps m _ _
  case udiv | sdiv => exact execDiv_steps m _
  case tbb | tbh => exact execTableBranch_steps m
  case mrs => exact execMrs_steps m
  case msr => exact (Micro.msr hk).steps
  case cps => exact (Micro.cps hk).steps
  case bkpt =>
    split
    · exact .refl
    · exact Micro.stop.steps
  case ldrLiteral | ldrImm | ldrReg => exact loadWord_steps m _ _
  case ldrex => exact execLdrex_steps m hk
  case clrex => exact (Micro.exclClear (.inl hk)).steps
  case strex => exact execStrex_steps m hk
  case strImm | strReg | strbReg | strbImm | strhImm | strhReg => exact storePart_steps m _ _ _
  case ldrbReg | ldrbImm | ldrsbImm | ldrsbReg | ldrhImm | ldrhReg | ldrshImm | ldrshReg =>
    exact loadPart_steps m _ _ _
  case ldrPostImm | ldrPreImm => exact loadWriteBack_steps m _ _
  case ldrbPostImm | ldrbPreImm => exact loadByteWriteBack_steps m _ _
  case strPostImm | strPreImm | strbPostImm | strbPreImm => exact storeWriteBack_steps m _ _ _
  case ldrhPreImm | ldrhPostImm => exact loadHalfWriteBack_steps m _ _
  case strhPreImm | strhPostImm => exact storeHalfWriteBack_steps m _ _
  case ldrd | strd => exact execDual_steps m
  case stm | ldm => exact execMultiple_steps m
  case wfi => exact (Micro.wfi hk).steps
  case wfe => exact (Micro.wfe hk).steps
  case sev => exact (Micro.sev hk).steps
  case svc => exact (Micro.svc hk).steps
  case push => exact execPush_steps m
  case pop => exact execPop_steps m
  case undefined | udf => exact (Micro.usageFault _).steps
  all_goals exact data_steps m _

end M33mu
