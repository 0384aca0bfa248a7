import M33mu.DataProc
import M33mu.Machine

/-!
`mm_execute_decoded`, one instruction at a time.
-/

namespace M33mu

def Cpu.withData (c : Cpu) (res : DataResult) : Cpu :=
  { c with
    r := res.r
    xpsr := match res.flags with
      | some w => w.apply c.xpsr
      | none => c.xpsr }

/-- What `MRS` reads; unknown special registers read as zero. -/
def Cpu.readSpecial (c : Cpu) (sysm : Word) : Word :=
  match sysm.toNat with
  | 0x08 => c.getActiveSp
  | 0x09 => c.psp.get c.secState
  | 0x0a => c.msplim.get c.secState
  | 0x0b => c.psplim.get c.secState
  | 0x88 => c.msp.ns
  | 0x89 => c.psp.ns
  | 0x8a => c.msplim.ns
  | 0x8b => c.psplim.ns
  | 0x94 => c.control.ns
  | 0x14 => c.control.s
  | _ => 0

/-- What `MSR` writes for a mask of `8`. -/
def Cpu.writeSpecial (c : Cpu) (sysm val : Word) : Cpu :=
  match sysm.toNat with
  | 0x08 => c.setMsp c.secState val
  | 0x09 => c.setPsp c.secState val
  | 0x0a => { c with msplim := c.msplim.set c.secState val }
  | 0x0b => { c with psplim := c.psplim.set c.secState val }
  | 0x88 => c.setMsp .nonsecure val
  | 0x89 => c.setPsp .nonsecure val
  | 0x8a => { c with msplim := c.msplim.set .nonsecure val }
  | 0x8b => { c with psplim := c.psplim.set .nonsecure val }
  | 0x14 => c.setControl .secure val
  | 0x94 => c.setControl .nonsecure val
  | _ => c

/-- `MM_OP_MSR`. A mask with bit 3 set that writes the flags is never `8`. -/
def Cpu.execMsr (c : Cpu) (d : Decoded) : Cpu :=
  let sysm := d.imm &&& 0xff
  let mask := d.imm >>> 8 &&& 0xf
  let val := c.r d.rm
  if mask = 8 then c.writeSpecial sysm val
  else if sysm = 0 ∧ mask &&& 8 ≠ 0 then { c with xpsr := ExecHelpers.xpsrWriteNzcvq c.xpsr val }
  else c

/-- `MM_OP_CPS`: only PRIMASK. -/
def Cpu.execCps (c : Cpu) (d : Decoded) : Cpu :=
  if d.imm.getLsbD 1 then
    { c with primask := c.primask.set c.secState (if d.imm.getLsbD 4 then 1 else 0) }
  else c

def Cpu.execWfe (c : Cpu) : Cpu :=
  if c.eventReg then { c with eventReg := false } else { c with sleeping := true }

namespace Execute

variable {δ : Type u} (env : Env δ)

/-- The bit field `[lsb, lsb + width)` of `UBFX` and `SBFX`. -/
def fieldLsb (d : Decoded) : Nat :=
  ((d.raw >>> 12 &&& 0x7) <<< 2 ||| (d.raw >>> 6 &&& 0x3)).toNat

def fieldWidth (d : Decoded) : Nat := (d.raw &&& 0x1f).toNat + 1

/-- The most significant bit that `BFI` and `BFC` name. -/
def fieldMsb (d : Decoded) : Nat := (d.raw &&& 0x1f).toNat

def regList (mask : Word) : List Reg := (List.finRange 16).filter fun i => mask.getLsbD i

/-- `POP` and `PUSH` encode `r0` to `r7`, and `PC` or `LR` by bit 8. -/
def lowRegList (mask : Word) : List Reg :=
  (List.finRange 16).filter fun i => i < 8 && mask.getLsbD i

def branchTo (m : Machine δ) (target : Word) : Outcome δ := (.ok, m.setReg 15 (target ||| 1))

def data (m : Machine δ) (res : DataResult) : Outcome δ :=
  (.ok, { m with cpu := m.cpu.withData res })

def dataOf (m : Machine δ) (f : FetchResult) (d : Decoded) : DataResult :=
  DataProc.dataProc d m.it.remaining f.pcFetch m.cpu.r m.cpu.xpsr

def dataOrSp (m : Machine δ) (f : FetchResult) (d : Decoded) : Outcome δ :=
  let m := (data m (dataOf m f d)).2
  if d.rd = 13 then m.setSp env f (m.cpu.r 13) else (.ok, m)

/-- `ADD` and `SUB` of the stack pointer and an immediate. -/
def spPlus (m : Machine δ) (f : FetchResult) (d : Decoded) (imm : Word) : Outcome δ :=
  if d.rd = 13 then m.setSp env f (m.cpu.getActiveSp + imm)
  else (.ok, m.setReg d.rd (m.cpu.r 13 + imm))

def execIt (m : Machine δ) (d : Decoded) : Outcome δ :=
  let raw := d.imm.setWidth 8
  (.ok, { m with it := ItState.decode raw, cpu := { m.cpu with xpsr := ItState.set m.cpu.xpsr raw } })

def execBx (m : Machine δ) (f : FetchResult) (d : Decoded) : Outcome δ :=
  let target := m.cpu.r d.rm
  if d.rm = 14 ∧ isExcReturn target = true then (.ok, m.excReturn env target)
  else if target &&& 0xF0000000 = 0xF0000000 then branchTo m target
  else if d.rm = 14 ∧ m.cpu.secState = .nonsecure ∧ target = Cpu.tzRetLrSentinel then
    match m.cpu.tz.pop.1 with
    | some rec =>
      let m := { m with cpu := m.cpu.tzReturn rec }.record (.tzReturn rec.sec)
      m.setSp env f m.cpu.getActiveSp
    | none => branchTo m target
  else branchTo m target

def execSg (m : Machine δ) (f : FetchResult) : Outcome δ :=
  match m.cpu.secState with
  | .nonsecure => (.ok, { m with cpu := m.cpu.tzExecSg }.record (.sg f.pcFetch))
  | .secure => (.ok, m)

def execBlxns (m : Machine δ) (f : FetchResult) (d : Decoded) : Outcome δ :=
  (.ok, { m with cpu := m.cpu.tzExecBlxns (m.cpu.r d.rm) (f.pcFetch + d.len.setWidth 32) }.record
    (.call m.cpu.secState))

def bitField (m : Machine δ) (f : FetchResult) (d : Decoded) (bad : Bool) (res : Word) : Outcome δ :=
  if bad then (.cont, m.usageFault env f (1#32 <<< 16)) else (.ok, m.setReg d.rd res)

def execBfx (m : Machine δ) (f : FetchResult) (d : Decoded) (extract : Word → Nat → Nat → Word) :
    Outcome δ :=
  let lsb := fieldLsb d
  let width := fieldWidth d
  bitField env m f d (d.rd = 15 || d.rn = 15 || 32 ≤ lsb || width = 0 || 32 < lsb + width)
    (extract (m.cpu.r d.rn) lsb width)

def execBfi (m : Machine δ) (f : FetchResult) (d : Decoded) : Outcome δ :=
  let lsb := fieldLsb d
  let width := fieldMsb d - lsb + 1
  bitField env m f d
    (fieldMsb d < lsb || d.rd = 15 || d.rn = 15 || 32 ≤ lsb || width = 0 || 32 < lsb + width)
    (ExecHelpers.bfi (m.cpu.r d.rd) (m.cpu.r d.rn) lsb width)

/-- `BFC` has no source register to check. -/
def execBfc (m : Machine δ) (f : FetchResult) (d : Decoded) : Outcome δ :=
  let lsb := fieldLsb d
  let width := fieldMsb d - lsb + 1
  bitField env m f d
    (fieldMsb d < lsb || d.rd = 15 || 32 ≤ lsb || width = 0 || 32 < lsb + width)
    (ExecHelpers.bfc (m.cpu.r d.rd) lsb width)

/-- `UDIV` and `SDIV`: division by zero gives zero unless `CCR.DIV_0_TRP` is set. -/
def execDiv (m : Machine δ) (f : FetchResult) (d : Decoded) (div : Word → Word → Word) : Outcome δ :=
  let divisor := m.cpu.r d.rm
  if divisor = 0 then
    if m.world.scs.ccr.getLsbD 4 then (.cont, m.usageFault env f Machine.ufsrDivbyzero)
    else (.ok, m.setReg d.rd 0)
  else (.ok, m.setReg d.rd (div (m.cpu.r d.rn) divisor))

/-- `mm_table_branch_target`: the entry that a table branch reads, and where it was looked up. -/
def tableEntry (w : World δ) (sec : SecState) (rnVal rmVal : Word) (isTbh : Bool) :
    Word × Option Word × World δ :=
  let addr := rnVal + if isTbh then rmVal <<< 1 else rmVal
  if isTbh then
    let (v, w) := w.read env sec addr 2
    (addr, v.map (· &&& 0xffff), w)
  else
    let (v, w) := w.read8 env sec addr
    (addr, v.map (·.setWidth 32), w)

def tableBase (m : Machine δ) (f : FetchResult) (d : Decoded) : Word :=
  if d.rn = 15 then (f.pcFetch + 4) &&& ~~~1#32 else m.cpu.r d.rn

def tableTarget (f : FetchResult) (entry : Word) : Word :=
  (((f.pcFetch + 4) &&& ~~~1#32) + entry * 2) ||| 1

def execTableBranch (m : Machine δ) (f : FetchResult) (d : Decoded) : Outcome δ :=
  match tableEntry env m.world m.cpu.secState (tableBase m f d) (m.cpu.r d.rm) (d.kind = .tbh) with
  | (_, some entry, w) => (.cont, (m.withWorld w).handlePcWrite env (tableTarget f entry))
  | (addr, none, w) => (.cont, (m.withWorld w).memFault env f addr false)

def execMrs (m : Machine δ) (d : Decoded) : Outcome δ :=
  if d.rd = 15 then (.ok, m) else (.ok, m.setReg d.rd (m.cpu.readSpecial (d.imm &&& 0xff)))

def loadWord (m : Machine δ) (f : FetchResult) (d : Decoded) (addr : Word) (isExec : Bool) :
    Outcome δ :=
  m.load env f addr 4 isExec fun val m =>
    if d.rd = 15 then (.cont, m.handlePcWrite env val) else (.ok, m.setReg d.rd val)

def offsetAddr (m : Machine δ) (d : Decoded) (mask : Word) : Word :=
  m.cpu.r d.rn + m.cpu.r d.rm <<< (d.imm &&& mask)

def loadPart (m : Machine δ) (f : FetchResult) (d : Decoded) (addr size : Word)
    (ext : Word → Word) : Outcome δ :=
  m.load env f addr size false fun val m => (.ok, m.setReg d.rd (ext val))

def extSb (val : Word) : Word := if val.getLsbD 7 then val ||| 0xffffff80 else val &&& 0xff

def extSh (val : Word) : Word := if val.getLsbD 15 then val ||| 0xffff0000 else val

def storePart (m : Machine δ) (f : FetchResult) (addr size value : Word) : Outcome δ :=
  m.store env f addr size value fun m => (.ok, m)

/-- `LDR` with write-back, through the PC write where the PC is loaded. -/
def loadWriteBack (m : Machine δ) (f : FetchResult) (d : Decoded) (addr newRn : Word) : Outcome δ :=
  m.load env f addr 4 false fun val m =>
    let m := if d.rd = 15 then m.handlePcWrite env val else m.setReg d.rd val
    m.setRegOrSp env f d.rn newRn

def loadByteWriteBack (m : Machine δ) (f : FetchResult) (d : Decoded) (addr newRn : Word) :
    Outcome δ :=
  m.load env f addr 1 false fun val m =>
    (m.setReg d.rd (val &&& 0xff)).setRegOrSp env f d.rn newRn

def storeWriteBack (m : Machine δ) (f : FetchResult) (d : Decoded) (addr size newRn : Word) :
    Outcome δ :=
  m.store env f addr size (m.cpu.r d.rd) fun m => m.setRegOrSp env f d.rn newRn

/-- The halfword forms write their base register back directly, even if it is the stack
pointer. -/
def loadHalfWriteBack (m : Machine δ) (f : FetchResult) (d : Decoded) (addr newRn : Word) :
    Outcome δ :=
  m.load env f addr 2 false fun val m =>
    (.ok, (m.setReg d.rd (val &&& 0xffff)).setReg d.rn newRn)

def storeHalfWriteBack (m : Machine δ) (f : FetchResult) (d : Decoded) (addr newRn : Word) :
    Outcome δ :=
  m.store env f addr 2 (m.cpu.r d.rd &&& 0xffff) fun m => (.ok, m.setReg d.rn newRn)

def execLdrex (m : Machine δ) (f : FetchResult) (d : Decoded) : Outcome δ :=
  let addr := m.cpu.r d.rn
  m.load env f addr 4 false fun val m =>
    let m := if d.rd = 15 then m else m.setReg d.rd val
    (.ok, { m with cpu := m.cpu.exclSet m.cpu.secState addr 4 })

def execStrex (m : Machine δ) (f : FetchResult) (d : Decoded) : Outcome δ :=
  let addr := m.cpu.r d.rn
  let (ok, c) := m.cpu.exclCheckAndClear m.cpu.secState addr 4
  let m := { m with cpu := c }
  let result (m : Machine δ) : Outcome δ :=
    (.ok, if d.rd = 15 then m else m.setReg d.rd (if ok then 0 else 1))
  if ok then m.store env f addr 4 (m.cpu.r d.rm) result else result m

/-- `LDRD` and `STRD`: two words, then the write-back. -/
def execDual (m : Machine δ) (f : FetchResult) (d : Decoded) : Outcome δ :=
  let u := d.imm.getLsbD 31
  let imm := d.imm &&& 0x3ff
  let base := m.cpu.r d.rn
  let moved := if u then base + imm else base - imm
  let addr := if d.imm.getLsbD 29 then moved else base
  let writeBack (m : Machine δ) : Outcome δ :=
    if d.imm.getLsbD 30 then m.setRegOrSp env f d.rn moved else (.ok, m)
  if d.kind = .ldrd then
    m.load env f addr 4 false fun v1 m =>
      m.load env f (addr + 4) 4 false fun v2 m => writeBack ((m.setReg d.rd v1).setReg d.rm v2)
  else
    m.store env f addr 4 (m.cpu.r d.rd) fun m =>
      m.store env f (addr + 4) 4 (m.cpu.r d.rm) fun m => writeBack m

structure Multiple where
  regs : List Reg
  wbit : Bool
  start : Word
  written : Word

def multiple (m : Machine δ) (d : Decoded) : Multiple :=
  let regs := regList (d.imm &&& 0xffff)
  let base := m.cpu.r d.rn
  let bytes := 4 * BitVec.ofNat 32 regs.length
  let db := d.imm >>> 24 &&& 0x3 = 2
  { regs := regs
    wbit := d.imm.getLsbD 16
    start := if db then base - bytes else base
    written := if db then base - bytes else base + bytes }

/-- `MM_OP_LDM` and `MM_OP_STM`. A transfer that faults only leaves the loop. -/
def execMultiple (m : Machine δ) (f : FetchResult) (d : Decoded) : Outcome δ :=
  let b := multiple m d
  if b.regs = [] then (.ok, m)
  else
    let t := if d.kind = .ldm then m.loadRegs env f b.regs b.start
      else m.storeRegs env f b.regs b.start
    let m := t.machine
    if b.wbit && !m.done && !t.excReturnTaken then
      if d.kind = .ldm ∧ d.rn ∈ b.regs then (.ok, m)
      else
        let m := m.setReg d.rn b.written
        if d.rn = 13 then m.setSp env f (m.cpu.r 13) else (.ok, m)
    else (.ok, m)

/-- Where `PUSH` leaves the stack pointer, one word below for each register and for LR. -/
def pushSp (m : Machine δ) (d : Decoded) : Word :=
  m.cpu.getActiveSp -
    4 * BitVec.ofNat 32 ((lowRegList d.imm).length + if d.imm.getLsbD 8 then 1 else 0)

/-- The transfers of `PUSH`: the low registers, then LR in a step of its own. -/
def pushRegs (m : Machine δ) (f : FetchResult) (d : Decoded) : Machine.Transferred δ :=
  let t := m.storeRegs env f (lowRegList d.imm) (pushSp m d)
  if !t.machine.done && d.imm.getLsbD 8 then
    let lr := t.machine.storeRegs env f [14] t.addr
    { lr with refused := t.refused.or lr.refused }
  else t

/-- `MM_OP_PUSH`. A transfer that faults only leaves its loop. -/
def execPush (m : Machine δ) (f : FetchResult) (d : Decoded) : Outcome δ :=
  let t := pushRegs env m f d
  if t.machine.done then (.ok, t.machine) else t.machine.setSp env f (pushSp m d)

def popList (d : Decoded) : List Reg := lowRegList d.imm ++ if d.imm.getLsbD 8 then [15] else []

/-- `MM_OP_POP`. A transfer that faults only leaves the loop. -/
def execPop (m : Machine δ) (f : FetchResult) (d : Decoded) : Outcome δ :=
  let t := m.loadRegs env f (popList d) m.cpu.getActiveSp
  if t.excReturnTaken then (.ok, t.machine) else t.machine.setSp env f t.addr

def execSvc (m : Machine δ) (f : FetchResult) (d : Decoded) : Outcome δ :=
  (.ok, m.afterCall (m.toSys.enterException env Vect.svcall (f.pcFetch + d.len.setWidth 32)
    m.cpu.xpsr))

end Execute

open Execute

variable {δ : Type u} (env : Env δ)

/-- `mm_execute_decoded`. -/
def executeDecoded (f : FetchResult) (d : Decoded) (m : Machine δ) : Outcome δ :=
  let c := m.cpu
  match d.kind with
  | .it => execIt m d
  | .nop | .dsb | .dmb | .isb | .yield => (.ok, m)
  | .bUncond | .bUncondWide => branchTo m (f.pcFetch + 4 + d.imm)
  | .bCond | .bCondWide =>
    if condPassed (.ofXpsr c.xpsr) d.cond then branchTo m (f.pcFetch + 4 + d.imm) else (.ok, m)
  | .cbz => if c.r d.rn = 0 then branchTo m (f.pcFetch + 4 + d.imm) else (.ok, m)
  | .cbnz => if c.r d.rn = 0 then (.ok, m) else branchTo m (f.pcFetch + 4 + d.imm)
  | .bx => execBx env m f d
  | .blx => branchTo (m.setReg 14 ((f.pcFetch + d.len.setWidth 32) ||| 1)) (c.r d.rm)
  | .sg => execSg m f
  | .bxns => (.ok, { m with cpu := c.tzExecBxns (c.r d.rm) })
  | .blxns => execBlxns m f d
  | .bl => branchTo (m.setReg 14 ((f.pcFetch + 4) ||| 1)) (f.pcFetch + 4 + d.imm)
  | .addImm | .subImm | .subImmNf => dataOrSp env m f d
  | .addSpImm => spPlus env m f d d.imm
  | .subSpImm => spPlus env m f d (-d.imm)
  | .movReg =>
    if d.rd = 15 then (.ok, m.handlePcWrite env (c.r d.rm)) else m.setRegOrSp env f d.rd (c.r d.rm)
  | .ubfx => execBfx env m f d ExecHelpers.ubfx
  | .sbfx => execBfx env m f d ExecHelpers.sbfx
  | .bfi => execBfi env m f d
  | .bfc => execBfc env m f d
  | .udiv => execDiv env m f d (· / ·)
  | .sdiv => execDiv env m f d BitVec.sdiv
  | .tbb | .tbh => execTableBranch env m f d
  | .mrs => execMrs m d
  | .msr => (.ok, { m with cpu := c.execMsr d })
  | .cps => (.ok, { m with cpu := c.execCps d })
  | .bkpt => (.ok, if env.optGdb then m else { m with done := true })
  | .ldrLiteral => loadWord env m f d (((f.pcFetch + 4) &&& ~~~3#32) + d.imm) true
  | .ldrImm => loadWord env m f d (c.r d.rn + d.imm) false
  | .ldrReg => loadWord env m f d (offsetAddr m d 0x3) false
  | .ldrex => execLdrex env m f d
  | .clrex => (.ok, { m with cpu := c.exclClear })
  | .strex => execStrex env m f d
  | .strImm => storePart env m f (c.r d.rn + d.imm) 4 (c.r d.rd)
  | .strReg => storePart env m f (offsetAddr m d 0x3) 4 (c.r d.rd)
  | .ldrPostImm => loadWriteBack env m f d (c.r d.rn) (c.r d.rn + d.imm)
  | .ldrPreImm => loadWriteBack env m f d (c.r d.rn + d.imm) (c.r d.rn + d.imm)
  | .ldrbPostImm => loadByteWriteBack env m f d (c.r d.rn) (c.r d.rn + d.imm)
  | .ldrbPreImm => loadByteWriteBack env m f d (c.r d.rn + d.imm) (c.r d.rn + d.imm)
  | .strbPostImm => storeWriteBack env m f d (c.r d.rn) 1 (c.r d.rn + d.imm)
  | .strbPreImm => storeWriteBack env m f d (c.r d.rn + d.imm) 1 (c.r d.rn + d.imm)
  | .strPostImm => storeWriteBack env m f d (c.r d.rn) 4 (c.r d.rn + d.imm)
  | .strPreImm => storeWriteBack env m f d (c.r d.rn + d.imm) 4 (c.r d.rn + d.imm)
  | .strbReg => storePart env m f (offsetAddr m d 0x1f) 1 (c.r d.rd)
  | .ldrbReg => loadPart env m f d (offsetAddr m d 0x1f) 1 (· &&& 0xff)
  | .ldrbImm => loadPart env m f d (c.r d.rn + d.imm) 1 (· &&& 0xff)
  | .ldrsbImm => loadPart env m f d (c.r d.rn + d.imm) 1 extSb
  | .ldrshImm => loadPart env m f d (c.r d.rn + d.imm) 2 extSh
  | .ldrshReg => loadPart env m f d (offsetAddr m d 0x3) 2 extSh
  | .strbImm => storePart env m f (c.r d.rn + d.imm) 1 (c.r d.rd)
  | .ldrhImm => loadPart env m f d (c.r d.rn + d.imm) 2 (· &&& 0xffff)
  | .ldrhPreImm => loadHalfWriteBack env m f d (c.r d.rn + d.imm) (c.r d.rn + d.imm)
  | .ldrhPostImm => loadHalfWriteBack env m f d (c.r d.rn) (c.r d.rn + d.imm)
  | .ldrhReg => loadPart env m f d (offsetAddr m d 0x3) 2 (· &&& 0xffff)
  | .ldrsbReg => loadPart env m f d (c.r d.rn + c.r d.rm) 1 extSb
  | .strhImm => storePart env m f (c.r d.rn + d.imm) 2 (c.r d.rd &&& 0xffff)
  | .strhPreImm => storeHalfWriteBack env m f d (c.r d.rn + d.imm) (c.r d.rn + d.imm)
  | .strhPostImm => storeHalfWriteBack env m f d (c.r d.rn) (c.r d.rn + d.imm)
  | .strhReg => storePart env m f (offsetAddr m d 0x3) 2 (c.r d.rd &&& 0xffff)
  | .ldrd | .strd => execDual env m f d
  | .stm | .ldm => execMultiple env m f d
  | .wfi => (.ok, { m with cpu := { c with sleeping := true } })
  | .wfe => (.ok, { m with cpu := c.execWfe })
  | .sev => (.ok, { m with cpu := { c with eventReg := true } })
  | .svc => execSvc env m f d
  | .push => execPush env m f d
  | .pop => execPop env m f d
  | .undefined | .udf => (.cont, m.usageFault env f (1#32 <<< 16))
  | _ => data m (dataOf m f d)

end M33mu
