import M33mu.Lib.Bits
import M33mu.ScsMmio

/-!
Attribution of addresses by the MPCBB blocks and the SAU, the MPU's execute-never check, and
`mm_prot_interceptor`, which decides every access from them and from a list of regions.
-/

namespace M33mu

open Lib

inductive SauAttr
  | secure
  | nonsecure
  | nsc
  deriving DecidableEq, Repr

namespace Sau

def regionMatches (rbar rlar addr : Word) : Bool :=
  rlar.getLsbD 0 && rbar &&& ~~~0x1F#32 ≤ addr && addr ≤ (rlar &&& ~~~0x1F#32) ||| 0x1F#32

/-- The highest-numbered matching region has priority. -/
def matchIndex (scs : Scs) (addr : Word) : Option (Fin 8) :=
  [7, 6, 5, 4, 3, 2, 1, 0].find? fun i => regionMatches (scs.sauRbar i) (scs.sauRlar i) addr

def attrForAddr (scs : Scs) (addr : Word) : SauAttr :=
  if scs.sauCtrl.getLsbD 0 then
    match matchIndex scs addr with
    | some i => if (scs.sauRlar i).getLsbD 1 then .nsc else .nonsecure
    | none => if scs.sauCtrl.getLsbD 1 then .nonsecure else .secure
  else .secure

theorem attrForAddr_congr {scs scs' : Scs} (ctrl : scs'.sauCtrl = scs.sauCtrl)
    (rbar : scs'.sauRbar = scs.sauRbar) (rlar : scs'.sauRlar = scs.sauRlar) :
    attrForAddr scs' = attrForAddr scs := by
  funext addr
  simp only [attrForAddr, matchIndex, ctrl, rbar, rlar]

end Sau

namespace Mpu

def regionContains (rb rl addr : Word) : Bool :=
  let base := rb &&& 0xFFFFFFE0
  let limit := rl &&& 0xFFFFFFE0
  rl.getLsbD 0 && base ≤ limit && base ≤ addr && addr ≤ limit ||| 0x1F

/-- The last matching region of the bank of `sec`, as its `RBAR` and `RLAR`. -/
def regionLookup (scs : Scs) (sec : SecState) (addr : Word) : Option (Word × Word) :=
  if (scs.mpuCtrl.get sec).getLsbD 0 then
    ([7, 6, 5, 4, 3, 2, 1, 0].find? fun i =>
      regionContains (scs.mpuRbar.get sec i) (scs.mpuRlar.get sec i) addr).map fun i =>
        (scs.mpuRbar.get sec i, scs.mpuRlar.get sec i)
  else none

def isXnExec (scs : Scs) (sec : SecState) (addr : Word) : Bool :=
  match regionLookup scs sec addr with
  | some (rbar, _) => rbar.getLsbD 0
  | none => false

end Mpu

structure RamRegion where
  baseS : Word
  baseNs : Word
  size : Word
  /-- `-1` where no MPCBB protects the region. -/
  mpcbbIndex : Int
  deriving DecidableEq, Repr

/-- The part of `mm_target_cfg` that the memory map and the protection layer read. -/
structure TargetCfg where
  flashBaseS : Word
  flashSizeS : Word
  flashBaseNs : Word
  flashSizeNs : Word
  ramBaseS : Word
  ramSizeS : Word
  ramBaseNs : Word
  ramSizeNs : Word
  ramRegions : List RamRegion
  mpcbbBlockSize : Word
  deriving DecidableEq, Repr

structure ProtRegion where
  base : Word
  size : Word
  perms : Byte
  sec : SecState
  deriving DecidableEq, Repr

def ProtRegion.max : Nat := 16

structure ProtCtx where
  regions : List ProtRegion
  cfg : TargetCfg
  deriving DecidableEq, Repr

namespace Prot

def permRead : Byte := 1

def permWrite : Byte := 2

def permExec : Byte := 4

def addRegion (ctx : ProtCtx) (base size : Word) (perms : Byte) (sec : SecState) :
    Bool × ProtCtx :=
  if ProtRegion.max ≤ ctx.regions.length ∨ size = 0 then (false, ctx)
  else (true, { ctx with regions := ctx.regions ++ [⟨base, size, perms, sec⟩] })

/-- The regions `main` registers: flash, RAM and the peripheral space, for both states. -/
def ofCfg (cfg : TargetCfg) : ProtCtx :=
  let perms := permRead ||| permWrite ||| permExec
  let ram (baseS sizeS baseNs sizeNs : Word) : List ProtRegion :=
    [⟨baseS, sizeS, perms, .secure⟩, ⟨baseNs, sizeNs, perms, .nonsecure⟩]
  let regions :=
    [⟨cfg.flashBaseS, cfg.flashSizeS, perms, .secure⟩,
      ⟨cfg.flashBaseNs, cfg.flashSizeNs, perms, .nonsecure⟩] ++
    (if cfg.ramRegions ≠ [] then
      cfg.ramRegions.flatMap fun r => ram r.baseS r.size r.baseNs r.size
    else ram cfg.ramBaseS cfg.ramSizeS cfg.ramBaseNs cfg.ramSizeNs) ++
    [⟨0x40000000, 0x20000000, permRead ||| permWrite, .secure⟩,
      ⟨0x40000000, 0x20000000, permRead ||| permWrite, .nonsecure⟩]
  regions.foldl (fun ctx r => (addRegion ctx r.base r.size r.perms r.sec).2) ⟨[], cfg⟩

/-- `cfg->mpcbb_block_secure`, where the target has one. -/
abbrev BlockSecure := Option (Int → Word → Bool)

def blockOf (cfg : TargetCfg) (r : RamRegion) (addr : Word) : Option (Int × Word) :=
  if r.baseS ≤ addr ∧ addr - r.baseS < r.size then
    some (r.mpcbbIndex, (addr - r.baseS) / cfg.mpcbbBlockSize)
  else if r.baseNs ≤ addr ∧ addr - r.baseNs < r.size then
    some (r.mpcbbIndex, (addr - r.baseNs) / cfg.mpcbbBlockSize)
  else none

def mpcbbAttrForAddr (ctx : ProtCtx) (blockSecure : BlockSecure) (addr : Word) :
    Option SauAttr :=
  match blockSecure with
  | none => none
  | some f =>
    if ctx.cfg.mpcbbBlockSize = 0 then none
    else
      (ctx.cfg.ramRegions.findSome? fun r => blockOf ctx.cfg r addr).map fun (bank, block) =>
        if f bank block then .secure else .nonsecure

/-- Attribution of one address: by the MPCBB inside a configured RAM region, else by the SAU. -/
def attrForAddr (ctx : ProtCtx) (blockSecure : BlockSecure) (scs : Scs) (addr : Word) :
    SauAttr :=
  match mpcbbAttrForAddr ctx blockSecure addr with
  | some attr => attr
  | none => Sau.attrForAddr scs addr

def rangeContains (r : ProtRegion) (addr size : Word) : Bool :=
  size != 0 && r.base ≤ addr && (addr - r.base) + size ≤ r.size

def sfsrInvep : Word := 1#32 <<< 0

def sfsrAuviol : Word := 1#32 <<< 3

def sfsrSfarvalid : Word := 1#32 <<< 6

def recordSecurefault (scs : Scs) (type : AccessType) (addr : Word) : Scs :=
  let bits := sfsrSfarvalid ||| match type with
    | .exec => sfsrInvep
    | _ => sfsrAuviol
  { scs with sauSfsr := scs.sauSfsr ||| bits, sauSfar := addr, securefaultPending := true }

def recordMemfault (scs : Scs) (sec : SecState) (type : AccessType) (addr : Word) : Scs :=
  let bits : Word := match type with
    | .exec => 0x1
    | _ => 0x2
  { scs with
    cfsr := (scs.cfsr &&& ~~~0x00010000#32) ||| (bits ||| 1#32 <<< 7)
    mmfar := addr
    shcsr := scs.shcsr.set sec (scs.shcsr.get sec ||| 0x1) }

/-- The windows that are always allowed. -/
def isSystemControl (addr : Word) : Bool :=
  (0xE000E000 ≤ addr && addr < 0xE0010000) || (0xE002E000 ≤ addr && addr < 0xE0030000) ||
    (0x00E00000 ≤ addr && addr < 0x00E10000)

def admits (type : AccessType) : SauAttr → Bool
  | .secure => false
  | .nonsecure => true
  | .nsc => type == .exec

def needed : AccessType → Byte
  | .read => permRead
  | .write => permWrite
  | .exec => permExec

def addrSec : SauAttr → SecState
  | .nonsecure => .nonsecure
  | _ => .secure

/-- The first region that contains the access and has its security decides by permissions. -/
def regionAllows (ctx : ProtCtx) (type : AccessType) (ignoreAddrSec : Bool) (sec : SecState)
    (addr size : Word) : Bool :=
  match ctx.regions.find? fun r => rangeContains r addr size && (ignoreAddrSec || r.sec == sec) with
  | some r => r.perms &&& needed type != 0
  | none => false

/-- `mm_prot_interceptor`: whether the access is granted, and the SCS after it. -/
def interceptor (ctx : ProtCtx) (blockSecure : BlockSecure) (scs : Scs) (type : AccessType)
    (sec : SecState) (addr size : Word) : Bool × Scs :=
  if isSystemControl addr then (true, { scs with lastAccessSec := sec })
  else
    let attr := attrForAddr ctx blockSecure scs addr
    if sec = .nonsecure ∧ admits type attr = false then
      (false, recordMemfault (recordSecurefault scs type addr) sec type addr)
    else if type = .exec ∧ Mpu.isXnExec scs sec addr = true then
      (false, recordMemfault scs sec type addr)
    else
      let ignoreAddrSec := sec = .secure && type != .exec
      if regionAllows ctx type ignoreAddrSec (addrSec attr) addr size then (true, scs)
      else (false, recordMemfault scs sec type addr)

end Prot

end M33mu
