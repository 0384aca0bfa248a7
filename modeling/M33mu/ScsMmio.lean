import M33mu.Scs

/-!
Register reads and writes of the two SCS windows, `scs_read` and `scs_write`. The window of
an access is the security state of its MMIO context; the initiator is `lastAccessSec`.
-/

namespace M33mu

structure ScsBlock where
  scs : Scs
  nvic : Nvic
  sauLayout : SauLayout
  /-- Set by `mm_system_request_reset`. -/
  resetPending : Bool

inductive NvicFile
  | iser
  | icer
  | ispr
  | icpr
  | iabr
  | itns
  deriving DecidableEq, Repr

namespace NvicFile

def base : NvicFile → Word
  | .iser => 0x100
  | .icer => 0x180
  | .ispr => 0x200
  | .icpr => 0x280
  | .iabr => 0x300
  | .itns => 0x380

def wordAt (file : NvicFile) (words : Nat) (aligned : Word) : Option MaskWord :=
  if file.base ≤ aligned ∧ (aligned - file.base).toNat < 4 * words then
    let idx := (aligned - file.base).toNat / 4
    if h : idx < 4 then some ⟨idx, h⟩ else none
  else none

def find (files : List NvicFile) (words : Nat) (aligned : Word) : Option (NvicFile × MaskWord) :=
  files.findSome? fun file => (file.wordAt words aligned).map fun idx => (file, idx)

/-- Reads reach two words of each file. -/
def readable (aligned : Word) : Option (NvicFile × MaskWord) :=
  find [.iser, .icer, .ispr, .icpr, .iabr, .itns] 2 aligned

/-- Writes reach all four words; IABR is not writable. -/
def writable (aligned : Word) : Option (NvicFile × MaskWord) :=
  find [.iser, .icer, .ispr, .icpr, .itns] 4 aligned

def word (n : Nvic) (sec : SecState) (idx : MaskWord) : NvicFile → Word
  | .iser | .icer => n.enableMask idx
  | .ispr | .icpr => n.pendingMask idx
  | .iabr => n.activeMask idx
  | .itns =>
    match sec with
    | .secure => n.itnsMask idx
    | .nonsecure => 0

/-- The index under which a Non-secure read looks up its ITNS mask: every file but ITNS
counts from the base of ISER. -/
def maskIndex (aligned : Word) : NvicFile → Nat
  | .itns => (aligned - 0x380).toNat / 4
  | _ => (aligned - 0x100).toNat / 4

def readMask (n : Nvic) (sec : SecState) (aligned : Word) (file : NvicFile) (w : Word) : Word :=
  match sec with
  | .secure => w
  | .nonsecure =>
    if h : file.maskIndex aligned < 4 then w &&& n.itnsMask ⟨file.maskIndex aligned, h⟩ else w

def writeMask (n : Nvic) (sec : SecState) (idx : MaskWord) (v : Word) : Word :=
  match sec with
  | .secure => v
  | .nonsecure => v &&& n.itnsMask idx

def write (n : Nvic) (sec : SecState) (idx : MaskWord) (value : Word) : NvicFile → Nvic
  | .iser =>
    { n with enableMask :=
        Function.update n.enableMask idx (n.enableMask idx ||| writeMask n sec idx value) }
  | .icer =>
    { n with enableMask :=
        Function.update n.enableMask idx (n.enableMask idx &&& ~~~writeMask n sec idx value) }
  | .ispr =>
    { n with pendingMask :=
        Function.update n.pendingMask idx (n.pendingMask idx ||| writeMask n sec idx value) }
  | .icpr =>
    { n with pendingMask :=
        Function.update n.pendingMask idx (n.pendingMask idx &&& ~~~writeMask n sec idx value) }
  | .iabr => n
  | .itns =>
    match sec with
    | .secure => { n with itnsMask := Function.update n.itnsMask idx value }
    | .nonsecure => n

end NvicFile

namespace Nvic

/-- Priorities past the last interrupt read as `0xff`. -/
def priorityAt (n : Nvic) (idx : Nat) : Byte :=
  if h : idx < maxIrq then n.priority ⟨idx, h⟩ else 0xff

def setPriorityAt (n : Nvic) (idx : Nat) (p : Byte) : Nvic :=
  if h : idx < maxIrq then { n with priority := Function.update n.priority ⟨idx, h⟩ p } else n

def byteOf (w : Word) (i : Nat) : Byte := (w >>> (8 * i)).setWidth 8

def iprRead (n : Nvic) (offset size : Word) : Word :=
  let idx := (offset - 0x400).toNat
  if size = 1 then (n.priorityAt idx).setWidth 32
  else if size = 4 ∧ idx % 4 = 0 then
    (n.priorityAt (idx + 3) ++ n.priorityAt (idx + 2) ++ n.priorityAt (idx + 1) ++
      n.priorityAt idx)
  else 0

def iprWrite (n : Nvic) (offset size value : Word) : Nvic :=
  let idx := (offset - 0x400).toNat
  if size = 1 then n.setPriorityAt idx (byteOf value 0)
  else if size = 4 ∧ idx % 4 = 0 then
    (((n.setPriorityAt idx (byteOf value 0)).setPriorityAt (idx + 1) (byteOf value 1)).setPriorityAt
      (idx + 2) (byteOf value 2)).setPriorityAt (idx + 3) (byteOf value 3)
  else n

theorem setPriorityAt_masks (n : Nvic) (i : Nat) (p : Byte) :
    (n.setPriorityAt i p).enableMask = n.enableMask ∧
      (n.setPriorityAt i p).pendingMask = n.pendingMask ∧
      (n.setPriorityAt i p).activeMask = n.activeMask ∧
      (n.setPriorityAt i p).itnsMask = n.itnsMask := by
  rw [setPriorityAt]
  split <;> exact ⟨rfl, rfl, rfl, rfl⟩

theorem iprWrite_masks (n : Nvic) (offset size v : Word) :
    (n.iprWrite offset size v).enableMask = n.enableMask ∧
      (n.iprWrite offset size v).pendingMask = n.pendingMask ∧
      (n.iprWrite offset size v).activeMask = n.activeMask ∧
      (n.iprWrite offset size v).itnsMask = n.itnsMask := by
  rw [iprWrite]
  split
  · exact setPriorityAt_masks _ _ _
  · split
    · simp only [setPriorityAt_masks, and_self]
    · exact ⟨rfl, rfl, rfl, rfl⟩

end Nvic

inductive SysTickReg
  | ctrl
  | load
  | val
  | calib
  deriving DecidableEq, Repr

def SysTickReg.ofOffset (aligned : Word) : Option SysTickReg :=
  if aligned = 0x10 then some .ctrl
  else if aligned = 0x14 then some .load
  else if aligned = 0x18 then some .val
  else if aligned = 0x1C then some .calib
  else none

/-- The implemented registers of the SCB window, by their offset from `0xE000ED00`. The SAU
slots from `0xD8` on are shared by two layouts and keep their offset as a name. -/
inductive ScbReg
  | cpuid | icsr | vtor | aircr | scr | ccr | shpr1 | shpr2 | shpr3 | shcsr
  | cfsr | hfsr | dfsr | mmfar | bfar | afsr
  | mpuType | mpuCtrl | mpuRnr | mpuRbar | mpuRlar | mpuMair0 | mpuMair1
  | sauType | sauCtrl | sauRnr | sauD8 | sauDC | sauE0 | sauE4 | sauE8
  deriving DecidableEq, Repr

def ScbReg.table : List (Word × ScbReg) :=
  [(0x0, .cpuid), (0x4, .icsr), (0x8, .vtor), (0xC, .aircr), (0x10, .scr), (0x14, .ccr),
   (0x18, .shpr1), (0x1C, .shpr2), (0x20, .shpr3), (0x24, .shcsr), (0x28, .cfsr),
   (0x2C, .hfsr), (0x30, .dfsr), (0x34, .mmfar), (0x38, .bfar), (0x3C, .afsr),
   (0x90, .mpuType), (0x94, .mpuCtrl), (0x98, .mpuRnr), (0x9C, .mpuRbar), (0xA0, .mpuRlar),
   (0xC0, .mpuMair0), (0xC4, .mpuMair1), (0xCC, .sauType), (0xD0, .sauCtrl), (0xD4, .sauRnr),
   (0xD8, .sauD8), (0xDC, .sauDC), (0xE0, .sauE0), (0xE4, .sauE4), (0xE8, .sauE8)]

def ScbReg.ofOffset (off : Word) : Option ScbReg := ScbReg.table.lookup off

def scsPageSize : Word := 0x1000

def scsScbOffset : Word := 0x0D00

namespace ScsBlock

/-- `eff_sec`: the Secure window banks by the initiator of the access. -/
def effSec (b : ScsBlock) : SecState → SecState
  | .secure => b.scs.lastAccessSec
  | .nonsecure => .nonsecure

/-- The common tail `done_subword` of a register read. -/
def subword (offset size val : Word) : Option Word :=
  let shift := (offset &&& 0x3).toNat * 8
  if size = 1 then some ((val >>> shift) &&& 0xFF)
  else if size = 2 then some ((val >>> shift) &&& 0xFFFF)
  else if size = 4 then some val
  else none

def systickRead (b : ScsBlock) : SysTickReg → Word × ScsBlock
  | .ctrl =>
    ((b.scs.systickCtrl &&& 0x7) ||| if b.scs.systickCountflag then 1#32 <<< 16 else 0,
      { b with scs := { b.scs with systickCountflag := false } })
  | .load => (b.scs.systickLoad, b)
  | .val => (b.scs.systickVal, b)
  | .calib => (b.scs.systickCalib, b)

/-- A word of all ones counts as "no NVIC register here" and reads as zero. -/
def nvicRead (b : ScsBlock) (eff : SecState) (offset size : Word) : Option Word :=
  let aligned := offset &&& ~~~3#32
  let ipr := if 0x400 ≤ offset ∧ offset < 0x500 then b.nvic.iprRead offset size else 0
  match NvicFile.readable aligned with
  | none => some ipr
  | some (file, idx) =>
    let word := file.word b.nvic eff idx
    if word = 0xffffffff then some ipr
    else subword offset size (file.readMask b.nvic eff aligned word)

/-- SAU registers are Secure-only and read as zero from Non-secure state. -/
def sauRead (eff : SecState) (v : Word) : Word :=
  match eff with
  | .secure => v
  | .nonsecure => 0

def sauSlot (b : ScsBlock) (legacy modern : Word) : Word :=
  if b.sauLayout = .legacy then legacy else modern

def scbRead (b : ScsBlock) (win eff : SecState) : ScbReg → Word
  | .cpuid => b.scs.cpuid
  | .icsr =>
    b.scs.icsr.get win ||| (if b.scs.pendSv then 1#32 <<< 28 else 0) |||
      (if b.scs.pendSt then 1#32 <<< 26 else 0)
  | .vtor => b.scs.vtor.get eff
  | .aircr => b.scs.aircr.get eff
  | .scr => b.scs.scr.get eff
  | .ccr => b.scs.ccr
  | .shpr1 => b.scs.shpr1.get eff
  | .shpr2 => b.scs.shpr2.get eff
  | .shpr3 => b.scs.shpr3.get eff
  | .shcsr => b.scs.shcsr.get eff
  | .cfsr => b.scs.cfsr
  | .hfsr => b.scs.hfsr
  | .dfsr => b.scs.dfsr
  | .mmfar => b.scs.mmfar
  | .bfar => b.scs.bfar
  | .afsr => b.scs.afsr
  | .mpuType => b.scs.mpuType
  | .mpuCtrl => b.scs.mpuCtrl.get eff
  | .mpuRnr => b.scs.mpuRnr.get eff
  | .mpuRbar => b.scs.mpuRbar.get eff (Scs.regionIndex (b.scs.mpuRnr.get eff))
  | .mpuRlar => b.scs.mpuRlar.get eff (Scs.regionIndex (b.scs.mpuRnr.get eff))
  | .mpuMair0 => b.scs.mpuMair0.get eff
  | .mpuMair1 => b.scs.mpuMair1.get eff
  | .sauType => sauRead eff b.scs.sauType
  | .sauCtrl => sauRead eff b.scs.sauCtrl
  | .sauRnr => sauRead eff b.scs.sauRnr
  | .sauD8 => sauRead eff (b.sauSlot b.scs.sauRnr (b.scs.sauRbar (Scs.regionIndex b.scs.sauRnr)))
  | .sauDC =>
    sauRead eff (b.sauSlot (b.scs.sauRbar (Scs.regionIndex b.scs.sauRnr))
      (b.scs.sauRlar (Scs.regionIndex b.scs.sauRnr)))
  | .sauE0 => sauRead eff (b.sauSlot (b.scs.sauRlar (Scs.regionIndex b.scs.sauRnr)) b.scs.sauSfsr)
  | .sauE4 => sauRead eff (b.sauSlot b.scs.sauSfsr b.scs.sauSfar)
  | .sauE8 => sauRead eff b.scs.sauSfar

/-- `scs_read`; `none` is its `MM_FALSE`. -/
def scsRead (b : ScsBlock) (win : SecState) (offset size : Word) : Option Word × ScsBlock :=
  let eff := b.effSec win
  let aligned := offset &&& ~~~3#32
  if scsPageSize ≤ offset then (none, b)
  else if offset < scsScbOffset then
    match SysTickReg.ofOffset aligned with
    | some reg =>
      let (v, b') := b.systickRead reg
      (subword offset size v, b')
    | none => (b.nvicRead eff offset size, b)
  else
    let v := match ScbReg.ofOffset (aligned - scsScbOffset) with
      | some reg => b.scbRead win eff reg
      | none => 0
    (subword offset size v, b)

def insertSubword (offset size cur value : Word) : Word :=
  let shift := (offset &&& 0x3).toNat * 8
  let mask : Word := if size = 1 then 0xFF else 0xFFFF
  (cur &&& ~~~(mask <<< shift)) ||| ((value &&& mask) <<< shift)

def systickWrite (b : ScsBlock) (offset size value : Word) : SysTickReg → ScsBlock
  | .ctrl =>
    let v := if size = 1 ∨ size = 2 then insertSubword offset size b.scs.systickCtrl value
      else value
    { b with scs := { b.scs with systickCtrl := v &&& 0x7 } }
  | .load =>
    let shift := (offset &&& 0x3).toNat * 8
    let mask : Word := if size = 1 then 0xFF else 0xFFFF
    let v := if size = 4 then value else (value &&& mask) <<< shift
    { b with scs := { b.scs with systickLoad := v &&& 0x00FFFFFF } }
  | .val => { b with scs := { b.scs with systickVal := 0, systickCountflag := false } }
  | .calib => b

def nvicWrite (b : ScsBlock) (eff : SecState) (offset size value : Word) : ScsBlock :=
  let aligned := offset &&& ~~~3#32
  match if size = 4 then NvicFile.writable aligned else none with
  | some (file, idx) => { b with nvic := file.write b.nvic eff idx value }
  | none =>
    if 0x400 ≤ offset ∧ offset < 0x500 then { b with nvic := b.nvic.iprWrite offset size value }
    else b

def sauWrite (b : ScsBlock) (eff : SecState) (f : ScsBlock → ScsBlock) : ScsBlock :=
  match eff with
  | .secure => f b
  | .nonsecure => b

def setRegion (regs : Fin 8 → Word) (rnr v : Word) : Fin 8 → Word :=
  Function.update regs (Scs.regionIndex rnr) v

/-- `key_ok`. -/
def aircrKeyOk (w : Word) : Prop := (w >>> 16) &&& 0xFFFF = 0x05FA

instance (w : Word) : Decidable (aircrKeyOk w) := inferInstanceAs (Decidable (_ = _))

/-- The switch of `scs_write` over the SCB window, on the whole word left by the
read-modify-write. `win` is `ctx->sec` and `eff` is `eff_sec`. -/
def scbWrite (b : ScsBlock) (win eff : SecState) (value : Word) : ScbReg → Bool × ScsBlock
  | .cpuid => (true, b)
  | .icsr =>
    let sv := if value.getLsbD 28 then true else b.scs.pendSv
    let sv := if value.getLsbD 27 then false else sv
    let st := if value.getLsbD 26 then true else b.scs.pendSt
    let st := if value.getLsbD 25 then false else st
    (true, { b with scs := { b.scs with
      pendSv := sv
      pendSt := st
      icsr := b.scs.icsr.set win (value &&& ~~~(0x3#32 <<< 25)) } })
  | .vtor => (true, { b with scs := { b.scs with vtor := b.scs.vtor.set eff value } })
  | .aircr =>
    if aircrKeyOk value then
      (true, { b with
        scs := { b.scs with aircr := b.scs.aircr.set win value }
        resetPending := b.resetPending || value.getLsbD 2 })
    else (false, b)
  | .scr => (true, { b with scs := { b.scs with scr := b.scs.scr.set eff value } })
  | .ccr => (true, { b with scs := { b.scs with ccr := value } })
  | .shpr1 => (true, { b with scs := { b.scs with shpr1 := b.scs.shpr1.set eff value } })
  | .shpr2 => (true, { b with scs := { b.scs with shpr2 := b.scs.shpr2.set eff value } })
  | .shpr3 => (true, { b with scs := { b.scs with shpr3 := b.scs.shpr3.set eff value } })
  | .shcsr => (true, { b with scs := { b.scs with shcsr := b.scs.shcsr.set eff value } })
  | .cfsr => (true, { b with scs := { b.scs with cfsr := b.scs.cfsr &&& ~~~value } })
  | .hfsr => (true, { b with scs := { b.scs with hfsr := value } })
  | .dfsr => (true, { b with scs := { b.scs with dfsr := value } })
  | .mmfar => (true, { b with scs := { b.scs with mmfar := value } })
  | .bfar => (true, { b with scs := { b.scs with bfar := value } })
  | .afsr => (true, { b with scs := { b.scs with afsr := value } })
  | .mpuType => (true, b)
  | .mpuCtrl => (true, { b with scs := { b.scs with mpuCtrl := b.scs.mpuCtrl.set eff value } })
  | .mpuRnr =>
    (true, { b with scs := { b.scs with mpuRnr := b.scs.mpuRnr.set eff (value &&& 0x7) } })
  | .mpuRbar =>
    (true, { b with scs := { b.scs with
      mpuRbar := b.scs.mpuRbar.set eff
        (setRegion (b.scs.mpuRbar.get eff) (b.scs.mpuRnr.get eff) value) } })
  | .mpuRlar =>
    (true, { b with scs := { b.scs with
      mpuRlar := b.scs.mpuRlar.set eff
        (setRegion (b.scs.mpuRlar.get eff) (b.scs.mpuRnr.get eff) value) } })
  | .mpuMair0 => (true, { b with scs := { b.scs with mpuMair0 := b.scs.mpuMair0.set eff value } })
  | .mpuMair1 => (true, { b with scs := { b.scs with mpuMair1 := b.scs.mpuMair1.set eff value } })
  | .sauType => (true, b)
  | .sauCtrl => (true, b.sauWrite eff fun b => { b with scs := { b.scs with sauCtrl := value } })
  | .sauRnr =>
    (true, b.sauWrite eff fun b => { b with scs := { b.scs with sauRnr := value &&& 0x7 } })
  | .sauD8 =>
    (true, b.sauWrite eff fun b =>
      if value &&& ~~~0x7#32 = 0 then
        { b with scs := { b.scs with sauRnr := value &&& 0x7 }, sauLayout := .legacy }
      else
        { b with scs := { b.scs with sauRbar := setRegion b.scs.sauRbar b.scs.sauRnr value } })
  | .sauDC =>
    (true, b.sauWrite eff fun b =>
      if value &&& 0x1F = 0 then
        { b with
          scs := { b.scs with sauRbar := setRegion b.scs.sauRbar b.scs.sauRnr value }
          sauLayout := .legacy }
      else
        { b with scs := { b.scs with sauRlar := setRegion b.scs.sauRlar b.scs.sauRnr value } })
  | .sauE0 =>
    (true, b.sauWrite eff fun b =>
      if value ≤ 0xFF then { b with scs := { b.scs with sauSfsr := value } }
      else
        { b with
          scs := { b.scs with sauRlar := setRegion b.scs.sauRlar b.scs.sauRnr value }
          sauLayout := .legacy })
  | .sauE4 =>
    (true, b.sauWrite eff fun b =>
      if value ≤ 0xFF then
        { b with scs := { b.scs with sauSfsr := value }, sauLayout := .legacy }
      else { b with scs := { b.scs with sauSfar := value } })
  | .sauE8 =>
    (true, b.sauWrite eff fun b =>
      { b with scs := { b.scs with sauSfar := value }, sauLayout := .legacy })

/-- The word a write of the SCB window stores: sub-word writes read, modify and write back. -/
def rmwValue (b : ScsBlock) (win : SecState) (offset size value : Word) : Word :=
  if size = 1 ∨ size = 2 then
    insertSubword offset size ((b.scsRead win (offset &&& ~~~3#32) 4).1.getD 0) value
  else value

/-- `scs_write`. -/
def scsWrite (b : ScsBlock) (win : SecState) (offset size value : Word) : Bool × ScsBlock :=
  let eff := b.effSec win
  let aligned := offset &&& ~~~3#32
  if scsPageSize ≤ offset then (false, b)
  else if offset < scsScbOffset then
    match SysTickReg.ofOffset aligned with
    | some .calib | none => (true, b.nvicWrite eff offset size value)
    | some reg => (true, b.systickWrite offset size value reg)
  else if size = 1 ∨ size = 2 ∨ size = 4 then
    match ScbReg.ofOffset (aligned - scsScbOffset) with
    | some reg => b.scbWrite win eff (b.rmwValue win offset size value) reg
    | none => (true, b)
  else (false, b)

end ScsBlock

end M33mu
