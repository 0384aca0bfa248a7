import M33mu.MemProt

/-!
The memory map: flash and RAM windows over their buffers, the MMIO bus behind them, and the
protection layer in front. Every access threads the `World`, since reads have effects too.
-/

namespace M33mu

structure Memmap where
  /-- Buffer contents by offset; `none` is a null buffer. -/
  flash : Option (Word → Byte)
  flashLength : Word
  flashBase : Word
  ram : Option (Word → Byte)
  /-- `ram_regions` paired with `ram_region_offsets`. -/
  ramRegions : List (RamRegion × Word)
  ramTotalSize : Word
  flashBaseS : Word
  flashSizeS : Word
  flashBaseNs : Word
  flashSizeNs : Word
  ramBaseS : Word
  ramSizeS : Word
  ramBaseNs : Word
  ramSizeNs : Word
  /-- The installed interceptor's context. -/
  prot : Option ProtCtx

/-- Everything outside the CPU: the map, the SCS and NVIC, the emulator's globals, and the
state `dev` of the target's other peripherals. -/
structure World (δ : Type u) extends ScsBlock where
  map : Memmap
  /-- `g_mmio_active_sec`. -/
  activeSec : SecState
  /-- `g_fault_pending`. -/
  faultPending : Bool
  dev : δ

/-- A null callback of the source is one that always refuses. -/
structure MmioRegion (δ : Type u) where
  base : Word
  size : Word
  read : Word → Word → World δ → Option Word × World δ
  write : Word → Word → Word → World δ → Bool × World δ

/-- What stays fixed while the emulator runs: the bus, the target's callbacks, the options. -/
structure Env (δ : Type u) where
  mmio : List (MmioRegion δ)
  blockSecure : Option (δ → Int → Word → Bool)
  flashWrite : Option (SecState → Word → Word → Word → World δ → Bool × World δ)
  quitOnFaults : Bool
  optGdb : Bool

namespace Memmap

/-- `mm_memmap_init`. -/
def init : Memmap where
  flash := none
  flashLength := 0
  flashBase := 0
  ram := none
  ramRegions := []
  ramTotalSize := 0
  flashBaseS := 0
  flashSizeS := 0
  flashBaseNs := 0
  flashSizeNs := 0
  ramBaseS := 0
  ramSizeS := 0
  ramBaseNs := 0
  ramSizeNs := 0
  prot := none

/-- `main` sets `flash.base` and `flash.length` again, to what `secureView` sets them to. -/
def configureFlash (m : Memmap) (cfg : TargetCfg) (backing : Word → Byte) (secureView : Bool) :
    Memmap :=
  { m with
    flash := some backing
    flashBaseS := cfg.flashBaseS
    flashBaseNs := cfg.flashBaseNs
    flashSizeS := cfg.flashSizeS
    flashSizeNs := cfg.flashSizeNs
    flashLength := if secureView then cfg.flashSizeS else cfg.flashSizeNs
    flashBase := if secureView then cfg.flashBaseS else cfg.flashBaseNs }

def packRegions (total : Word) : List RamRegion → List (RamRegion × Word) × Word
  | [] => ([], total)
  | r :: rs =>
    let (packed, total') := packRegions (total + r.size) rs
    ((r, total) :: packed, total')

/-- The map has room for eight regions. The view only sets `ram.length` and `ram.base`, which
no access reads. -/
def configureRam (m : Memmap) (cfg : TargetCfg) (backing : Word → Byte) : Memmap :=
  let (regions, total) :=
    if cfg.ramRegions ≠ [] then packRegions 0 (cfg.ramRegions.take 8) else ([], cfg.ramSizeS)
  { m with
    ram := some backing
    ramBaseS := cfg.ramBaseS
    ramBaseNs := cfg.ramBaseNs
    ramSizeS := cfg.ramSizeS
    ramSizeNs := cfg.ramSizeNs
    ramRegions := regions
    ramTotalSize := total }

def offsetIn (base limit addr size : Word) : Option Word :=
  if base ≤ addr ∧ (addr - base) + size ≤ limit then some (addr - base) else none

/-- A flash window of size zero falls back to the default one. -/
def flashWindow (m : Memmap) (base size : Word) : Word × Word :=
  if size = 0 ∧ 0 < m.flashLength then (m.flashBase, m.flashLength) else (base, size)

def flashWindows (m : Memmap) : List (Word × Word) :=
  [m.flashWindow m.flashBaseS m.flashSizeS, m.flashWindow m.flashBaseNs m.flashSizeNs]

def flashOffsets (m : Memmap) (addr size : Word) : List Word :=
  m.flashWindows.filterMap fun (base, limit) => offsetIn base limit addr size

def ramOffsetForAddr (m : Memmap) (addr size : Word) : Option Word :=
  let banked :=
    if m.ramRegions ≠ [] then
      m.ramRegions.findSome? fun (r, off) =>
        (offsetIn r.baseS r.size addr size <|> offsetIn r.baseNs r.size addr size).map (off + ·)
    else
      offsetIn m.ramBaseS m.ramSizeS addr size <|> offsetIn m.ramBaseNs m.ramSizeNs addr size
  banked <|> if 0 < m.ramTotalSize ∧ addr + size ≤ m.ramTotalSize then some addr else none

def readBufLe (buf : Word → Byte) (offset size : Word) : Option Word :=
  if size = 1 then some ((buf offset).setWidth 32)
  else if size = 2 then some ((buf (offset + 1) ++ buf offset).setWidth 32)
  else if size = 3 then some ((buf (offset + 2) ++ buf (offset + 1) ++ buf offset).setWidth 32)
  else if size = 4 then some (buf (offset + 3) ++ buf (offset + 2) ++ buf (offset + 1) ++ buf offset)
  else none

/-- The bytes a RAM write stores; no other size is written to RAM. -/
def writeBufLe (buf : Word → Byte) (offset size value : Word) : Option (Word → Byte) :=
  let put (buf : Word → Byte) (i : Nat) :=
    Function.update buf (offset + BitVec.ofNat 32 i) ((value >>> (8 * i)).setWidth 8)
  if size = 4 then some (put (put (put (put buf 0) 1) 2) 3)
  else if size = 2 then some (put (put buf 0) 1)
  else if size = 1 then some (put buf 0)
  else none

def readRam (m : Memmap) (addr size : Word) : Option Word :=
  m.ram.bind fun buf => (m.ramOffsetForAddr addr size).bind fun off => readBufLe buf off size

def readFlash (m : Memmap) (addr size : Word) : Option Word :=
  m.flash.bind fun buf => (m.flashOffsets addr size).findSome? fun off => readBufLe buf off size

def writeRam (m : Memmap) (addr size value : Word) : Option Memmap :=
  m.ram.bind fun buf => (m.ramOffsetForAddr addr size).bind fun off =>
    (writeBufLe buf off size value).map fun buf' => { m with ram := some buf' }

/-- The fetch path: the first flash window that holds the halfword, then RAM. -/
def fetchHalf (m : Memmap) (addr : Word) : Option Word :=
  m.readFlash addr 2 <|> m.readRam addr 2

end Memmap

namespace World

variable {δ : Type u} (env : Env δ)

def interceptOk (w : World δ) (type : AccessType) (sec : SecState) (addr size : Word) :
    Bool × World δ :=
  match w.map.prot with
  | none => (true, w)
  | some ctx =>
    let (ok, scs) :=
      Prot.interceptor ctx (env.blockSecure.map fun f => f w.dev) w.scs type sec addr size
    (ok, { w with scs := scs })

def busFind (addr : Word) : Option (MmioRegion δ) :=
  env.mmio.find? fun r => r.base ≤ addr && addr - r.base < r.size

def busRead (w : World δ) (addr size : Word) : Option Word × World δ :=
  match busFind env addr with
  | some r => r.read (addr - r.base) size w
  | none => (none, w)

def busWrite (w : World δ) (addr size value : Word) : Bool × World δ :=
  match busFind env addr with
  | some r => r.write (addr - r.base) size value w
  | none => (false, w)

/-- `mm_memmap_read`. -/
def read (w : World δ) (sec : SecState) (addr size : Word) : Option Word × World δ :=
  let (ok, w) := w.interceptOk env .read sec addr size
  if !ok then (none, w)
  else
    match w.map.readFlash addr size <|> w.map.readRam addr size with
    | some v => (some v, w)
    | none => { w with activeSec := sec }.busRead env addr size

/-- The RAM and MMIO part of `mm_memmap_write`; unhandled System Control Space is
write-ignored. -/
def writeRamOrBus (w : World δ) (sec : SecState) (addr size value : Word) : Bool × World δ :=
  match w.map.writeRam addr size value with
  | some m => (true, { w with map := m })
  | none =>
    let (ok, w) := { w with activeSec := sec }.busWrite env addr size value
    (ok || (0xE000E000 ≤ addr && addr < 0xE0010000), w)

/-- `mm_memmap_write`. -/
def write (w : World δ) (sec : SecState) (addr size value : Word) : Bool × World δ :=
  let (ok, w) := w.interceptOk env .write sec addr size
  if !ok then (false, w)
  else
    match env.flashWrite with
    | some f =>
      if w.map.flash.isSome ∧ w.map.flashOffsets addr size ≠ [] then f sec addr size value w
      else w.writeRamOrBus env sec addr size value
    | none => w.writeRamOrBus env sec addr size value

/-- `mm_memmap_fetch_read16`. -/
def fetchRead16 (w : World δ) (sec : SecState) (addr : Word) : Option Word × World δ :=
  let (ok, w) := w.interceptOk env .exec sec addr 2
  if !ok then (none, w) else (w.map.fetchHalf addr, w)

/-- `mm_memmap_read8`. -/
def read8 (w : World δ) (sec : SecState) (addr : Word) : Option Byte × World δ :=
  let (ok, w) := w.interceptOk env .read sec addr 1
  if !ok then (none, w)
  else
    let flash := w.map.flash.bind fun buf =>
      w.map.flashWindows.findSome? fun (base, limit) =>
        if base ≤ addr ∧ addr - base < limit then some (buf (addr - base)) else none
    let ram := w.map.ram.bind fun buf => (w.map.ramOffsetForAddr addr 1).map buf
    match flash <|> ram with
    | some b => (some b, w)
    | none =>
      let (v, w) := w.busRead env addr 1
      (v.map (·.setWidth 8), w)

/-- `mm_memmap_write8`. -/
def write8 (w : World δ) (sec : SecState) (addr : Word) (value : Byte) : Bool × World δ :=
  let (ok, w) := w.interceptOk env .write sec addr 1
  if !ok then (false, w)
  else
    match w.map.writeRam addr 1 (value.setWidth 32) with
    | some m => (true, { w with map := m })
    | none => w.busWrite env addr 1 (value.setWidth 32)

/-- One of the windows of `mm_scs_register_regions`. -/
def scsWindow (base : Word) (sec : SecState) : MmioRegion δ where
  base := base - scsScbOffset
  size := scsPageSize
  read offset size w :=
    let (v, b) := w.toScsBlock.scsRead sec offset size
    (v, { w with toScsBlock := b })
  write offset size value w :=
    let (ok, b) := w.toScsBlock.scsWrite sec offset size value
    (ok, { w with toScsBlock := b })

def scsRegions : List (MmioRegion δ) :=
  [scsWindow 0xE000ED00 .secure, scsWindow 0xE002ED00 .nonsecure]

end World

end M33mu
