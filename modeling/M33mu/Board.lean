import M33mu.Decode
import M33mu.Exception

/-!
The smallest target there is: 64 KiB of RAM seen at `0x20000000` by both security
states, with no peripherals or protection layer, and at most an image in flash.
-/

namespace M33mu

namespace Board

def cpu : Cpu where
  r _ := 0
  xpsr := 0x01000000
  secState := .secure
  mode := .thread
  priv := .both false
  msp := ⟨0x2000A000, 0x20008000⟩
  psp := ⟨0x20006000, 0x20004000⟩
  mspTop := .both 0
  mspMin := .both 0
  mspTopValid := .both false
  msplim := .both 0
  psplim := .both 0
  control := .both 0
  primask := .both 0
  basepri := .both 0
  faultmask := .both 0
  vtor := .both 0
  exc := .empty
  tz := .empty
  sleeping := false
  eventReg := false
  exclValid := false
  exclSec := .nonsecure
  exclAddr := 0
  exclSize := 0

def map : Memmap where
  flash := none
  flashLength := 0
  flashBase := 0
  ram := some fun _ => 0
  ramRegions := []
  ramTotalSize := 0x10000
  flashBaseS := 0
  flashSizeS := 0
  flashBaseNs := 0
  flashSizeNs := 0
  ramBaseS := 0x20000000
  ramSizeS := 0x10000
  ramBaseNs := 0x20000000
  ramSizeNs := 0x10000
  prot := none

def env : Env Unit where
  mmio := []
  blockSecure := none
  flashWrite := none
  quitOnFaults := false
  optGdb := false

def world : World Unit where
  scs := .init 0x410fc241
  nvic := .init
  sauLayout := .unknown
  resetPending := false
  map := map
  activeSec := .secure
  faultPending := false
  dev := ()

def sys : Sys Unit := ⟨cpu, world, []⟩

def flashed (image : List (Word × Word)) : World Unit :=
  let buf := image.foldl (fun buf (off, v) => (Memmap.writeBufLe buf off 4 v).getD buf) fun _ => 0xFF
  { world with map := { map with
      flash := some buf
      flashLength := 0x1000
      flashSizeS := 0x1000
      flashSizeNs := 0x1000 } }

/-- The regions of `main` for flash and RAM, both seen by both security states. -/
def prot : ProtCtx where
  regions :=
    let perms := Prot.permRead ||| Prot.permWrite ||| Prot.permExec
    [⟨0, 0x1000, perms, .secure⟩, ⟨0, 0x1000, perms, .nonsecure⟩,
      ⟨0x20000000, 0x10000, perms, .secure⟩, ⟨0x20000000, 0x10000, perms, .nonsecure⟩]
  cfg :=
    { flashBaseS := 0
      flashSizeS := 0x1000
      flashBaseNs := 0
      flashSizeNs := 0x1000
      ramBaseS := 0x20000000
      ramSizeS := 0x10000
      ramBaseNs := 0x20000000
      ramSizeNs := 0x10000
      ramRegions := []
      mpcbbBlockSize := 0 }

def guarded (image : List (Word × Word)) : World Unit :=
  let w := flashed image
  { w with map := { w.map with prot := some prot } }

def scsEnv : Env Unit := { env with mmio := World.scsRegions }

/-- What `decode_32` tries first: `LDR` of a literal and `SG`. -/
def decode32 (insn : Word) : Decoded :=
  let d := Decoded.default 4 insn
  if insn &&& 0xff7f0000 = 0xf85f0000 then
    { d with
      kind := .ldrLiteral
      rd := Fin.ofNat 16 (insn.toNat >>> 12 % 16)
      imm := if insn.getLsbD 23 then insn &&& 0xfff else -(insn &&& 0xfff)
      undefined := false }
  else if insn = 0xe97fe97f then { d with kind := .sg, undefined := false }
  else d

end Board

end M33mu
