import M33mu.Lib.Run
import M33mu.Types

namespace M33mu

/-- The device, with the state of the TPM library behind it. A buffer is the bytes up to its
length. -/
structure Tpm (σ : Type u) where
  header : List Byte
  addr : Half
  len : Byte
  isRead : Bool
  waitPhase : Bool
  burstCount : Half
  localityActive : Bool
  cmdBuf : List Byte
  cmdExpected : Word
  rspBuf : List Byte
  rspRead : Nat
  /-- The level of chip select that was sampled last. -/
  csLevel : Bool
  lib : σ

namespace Tpm

def cmdMax : Nat := 4096

def rspMax : Nat := 4096

def access : Half := 0x0000

def sts : Half := 0x0018

def dataFifo : Half := 0x0024

def didVid : Half := 0x0F00

def rid : Half := 0x0F04

def InFifo (addr : Half) : Prop := dataFifo ≤ addr ∧ addr < dataFifo + 4

instance (addr : Half) : Decidable (InFifo addr) := inferInstanceAs (Decidable (_ ∧ _))

def commandReady (value : Byte) : Bool := value &&& 0x40 ≠ 0

def go (value : Byte) : Bool := value &&& 0x20 ≠ 0

variable {σ : Type u}

/-- `TPMLIB_Process`: no reply where it fails, and the state it leaves. -/
abbrev Process (σ : Type u) := σ → List Byte → Option (List Byte) × σ

/-- `tpm_reset`. -/
def reset (s : Tpm σ) : Tpm σ :=
  { s with
    header := []
    addr := 0
    len := 0
    isRead := false
    waitPhase := false
    burstCount := 64
    localityActive := false
    cmdBuf := []
    cmdExpected := 0
    rspBuf := []
    rspRead := 0 }

def failure : List Byte := [0x80, 0x01, 0x00, 0x00, 0x00, 0x0A, 0x00, 0x00, 0x01, 0x01]

def response : Option (List Byte) → List Byte
  | some [] => failure
  | some reply => reply.take rspMax
  | none => failure

/-- `tpm_backend_process`. -/
def backendProcess (process : Process σ) (s : Tpm σ) : Tpm σ :=
  if s.cmdBuf = [] then s
  else
    let (reply, lib) := process s.lib s.cmdBuf
    { s with rspBuf := response reply, rspRead := 0, lib := lib }

def status (s : Tpm σ) : Byte :=
  0x80 ||| 0x40 |||
    (if s.cmdExpected = 0 ∨ s.cmdBuf.length < s.cmdExpected.toNat then 0x08 else 0) |||
    (if s.rspRead < s.rspBuf.length then 0x10 else 0)

/-- A byte of the response, the last of which empties both buffers. -/
def readFifo (s : Tpm σ) : Byte × Tpm σ :=
  match s.rspBuf[s.rspRead]? with
  | some v =>
    if s.rspBuf.length ≤ s.rspRead + 1 then
      (v, { s with cmdBuf := [], cmdExpected := 0, rspBuf := [], rspRead := 0 })
    else (v, { s with rspRead := s.rspRead + 1 })
  | none => (0xFF, s)

/-- `tpm_read_reg`. -/
def readReg (s : Tpm σ) (addr : Half) : Byte × Tpm σ :=
  if addr = access then (0x80 ||| (if s.localityActive then 0x20 else 0), s)
  else if addr = sts then (s.status, s)
  else if addr = sts + 1 then ((s.burstCount &&& 0xFF).setWidth 8, s)
  else if addr = sts + 2 then (((s.burstCount >>> 8) &&& 0xFF).setWidth 8, s)
  else if addr = didVid then (0xD1, s)
  else if addr = didVid + 1 then (0x15, s)
  else if addr = didVid + 2 then (0x00, s)
  else if addr = didVid + 3 then (0x01, s)
  else if addr = rid then (0x00, s)
  else if InFifo addr then s.readFifo
  else (0xFF, s)

def declaredSize : List Byte → Word
  | _ :: _ :: a :: b :: c :: d :: _ => a ++ b ++ c ++ d
  | _ => 0

def writeFifo (s : Tpm σ) (value : Byte) : Tpm σ :=
  if s.cmdBuf.length < cmdMax then
    let cmdBuf := s.cmdBuf ++ [value]
    let size := declaredSize cmdBuf
    { s with
      cmdBuf := cmdBuf
      cmdExpected :=
        if s.cmdExpected = 0 ∧ 6 ≤ cmdBuf.length ∧ 10 ≤ size ∧ size.toNat ≤ cmdMax then size
        else s.cmdExpected }
  else s

/-- `tpm_write_reg`. -/
def writeReg (process : Process σ) (s : Tpm σ) (addr : Half) (value : Byte) : Tpm σ :=
  if addr = access then
    if value &&& 0x02 ≠ 0 then { s with localityActive := true }
    else if value &&& 0x20 ≠ 0 then { s with localityActive := false }
    else s
  else if addr = sts then
    let s := if commandReady value then
        { s with cmdBuf := [], cmdExpected := 0, rspBuf := [], rspRead := 0 }
      else s
    if go value then s.backendProcess process else s
  else if InFifo addr then s.writeFifo value
  else s

def advance (s : Tpm σ) : Tpm σ :=
  let s := if InFifo s.addr then s else { s with addr := s.addr + 1 }
  if 0 < s.len then
    let s := { s with len := s.len - 1 }
    if s.len = 0 then { s with header := [], waitPhase := false } else s
  else s

/-- The four bytes of a header, of which the second is not looked at. -/
def takeHeader (s : Tpm σ) : Tpm σ :=
  match s.header with
  | [b0, _, b2, b3] =>
    { s with
      isRead := b0 &&& 0x80 ≠ 0
      len := (b0 &&& 0x7F) + 1
      addr := b2 ++ b3
      waitPhase := true }
  | _ => s

/-- `tpm_spi_xfer`, with chip select low. -/
def spiXfer (process : Process σ) (s : Tpm σ) (out : Byte) : Byte × Tpm σ :=
  let s := { s with csLevel := false }
  if s.header.length < 4 then (0xFF, takeHeader { s with header := s.header ++ [out] })
  else if s.waitPhase then
    if s.isRead ∧ s.addr = dataFifo ∧ s.rspBuf = [] then (0x00, s)
    else (0x01, { s with waitPhase := false })
  else if s.isRead then
    let (v, s) := s.readReg s.addr
    (v, s.advance)
  else (0xFF, (s.writeReg process s.addr out).advance)

/-- Chip select goes high: the level is sampled, and `tpm_spi_end` does nothing. -/
def csDeassert (s : Tpm σ) : Tpm σ := { s with csLevel := true }

inductive Event
  | byte (out : Byte)
  | deassert
  deriving DecidableEq, Repr

def step (process : Process σ) (s : Tpm σ) : Event → Tpm σ
  | .byte out => (s.spiXfer process out).2
  | .deassert => s.csDeassert

end Tpm

end M33mu
