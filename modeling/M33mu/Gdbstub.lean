import M33mu.MainLoop

namespace M33mu

def SecState.alt : SecState → SecState
  | .secure => .nonsecure
  | .nonsecure => .secure

/-- `ram.base` and `ram.length` of the map, which the debugger alone reads. -/
structure RamDefault where
  base : Word
  length : Word
  deriving DecidableEq, Repr

namespace Memmap

def gdbRamWindow (m : Memmap) (dflt : RamDefault) (sec : SecState) : Word × Word :=
  let (base, size) : Word × Word := match sec with
    | .nonsecure => (m.ramBaseNs, m.ramSizeNs)
    | .secure => (m.ramBaseS, m.ramSizeS)
  if size = 0 ∧ 0 < dflt.length then (dflt.base, dflt.length) else (base, size)

def gdbFlashWindow (m : Memmap) (sec : SecState) : Word × Word :=
  match sec with
  | .nonsecure => m.flashWindow m.flashBaseNs m.flashSizeNs
  | .secure => m.flashWindow m.flashBaseS m.flashSizeS

/-- The bounds test of `gdb_write_bytes`, whose sum is a `size_t`. -/
def gdbInside (window : Word × Word) (addr : Word) (len : Nat) : Prop :=
  window.1 ≤ addr ∧ (addr - window.1).toNat + len ≤ window.2.toNat

instance (window : Word × Word) (addr : Word) (len : Nat) : Decidable (gdbInside window addr len) :=
  inferInstanceAs (Decidable (_ ∧ _))

def patchBuf (buf : Word → Byte) (off : Word) : List Byte → Word → Byte
  | [] => buf
  | b :: bs => patchBuf (Function.update buf off b) (off + 1) bs

end Memmap

namespace World

variable {δ : Type u} (env : Env δ)

def gdbRead8 (w : World δ) (sec : SecState) (addr : Word) : Option Byte × World δ :=
  match w.read8 env sec addr with
  | (some b, w) => (some b, w)
  | (none, w) => w.read8 env sec.alt addr

/-- `gdb_read_bytes`: each byte in the state of the CPU, else in the other one. -/
def gdbReadBytes (w : World δ) (sec : SecState) (addr : Word) : Nat → Option (List Byte) × World δ
  | 0 => (some [], w)
  | n + 1 =>
    match w.read8 env sec addr with
    | (some b, w) =>
      let (bs, w) := w.gdbReadBytes sec (addr + 1) n
      (bs.map (b :: ·), w)
    | (none, w) =>
      match w.read8 env sec.alt addr with
      | (some b, w) =>
        let (bs, w) := w.gdbReadBytes sec (addr + 1) n
        (bs.map (b :: ·), w)
      | (none, w) => (none, w)

def gdbFetchHw1 (w : World δ) (sec : SecState) (addr : Word) : Option Half × World δ :=
  match w.gdbRead8 env sec addr with
  | (none, w) => (none, w)
  | (some b0, w) =>
    let (b1, w) := w.gdbRead8 env sec (addr + 1)
    (b1.map (· ++ b0), w)

def gdbWrite8 (w : World δ) (sec : SecState) (addr : Word) (value : Byte) : Bool × World δ :=
  match w.write8 env sec addr value with
  | (true, w) => (true, w)
  | (false, w) => w.write8 env sec.alt addr value

/-- The last loop of `gdb_write_bytes`; what a failure leaves written stays. -/
def gdbWriteEach (w : World δ) (sec : SecState) (addr : Word) : List Byte → Bool × World δ
  | [] => (true, w)
  | b :: bs =>
    match w.gdbWrite8 env sec addr b with
    | (false, w) => (false, w)
    | (true, w) => gdbWriteEach w sec (addr + 1) bs

def gdbWriteBytes (dflt : RamDefault) (w : World δ) (sec : SecState) (addr : Word)
    (src : List Byte) : Bool × World δ :=
  let ram := w.map.gdbRamWindow dflt sec
  let flash := w.map.gdbFlashWindow sec
  if w.map.ram.isSome ∧ Memmap.gdbInside ram addr src.length then
    (true, { w with map := { w.map with
      ram := w.map.ram.map fun buf => Memmap.patchBuf buf (addr - ram.1) src } })
  else if w.map.flash.isSome ∧ Memmap.gdbInside flash addr src.length then
    (true, { w with map := { w.map with
      flash := w.map.flash.map fun buf => Memmap.patchBuf buf (addr - flash.1) src } })
  else w.gdbWriteEach env sec addr src

end World

structure Breakpoint where
  addr : Word
  len : Nat
  orig : List Byte
  valid : Bool
  deriving DecidableEq, Repr

/-- The fields of `mm_gdb_stub` that the breakpoints and the main loop's run control use. -/
structure GdbStub where
  running : Bool
  stepPending : Bool
  breakpoints : Fin 16 → Breakpoint
  rearmValid : Bool
  rearmAddr : Word

inductive GdbReply
  | ok
  | error (code : Nat)
  deriving DecidableEq, Repr

/-- The packets that set and clear breakpoints and resume the CPU, once parsed; an address that
does not parse is none. -/
inductive GdbPacket
  | c (addr : Option Word)
  | s (addr : Option Word)
  | Z (addr : Word)
  | z (addr : Word)
  deriving DecidableEq, Repr

namespace GdbStub

/-- `mm_gdb_stub_init`. -/
def init : GdbStub where
  running := false
  stepPending := false
  breakpoints _ := ⟨0, 0, [], false⟩
  rearmValid := false
  rearmAddr := 0

def patch : List Byte := [0x00, 0xBE, 0x00, 0xBE]

def slotAt (s : GdbStub) (addr : Word) : Option (Fin 16) :=
  (List.finRange 16).find? fun i => (s.breakpoints i).valid && (s.breakpoints i).addr == addr

def freeSlot (s : GdbStub) : Option (Fin 16) :=
  (List.finRange 16).find? fun i => !(s.breakpoints i).valid

def setBreakpoint (s : GdbStub) (i : Fin 16) (b : Breakpoint) : GdbStub :=
  { s with breakpoints := Function.update s.breakpoints i b }

@[simp] theorem setBreakpoint_self (s : GdbStub) (i : Fin 16) (b : Breakpoint) :
    (s.setBreakpoint i b).breakpoints i = b := by
  simp [setBreakpoint]

@[simp] theorem setBreakpoint_of_ne (s : GdbStub) {i j : Fin 16} (other : j ≠ i) (b : Breakpoint) :
    (s.setBreakpoint i b).breakpoints j = s.breakpoints j := by
  simp [setBreakpoint, other]

/-- `mm_gdb_stub_breakpoint_hit`. -/
def breakpointHit (s : GdbStub) (pc : Word) : Bool := (s.slotAt (pc ||| 1)).isSome

variable {δ : Type u} (env : Env δ) (dflt : RamDefault)

/-- `gdb_install_breakpoint`. The table is searched for the even address first, though its
entries hold odd ones, and for a free entry last. -/
def installBreakpoint (s : GdbStub) (w : World δ) (sec : SecState) (addr : Word) :
    Bool × GdbStub × World δ :=
  let evenAddr := addr &&& ~~~1#32
  if (s.slotAt evenAddr).isSome then (true, s, w)
  else
    match w.gdbFetchHw1 env sec evenAddr with
    | (none, w) => (false, s, w)
    | (some hw1, w) =>
      let len := if Machine.t32Is32bitPrefix (hw1.setWidth 32) then 4 else 2
      match w.gdbReadBytes env sec evenAddr len with
      | (none, w) => (false, s, w)
      | (some orig, w) =>
        match w.gdbWriteBytes env dflt sec evenAddr (patch.take len) with
        | (false, w) => (false, s, w)
        | (true, w) =>
          match s.freeSlot with
          | some i => (true, s.setBreakpoint i ⟨evenAddr ||| 1, len, orig, true⟩, w)
          | none => (false, s, w)

/-- `gdb_remove_breakpoint`. -/
def removeBreakpoint (s : GdbStub) (w : World δ) (sec : SecState) (addr : Word) :
    Bool × GdbStub × World δ :=
  let evenAddr := addr &&& ~~~1#32
  match s.slotAt (evenAddr ||| 1) with
  | none => (false, s, w)
  | some i =>
    let b := s.breakpoints i
    match w.gdbWriteBytes env dflt sec evenAddr (b.orig.take b.len) with
    | (false, w) => (false, s, w)
    | (true, w) => (true, s.setBreakpoint i { b with valid := false, len := 0 }, w)

/-- `mm_gdb_stub_maybe_rearm`, after each instruction. -/
def maybeRearm (s : GdbStub) (w : World δ) (sec : SecState) (pc : Word) : GdbStub × World δ :=
  if !s.rearmValid then (s, w)
  else if pc ||| 1 = s.rearmAddr then (s, w)
  else
    match s.installBreakpoint env dflt w sec s.rearmAddr with
    | (true, s, w) => ({ s with rearmValid := false }, w)
    | (false, s, w) => (s, w)

def stepOver (s : GdbStub) (cpu : Cpu) (w : World δ) : GdbStub × World δ :=
  if s.breakpointHit (cpu.r 15) then
    match s.removeBreakpoint env dflt w cpu.secState (cpu.r 15) with
    | (true, s, w) => ({ s with rearmValid := true, rearmAddr := cpu.r 15 }, w)
    | (false, s, w) => (s, w)
  else (s, w)

def resumeAt (cpu : Cpu) : Option Word → Cpu
  | none => cpu
  | some addr => cpu.setReg 15 (addr ||| 1)

def replyOf (done : Bool) : GdbReply := if done then .ok else .error 1

/-- `mm_gdb_stub_handle`, for one packet. -/
def handle (s : GdbStub) (cpu : Cpu) (w : World δ) :
    GdbPacket → Option GdbReply × GdbStub × Cpu × World δ
  | .c addr =>
    let cpu := resumeAt cpu addr
    let (s, w) := s.stepOver env dflt cpu w
    (none, { s with running := true, stepPending := false }, cpu, w)
  | .s addr =>
    let cpu := resumeAt cpu addr
    let (s, w) := s.stepOver env dflt cpu w
    (none, { s with running := true, stepPending := true }, cpu, w)
  | .Z addr =>
    let (done, s, w) := s.installBreakpoint env dflt w cpu.secState addr
    (some (replyOf done), s, cpu, w)
  | .z addr =>
    let (done, s, w) := s.removeBreakpoint env dflt w cpu.secState addr
    (some (replyOf done), s, cpu, w)

end GdbStub

end M33mu
