import M33mu.DeviceDma
import M33mu.SpiBus
import M33mu.UartIo

namespace M33mu

open Lib

/-- `serial_inst`; `regs` is by `offset / 4`. -/
structure Serial where
  regs : Word → Word
  busIndex : Nat
  irq : Irq
  hasUarte : Bool
  rxRunning : Bool
  io : UartIo

namespace Serial

def size : Word := 0x1000

def startrx : Word := 0x000

def stoprx : Word := 0x004

def starttx : Word := 0x008

def stoptx : Word := 0x00C

def flushrx : Word := 0x02C

def spimStart : Word := 0x010

def spimStop : Word := 0x014

def eventsRxdrdy : Word := 0x108

def eventsEndrx : Word := 0x110

def spimEventsEnd : Word := 0x118

def eventsEndtx : Word := 0x120

def intenset : Word := 0x304

def intenclr : Word := 0x308

def enable : Word := 0x500

def rxdPtr : Word := 0x534

def rxdMaxcnt : Word := 0x538

def rxdAmount : Word := 0x53C

def txdPtr : Word := 0x544

def txdMaxcnt : Word := 0x548

def txdAmount : Word := 0x54C

def orc : Word := 0x5C0

def enableSpim : Word := 7

def enableUarte : Word := 8

def intRxdrdy : Word := 1 <<< 2

def intEndrx : Word := 1 <<< 4

def intEndtx : Word := 1 <<< 8

def reg (s : Serial) (offset : Word) : Word := s.regs (offset / 4)

def setReg (s : Serial) (offset value : Word) : Serial :=
  { s with regs := Function.update s.regs (offset / 4) value }

@[simp] theorem reg_setReg_self (s : Serial) (offset v : Word) :
    (s.setReg offset v).reg offset = v :=
  Function.update_self ..

theorem reg_setReg_of_ne (s : Serial) {offset offset' : Word} (v : Word)
    (other : offset' / 4 ≠ offset / 4) : (s.setReg offset v).reg offset' = s.reg offset' :=
  Function.update_of_ne other ..

def enabled (s : Serial) (role : Word) : Bool := s.reg enable &&& 0xF = role

/-- A peripheral as `serial_register_all` sets it up. -/
def register (busIndex : Nat) (irq : Irq) (hasUarte connected stdout : Bool) : Serial where
  regs := Function.update (fun _ => 0) (orc / 4) 0xFF
  busIndex := busIndex
  irq := irq
  hasUarte := hasUarte
  rxRunning := false
  io := if hasUarte then (UartIo.init.openIo stdout connected).2 else .init

/-- `serial_read`. -/
def read (s : Serial) (offset n : Word) : Option Word :=
  if n = 0 ∨ 4 < n then none
  else if size < offset + n then none
  else some (s.reg offset)

end Serial

/-- What a peripheral finds when it is used: the state of the initiator, whether the high-frequency
clock runs, the levels of the pins, and what the host answers. -/
structure SerialEnv where
  sec : SecState
  hfRunning : Bool
  banks : Banks
  writes : List WriteResult

/-- A peripheral, what it acts on, and what went over its UART: the bytes that the host has, those
that came from the host, and those that were taken for memory. -/
structure SerialPort (δ : Type u) where
  dev : Serial
  world : World δ
  flashes : List SpiDevice
  out : List Byte
  heard : List Byte
  taken : List Byte

namespace SerialPort

open Serial

variable {δ : Type u} (env : Env δ)

/-- `serial_raise_irq`. -/
def raiseIrq (s : SerialPort δ) (mask : Word) : SerialPort δ :=
  if s.dev.reg intenset &&& mask = 0 then s
  else { s with world := { s.world with nvic := s.world.nvic.setPending s.dev.irq true } }

/-- `serial_event_set`. -/
def eventSet (s : SerialPort δ) (offset mask : Word) : SerialPort δ :=
  { s with dev := s.dev.setReg offset 1 }.raiseIrq mask

/-- The byte that the loop of `serial_spim_run` sends. -/
def spimOut (s : SerialPort δ) (e : SerialEnv) (i : Word) : Byte × SerialPort δ :=
  let orc := (s.dev.reg orc).setWidth 8
  if i < s.dev.reg txdMaxcnt then
    let (b, w) := s.world.read8 env e.sec (s.dev.reg txdPtr + i)
    (b.getD orc, { s with world := w })
  else (orc, s)

def spimByte (s : SerialPort δ) (e : SerialEnv) (i : Word) : SerialPort δ :=
  let (out, s) := s.spimOut env e i
  let (answer, ds) := spiBusXfer e.banks s.dev.busIndex out s.flashes
  let s := { s with flashes := ds }
  if i < s.dev.reg rxdMaxcnt then
    { s with world := (s.world.write8 env e.sec (s.dev.reg rxdPtr + i) answer).2 }
  else s

def spimLoop (s : SerialPort δ) (e : SerialEnv) (i : Word) : Nat → SerialPort δ
  | 0 => s
  | n + 1 => (s.spimByte env e i).spimLoop e (i + 1) n

/-- What `serial_spim_run` does after the loop. -/
def spimEnd (s : SerialPort δ) : SerialPort δ :=
  let dev := s.dev.setReg txdAmount (s.dev.reg txdMaxcnt)
  let dev := dev.setReg rxdAmount (s.dev.reg rxdMaxcnt)
  let s := { s with dev := dev }
  let s := s.eventSet eventsEndtx intEndtx
  let s := s.eventSet eventsEndrx intEndrx
  let s := s.eventSet spimEventsEnd (intEndtx ||| intEndrx)
  { s with flashes := spiBusEnd s.dev.busIndex s.flashes }

/-- `serial_spim_run`. -/
def spimRun (s : SerialPort δ) (e : SerialEnv) : SerialPort δ :=
  if e.hfRunning = false ∨ s.dev.enabled enableSpim = false then s
  else
    let txCnt := s.dev.reg txdMaxcnt
    let rxCnt := s.dev.reg rxdMaxcnt
    (s.spimLoop env e 0 (if rxCnt < txCnt then txCnt else rxCnt).toNat).spimEnd

/-- The loop of `serial_uarte_try_rx`, with as many rounds as there is room. -/
def rxLoop (s : SerialPort δ) (e : SerialEnv) (amount : Word) : Nat → Word × SerialPort δ
  | 0 => (amount, s)
  | n + 1 =>
    if s.dev.io.rxPending then
      let (byte, io) := s.dev.io.read
      let w := (s.world.write8 env e.sec (s.dev.reg rxdPtr + amount) byte).2
      let s := { s with dev := { s.dev with io := io }, world := w, taken := s.taken ++ [byte] }
      (s.eventSet eventsRxdrdy intRxdrdy).rxLoop e (amount + 1) n
    else (amount, s)

/-- `serial_uarte_try_rx`. -/
def tryRx (s : SerialPort δ) (e : SerialEnv) : SerialPort δ :=
  if s.dev.rxRunning = false ∨ e.hfRunning = false ∨ s.dev.enabled enableUarte = false then s
  else
    let rxCnt := s.dev.reg rxdMaxcnt
    let amount := s.dev.reg rxdAmount
    let (amount, s) := s.rxLoop env e amount (rxCnt.toNat - amount.toNat)
    let s := { s with dev := s.dev.setReg rxdAmount amount }
    if rxCnt ≤ amount ∧ rxCnt ≠ 0 then
      { s with dev := { s.dev with rxRunning := false } }.eventSet eventsEndrx intEndrx
    else s

/-- One round of the loop of `serial_uarte_start_tx`. -/
def txByte (s : SerialPort δ) (e : SerialEnv) (i : Word) : SerialPort δ :=
  let r := s.world.read8 env e.sec (s.dev.reg txdPtr + i)
  { s with dev := { s.dev with io := s.dev.io.queueTx (r.1.getD 0) }, world := r.2 }

def txLoop (s : SerialPort δ) (e : SerialEnv) (i : Word) : Nat → SerialPort δ
  | 0 => s
  | n + 1 => (s.txByte env e i).txLoop e (i + 1) n

/-- What `serial_uarte_start_tx` does after the loop. -/
def txEnd (s : SerialPort δ) (e : SerialEnv) (txCnt : Word) : SerialPort δ :=
  let r := s.dev.io.flush e.writes
  let s := { s with dev := { s.dev with io := r.2.2 }, out := s.out ++ r.2.1 }
  { s with dev := s.dev.setReg txdAmount txCnt }.eventSet eventsEndtx intEndtx

/-- `serial_uarte_start_tx`. -/
def startTx (s : SerialPort δ) (e : SerialEnv) : SerialPort δ :=
  if e.hfRunning = false ∨ s.dev.enabled enableUarte = false then s
  else
    let txCnt := s.dev.reg txdMaxcnt
    (s.txLoop env e 0 txCnt.toNat).txEnd e txCnt

/-- The tasks of `serial_write`, by their offset. -/
def task (s : SerialPort δ) (e : SerialEnv) (offset value : Word) : Option (SerialPort δ) :=
  let go := value &&& 1 ≠ 0
  if offset = startrx then
    if go then
      let dev := { s.dev with rxRunning := true }.setReg rxdAmount 0
      some ({ s with dev := dev }.tryRx env e)
    else some s
  else if offset = stoprx then
    some (if go then { s with dev := { s.dev with rxRunning := false } } else s)
  else if offset = starttx then some (if go then s.startTx env e else s)
  else if offset = stoptx then some s
  else if offset = flushrx then some (if go then s.tryRx env e else s)
  else if offset = spimStart then some (if go then s.spimRun env e else s)
  else if offset = spimStop then
    some (if go then { s with flashes := spiBusEnd s.dev.busIndex s.flashes } else s)
  else none

/-- `serial_write`. -/
def write (s : SerialPort δ) (e : SerialEnv) (offset n value : Word) : Bool × SerialPort δ :=
  if n = 0 ∨ 4 < n then (false, s)
  else if size < offset + n then (false, s)
  else
    let set (s : SerialPort δ) (offset v : Word) : SerialPort δ :=
      { s with dev := s.dev.setReg offset v }
    if n ≠ 4 then (true, set s offset value)
    else if offset = intenset then (true, set s intenset (s.dev.reg intenset ||| value))
    else if offset = intenclr then (true, set s intenset (s.dev.reg intenset &&& ~~~value))
    else
      match s.task env e offset value with
      | some s => (true, s)
      | none => (true, set s offset value)

/-- The UART after `mm_uart_io_poll`, where `read` answers `rx`. -/
def hear (s : SerialPort δ) (e : SerialEnv) (rx : Option Byte) : SerialPort δ :=
  let r := s.dev.io.poll e.writes rx
  { s with
    dev := { s.dev with io := r.2.2 }
    out := s.out ++ r.2.1
    heard := s.heard ++ if r.1 then [r.2.2.rxByte] else [] }

/-- The part of `mm_nrf5340_usart_poll` for one peripheral. -/
def poll (s : SerialPort δ) (e : SerialEnv) (rx : Option Byte) : SerialPort δ :=
  if s.dev.hasUarte = false then s
  else if (s.dev.io.poll e.writes rx).1 then (s.hear e rx).tryRx env e
  else s.hear e rx

inductive Op
  | write (e : SerialEnv) (offset n value : Word)
  | poll (e : SerialEnv) (rx : Option Byte)

def step (s : SerialPort δ) : Op → SerialPort δ
  | .write e offset n value => (s.write env e offset n value).2
  | .poll e rx => s.poll env e rx

variable {env}

theorem touched_nvic (w : World δ) (nvic : Nvic) : w.Touched env { w with nvic := nvic } :=
  ⟨.refl _, World.interceptOk_congr w { w with nvic := nvic } rfl rfl rfl⟩

theorem eventSet_eq (s : SerialPort δ) (offset mask : Word) : ∃ nvic, s.eventSet offset mask =
    { s with dev := s.dev.setReg offset 1, world := { s.world with nvic := nvic } } := by
  rw [eventSet, raiseIrq]
  split
  · exact ⟨s.world.nvic, rfl⟩
  · exact ⟨_, rfl⟩

end SerialPort

end M33mu
