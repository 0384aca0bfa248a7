import M33mu.Lib.RegFile
import M33mu.UartIo

namespace M33mu

open Lib

/-- `usart_inst`. -/
structure Usart where
  index : Fin 12
  regs : RegFile
  io : UartIo
  enabled : Bool
  macroMatch : Nat
  /-- `g_uart_break_on_macro`, which the third port alone sets. -/
  macroBreak : Bool

/-- What an access finds outside of the port: the state of its initiator, the registers of the TZSC
and of the RCC, and what the host answers. -/
structure UsartEnv where
  sec : SecState
  tzsc : RegFile
  rcc : RegFile
  stdout : Bool
  terminal : Bool
  writes : List WriteResult

namespace Usart

def size : Word := 0x30

def isrOffset : Word := 0x1C

def rdr : Word := 0x24

def tdr : Word := 0x28

def cr1Ue : Word := 1

def isrRxne : Word := 1 <<< 5

def isrTxe : Word := 1 <<< 7

/-- `sec_reg`, the place of the word in the TZSC. -/
def secReg (i : Fin 12) : Nat := if i = 0 then 0x14 else 0x10

/-- `sec_bitmask`, which `mm_stm32h563_usart_init` chooses in a chain over the ports. -/
def secBitmask (i : Fin 12) : Word :=
  if i = 0 then 1 <<< 11
  else if 1 ≤ i ∧ i ≤ 7 then
    if i = 1 then 1 <<< 13
    else if i = 2 then 1 <<< 14
    else if i = 5 then 1 <<< 21
    else if i = 9 then 1 <<< 22
    else if i = 10 then 1 <<< 23
    else 0
  else 0

/-- The bit of `clock_apb1lenr_generic`, for the ports from the second to the eighth. -/
def lenrBit (i : Fin 12) : Nat :=
  if i = 1 then 17 else if i = 2 then 18 else if i = 3 then 19 else if i = 4 then 20
  else if i = 5 then 25 else if i = 6 then 30 else 31

/-- `clock_on`, by the port. -/
def clockOn (i : Fin 12) (rcc : RegFile) : Bool :=
  if i = 0 then rcc.word 0xa4 >>> 14 &&& 1 ≠ 0
  else if i ≤ 7 then rcc.word 0x9c >>> lenrBit i &&& 1 ≠ 0
  else if i = 8 then rcc.word 0xa0 >>> 0 &&& 1 ≠ 0
  else if i = 11 then rcc.word 0xa0 >>> 1 &&& 1 ≠ 0
  else true

def isr (u : Usart) : Word := u.regs.word 0x1C

def setIsr (u : Usart) (v : Word) : Usart := { u with regs := u.regs.setWord 0x1C v }

/-- `secure_only`. -/
def secureOnly (u : Usart) (e : UsartEnv) : Bool :=
  e.tzsc.word (secReg u.index) &&& secBitmask u.index ≠ 0

/-- `ensure_enabled`. -/
def ensureEnabled (u : Usart) (e : UsartEnv) : Usart :=
  let ue := u.regs.word 0x00 &&& cr1Ue ≠ 0 && clockOn u.index e.rcc
  let was := u.enabled
  let u := { u with enabled := ue }
  if ue && !was then
    let (opened, io) := u.io.openIo e.stdout e.terminal
    let u := { u with io := io }
    if opened then u.setIsr (u.isr ||| isrTxe) else u
  else if !ue && was then { u with io := u.io.closeIo }
  else u

/-- The part of `usart_read` that takes a character from the host. -/
def receive (u : Usart) : Word × Usart :=
  let r := if u.io.rxPending then u.io.read else (0, u.io)
  (r.1.setWidth 32, setIsr { u with io := r.2 } (u.isr &&& ~~~isrRxne))

/-- `usart_read`. -/
def read (u : Usart) (e : UsartEnv) (offset n : Word) : Option Word × Usart :=
  if u.secureOnly e = true ∧ e.sec = .nonsecure then (some 0, u)
  else if n = 0 ∨ 4 < n then (none, u)
  else if size ≤ offset then (none, u)
  else
    let u := u.ensureEnabled e
    if offset = rdr then (some u.receive.1, u.receive.2)
    else
      let u := if offset = isrOffset then u.setIsr (u.isr ||| isrTxe) else u
      (some (u.regs.slice offset.toNat n.toNat), u)

def macroPat : List Byte :=
  [0x6d, 0x61, 0x63, 0x72, 0x6f, 0x20, 0x20, 0x20, 0x65, 0x72, 0x72, 0x6f, 0x72]

def macroNext (matched : Nat) (ch : Byte) : Nat × Bool :=
  if macroPat[matched]? = some ch then
    if matched + 1 = macroPat.length then (0, true) else (matched + 1, false)
  else (if macroPat[0]? = some ch then 1 else 0, false)

def watchMacro (u : Usart) (ch : Byte) : Usart :=
  if u.index = 2 then
    let (matched, found) := macroNext u.macroMatch ch
    { u with macroMatch := matched, macroBreak := u.macroBreak || found }
  else u

def drain (u : Usart) (writes : List WriteResult) : List Byte × Usart :=
  let flushed := u.io.flush writes
  let u := { u with io := flushed.2.2 }
  (flushed.2.1, if flushed.1 && u.io.txEmpty then u.setIsr (u.isr ||| isrTxe) else u)

/-- The part of `usart_write` that sends a character. -/
def transmit (u : Usart) (writes : List WriteResult) (ch : Byte) : List Byte × Usart :=
  let u := u.watchMacro ch
  let u := setIsr { u with io := u.io.queueTx ch } (u.isr &&& ~~~isrTxe)
  u.drain writes

/-- `usart_write`, with the bytes that the host takes. -/
def write (u : Usart) (e : UsartEnv) (offset n value : Word) : Bool × List Byte × Usart :=
  if u.secureOnly e = true ∧ e.sec = .nonsecure then (true, [], u)
  else if n = 0 ∨ 4 < n then (false, [], u)
  else if size ≤ offset then (false, [], u)
  else if offset = tdr then
    let u := u.ensureEnabled e
    if u.enabled = false then (true, [], u)
    else (true, u.transmit e.writes (value.setWidth 8))
  else (true, [], { u with regs := u.regs.copy offset.toNat n.toNat value })

end Usart

end M33mu
