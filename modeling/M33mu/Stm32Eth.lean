import M33mu.Lib.ByteMem
import M33mu.Memmap

/-!
The Ethernet controller of the STM32H563: its registers, and its polls of the descriptor rings that
the driver keeps in memory.
-/

namespace M33mu

open Lib

structure DmaBus (μ : Type u) where
  read32 : μ → Word → Option Word × μ
  write32 : μ → Word → Word → Bool × μ

/-- `eth_dma_read32` and `eth_dma_write32`, Non-secure first. -/
def World.ethDma {δ : Type u} (env : Env δ) : DmaBus (World δ) where
  read32 w addr :=
    match w.read env .nonsecure addr 4 with
    | (some v, w) => (some v, w)
    | (none, w) => w.read env .secure addr 4
  write32 w addr value :=
    match w.write env .nonsecure addr 4 value with
    | (true, w) => (true, w)
    | (false, w) => w.write env .secure addr 4 value

/-- `eth_desc`. -/
structure EthDesc where
  des0 : Word
  des1 : Word
  des2 : Word
  des3 : Word
  deriving DecidableEq

namespace DmaBus

variable {μ : Type u} (bus : DmaBus μ)

/-- `eth_dma_read_desc`. -/
def readDesc (m : μ) (addr : Word) : Option EthDesc × μ :=
  match bus.read32 m addr with
  | (none, m) => (none, m)
  | (some des0, m) =>
    match bus.read32 m (addr + 4) with
    | (none, m) => (none, m)
    | (some des1, m) =>
      match bus.read32 m (addr + 8) with
      | (none, m) => (none, m)
      | (some des2, m) =>
        match bus.read32 m (addr + 12) with
        | (none, m) => (none, m)
        | (some des3, m) => (some ⟨des0, des1, des2, des3⟩, m)

/-- `eth_dma_write_desc`. -/
def writeDesc (m : μ) (addr : Word) (desc : EthDesc) : Bool × μ :=
  match bus.write32 m addr desc.des0 with
  | (false, m) => (false, m)
  | (true, m) =>
    match bus.write32 m (addr + 4) desc.des1 with
    | (false, m) => (false, m)
    | (true, m) =>
      match bus.write32 m (addr + 8) desc.des2 with
      | (false, m) => (false, m)
      | (true, m) => bus.write32 m (addr + 12) desc.des3

end DmaBus

/-- `stm32h563_eth`: `regs` is by the number of the word, `irq` is whether the interrupt has been
pended, and `ahb1enr` is the register of the RCC with the clocks, if the RCC is known. The indices
have always been reduced by a count of at most 1024. -/
structure Eth where
  regs : Nat → Word
  phyRegs : BitVec 5 → Half
  mac : Fin 6 → Byte
  txIdx : Fin 1024
  rxIdx : Fin 1024
  ahb1enr : Option Word
  irq : Bool

namespace Eth

def size : Word := 0x11F0

def maccr : Nat := 0x0000

def macmdioar : Nat := 0x0200

def macmdiodr : Nat := 0x0204

def maca0hr : Nat := 0x0300

def maca0lr : Nat := 0x0304

def dmamr : Nat := 0x1000

def dmaisr : Nat := 0x1008

def dmactxcr : Nat := 0x1104

def dmacrxcr : Nat := 0x1108

def dmactxdlar : Nat := 0x1114

def dmacrxdlar : Nat := 0x111C

def dmactxrlr : Nat := 0x112C

def dmacrxrlr : Nat := 0x1130

def dmacier : Nat := 0x1134

def dmacsr : Nat := 0x1160

def maccrRe : Word := 1 <<< 0

def maccrTe : Word := 1 <<< 1

def dmamrSwr : Word := 1 <<< 0

def dmacsrTi : Word := 1 <<< 0

def dmacsrTbu : Word := 1 <<< 2

def dmacsrRi : Word := 1 <<< 6

def dmacsrRbu : Word := 1 <<< 7

def dmacierAie : Word := 1 <<< 14

def dmacierNie : Word := 1 <<< 15

def desOwn : Word := 1 <<< 31

def desFd : Word := 1 <<< 29

def desLd : Word := 1 <<< 28

def desBuf1v : Word := 1 <<< 24

/-- `ETH_TDES2_B1L_MASK` and `ETH_RDES3_PL_MASK`. -/
def lengthMask : Word := 0x3FFF

def reg (e : Eth) (offset : Nat) : Word := e.regs (offset / 4)

def setReg (e : Eth) (offset : Nat) (v : Word) : Eth :=
  { e with regs := Function.update e.regs (offset / 4) v }

def clockBit (e : Eth) (i : Nat) : Bool :=
  match e.ahb1enr with
  | none => true
  | some ahb1enr => ahb1enr >>> i &&& 1 ≠ 0

def clockEnabled (e : Eth) : Bool := e.clockBit 19

def txClockEnabled (e : Eth) : Bool := e.clockBit 20

def rxClockEnabled (e : Eth) : Bool := e.clockBit 21

def updateIrq (e : Eth) : Eth :=
  let csr := e.reg dmacsr
  let ier := e.reg dmacier
  let both (b : Word) : Bool := csr &&& b ≠ 0 && ier &&& b ≠ 0
  let normal := both dmacsrTi || both dmacsrTbu || both dmacsrRi
  let abnormal := both dmacsrRbu
  if normal && ier &&& dmacierNie ≠ 0 || abnormal && ier &&& dmacierAie ≠ 0 then
    { e.setReg dmaisr (e.reg dmaisr ||| 1) with irq := true }
  else e

def raise (e : Eth) (bits : Word) : Eth := (e.setReg dmacsr (e.reg dmacsr ||| bits)).updateIrq

/-- `eth_desc_count`. -/
def descCount (rlr : Word) : Nat :=
  let count := (rlr &&& 0x3FF) + 1
  if count ≠ 0 then count.toNat else 1

theorem descCount_eq (rlr : Word) : descCount rlr = (rlr &&& 0x3FF).toNat + 1 := by
  have low : (rlr &&& 0x3FF).toNat < 1024 := by
    rw [BitVec.toNat_and]
    exact Nat.lt_of_le_of_lt Nat.and_le_right (by decide)
  have sum : ((rlr &&& 0x3FF) + 1).toNat = (rlr &&& 0x3FF).toNat + 1 := by
    rw [BitVec.toNat_add]
    exact Nat.mod_eq_of_lt (Nat.lt_trans (Nat.add_lt_add_right low 1) (by decide))
  rw [descCount, if_pos, sum]
  intro zero
  rw [zero] at sum
  exact absurd sum.symm (Nat.succ_ne_zero _)

theorem descCount_pos (rlr : Word) : 0 < descCount rlr := descCount_eq rlr ▸ Nat.succ_pos _

theorem descCount_le (rlr : Word) : descCount rlr ≤ 1024 := by
  rw [descCount_eq, BitVec.toNat_and]
  exact Nat.succ_le_succ Nat.and_le_right

def next (rlr : Word) (idx : Fin 1024) : Fin 1024 :=
  ⟨(idx + 1) % descCount rlr,
    Nat.lt_of_lt_of_le (Nat.mod_lt _ (descCount_pos rlr)) (descCount_le rlr)⟩

/-- `eth_generate_mac`, from a random number. -/
def generateMac (v : BitVec 64) (i : Fin 6) : Byte :=
  if i = 0 then v.setWidth 8 &&& 0xFE ||| 0x02 else (v >>> (8 * i.val)).setWidth 8

/-- `eth_phy_reset`. -/
def phyReset (e : Eth) : Eth :=
  { e with phyRegs := fun i =>
      if i = 0x01 then 0x782D
      else if i = 0x02 then 0x0007
      else if i = 0x03 then 0xC0F0
      else if i = 0x04 then 0x01E1
      else 0 }

/-- `eth_apply_mac`. -/
def applyMac (e : Eth) : Eth :=
  (e.setReg maca0hr ((e.mac 5).setWidth 32 <<< 8 ||| (e.mac 4).setWidth 32)).setReg maca0lr
    ((e.mac 3).setWidth 32 <<< 24 ||| (e.mac 2).setWidth 32 <<< 16 |||
      (e.mac 1).setWidth 32 <<< 8 ||| (e.mac 0).setWidth 32)

/-- `mm_stm32h563_eth_reset`. -/
def reset (e : Eth) (random : BitVec 64) : Eth :=
  { e with
    regs := fun _ => 0
    txIdx := 0
    rxIdx := 0
    mac := generateMac random }.applyMac.phyReset

/-- `eth_handle_mdio`, with the state of the link. -/
def handleMdio (e : Eth) (up : Bool) : Eth :=
  let mdioar := e.reg macmdioar
  if mdioar &&& 1 = 0 then e
  else
    let goc := mdioar >>> 2 &&& 0x3
    let reg : BitVec 5 := (mdioar >>> 16).setWidth 5
    let phy := mdioar >>> 21 &&& 0x1F
    let e :=
      if phy ≠ 0 then e.setReg macmdiodr 0xFFFF
      else if goc = 0x3 then
        let val := e.phyRegs reg
        let val :=
          if reg = 0x01 then
            (if up then val ||| (1 : Half) <<< 2 else val &&& ~~~((1 : Half) <<< 2)) ||| (1 : Half) <<< 5
          else val
        e.setReg macmdiodr (val.setWidth 32)
      else if goc = 0x1 then
        let e := { e with
          phyRegs := Function.update e.phyRegs reg ((e.reg macmdiodr).setWidth 16) }
        if reg = 0x00 ∧ e.phyRegs 0x00 &&& (1 : Half) <<< 15 ≠ 0 then
          let e := e.phyReset
          { e with
            phyRegs := Function.update e.phyRegs 0x00 (e.phyRegs 0x00 &&& ~~~((1 : Half) <<< 15)) }
        else e
      else e
    e.setReg macmdioar (e.reg macmdioar &&& ~~~(1 : Word))

/-- `eth_read`. -/
def read (e : Eth) (offset sizeBytes : Word) (up : Bool) : Option Word × Eth :=
  if sizeBytes ≠ 4 then (none, e)
  else if !e.clockEnabled then (some 0, e)
  else if size ≤ offset then (none, e)
  else
    let e :=
      if offset.toNat = macmdioar then e.handleMdio up
      else if offset.toNat = maca0hr ∨ offset.toNat = maca0lr then e.applyMac
      else e
    (some (e.reg offset.toNat), e)

/-- `eth_dma_reset`. -/
def dmaReset (e : Eth) : Eth :=
  { (e.setReg dmacsr 0).setReg dmaisr 0 with
    txIdx := 0
    rxIdx := 0 }

/-- `eth_write`, with the random number of a reset. -/
def write (e : Eth) (offset sizeBytes value : Word) (up : Bool) (random : BitVec 64) : Bool × Eth :=
  if sizeBytes ≠ 4 then (false, e)
  else if size ≤ offset then (false, e)
  else if !e.clockEnabled then (true, e)
  else if offset.toNat = dmamr then
    let e := e.setReg dmamr value
    if value &&& dmamrSwr ≠ 0 then
      let e := e.dmaReset.reset random
      (true, e.setReg dmamr (e.reg dmamr &&& ~~~dmamrSwr))
    else (true, e)
  else if offset.toNat = dmacsr then
    (true, (e.setReg dmacsr (e.reg dmacsr &&& ~~~value)).updateIrq)
  else if offset.toNat = macmdioar then (true, (e.setReg macmdioar value).handleMdio up)
  else
    let e := e.setReg offset.toNat value
    if offset.toNat = maca0hr then
      (true, { e with mac := fun i =>
        if i = 5 then (value >>> 8).setWidth 8 else if i = 4 then value.setWidth 8 else e.mac i })
    else if offset.toNat = maca0lr then
      (true, { e with mac := fun i =>
        if i.val < 4 then (value >>> (8 * i.val)).setWidth 8 else e.mac i })
    else (true, e)

section Poll

variable {μ : Type u} (bus : DmaBus μ)

/-- The loop of `eth_tx_poll` over the bytes of a buffer, which reads its words into `des1`: the
bytes it got, and the last word. -/
def gather (des0 : Word) : Nat → Nat → Word → μ → List Byte × Word × μ
  | 0, _, des1, m => ([], des1, m)
  | n + 1, j, des1, m =>
    match bus.read32 m (des0 + BitVec.ofNat 32 (4 * (j / 4))) with
    | (none, m) => ([], des1, m)
    | (some des1, m) =>
      let (bytes, last, m) := gather des0 n (j + 1) des1 m
      ((des1 >>> (8 * (j % 4))).setWidth 8 :: bytes, last, m)

/-- `len` of `eth_tx_poll`, at most the size of its `buf`. -/
def txLength (desc : EthDesc) : Nat := min (desc.des2 &&& lengthMask).toNat 1600

/-- The body of the loop of `eth_tx_poll` for a descriptor that the DMA owns. The bytes that could
not be read are what `buf` held before. -/
def send (rlr : Word) (buf : Nat → Byte) (addr : Word) (desc : EthDesc) (e : Eth) (m : μ) :
    List Byte × Eth × μ :=
  let len := txLength desc
  let (bytes, des1, m) := gather bus desc.des0 len 0 desc.des1 m
  let frame := (List.range len).map fun j => bytes.getD j (buf j)
  let (_, m) := bus.writeDesc m addr { desc with des1, des3 := desc.des3 &&& ~~~desOwn }
  (frame, { e.raise dmacsrTi with txIdx := next rlr e.txIdx }, m)

def txLoop (base rlr : Word) (buf : Nat → Nat → Byte) :
    Nat → Eth → μ → List (List Byte) × Eth × μ
  | 0, e, m => ([], e, m)
  | n + 1, e, m =>
    let addr := base + BitVec.ofNat 32 (16 * e.txIdx)
    match bus.readDesc m addr with
    | (none, m) => ([], e, m)
    | (some desc, m) =>
      if desc.des3 &&& desOwn = 0 then ([], e, m)
      else
        let (frame, e, m) := e.send bus rlr (buf n) addr desc m
        let (frames, e, m) := txLoop base rlr buf n e m
        (frame :: frames, e, m)

def txEnabled (e : Eth) : Bool :=
  e.clockEnabled && e.txClockEnabled && e.reg maccr &&& maccrTe ≠ 0 && e.reg dmactxcr &&& 1 ≠ 0

/-- `eth_tx_poll`, with the frames that it sends. -/
def txPoll (buf : Nat → Nat → Byte) (e : Eth) (m : μ) : List (List Byte) × Eth × μ :=
  if e.txEnabled then
    txLoop bus (e.reg dmactxdlar) (e.reg dmactxrlr) buf (descCount (e.reg dmactxrlr)) e m
  else ([], e, m)

/-- `eth_rx_buf_len`. -/
def rxBufLen (e : Eth) (desc : EthDesc) : Nat :=
  let len := desc.des3 &&& lengthMask
  (if len = 0 then e.reg dmacrxcr >>> 1 &&& 0x3FFF else len).toNat

/-- The loop of `eth_rx_poll` over the bytes of a frame. -/
def store (des0 : Word) : List Byte → Nat → μ → μ
  | [], _, m => m
  | b :: data, i, m =>
    let addr := des0 + BitVec.ofNat 32 (4 * (i / 4))
    let (word, m) := bus.read32 m addr
    let word := word.getD 0 &&& ~~~(0xFF#32 <<< (8 * (i % 4))) ||| b.setWidth 32 <<< (8 * (i % 4))
    store des0 data (i + 1) (bus.write32 m addr word).2

def rxEnabled (e : Eth) : Bool :=
  e.clockEnabled && e.rxClockEnabled && e.reg maccr &&& maccrRe ≠ 0 && e.reg dmacrxcr &&& 1 ≠ 0

def rxSlot (e : Eth) : Word := e.reg dmacrxdlar + BitVec.ofNat 32 (16 * e.rxIdx)

/-- `eth_rx_poll`, with the frame that the backend has, if any. -/
def rxPoll (frame : List Byte) (e : Eth) (m : μ) : Eth × μ :=
  if !e.rxEnabled then (e, m)
  else if frame = [] then (e, m)
  else
    match bus.readDesc m e.rxSlot with
    | (none, m) => (e, m)
    | (some desc, m) =>
      if desc.des3 &&& desOwn = 0 then (e.raise dmacsrRbu, m)
      else
        let len := e.rxBufLen desc
        if len = 0 then (e, m)
        else
          let data := frame.take len
          let m := store bus desc.des0 data 0 m
          let des3 := desc.des3 &&& desBuf1v ||| desFd ||| desLd |||
            (BitVec.ofNat 32 data.length &&& lengthMask)
          let (_, m) := bus.writeDesc m e.rxSlot { desc with des3 }
          ({ e.raise dmacsrRi with rxIdx := next (e.reg dmacrxrlr) e.rxIdx }, m)

/-- `mm_stm32h563_eth_poll`. -/
def poll (buf : Nat → Nat → Byte) (frame : List Byte) (e : Eth) (m : μ) :
    List (List Byte) × Eth × μ :=
  if !e.clockEnabled then ([], e, m)
  else
    let (frames, e, m) := e.txPoll bus buf m
    let (e, m) := e.rxPoll bus frame m
    (frames, e, m)

end Poll

end Eth

end M33mu
