import M33mu.Lib.Run
import M33mu.Types

namespace M33mu

abbrev Size := BitVec 64

/-- The device behind the server. A transfer to it gets the bytes and how many there are; one from
it gives the bytes, or is not ready. -/
structure UsbDevice (σ : Type u) where
  epOut : σ → Word → (Nat → Byte) → Word → Bool → Bool × σ
  epIn : σ → Word → Word → Option (List Byte) × σ
  busReset : σ → σ

/-- `data` holds the first `data_len` bytes. -/
structure UsbipPending where
  active : Bool
  cancelled : Bool
  seqnum : Word
  devid : Word
  direction : Word
  ep : Word
  transferLen : Word
  expectedLen : Word
  wLength : Half
  setup : List Byte
  isControl : Bool
  data : List Byte
  deriving DecidableEq, Repr

def UsbipPending.empty : UsbipPending :=
  ⟨false, false, 0, 0, 0, 0, 0, 0, 0, [], false, []⟩

inductive UsbipEvent
  /-- A client connects. -/
  | accepted
  /-- `n` bytes from `off` on are read of a buffer that holds `held`. -/
  | read (off n : Nat) (held : Size)
  /-- `n` bytes are taken from a buffer that holds `held`. -/
  | consume (n held : Size)
  /-- A submission of an imported device. -/
  | submit (seqnum : Word)
  | retSubmit (seqnum status : Word)
  /-- The answer to an unlink, and the submission that it names. -/
  | retUnlink (seqnum unlinked status : Word)
  deriving DecidableEq, Repr

/-- `g_usbip`, with the first `tx_len` bytes of `tx_buf` and with `g_usb_wait_more`. -/
structure Usbip (σ : Type u) where
  running : Bool
  /-- `client_fd >= 0` -/
  connected : Bool
  imported : Bool
  pendingStatusOut : Bool
  statusOutHostPending : Bool
  statusOutSeqnum : Word
  statusOutDevid : Word
  busnum : Word
  devnum : Word
  busid : List Byte
  rxBuf : Nat → Byte
  rxLen : Size
  txBuf : List Byte
  txOff : Nat
  pending : Fin 16 → UsbipPending
  waitMore : Bool
  dev : σ
  trace : List UsbipEvent

namespace Usbip

/-- The server that `mm_usbdev_start` leaves, before any client. -/
def start {σ : Type u} (dev : σ) : Usbip σ where
  running := true
  connected := false
  imported := false
  pendingStatusOut := false
  statusOutHostPending := false
  statusOutSeqnum := 0
  statusOutDevid := 0
  busnum := 1
  devnum := 2
  busid := [0x31, 0x2d, 0x31]
  rxBuf _ := 0
  rxLen := 0
  txBuf := []
  txOff := 0
  pending _ := .empty
  waitMore := false
  dev := dev
  trace := []

def rxSize : Nat := 65536
def txSize : Nat := 65536
def pendingDataMax : Nat := 4096

def opReqDevlist : Half := 0x8005
def opRepDevlist : Half := 0x0005
def opReqImport : Half := 0x8003
def opRepImport : Half := 0x0003
def version : Half := 0x0111

def cmdSubmit : Word := 1
def cmdUnlink : Word := 2
def retSubmit : Word := 3
def retUnlink : Word := 4

def enodev : Word := -19
def eagain : Word := -11
def econnreset : Word := -104

def htons (v : Half) : List Byte := [v.extractLsb' 8 8, v.extractLsb' 0 8]

def htonl (v : Word) : List Byte :=
  [v.extractLsb' 24 8, v.extractLsb' 16 8, v.extractLsb' 8 8, v.extractLsb' 0 8]

/-- A field of a packet, `ntohl(*(mm_u32 *)(buf + off))`. -/
def field (buf : Nat → Byte) (off : Nat) : Word :=
  buf off ++ buf (off + 1) ++ buf (off + 2) ++ buf (off + 3)

def half (buf : Nat → Byte) (off : Nat) : Half := buf off ++ buf (off + 1)

/-- `w_length` of a setup packet is in little endian. -/
def setupLength (setup : Nat → Byte) : Half := setup 7 ++ setup 6

def padded (n : Nat) (bytes : List Byte) : List Byte := (bytes ++ List.replicate n 0).take n

def opCommon (code : Half) (status : Word) : List (List Byte) :=
  [htons version, htons code, htonl status]

def devicePath : List Byte := [0x6d, 0x33, 0x33, 0x6d, 0x75, 0x2d, 0x75, 0x73, 0x62, 0x69, 0x70]

/-- `OP_REQ_IMPORT` of the device. -/
def importRequest : List Byte :=
  (opCommon opReqImport 0).flatten ++ padded 32 [0x31, 0x2d, 0x31]

/-- The header of a `CMD_SUBMIT` with an empty setup packet. -/
def submitHeader (seqnum direction ep transferLen : Word) : List Byte :=
  [cmdSubmit, seqnum, 0x10002, direction, ep, 0, transferLen, 0, 0, 0, 0, 0].flatMap htonl

variable {σ : Type u}

def deviceDesc (s : Usbip σ) (speed : Word) : List (List Byte) :=
  [padded 256 devicePath, padded 32 s.busid, htonl s.busnum, htonl s.devnum, htonl speed,
    htons 0xCafe, htons 0x4000, htons 0x0100, [0], [0], [0], [1], [1], [3]]

def retSubmitHeader (seqnum devid direction ep status payloadLen : Word) : List Byte :=
  [retSubmit, seqnum, devid, direction, ep, status, payloadLen, 0, 0, 0, 0, 0].flatMap htonl

def retUnlinkHeader (seqnum devid direction ep status : Word) : List Byte :=
  [retUnlink, seqnum, devid, direction, ep, status, 0, 0, 0, 0, 0, 0].flatMap htonl

def record (s : Usbip σ) (e : UsbipEvent) : Usbip σ := { s with trace := e :: s.trace }

def note (s : Usbip σ) (off n : Nat) : Usbip σ := s.record (.read off n s.rxLen)

def txQueue (s : Usbip σ) (data : List Byte) : Bool × Usbip σ :=
  if data = [] then (true, s)
  else if txSize < s.txBuf.length + data.length then (false, s)
  else (true, { s with txBuf := s.txBuf ++ data })

def txQueueAll (s : Usbip σ) : List (List Byte) → Bool × Usbip σ
  | [] => (true, s)
  | data :: rest =>
    match s.txQueue data with
    | (true, s) => s.txQueueAll rest
    | (false, s) => (false, s)

/-- `usbip_reset_client`, which drops the client. -/
def resetClient (s : Usbip σ) : Usbip σ :=
  { s with
    connected := false
    rxLen := 0
    txBuf := []
    txOff := 0
    imported := false
    pendingStatusOut := false
    statusOutHostPending := false
    statusOutSeqnum := 0
    statusOutDevid := 0
    pending := fun _ => .empty }

def orReset (sent : Bool × Usbip σ) : Usbip σ :=
  match sent with
  | (true, s) => s
  | (false, s) => s.resetClient

inductive SendResult
  | sent (n : Nat)
  | again
  | failed
  deriving DecidableEq, Repr

/-- The loop of `usbip_tx_flush`. A client whose connection fails is dropped here without
`usbip_reset_client`. -/
def txFlushLoop (s : Usbip σ) : List SendResult → Usbip σ
  | [] => s
  | r :: rs =>
    if s.txOff < s.txBuf.length then
      match r with
      | .sent n => { s with txOff := s.txOff + n }.txFlushLoop rs
      | .again => s
      | .failed =>
        { s with
          connected := false
          imported := false
          txBuf := []
          txOff := 0
          rxLen := 0
          pending := fun _ => .empty }
    else s

def txFlush (s : Usbip σ) (sends : List SendResult) : Usbip σ :=
  if s.connected = false ∨ s.txBuf.length ≤ s.txOff then { s with txBuf := [], txOff := 0 }
  else
    let s := s.txFlushLoop sends
    if s.txBuf.length ≤ s.txOff then { s with txBuf := [], txOff := 0 } else s

def sendRetSubmit (s : Usbip σ) (seqnum devid direction ep status : Word) (payload : List Byte) :
    Bool × Usbip σ :=
  let header := retSubmitHeader seqnum devid direction ep status (BitVec.ofNat 32 payload.length)
  match s.txQueueAll (header :: if direction = 1 then [payload] else []) with
  | (true, s) => (true, s.record (.retSubmit seqnum status))
  | (false, s) => (false, s)

def sendRetUnlink (s : Usbip σ) (seqnum devid direction ep unlinked status : Word) :
    Bool × Usbip σ :=
  match s.txQueue (retUnlinkHeader seqnum devid direction ep status) with
  | (true, s) => (true, s.record (.retUnlink seqnum unlinked status))
  | (false, s) => (false, s)

def allocPending (s : Usbip σ) : Option (Fin 16) :=
  (List.finRange 16).find? fun i => !(s.pending i).active

def setPending (s : Usbip σ) (i : Fin 16) (p : UsbipPending) : Usbip σ :=
  { s with pending := Function.update s.pending i p }

section Handlers

variable (device : UsbDevice σ)

def epOut (s : Usbip σ) (ep : Word) (data : Nat → Byte) (len : Word) (setup : Bool) :
    Bool × Usbip σ :=
  let (done, dev) := device.epOut s.dev ep data len setup
  (done, { s with dev := dev })

def epIn (s : Usbip σ) (ep len : Word) : Option (List Byte) × Usbip σ :=
  let (data, dev) := device.epIn s.dev ep len
  (data, { s with dev := dev })

def handleDevlist (s : Usbip σ) : Usbip σ :=
  match s.txQueueAll (opCommon opRepDevlist 0) with
  | (false, s) => s.resetClient
  | (true, s) =>
    match s.txQueue (htonl 1) with
    | (false, s) => s.resetClient
    | (true, s) => orReset (s.txQueueAll (s.deviceDesc 2))

/-- `usbip_handle_import`; any bus id is accepted. -/
def handleImport (s : Usbip σ) : Usbip σ :=
  match s.txQueueAll (opCommon opRepImport 0) with
  | (false, s) => s.resetClient
  | (true, s) =>
    match s.txQueueAll (s.deviceDesc 2) with
    | (false, s) => s.resetClient
    | (true, s) => { s with imported := true, dev := device.busReset s.dev }

/-- The configuration of an interface with empty endpoints, as the firmware lays it out. -/
def cdcBroken : List Byte :=
  [0x09, 0x04, 0x01, 0x00, 0x02, 0x0a, 0x00, 0x00, 0x00, 0x07, 0x05, 0x02, 0x00, 0x00, 0x09, 0x04,
    0x02]

def cdcEndpoints : List Byte :=
  [0x07, 0x05, 0x02, 0x02, 0x40, 0x00, 0x00, 0x07, 0x05, 0x82, 0x02, 0x40, 0x00, 0x00]

def cdcIndex (data : List Byte) : Option Nat :=
  (List.range data.length).find? fun idx =>
    idx + 20 < data.length && (data.drop idx).take 17 = cdcBroken

def withTotalLen (data : List Byte) : List Byte :=
  let len : Half := BitVec.ofNat 16 data.length
  (data.set 2 (len.extractLsb' 0 8)).set 3 (len.extractLsb' 8 8)

def patchConfig (data : List Byte) : List Byte :=
  match cdcIndex data with
  | some idx =>
    let fixed := data.take (idx + 9) ++ cdcEndpoints ++ data.drop (idx + 14)
    if pendingDataMax < fixed.length then withTotalLen data else withTotalLen fixed
  | none => withTotalLen data

def completedData (p : UsbipPending) : List Byte :=
  let setup (i : Nat) : Byte := p.setup.getD i 0
  let data (i : Nat) : Byte := p.data.getD i 0
  if 4 ≤ p.data.length ∧ setup 0 = 0x80 ∧ setup 1 = 0x06 ∧ setup 3 = 0x02 then
    if 9 < p.wLength ∧ p.data.length < (data 3 ++ data 2).toNat then patchConfig p.data else p.data
  else p.data

/-- One transfer of `usbip_complete_pending`. -/
def completeOne (s : Usbip σ) (i : Fin 16) : Usbip σ :=
  let p := s.pending i
  if p.active = false then s
  else if p.cancelled then s.setPending i { p with active := false }
  else if p.isControl ∧ p.ep = 0 ∧ p.direction = 1 then
    let chunk := p.expectedLen - BitVec.ofNat 32 p.data.length
    match s.epIn device 0 (if pendingDataMax < chunk.toNat then 4096 else chunk) with
    | (none, s) => s
    | (some bytes, s) =>
      if pendingDataMax < p.data.length + bytes.length then s.setPending i { p with active := false }
      else
        let p := { p with data := p.data ++ bytes }
        if p.expectedLen.toNat ≤ p.data.length ∨ bytes.length < 64 then
          let p := { p with data := completedData p }
          match (s.setPending i p).sendRetSubmit p.seqnum p.devid p.direction p.ep 0 p.data with
          | (false, s) => s.resetClient
          | (true, s) => { s.setPending i { p with active := false } with pendingStatusOut := true }
        else s.setPending i p
  else
    match s.epIn device p.ep (if pendingDataMax < p.transferLen.toNat then 4096 else p.transferLen) with
    | (none, s) => s
    | (some bytes, s) =>
      match s.sendRetSubmit p.seqnum p.devid p.direction p.ep 0 bytes with
      | (false, s) => s.resetClient
      | (true, s) =>
        { s.setPending i { p with active := false } with
          pendingStatusOut := s.pendingStatusOut || (p.isControl && p.ep = 0) }

/-- `usbip_complete_pending`, which ends early only when it drops the client and empties the
table. -/
def completePending (s : Usbip σ) : Usbip σ :=
  (List.finRange 16).foldl (completeOne device) s

structure Submit where
  seqnum : Word
  devid : Word
  direction : Word
  ep : Word
  transferLen : Word
  setup : Nat → Byte

def submitOf (buf : Nat → Byte) : Submit where
  seqnum := field buf 4
  devid := field buf 8
  direction := field buf 12
  ep := field buf 16
  transferLen := field buf 24
  setup i := buf (40 + i)

def Submit.isControl (u : Submit) : Bool := u.ep = 0

def Submit.pending (u : Submit) (data : List Byte) : UsbipPending :=
  let wLength := setupLength u.setup
  let wanted := if wLength ≠ 0 ∧ wLength.toNat < u.transferLen.toNat then wLength.setWidth 32
    else u.transferLen
  { active := true
    cancelled := false
    seqnum := u.seqnum
    devid := u.devid
    direction := u.direction
    ep := u.ep
    transferLen := u.transferLen
    expectedLen := if pendingDataMax < wanted.toNat then 4096 else wanted
    wLength := wLength
    setup := (List.range 8).map u.setup
    isControl := u.isControl
    data := data }

def Submit.answer (s : Usbip σ) (u : Submit) (status : Word) (payload : List Byte) :
    Bool × Usbip σ :=
  s.sendRetSubmit u.seqnum u.devid u.direction u.ep status payload

def waitFor (s : Usbip σ) (u : Submit) (data : List Byte) : Usbip σ :=
  match s.allocPending with
  | some i => s.setPending i (u.pending data)
  | none => (u.answer s eagain []).2

def handleOut (s : Usbip σ) (u : Submit) (payload : Nat → Byte) (hasPayload : Bool) : Usbip σ :=
  if 0 < u.transferLen ∧ hasPayload = true then
    let s := s.note 48 u.transferLen.toNat
    orReset (u.answer (s.epOut device u.ep payload u.transferLen false).2 0 [])
  else if u.isControl = true ∧ u.transferLen = 0 then
    match s.epOut device 0 (fun _ => 0) 0 false with
    | (true, s) =>
      { orReset (u.answer s 0 []) with pendingStatusOut := false, statusOutHostPending := false }
    | (false, s) =>
      { s with
        pendingStatusOut := true
        statusOutHostPending := true
        statusOutSeqnum := u.seqnum
        statusOutDevid := u.devid }
  else orReset (u.answer s 0 [])

def handleIn (s : Usbip σ) (u : Submit) : Usbip σ :=
  let len := if pendingDataMax < u.transferLen.toNat then 4096 else u.transferLen
  match s.epIn device u.ep len with
  | (some payload, s) =>
    if u.isControl ∧ payload.length = 64 ∧ payload.length < u.transferLen.toNat then
      s.waitFor u payload
    else
      let s := orReset (u.answer s 0 payload)
      { s with pendingStatusOut := s.pendingStatusOut || u.isControl }
  | (none, s) => s.waitFor u []

def sendSetup (s : Usbip σ) (u : Submit) : Usbip σ :=
  if u.isControl then (s.epOut device 0 u.setup 8 true).2 else s

/-- `usbip_handle_submit`, once the whole packet is there. -/
def handleSubmit (s : Usbip σ) (hasPayload : Bool) : Usbip σ :=
  let u := submitOf s.rxBuf
  if field s.rxBuf 0 ≠ cmdSubmit then s
  else if s.imported = false then (u.answer s enodev []).2
  else
    let payload (i : Nat) : Byte := s.rxBuf (48 + i)
    let s := (s.record (.submit u.seqnum)).sendSetup device u
    if u.direction = 0 then s.handleOut device u payload hasPayload
    else if u.direction = 1 then s.handleIn device u
    else s

def findPending (s : Usbip σ) (seqnum : Word) : Option (Fin 16) :=
  (List.finRange 16).find? fun i => (s.pending i).active && (s.pending i).seqnum = seqnum

/-- The branch of `usbip_handle_urb` for an unlink. -/
def handleUnlink (s : Usbip σ) : Usbip σ :=
  let f := field s.rxBuf
  match s.findPending (f 20) with
  | some i =>
    let s := s.setPending i { s.pending i with cancelled := true, active := false }
    (s.sendRetUnlink (f 4) (f 8) (f 12) (f 16) (f 20) econnreset).2
  | none => (s.sendRetUnlink (f 4) (f 8) (f 12) (f 16) (f 20) 0).2

def hasPayload (buf : Nat → Byte) : Bool :=
  field buf 0 = cmdSubmit ∧ field buf 12 = 0 ∧ 0 < field buf 24

/-- The size of the packet at the head of the buffer, a sum of 32 bits. -/
def needed (buf : Nat → Byte) : Size :=
  ((48 : Word) + if hasPayload buf then field buf 24 else 0).setWidth 64

/-- `rx_len -= n`. -/
def consume (s : Usbip σ) (n : Size) : Usbip σ :=
  { s.record (.consume n s.rxLen) with rxLen := s.rxLen - n }

/-- `memmove(rx_buf, rx_buf + n, rx_len - n)`. -/
def moveDown (s : Usbip σ) (n : Size) : Usbip σ :=
  { s with rxBuf := fun i =>
      if i < (s.rxLen - n).toNat then s.rxBuf (n.toNat + i) else s.rxBuf i }

def handleCommand (s : Usbip σ) : Usbip σ :=
  if field s.rxBuf 0 = cmdSubmit then s.handleSubmit device (hasPayload s.rxBuf)
  else if field s.rxBuf 0 = cmdUnlink then s.handleUnlink
  else s

def takePacket (s : Usbip σ) (n : Size) : Usbip σ :=
  (if n < s.rxLen then s.moveDown n else s).consume n

def handleUrb (s : Usbip σ) : Usbip σ :=
  if s.rxLen < 48 then s
  else
    let s := s.note 0 48
    let n := needed s.rxBuf
    if s.rxLen < n then s
    else
      (s.handleCommand device).takePacket n

def handleMgmt (s : Usbip σ) : Usbip σ :=
  if s.rxLen < 8 then s
  else
    let s := s.note 0 4
    let code := half s.rxBuf 2
    if half s.rxBuf 0 ≠ version then s.resetClient
    else if code = opReqDevlist then ((s.moveDown 8).consume 8).handleDevlist
    else if code = opReqImport then
      if s.rxLen < 40 then { s with waitMore := true }
      else
        let s := (s.note 8 32).handleImport device
        { (s.moveDown 40).consume 40 with waitMore := false }
    else s.resetClient

def LoopGoes (s : Usbip σ) : Prop := s.connected = true ∧ 0 < s.rxLen

instance (s : Usbip σ) : Decidable s.LoopGoes := inferInstanceAs (Decidable (_ ∧ _))

def handlePacket (s : Usbip σ) : Usbip σ :=
  if s.imported then s.handleUrb device else s.handleMgmt device

def Leaves (s : Usbip σ) : Prop :=
  s.rxLen = 0 ∨ s.waitMore = true ∨ s.imported = false ∧ s.rxLen < 8 ∨
    s.imported = true ∧ s.rxLen < 48

instance (s : Usbip σ) : Decidable s.Leaves := inferInstanceAs (Decidable (_ ∨ _ ∨ _ ∨ _))

/-- The packet loop; none where the passes do not suffice. -/
def packetLoop : Nat → Usbip σ → Option (Usbip σ)
  | 0, _ => none
  | n + 1, s =>
    if s.LoopGoes then
      let s := s.handlePacket device
      if s.Leaves then some s else packetLoop n s
    else some s

def tryStatusOut (s : Usbip σ) : Usbip σ :=
  if s.pendingStatusOut && s.statusOutHostPending then
    match s.epOut device 0 (fun _ => 0) 0 false with
    | (true, s) =>
      match s.sendRetSubmit s.statusOutSeqnum s.statusOutDevid 0 0 0 [] with
      | (false, s) => s.resetClient
      | (true, s) =>
        { s with
          pendingStatusOut := false
          statusOutHostPending := false
          statusOutSeqnum := 0
          statusOutDevid := 0 }
    | (false, s) => s
  else s

end Handlers

/-- What `recv` answers; no bytes are the end of the stream. -/
inductive RecvResult
  | bytes (data : List Byte)
  | again
  | failed
  deriving DecidableEq, Repr

def acceptClient (s : Usbip σ) : Usbip σ :=
  { s.record .accepted with
    connected := true
    rxLen := 0
    txBuf := []
    txOff := 0
    imported := false
    pending := fun _ => .empty }

def append (s : Usbip σ) (data : List Byte) : Usbip σ :=
  { s with
    rxBuf := fun i => if i < s.rxLen.toNat then s.rxBuf i else data.getD (i - s.rxLen.toNat) (s.rxBuf i)
    rxLen := s.rxLen + BitVec.ofNat 64 data.length }

def receive (s : Usbip σ) (r : RecvResult) : Usbip σ :=
  let space := BitVec.ofNat 64 rxSize - s.rxLen
  if space = 0 then s
  else
    match r with
    | .bytes [] => s.resetClient
    | .bytes data => s.append (data.take space.toNat)
    | .again => s
    | .failed => s.resetClient

def rank (s : Usbip σ) : Nat := s.rxLen.toNat * (txSize + 1) + (txSize - s.txBuf.length)

/-- `mm_usbdev_poll` up to the packet loop. -/
def pollOpen (s : Usbip σ) (accept : Bool) (r : RecvResult) : Usbip σ :=
  let s := if s.connected = false ∧ accept = true then s.acceptClient else s
  if s.connected then s.receive r else s

/-- `mm_usbdev_poll`; none where the packet loop does not end. -/
def poll (device : UsbDevice σ) (s : Usbip σ) (accept : Bool) (r : RecvResult)
    (sends : List SendResult) : Option (Usbip σ) :=
  if s.running = false ∨ s.connected = false ∧ accept = false then some s
  else
    let s := s.pollOpen accept r
    (s.packetLoop device (s.rank + 2)).map fun s =>
      ((s.tryStatusOut device).completePending device).txFlush sends

inductive Part
  | opens (accept : Bool) (r : RecvResult)
  | pass
  | statusOut
  | complete (i : Fin 16)
  | flush (sends : List SendResult)

def step (device : UsbDevice σ) (s : Usbip σ) : Part → Usbip σ
  | .opens accept r => s.pollOpen accept r
  | .pass => if s.LoopGoes then s.handlePacket device else s
  | .statusOut => s.tryStatusOut device
  | .complete i => s.completeOne device i
  | .flush sends => s.txFlush sends

end Usbip

end M33mu
