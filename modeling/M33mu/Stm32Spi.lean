import M33mu.SpiBus

namespace M33mu

open Lib

structure SpiInst where
  regs : RegFile
  rxHead : Byte
  rxTail : Byte
  enabled : Bool
  transferActive : Bool
  eotPending : Bool
  tsizeRem : Word
  busIndex : Nat

namespace SpiInst

def size : Word := 0x50

def crSpe : Word := 1

def crCstart : Word := 1 <<< 9

def srEot : Word := 1 <<< 3

def srTxtf : Word := 1 <<< 4

def srBusy : Word := 1 <<< 10

def srTxc : Word := 1 <<< 12

def cr1 (s : SpiInst) : Word := s.regs.word 0x00

def cr2 (s : SpiInst) : Word := s.regs.word 0x04

def cfg1 (s : SpiInst) : Word := s.regs.word 0x08

def sr (s : SpiInst) : Word := s.regs.word 0x14

/-- `spi_frame_bytes`. -/
def frameBytes (s : SpiInst) : Word :=
  let dsize := if s.cfg1 &&& 0x1F = 0 then 8 else (s.cfg1 &&& 0x1F) + 1
  if dsize ≤ 8 then 1 else if dsize ≤ 16 then 2 else 4

/-- `fifo_count`. -/
def fifoCount (s : SpiInst) : Byte := (s.rxTail - s.rxHead) &&& 0x1F

/-- `fifo_push`: a byte that finds the FIFO full is lost. -/
def fifoPush (s : SpiInst) (v : Byte) : SpiInst :=
  let next := (s.rxTail + 1) &&& 0x1F
  if next = s.rxHead then s
  else
    { s with
      regs := s.regs.copy (size.toNat + s.rxTail.toNat) 1 (v.setWidth 32)
      rxTail := next }

/-- `fifo_pop`. -/
def fifoPop (s : SpiInst) : Option Byte × SpiInst :=
  if s.rxHead = s.rxTail then (none, s)
  else
    (some (s.regs (size.toNat + s.rxHead.toNat)),
      { s with rxHead := (s.rxHead + 1) &&& 0x1F })

/-- `update_sr`. -/
def updateSr (s : SpiInst) : SpiInst :=
  let count := s.fifoCount
  let tsize := if s.transferActive then s.tsizeRem else 0
  let busy := s.enabled && (s.transferActive || 0 < count)
  -- RXP, TXP and DXP
  let sr : Word := (if 0 < count then 0b101 else 0) ||| 0b10
  let sr := if busy then sr ||| srBusy else sr
  let sr := if s.eotPending then sr ||| (srEot ||| srTxtf ||| srTxc) else sr
  let sr := if 4 ≤ count then sr ||| 1 <<< 15 else sr
  let sr := sr ||| (if 3 < count then 3 else count.setWidth 32) <<< 13
  { s with regs := s.regs.setWord 0x14 (sr ||| (tsize &&& 0xFFFF) <<< 16) }

/-- `spi_set_enabled`. -/
def setEnabled (s : SpiInst) (enable : Bool) (ds : List SpiDevice) : SpiInst × List SpiDevice :=
  if enable then ({ s with enabled := true }.updateSr, ds)
  else
    ({ s with
        enabled := false
        transferActive := false
        eotPending := false
        tsizeRem := 0
        rxHead := 0
        rxTail := 0 }.updateSr, spiBusEnd s.busIndex ds)

/-- `spi_start_transfer`: a TSIZE of zero is a transfer without an end. -/
def startTransfer (s : SpiInst) : SpiInst :=
  let tsize := s.cr2 &&& 0xFFFF
  { s with
    transferActive := true
    eotPending := false
    tsizeRem := if tsize = 0 then 0xFFFFFFFF else tsize
    regs := s.regs.setWord 0x14 (s.sr &&& ~~~(srEot ||| srTxtf ||| srTxc)) }

def txOut (value : Word) (i : Nat) : Byte := (value >>> (i * 8)).setWidth 8

/-- One round of the loop in `spi_handle_tx`. -/
def txByte (banks : Banks) (value : Word) (now : SpiInst × List SpiDevice) (i : Nat) :
    SpiInst × List SpiDevice :=
  let (s, ds) := now
  let (answer, ds) := spiBusXfer banks s.busIndex (txOut value i) ds
  let s := s.fifoPush answer
  (if s.transferActive && s.tsizeRem ≠ 0 then { s with tsizeRem := s.tsizeRem - 1 } else s, ds)

def sendBytes (s : SpiInst) (n : Word) : Word := if n < s.frameBytes then n else s.frameBytes

/-- `spi_handle_tx`. -/
def handleTx (s : SpiInst) (banks : Banks) (value n : Word) (ds : List SpiDevice) :
    SpiInst × List SpiDevice :=
  if !s.enabled then (s, ds)
  else
    let (s, ds) := (List.range (s.sendBytes n).toNat).foldl (txByte banks value) (s, ds)
    if s.transferActive && s.tsizeRem = 0 then
      ({ s with transferActive := false, eotPending := true }.updateSr, spiBusEnd s.busIndex ds)
    else (s.updateSr, ds)

def applySpe (s : SpiInst) (value : Word) (busy : Bool) (ds : List SpiDevice) :
    SpiInst × List SpiDevice :=
  if value &&& crSpe ≠ 0 then s.setEnabled true ds
  else if !busy then s.setEnabled false ds
  else ({ s with regs := s.regs.setWord 0x00 (s.cr1 ||| crSpe) }, ds)

def applyCstart (s : SpiInst) (value : Word) : SpiInst :=
  if value &&& crCstart ≠ 0 then if s.enabled then s.startTransfer else s else s

/-- The part of `spi_write` that sets CR1. -/
def writeCr1 (s : SpiInst) (value : Word) (ds : List SpiDevice) : SpiInst × List SpiDevice :=
  let wasEnabled := s.cr1 &&& crSpe ≠ 0
  let busy := s.sr &&& srBusy ≠ 0
  let s := { s with regs := s.regs.setWord 0x00 value }
  let (s, ds) := s.applySpe value busy ds
  let s := s.applyCstart value
  (s, if wasEnabled ∧ value &&& crSpe = 0 then spiBusEnd s.busIndex ds else ds)

/-- The part of `spi_write` that clears flags. -/
def writeIfcr (s : SpiInst) (value : Word) : SpiInst :=
  let sr := s.sr
  let eot := value &&& srEot ≠ 0
  let sr := if eot then sr &&& ~~~srEot else sr
  let sr := if value &&& srTxtf ≠ 0 then sr &&& ~~~srTxtf else sr
  let sr := if value &&& 1 <<< 11 ≠ 0 then sr &&& ~~~(1 <<< 11 : Word) else sr
  { s with
    eotPending := if eot then false else s.eotPending
    regs := s.regs.setWord 0x14 sr }

/-- `spi_write`. -/
def write (s : SpiInst) (banks : Banks) (offset n value : Word) (ds : List SpiDevice) :
    Bool × SpiInst × List SpiDevice :=
  if n = 0 ∨ 4 < n then (false, s, ds)
  else if size ≤ offset then (false, s, ds)
  else if offset = 0x00 then (true, s.writeCr1 value ds)
  else if offset = 0x20 then (true, s.handleTx banks value n ds)
  else if offset = 0x18 then (true, s.writeIfcr value, ds)
  else (true, { s with regs := s.regs.copy offset.toNat n.toNat value }, ds)

/-- One round of the loop in `spi_read` over RXDR. -/
def rxByte (now : Word × SpiInst) (i : Nat) : Word × SpiInst :=
  let (v, s) := now
  let (b, s) := s.fifoPop
  (v ||| (b.getD 0).setWidth 32 <<< (i * 8), s)

/-- `spi_read`. -/
def read (s : SpiInst) (offset n : Word) : Option Word × SpiInst :=
  if n = 0 ∨ 4 < n then (none, s)
  else if size ≤ offset then (none, s)
  else if offset = 0x30 then
    let (v, s) := (List.range (s.sendBytes n).toNat).foldl rxByte (0, s)
    (some v, s.updateSr)
  else
    let s := s.updateSr
    (some (s.regs.slice offset.toNat n.toNat), s)

/-- What `poll_instance` leaves of the controller. -/
def poll (s : SpiInst) : SpiInst := if s.enabled then s.updateSr else s

end SpiInst

inductive SpiOp
  | gpio (bank : Fin 9) (secAlias : Bool) (offset n value : Word)
  | write (i : Fin 6) (offset n value : Word)
  | read (i : Fin 6) (offset n : Word)
  | poll
  deriving DecidableEq, Repr

structure SpiMachine where
  bus : SpiBus
  insts : Fin 6 → SpiInst

namespace SpiMachine

def step (m : SpiMachine) : SpiOp → SpiMachine
  | .gpio bank secAlias offset n value =>
    { m with bus := m.bus.step (.gpio bank secAlias offset n value) }
  | .write i offset n value =>
    let (_, s, ds) := (m.insts i).write m.bus.banks offset n value m.bus.devices
    { bus := { m.bus with devices := ds }, insts := Function.update m.insts i s }
  | .read i offset n =>
    { m with insts := Function.update m.insts i ((m.insts i).read offset n).2 }
  | .poll => { m with insts := fun i => (m.insts i).poll }

end SpiMachine

namespace SpiInst

def txEvents (s : SpiInst) (value n : Word) : List SpiEvent :=
  if !s.enabled then []
  else
    let bytes := (List.range (s.sendBytes n).toNat).map fun i => .byte s.busIndex (txOut value i)
    if s.transferActive ∧ s.tsizeRem ≤ s.sendBytes n then bytes ++ [.stop s.busIndex] else bytes

def cr1Events (s : SpiInst) (value : Word) : List SpiEvent :=
  if value &&& crSpe ≠ 0 then []
  else
    (if s.sr &&& srBusy ≠ 0 then [] else [.stop s.busIndex]) ++
      if s.cr1 &&& crSpe ≠ 0 then [.stop s.busIndex] else []

def events (s : SpiInst) (offset n value : Word) : List SpiEvent :=
  if n = 0 ∨ 4 < n ∨ size ≤ offset then []
  else if offset = 0x00 then s.cr1Events value
  else if offset = 0x20 then s.txEvents value n
  else []

end SpiInst

namespace SpiMachine

def opEvents (m : SpiMachine) : SpiOp → List SpiEvent
  | .gpio bank secAlias offset n value => [.gpio bank secAlias offset n value]
  | .write i offset n value => (m.insts i).events offset n value
  | .read .. => []
  | .poll => []

def events (m : SpiMachine) : List SpiOp → List SpiEvent
  | [] => []
  | op :: ops => m.opEvents op ++ (m.step op).events ops

end SpiMachine

namespace SpiInst

variable {s : SpiInst} {banks : Banks} {value n : Word} {ds : List SpiDevice}

theorem fifoPush_kept (s : SpiInst) (v : Byte) : (s.fifoPush v).busIndex = s.busIndex ∧
    (s.fifoPush v).transferActive = s.transferActive ∧ (s.fifoPush v).tsizeRem = s.tsizeRem := by
  rw [fifoPush]
  split <;> exact ⟨rfl, rfl, rfl⟩

structure Sending (s s' : SpiInst) (k : Nat) : Prop where
  bus : s'.busIndex = s.busIndex
  active : s'.transferActive = s.transferActive
  rem : s.transferActive = true → s'.tsizeRem.toNat = s.tsizeRem.toNat - k

theorem sending_txByte {s' : SpiInst} {k : Nat} (sending : s.Sending s' k) (i : Nat) :
    s.Sending (txByte banks value (s', ds) i).1 (k + 1) := by
  obtain ⟨bus, active, rem⟩ := sending
  let answer := (spiBusXfer banks s'.busIndex (txOut value i) ds).1
  obtain ⟨sameBus, sameActive, sameRem⟩ := fifoPush_kept s' answer
  have next : (txByte banks value (s', ds) i).1 =
      if (s'.fifoPush answer).transferActive && (s'.fifoPush answer).tsizeRem ≠ 0 then
        { s'.fifoPush answer with tsizeRem := (s'.fifoPush answer).tsizeRem - 1 }
      else s'.fifoPush answer := rfl
  rw [next, sameActive, sameRem]
  by_cases counts : (s'.transferActive && decide (s'.tsizeRem ≠ 0)) = true
  · rw [if_pos counts]
    refine ⟨sameBus.trans bus, sameActive.trans active, fun on => ?_⟩
    have more : s'.tsizeRem ≠ 0 := of_decide_eq_true (Bool.and_eq_true_iff.mp counts).2
    have left := rem on
    change (s'.tsizeRem - 1).toNat = _
    bv_omega
  · rw [if_neg counts]
    refine ⟨sameBus.trans bus, sameActive.trans active, fun on => ?_⟩
    have none : s'.tsizeRem = 0 := by
      simpa [active, on] using counts
    have left := rem on
    rw [none] at left
    rw [sameRem, none]
    have zero : (0 : Word).toNat = 0 := rfl
    omega

theorem sending_loop (banks : Banks) (value : Word) (s : SpiInst) (ds : List SpiDevice) (k : Nat) :
    let now := (List.range k).foldl (txByte banks value) (s, ds)
    s.Sending now.1 k ∧ (⟨banks, now.2⟩ : SpiBus) = run SpiBus.step ⟨banks, ds⟩
      ((List.range k).map fun i => .byte s.busIndex (txOut value i)) := by
  induction k with
  | zero => exact ⟨⟨rfl, rfl, fun _ => rfl⟩, rfl⟩
  | succ k ih =>
    simp only [List.range_succ, List.foldl_append, List.map_append, List.foldl_cons,
      List.foldl_nil, List.map_cons, List.map_nil, run_append] at ih ⊢
    generalize (List.range k).foldl (txByte banks value) (s, ds) = now at ih
    obtain ⟨s', ds'⟩ := now
    obtain ⟨sending, bus⟩ := ih
    refine ⟨sending_txByte sending k, ?_⟩
    rw [← bus, run_cons, run_nil, SpiBus.step, ← sending.bus]
    rfl

theorem handleTx_events : (⟨banks, (s.handleTx banks value n ds).2⟩ : SpiBus) =
    run SpiBus.step ⟨banks, ds⟩ (s.txEvents value n) := by
  rw [handleTx, txEvents]
  cases s.enabled with
  | false => rfl
  | true =>
    obtain ⟨⟨bus, active, rem⟩, sent⟩ := sending_loop banks value s ds (s.sendBytes n).toNat
    simp only [Bool.not_true, Bool.false_eq_true, if_false]
    generalize (List.range (s.sendBytes n).toNat).foldl (txByte banks value) (s, ds) = now at *
    obtain ⟨s', ds'⟩ := now
    have last : (s'.transferActive && decide (s'.tsizeRem = 0)) = true ↔
        s.transferActive = true ∧ s.tsizeRem ≤ s.sendBytes n := by
      rw [Bool.and_eq_true_iff, decide_eq_true_eq, active]
      refine and_congr_right fun on => ?_
      have left : s'.tsizeRem.toNat = s.tsizeRem.toNat - (s.sendBytes n).toNat := rem on
      rw [BitVec.le_def, ← BitVec.toNat_inj]
      have zero : (0 : Word).toNat = 0 := rfl
      omega
    by_cases complete : s.transferActive = true ∧ s.tsizeRem ≤ s.sendBytes n
    · have here := last.mpr complete
      rw [if_pos complete, run_append, ← sent]
      simp only [here, if_true]
      rw [bus]
      rfl
    · have here : ¬ (s'.transferActive && decide (s'.tsizeRem = 0)) = true :=
        fun both => complete (last.mp both)
      rw [if_neg complete, ← sent, if_neg here]

theorem applySpe_bus (s : SpiInst) (value : Word) (busy : Bool) (ds : List SpiDevice) :
    (s.applySpe value busy ds).1.busIndex = s.busIndex := by
  rw [applySpe]
  split
  · rfl
  split <;> rfl

theorem applyCstart_bus (s : SpiInst) (value : Word) :
    (s.applyCstart value).busIndex = s.busIndex := by
  rw [applyCstart]
  split
  · split <;> rfl
  · rfl

theorem writeCr1_events : (⟨banks, (s.writeCr1 value ds).2⟩ : SpiBus) =
    run SpiBus.step ⟨banks, ds⟩ (s.cr1Events value) := by
  let s₁ : SpiInst := { s with regs := s.regs.setWord 0x00 value }
  have devices : (s.writeCr1 value ds).2 =
      if s.cr1 &&& crSpe ≠ 0 ∧ value &&& crSpe = 0 then
        spiBusEnd s.busIndex (s₁.applySpe value (decide (s.sr &&& srBusy ≠ 0)) ds).2
      else (s₁.applySpe value (decide (s.sr &&& srBusy ≠ 0)) ds).2 := by
    simp only [writeCr1, applyCstart_bus, applySpe_bus]
    rfl
  rw [devices, cr1Events]
  by_cases spe : value &&& crSpe ≠ 0
  · rw [if_pos spe, if_neg fun both => spe both.2, applySpe, if_pos spe]
    rfl
  · have off : value &&& crSpe = 0 := not_not.mp spe
    have left : (s₁.applySpe value (decide (s.sr &&& srBusy ≠ 0)) ds).2 =
        if s.sr &&& srBusy ≠ 0 then ds else spiBusEnd s.busIndex ds := by
      rw [applySpe, if_neg spe]
      by_cases busy : s.sr &&& srBusy ≠ 0
      · rw [decide_eq_true busy, if_pos busy]
        rfl
      · rw [decide_eq_false busy, if_neg busy]
        rfl
    rw [if_neg spe, left]
    by_cases was : s.cr1 &&& crSpe ≠ 0
    · rw [if_pos was, if_pos ⟨was, off⟩]
      split <;> rfl
    · rw [if_neg was, if_neg fun both => was both.1]
      split <;> rfl

theorem write_events (offset : Word) : (⟨banks, (s.write banks offset n value ds).2.2⟩ : SpiBus) =
    run SpiBus.step ⟨banks, ds⟩ (s.events offset n value) := by
  rw [write, events]
  by_cases size : n = 0 ∨ 4 < n
  · rw [if_pos size, if_pos (size.elim .inl fun four => .inr (.inl four))]
    rfl
  by_cases past : SpiInst.size ≤ offset
  · rw [if_neg size, if_pos past, if_pos (.inr (.inr past))]
    rfl
  have served : ¬ (n = 0 ∨ 4 < n ∨ SpiInst.size ≤ offset) := fun any =>
    any.elim (fun zero => size (.inl zero)) fun any => any.elim (fun four => size (.inr four)) past
  rw [if_neg size, if_neg past, if_neg served]
  by_cases cr1 : offset = 0x00
  · rw [if_pos cr1, if_pos cr1]
    exact writeCr1_events
  rw [if_neg cr1, if_neg cr1]
  by_cases tx : offset = 0x20
  · rw [if_pos tx, if_pos tx]
    exact handleTx_events
  rw [if_neg tx, if_neg tx]
  split <;> rfl

end SpiInst

namespace SpiMachine

theorem step_bus (m : SpiMachine) (op : SpiOp) :
    (m.step op).bus = run SpiBus.step m.bus (m.opEvents op) := by
  cases op with
  | gpio bank secAlias offset n value => rfl
  | write i offset n value => exact SpiInst.write_events offset
  | read i offset n => rfl
  | poll => rfl

theorem run_bus (m : SpiMachine) (ops : List SpiOp) :
    (run step m ops).bus = run SpiBus.step m.bus (m.events ops) := by
  induction ops generalizing m with
  | nil => rfl
  | cons op ops ih => rw [run_cons, ih, events, run_append, step_bus]

/-- The flashes answer and hold what the strings clocked between the edges of their own chip
selects make of them, each taken as one transaction. -/
def StringsOnly (m : SpiMachine) (ops : List SpiOp) : Prop :=
  Throughout Bench.step (Bench.Holds m.bus.devices) (.start m.bus) (m.events ops) ∧
    Along Bench.step (Bench.Answers m.bus.devices) (.start m.bus) (m.events ops)

/-- A program that clocks bytes only to a flash that is where its string put it, and to one at a
time. -/
theorem stringsOnly_of_clean {m : SpiMachine}
    (registered : ∀ d ∈ m.bus.devices, d.Registered) {ops : List SpiOp}
    (clean : Along Bench.step Bench.Clean (.start m.bus) (m.events ops)) :
    (run step m ops).bus = (run Bench.step (.start m.bus) (m.events ops)).bus ∧
      m.StringsOnly ops := by
  obtain ⟨holds, answers⟩ := Bench.follows_run (Bench.follows_start registered) clean
  exact ⟨(run_bus m ops).trans (Bench.run_bus (.start m.bus) (m.events ops)).symm,
    holds.imp fun _ => Bench.Follows.holds, answers⟩

def oneFlash : SpiMachine where
  bus := ⟨fun i => ⟨.zero, 1, i⟩, [.register 1 0 4 0x1000 fun _ => 0xFF]⟩
  insts i := ⟨.zero, 0, 0, false, false, false, 0, i + 1⟩

/-- The chip select falls, and the command and the byte that fetches its answer are sent in two
transfers of one byte each. -/
def splitStatus : List SpiOp :=
  [.gpio 0 true 0 4 0x100, .write 0 0x08 4 0x7, .write 0 0x04 4 1, .write 0 0 4 1,
    .write 0 0 4 0x201, .write 0 0x20 1 0x05, .write 0 0x18 4 0x18, .write 0 0 4 0x201,
    .write 0 0x20 1 0x00]

/-- The end of the first transfer makes the flash leave the command, and the second byte is a new
one. -/
theorem splitStatus_not_stringsOnly : ¬ oneFlash.StringsOnly splitStatus := by
  rintro ⟨-, answers⟩
  have events : oneFlash.events splitStatus =
      [.gpio 0 true 0 4 0x100, .byte 1 0x05, .stop 1, .byte 1 0x00, .stop 1] := by decide
  rw [events] at answers
  have second := answers.2.2.2.1.1 0 _ rfl (by decide)
  exact absurd second (by decide)

def twoFlashes : SpiMachine where
  bus := ⟨fun i => ⟨.zero, 1, i⟩,
    [.register 1 0 4 0x1000 fun _ => 0xFF, .register 1 0 5 0x1000 fun _ => 0xFF]⟩
  insts := oneFlash.insts

/-- One transfer without an end: the write enable for the first flash, the status of the second, and
with the next edge the status of the first. -/
def wholeStatus : List SpiOp :=
  [.gpio 0 true 0 4 0x100, .write 0 0x08 4 0x7, .write 0 0 4 0x201, .write 0 0x20 1 0x06,
    .gpio 0 true 0 4 0x400, .write 0 0x20 1 0x05, .write 0 0x20 1 0x00,
    .gpio 0 true 0 4 0x100, .write 0 0x20 1 0x05, .write 0 0x20 1 0x00]

theorem wholeStatus_stringsOnly :
    (run step twoFlashes wholeStatus).bus =
      (run Bench.step (.start twoFlashes.bus) (twoFlashes.events wholeStatus)).bus ∧
      twoFlashes.StringsOnly wholeStatus := by
  refine stringsOnly_of_clean ?_ ?_
  · intro d member
    simp only [twoFlashes, List.mem_cons, List.not_mem_nil, or_false] at member
    rcases member with rfl | rfl
    · exact ⟨1, 0, 4, 0x1000, fun _ => 0xFF, rfl⟩
    · exact ⟨1, 0, 5, 0x1000, fun _ => 0xFF, rfl⟩
  · have events : twoFlashes.events wholeStatus =
        [.gpio 0 true 0 4 0x100, .byte 1 0x06, .gpio 0 true 0 4 0x400, .byte 1 0x05, .byte 1 0x00,
          .gpio 0 true 0 4 0x100, .byte 1 0x05, .byte 1 0x00] := by decide
    rw [events]
    refine ⟨trivial, Bench.clean_byte _ ?_, trivial, Bench.clean_byte _ ?_, Bench.clean_byte _ ?_,
      trivial, Bench.clean_byte _ ?_, Bench.clean_byte _ ?_, trivial⟩
    all_goals decide +kernel

end SpiMachine

end M33mu
