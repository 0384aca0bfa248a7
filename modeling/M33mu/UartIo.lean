import M33mu.Lib.Ring
import M33mu.Lib.Run
import M33mu.Types

namespace M33mu

open Lib

/-- `mm_uart_io`. -/
structure UartIo where
  /-- `fd >= 0` -/
  connected : Bool
  stdoutOnly : Bool
  txBuf : Nat → Byte
  txHead : Nat
  txTail : Nat
  rxPending : Bool
  rxByte : Byte

/-- What `write` answers: it takes `k + 1` of the bytes or, where they are fewer, all of them; it
would block; or it takes none. -/
inductive WriteResult
  | wrote (k : Nat)
  | again
  | failed
  deriving DecidableEq, Repr

namespace UartIo

def txSize : Nat := 1024

/-- `mm_uart_io_init`. -/
def init : UartIo := ⟨false, false, fun _ => 0, 0, 0, false, 0⟩

/-- `mm_uart_io_open`, on the standard output or else on a terminal if there is one. -/
def openIo (io : UartIo) (stdout terminal : Bool) : Bool × UartIo :=
  if stdout then (true, { io with connected := true, stdoutOnly := true })
  else (terminal, { io with connected := terminal })

/-- `mm_uart_io_close`. -/
def closeIo (io : UartIo) : UartIo :=
  { io with
    connected := if io.stdoutOnly then io.connected else false
    rxPending := false
    txHead := 0
    txTail := 0 }

/-- `mm_uart_io_queue_tx`. -/
def queueTx (io : UartIo) (byte : Byte) : UartIo :=
  let nextTail := (io.txTail + 1) % txSize
  let io := if nextTail = io.txHead then { io with txHead := (io.txHead + 1) % txSize } else io
  { io with txBuf := Function.update io.txBuf io.txTail byte, txTail := nextTail }

def firstChunk (io : UartIo) : Nat :=
  if io.txHead < io.txTail then io.txTail - io.txHead else txSize - io.txHead

/-- The loop of `mm_uart_io_flush`: what it returns, and the bytes that the host takes. The host
that has no more answers would block. -/
def flushLoop (io : UartIo) : List WriteResult → Bool × List Byte × UartIo
  | [] => (io.txHead = io.txTail, [], io)
  | r :: rs =>
    if io.txHead = io.txTail then (true, [], io)
    else
      match r with
      | .wrote k =>
        let n := min (k + 1) io.firstChunk
        let bytes := (List.range n).map fun i => io.txBuf (io.txHead + i)
        let later := { io with txHead := (io.txHead + n) % txSize }.flushLoop rs
        (later.1, bytes ++ later.2.1, later.2.2)
      | .again => (false, [], io)
      | .failed => (false, [], { io with txHead := 0, txTail := 0 })

/-- `mm_uart_io_flush`. -/
def flush (io : UartIo) (rs : List WriteResult) : Bool × List Byte × UartIo :=
  if io.connected = false then (false, [], io) else io.flushLoop rs

/-- `mm_uart_io_poll`, where `read` answers `rx`. -/
def poll (io : UartIo) (rs : List WriteResult) (rx : Option Byte) : Bool × List Byte × UartIo :=
  if io.connected = false ∨ io.stdoutOnly = true then (false, [], io)
  else
    let (_, bytes, io) := io.flush rs
    match rx with
    | some b =>
      if io.rxPending then (false, bytes, io)
      else (true, bytes, { io with rxByte := b, rxPending := true })
    | none => (false, bytes, io)

def txEmpty (io : UartIo) : Bool := io.txHead = io.txTail

/-- `mm_uart_io_read`. -/
def read (io : UartIo) : Byte × UartIo :=
  if io.stdoutOnly ∨ io.rxPending = false then (0, io)
  else (io.rxByte, { io with rxPending := false })

end UartIo

/-- The bytes of a line to the host: all that were queued, those that the host has, those that wait,
and how many were dropped. -/
structure UartLine where
  queued : List Byte
  handed : List Byte
  waiting : List Byte
  dropped : Nat

namespace UartLine

def idle : UartLine := ⟨[], [], [], 0⟩

def queue (l : UartLine) (byte : Byte) : UartLine :=
  let full := UartIo.txSize - 1 ≤ l.waiting.length
  { l with
    queued := l.queued ++ [byte]
    waiting := (if full then l.waiting.tail else l.waiting) ++ [byte]
    dropped := if full then l.dropped + 1 else l.dropped }

def hand (l : UartLine) (n : Nat) : UartLine :=
  { l with handed := l.handed ++ l.waiting.take n, waiting := l.waiting.drop n }

structure Kept (l : UartLine) : Prop where
  order : (l.handed ++ l.waiting).Sublist l.queued
  missing : l.queued.length = l.handed.length + l.waiting.length + l.dropped

theorem kept_idle : idle.Kept := ⟨.refl _, rfl⟩

theorem kept_queue {l : UartLine} (kept : l.Kept) (byte : Byte) : (l.queue byte).Kept := by
  obtain ⟨order, missing⟩ := kept
  rw [queue]
  by_cases full : UartIo.txSize - 1 ≤ l.waiting.length
  · simp only [full, if_true]
    constructor
    · rw [← List.append_assoc]
      exact .append ((List.Sublist.append_left (List.tail_sublist _) _).trans order) (.refl _)
    · have some' : 0 < l.waiting.length := Nat.lt_of_lt_of_le (by decide) full
      simp only [List.length_append, List.length_tail, List.length_singleton]
      omega
  · simp only [full, if_false]
    constructor
    · rw [← List.append_assoc]
      exact .append order (.refl _)
    · simp only [List.length_append, List.length_singleton]
      omega

theorem kept_hand {l : UartLine} (kept : l.Kept) (n : Nat) : (l.hand n).Kept := by
  obtain ⟨order, missing⟩ := kept
  constructor
  · change ((l.handed ++ l.waiting.take n) ++ l.waiting.drop n).Sublist l.queued
    rwa [List.append_assoc, List.take_append_drop]
  · simp only [hand, List.length_append, List.length_take, List.length_drop]
    omega

end UartLine

structure UartHost where
  io : UartIo
  out : List Byte
  line : UartLine

namespace UartHost

inductive Op
  | queue (byte : Byte)
  | flush (rs : List WriteResult)
  deriving DecidableEq, Repr

def Op.Lawful : Op → Prop
  | .queue _ => True
  | .flush rs => .failed ∉ rs

instance : DecidablePred Op.Lawful
  | .queue _ => isTrue trivial
  | .flush rs => inferInstanceAs (Decidable (.failed ∉ rs))

def start (connected : Bool) : UartHost := ⟨{ UartIo.init with connected }, [], .idle⟩

def step (s : UartHost) : Op → UartHost
  | .queue byte => { s with io := s.io.queueTx byte, line := s.line.queue byte }
  | .flush rs =>
    let (_, bytes, io) := s.io.flush rs
    ⟨io, s.out ++ bytes, s.line.hand bytes.length⟩

end UartHost

namespace UartIo

def ring (io : UartIo) : Ring Byte txSize := ⟨io.txBuf, io.txHead, io.txTail⟩

variable {io : UartIo}

theorem ring_queueTx (io : UartIo) (byte : Byte) : (io.queueTx byte).ring =
    (if (io.txTail + 1) % txSize = io.txHead then io.ring.skip 1 else io.ring).push byte := by
  rw [queueTx]
  split <;> rfl

theorem inside_queueTx (inside : io.ring.Inside) (byte : Byte) :
    (io.queueTx byte).ring.Inside := by
  rw [ring_queueTx]
  apply Ring.inside_push
  split
  · exact Ring.inside_skip inside 1
  · exact inside

theorem items_queueTx (inside : io.ring.Inside) (byte : Byte) : (io.queueTx byte).ring.items =
    (if txSize - 1 ≤ io.ring.items.length then io.ring.items.tail else io.ring.items) ++
      [byte] := by
  have low := Ring.count_lt inside
  have full : (io.txTail + 1) % txSize = io.txHead ↔ io.ring.count + 1 = txSize :=
    Ring.full_iff inside
  rw [ring_queueTx, Ring.length_items]
  by_cases last : (io.txTail + 1) % txSize = io.txHead
  · have all := full.mp last
    have size : txSize = 1024 := rfl
    have one : 1 ≤ io.ring.count := by omega
    have room : (io.ring.skip 1).count + 1 < txSize := by
      rw [Ring.count_skip inside one]
      omega
    rw [if_pos last, if_pos (by omega), Ring.items_push (Ring.inside_skip inside 1) room,
      Ring.items_skip inside one, List.drop_one]
  · have more : io.ring.count + 1 ≠ txSize := fun all => last (full.mpr all)
    rw [if_neg last, if_neg (by omega), Ring.items_push inside (by omega)]

structure Flushed (io : UartIo) (r : Bool × List Byte × UartIo) : Prop where
  inside : r.2.2.ring.Inside
  handed : r.2.1 = io.ring.items.take r.2.1.length
  waiting : r.2.2.ring.items = io.ring.items.drop r.2.1.length
  done : r.1 = true ↔ r.2.2.ring.items = []

theorem flushed_self (inside : io.ring.Inside) {done : Bool}
    (told : done = true ↔ io.txHead = io.txTail) : io.Flushed (done, [], io) where
  inside := inside
  handed := rfl
  waiting := rfl
  done := told.trans (Ring.items_eq_nil_iff inside).symm

theorem Flushed.after (io' : UartIo) (bytes : List Byte) {r : Bool × List Byte × UartIo}
    (now : bytes = io.ring.items.take bytes.length)
    (left : io'.ring.items = io.ring.items.drop bytes.length) (later : io'.Flushed r) :
    io.Flushed (r.1, bytes ++ r.2.1, r.2.2) where
  inside := later.inside
  handed := by
    change bytes ++ r.2.1 = io.ring.items.take (bytes ++ r.2.1).length
    rw [List.length_append, List.take_add, ← now, ← left, ← later.handed]
  waiting := by
    change r.2.2.ring.items = io.ring.items.drop (bytes ++ r.2.1).length
    rw [later.waiting, left, List.drop_drop, List.length_append]
  done := later.done

theorem firstChunk_le (inside : io.ring.Inside) (some' : io.txHead ≠ io.txTail) :
    io.firstChunk ≤ io.ring.count ∧ io.txHead + io.firstChunk ≤ txSize := by
  obtain ⟨head, tail⟩ := inside
  change io.txHead < txSize at head
  change io.txTail < txSize at tail
  rw [Ring.count_eq ⟨head, tail⟩, firstChunk]
  change (if io.txHead < io.txTail then io.txTail - io.txHead else txSize - io.txHead) ≤
    (if io.txHead ≤ io.txTail then io.txTail - io.txHead else io.txTail + txSize - io.txHead) ∧ _
  split <;> split <;> omega

theorem flushed_flushLoop {rs : List WriteResult} (inside : io.ring.Inside)
    (lawful : .failed ∉ rs) : io.Flushed (io.flushLoop rs) := by
  induction rs generalizing io with
  | nil => exact flushed_self inside decide_eq_true_iff
  | cons r rs ih =>
    by_cases same : io.txHead = io.txTail
    · have stays : io.flushLoop (r :: rs) = (true, [], io) := by cases r <;> exact if_pos same
      rw [stays]
      exact flushed_self inside (iff_of_true rfl same)
    · have some' : io.txHead ≠ io.txTail := same
      cases r with
      | wrote k =>
        rw [flushLoop, if_neg same]
        obtain ⟨held, piece⟩ := firstChunk_le inside some'
        let n := min (k + 1) io.firstChunk
        have low : n ≤ io.firstChunk := Nat.min_le_right ..
        have taken := Ring.take_items (r := io.ring) (Nat.le_trans low held)
          (Nat.le_trans (Nat.add_le_add_left low _) piece)
        let bytes := (List.range n).map fun i => io.txBuf (io.txHead + i)
        have length : bytes.length = n := by rw [List.length_map, List.length_range]
        refine .after { io with txHead := (io.txHead + n) % txSize } bytes ?_ ?_
          (ih (Ring.inside_skip inside n) fun failed => lawful (.tail _ failed))
        · rw [length, taken]
          rfl
        · rw [length]
          exact Ring.items_skip inside (Nat.le_trans low held)
      | again =>
        rw [flushLoop, if_neg same]
        exact flushed_self inside (iff_of_false nofun some')
      | failed => exact absurd (.head _) lawful

end UartIo

namespace UartHost

structure Good (s : UartHost) : Prop where
  inside : s.io.ring.Inside
  out : s.out = s.line.handed
  waiting : s.io.ring.items = s.line.waiting
  kept : s.line.Kept

def Told (s : UartHost) : Op → Prop
  | .queue _ => True
  | .flush rs => (s.io.flush rs).1 = true ↔
      s.io.connected = true ∧ (s.step (.flush rs)).line.waiting = []

theorem good_start (connected : Bool) : (start connected).Good := by
  have some' : 0 < UartIo.txSize := by decide
  have inside : (start connected).io.ring.Inside := ⟨some', some'⟩
  exact ⟨inside, rfl, (Ring.items_eq_nil_iff inside).mpr rfl, UartLine.kept_idle⟩

theorem good_step {s : UartHost} {op : Op} (good : s.Good) (lawful : op.Lawful) :
    (s.step op).Good ∧ s.Told op := by
  obtain ⟨inside, out, waiting, kept⟩ := good
  cases op with
  | queue byte =>
    refine ⟨⟨UartIo.inside_queueTx inside byte, out, ?_, UartLine.kept_queue kept byte⟩, trivial⟩
    change (s.io.queueTx byte).ring.items = _
    rw [UartIo.items_queueTx inside, waiting]
    rfl
  | flush rs =>
    rw [Told]
    by_cases off : s.io.connected = false
    · have none' : s.io.flush rs = (false, [], s.io) := if_pos off
      have still : s.step (.flush rs) = s := by
        rw [step, none']
        simp [UartLine.hand]
      rw [still, none']
      exact ⟨⟨inside, out, waiting, kept⟩, iff_of_false nofun fun both => nomatch off.symm.trans both.1⟩
    · have on : s.io.connected = true := eq_true_of_ne_false off
      have loop : s.io.flush rs = s.io.flushLoop rs := if_neg off
      obtain ⟨inside', handed, left, done⟩ := UartIo.flushed_flushLoop inside lawful
      have next : s.step (.flush rs) = ⟨(s.io.flushLoop rs).2.2, s.out ++ (s.io.flushLoop rs).2.1,
          s.line.hand (s.io.flushLoop rs).2.1.length⟩ := by
        rw [step, loop]
      rw [next, loop]
      have waiting' : (s.io.flushLoop rs).2.2.ring.items =
          s.line.waiting.drop (s.io.flushLoop rs).2.1.length := by rw [left, waiting]
      refine ⟨⟨inside', ?_, waiting', UartLine.kept_hand kept _⟩, ?_⟩
      · change s.out ++ _ = s.line.handed ++ _
        rw [out, ← waiting, ← handed]
      · rw [done, waiting']
        exact ⟨fun none' => ⟨on, none'⟩, And.right⟩

/-- Of a UART that was initialised, opened or not: in every run the host has the queued bytes in
order, but for those that made room. -/
theorem bytes_reach_host (connected : Bool) {ops : List Op} (lawful : ∀ op ∈ ops, op.Lawful) :
    Throughout step Good (start connected) ops ∧ Along step Told (start connected) ops :=
  throughout_and_along (fun _ _ => good_step) (good_start connected) (along_of_mem lawful)

theorem bytes_reach_host_one_by_one :
    Throughout step Good (start true) [.queue 0x4f, .queue 0x4b, .flush [.wrote 0, .again]] ∧
      Along step Told (start true) [.queue 0x4f, .queue 0x4b, .flush [.wrote 0, .again]] :=
  bytes_reach_host true (by decide)

def ToldEmpty (s : UartHost) : Op → Prop
  | .queue _ => True
  | .flush rs => (s.io.flush rs).1 = true ↔ (s.step (.flush rs)).line.waiting = []

theorem closed_flush_refuses : ¬ ∀ connected ops, (∀ op ∈ ops, op.Lawful) →
    Throughout step Good (start connected) ops ∧ Along step ToldEmpty (start connected) ops := by
  intro all
  have told := (all false [.flush []] (by decide)).2.1
  exact nomatch told.mpr rfl

end UartHost

end M33mu
