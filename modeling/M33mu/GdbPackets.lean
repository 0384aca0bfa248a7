import M33mu.Lib.Run
import M33mu.Types

namespace M33mu

open Lib

namespace GdbLink

def bufSize : Nat := 1024

def etx : Byte := 0x03

def dollar : Byte := 0x24

def hash : Byte := 0x23

/-- `hex_to_nibble`. -/
def hexToNibble (c : Byte) : Int :=
  if 0x30 ≤ c ∧ c ≤ 0x39 then c.toNat - 0x30
  else if 0x61 ≤ c ∧ c ≤ 0x66 then c.toNat - 0x61 + 10
  else if 0x41 ≤ c ∧ c ≤ 0x46 then c.toNat - 0x41 + 10
  else -1

inductive Received
  | command (buf : List Byte)
  | refused
  | interrupt
  | hangup
  deriving DecidableEq, Repr

/-- The end of `gdb_recv_packet`, from the checksum on. -/
def recvChecksum (out : List Byte) (sum : Byte) : List Byte → Received × List Byte
  | hi :: lo :: rest =>
    let expect := BitVec.ofInt 8 (hexToNibble hi * 16)
    let expect := expect ||| BitVec.ofInt 8 (hexToNibble lo)
    (if sum ≠ expect then .refused else .command out, rest)
  | _ => (.hangup, [])

/-- The second loop of `gdb_recv_packet`. -/
def recvPayload (out : List Byte) (sum : Byte) : List Byte → Received × List Byte
  | [] => (.hangup, [])
  | ch :: rest =>
    if ch = etx then (.interrupt, rest)
    else if ch = hash then recvChecksum out sum rest
    else recvPayload (if out.length + 1 < bufSize then out ++ [ch] else out) (sum + ch) rest

/-- `gdb_recv_packet`, whose first loop waits for `$`. -/
def recvPacket : List Byte → Received × List Byte
  | [] => (.hangup, [])
  | ch :: rest =>
    if ch = etx then (.interrupt, rest)
    else if ch ≠ dollar then recvPacket rest
    else recvPayload [] 0 rest

end GdbLink

inductive GdbLinkEvent
  | command (buf : List Byte)
  | interrupt
  deriving DecidableEq, Repr

/-- The CPU, the memory and the stub as commands, interrupts and the end of the connection change
them. -/
structure GdbTarget (σ : Type u) where
  exec : List Byte → σ → σ
  notifyStop : σ → σ
  close : σ → σ

structure GdbServed (σ : Type u) where
  connected : Bool
  target : σ
  done : List GdbLinkEvent

structure GdbLink (σ : Type u) extends GdbServed σ where
  input : List Byte
  toInterrupt : Bool

namespace GdbServed

variable {σ : Type u} (g : GdbTarget σ)

def closes (buf : List Byte) : Bool := buf.head? == some 0x44 || buf.head? == some 0x6B

def act (s : GdbServed σ) : GdbLinkEvent → GdbServed σ
  | .command buf => ⟨!closes buf, g.exec buf s.target, s.done ++ [.command buf]⟩
  | .interrupt => ⟨s.connected, g.notifyStop s.target, s.done ++ [.interrupt]⟩

/-- `mm_gdb_stub_close`. -/
def hangUp (s : GdbServed σ) : GdbServed σ :=
  { s with connected := false, target := g.close s.target }

end GdbServed

namespace GdbLink

variable {σ : Type u} (g : GdbTarget σ)

/-- What `mm_gdb_stub_handle` does with a packet, or with what comes in place of one. -/
def received (s : GdbLink σ) : Received × List Byte → GdbLink σ
  | (.command buf, rest) => ⟨s.act g (.command buf), rest, s.toInterrupt⟩
  | (.refused, rest) => { s with input := rest }
  | (.interrupt, rest) => { s with input := rest, toInterrupt := true }
  | (.hangup, rest) => ⟨s.hangUp g, rest, s.toInterrupt⟩

/-- `mm_gdb_stub_handle`. -/
def handle (s : GdbLink σ) : GdbLink σ :=
  if !s.connected then s else s.received g (recvPacket s.input)

def poll (s : GdbLink σ) : GdbLink σ :=
  let s := s.handle g
  if s.toInterrupt then ⟨s.act g .interrupt, s.input, false⟩ else s

theorem recvChecksum_length (out : List Byte) (sum : Byte) (input : List Byte) :
    (recvChecksum out sum input).2.length ≤ input.length := by
  unfold recvChecksum
  split
  · exact Nat.le_add_right _ 2
  · exact Nat.zero_le _

theorem recvPayload_length (out : List Byte) (sum : Byte) (input : List Byte) :
    (recvPayload out sum input).2.length ≤ input.length := by
  induction input generalizing out sum with
  | nil => exact Nat.le_refl 0
  | cons ch rest ih =>
    rw [recvPayload, List.length_cons]
    split
    · exact Nat.le_succ _
    split
    · exact Nat.le_succ_of_le (recvChecksum_length out sum rest)
    · exact Nat.le_succ_of_le (ih _ _)

theorem recvPacket_length {input : List Byte} (some' : input ≠ []) :
    (recvPacket input).2.length < input.length := by
  induction input with
  | nil => exact absurd rfl some'
  | cons ch rest ih =>
    rw [recvPacket, List.length_cons]
    split
    · exact Nat.lt_succ_self _
    split
    · cases rest with
      | nil => exact Nat.zero_lt_one
      | cons => exact Nat.lt_succ_of_lt (ih nofun)
    · exact Nat.lt_succ_of_le (recvPayload_length [] 0 rest)

def left (s : GdbLink σ) : Nat := if s.connected then s.input.length + 1 else 0

theorem left_of_connected {s : GdbLink σ} (connected : s.connected = true) :
    s.left = s.input.length + 1 := by
  rw [left, connected, if_pos rfl]

theorem left_le (s : GdbLink σ) : s.left ≤ s.input.length + 1 := by
  rw [left]
  split
  · exact Nat.le_refl _
  · exact Nat.zero_le _

theorem handle_of_connected {s : GdbLink σ} (connected : s.connected = true) :
    s.handle g = s.received g (recvPacket s.input) := by
  rw [handle, connected]
  rfl

theorem left_handle {s : GdbLink σ} (connected : s.connected = true) :
    (s.handle g).left < s.left := by
  rw [left_of_connected connected, handle_of_connected g connected]
  have shorter : (recvPacket s.input).1 ≠ .hangup →
      (recvPacket s.input).2.length < s.input.length := by
    intro received
    refine recvPacket_length fun none' => received ?_
    rw [none', recvPacket]
  generalize recvPacket s.input = r at shorter
  obtain ⟨kind, rest⟩ := r
  cases kind with
  | hangup => exact Nat.succ_pos _
  | command | refused | interrupt =>
    exact Nat.lt_of_le_of_lt (left_le _) (Nat.succ_lt_succ (shorter nofun))

theorem left_poll {s : GdbLink σ} (connected : s.connected = true) : (s.poll g).left < s.left := by
  have same : (s.poll g).left = (s.handle g).left := by
    rw [poll]
    split <;> rfl
  exact same ▸ left_handle g connected

def serve (s : GdbLink σ) : GdbLink σ :=
  if _ : s.connected = true then serve (s.poll g) else s
termination_by s.left
decreasing_by exact left_poll g ‹_›

def accept (input : List Byte) (target : σ) : GdbLink σ :=
  ⟨⟨true, target, []⟩, input, false⟩

abbrev Payload := { bytes : List Byte // ∀ b ∈ bytes, b ≠ etx ∧ b ≠ hash }

/-- What a stream consists of. A packet ends at its checksum, or is broken off by an interrupt. -/
inductive Item
  | other (b : { b : Byte // b ≠ etx ∧ b ≠ dollar })
  | interrupt
  | packet (payload : Payload) (hi lo : Byte)
  | aborted (payload : Payload)

def Item.bytes : Item → List Byte
  | .other b => [b.1]
  | .interrupt => [etx]
  | .packet payload hi lo => dollar :: (payload.1 ++ [hash, hi, lo])
  | .aborted payload => dollar :: (payload.1 ++ [etx])

inductive Tail
  | none
  | payload (payload : Payload)
  | digits (payload : Payload) (hi : Option Byte)

def Tail.bytes : Tail → List Byte
  | .none => []
  | .payload p => dollar :: p.1
  | .digits p hi => dollar :: (p.1 ++ hash :: hi.toList)

def stream (items : List Item) (tail : Tail) : List Byte := items.flatMap Item.bytes ++ tail.bytes

def hexDigit (c : Byte) : Option Nat :=
  if 0x30 ≤ c ∧ c ≤ 0x39 then some (c.toNat - 0x30)
  else if 0x61 ≤ c ∧ c ≤ 0x66 then some (c.toNat - 0x61 + 10)
  else if 0x41 ≤ c ∧ c ≤ 0x46 then some (c.toNat - 0x41 + 10)
  else none

def Payload.sum (payload : Payload) : Nat := (payload.1.map BitVec.toNat).sum % 256

def Good (payload : Payload) (hi lo : Byte) : Prop :=
  (∃ h ∈ hexDigit hi, ∃ l ∈ hexDigit lo, payload.sum = 16 * h + l) ∧
    payload.1.length < bufSize

instance (payload : Payload) (hi lo : Byte) : Decidable (Good payload hi lo) :=
  inferInstanceAs (Decidable (_ ∧ _))

def Item.asked : Item → Option GdbLinkEvent
  | .other _ => none
  | .interrupt => some .interrupt
  | .packet payload hi lo => if Good payload hi lo then some (.command payload.1) else none
  | .aborted _ => some .interrupt

def told (hi lo : Byte) : Nat :=
  match hexDigit lo with
  | some l => 16 * (hexDigit hi).getD 15 + l
  | none => 0xFF

/-- Where the stub takes the digits of a packet for the sum of its payload, they are hexadecimal and
the payload fits. -/
def Item.Clean : Item → Prop
  | .packet payload hi lo => payload.sum = told hi lo →
      hexDigit hi ≠ none ∧ hexDigit lo ≠ none ∧ payload.1.length < bufSize
  | _ => True

def reads (f : Item → Option GdbLinkEvent) (s : GdbServed σ) (item : Item) : GdbServed σ :=
  if s.connected then (f item).elim s (s.act g) else s

def ended (s : GdbServed σ) : GdbServed σ := if s.connected then s.hangUp g else s

/-- After each stretch of the stream the client has brought about what it has asked for in it, and
an incomplete packet adds nothing. -/
def Obeys (target : σ) (items : List Item) (tail : Tail) : Prop :=
  (∀ before, before <+: items → ((accept (stream before .none) target).serve g).toGdbServed =
    ended g (run (reads g Item.asked) ⟨true, target, []⟩ before)) ∧
  ((accept (stream items tail) target).serve g).toGdbServed =
    ended g (run (reads g Item.asked) ⟨true, target, []⟩ items)

theorem exists_payload (bytes : List Byte) :
    (∃ payload : Payload, payload.1 = bytes) ∨
      ∃ (payload : Payload) (b : Byte) (rest : List Byte),
        bytes = payload.1 ++ b :: rest ∧ (b = etx ∨ b = hash) := by
  induction bytes with
  | nil => exact .inl ⟨⟨[], nofun⟩, rfl⟩
  | cons b rest ih =>
    by_cases ends : b = etx ∨ b = hash
    · exact .inr ⟨⟨[], nofun⟩, b, rest, rfl, ends⟩
    · have inside := not_or.mp ends
      have longer (payload : Payload) : ∀ c ∈ b :: payload.1, c ≠ etx ∧ c ≠ hash :=
        List.forall_mem_cons.mpr ⟨inside, payload.2⟩
      rcases ih with ⟨payload, rfl⟩ | ⟨payload, c, rest', rfl, ends⟩
      · exact .inl ⟨⟨_, longer payload⟩, rfl⟩
      · exact .inr ⟨⟨_, longer payload⟩, c, rest', rfl, ends⟩

theorem exists_stream (input : List Byte) : ∃ items tail, stream items tail = input := by
  match input with
  | [] => exact ⟨[], .none, rfl⟩
  | b :: rest =>
    by_cases isEtx : b = etx
    · obtain ⟨items, tail, eq⟩ := exists_stream rest
      exact ⟨.interrupt :: items, tail, by rw [isEtx, ← eq]; rfl⟩
    by_cases isDollar : b = dollar
    · subst isDollar
      rcases exists_payload rest with ⟨payload, rfl⟩ | ⟨payload, c, rest', eq, ends⟩
      · exact ⟨[], .payload payload, rfl⟩
      have shorter : rest'.length < rest.length + 1 := by
        rw [eq, List.length_append, List.length_cons]
        omega
      rcases ends with rfl | rfl
      · obtain ⟨items, tail, eq'⟩ := exists_stream rest'
        refine ⟨.aborted payload :: items, tail, ?_⟩
        rw [eq, ← eq']
        simp [stream, Item.bytes]
      match rest' with
      | [] => exact ⟨[], .digits payload none, by rw [eq]; rfl⟩
      | [hi] => exact ⟨[], .digits payload (some hi), by rw [eq]; rfl⟩
      | hi :: lo :: rest'' =>
        have : rest''.length < rest.length + 1 := Nat.lt_of_succ_lt (Nat.lt_of_succ_lt shorter)
        obtain ⟨items, tail, eq'⟩ := exists_stream rest''
        refine ⟨.packet payload hi lo :: items, tail, ?_⟩
        rw [eq, ← eq']
        simp [stream, Item.bytes]
    · obtain ⟨items, tail, eq⟩ := exists_stream rest
      exact ⟨.other ⟨b, isEtx, isDollar⟩ :: items, tail, by rw [← eq]; rfl⟩
termination_by input.length

theorem hexToNibble_eq (c : Byte) :
    (∃ v < 16, hexDigit c = some v ∧ hexToNibble c = v) ∨
      hexDigit c = none ∧ hexToNibble c = -1 := by
  rw [hexDigit, hexToNibble]
  by_cases digit : 0x30 ≤ c ∧ c ≤ 0x39
  · rw [if_pos digit, if_pos digit]
    obtain ⟨low, high⟩ := digit
    rw [BitVec.le_def] at low high
    change 0x30 ≤ c.toNat at low
    change c.toNat ≤ 0x39 at high
    exact .inl ⟨_, by omega, rfl, by omega⟩
  rw [if_neg digit, if_neg digit]
  by_cases lower : 0x61 ≤ c ∧ c ≤ 0x66
  · rw [if_pos lower, if_pos lower]
    obtain ⟨low, high⟩ := lower
    rw [BitVec.le_def] at low high
    change 0x61 ≤ c.toNat at low
    change c.toNat ≤ 0x66 at high
    exact .inl ⟨_, by omega, rfl, by omega⟩
  rw [if_neg lower, if_neg lower]
  by_cases upper : 0x41 ≤ c ∧ c ≤ 0x46
  · rw [if_pos upper, if_pos upper]
    obtain ⟨low, high⟩ := upper
    rw [BitVec.le_def] at low high
    change 0x41 ≤ c.toNat at low
    change c.toNat ≤ 0x46 at high
    exact .inl ⟨_, by omega, rfl, by omega⟩
  · rw [if_neg upper, if_neg upper]
    exact .inr ⟨rfl, rfl⟩

theorem told_eq (hi lo : Byte) :
    (BitVec.ofInt 8 (hexToNibble hi * 16) ||| BitVec.ofInt 8 (hexToNibble lo)).toNat =
      told hi lo := by
  have both : ∀ h < 16, ∀ l < 16,
      (BitVec.ofInt 8 (((h : Nat) : Int) * 16) ||| BitVec.ofInt 8 ((l : Nat) : Int)).toNat =
        16 * h + l := by decide
  have first : ∀ l < 16, (BitVec.ofInt 8 (-1 * 16) ||| BitVec.ofInt 8 ((l : Nat) : Int)).toNat =
      16 * 15 + l := by decide
  rw [told]
  rcases hexToNibble_eq lo with ⟨l, lowL, lo', nibbleL⟩ | ⟨lo', nibbleL⟩
  · rw [lo', nibbleL]
    rcases hexToNibble_eq hi with ⟨h, lowH, hi', nibbleH⟩ | ⟨hi', nibbleH⟩
    · rw [hi', nibbleH]
      exact both h lowH l lowL
    · rw [hi', nibbleH]
      exact first l lowL
  · rw [lo', nibbleL]
    have ones : BitVec.ofInt 8 (-1) = BitVec.allOnes 8 := by decide
    rw [ones, BitVec.or_allOnes]
    rfl

theorem foldl_sum (bytes : List Byte) (sum : Byte) :
    (bytes.foldl (· + ·) sum).toNat = (sum.toNat + (bytes.map BitVec.toNat).sum) % 256 := by
  induction bytes generalizing sum with
  | nil => exact (Nat.mod_eq_of_lt sum.isLt).symm
  | cons b rest ih =>
    rw [List.foldl_cons, ih, BitVec.toNat_add, List.map_cons, List.sum_cons]
    omega

theorem recvPayload_append (p : Payload) {out : List Byte} (fits : out.length < bufSize)
    (sum : Byte) (rest : List Byte) : recvPayload out sum (p.1 ++ rest) =
      recvPayload ((out ++ p.1).take (bufSize - 1)) (p.1.foldl (· + ·) sum) rest := by
  obtain ⟨bytes, inside⟩ := p
  dsimp only
  induction bytes generalizing out sum with
  | nil =>
    rw [List.nil_append, List.append_nil, List.foldl_nil, List.take_of_length_le]
    exact Nat.le_sub_one_of_lt fits
  | cons b bytes ih =>
    obtain ⟨here, others⟩ := List.forall_mem_cons.mp inside
    rw [List.cons_append, recvPayload, if_neg here.1, if_neg here.2, List.foldl_cons]
    by_cases more : out.length + 1 < bufSize
    · rw [if_pos more, ih (by rwa [List.length_append]) _ others, List.append_assoc,
        List.singleton_append]
    · have full : bufSize - 1 ≤ out.length := by omega
      rw [if_neg more, ih fits _ others, List.take_append_of_le_length full,
        List.take_append_of_le_length full]

theorem recvPayload_eq (p : Payload) (rest : List Byte) : recvPayload [] 0 (p.1 ++ rest) =
    recvPayload (p.1.take (bufSize - 1)) (p.1.foldl (· + ·) 0) rest :=
  recvPayload_append p (by decide) 0 rest

theorem sum_eq_told_iff (p : Payload) (hi lo : Byte) :
    p.1.foldl (· + ·) 0 = BitVec.ofInt 8 (hexToNibble hi * 16) ||| BitVec.ofInt 8 (hexToNibble lo) ↔
      p.sum = told hi lo := by
  rw [← BitVec.toNat_inj, told_eq, foldl_sum]
  change (0 + _) % 256 = _ ↔ _
  rw [Nat.zero_add, Payload.sum]

def Item.taken : Item → Option GdbLinkEvent
  | .packet payload hi lo =>
    if payload.sum = told hi lo then some (.command (payload.1.take (bufSize - 1))) else none
  | item => item.asked

theorem recvPacket_packet (p : Payload) (hi lo : Byte) (rest : List Byte) :
    recvPacket ((Item.packet p hi lo).bytes ++ rest) =
      (if p.sum = told hi lo then .command (p.1.take (bufSize - 1)) else .refused, rest) := by
  have shape : (Item.packet p hi lo).bytes ++ rest =
      dollar :: (p.1 ++ hash :: hi :: lo :: rest) := by
    simp [Item.bytes]
  rw [shape, recvPacket, if_neg (by decide), if_neg (not_not.mpr rfl), recvPayload_eq, recvPayload,
    if_neg (by decide), if_pos rfl, recvChecksum]
  by_cases same : p.sum = told hi lo
  · rw [if_pos same, if_neg (not_not.mpr ((sum_eq_told_iff p hi lo).mpr same))]
  · rw [if_neg same, if_pos (mt (sum_eq_told_iff p hi lo).mp same)]

theorem recvPacket_aborted (p : Payload) (rest : List Byte) :
    recvPacket ((Item.aborted p).bytes ++ rest) = (.interrupt, rest) := by
  have shape : (Item.aborted p).bytes ++ rest = dollar :: (p.1 ++ etx :: rest) := by
    simp [Item.bytes]
  rw [shape, recvPacket, if_neg (by decide), if_neg (not_not.mpr rfl), recvPayload_eq, recvPayload,
    if_pos rfl]

theorem recvPacket_tail (tail : Tail) : recvPacket tail.bytes = (.hangup, []) := by
  cases tail with
  | none => rfl
  | payload p =>
    have all := recvPayload_eq p []
    rw [List.append_nil] at all
    rw [Tail.bytes, recvPacket, if_neg (by decide), if_neg (not_not.mpr rfl), all, recvPayload]
  | digits p hi =>
    rw [Tail.bytes, recvPacket, if_neg (by decide), if_neg (not_not.mpr rfl), recvPayload_eq,
      recvPayload, if_neg (by decide), if_pos rfl]
    cases hi with
    | none => rfl
    | some hi => rfl

def polled (t : GdbServed σ) : Received × List Byte → GdbLink σ
  | (.command buf, rest) => ⟨t.act g (.command buf), rest, false⟩
  | (.refused, rest) => ⟨t, rest, false⟩
  | (.interrupt, rest) => ⟨t.act g .interrupt, rest, false⟩
  | (.hangup, rest) => ⟨t.hangUp g, rest, false⟩

theorem poll_eq {t : GdbServed σ} (connected : t.connected = true) (input : List Byte) :
    (⟨t, input, false⟩ : GdbLink σ).poll g = polled g t (recvPacket input) := by
  rw [poll, handle_of_connected g connected]
  generalize recvPacket input = r
  obtain ⟨kind, rest⟩ := r
  cases kind <;> rfl

theorem serve_of_connected {s : GdbLink σ} (connected : s.connected = true) :
    s.serve g = (s.poll g).serve g := by
  rw [serve, dif_pos connected]

theorem serve_of_not_connected {s : GdbLink σ} (gone : s.connected = false) : s.serve g = s := by
  rw [serve, dif_neg (by rw [gone]; exact Bool.false_ne_true)]

theorem serve_item {t : GdbServed σ} (connected : t.connected = true) (item : Item)
    (rest : List Byte) : (⟨t, item.bytes ++ rest, false⟩ : GdbLink σ).serve g =
      (⟨reads g Item.taken t item, rest, false⟩ : GdbLink σ).serve g := by
  rw [reads, if_pos connected]
  cases item with
  | other b =>
    have skip : recvPacket ((Item.other b).bytes ++ rest) = recvPacket rest := by
      change recvPacket (b.1 :: rest) = _
      rw [recvPacket, if_neg b.2.1, if_pos b.2.2]
    have next : (⟨t, rest, false⟩ : GdbLink σ).serve g = _ := serve_of_connected g connected
    refine Eq.trans ?_ next.symm
    rw [serve_of_connected g connected, poll_eq g connected, poll_eq g connected, skip]
  | interrupt =>
    rw [serve_of_connected g connected, poll_eq g connected]
    rfl
  | packet p hi lo =>
    rw [serve_of_connected g connected, poll_eq g connected, recvPacket_packet, Item.taken]
    by_cases same : p.sum = told hi lo
    · rw [if_pos same, if_pos same]
      rfl
    · rw [if_neg same, if_neg same]
      rfl
  | aborted p =>
    rw [serve_of_connected g connected, poll_eq g connected, recvPacket_aborted]
    rfl

theorem run_reads_of_not_connected (f : Item → Option GdbLinkEvent) {t : GdbServed σ}
    (gone : t.connected = false) (items : List Item) : run (reads g f) t items = t := by
  induction items with
  | nil => rfl
  | cons item items ih =>
    have same : reads g f t item = t := by
      rw [reads, gone]
      rfl
    rw [run_cons, same, ih]

theorem serve_stream (t : GdbServed σ) (items : List Item) (tail : Tail) :
    ((⟨t, stream items tail, false⟩ : GdbLink σ).serve g).toGdbServed =
      ended g (run (reads g Item.taken) t items) := by
  induction items generalizing t with
  | nil =>
    rw [run_nil, ended]
    cases connected : t.connected with
    | false =>
      rw [serve_of_not_connected g connected]
      rfl
    | true =>
      rw [serve_of_connected g connected, poll_eq g connected]
      change (GdbLink.serve g (polled g t (recvPacket tail.bytes))).toGdbServed = _
      rw [recvPacket_tail, polled, serve_of_not_connected g rfl]
      rfl
  | cons item items ih =>
    cases connected : t.connected with
    | false =>
      rw [run_reads_of_not_connected g _ connected, serve_of_not_connected g connected, ended,
        connected]
      rfl
    | true =>
      have shape : stream (item :: items) tail = item.bytes ++ stream items tail := by
        rw [stream, List.flatMap_cons, List.append_assoc, stream]
      rw [shape, serve_item g connected, ih, run_cons]

theorem good_iff (p : Payload) (hi lo : Byte) :
    Good p hi lo ↔ p.sum = told hi lo ∧ hexDigit hi ≠ none ∧ hexDigit lo ≠ none ∧
      p.1.length < bufSize := by
  rw [Good, told]
  cases hexDigit lo with
  | none => exact iff_of_false (fun ⟨⟨_, _, _, l, _⟩, _⟩ => nomatch l) fun ⟨_, _, l, _⟩ => l rfl
  | some l =>
    cases hexDigit hi with
    | none => exact iff_of_false (fun ⟨⟨_, h, _⟩, _⟩ => nomatch h) fun ⟨_, h, _⟩ => h rfl
    | some h =>
      constructor
      · rintro ⟨⟨_, isH, _, isL, sum⟩, fits⟩
        obtain rfl := Option.some.inj isH
        obtain rfl := Option.some.inj isL
        exact ⟨sum, nofun, nofun, fits⟩
      · rintro ⟨sum, -, -, fits⟩
        exact ⟨⟨h, rfl, l, rfl, sum⟩, fits⟩

theorem clean_iff (item : Item) : item.Clean ↔ item.taken = item.asked := by
  cases item with
  | other | interrupt | aborted => exact iff_of_true trivial rfl
  | packet p hi lo =>
    rw [Item.Clean, Item.taken, Item.asked]
    by_cases same : p.sum = told hi lo
    · rw [if_pos same, forall_prop_of_true same]
      by_cases good : Good p hi lo
      · obtain ⟨-, clean⟩ := (good_iff p hi lo).mp good
        refine iff_of_true clean ?_
        rw [if_pos good, List.take_of_length_le (Nat.le_sub_one_of_lt clean.2.2)]
      · rw [if_neg good]
        exact iff_of_false (fun clean => good ((good_iff p hi lo).mpr ⟨same, clean⟩)) nofun
    · rw [if_neg same, if_neg fun good => same ((good_iff p hi lo).mp good).1]
      exact iff_of_true (fun equal => absurd equal same) rfl

theorem done_ended (t : GdbServed σ) : (ended g t).done = t.done := by
  rw [ended]
  split <;> rfl

theorem done_reads (f : Item → Option GdbLinkEvent) {t : GdbServed σ}
    (connected : t.connected = true) (item : Item) : (reads g f t item).done = t.done ++ (f item).toList := by
  rw [reads, if_pos connected]
  cases f item with
  | none => exact (List.append_nil _).symm
  | some e => cases e <;> rfl

theorem toList_injective {e e' : Option GdbLinkEvent} (same : e.toList = e'.toList) : e = e' := by
  have heads := congrArg List.head? same
  cases e <;> cases e' <;> simp_all

def Heeds (t : GdbServed σ) (item : Item) : Prop := t.connected = true → item.Clean

theorem reads_eq {t : GdbServed σ} {item : Item} (heeds : Heeds t item) :
    reads g Item.taken t item = reads g Item.asked t item := by
  rw [reads, reads]
  cases connected : t.connected with
  | false => rfl
  | true => rw [(clean_iff item).mp (heeds connected)]

theorem heeds_of_ended_eq {t : GdbServed σ} {item : Item}
    (same : ended g (reads g Item.taken t item) = ended g (reads g Item.asked t item)) :
    Heeds t item := by
  intro connected
  have events := congrArg GdbServed.done same
  rw [done_ended, done_ended, done_reads g _ connected, done_reads g _ connected,
    List.append_cancel_left_eq] at events
  exact (clean_iff item).mpr (toList_injective events)

theorem stretches_eq_iff (t : GdbServed σ) (items : List Item) :
    (∀ before, before <+: items → ended g (run (reads g Item.taken) t before) =
      ended g (run (reads g Item.asked) t before)) ↔ Along (reads g Item.asked) Heeds t items := by
  induction items generalizing t with
  | nil =>
    refine iff_of_true (fun before prefix' => ?_) trivial
    rw [List.prefix_nil.mp prefix']
    rfl
  | cons item items ih =>
    rw [along_cons, ← ih]
    constructor
    · intro all
      have heeds := heeds_of_ended_eq g (all [item] (List.prefix_append [item] items))
      refine ⟨heeds, fun before prefix' => ?_⟩
      have longer := all (item :: before) ((List.prefix_cons_inj item).mpr prefix')
      rwa [run_cons, run_cons, reads_eq g heeds] at longer
    · rintro ⟨heeds, rest⟩ before prefix'
      cases before with
      | nil => rfl
      | cons item' before =>
        obtain ⟨rfl, inside⟩ := List.cons_prefix_cons.mp prefix'
        rw [run_cons, run_cons, reads_eq g heeds]
        exact rest before inside

/-- Whatever bytes a client sends, the stub does what it is asked for, and nothing else, exactly if
every packet that it reads is clean. -/
theorem commands_served_iff (target : σ) (input : List Byte) :
    (∃ items tail, stream items tail = input) ∧
      ∀ items tail, stream items tail = input →
        (Obeys g target items tail ↔
          Along (reads g Item.asked) Heeds ⟨true, target, []⟩ items) := by
  refine ⟨exists_stream input, fun items tail _ => ?_⟩
  rw [← stretches_eq_iff, Obeys]
  constructor
  · intro obeys before prefix'
    exact (serve_stream g _ before .none).symm.trans (obeys.1 before prefix')
  · intro all
    exact ⟨fun before prefix' => (serve_stream g _ before .none).trans (all before prefix'),
      (serve_stream g _ items tail).trans (all items (List.prefix_refl items))⟩

def misdirected : Item := .packet ⟨[0x63, 0x30, 0x30, 0x30], by decide⟩ 0x78 0x33

theorem misdirected_executed :
    ¬ Obeys (⟨fun buf done => done ++ buf, id, id⟩ : GdbTarget (List Byte)) []
      [misdirected] .none := by
  intro obeys
  have events := congrArg GdbServed.done obeys.2
  rw [accept, serve_stream, done_ended, done_ended, run_cons, run_nil, run_cons, run_nil,
    done_reads _ _ rfl, done_reads _ _ rfl] at events
  exact absurd events (by decide)

end GdbLink

end M33mu
