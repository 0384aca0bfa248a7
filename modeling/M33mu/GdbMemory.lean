import M33mu.Board
import M33mu.GdbAccess
import M33mu.GdbReplies

namespace M33mu

open Lib

namespace World

variable {δ : Type u} (env : Env δ)

open GdbLink

/-- `gdb_handle_memory_read`: what is sent, or nothing where a buffer is overrun. -/
def gdbHandleMemoryRead (w : World δ) (sec : SecState) (payload : List Byte) :
    Option (List Byte) × World δ :=
  match scanPair (payload.drop 1) with
  | none => (some (sendError 1), w)
  | some (taddr, tlen) =>
    let addr : Word := taddr.setWidth 32
    let len : Word := tlen.setWidth 32
    let len : Word := if 1024 ≤ len * 2 + 4 then 510 else len
    -- the first byte beyond `buf` is written if it can be read
    let read := w.gdbReadBytes env sec addr (min len.toNat (bufSize + 1))
    match read.1 with
    | none => (some (sendError 2), read.2)
    | some bytes =>
      if bufSize < bytes.length ∨ bufSize < bytes.length * 2 + 1 then (none, read.2)
      else (some (sendPacket (bytes.flatMap hexByte)), read.2)

/-- `gdb_handle_memory_write`, with `bytes` of 256 places. -/
def gdbHandleMemoryWrite (dflt : RamDefault) (w : World δ) (sec : SecState) (payload : List Byte) :
    List Byte × World δ :=
  match afterColon payload with
  | none => (sendError 1, w)
  | some data =>
    match scanWrite payload with
    | none => (sendError 1, w)
    | some (taddr, tlen) =>
      let addr : Word := taddr.setWidth 32
      let len : Word := tlen.setWidth 32
      let len : Word := if 256 < len then 256 else len
      match decodeHex len.toNat data with
      | none => (sendError 1, w)
      | some bytes =>
        match w.gdbWriteBytes env dflt sec addr bytes with
        | (false, w) => (sendError 3, w)
        | (true, w) => (sendOk, w)

variable {env} {w : World δ} {sec : SecState} {addr : Word}

theorem gdbReadBytes_fst (w : World δ) (sec : SecState) (addr : Word) (n : Nat) :
    (w.gdbReadBytes env sec addr (n + 1)).1 = (w.gdbRead8 env sec addr).1.bind fun b =>
      ((w.gdbRead8 env sec addr).2.gdbReadBytes env sec (addr + 1) n).1.map (b :: ·) := by
  rw [gdbReadBytes_succ]
  rcases w.gdbRead8 env sec addr with ⟨_ | b, w₁⟩ <;> rfl

theorem length_of_gdbReadBytes {n : Nat} {bytes : List Byte}
    (read : (w.gdbReadBytes env sec addr n).1 = some bytes) : bytes.length = n := by
  induction n generalizing w addr bytes with
  | zero =>
    obtain rfl := Option.some.inj read
    rfl
  | succ n ih =>
    rw [gdbReadBytes_fst] at read
    obtain ⟨b, -, rest⟩ := Option.bind_eq_some_iff.mp read
    obtain ⟨bs, is, rfl⟩ := Option.map_eq_some_iff.mp rest
    rw [List.length_cons, ih is]

theorem gdbReadBytes_take {n k : Nat} {bytes : List Byte}
    (read : (w.gdbReadBytes env sec addr n).1 = some bytes) (part : k ≤ n) :
    (w.gdbReadBytes env sec addr k).1 = some (bytes.take k) := by
  induction n generalizing w addr bytes k with
  | zero =>
    obtain rfl := Nat.le_zero.mp part
    rfl
  | succ n ih =>
    cases k with
    | zero => rfl
    | succ k =>
      rw [gdbReadBytes_fst] at read ⊢
      obtain ⟨b, first, rest⟩ := Option.bind_eq_some_iff.mp read
      obtain ⟨bs, is, rfl⟩ := Option.map_eq_some_iff.mp rest
      rw [first, Option.bind_some, ih is (Nat.le_of_succ_le_succ part)]
      rfl

end World

/-- A reply to a request for `len` bytes: a packet that holds `k` of them in full, and all of them
where that fits a packet of `0x3ff` characters. -/
def GdbLink.ReadReply {δ : Type u} (env : Env δ) (w : World δ) (sec : SecState) (addr : Word)
    (len : Nat) (reply : Option (List Byte)) : Prop :=
  ∃ k bytes, k ≤ len ∧ (2 * len + 4 ≤ 0x3ff → k = len) ∧
    (w.gdbReadBytes env sec addr k).1 = some bytes ∧ reply = some (packet (bytes.flatMap hexByte))

namespace World

open GdbLink

variable {δ : Type u} {env : Env δ} {w : World δ} {sec : SecState}

theorem length_hex (bytes : List Byte) : (bytes.flatMap hexByte).length = 2 * bytes.length := by
  induction bytes with
  | nil => rfl
  | cons b bs ih =>
    rw [List.flatMap_cons, List.length_append, ih, List.length_cons]
    show 2 + 2 * bs.length = 2 * (bs.length + 1)
    omega

theorem packet_injective {chars chars' : List Byte} (same : packet chars = packet chars') :
    chars.length = chars'.length := by
  have lengths := congrArg List.length same
  simp only [packet, List.length_cons, List.length_append, hexByte, List.length_nil] at lengths
  omega

def clamped (len : Word) : Nat :=
  min (if 1024 ≤ len * 2 + 4 then 510 else len : Word).toNat (bufSize + 1)

theorem toNat_hexLength (len : Word) : (len * 2 + 4).toNat = (len.toNat * 2 + 4) % 2 ^ 32 := by
  have two : (2 : Word).toNat = 2 := rfl
  have four : (4 : Word).toNat = 4 := rfl
  rw [BitVec.toNat_add, BitVec.toNat_mul, two, four, Nat.mod_add_mod]

theorem clamped_of_le {len : Word} (small : len.toNat ≤ 509) : clamped len = len.toNat := by
  have wrap := toNat_hexLength len
  have limit : (1024 : Word).toNat = 1024 := rfl
  have size : bufSize = 1024 := rfl
  rw [clamped, if_neg (by rw [BitVec.le_def, wrap, limit]; omega)]
  omega

theorem clamped_of_gt {len : Word} (large : 509 < len.toNat) :
    clamped len = 510 ∨ clamped len = bufSize + 1 := by
  have wrap := toNat_hexLength len
  have limit : (1024 : Word).toNat = 1024 := rfl
  have size : bufSize = 1024 := rfl
  by_cases cut : (1024 : Word) ≤ len * 2 + 4
  · left
    rw [clamped, if_pos cut]
    rfl
  · right
    rw [clamped, if_neg cut]
    rw [BitVec.le_def, wrap, limit] at cut
    omega

theorem clamped_le (len : Word) : clamped len ≤ len.toNat := by
  have wrap := toNat_hexLength len
  have limit : (1024 : Word).toNat = 1024 := rfl
  have short : (510 : Word).toNat = 510 := rfl
  by_cases cut : (1024 : Word) ≤ len * 2 + 4
  · rw [clamped, if_pos cut, short]
    rw [BitVec.le_def, wrap, limit] at cut
    omega
  · rw [clamped, if_neg cut]
    exact Nat.min_le_left ..

theorem gdbHandleMemoryRead_eq {payload : List Byte} {taddr tlen : BitVec 64}
    (parsed : scanPair (payload.drop 1) = some (taddr, tlen)) {bytes : List Byte}
    (read : (w.gdbReadBytes env sec (taddr.setWidth 32) (clamped (tlen.setWidth 32))).1 =
      some bytes) :
    (w.gdbHandleMemoryRead env sec payload).1 =
      if bufSize < bytes.length ∨ bufSize < bytes.length * 2 + 1 then none
      else some (sendPacket (bytes.flatMap hexByte)) := by
  rw [clamped] at read
  simp only [gdbHandleMemoryRead, parsed, read]
  split <;> rfl

theorem not_readReply {payload : List Byte} {taddr tlen : BitVec 64}
    (parsed : scanPair (payload.drop 1) = some (taddr, tlen))
    (readable : (w.gdbReadBytes env sec (taddr.setWidth 32) (tlen.setWidth 32).toNat).1.isSome)
    (large : 509 < (tlen.setWidth 32).toNat) :
    ¬ ReadReply env w sec (taddr.setWidth 32) (tlen.setWidth 32).toNat
      (w.gdbHandleMemoryRead env sec payload).1 := by
  obtain ⟨all, whole⟩ := Option.isSome_iff_exists.mp readable
  have read := gdbReadBytes_take whole (clamped_le (tlen.setWidth 32))
  have length := length_of_gdbReadBytes read
  rw [gdbHandleMemoryRead_eq parsed read, length]
  have size : bufSize = 1024 := rfl
  rintro ⟨k, bytes', -, -, read', is⟩
  rcases clamped_of_gt large with cut | past
  · rw [cut, if_neg (by rw [size]; decide), sendPacket_eq] at is
    rw [cut] at length
    have same := packet_injective (Option.some.inj is)
    rw [List.length_take, length_hex, length_hex, length] at same
    omega
  · rw [past, if_pos (.inl (Nat.lt_succ_self _))] at is
    exact nomatch is

theorem readReply {payload : List Byte} {taddr tlen : BitVec 64}
    (parsed : scanPair (payload.drop 1) = some (taddr, tlen))
    (readable : (w.gdbReadBytes env sec (taddr.setWidth 32) (tlen.setWidth 32).toNat).1.isSome)
    (small : (tlen.setWidth 32).toNat ≤ 509) :
    ReadReply env w sec (taddr.setWidth 32) (tlen.setWidth 32).toNat
      (w.gdbHandleMemoryRead env sec payload).1 := by
  obtain ⟨bytes, read⟩ := Option.isSome_iff_exists.mp readable
  have length := length_of_gdbReadBytes read
  rw [← clamped_of_le small] at read
  rw [gdbHandleMemoryRead_eq parsed read, length]
  rw [clamped_of_le small] at read
  have size : bufSize = 1024 := rfl
  have fits : (bytes.flatMap hexByte).length ≤ 1019 := by
    rw [length_hex]
    omega
  refine ⟨_, bytes, Nat.le_refl _, fun _ => rfl, read, ?_⟩
  rw [if_neg (by omega), sendPacket_eq, List.take_of_length_le fits]

/-- Over memory that can be read, the reply is complete and stays inside the buffers exactly for up
to 509 bytes. -/
theorem memory_read_reply {payload : List Byte} {taddr tlen : BitVec 64}
    (parsed : scanPair (payload.drop 1) = some (taddr, tlen))
    (readable : (w.gdbReadBytes env sec (taddr.setWidth 32) (tlen.setWidth 32).toNat).1.isSome) :
    ReadReply env w sec (taddr.setWidth 32) (tlen.setWidth 32).toNat
        (w.gdbHandleMemoryRead env sec payload).1 ↔
      (tlen.setWidth 32).toNat ≤ 509 :=
  ⟨fun right => Nat.not_lt.mp fun large => not_readReply parsed readable large right,
    readReply parsed readable⟩

end World

/-- What the reply to a request to write says: every byte of it is decoded and written, or it is
malformed and nothing is. -/
structure GdbLink.WriteReply {δ : Type u} (env : Env δ) (dflt : RamDefault) (w : World δ)
    (sec : SecState) (payload : List Byte) (after : List Byte × World δ) : Prop where
  ok : after.1 = sendOk → ∃ data taddr tlen bytes, afterColon payload = some data ∧
    scanWrite payload = some (taddr, tlen) ∧ decodeHex tlen.toNat data = some bytes ∧
    w.gdbWriteBytes env dflt sec (taddr.setWidth 32) bytes = (true, after.2)
  malformed : after.1 = sendError 1 → after.2 = w

namespace GdbLink

theorem length_of_decodeHex {n : Nat} {data bytes : List Byte}
    (decoded : decodeHex n data = some bytes) : bytes.length = n := by
  induction n generalizing data bytes with
  | zero =>
    obtain rfl := Option.some.inj decoded
    rfl
  | succ n ih =>
    rw [decodeHex] at decoded
    split at decoded
    · exact nomatch decoded
    · obtain ⟨rest, there, rfl⟩ := Option.map_eq_some_iff.mp decoded
      rw [List.length_cons, ih there]

theorem le_of_decodeHex {n : Nat} {data bytes : List Byte}
    (decoded : decodeHex n data = some bytes) : 2 * n ≤ data.length := by
  induction n generalizing data bytes with
  | zero => exact Nat.zero_le _
  | succ n ih =>
    rw [decodeHex] at decoded
    split at decoded
    case isTrue => exact nomatch decoded
    case isFalse digits =>
      obtain ⟨rest, there, rfl⟩ := Option.map_eq_some_iff.mp decoded
      have left := ih there
      have none : hexToNibble 0 < 0 := by decide
      match data, digits, left with
      | [], digits, _ => exact absurd (.inl none) digits
      | [h1], digits, _ => exact absurd (.inr none) digits
      | h1 :: h2 :: data, _, left =>
        rw [List.drop_succ_cons, List.drop_succ_cons, List.drop_zero] at left
        rw [List.length_cons, List.length_cons]
        omega

theorem length_afterColon {s data : List Byte} (after : afterColon s = some data) :
    data.length < s.length := by
  have shorter : _ ≤ s.length := ((List.dropWhile_sublist (· ≠ colon)).trans
    (List.takeWhile_sublist (· ≠ (0 : Byte)))).length_le
  rw [afterColon] at after
  split at after
  case h_1 => exact nomatch after
  case h_2 c rest found =>
    obtain rfl := Option.some.inj after
    rw [found, List.length_cons] at shorter
    exact shorter

end GdbLink

namespace Memmap

theorem patchBuf_apart {buf : Word → Byte} {off a : Word} {src : List Byte}
    (apart : ∀ k < src.length, a ≠ off + BitVec.ofNat 32 k) : patchBuf buf off src a = buf a := by
  induction src generalizing buf off with
  | nil => rfl
  | cons b bs ih =>
    have first := apart 0 (Nat.succ_pos _)
    rw [BitVec.add_zero] at first
    rw [patchBuf, ih, Function.update_of_ne first]
    intro k inside
    have next := apart (k + 1) (Nat.succ_lt_succ inside)
    rw [BitVec.ofNat_add, BitVec.add_comm (BitVec.ofNat 32 k), ← BitVec.add_assoc] at next
    exact next

theorem patchBuf_at {buf : Word → Byte} {off : Word} {src : List Byte} {k : Nat}
    (inside : k < src.length) (fits : src.length ≤ 2 ^ 32) :
    patchBuf buf off src (off + BitVec.ofNat 32 k) = src[k] := by
  induction src generalizing buf off k with
  | nil => exact absurd inside (Nat.not_lt_zero _)
  | cons b bs ih =>
    rw [List.length_cons] at fits inside
    cases k with
    | zero =>
      rw [BitVec.add_zero, patchBuf, patchBuf_apart, Function.update_self]
      · rfl
      · intro k below
        bv_omega
    | succ k =>
      have next : off + BitVec.ofNat 32 (k + 1) = off + 1 + BitVec.ofNat 32 k := by
        bv_omega
      rw [patchBuf, next, ih (by omega) (by omega)]
      rfl

end Memmap

namespace World

open GdbLink

variable {δ : Type u} (env : Env δ) (dflt : RamDefault) {w : World δ} (sec : SecState)

def stored (tlen : BitVec 64) : Nat := min (tlen.setWidth 32).toNat 256

theorem gdbHandleMemoryWrite_eq {payload data : List Byte} {taddr tlen : BitVec 64}
    (found : afterColon payload = some data) (parsed : scanWrite payload = some (taddr, tlen)) :
    w.gdbHandleMemoryWrite env dflt sec payload =
      match decodeHex (stored tlen) data with
      | none => (sendError 1, w)
      | some bytes =>
        match w.gdbWriteBytes env dflt sec (taddr.setWidth 32) bytes with
        | (false, w) => (sendError 3, w)
        | (true, w) => (sendOk, w) := by
  have cut : (if 256 < tlen.setWidth 32 then 256 else tlen.setWidth 32 : Word).toNat =
      stored tlen := by
    have limit : (256 : Word).toNat = 256 := rfl
    rw [stored]
    split <;> rename_i order <;> rw [BitVec.lt_def, limit] at order <;> omega
  simp only [gdbHandleMemoryWrite, found, parsed, cut]

variable {env dflt sec}

theorem not_ok (code : Byte) (single : code = 1 ∨ code = 3) : sendError code ≠ sendOk := by
  rcases single with rfl | rfl <;> decide

theorem writeReply {payload : List Byte}
    (short : ∀ data taddr tlen, afterColon payload = some data →
      scanWrite payload = some (taddr, tlen) →
        tlen.toNat ≤ 256 ∨ decodeHex (stored tlen) data = none) :
    WriteReply env dflt w sec payload (w.gdbHandleMemoryWrite env dflt sec payload) := by
  have refused : WriteReply env dflt w sec payload (sendError 1, w) :=
    ⟨fun ok => absurd ok (not_ok 1 (.inl rfl)), fun _ => rfl⟩
  cases found : afterColon payload with
  | none =>
    simp only [gdbHandleMemoryWrite, found]
    exact refused
  | some data =>
    cases parsed : scanWrite payload with
    | none =>
      simp only [gdbHandleMemoryWrite, found, parsed]
      exact refused
    | some numbers =>
      obtain ⟨taddr, tlen⟩ := numbers
      rw [gdbHandleMemoryWrite_eq env dflt sec found parsed]
      cases decoded : decodeHex (stored tlen) data with
      | none => exact refused
      | some bytes =>
        have small := (short data taddr tlen found parsed).resolve_right (by simp [decoded])
        have whole : stored tlen = tlen.toNat := by
          rw [stored, BitVec.toNat_setWidth]
          omega
        rw [whole] at decoded
        cases write : w.gdbWriteBytes env dflt sec (taddr.setWidth 32) bytes with
        | mk done w' =>
          simp only [write]
          cases done with
          | false =>
            have other : sendError 3 ≠ sendError 1 := by decide
            exact ⟨fun ok => absurd ok (not_ok 3 (.inr rfl)), fun same => absurd same other⟩
          | true =>
            have other : sendOk ≠ sendError 1 := by decide
            exact ⟨fun _ => ⟨data, taddr, tlen, bytes, found, parsed, decoded, write⟩,
              fun same => absurd same other⟩

def ramAt (addr : Word) (b : Byte) : Memmap :=
  { Memmap.init with
    ram := some fun _ => b, ramBaseS := addr, ramSizeS := 1024, ramBaseNs := addr,
    ramSizeNs := 1024 }

theorem gdbWriteBytes_ramAt (w : World δ) (addr : Word) (b : Byte) {bytes : List Byte}
    (fits : bytes.length ≤ 1024) :
    { w with map := ramAt addr b }.gdbWriteBytes env dflt sec addr bytes =
      (true, { w with map := { ramAt addr b with
        ram := some (Memmap.patchBuf (fun _ => b) 0 bytes) } }) := by
  have window : (ramAt addr b).gdbRamWindow dflt sec = (addr, 1024) := by
    cases sec <;> rfl
  have size : (1024 : Word).toNat = 1024 := rfl
  have inside : Memmap.gdbInside (addr, 1024) addr bytes.length := by
    refine ⟨BitVec.le_refl _, ?_⟩
    rw [BitVec.sub_self, size]
    simpa using fits
  have present : (ramAt addr b).ram.isSome := rfl
  simp only [gdbWriteBytes, window]
  rw [if_pos ⟨present, inside⟩, BitVec.sub_self]
  rfl

theorem short_of_writeReply {payload : List Byte} (received : payload.length < bufSize)
    (right : ∀ m, WriteReply env dflt { w with map := m } sec payload
      ({ w with map := m }.gdbHandleMemoryWrite env dflt sec payload))
    {data : List Byte} {taddr tlen : BitVec 64} (found : afterColon payload = some data)
    (parsed : scanWrite payload = some (taddr, tlen)) :
    tlen.toNat ≤ 256 ∨ decodeHex (stored tlen) data = none := by
  have size : bufSize = 1024 := rfl
  have shorter := length_afterColon found
  by_contra long
  obtain ⟨large, decodes⟩ := not_or.mp long
  obtain ⟨bytes, decoded⟩ := Option.ne_none_iff_exists'.mp decodes
  have few : bytes.length ≤ 256 := by
    rw [length_of_decodeHex decoded]
    exact Nat.min_le_right ..
  -- all of the packet is decoded, and over RAM that holds `b` its byte 256 is `b`
  have kept (b : Byte) : ∃ all, decodeHex tlen.toNat data = some all ∧ all[256]? = some b := by
    have ok := (right (ramAt (taddr.setWidth 32) b)).ok
    rw [gdbHandleMemoryWrite_eq env dflt sec found parsed, decoded] at ok
    dsimp only at ok
    rw [gdbWriteBytes_ramAt w _ b (by omega)] at ok
    obtain ⟨data', taddr', tlen', all, found', parsed', decoded', written⟩ := ok rfl
    obtain rfl := Option.some.inj (found.symm.trans found')
    obtain ⟨rfl, rfl⟩ := Prod.mk.inj (Option.some.inj (parsed.symm.trans parsed'))
    have digits := le_of_decodeHex decoded'
    have length := length_of_decodeHex decoded'
    rw [gdbWriteBytes_ramAt w _ b (by omega)] at written
    have same := congrArg (fun r : Bool × World δ => r.2.map.ram) written
    have at256 := congrFun (Option.some.inj same) (0 + BitVec.ofNat 32 256)
    have more : 256 < all.length := by omega
    have apart : ∀ k < bytes.length, 0 + BitVec.ofNat 32 256 ≠ 0 + BitVec.ofNat 32 k := by
      intro k below
      bv_omega
    rw [Memmap.patchBuf_apart apart, Memmap.patchBuf_at more (by omega)] at at256
    exact ⟨all, decoded', by rw [List.getElem?_eq_getElem more, at256]⟩
  obtain ⟨all, decoded₀, zero⟩ := kept 0
  obtain ⟨all', decoded₁, one⟩ := kept 1
  obtain rfl := Option.some.inj (decoded₀.symm.trans decoded₁)
  rw [zero] at one
  exact absurd (Option.some.inj one) (by decide)

/-- Over any memory, a packet is answered with `OK` only where all of it is written, exactly for up
to 256 bytes. -/
theorem memory_write_reply (env : Env δ) (dflt : RamDefault) (w : World δ) (sec : SecState)
    {payload : List Byte} (received : payload.length < bufSize) :
    (∀ m, WriteReply env dflt { w with map := m } sec payload
        ({ w with map := m }.gdbHandleMemoryWrite env dflt sec payload)) ↔
      ∀ data taddr tlen, afterColon payload = some data →
        scanWrite payload = some (taddr, tlen) →
          tlen.toNat ≤ 256 ∨ decodeHex (stored tlen) data = none :=
  ⟨fun right _ _ _ => short_of_writeReply received right, fun short _ => writeReply short⟩

end World

theorem memory_read_word :
    GdbLink.ReadReply Board.env Board.world .secure 0x20000000 4
        (Board.world.gdbHandleMemoryRead Board.env .secure
          [0x6d, 0x32, 0x30, 0x30, 0x30, 0x30, 0x30, 0x30, 0x30, 0x2c, 0x34]).1 ↔
      4 ≤ 509 :=
  @World.memory_read_reply Unit Board.env Board.world .secure
    [0x6d, 0x32, 0x30, 0x30, 0x30, 0x30, 0x30, 0x30, 0x30, 0x2c, 0x34] 0x20000000 4 (by decide)
    (by decide)

theorem memory_read_torn : ¬ ∀ (payload : List Byte) (taddr tlen : BitVec 64),
    GdbLink.scanPair (payload.drop 1) = some (taddr, tlen) →
      (Board.world.gdbReadBytes Board.env .secure (taddr.setWidth 32)
        (tlen.setWidth 32).toNat).1.isSome →
      GdbLink.ReadReply Board.env Board.world .secure (taddr.setWidth 32) (tlen.setWidth 32).toNat
        (Board.world.gdbHandleMemoryRead Board.env .secure payload).1 := by
  intro complete
  have parsed : GdbLink.scanPair (List.drop 1
      [0x6d, 0x32, 0x30, 0x30, 0x30, 0x30, 0x30, 0x30, 0x30, 0x2c, 0x31, 0x66, 0x65]) =
      some (0x20000000, 0x1fe) := by decide
  have readable : (Board.world.gdbReadBytes Board.env .secure 0x20000000 510).1.isSome := by
    decide +kernel
  exact World.not_readReply parsed readable (by decide) (complete _ _ _ parsed readable)

theorem memory_write_byte :
    (∀ m, GdbLink.WriteReply Board.env ⟨0, 0⟩ { Board.world with map := m } .secure
        [0x4d, 0x32, 0x30, 0x30, 0x30, 0x30, 0x30, 0x30, 0x30, 0x2c, 0x31, 0x3a, 0x35, 0x61]
        ({ Board.world with map := m }.gdbHandleMemoryWrite Board.env ⟨0, 0⟩ .secure
          [0x4d, 0x32, 0x30, 0x30, 0x30, 0x30, 0x30, 0x30, 0x30, 0x2c, 0x31, 0x3a, 0x35, 0x61])) ↔
      ∀ data taddr tlen,
        GdbLink.afterColon [0x4d, 0x32, 0x30, 0x30, 0x30, 0x30, 0x30, 0x30, 0x30, 0x2c, 0x31, 0x3a,
          0x35, 0x61] = some data →
        GdbLink.scanWrite [0x4d, 0x32, 0x30, 0x30, 0x30, 0x30, 0x30, 0x30, 0x30, 0x2c, 0x31, 0x3a,
          0x35, 0x61] = some (taddr, tlen) →
          tlen.toNat ≤ 256 ∨ GdbLink.decodeHex (World.stored tlen) data = none :=
  World.memory_write_reply Board.env ⟨0, 0⟩ Board.world .secure (by decide)

def overlong : List Byte :=
  [0x4d, 0x32, 0x30, 0x30, 0x30, 0x30, 0x30, 0x30, 0x30, 0x2c, 0x31, 0x30, 0x31, 0x3a] ++
    List.replicate 512 0x30

theorem memory_write_cut :
    ¬ ∀ payload : List Byte, payload.length < GdbLink.bufSize →
      GdbLink.WriteReply Board.env ⟨0, 0⟩ Board.world .secure payload
        (Board.world.gdbHandleMemoryWrite Board.env ⟨0, 0⟩ .secure payload) := by
  intro complete
  have right := complete overlong (by decide +kernel)
  have ok : (Board.world.gdbHandleMemoryWrite Board.env ⟨0, 0⟩ .secure overlong).1 =
      GdbLink.sendOk := by
    decide +kernel
  obtain ⟨data, taddr, tlen, bytes, found, parsed, decoded, -⟩ := right.ok ok
  have length : tlen = 0x101 := by
    have numbers : GdbLink.scanWrite overlong = some (0x20000000, 0x101) := by decide +kernel
    exact (Prod.mk.inj (Option.some.inj (parsed.symm.trans numbers))).2
  have text : data = List.replicate 512 0x30 := by
    have digits : GdbLink.afterColon overlong = some (List.replicate 512 0x30) := by
      decide +kernel
    exact Option.some.inj (found.symm.trans digits)
  have enough := GdbLink.le_of_decodeHex decoded
  rw [length, text, List.length_replicate] at enough
  exact absurd enough (by decide)

end M33mu
