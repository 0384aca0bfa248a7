import Mathlib.Data.BitVec
import M33mu.GdbPackets

namespace M33mu

namespace GdbLink

def hexTable : List Byte :=
  [0x30, 0x31, 0x32, 0x33, 0x34, 0x35, 0x36, 0x37, 0x38, 0x39, 0x61, 0x62, 0x63, 0x64, 0x65, 0x66]

def nibbleToHex (v : Byte) : Byte := hexTable.getD (v &&& 0x0f).toNat 0

def hexByte (b : Byte) : List Byte := [nibbleToHex (b >>> 4), nibbleToHex (b &&& 0x0f)]

/-- The loop of `gdb_send_packet`, which leaves four places free. -/
def copyPayload (pos : Nat) (csum : Byte) : List Byte → List Byte × Byte
  | [] => ([], csum)
  | c :: cs =>
    if pos < bufSize - 4 then
      let (rest, csum) := copyPayload (pos + 1) (csum + c) cs
      (c :: rest, csum)
    else ([], csum)

/-- `gdb_send_packet`: what is written to the connection. -/
def sendPacket (payload : List Byte) : List Byte :=
  let (body, csum) := copyPayload 1 0 payload
  dollar :: body ++ [hash, nibbleToHex (csum >>> 4 &&& 0x0f), nibbleToHex (csum &&& 0x0f)]

/-- `gdb_send_error`, for codes of one digit: `E0` and the digit. -/
def sendError (code : Byte) : List Byte := sendPacket [0x45, 0x30, nibbleToHex code]

def sendOk : List Byte := sendPacket [0x4f, 0x4b]

def packet (chars : List Byte) : List Byte := dollar :: chars ++ hash :: hexByte chars.sum

def isSpace (c : Byte) : Bool := c = 0x20 || 0x09 ≤ c && c ≤ 0x0d

def isHex (c : Byte) : Bool := 0 ≤ hexToNibble c

def hexValue (digits : List Byte) : Nat :=
  digits.foldl (fun v c => v * 16 + (hexToNibble c).toNat) 0

/-- `%lx` of `sscanf`: blanks, a sign, `0x`, and digits that end at `ULONG_MAX`. -/
def scanLx (s : List Byte) : Option (BitVec 64 × List Byte) :=
  let s := s.dropWhile isSpace
  let (negative, s) := match s with
    | c :: rest => if c = 0x2b ∨ c = 0x2d then (decide (c = 0x2d), rest) else (false, s)
    | [] => (false, s)
  let s := match s with
    | z :: x :: rest => if z = 0x30 ∧ (x = 0x78 ∨ x = 0x58) then rest else s
    | _ => s
  let digits := s.takeWhile isHex
  let v := hexValue digits
  if digits = [] then none
  else
    some (if 2 ^ 64 ≤ v then .allOnes 64 else if negative then -BitVec.ofNat 64 v else .ofNat 64 v,
      s.dropWhile isHex)

/-- `sscanf(s, "%lx,%lx", &a, &b) == 2`. -/
def scanPair (s : List Byte) : Option (BitVec 64 × BitVec 64) :=
  match scanLx s with
  | some (a, c :: rest) => if c = 0x2c then (scanLx rest).map fun b => (a, b.1) else none
  | _ => none

def colon : Byte := 0x3a

/-- `strchr(s, ':') + 1`. -/
def afterColon (s : List Byte) : Option (List Byte) :=
  match (s.takeWhile (· ≠ 0)).dropWhile (· ≠ colon) with
  | [] => none
  | _ :: rest => some rest

/-- `sscanf(s, "M%lx,%lx", &a, &b) == 2`. -/
def scanWrite : List Byte → Option (BitVec 64 × BitVec 64)
  | c :: rest => if c = 0x4d then scanPair rest else none
  | [] => none

def decodeHex : Nat → List Byte → Option (List Byte)
  | 0, _ => some []
  | n + 1, data =>
    let h1 := hexToNibble (data.getD 0 0)
    let h2 := hexToNibble (data.getD 1 0)
    if h1 < 0 ∨ h2 < 0 then none
    else (decodeHex n (data.drop 2)).map ((BitVec.ofInt 8 h1 <<< 4 ||| BitVec.ofInt 8 h2) :: ·)

theorem copyPayload_eq (payload : List Byte) {pos : Nat} (fits : pos ≤ bufSize - 4) (csum : Byte) :
    copyPayload pos csum payload = (payload.take (bufSize - 4 - pos),
      csum + (payload.take (bufSize - 4 - pos)).sum) := by
  induction payload generalizing pos csum with
  | nil => simp [copyPayload]
  | cons c cs ih =>
    rw [copyPayload]
    by_cases room : pos < bufSize - 4
    · obtain ⟨k, left⟩ : ∃ k, bufSize - 4 - pos = k + 1 := ⟨bufSize - 4 - pos - 1, by omega⟩
      have next : bufSize - 4 - (pos + 1) = k := by omega
      rw [if_pos room, ih (by omega), next, left, List.take_succ_cons, List.sum_cons,
        BitVec.add_assoc]
    · have none : bufSize - 4 - pos = 0 := by omega
      rw [if_neg room, none]
      simp

theorem sendPacket_eq (payload : List Byte) : sendPacket payload = packet (payload.take 1019) := by
  have masked (v : Byte) : nibbleToHex (v &&& 0x0f) = nibbleToHex v := by
    rw [nibbleToHex, BitVec.and_assoc, BitVec.and_self, nibbleToHex]
  have zero (v : Byte) : 0 + v = v := BitVec.zero_add v
  rw [sendPacket, copyPayload_eq payload (by decide), packet, hexByte]
  simp only [zero, masked]
  rfl

end GdbLink

end M33mu
