import M33mu.GdbReplies
import M33mu.Lib.Chunks

namespace M33mu

open Lib

namespace GdbLink

def chars (s : String) : List Byte := s.toList.map fun c => BitVec.ofNat 8 c.toNat

def reg (name type : String) : List Byte :=
  chars "<reg name=\"" ++ chars name ++ chars "\" bitsize=\"32\"" ++ chars type ++ chars "/>"

def targetXml : List Byte :=
  chars "<?xml version=\"1.0\"?>" ++
  chars "<!DOCTYPE target SYSTEM \"gdb-target.dtd\">" ++
  chars "<target>" ++
  chars "<architecture>arm</architecture>" ++
  chars "<feature name=\"org.gnu.gdb.arm.m-profile\">" ++
  ["r0", "r1", "r2", "r3", "r4", "r5", "r6", "r7", "r8", "r9", "r10", "r11", "r12"].flatMap
    (reg · "") ++
  reg "sp" " type=\"data_ptr\"" ++
  ["lr", "pc", "xpsr", "msp", "psp", "primask", "control", "msplim", "psplim", "msplim_ns",
    "psplim_ns"].flatMap (reg · "") ++
  chars "</feature>" ++
  chars "</target>"

def targetXmlReply (offset length : Word) : Option (List Byte) :=
  let xmlLen := targetXml.length
  if xmlLen ≤ offset.toNat then some (sendPacket [0x6c])
  else
    let (hdr, length) : Byte × Word :=
      if (offset + length).toNat < xmlLen then (0x6d, length)
      else (0x6c, .ofNat 32 (xmlLen - offset.toNat))
    if (length + 2).toNat < bufSize then
      if length.toNat + 1 < bufSize then
        some (sendPacket (hdr :: (targetXml.drop offset.toNat).take length.toNat))
      else none
    else some (sendError 1)

/-- The object, which `strncmp` compares up to the colon, and the two numbers behind it, of which an
`mm_u32` keeps the low half. -/
def scanFeatures (obj : List Byte) : Option (Word × Word) :=
  match afterColon obj with
  | none => none
  | some rest =>
    let name := obj.takeWhile (· ≠ colon)
    if name <+: chars "target.xml" ∨ name <+: chars "target-features" then
      (scanPair rest).map fun (offset, length) => (offset.setWidth 32, length.setWidth 32)
    else none

def qXferFeatures (obj : List Byte) : Option (List Byte) :=
  match scanFeatures obj with
  | some (offset, length) => targetXmlReply offset length
  | none => some (sendError 1)

def chunkOf : Option (List Byte) → Chunk Byte
  | none => .refused
  | some sent =>
    match (sent.drop 1).takeWhile (· ≠ hash) with
    | [] => .refused
    | mark :: data =>
      if mark = 0x6d then .more data else if mark = 0x6c then .last data else .refused

def fetched (length : Nat → Word) : Nat → Transfer Byte :=
  Transfer.after fun n received => chunkOf (targetXmlReply (.ofNat 32 received) (length n))

def Fits (offset length : Word) : Prop :=
  targetXml.length ≤ offset.toNat ∨ offset.toNat + length.toNat < 2 ^ 32

theorem chars_ofList (l : List Char) :
    chars (String.ofList l) = l.map fun c => BitVec.ofNat 8 c.toNat := by
  rw [chars, String.toList_ofList]

theorem chars_plain (l : List Char)
    (plain : (l.all fun c => BitVec.ofNat 8 c.toNat != hash) = true) :
    ∀ c ∈ chars (String.ofList l), c ≠ hash := by
  rw [chars_ofList, List.forall_mem_map]
  intro c mem
  exact bne_iff_ne.mp (List.all_eq_true.mp plain c mem)

theorem targetXml_chars : targetXml.length = 943 ∧ ∀ c ∈ targetXml, c ≠ hash := by
  simp only [targetXml, reg, List.flatMap_cons, List.flatMap_nil]
  constructor
  · repeat rw [chars_ofList]
    simp only [List.length_append, List.length_map]
    rfl
  · simp only [List.forall_mem_append]
    repeat' apply And.intro
    all_goals first
      | exact chars_plain _ (by decide +kernel)
      | exact List.forall_mem_nil _

attribute [irreducible] targetXml

theorem takeWhile_packet {payload : List Byte} (plain : ∀ c ∈ payload, c ≠ hash) :
    ((packet payload).drop 1).takeWhile (· ≠ hash) = payload := by
  rw [packet, List.cons_append, List.drop_succ_cons, List.drop_zero,
    List.takeWhile_append_of_pos (by simpa using plain)]
  simp

theorem chunkOf_sendPacket {mark : Byte} {data : List Byte} (plain : ∀ c ∈ mark :: data, c ≠ hash)
    (fits : data.length ≤ 1018) : chunkOf (some (sendPacket (mark :: data))) =
      if mark = 0x6d then .more data else if mark = 0x6c then .last data else .refused := by
  have whole : (mark :: data).take 1019 = mark :: data :=
    List.take_of_length_le (by rw [List.length_cons]; omega)
  rw [sendPacket_eq, whole, chunkOf, takeWhile_packet plain]

variable {offset length : Word}

theorem length_drop_targetXml : (targetXml.drop offset.toNat).length = 943 - offset.toNat := by
  rw [List.length_drop, targetXml_chars.1]

theorem chunkOf_part {mark : Byte} (plain : mark ≠ hash) (n : Nat) :
    chunkOf (some (sendPacket (mark :: (targetXml.drop offset.toNat).take n))) =
      if mark = 0x6d then .more ((targetXml.drop offset.toNat).take n)
      else if mark = 0x6c then .last ((targetXml.drop offset.toNat).take n) else .refused := by
  apply chunkOf_sendPacket
  · intro c mem
    cases mem with
    | head => exact plain
    | tail _ mem =>
      exact targetXml_chars.2 c (List.mem_of_mem_drop (List.mem_of_mem_take mem))
  · rw [List.length_take, length_drop_targetXml]
    omega

theorem chunk_behind (behind : 943 ≤ offset.toNat) :
    chunkOf (targetXmlReply offset length) = .last [] := by
  rw [targetXmlReply, targetXml_chars.1]
  dsimp only
  rw [if_pos behind, chunkOf_sendPacket (by decide) (by decide)]
  rfl

theorem targetXmlReply_eq (start : offset.toNat < 943) {hdr : Byte} {length' : Word}
    (chosen : (if (offset + length).toNat < 943 then (0x6d, length)
      else (0x6c, .ofNat 32 (943 - offset.toNat)) : Byte × Word) = (hdr, length')) :
    targetXmlReply offset length =
      if (length' + 2).toNat < bufSize then
        if length'.toNat + 1 < bufSize then
          some (sendPacket (hdr :: (targetXml.drop offset.toNat).take length'.toNat))
        else none
      else some (sendError 1) := by
  rw [targetXmlReply, targetXml_chars.1]
  dsimp only
  rw [if_neg (Nat.not_le.mpr start), chosen]

theorem chunk_inside (inside : offset.toNat + length.toNat < 943) :
    chunkOf (targetXmlReply offset length) =
      .more ((targetXml.drop offset.toNat).take length.toNat) := by
  have size : bufSize = 1024 := rfl
  have sum : (offset + length).toNat < 943 := by
    rw [BitVec.toNat_add]
    omega
  have room : (length + 2).toNat < bufSize := by
    rw [size]
    bv_omega
  rw [targetXmlReply_eq (by omega) (if_pos sum), if_pos room, if_pos (by omega),
    chunkOf_part (by decide)]
  rfl

theorem chunk_end (start : offset.toNat < 943) (reaches : 943 ≤ offset.toNat + length.toNat)
    (fits : offset.toNat + length.toNat < 2 ^ 32) :
    chunkOf (targetXmlReply offset length) = .last (targetXml.drop offset.toNat) := by
  have size : bufSize = 1024 := rfl
  have sum : ¬ (offset + length).toNat < 943 := by
    rw [BitVec.toNat_add]
    omega
  have left : (BitVec.ofNat 32 (943 - offset.toNat)).toNat = 943 - offset.toNat := by
    rw [BitVec.toNat_ofNat]
    omega
  have room : (BitVec.ofNat 32 (943 - offset.toNat) + 2).toNat < bufSize := by
    rw [size]
    bv_omega
  have whole : (targetXml.drop offset.toNat).take (943 - offset.toNat) =
      targetXml.drop offset.toNat :=
    List.take_of_length_le (Nat.le_of_eq length_drop_targetXml)
  rw [targetXmlReply_eq start (if_neg sum), if_pos room, left, if_pos (by omega),
    chunkOf_part (by decide), whole]
  rfl

theorem chunk_wrapped (start : offset.toNat < 943)
    (wraps : 2 ^ 32 ≤ offset.toNat + length.toNat) :
    chunkOf (targetXmlReply offset length) = .refused := by
  have size : bufSize = 1024 := rfl
  have sum : (offset + length).toNat < 943 := by
    rw [BitVec.toNat_add]
    omega
  have error : chunkOf (some (sendError 1)) = .refused :=
    chunkOf_sendPacket (by decide) (by decide)
  rw [targetXmlReply_eq start (if_pos sum), if_neg (by omega : ¬ length.toNat + 1 < bufSize)]
  split
  · rfl
  · exact error

theorem refused_of_not_fits (not : ¬ Fits offset length) :
    chunkOf (targetXmlReply offset length) = .refused := by
  obtain ⟨start, wraps⟩ := not_or.mp not
  rw [targetXml_chars.1] at start
  exact chunk_wrapped (Nat.not_le.mp start) (Nat.not_lt.mp wraps)

theorem right_of_fits (fits : Fits offset length) :
    (chunkOf (targetXmlReply offset length)).Right (targetXml.drop offset.toNat) := by
  rw [Fits, targetXml_chars.1] at fits
  by_cases start : offset.toNat < 943
  · have below := fits.resolve_left (Nat.not_le.mpr start)
    by_cases inside : offset.toNat + length.toNat < 943
    · rw [chunk_inside inside]
      refine ⟨List.take_prefix .., fun all => ?_⟩
      have shorter := congrArg List.length all
      rw [List.length_take, length_drop_targetXml] at shorter
      omega
    · rw [chunk_end start (Nat.not_lt.mp inside) below]
      rfl
  · rw [chunk_behind (Nat.not_lt.mp start)]
    exact (List.drop_eq_nil_of_le (by rw [targetXml_chars.1]; omega)).symm

/-- A reply carries the beginning of what is left, and is marked last where it is all of it,
exactly for the requests that fit. -/
theorem right_iff : (chunkOf (targetXmlReply offset length)).Right
    (targetXml.drop offset.toNat) ↔ Fits offset length := by
  refine ⟨fun right => ?_, right_of_fits⟩
  by_contra not
  rw [refused_of_not_fits not] at right
  exact right

theorem more_ne_nil (positive : 0 < length) {data : List Byte}
    (more : chunkOf (targetXmlReply offset length) = .more data) : data ≠ [] := by
  have some : 0 < length.toNat := positive
  by_cases inside : offset.toNat + length.toNat < 943
  · rw [chunk_inside inside] at more
    injection more with is
    rw [← is, ← List.length_pos_iff, List.length_take, length_drop_targetXml]
    omega
  · by_cases start : offset.toNat < 943
    · by_cases wraps : offset.toNat + length.toNat < 2 ^ 32
      · rw [chunk_end start (Nat.not_lt.mp inside) wraps] at more
        exact nomatch more
      · rw [chunk_wrapped start (Nat.not_lt.mp wraps)] at more
        exact nomatch more
    · rw [chunk_behind (Nat.not_lt.mp start)] at more
      exact nomatch more

theorem finishes_iff {length : Nat → Word} (positive : ∀ n, 0 < length n) :
    (∃ n, fetched length n = .finished targetXml) ↔
      ∀ n received, fetched length n = .reading received →
        Fits (.ofNat 32 received.length) (length n) := by
  constructor
  · rintro ⟨m, done⟩ n received reads
    by_contra not
    exact Transfer.not_finished_of_refused reads (refused_of_not_fits not) m done
  · intro fit
    refine Transfer.exists_finished ?_ fun n received data _ more => more_ne_nil (positive n) more
    intro n received reads part
    have short := part.length_le
    have size : (BitVec.ofNat 32 received.length).toNat = received.length := by
      rw [targetXml_chars.1] at short
      rw [BitVec.toNat_ofNat]
      omega
    have right := right_of_fits (fit n received reads)
    rw [size] at right
    exact right

/-- Every request that reads the description, and every sequence of such requests, is served right
exactly where the ends of the requests stay below `2 ^ 32`. -/
theorem target_xml_read {lengths : Nat → Word} (positive : ∀ n, 0 < lengths n) :
    ((∃ n, fetched lengths n = .finished targetXml) ↔
      ∀ n received, fetched lengths n = .reading received →
        Fits (.ofNat 32 received.length) (lengths n)) ∧
    ∀ obj offset length, scanFeatures obj = some (offset, length) →
      ((chunkOf (qXferFeatures obj)).Right (targetXml.drop offset.toNat) ↔
        Fits offset length) := by
  refine ⟨finishes_iff positive, fun obj offset length parsed => ?_⟩
  rw [qXferFeatures, parsed]
  exact right_iff

theorem target_xml_read_in_quarters :
    ((∃ n, fetched (fun _ => 0x100) n = .finished targetXml) ↔
      ∀ n received, fetched (fun _ => 0x100) n = .reading received →
        Fits (.ofNat 32 received.length) 0x100) ∧
    ∀ obj offset length, scanFeatures obj = some (offset, length) →
      ((chunkOf (qXferFeatures obj)).Right (targetXml.drop offset.toNat) ↔
        Fits offset length) :=
  target_xml_read fun _ => by decide

theorem target_xml_wrapped : ¬ ∀ obj offset length, scanFeatures obj = some (offset, length) →
    (chunkOf (qXferFeatures obj)).Right (targetXml.drop offset.toNat) := by
  intro served
  have parsed : scanFeatures [0x74, 0x61, 0x72, 0x67, 0x65, 0x74, 0x2e, 0x78, 0x6d, 0x6c, 0x3a,
      0x32, 0x30, 0x2c, 0x66, 0x66, 0x66, 0x66, 0x66, 0x66, 0x66, 0x30] =
      some (0x20, 0xfffffff0) := by
    decide +kernel
  have right := served _ _ _ parsed
  rw [qXferFeatures, parsed] at right
  have wraps := right_iff.mp right
  rw [Fits, targetXml_chars.1] at wraps
  exact absurd wraps (by decide)

end GdbLink

end M33mu
