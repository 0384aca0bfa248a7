import M33mu.Lib.Bits
import M33mu.Stm32Usb

namespace M33mu

open Lib

namespace Stm32Usb

def rxPlace (s : Stm32Usb) (ep : Fin 8) : Word := s.btableBase + BitVec.ofNat 32 ep * 8 + 4

def rxEntry (s : Stm32Usb) (ep : Fin 8) : Word := s.pmaRead32 (s.rxPlace ep)

/-- The receive count of `usb_get_ep_btable`. -/
def rxCount (s : Stm32Usb) (ep : Fin 8) : Word := s.rxEntry ep >>> 16 &&& 0x03FF

def room (s : Stm32Usb) (ep : Fin 8) (len : Word) : Nat :=
  min len.toNat (pmaSize.toNat - (s.rxAddr ep).toNat)

/-- The device has stored a packet in the buffer of its endpoint, of the size that `alloc` reads off
the entry, and has counted it there. -/
structure Received (alloc : Word → Nat) (s s' : Stm32Usb) (ep : Fin 8) (data : Nat → Byte)
    (len : Word) : Prop where
  kept : ∀ b, ¬ ((s.rxAddr ep).toNat ≤ b / 8 ∧
      b / 8 < (s.rxAddr ep).toNat + alloc (s.rxEntry ep)) →
    ¬ (8 * (s.rxPlace ep).toNat + 16 ≤ b ∧ b < 8 * (s.rxPlace ep).toNat + 26) →
    s'.pma.bit b = s.pma.bit b
  stored : ∀ i < s.room ep len, s'.pma ((s.rxAddr ep).toNat + i) = data i
  count : (s'.rxCount ep).toNat = s.room ep len

def OutRight (alloc : Word → Nat) (s : Stm32Usb) (ep len : Word) (setup : Bool) : Prop :=
  ∀ data, s.epOut ep data len setup = (false, s) ∨
    ∃ e ∈ endpoint ep, s.Received alloc (s.epOut ep data len setup).2 e data len

/-- The stored bytes fit the buffer and are not those of the count, which can tell how many they
are. -/
structure Packed (alloc : Word → Nat) (s : Stm32Usb) (ep : Fin 8) (len : Word) : Prop where
  fits : s.room ep len ≤ alloc (s.rxEntry ep)
  apart : ∀ i < s.room ep len, (s.rxAddr ep).toNat + i ≠ (s.rxPlace ep).toNat + 2 ∧
    (s.rxAddr ep).toNat + i ≠ (s.rxPlace ep).toNat + 3
  counted : if pmaSize ≤ s.rxPlace ep + 3 then s.room ep len = 0
    else len.toNat % 1024 = s.room ep len

variable {s : Stm32Usb} {ep : Fin 8}

def filled (s : Stm32Usb) (ep : Fin 8) (data : Nat → Byte) (len : Word) : RegFile :=
  fill s.pma (s.rxAddr ep).toNat len.toNat data

theorem regs_takePacket (s : Stm32Usb) (ep : Fin 8) (data : Nat → Byte) (len : Word)
    (setup : Bool) :
    (s.takePacket ep data len setup).rxPlace ep = s.rxPlace ep := by
  have kept (t : Stm32Usb) : t.raiseIrq.regs = t.regs := by
    rw [raiseIrq]
    split <;> rfl
  have count (t : Stm32Usb) : (t.setRxCount ep len).regs = t.regs := by
    rw [setRxCount, pmaWrite32]
    split <;> rfl
  rw [rxPlace, rxPlace, btableBase, btableBase, reg, takePacket, setIstr, kept, setReg]
  dsimp only
  rw [Function.update_of_ne (by decide), setEp, count]
  rfl

theorem pma_takePacket (s : Stm32Usb) (ep : Fin 8) (data : Nat → Byte) (len : Word)
    (setup : Bool) : (s.takePacket ep data len setup).pma =
      if pmaSize ≤ s.rxPlace ep + 3 then s.filled ep data len
      else
        let entry := (s.filled ep data len).word (s.rxPlace ep).toNat
        (s.filled ep data len).setWord (s.rxPlace ep).toNat
          (entry &&& ~~~(0x03FF0000 : Word) ||| (len &&& 0x03FF) <<< 16) := by
  have kept (t : Stm32Usb) : t.raiseIrq.pma = t.pma := by
    rw [raiseIrq]
    split <;> rfl
  rw [takePacket, setIstr, kept]
  change (setRxCount { s with pma := s.filled ep data len } ep len).pma = _
  have count : (setRxCount { s with pma := s.filled ep data len } ep len) =
      pmaWrite32 { s with pma := s.filled ep data len } (s.rxPlace ep)
        (pmaRead32 { s with pma := s.filled ep data len } (s.rxPlace ep) &&&
          ~~~(0x03FF0000 : Word) ||| (len &&& 0x03FF) <<< 16) := rfl
  rw [count, pmaWrite32]
  split
  · rfl
  · rename_i inside
    rw [pmaRead32, if_neg inside]

theorem bit_fill (pma : RegFile) (addr len : Nat) (data : Nat → Byte) (b : Nat) :
    (fill pma addr len data).bit b =
      if addr ≤ b / 8 ∧ b / 8 < addr + len ∧ b / 8 < pmaSize.toNat then
        (data (b / 8 - addr)).getLsbD (b % 8)
      else pma.bit b := by
  rw [RegFile.bit, fill]
  exact apply_ite (fun v : Byte => v.getLsbD (b % 8)) _ _ _

theorem bit_takePacket (inside : ¬ pmaSize ≤ s.rxPlace ep + 3) (data : Nat → Byte) (len : Word)
    (setup : Bool) (b : Nat) : (s.takePacket ep data len setup).pma.bit b =
      if 8 * (s.rxPlace ep).toNat + 16 ≤ b ∧ b < 8 * (s.rxPlace ep).toNat + 26 then
        len.getLsbD (b - (8 * (s.rxPlace ep).toNat + 16))
      else (s.filled ep data len).bit b := by
  rw [pma_takePacket, if_neg inside]
  dsimp only
  rw [RegFile.setWord, RegFile.bit_copy]
  by_cases entry : 8 * (s.rxPlace ep).toNat ≤ b ∧ b < 8 * ((s.rxPlace ep).toNat + 4)
  · obtain ⟨i, rfl⟩ := Nat.exists_eq_add_of_le entry.1
    have low : i < 32 := by omega
    have field : ∀ j < 32, (0x03FF0000 : Word).getLsbD j = decide (16 ≤ j ∧ j < 26) := by decide
    have least : ∀ j < 32, (0x03FF : Word).getLsbD j = decide (j < 10) := by decide
    rw [if_pos entry, Nat.add_sub_cancel_left, BitVec.getLsbD_or, BitVec.getLsbD_and,
      BitVec.getLsbD_not, field i low, RegFile.bit_word _ _ low, BitVec.getLsbD_shiftLeft,
      BitVec.getLsbD_and, least _ (by omega), decide_eq_true low]
    by_cases count : 16 ≤ i ∧ i < 26
    · rw [if_pos (by omega), decide_eq_true count, decide_eq_false (by omega),
        decide_eq_true (by omega), Nat.add_sub_add_left]
      simp
    · rw [if_neg (by omega), decide_eq_false count]
      by_cases below : i < 16
      · simp [below]
      · simp [show ¬ i - 16 < 10 by omega]
  · rw [if_neg entry, if_neg (by omega)]

theorem rxCount_takePacket (s : Stm32Usb) (ep : Fin 8) (data : Nat → Byte) (len : Word)
    (setup : Bool) : ((s.takePacket ep data len setup).rxCount ep).toNat =
      if pmaSize ≤ s.rxPlace ep + 3 then 0 else len.toNat % 1024 := by
  rw [rxCount, rxEntry, regs_takePacket, pmaRead32]
  split
  · rfl
  · rename_i inside
    have count : (s.takePacket ep data len setup).pma.word (s.rxPlace ep).toNat >>> 16 &&& 0x03FF =
        len &&& 0x03FF := by
      refine BitVec.eq_of_getLsbD_eq fun i low => ?_
      have least : ∀ j < 32, (0x03FF : Word).getLsbD j = decide (j < 10) := by decide
      rw [BitVec.getLsbD_and, BitVec.getLsbD_and, least i low]
      by_cases field : i < 10
      · rw [BitVec.getLsbD_ushiftRight, RegFile.bit_word _ _ (by omega),
          bit_takePacket inside, if_pos (by omega)]
        congr 2
        omega
      · rw [decide_eq_false field, Bool.and_false, Bool.and_false]
    rw [count]
    exact toNat_and_mask len 10 (by decide)

variable {len : Word}

theorem filled_of_lt {i : Nat} (low : i < s.room ep len) (data : Nat → Byte) :
    s.filled ep data len ((s.rxAddr ep).toNat + i) = data i := by
  rw [room] at low
  rw [filled, fill, if_pos (by omega), Nat.add_sub_cancel_left]

theorem bit_filled_of_apart {b : Nat} (apart : ¬ ((s.rxAddr ep).toNat ≤ b / 8 ∧
    b / 8 < (s.rxAddr ep).toNat + s.room ep len)) (data : Nat → Byte) :
    (s.filled ep data len).bit b = s.pma.bit b := by
  rw [room] at apart
  rw [filled, bit_fill, if_neg (by omega)]

theorem received_of_packed {alloc : Word → Nat} (packed : s.Packed alloc ep len)
    (data : Nat → Byte) (setup : Bool) :
    s.Received alloc (s.takePacket ep data len setup) ep data len := by
  obtain ⟨fits, apart, counted⟩ := packed
  by_cases outside : pmaSize ≤ s.rxPlace ep + 3
  · have same : (s.takePacket ep data len setup).pma = s.filled ep data len := by
      rw [pma_takePacket, if_pos outside]
    refine ⟨fun b buffer _ => ?_, fun i low => ?_, ?_⟩
    · rw [same, bit_filled_of_apart (by omega)]
    · rw [same, filled_of_lt low]
    · rw [rxCount_takePacket, if_pos outside]
      rw [if_pos outside] at counted
      exact counted.symm
  · refine ⟨fun b buffer count => ?_, fun i low => ?_, ?_⟩
    · rw [bit_takePacket outside, if_neg count, bit_filled_of_apart (by omega)]
    · obtain ⟨second, third⟩ := apart i low
      refine BitVec.eq_of_getLsbD_eq fun j small => ?_
      rw [← RegFile.bit_byte _ _ small, bit_takePacket outside, if_neg (by omega),
        RegFile.bit_byte _ _ small, filled_of_lt low]
    · rw [rxCount_takePacket, if_neg outside]
      rwa [if_neg outside] at counted

theorem packed_of_received {alloc : Word → Nat} (setup : Bool)
    (all : ∀ data, s.Received alloc (s.takePacket ep data len setup) ep data len) :
    s.Packed alloc ep len := by
  have count := (all fun _ => 0).count
  rw [rxCount_takePacket] at count
  have counted : if pmaSize ≤ s.rxPlace ep + 3 then s.room ep len = 0
      else len.toNat % 1024 = s.room ep len := by
    split at count
    · rename_i outside
      rw [if_pos outside]
      exact count.symm
    · rename_i inside
      rwa [if_neg inside]
  -- of a packet of other bytes the count would show nothing
  have apart : ∀ i < s.room ep len, (s.rxAddr ep).toNat + i ≠ (s.rxPlace ep).toNat + 2 ∧
      (s.rxAddr ep).toNat + i ≠ (s.rxPlace ep).toNat + 3 := by
    intro i low
    have inside : ¬ pmaSize ≤ s.rxPlace ep + 3 := fun outside => by
      rw [if_pos outside] at counted
      omega
    have first (data : Nat → Byte) : (s.takePacket ep data len setup).pma.bit
        (8 * ((s.rxAddr ep).toNat + i) + 0) = (data i).getLsbD 0 := by
      rw [RegFile.bit_byte _ _ (by decide), (all data).stored i low]
    have told {k : Nat} (here : (s.rxAddr ep).toNat + i = (s.rxPlace ep).toNat + k)
        (field : k = 2 ∨ k = 3) : False := by
      have same := (first fun _ => 0).symm.trans (.trans ?_ (first fun _ => 1))
      · exact absurd same (by decide)
      rw [bit_takePacket inside, bit_takePacket inside, if_pos (by omega), if_pos (by omega)]
    exact ⟨fun here => told here (.inl rfl), fun here => told here (.inr rfl)⟩
  refine ⟨Nat.le_of_not_lt fun beyond => ?_, apart, counted⟩
  -- the first byte behind the buffer
  obtain ⟨second, third⟩ := apart _ beyond
  let x := (s.rxAddr ep).toNat + alloc (s.rxEntry ep)
  have kept := (all fun _ => ~~~s.pma x).kept (8 * x + 0) (by omega) (by omega)
  have stored := (all fun _ => ~~~s.pma x).stored _ beyond
  rw [RegFile.bit_byte _ _ (by decide), RegFile.bit_byte _ _ (by decide), stored] at kept
  simp at kept

theorem outRight_iff (alloc : Word → Nat) (s : Stm32Usb) (ep len : Word) (setup : Bool) :
    s.OutRight alloc ep len setup ↔
      ∀ e ∈ endpoint ep, s.Takes e setup → s.Packed alloc e len := by
  rw [OutRight]
  cases here : endpoint ep with
  | none => exact iff_of_true (fun data => .inl (by rw [epOut, here])) nofun
  | some e =>
    by_cases takes : s.Takes e setup
    · have taken (data : Nat → Byte) :
          s.epOut ep data len setup = (true, s.takePacket e data len setup) := by
        rw [epOut, here]
        exact if_pos takes
      constructor
      · rintro right _ ⟨⟩ -
        refine packed_of_received setup fun data => ?_
        rcases right data with refused | ⟨_, ⟨⟩, received⟩
        · rw [taken] at refused
          cases refused
        · rwa [taken] at received
      · intro packed data
        refine .inr ⟨e, rfl, ?_⟩
        rw [taken]
        exact received_of_packed (packed e rfl takes) data setup
    · refine iff_of_true (fun data => .inl ?_) ?_
      · rw [epOut, here]
        exact if_neg takes
      · rintro _ ⟨⟩ taken
        exact absurd taken takes

/-- The transmit address and count of `usb_get_ep_btable`. -/
def txEntry (s : Stm32Usb) (ep : Fin 8) : Word :=
  s.pmaRead32 (s.btableBase + BitVec.ofNat 32 ep * 8)

def txAddr (s : Stm32Usb) (ep : Fin 8) : Word := s.txEntry ep &&& 0xFFFC

def txCount (s : Stm32Usb) (ep : Fin 8) : Word := s.txEntry ep >>> 16 &&& 0x03FF

/-- The texts that the device answers with where the firmware has none. -/
def synthString (index : Byte) : Option String :=
  if index = 1 then some "TinyUSB"
  else if index = 2 then some "TinyUSB Device"
  else if index = 3 then some "m33mu"
  else if index = 4 then some "TinyUSB CDC"
  else if index = 5 then some "TinyUSB MSC"
  else none

/-- `g_usb_last_setup`, which tells a request once it is valid. -/
abbrev LastSetup := Option (Nat → Byte)

def copied (s : Stm32Usb) (ep : Fin 8) (len : Word) (buf : Nat → Byte) : Nat → Byte := fun i =>
  if i < len.toNat ∧ (s.txAddr ep).toNat + i < pmaSize.toNat then s.pma ((s.txAddr ep).toNat + i)
  else buf i

/-- The text that takes the place of a string descriptor without one, and `w_length`. -/
def synthesized (last : LastSetup) (ep : Fin 8) (len : Word) (buf : Nat → Byte) :
    Option (String × BitVec 16) :=
  match last with
  | none => none
  | some setup =>
    if ep = 0 ∧ setup 0 = 0x80 ∧ setup 1 = 0x06 ∧ setup 3 = 0x03 ∧ setup 2 ≠ 0 ∧ len ≤ 4 ∧
        buf 0 = 0x04 ∧ buf 1 = 0x03 then
      (synthString (setup 2)).map (·, setup 7 ++ setup 6)
    else none

/-- `max_buf`, a `size_t`. -/
def maxBuf (max : Word) (wLength : BitVec 16) : BitVec 64 :=
  let m := max.setWidth 64
  let m := if wLength ≠ 0 ∧ wLength.setWidth 64 < m then wLength.setWidth 64 else m
  if 255 < m then 255 else m

/-- `s_len`, as far as `max_buf` has room for it. -/
def synthLen (m : BitVec 64) (str : String) : BitVec 64 :=
  let n : BitVec 64 := BitVec.ofNat 64 str.length
  if (m - 2) / 2 < n then (m - 2) / 2 else n

def synthPut (buf : Nat → Byte) (n : BitVec 64) (str : String) : Nat → Byte := fun i =>
  if i = 0 then 2 + (n * 2).setWidth 8
  else if i = 1 then 0x03
  else if i < 2 + 2 * n.toNat then
    if i % 2 = 0 then BitVec.ofNat 8 (str.toList.getD ((i - 2) / 2) 'A').toNat else 0
  else buf i

/-- The bytes and the length that `usb_ep_in` leaves in the buffer of `max` bytes. -/
def inBytes (s : Stm32Usb) (last : LastSetup) (ep : Fin 8) (max : Word) (buf : Nat → Byte) :
    (Nat → Byte) × Word :=
  let len := if max < s.txCount ep then max else s.txCount ep
  let buf := s.copied ep len buf
  match synthesized last ep len buf with
  | some (str, wLength) =>
    let buf := synthPut buf (synthLen (maxBuf max wLength) str) str
    (buf, (buf 0).setWidth 32)
  | none => (buf, len)

/-- `usb_ep_in`, with the state and the buffer that it leaves. -/
def epInBytes (s : Stm32Usb) (last : LastSetup) (ep max : Word) (buf : Nat → Byte) :
    Bool × Stm32Usb × (Nat → Byte) × Word :=
  match endpoint ep with
  | some e =>
    if s.Gives e then (true, s.givePacket e, s.inBytes last e max buf)
    else (false, s, buf, max)
  | none => (false, s, buf, max)

theorem epInBytes_epIn (s : Stm32Usb) (last : LastSetup) (ep max : Word) (buf : Nat → Byte) :
    ((s.epInBytes last ep max buf).1, (s.epInBytes last ep max buf).2.1) = s.epIn ep := by
  rw [epInBytes, epIn]
  cases endpoint ep with
  | none => rfl
  | some e =>
    dsimp only
    split <;> rfl

def InRight (s : Stm32Usb) (last : LastSetup) (ep max : Word) (buf : Nat → Byte) : Prop :=
  let (_, _, buf', len) := s.epInBytes last ep max buf
  (∀ i, max.toNat ≤ i → buf' i = buf i) ∧ len.toNat ≤ max.toNat

/-- A text that takes the place of a descriptor finds room for its header in what is asked for, or
for all of it in the buffer. -/
def Answerable (s : Stm32Usb) (last : LastSetup) (ep : Fin 8) (max : Word) (buf : Nat → Byte) :
    Prop :=
  let len := if max < s.txCount ep then max else s.txCount ep
  ∀ x ∈ synthesized last ep len (s.copied ep len buf),
    2 ≤ maxBuf max x.2 ∨ 2 + 2 * x.1.length ≤ max.toNat

theorem length_synthString {index : Byte} {str : String} (found : synthString index = some str) :
    str.length ≤ 14 := by
  rw [synthString] at found
  repeat' split at found
  all_goals cases found
  all_goals decide

theorem toNat_maxBuf_le (max : Word) (wLength : BitVec 16) :
    (maxBuf max wLength).toNat ≤ max.toNat := by
  have wide : (max.setWidth 64).toNat = max.toNat := by
    rw [BitVec.toNat_setWidth]
    have := max.isLt
    omega
  have capped {m : BitVec 64} (below : m.toNat ≤ max.toNat) :
      (if 255 < m then 255 else m).toNat ≤ max.toNat := by
    split
    · rename_i beyond
      exact Nat.le_trans (Nat.le_of_lt (BitVec.lt_def.mp beyond)) below
    · exact below
  rw [maxBuf]
  refine capped ?_
  split
  · rename_i asked
    exact Nat.le_trans (Nat.le_of_lt (BitVec.lt_def.mp asked.2)) (Nat.le_of_eq wide)
  · exact Nat.le_of_eq wide

theorem toNat_synthLen {m : BitVec 64} {str : String} (short : str.length ≤ 14) :
    (2 ≤ m → 2 + 2 * (synthLen m str).toNat ≤ m.toNat) ∧
      (¬ 2 ≤ m → (synthLen m str).toNat = str.length) ∧ (synthLen m str).toNat ≤ 14 := by
  have len : (BitVec.ofNat 64 str.length).toNat = str.length := by
    rw [BitVec.toNat_ofNat]
    omega
  have half : ((m - 2) / 2).toNat = (2 ^ 64 - 2 + m.toNat) % 2 ^ 64 / 2 := by
    rw [BitVec.toNat_udiv, BitVec.toNat_sub]
    rfl
  have small := m.isLt
  have two : 2 ≤ m ↔ 2 ≤ m.toNat := BitVec.le_def
  rw [synthLen, two]
  split
  · rename_i beyond
    have beyond := BitVec.lt_def.mp beyond
    rw [half, len] at beyond
    rw [half]
    omega
  · rename_i fits
    have fits := BitVec.le_def.mp (BitVec.not_lt.mp fits)
    rw [half, len] at fits
    rw [len]
    omega

theorem synthesized_short {last : LastSetup} {e : Fin 8} {len : Word} {buf : Nat → Byte}
    {x : String × BitVec 16} (found : synthesized last e len buf = some x) : x.1.length ≤ 14 := by
  cases last with
  | none => cases found
  | some setup =>
    rw [synthesized] at found
    split at found
    · obtain ⟨str, text, rfl⟩ := Option.map_eq_some_iff.mp found
      exact length_synthString text
    · cases found

theorem inBytes_inside_iff (s : Stm32Usb) (last : LastSetup) (e : Fin 8) (max : Word)
    (buf : Nat → Byte) :
    ((∀ i, max.toNat ≤ i → (s.inBytes last e max buf).1 i = buf i) ∧
      (s.inBytes last e max buf).2.toNat ≤ max.toNat) ↔ s.Answerable last e max buf := by
  rw [inBytes, Answerable]
  dsimp only
  generalize eq : (if max < s.txCount e then max else s.txCount e) = len
  have least : len.toNat ≤ max.toNat := by
    rw [← eq]
    split
    · exact Nat.le_refl _
    · rename_i fits
      exact BitVec.le_def.mp (BitVec.not_lt.mp fits)
  have behind (i : Nat) (above : max.toNat ≤ i) : s.copied e len buf i = buf i := by
    rw [copied, if_neg (by omega)]
  cases found : synthesized last e len (s.copied e len buf) with
  | none => exact iff_of_true ⟨behind, least⟩ nofun
  | some x =>
    obtain ⟨str, wLength⟩ := x
    have short : str.length ≤ 14 := synthesized_short found
    obtain ⟨room, whole, few⟩ := toNat_synthLen (m := maxBuf max wLength) short
    have asked := toNat_maxBuf_le max wLength
    have total : (((2 : Byte) + (synthLen (maxBuf max wLength) str * 2).setWidth 8).setWidth
        32).toNat = 2 + 2 * (synthLen (maxBuf max wLength) str).toNat := by
      rw [BitVec.toNat_setWidth, BitVec.toNat_add, BitVec.toNat_setWidth, BitVec.toNat_mul]
      change (2 + (synthLen (maxBuf max wLength) str).toNat * 2 % 2 ^ 64 % 2 ^ 8) % 2 ^ 8 % 2 ^ 32 = _
      omega
    constructor
    · rintro ⟨-, inside⟩ _ ⟨⟩
      have inside : (((2 : Byte) + (synthLen (maxBuf max wLength) str * 2).setWidth 8).setWidth
        32).toNat ≤ max.toNat := inside
      refine or_iff_not_imp_left.mpr fun none' => ?_
      rwa [total, whole none'] at inside
    · intro all
      have inside : 2 + 2 * (synthLen (maxBuf max wLength) str).toNat ≤ max.toNat := by
        by_cases long : 2 ≤ maxBuf max wLength
        · exact Nat.le_trans (room long) asked
        · rw [whole long]
          exact (all _ rfl).resolve_left long
      refine ⟨fun i above => ?_, ?_⟩
      · refine (?_ : synthPut _ _ _ i = _).trans (behind i above)
        rw [synthPut, if_neg (by omega), if_neg (by omega), if_neg (by omega)]
      · exact Nat.le_trans (Nat.le_of_eq total) inside

theorem inRight_iff (s : Stm32Usb) (last : LastSetup) (ep max : Word) (buf : Nat → Byte) :
    s.InRight last ep max buf ↔
      ∀ e ∈ endpoint ep, s.Gives e → s.Answerable last e max buf := by
  rw [InRight, epInBytes]
  cases endpoint ep with
  | none => exact iff_of_true ⟨fun _ _ => rfl, Nat.le_refl _⟩ nofun
  | some e =>
    dsimp only
    by_cases gives : s.Gives e
    · rw [if_pos gives]
      refine (inBytes_inside_iff s last e max buf).trans ⟨?_, fun all => all e rfl gives⟩
      rintro all _ ⟨⟩ -
      exact all
    · rw [if_neg gives]
      refine iff_of_true ⟨fun _ _ => rfl, Nat.le_refl _⟩ ?_
      rintro _ ⟨⟩ given
      exact absurd given gives

/-- Whatever size an entry allocates: a packet is received in the buffer of its endpoint exactly if
its stored bytes fit there, are not those of the count, and are as many as the count tells; and the
bytes of an answer stay in the buffer of the host exactly if a text in their place does. -/
theorem packets_inside_iff (alloc : Word → Nat) (s : Stm32Usb) (last : LastSetup)
    (ep len : Word) (setup : Bool) (max : Word) (buf : Nat → Byte) :
    (s.OutRight alloc ep len setup ↔
      ∀ e ∈ endpoint ep, s.Takes e setup → s.Packed alloc e len) ∧
    (s.InRight last ep max buf ↔
      ∀ e ∈ endpoint ep, s.Gives e → s.Answerable last e max buf) :=
  ⟨outRight_iff alloc s ep len setup, inRight_iff s last ep max buf⟩

/-- In a run that fits, a packet to the host stays in its buffer, and the interrupt status that it
leaves still tells the driver what to serve. -/
theorem epInBytes_served {ops : List Op} {ep : Word} (fits : Along step Fits reset (ops ++ [.epIn ep]))
    (last : LastSetup) (max : Word) (buf : Nat → Byte)
    (answerable : ∀ e ∈ endpoint ep, (run step reset ops).Gives e →
      (run step reset ops).Answerable last e max buf) :
    (run step reset ops).InRight last ep max buf ∧
      ((run step reset ops).epInBytes last ep max buf).2.1.Truthful ∧
      ((run step reset ops).epInBytes last ep max buf).2.1.Drains := by
  refine ⟨(inRight_iff _ last ep max buf).mpr answerable, ?_⟩
  have left : ((run step reset ops).epInBytes last ep max buf).2.1 =
      run step reset (ops ++ [.epIn ep]) := by
    rw [run_append, run_cons, run_nil, step, ← epInBytes_epIn (run step reset ops) last ep max buf]
  have steps (s : Stm32Usb) (op : Op) (single : s.Single) (fits : s.Fits op) : (s.step op).Single :=
    (single_step_iff single op).mpr fits
  have single : Throughout step Single reset (ops ++ [.epIn ep]) :=
    throughout_of_along steps single_reset fits
  rw [left]
  exact (truthful_and_drains_iff _).mpr single.last

def blocks (entry : Word) : Nat :=
  let n := (entry >>> 26 &&& 0x1F).toNat
  if entry.getLsbD 31 then (n + 1) * 32 else n * 2

def receiving : Stm32Usb :=
  run step reset [.write daddrOffset 4 daddrEf, .write 4 4 0x3001, .pmaWrite 12 4 0x84000040]

def stringRequest : LastSetup := some fun i => [0x80, 0x06, 0x03, 0x03, 0, 0, 1, 0].getD i 0

def answering : Stm32Usb :=
  run step reset [.write daddrOffset 4 daddrEf, .write 0 4 0x30, .pmaWrite 0 4 0x00020040,
    .pmaWrite 0x40 4 0x0304]

/-- An OUT packet of a byte more is stored over the end of the buffer, and a text of 12 bytes is
returned in a buffer of 8 where one byte is asked for. -/
theorem packets_outside :
    ¬ (∀ (s : Stm32Usb) (ep len : Word) (setup : Bool), s.OutRight blocks ep len setup) ∧
    ¬ ∀ (s : Stm32Usb) (last : LastSetup) (ep max : Word) (buf : Nat → Byte),
      s.InRight last ep max buf := by
  constructor
  · intro all
    have packed := (outRight_iff blocks receiving 1 65 false).mp (all _ _ _ _) 1 (by decide)
      (by decide +kernel)
    exact absurd packed.fits (by decide +kernel)
  · intro all
    have room := (inRight_iff answering stringRequest 0 8 fun _ => 0).mp (all _ _ _ _ _) 0
      (by decide) (by decide +kernel) ("m33mu", 1) (by decide +kernel)
    exact absurd room (by decide +kernel)

end Stm32Usb

end M33mu
