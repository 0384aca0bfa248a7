import M33mu.Lib.Bits
import M33mu.Lib.Ring
import M33mu.Stm32Spi

namespace M33mu

open Lib

namespace SpiInst

def fifo (s : SpiInst) : Ring Byte 32 :=
  ⟨fun i => s.regs (size.toNat + i), s.rxHead.toNat, s.rxTail.toNat⟩

variable {s : SpiInst}

theorem toNat_next (v : Byte) : ((v + 1) &&& 0x1F).toNat = (v.toNat + 1) % 32 := by
  refine (toNat_and_mask (v + 1) 5 (by decide)).trans ?_
  rw [BitVec.toNat_add]
  exact Nat.mod_mod_of_dvd _ (by decide)

theorem fifo_fifoPush (inside : s.fifo.Inside) (room : s.fifo.count + 1 < 32) (v : Byte) :
    (s.fifoPush v).fifo = s.fifo.push v := by
  have next : ((s.rxTail + 1) &&& 0x1F).toNat = (s.fifo.tail + 1) % 32 := toNat_next s.rxTail
  have free : (s.rxTail + 1) &&& 0x1F ≠ s.rxHead := by
    intro last
    rw [last] at next
    have full := (Ring.full_iff inside).mp next.symm
    omega
  rw [fifoPush, if_neg free, Ring.push, fifo]
  congr 1
  funext i
  change RegFile.copy s.regs (size.toNat + s.rxTail.toNat) 1 (v.setWidth 32) (size.toNat + i) =
    Function.update s.fifo.slots s.rxTail.toNat v i
  rw [RegFile.copy, Function.update_apply]
  by_cases here : i = s.rxTail.toNat
  · rw [if_pos (by omega), if_pos here, here, Nat.sub_self]
    exact BitVec.eq_of_getLsbD_eq fun b low => by
      rw [BitVec.getLsbD_extractLsb', BitVec.getLsbD_setWidth, decide_eq_true low,
        decide_eq_true (by omega), Bool.true_and, Bool.true_and]
      congr 1
      omega
  · rw [if_neg (by omega), if_neg here]
    rfl

theorem fifoPop_fst (inside : s.fifo.Inside) : s.fifoPop.1 = s.fifo.items.head? := by
  rw [fifoPop]
  by_cases none' : s.rxHead = s.rxTail
  · have empty : s.fifo.head = s.fifo.tail := congrArg BitVec.toNat none'
    rw [if_pos none', (Ring.items_eq_nil_iff inside).mpr empty]
    rfl
  · rw [if_neg none', Ring.head_items inside fun same => none' (BitVec.eq_of_toNat_eq same)]
    rfl

theorem fifoPop_snd (inside : s.fifo.Inside) :
    s.fifoPop.2.fifo.Inside ∧ s.fifoPop.2.fifo.items = s.fifo.items.tail := by
  rw [fifoPop]
  by_cases none' : s.rxHead = s.rxTail
  · have empty : s.fifo.head = s.fifo.tail := congrArg BitVec.toNat none'
    rw [if_pos none', (Ring.items_eq_nil_iff inside).mpr empty]
    exact ⟨inside, rfl⟩
  · have some' : 1 ≤ s.fifo.count := by
      rw [← Ring.length_items, Nat.one_le_iff_ne_zero, Ne, List.length_eq_zero_iff,
        Ring.items_eq_nil_iff inside]
      exact fun same => none' (BitVec.eq_of_toNat_eq same)
    have skipped : ({ s with rxHead := (s.rxHead + 1) &&& 0x1F } : SpiInst).fifo =
        s.fifo.skip 1 := congrArg (fun head => (⟨s.fifo.slots, head, s.fifo.tail⟩ : Ring Byte 32))
      (toNat_next s.rxHead)
    rw [if_neg none', skipped, Ring.items_skip inside some', List.drop_one]
    exact ⟨Ring.inside_skip inside 1, rfl⟩

def frameAnswers (banks : Banks) (bus : Nat) (value : Word) (ds : List SpiDevice) :
    Nat → List Byte × List SpiDevice
  | 0 => ([], ds)
  | k + 1 =>
    let (answers, ds) := frameAnswers banks bus value ds k
    let (answer, ds) := spiBusXfer banks bus (txOut value k) ds
    (answers ++ [answer], ds)

theorem length_frameAnswers (banks : Banks) (bus : Nat) (value : Word) (ds : List SpiDevice)
    (k : Nat) : (frameAnswers banks bus value ds k).1.length = k := by
  induction k with
  | zero => rfl
  | succ k ih => rw [frameAnswers, List.length_append, ih, List.length_singleton]

/-- What the loop over the bytes of a frame keeps, and the answers that it puts in the FIFO. -/
structure Exchanging (s s' : SpiInst) (answers : List Byte) : Prop where
  inside : s'.fifo.Inside
  items : s'.fifo.items = s.fifo.items ++ answers
  enabled : s'.enabled = s.enabled
  eot : s'.eotPending = s.eotPending
  cfg1 : s'.cfg1 = s.cfg1

theorem exchanging_fifoPush (inside : s.fifo.Inside) (room : s.fifo.count + 1 < 32) (v : Byte) :
    s.Exchanging (s.fifoPush v) [v] := by
  have pushed := fifo_fifoPush inside room v
  have kept : (s.fifoPush v).enabled = s.enabled ∧ (s.fifoPush v).eotPending = s.eotPending ∧
      (s.fifoPush v).cfg1 = s.cfg1 := by
    rw [fifoPush]
    split
    · exact ⟨rfl, rfl, rfl⟩
    · exact ⟨rfl, rfl, RegFile.word_copy_of_apart _ _ (.inl (Nat.le_add_right_of_le (by decide)))⟩
  constructor
  · rw [pushed]
    exact Ring.inside_push inside v
  · rw [pushed]
    exact Ring.items_push inside room v
  · exact kept.1
  · exact kept.2.1
  · exact kept.2.2

theorem txByte_cases (banks : Banks) (value : Word) (s : SpiInst) (ds : List SpiDevice) (i : Nat) :
    let pushed := s.fifoPush (spiBusXfer banks s.busIndex (txOut value i) ds).1
    (txByte banks value (s, ds) i).1 = { pushed with tsizeRem := pushed.tsizeRem - 1 } ∨
      (txByte banks value (s, ds) i).1 = pushed := by
  rw [txByte]
  dsimp only
  split
  · exact .inl rfl
  · exact .inr rfl

theorem exchanging_loop (banks : Banks) (value : Word) (ds : List SpiDevice) (inside : s.fifo.Inside)
    {k : Nat} (room : s.fifo.count + k < 32) :
    let now := (List.range k).foldl (txByte banks value) (s, ds)
    let given := frameAnswers banks s.busIndex value ds k
    s.Exchanging now.1 given.1 ∧ now.2 = given.2 := by
  induction k with
  | zero => exact ⟨⟨inside, (List.append_nil _).symm, rfl, rfl, rfl⟩, rfl⟩
  | succ k ih =>
    have bus := (sending_loop banks value s ds k).1.bus
    obtain ⟨sofar, devices⟩ := ih (by omega)
    simp only [List.range_succ, List.foldl_append, List.foldl_cons, List.foldl_nil, frameAnswers]
    have size := length_frameAnswers banks s.busIndex value ds k
    generalize (List.range k).foldl (txByte banks value) (s, ds) = now at sofar devices bus
    generalize frameAnswers banks s.busIndex value ds k = given at sofar devices size
    obtain ⟨s', ds'⟩ := now
    obtain ⟨answers, ds''⟩ := given
    obtain ⟨inside', items, enabled, eot, cfg1⟩ := sofar
    subst devices
    dsimp only at bus items size ⊢
    have count : s'.fifo.count = s.fifo.count + k := by
      rw [← Ring.length_items, items, List.length_append, Ring.length_items, size]
    have room' : s'.fifo.count + 1 < 32 := by omega
    let answer := (spiBusXfer banks s'.busIndex (txOut value k) ds').1
    obtain ⟨inside'', items', enabled', eot', cfg1'⟩ := exchanging_fifoPush inside' room' answer
    have all : s.Exchanging (s'.fifoPush answer) (answers ++ [answer]) :=
      ⟨inside'', by rw [items', items, List.append_assoc], enabled'.trans enabled, eot'.trans eot,
        cfg1'.trans cfg1⟩
    rw [← bus]
    refine ⟨?_, rfl⟩
    rcases txByte_cases banks value s' ds' k with eq | eq <;> rw [eq]
    · exact ⟨all.inside, all.items, all.enabled, all.eot, all.cfg1⟩
    · exact all

structure Reading (s s' : SpiInst) (v : Word) (k : Nat) : Prop where
  inside : s'.fifo.Inside
  items : s'.fifo.items = s.fifo.items.drop k
  bytes : ∀ i < k, txOut v i = s.fifo.items.getD i 0
  rest : ∀ b, 8 * k ≤ b → v.getLsbD b = false
  kept : s' = { s with rxHead := s'.rxHead }

theorem fifoPop_kept (s : SpiInst) : s.fifoPop.2 = { s with rxHead := s.fifoPop.2.rxHead } := by
  rw [fifoPop]
  split <;> rfl

theorem reading_loop (inside : s.fifo.Inside) {k : Nat} (small : k ≤ 4) :
    let now := (List.range k).foldl rxByte (0, s)
    s.Reading now.2 now.1 k := by
  induction k with
  | zero => exact ⟨inside, rfl, nofun, fun b _ => BitVec.getLsbD_zero, rfl⟩
  | succ k ih =>
    have sofar := ih (by omega)
    simp only [List.range_succ, List.foldl_append, List.foldl_cons, List.foldl_nil] at sofar ⊢
    generalize (List.range k).foldl rxByte (0, s) = now at sofar
    obtain ⟨v, s'⟩ := now
    obtain ⟨inside', items, bytes, rest, kept⟩ := sofar
    obtain ⟨inside'', items'⟩ := fifoPop_snd inside'
    have popped : s'.fifoPop.1.getD 0 = s.fifo.items.getD k 0 := by
      rw [fifoPop_fst inside', items, List.head?_drop, List.getD_eq_getElem?_getD]
    have next : rxByte (v, s') k =
        (v ||| (s'.fifoPop.1.getD 0).setWidth 32 <<< (k * 8), s'.fifoPop.2) := rfl
    rw [next, popped]
    refine ⟨inside'', ?_, ?_, ?_, ?_⟩
    · rw [items', items, List.tail_drop]
    · intro i below
      refine BitVec.eq_of_getLsbD_eq fun b low => ?_
      have bits : (txOut (v ||| (s.fifo.items.getD k 0).setWidth 32 <<< (k * 8)) i).getLsbD b =
          (v.getLsbD (i * 8 + b) || (decide (i * 8 + b < 32) && !decide (i * 8 + b < k * 8) &&
            (decide (i * 8 + b - k * 8 < 32) &&
              (s.fifo.items.getD k 0).getLsbD (i * 8 + b - k * 8)))) := by
        rw [txOut, BitVec.getLsbD_setWidth, BitVec.getLsbD_ushiftRight, decide_eq_true low,
          Bool.true_and, BitVec.getLsbD_or, BitVec.getLsbD_shiftLeft, BitVec.getLsbD_setWidth]
      rw [bits]
      by_cases last : i = k
      · subst last
        rw [rest _ (by omega), decide_eq_true (by omega : i * 8 + b < 32),
          decide_eq_false (by omega : ¬ i * 8 + b < i * 8), Nat.add_sub_cancel_left,
          decide_eq_true (by omega : b < 32)]
        rfl
      · have earlier : i < k := by omega
        rw [decide_eq_true (by omega : i * 8 + b < k * 8), ← bytes i earlier, txOut,
          BitVec.getLsbD_setWidth, BitVec.getLsbD_ushiftRight, decide_eq_true low]
        simp
    · intro b high
      rw [BitVec.getLsbD_or, BitVec.getLsbD_shiftLeft, rest b (by omega),
        BitVec.getLsbD_setWidth, BitVec.getLsbD_of_ge _ (b - k * 8) (by omega)]
      simp
    · exact (fifoPop_kept s').trans
        (congrArg (fun t : SpiInst => { t with rxHead := s'.fifoPop.2.rxHead }) kept)

theorem fifo_setWord (s : SpiInst) {off : Nat} (v : Word) (low : off + 4 ≤ size.toNat) :
    ({ s with regs := s.regs.setWord off v } : SpiInst).fifo = s.fifo := by
  have slots : (fun i => s.regs.setWord off v (size.toNat + i)) =
      fun i => s.regs (size.toNat + i) := by
    funext i
    exact RegFile.copy_of_apart _ _ (.inr (Nat.le_add_right_of_le low))
  rw [fifo, slots]
  rfl

theorem fifo_updateSr (s : SpiInst) : s.updateSr.fifo = s.fifo := fifo_setWord s _ (by decide)

theorem cfg1_updateSr (s : SpiInst) : s.updateSr.cfg1 = s.cfg1 :=
  RegFile.word_setWord_of_apart _ _ (.inl (by decide))

theorem eot_updateSr (s : SpiInst) : s.updateSr.sr.getLsbD 3 = s.eotPending := by
  rw [updateSr, sr, RegFile.word_setWord]
  cases s.eotPending <;> simp [srEot, srTxtf, srTxc, srBusy] <;> grind

structure Sent (s s' : SpiInst) (answers : List Byte) (k : Nat) : Prop where
  inside : s'.fifo.Inside
  items : s'.fifo.items = s.fifo.items ++ answers
  enabled : s'.enabled = true
  cfg1 : s'.cfg1 = s.cfg1
  bus : s'.busIndex = s.busIndex
  flag : s'.sr.getLsbD 3 = s'.eotPending
  idle : s.transferActive = false → s'.transferActive = false ∧ s'.eotPending = s.eotPending
  last : s.transferActive = true → s.tsizeRem.toNat ≤ k →
    s'.transferActive = false ∧ s'.eotPending = true
  more : s.transferActive = true → k < s.tsizeRem.toNat →
    s'.transferActive = true ∧ s'.eotPending = s.eotPending ∧
      s'.tsizeRem.toNat = s.tsizeRem.toNat - k

theorem sent_handleTx (banks : Banks) (value n : Word) (ds : List SpiDevice)
    (inside : s.fifo.Inside) (enabled : s.enabled = true)
    (room : s.fifo.count + (s.sendBytes n).toNat < 32) :
    s.Sent (s.handleTx banks value n ds).1
      (frameAnswers banks s.busIndex value ds (s.sendBytes n).toNat).1 (s.sendBytes n).toNat := by
  have loop := exchanging_loop banks value ds inside room
  have counted := (sending_loop banks value s ds (s.sendBytes n).toNat).1
  rw [handleTx, enabled]
  simp only [Bool.not_true, Bool.false_eq_true, if_false]
  generalize (List.range (s.sendBytes n).toNat).foldl (txByte banks value) (s, ds) = now at *
  obtain ⟨s', ds'⟩ := now
  obtain ⟨⟨inside', items, enabled', eot, cfg1⟩, -⟩ := loop
  obtain ⟨bus, active, rem⟩ := counted
  dsimp only at inside' items enabled' eot cfg1 bus active rem ⊢
  have zero : (0 : Word).toNat = 0 := rfl
  by_cases complete : (s'.transferActive && decide (s'.tsizeRem = 0)) = true
  · obtain ⟨on, none'⟩ := Bool.and_eq_true_iff.mp complete
    have left := rem (active ▸ on)
    rw [of_decide_eq_true none', zero] at left
    rw [if_pos complete]
    have fifo := fifo_updateSr { s' with transferActive := false, eotPending := true }
    constructor
    · rw [fifo]
      exact inside'
    · rw [fifo]
      exact items
    · exact enabled'.trans enabled
    · exact (cfg1_updateSr _).trans cfg1
    · exact bus
    · exact eot_updateSr _
    · exact fun off => by cases (active ▸ on).symm.trans off
    · exact fun _ _ => ⟨rfl, rfl⟩
    · exact fun _ less => absurd left (by omega)
  · rw [if_neg complete]
    constructor
    · rw [fifo_updateSr]
      exact inside'
    · rw [fifo_updateSr]
      exact items
    · exact enabled'.trans enabled
    · exact (cfg1_updateSr _).trans cfg1
    · exact bus
    · exact eot_updateSr _
    · exact fun off => ⟨active.trans off, eot⟩
    · intro on few
      have left := rem on
      have none' : s'.tsizeRem = 0 := BitVec.eq_of_toNat_eq (by omega)
      exact absurd (Bool.and_eq_true_iff.mpr ⟨active.trans on, decide_eq_true none'⟩) complete
    · exact fun on _ => ⟨active.trans on, eot, rem on⟩

theorem frameBytes_cases (s : SpiInst) : s.frameBytes = 1 ∨ s.frameBytes = 2 ∨ s.frameBytes = 4 := by
  rw [frameBytes]
  generalize (if s.cfg1 &&& 0x1F = 0 then (8 : Word) else (s.cfg1 &&& 0x1F) + 1) = dsize
  split
  · exact .inl rfl
  split
  · exact .inr (.inl rfl)
  · exact .inr (.inr rfl)

theorem frameBytes_congr {s' : SpiInst} (same : s'.cfg1 = s.cfg1) : s'.frameBytes = s.frameBytes := by
  rw [frameBytes, frameBytes, same]

theorem sendBytes_of_le {n : Word} (wide : s.frameBytes ≤ n) : s.sendBytes n = s.frameBytes :=
  if_neg (BitVec.not_lt.mpr wide)

theorem write_txdr (banks : Banks) {n : Word} (some' : n ≠ 0) (few : n ≤ 4) (value : Word)
    (ds : List SpiDevice) : s.write banks 0x20 n value ds = (true, s.handleTx banks value n ds) := by
  rw [write, if_neg fun any => any.elim some' (BitVec.not_lt.mpr few), if_neg (by decide),
    if_neg (by decide), if_pos rfl]

theorem stop_mem_events {n value : Word} (some' : n ≠ 0) (few : n ≤ 4) (enabled : s.enabled = true) :
    .stop s.busIndex ∈ s.events 0x20 n value ↔
      s.transferActive = true ∧ s.tsizeRem ≤ s.sendBytes n := by
  have served : ¬ (n = 0 ∨ 4 < n ∨ size ≤ 0x20) := fun any =>
    any.elim some' fun any => any.elim (BitVec.not_lt.mpr few) (by decide)
  rw [events, if_neg served, if_neg (by decide), if_pos rfl, txEvents, enabled]
  simp only [Bool.not_true, Bool.false_eq_true, if_false]
  split
  · rename_i last
    exact iff_of_true (List.mem_append_right _ (.head _)) last
  · rename_i last
    refine iff_of_false (fun stop => ?_) last
    obtain ⟨i, -, byte⟩ := List.mem_map.mp stop
    cases byte

end SpiInst

/-- The controllers that `mm_stm32h563_spi_init` leaves. -/
def SpiMachine.init (bus : SpiBus) : SpiMachine where
  bus := bus
  insts i :=
    { regs := RegFile.zero.setWord 0x14 0b10
      rxHead := 0
      rxTail := 0
      enabled := false
      transferActive := false
      eotPending := false
      tsizeRem := 0
      busIndex := i + 1 }

/-- A transfer under way: the frames that it has exchanged, what the device answered, behind what
the FIFO held at the start, and what was read from RXDR. -/
structure SpiTransfer where
  inst : SpiInst
  devices : List SpiDevice
  frames : Nat
  answers : List Byte
  received : List Byte

namespace SpiTransfer

open SpiInst

inductive Op
  | tx (n value : Word)
  | rx (n : Word)
  deriving DecidableEq, Repr

def Op.isTx : Op → Bool
  | .tx _ _ => true
  | .rx _ => false

def start (s : SpiInst) (value : Word) (ds : List SpiDevice) : SpiTransfer :=
  let (inst, devices) := s.writeCr1 value ds
  ⟨inst, devices, 0, s.fifo.items, []⟩

def step (banks : Banks) (t : SpiTransfer) : Op → SpiTransfer
  | .tx n value =>
    let (_, inst, devices) := t.inst.write banks 0x20 n value t.devices
    let bytes := (t.inst.sendBytes n).toNat
    { t with
      inst := inst
      devices := devices
      frames := t.frames + 1
      answers := t.answers ++ (frameAnswers banks t.inst.busIndex value t.devices bytes).1 }
  | .rx n =>
    let (v, inst) := t.inst.read 0x30 n
    let bytes := (List.range (t.inst.sendBytes n).toNat).map (txOut (v.getD 0))
    { t with inst := inst, received := t.received ++ bytes }

def Fits (t : SpiTransfer) : Op → Prop
  | .tx n _ => t.inst.frameBytes ≤ n ∧ n ≤ 4 ∧ t.inst.fifo.count + t.inst.frameBytes.toNat < 32
  | .rx n => 1 ≤ n ∧ n ≤ 4

instance (t : SpiTransfer) : DecidablePred t.Fits
  | .tx _ _ => inferInstanceAs (Decidable (_ ∧ _))
  | .rx _ => inferInstanceAs (Decidable (_ ∧ _))

/-- The end of a transfer of `size` frames is told once they are exchanged, and the answers were
read or wait in the FIFO. -/
structure Good (size : Nat) (t : SpiTransfer) : Prop where
  told : t.inst.sr.getLsbD 3 = true ↔ size ≤ t.frames
  order : t.received ++ t.inst.fifo.items = t.answers

def Ends (size : Nat) (t : SpiTransfer) : Op → Prop
  | .tx n value => .stop t.inst.busIndex ∈ t.inst.events 0x20 n value ↔ t.frames + 1 = size
  | .rx _ => True

def Finds (t : SpiTransfer) : Op → Prop
  | .tx _ _ => True
  | .rx n => (t.inst.sendBytes n).toNat ≤ t.inst.fifo.count

instance (t : SpiTransfer) : DecidablePred t.Finds
  | .tx _ _ => isTrue trivial
  | .rx _ => inferInstanceAs (Decidable (_ ≤ _))

structure Counts (k size : Nat) (t : SpiTransfer) : Prop where
  inside : t.inst.fifo.Inside
  enabled : t.inst.enabled = true
  width : t.inst.frameBytes.toNat = k
  flag : t.inst.sr.getLsbD 3 = t.inst.eotPending
  running : k * t.frames < size → t.inst.transferActive = true ∧ t.inst.eotPending = false ∧
    t.inst.tsizeRem.toNat = size - k * t.frames
  ended : size ≤ k * t.frames → t.inst.transferActive = false ∧ t.inst.eotPending = true

variable {k size : Nat} {t : SpiTransfer} {banks : Banks}

theorem Counts.pos (counts : t.Counts k size) : 0 < k := by
  rw [← counts.width]
  rcases t.inst.frameBytes_cases with eq | eq | eq <;> rw [eq] <;> decide

theorem Fits.some {n value : Word} (fits : t.Fits (.tx n value)) : n ≠ 0 := by
  rintro rfl
  have least := BitVec.le_def.mp fits.1
  rcases t.inst.frameBytes_cases with eq | eq | eq <;> rw [eq] at least <;> exact absurd least (by decide)

theorem Counts.told_iff (counts : t.Counts k size) :
    t.inst.sr.getLsbD 3 = true ↔ size ≤ k * t.frames := by
  rw [counts.flag]
  by_cases more : k * t.frames < size
  · rw [(counts.running more).2.1]
    exact iff_of_false nofun (Nat.not_le.mpr more)
  · have done := Nat.le_of_not_lt more
    exact iff_of_true (counts.ended done).2 done

theorem Counts.stops_iff (counts : t.Counts k size) {n value : Word} (fits : t.Fits (.tx n value)) :
    .stop t.inst.busIndex ∈ t.inst.events 0x20 n value ↔
      k * t.frames < size ∧ size ≤ k * (t.frames + 1) := by
  rw [stop_mem_events fits.some fits.2.1 counts.enabled, sendBytes_of_le fits.1, BitVec.le_def,
    counts.width, Nat.mul_succ]
  by_cases more : k * t.frames < size
  · obtain ⟨active, -, rem⟩ := counts.running more
    rw [rem, active, eq_self, true_and]
    omega
  · rw [(counts.ended (Nat.le_of_not_lt more)).1]
    exact iff_of_false (fun both => nomatch both.1) fun both => more both.1

theorem sent_step (banks : Banks) (counts : t.Counts k size) {n value : Word}
    (fits : t.Fits (.tx n value)) :
    t.inst.Sent (t.step banks (.tx n value)).inst
      (frameAnswers banks t.inst.busIndex value t.devices k).1 k ∧
      (t.step banks (.tx n value)).answers =
        t.answers ++ (frameAnswers banks t.inst.busIndex value t.devices k).1 := by
  have width : (t.inst.sendBytes n).toNat = k := by rw [sendBytes_of_le fits.1, counts.width]
  have sent := sent_handleTx banks value n t.devices counts.inside counts.enabled (by
    rw [sendBytes_of_le fits.1]
    exact fits.2.2)
  rw [step, write_txdr banks fits.some fits.2.1]
  dsimp only
  rw [width] at sent ⊢
  exact ⟨sent, rfl⟩

theorem counts_tx (counts : t.Counts k size) {n value : Word} (fits : t.Fits (.tx n value)) :
    (t.step banks (.tx n value)).Counts k size := by
  have sent := (sent_step banks counts fits).1
  have frames : (t.step banks (.tx n value)).frames = t.frames + 1 := rfl
  constructor
  · exact sent.inside
  · exact sent.enabled
  · rw [frameBytes_congr sent.cfg1, counts.width]
  · exact sent.flag
  · rw [frames, Nat.mul_succ]
    intro more
    obtain ⟨active, eot, rem⟩ := counts.running (by omega)
    obtain ⟨active', eot', rem'⟩ := sent.more active (by omega)
    exact ⟨active', eot'.trans eot, by omega⟩
  · rw [frames, Nat.mul_succ]
    intro done
    by_cases more : k * t.frames < size
    · obtain ⟨active, -, rem⟩ := counts.running more
      exact sent.last active (by omega)
    · obtain ⟨active, eot⟩ := counts.ended (Nat.le_of_not_lt more)
      obtain ⟨active', eot'⟩ := sent.idle active
      exact ⟨active', eot'.trans eot⟩

theorem step_rx (t : SpiTransfer) {n : Word} (fits : t.Fits (.rx n)) :
    let now := (List.range (t.inst.sendBytes n).toNat).foldl rxByte (0, t.inst)
    t.step banks (.rx n) = { t with
      inst := now.2.updateSr
      received := t.received ++ (List.range (t.inst.sendBytes n).toNat).map (txOut now.1) } := by
  have some' : n ≠ 0 := by
    rintro rfl
    exact absurd fits.1 (by decide)
  have data : t.inst.read 0x30 n =
      (some ((List.range (t.inst.sendBytes n).toNat).foldl rxByte (0, t.inst)).1,
        ((List.range (t.inst.sendBytes n).toNat).foldl rxByte (0, t.inst)).2.updateSr) := by
    rw [SpiInst.read, if_neg fun any => any.elim some' (BitVec.not_lt.mpr fits.2), if_neg (by decide),
      if_pos rfl]
  rw [step, data]
  rfl

theorem sendBytes_le_four (s : SpiInst) (n : Word) : (s.sendBytes n).toNat ≤ 4 := by
  have wide : s.frameBytes.toNat ≤ 4 := by
    rcases s.frameBytes_cases with eq | eq | eq <;> rw [eq] <;> decide
  rw [sendBytes]
  split
  · exact Nat.le_of_lt (Nat.lt_of_lt_of_le (BitVec.lt_def.mp ‹_›) wide)
  · exact wide

theorem counts_rx (counts : t.Counts k size) {n : Word} (fits : t.Fits (.rx n)) :
    (t.step banks (.rx n)).Counts k size := by
  have reading := reading_loop counts.inside (sendBytes_le_four t.inst n)
  rw [step_rx t fits]
  generalize (List.range (t.inst.sendBytes n).toNat).foldl rxByte (0, t.inst) = now at *
  obtain ⟨v, s'⟩ := now
  obtain ⟨inside, -, -, -, kept⟩ := reading
  dsimp only at inside kept ⊢
  constructor
  · rw [fifo_updateSr]
    exact inside
  · exact (congrArg SpiInst.enabled kept).trans counts.enabled
  · rw [frameBytes_congr (cfg1_updateSr s'), ← counts.width, kept]
    rfl
  · exact eot_updateSr s'
  · rw [kept]
    exact counts.running
  · rw [kept]
    exact counts.ended

theorem counts_step (banks : Banks) (counts : t.Counts k size) {op : Op} (fits : t.Fits op) :
    (t.step banks op).Counts k size := by
  cases op with
  | tx n value => exact counts_tx counts fits
  | rx n => exact counts_rx counts fits

theorem order_step_iff (banks : Banks) (counts : t.Counts k size)
    (order : t.received ++ t.inst.fifo.items = t.answers) {op : Op} (fits : t.Fits op) :
    (t.step banks op).received ++ (t.step banks op).inst.fifo.items = (t.step banks op).answers ↔
      t.Finds op := by
  cases op with
  | tx n value =>
    obtain ⟨sent, answers⟩ := sent_step banks counts fits
    refine iff_of_true ?_ trivial
    change t.received ++ _ = _
    rw [answers, sent.items, ← order, List.append_assoc]
  | rx n =>
    have reading := reading_loop counts.inside (sendBytes_le_four t.inst n)
    rw [step_rx t fits, Finds]
    generalize (t.inst.sendBytes n).toNat = j at *
    generalize (List.range j).foldl rxByte (0, t.inst) = now at *
    obtain ⟨v, s'⟩ := now
    obtain ⟨inside, items, bytes, -, -⟩ := reading
    dsimp only at inside items bytes ⊢
    rw [fifo_updateSr, items, ← order, List.append_assoc, List.append_cancel_left_eq,
      ← Ring.length_items]
    constructor
    · intro same
      have lengths := congrArg List.length same
      rw [List.length_append, List.length_map, List.length_range, List.length_drop] at lengths
      omega
    · intro held
      have taken : (List.range j).map (txOut v) = t.inst.fifo.items.take j := by
        apply List.ext_getElem
        · rw [List.length_map, List.length_range, List.length_take, Nat.min_eq_left held]
        · intro i below _
          rw [List.length_map, List.length_range] at below
          rw [List.getElem_map, List.getElem_range, bytes i below, List.getElem_take]
          exact (List.getElem_eq_getD 0).symm
      rw [taken, List.take_append_drop]

def InStep (k size frames : Nat) : Prop := k = 1 ∨ size = 1 ∨ k * frames < size

def Keeps (k size : Nat) (t : SpiTransfer) (op : Op) : Prop :=
  (op.isTx = true → InStep k size (t.frames + 1)) ∧ t.Finds op

theorem step_frames (t : SpiTransfer) (op : Op) :
    (t.step banks op).frames = t.frames + if op.isTx then 1 else 0 := by
  cases op <;> rfl

theorem inStep_iff (pos : 0 < k) (some' : 0 < size) {frames : Nat} (sofar : InStep k size frames) :
    ((size ≤ k * (frames + 1) ↔ size ≤ frames + 1) ∧
      (k * frames < size ∧ size ≤ k * (frames + 1) ↔ frames + 1 = size)) ↔
      InStep k size (frames + 1) := by
  unfold InStep at *
  by_cases one : k = 1
  · subst one
    refine iff_of_true ⟨?_, ?_⟩ (.inl rfl) <;> omega
  by_cases single : size = 1
  · subst single
    have most : 1 ≤ k * (frames + 1) := Nat.mul_pos pos (Nat.succ_pos frames)
    refine iff_of_true ⟨?_, ?_⟩ (.inr (.inl rfl))
    · omega
    · rw [Nat.lt_one_iff, Nat.mul_eq_zero]
      omega
  · have running : k * frames < size := by simpa [one, single] using sofar
    have double : 2 * frames ≤ k * frames := Nat.mul_le_mul_right frames (by omega)
    rw [Nat.mul_succ]
    constructor
    · rintro ⟨told, -⟩
      exact .inr (.inr (by omega))
    · rintro (here | here | more)
      · exact absurd here one
      · exact absurd here single
      · omega

structure Right (k size : Nat) (t : SpiTransfer) : Prop where
  counts : t.Counts k size
  order : t.received ++ t.inst.fifo.items = t.answers
  inStep : InStep k size t.frames

theorem Right.good (right : t.Right k size) : t.Good size where
  order := right.order
  told := by
    have pos := right.counts.pos
    rw [right.counts.told_iff]
    rcases right.inStep with one | single | running
    · rw [one, Nat.one_mul]
    · rw [single, Nat.one_le_iff_ne_zero, Nat.one_le_iff_ne_zero, Ne, Nat.mul_eq_zero]
      omega
    · have least : t.frames ≤ k * t.frames := Nat.le_mul_of_pos_left _ pos
      omega

theorem right_step (right : t.Right k size) {op : Op} (fits : t.Fits op)
    (keeps : t.Keeps k size op) : (t.step banks op).Right k size where
  counts := counts_step banks right.counts fits
  order := (order_step_iff banks right.counts right.order fits).mpr keeps.2
  inStep := by
    rw [step_frames]
    split
    · exact keeps.1 ‹_›
    · exact right.inStep

theorem good_and_ends_step_iff (some' : 0 < size) (right : t.Right k size) {op : Op}
    (fits : t.Fits op) :
    (t.step banks op).Good size ∧ t.Ends size op ↔ t.Keeps k size op := by
  have order := order_step_iff banks right.counts right.order fits
  have told := (counts_step banks right.counts fits).told_iff
  cases op with
  | tx n value =>
    have next := inStep_iff right.counts.pos some' right.inStep
    have ends := right.counts.stops_iff fits
    constructor
    · rintro ⟨good, last⟩
      exact ⟨fun _ => next.mp ⟨told.symm.trans good.told, ends.symm.trans last⟩, trivial⟩
    · rintro ⟨inStep, -⟩
      obtain ⟨flag, stop⟩ := next.mpr (inStep rfl)
      exact ⟨⟨told.trans flag, order.mpr trivial⟩, ends.trans stop⟩
  | rx n =>
    constructor
    · rintro ⟨good, -⟩
      exact ⟨nofun, order.mp good.order⟩
    · rintro keeps
      exact ⟨(right_step right fits keeps).good, trivial⟩

theorem along_keeps_iff {ops : List Op} : Along (step banks) (Keeps k size) t ops ↔
    (ops.countP Op.isTx = 0 ∨ InStep k size (t.frames + ops.countP Op.isTx)) ∧
      Along (step banks) Finds t ops := by
  induction ops generalizing t with
  | nil => simp
  | cons op ops ih =>
    rw [along_cons, along_cons, ih, step_frames, Keeps]
    cases op with
    | rx n => simp [Op.isTx, and_left_comm]
    | tx n value =>
      have more : InStep k size (t.frames + 1 + ops.countP Op.isTx) →
          InStep k size (t.frames + 1) := by
        unfold InStep
        rw [Nat.mul_add]
        omega
      have sum : t.frames + (ops.countP Op.isTx + 1) = t.frames + 1 + ops.countP Op.isTx := by omega
      simp only [Op.isTx, if_true, forall_const, Finds, true_and, and_true, List.countP_cons, sum,
        Nat.add_eq_zero_iff, Nat.one_ne_zero, and_false, false_or]
      constructor
      · rintro ⟨first, none' | rest, finds⟩
        · rw [none', Nat.add_zero]
          exact ⟨first, finds⟩
        · exact ⟨rest, finds⟩
      · rintro ⟨rest, finds⟩
        exact ⟨more rest, .inr rest, finds⟩

theorem right_start {s : SpiInst} (inside : s.fifo.Inside) {value : Word}
    (enables : value &&& crSpe ≠ 0) (starts : value &&& crCstart ≠ 0)
    (sized : s.cr2 &&& 0xFFFF ≠ 0) (ds : List SpiDevice) :
    (start s value ds).Right s.frameBytes.toNat (s.cr2 &&& 0xFFFF).toNat := by
  let s₁ : SpiInst := { s with regs := s.regs.setWord 0x00 value, enabled := true }
  let v : Word := s₁.updateSr.sr &&& ~~~(srEot ||| srTxtf ||| srTxc)
  have inst : (start s value ds).inst = s₁.updateSr.startTransfer := by
    have spe (busy : Bool) : ({ s with regs := s.regs.setWord 0x00 value } : SpiInst).applySpe
        value busy ds = (s₁.updateSr, ds) := if_pos enables
    have cstart : s₁.updateSr.applyCstart value = s₁.updateSr.startTransfer := if_pos starts
    rw [start, writeCr1]
    simp only [spe, cstart]
  have cr2 : s₁.updateSr.cr2 = s.cr2 :=
    (RegFile.word_setWord_of_apart _ _ (.inl (by decide))).trans
      (RegFile.word_setWord_of_apart _ _ (.inr (by decide)))
  have cfg1 : s₁.updateSr.startTransfer.cfg1 = s.cfg1 :=
    (RegFile.word_setWord_of_apart _ _ (.inl (by decide))).trans
      ((cfg1_updateSr s₁).trans (RegFile.word_setWord_of_apart _ _ (.inr (by decide))))
  have fifo : s₁.updateSr.startTransfer.fifo = s.fifo :=
    (fifo_setWord s₁.updateSr v (by decide)).trans
      ((fifo_updateSr s₁).trans (fifo_setWord s value (by decide)))
  have rem : s₁.updateSr.startTransfer.tsizeRem = s.cr2 &&& 0xFFFF := by
    rw [startTransfer, cr2]
    exact if_neg sized
  have pos : 0 < (s.cr2 &&& 0xFFFF).toNat :=
    Nat.pos_of_ne_zero fun zero => sized (BitVec.eq_of_toNat_eq zero)
  have frames : (start s value ds).frames = 0 := rfl
  refine ⟨⟨?_, ?_, ?_, ?_, fun _ => ⟨?_, ?_, ?_⟩, fun done => ?_⟩, ?_, ?_⟩
  · rw [inst, fifo]
    exact inside
  · rw [inst]
    rfl
  · rw [inst, frameBytes_congr cfg1]
  · rw [inst]
    change (s₁.updateSr.startTransfer.sr).getLsbD 3 = false
    rw [startTransfer, sr, RegFile.word_setWord, BitVec.getLsbD_and, BitVec.getLsbD_not,
      show (srEot ||| srTxtf ||| srTxc).getLsbD 3 = true by decide]
    simp
  · rw [inst]
    rfl
  · rw [inst]
    rfl
  · rw [inst, rem, frames, Nat.mul_zero, Nat.sub_zero]
  · rw [frames, Nat.mul_zero] at done
    exact absurd pos (Nat.not_lt.mpr done)
  · rw [inst, fifo]
    rfl
  · rw [frames]
    exact .inr (.inr pos)

end SpiTransfer

namespace SpiInst

variable {s : SpiInst}

theorem inside_fifoPush (inside : s.fifo.Inside) (v : Byte) : (s.fifoPush v).fifo.Inside := by
  rw [fifoPush]
  split
  · exact inside
  · refine ⟨inside.1, ?_⟩
    change ((s.rxTail + 1) &&& 0x1F).toNat < 32
    rw [toNat_next]
    exact Nat.mod_lt _ (by decide)

theorem inside_txByte (inside : s.fifo.Inside) (banks : Banks) (value : Word)
    (ds : List SpiDevice) (i : Nat) : (txByte banks value (s, ds) i).1.fifo.Inside := by
  have next := inside_fifoPush inside (spiBusXfer banks s.busIndex (txOut value i) ds).1
  rcases txByte_cases banks value s ds i with eq | eq <;> rw [eq] <;> exact next

theorem inside_handleTx (inside : s.fifo.Inside) (banks : Banks) (value n : Word)
    (ds : List SpiDevice) : (s.handleTx banks value n ds).1.fifo.Inside := by
  have loop (is : List Nat) (s' : SpiInst) (ds' : List SpiDevice) (inside' : s'.fifo.Inside) :
      (is.foldl (txByte banks value) (s', ds')).1.fifo.Inside := by
    induction is generalizing s' ds' with
    | nil => exact inside'
    | cons i is ih =>
      rw [List.foldl_cons]
      exact ih _ (txByte banks value (s', ds') i).2 (inside_txByte inside' banks value ds' i)
  have sent := loop (List.range (s.sendBytes n).toNat) s ds inside
  rw [handleTx]
  split
  · exact inside
  · dsimp only
    split
    · rw [fifo_updateSr]
      exact sent
    · rw [fifo_updateSr]
      exact sent

theorem inside_write (inside : s.fifo.Inside) (banks : Banks) (offset n value : Word)
    (ds : List SpiDevice) : (s.write banks offset n value ds).2.1.fifo.Inside := by
  have spe (s' : SpiInst) (inside' : s'.fifo.Inside) (busy : Bool) :
      (s'.applySpe value busy ds).1.fifo.Inside := by
    have none' : ∀ s'' : SpiInst, s''.rxHead = 0 → s''.rxTail = 0 → s''.fifo.Inside := by
      intro s'' head tail
      refine ⟨?_, ?_⟩
      · change s''.rxHead.toNat < 32
        rw [head]
        decide
      · change s''.rxTail.toNat < 32
        rw [tail]
        decide
    rw [applySpe]
    split
    · exact inside'
    split
    · exact none' _ rfl rfl
    · exact inside'
  have cstart (s' : SpiInst) (inside' : s'.fifo.Inside) : (s'.applyCstart value).fifo.Inside := by
    rw [applyCstart]
    split
    · split <;> exact inside'
    · exact inside'
  rw [write]
  split
  · exact inside
  split
  · exact inside
  split
  · exact cstart _ (spe { s with regs := s.regs.setWord 0x00 value } inside _)
  split
  · exact inside_handleTx inside banks value n ds
  split
  · exact inside
  · exact inside

theorem inside_read (inside : s.fifo.Inside) (offset n : Word) :
    (s.read offset n).2.fifo.Inside := by
  rw [SpiInst.read]
  split
  · exact inside
  split
  · exact inside
  split
  · have reading := (reading_loop inside (SpiTransfer.sendBytes_le_four s n)).inside
    dsimp only
    rw [fifo_updateSr]
    exact reading
  · exact inside

end SpiInst

namespace SpiMachine

def Inside (m : SpiMachine) : Prop := ∀ i, (m.insts i).fifo.Inside

theorem inside_init (bus : SpiBus) : (init bus).Inside := fun _ =>
  ⟨by change 0 < 32; decide, by change 0 < 32; decide⟩

theorem inside_step {m : SpiMachine} (inside : m.Inside) (op : SpiOp) : (m.step op).Inside := by
  have one {i : Fin 6} {s : SpiInst} (here : s.fifo.Inside) (j : Fin 6) :
      (Function.update m.insts i s j).fifo.Inside := by
    by_cases same : j = i
    · rw [same, Function.update_self]
      exact here
    · rw [Function.update_of_ne same]
      exact inside j
  cases op with
  | gpio bank secAlias offset n value => exact inside
  | write i offset n value =>
    exact one (SpiInst.inside_write (inside i) m.bus.banks offset n value m.bus.devices)
  | read i offset n => exact one (SpiInst.inside_read (inside i) offset n)
  | poll =>
    intro i
    change ((m.insts i).poll).fifo.Inside
    rw [SpiInst.poll]
    split
    · rw [SpiInst.fifo_updateSr]
      exact inside i
    · exact inside i

theorem inside_run (bus : SpiBus) (ops : List SpiOp) : (run step (init bus) ops).Inside := by
  have always : Throughout step Inside (init bus) ops :=
    throughout_of_along (P := fun _ _ => True) (fun _ op inside _ => inside_step inside op)
      (inside_init bus) (along_of_forall fun _ _ => trivial)
  exact always.last

end SpiMachine

namespace SpiTransfer

open SpiInst

/-- Whatever a program did before: the transfer that it starts ends with the last frame, and the
answers are read in order, exactly if the counter of bytes stays in step with the frames and each
read finds its bytes. -/
theorem transfer_iff (bus : SpiBus) (before : List SpiOp) (i : Fin 6) {value : Word}
    (enables : value &&& crSpe ≠ 0) (starts : value &&& crCstart ≠ 0) {ops : List Op} :
    let m := run SpiMachine.step (.init bus) before
    let s := m.insts i
    let size := (s.cr2 &&& 0xFFFF).toNat
    let t := start s value m.bus.devices
    0 < size → Along (step m.bus.banks) Fits t ops →
      (Throughout (step m.bus.banks) (Good size) t ops ∧
          Along (step m.bus.banks) (Ends size) t ops ↔
        InStep s.frameBytes.toNat size (ops.countP Op.isTx) ∧
          Along (step m.bus.banks) Finds t ops) := by
  intro m s size t some' fits
  have sized : s.cr2 &&& 0xFFFF ≠ 0 := fun zero => by
    rw [show size = (s.cr2 &&& 0xFFFF).toNat from rfl, zero] at some'
    exact absurd some' (by decide)
  have right := right_start (SpiMachine.inside_run bus before i) enables starts sized m.bus.devices
  have exact' := throughout_along_iff_of (Q := Right s.frameBytes.toNat size) (G := Good size)
    (R := Ends size) (P := Keeps s.frameBytes.toNat size) (fun _ => Right.good)
    (fun _ _ right fits => right_step right fits)
    (fun _ _ right fits => good_and_ends_step_iff some' right fits) right fits
  rw [exact', along_keeps_iff]
  have frames : t.frames = 0 := rfl
  rw [frames, Nat.zero_add]
  refine and_congr_left fun _ => or_iff_right_of_imp fun none' => ?_
  rw [none']
  exact .inr (.inr some')

def twoFrames (dsize : Word) : SpiMachine :=
  run SpiMachine.step (.init ⟨fun _ => ⟨.zero, 1, 0⟩, []⟩) [.write 0 0x08 4 dsize, .write 0 0x04 4 2]

theorem transfer_iff_two_bytes :
    let t := start ((twoFrames 0x7).insts 0) 0x201 []
    let ops : List Op := [.tx 1 0x9f, .tx 1 0, .rx 1, .rx 1]
    Throughout (step (twoFrames 0x7).bus.banks) (Good 2) t ops ∧
      Along (step (twoFrames 0x7).bus.banks) (Ends 2) t ops :=
  (transfer_iff ⟨fun _ => ⟨.zero, 1, 0⟩, []⟩ [.write 0 0x08 4 0x7, .write 0 0x04 4 2] 0 (by decide)
    (by decide) (by decide) (by decide)).mpr ⟨.inl (by decide), by decide⟩

theorem two_halfwords_end_early : ¬ ∀ (bus : SpiBus) (before : List SpiOp) (i : Fin 6) (value : Word)
    (ops : List Op), value &&& crSpe ≠ 0 → value &&& crCstart ≠ 0 →
      let m := run SpiMachine.step (.init bus) before
      let s := m.insts i
      let size := (s.cr2 &&& 0xFFFF).toNat
      let t := start s value m.bus.devices
      0 < size → 3 ≤ (s.cfg1 &&& 0x1F).toNat → Along (step m.bus.banks) Fits t ops →
        Throughout (step m.bus.banks) (Good size) t ops ∧
          Along (step m.bus.banks) (Ends size) t ops := by
  intro all
  have right := all ⟨fun _ => ⟨.zero, 1, 0⟩, []⟩ [.write 0 0x08 4 0xF, .write 0 0x04 4 2] 0 0x201
    [.tx 2 0] (by decide) (by decide) (by decide) (by decide) (by decide)
  exact absurd right.1.2.told (by decide)

end SpiTransfer

end M33mu
