import M33mu.EthMemory
import M33mu.Lib.Run

namespace M33mu

open Lib

namespace Eth

section Ram

variable {μ : Type u} {bus : DmaBus μ} {R : DmaRam bus} {m : μ}

theorem store_ram (valid : R.Valid m) {des0 : Word} (data : List Byte) {i : Nat}
    (room : data.length ≤ 2 ^ 32)
    (inRam : ∀ k < data.length, R.ram (des0 + BitVec.ofNat 32 (4 * ((i + k) / 4)))) :
    R.Valid (store bus des0 data i m) ∧ R.byte (store bus des0 data i m) =
      (R.byte m).putBytes (des0 + BitVec.ofNat 32 i) data := by
  induction data generalizing i m with
  | nil => exact ⟨valid, (ByteMem.putBytes_nil _ _).symm⟩
  | cons b data ih =>
    have here := inRam 0 (Nat.succ_pos _)
    rw [Nat.add_zero] at here
    obtain ⟨m₁, read, valid₁, same₁⟩ := DmaRam.read32 valid here
    have patched := R.write valid₁ here
      ((R.byte m).word (des0 + BitVec.ofNat 32 (4 * (i / 4))) &&& ~~~(0xFF#32 <<< (8 * (i % 4))) |||
        b.setWidth 32 <<< (8 * (i % 4)))
    obtain ⟨m₂, written, valid₂, same₂⟩ := patched
    have place : des0 + BitVec.ofNat 32 (4 * (i / 4)) + BitVec.ofNat 32 (i % 4) =
        des0 + BitVec.ofNat 32 i := by
      rw [BitVec.add_assoc, ← BitVec.ofNat_add, Nat.div_add_mod]
    have one : R.byte m₂ = Function.update (R.byte m) (des0 + BitVec.ofNat 32 i) b := by
      rw [same₂, same₁, ByteMem.putWord_byte (Nat.mod_lt i (by decide)) (by decide), place]
    have rest := ih valid₂ (i := i + 1) (Nat.le_of_succ_le room) fun k low => by
      rw [Nat.add_assoc, Nat.add_comm 1 k]
      exact inRam (k + 1) (Nat.succ_lt_succ low)
    rw [store, read]
    dsimp only
    rw [Option.getD_some, written]
    refine ⟨rest.1, rest.2.trans ?_⟩
    rw [one, ByteMem.putBytes_cons (by decide) room, BitVec.add_assoc, ← BitVec.ofNat_add]

def rxLength (desc : EthDesc) : Nat := (desc.des3 &&& lengthMask).toNat

/-- The frame is in the buffer as far as the descriptor in the slot `s` says, and the memory is else
as it was before; a descriptor marked as first and last tells of all of the frame. -/
structure Delivered (R : DmaRam bus) (before after : ByteMem 32) (s des0 : Word)
    (frame : List Byte) : Prop where
  slot : R.Slot s
  buffer : R.Buffer des0 (rxLength (.get after s))
  returned : ¬ (EthDesc.get after s).Owned
  short : rxLength (.get after s) ≤ frame.length
  data : after.bytes des0 (rxLength (.get after s)) = frame.take (rxLength (.get after s))
  kept : ∀ x, rxLength (.get after s) ≤ ByteMem.dist des0 x → 4 ≤ ByteMem.dist (s + 12) x →
    after x = before x
  whole : (EthDesc.get after s).des3 &&& desFd ≠ 0 → (EthDesc.get after s).des3 &&& desLd ≠ 0 →
    rxLength (.get after s) = frame.length

def rxWord (desc : EthDesc) (n : Nat) : Word :=
  desc.des3 &&& desBuf1v ||| desFd ||| desLd ||| (BitVec.ofNat 32 n &&& lengthMask)

theorem rxWord_own (desc : EthDesc) (n : Nat) : rxWord desc n &&& desOwn = 0 := by
  have buf1v : desBuf1v &&& desOwn = 0#32 := by decide
  have first : desFd &&& desOwn = 0#32 := by decide
  have last : desLd &&& desOwn = 0#32 := by decide
  have length : lengthMask &&& desOwn = 0#32 := by decide
  simp only [rxWord, BitVec.and_or_distrib_right, BitVec.and_assoc, buf1v, first, last, length,
    BitVec.and_zero, BitVec.or_zero]
  rfl

theorem rxWord_length (desc : EthDesc) {n : Nat} (few : n ≤ 1600) :
    (rxWord desc n &&& lengthMask).toNat = n := by
  have buf1v : desBuf1v &&& lengthMask = 0#32 := by decide
  have first : desFd &&& lengthMask = 0#32 := by decide
  have last : desLd &&& lengthMask = 0#32 := by decide
  have mask : lengthMask.toNat = 2 ^ 14 - 1 := by decide
  simp only [rxWord, BitVec.and_or_distrib_right, BitVec.and_assoc, buf1v, first, last, BitVec.and_zero,
    BitVec.or_zero, BitVec.zero_or, BitVec.and_self]
  rw [BitVec.toNat_and, mask, BitVec.toNat_ofNat, Nat.and_two_pow_sub_one_eq_mod,
    Nat.mod_eq_of_lt (by omega), Nat.mod_eq_of_lt (by omega)]

theorem get_putBytes {b : ByteMem 32} {s des0 : Word} {data : List Byte}
    (apart : ∀ i < data.length, 16 ≤ ByteMem.dist s (des0 + BitVec.ofNat 32 i)) :
    EthDesc.get (b.putBytes des0 data) s = EthDesc.get b s := by
  refine EthDesc.get_congr fun x near => ByteMem.putBytes_apart (Nat.le_of_not_lt fun inside => ?_)
  have far := apart _ inside
  rw [ByteMem.add_dist] at far
  exact absurd near (Nat.not_lt.mpr far)

theorem delivered {b : ByteMem 32} {s des0 v : Word} {frame : List Byte} (few : frame.length ≤ 1600)
    (slot : R.Slot s) (buffer : R.Buffer des0 frame.length)
    (apart : ∀ i < frame.length, 16 ≤ ByteMem.dist s (des0 + BitVec.ofNat 32 i))
    (free : v &&& desOwn = 0) (length : (v &&& lengthMask).toNat = frame.length) :
    Delivered R b ((b.putBytes des0 frame).putWord (s + 12) v) s des0 frame := by
  have last : (EthDesc.get ((b.putBytes des0 frame).putWord (s + 12) v) s).des3 = v :=
    ByteMem.word_putWord (by decide) _ _ v
  have here : rxLength (.get ((b.putBytes des0 frame).putWord (s + 12) v) s) = frame.length := by
    rw [rxLength, last, length]
  constructor
  case slot => exact slot
  case buffer => rwa [here]
  case returned =>
    rw [EthDesc.Owned, last]
    exact not_not_intro free
  case short => exact Nat.le_of_eq here
  case data =>
    rw [here, List.take_length]
    refine List.ext_getElem (ByteMem.length_bytes _ _ _) fun i _ low => ?_
    have far : 4 ≤ ByteMem.dist (s + 12) (des0 + BitVec.ofNat 32 i) :=
      EthDesc.dist_word (by decide) (apart i low) (by decide)
    rw [ByteMem.getElem_bytes, ByteMem.putWord_apart far, ByteMem.putBytes_near low (by omega)]
  case kept =>
    intro x out away
    rw [here] at out
    rw [ByteMem.putWord_apart away, ByteMem.putBytes_apart out]
  case whole => exact fun _ _ => here

def rxDesc (e : Eth) (k : Nat) : Word := e.reg dmacrxdlar + BitVec.ofNat 32 (16 * k)

def FreeKept (e : Eth) (before after : ByteMem 32) : Prop :=
  ∀ k < descCount (e.reg dmacrxrlr), ¬ (EthDesc.get before (e.rxDesc k)).Owned →
    EthDesc.get after (e.rxDesc k) = EthDesc.get before (e.rxDesc k)

/-- A poll with a frame looks at a descriptor of the ring, delivers the frame if the descriptor is
owned and has room, and else leaves memory alone. -/
def ReceivesRight (R : DmaRam bus) (frame : List Byte) (e : Eth) (m : μ) : Prop :=
  let after := R.byte (e.rxPoll bus frame m).2
  e.FreeKept (R.byte m) after ∧
    if e.rxEnabled ∧ frame ≠ [] then
      e.rxIdx < descCount (e.reg dmacrxrlr) ∧
        match (bus.readDesc m e.rxSlot).1 with
        | none => after = R.byte m
        | some desc =>
          if desc.Owned ∧ e.rxBufLen desc ≠ 0 then
            Delivered R (R.byte m) after e.rxSlot desc.des0 frame
          else after = R.byte m
    else after = R.byte m

/-- The buffer of the descriptor has room for the frame, and is in memory, apart from the descriptor
and from those that the controller does not own. -/
structure HasRoom (R : DmaRam bus) (e : Eth) (b : ByteMem 32) (frame : List Byte)
    (desc : EthDesc) : Prop where
  room : frame.length ≤ e.rxBufLen desc
  slot : R.Slot e.rxSlot
  buffer : R.Buffer desc.des0 frame.length
  apart : ∀ i < frame.length, 16 ≤ ByteMem.dist e.rxSlot (desc.des0 + BitVec.ofNat 32 i)
  free : ∀ k < descCount (e.reg dmacrxrlr), ¬ (EthDesc.get b (e.rxDesc k)).Owned →
    ∀ i < frame.length, 16 ≤ ByteMem.dist (e.rxDesc k) (desc.des0 + BitVec.ofNat 32 i)

def Receivable (R : DmaRam bus) (frame : List Byte) (e : Eth) (m : μ) : Prop :=
  e.rxEnabled → frame ≠ [] → e.rxIdx < descCount (e.reg dmacrxrlr) ∧
    ∀ desc ∈ (bus.readDesc m e.rxSlot).1, desc.Owned → e.rxBufLen desc ≠ 0 →
      HasRoom R e (R.byte m) frame desc

theorem deliver_ram (valid : R.Valid m) {s des0 : Word} {frame : List Byte}
    (few : frame.length ≤ 1600) (slot : R.Slot s) (buffer : R.Buffer des0 frame.length)
    (apart : ∀ i < frame.length, 16 ≤ ByteMem.dist s (des0 + BitVec.ofNat 32 i)) (v : Word) :
    R.byte (bus.writeDesc (store bus des0 frame 0 m) s
        { EthDesc.get (R.byte m) s with des3 := v }).2 =
      ((R.byte m).putBytes des0 frame).putWord (s + 12) v := by
  obtain ⟨valid', stored⟩ := store_ram valid frame (i := 0) (by omega) fun k low => by
    rw [Nat.zero_add]
    exact buffer k low
  rw [BitVec.add_zero] at stored
  obtain ⟨m', written, -, last⟩ :=
    DmaRam.writeDesc valid' slot { EthDesc.get (R.byte m) s with des3 := v }
  rw [written, last, stored, ← get_putBytes apart, EthDesc.put_last]

theorem freeKept_deliver {e : Eth} {b : ByteMem 32} {frame : List Byte} {des0 v : Word}
    (owned : (EthDesc.get b e.rxSlot).Owned)
    (free : ∀ k < descCount (e.reg dmacrxrlr), ¬ (EthDesc.get b (e.rxDesc k)).Owned →
      ∀ i < frame.length, 16 ≤ ByteMem.dist (e.rxDesc k) (des0 + BitVec.ofNat 32 i)) :
    e.FreeKept b ((b.putBytes des0 frame).putWord (e.rxSlot + 12) v) := by
  intro k low notOwned
  have few := descCount_le (e.reg dmacrxrlr)
  have other : e.rxIdx.val ≠ k := by
    rintro rfl
    exact notOwned owned
  have apart : EthDesc.Apart e.rxSlot (e.rxDesc k) :=
    EthDesc.apart_of_ne _ e.rxIdx.isLt (by omega) other
  have untouched : EthDesc.get ((b.putBytes des0 frame).putWord (e.rxSlot + 12) v) (e.rxDesc k) =
      EthDesc.get (b.putBytes des0 frame) (e.rxDesc k) :=
    EthDesc.get_congr fun x near => ByteMem.putWord_apart
      (EthDesc.dist_word (by decide) (apart.far near) (by decide)) v
  rw [untouched, get_putBytes (free k low notOwned)]

theorem freeKept_of_eq {e : Eth} {b b' : ByteMem 32} (same : b' = b) : e.FreeKept b b' :=
  fun k _ _ => by rw [same]

theorem rxPoll_idle {frame : List Byte} {e : Eth} (idle : ¬ (e.rxEnabled ∧ frame ≠ [])) (m : μ) :
    e.rxPoll bus frame m = (e, m) := by
  rw [rxPoll]
  by_cases enabled : e.rxEnabled
  · rw [if_neg (by rw [enabled]; decide), if_pos (not_not.mp fun some => idle ⟨enabled, some⟩)]
  · rw [if_pos (by simpa using enabled)]

theorem receives_right {frame : List Byte} {e : Eth} (valid : R.Valid m)
    (few : frame.length ≤ 1600) (receivable : Receivable R frame e m) :
    ReceivesRight R frame e m := by
  by_cases taken : e.rxEnabled ∧ frame ≠ []
  case neg =>
    rw [ReceivesRight, if_neg taken, rxPoll_idle taken]
    exact ⟨freeKept_of_eq rfl, rfl⟩
  obtain ⟨inside, room⟩ := receivable taken.1 taken.2
  have kept := DmaRam.readDesc_kept R m e.rxSlot
  have busy : ¬ (!e.rxEnabled) = true := by rw [taken.1]; decide
  rw [ReceivesRight, if_pos taken, rxPoll, if_neg busy, if_neg taken.2]
  generalize read : bus.readDesc m e.rxSlot = r at room kept ⊢
  obtain ⟨_ | desc, m₁⟩ := r
  · exact ⟨freeKept_of_eq kept, inside, kept⟩
  dsimp only at room kept ⊢
  by_cases owned : desc.Owned
  case neg =>
    rw [if_pos (not_not.mp owned), if_neg fun both => owned both.1]
    exact ⟨freeKept_of_eq kept, inside, kept⟩
  rw [if_neg owned]
  by_cases none : e.rxBufLen desc = 0
  · rw [if_pos none, if_neg fun both => both.2 none]
    exact ⟨freeKept_of_eq kept, inside, kept⟩
  rw [if_neg none, if_pos ⟨owned, none⟩]
  obtain ⟨room, slot, buffer, apart, free⟩ := room desc rfl owned none
  obtain ⟨m', read', valid', -⟩ := DmaRam.readDesc valid slot
  obtain ⟨here, rfl⟩ := Prod.mk.inj (read'.symm.trans read)
  obtain rfl := Option.some.inj here
  rw [List.take_of_length_le room]
  have left := deliver_ram valid' few slot buffer apart
    (rxWord (.get (R.byte m) e.rxSlot) frame.length)
  rw [kept] at left
  refine ⟨?_, inside, ?_⟩
  · exact (congrArg (e.FreeKept (R.byte m)) left).mpr (freeKept_deliver owned free)
  · exact (congrArg (Delivered R (R.byte m) · _ _ frame) left).mpr
      (delivered few slot buffer apart (rxWord_own _ _) (rxWord_length _ few))

theorem ReceivesRight.delivered {frame : List Byte} {e : Eth} (right : ReceivesRight R frame e m)
    (taken : e.rxEnabled ∧ frame ≠ []) (desc : EthDesc)
    (read : (bus.readDesc m e.rxSlot).1 = some desc) (room : desc.Owned ∧ e.rxBufLen desc ≠ 0) :
    Delivered R (R.byte m) (R.byte (e.rxPoll bus frame m).2) e.rxSlot desc.des0 frame := by
  rw [ReceivesRight, if_pos taken, read] at right
  have here := right.2.2
  dsimp only at here
  rwa [if_pos room] at here

theorem ReceivesRight.inside {frame : List Byte} {e : Eth} (right : ReceivesRight R frame e m)
    (taken : e.rxEnabled ∧ frame ≠ []) : e.rxIdx < descCount (e.reg dmacrxrlr) := by
  rw [ReceivesRight, if_pos taken] at right
  exact right.2.1

section Decidable

variable [DecidablePred R.ram] [DecidablePred R.Valid]

instance (s : Word) : Decidable (R.Slot s) := inferInstanceAs (Decidable (_ ∧ _ ∧ _ ∧ _))

instance (des0 : Word) (n : Nat) : Decidable (R.Buffer des0 n) :=
  inferInstanceAs (Decidable (∀ j < n, _))

instance (e : Eth) (b : ByteMem 32) (frame : List Byte) (desc : EthDesc) :
    Decidable (HasRoom R e b frame desc) :=
  decidable_of_iff (frame.length ≤ e.rxBufLen desc ∧ R.Slot e.rxSlot ∧
      R.Buffer desc.des0 frame.length ∧
      (∀ i < frame.length, 16 ≤ ByteMem.dist e.rxSlot (desc.des0 + BitVec.ofNat 32 i)) ∧
      ∀ k < descCount (e.reg dmacrxrlr), ¬ (EthDesc.get b (e.rxDesc k)).Owned →
        ∀ i < frame.length, 16 ≤ ByteMem.dist (e.rxDesc k) (desc.des0 + BitVec.ofNat 32 i))
    ⟨fun ⟨room, slot, buffer, apart, free⟩ => ⟨room, slot, buffer, apart, free⟩,
      fun ⟨room, slot, buffer, apart, free⟩ => ⟨room, slot, buffer, apart, free⟩⟩

instance (frame : List Byte) (e : Eth) (m : μ) : Decidable (Receivable R frame e m) :=
  inferInstanceAs (Decidable (_ → _ → _ ∧ ∀ desc ∈ (bus.readDesc m e.rxSlot).1, _))

end Decidable

/-- What can happen to the controller and the memory: accesses to the registers, a reset, new clocks,
anything that others do to memory, and the two polls. -/
inductive Op (μ : Type u) where
  | load (offset n : Word) (up : Bool)
  | store (offset n value : Word) (up : Bool) (random : BitVec 64)
  | reset (random : BitVec 64)
  | clocks (ahb1enr : Option Word)
  | guest (m : μ)
  | transmit (buf : Nat → Nat → Byte)
  | receive (frame : {frame : List Byte // frame.length ≤ 1600})

def step (bus : DmaBus μ) (s : Eth × μ) : Op μ → Eth × μ
  | .load offset n up => ((s.1.read offset n up).2, s.2)
  | .store offset n value up random => ((s.1.write offset n value up random).2, s.2)
  | .reset random => (s.1.reset random, s.2)
  | .clocks ahb1enr => ({ s.1 with ahb1enr }, s.2)
  | .guest m => (s.1, m)
  | .transmit buf => (s.1.txPoll bus buf s.2).2
  | .receive frame => s.1.rxPoll bus frame s.2

def Right (R : DmaRam bus) (s : Eth × μ) : Op μ → Prop
  | .receive frame => R.Valid s.2 → ReceivesRight R frame s.1 s.2
  | .guest _ | .transmit _ => True
  | op => (step bus s op).2 = s.2

def Fits (R : DmaRam bus) (s : Eth × μ) : Op μ → Prop
  | .receive frame => R.Valid s.2 → Receivable R frame s.1 s.2
  | _ => True

instance [DecidablePred R.ram] [DecidablePred R.Valid] (s : Eth × μ) :
    ∀ op, Decidable (Fits R s op)
  | .receive frame => inferInstanceAs (Decidable (R.Valid s.2 → Receivable R frame s.1 s.2))
  | .load .. | .store .. | .reset _ | .clocks _ | .guest _ | .transmit _ => isTrue trivial

theorem right_of_fits {s : Eth × μ} {op : Op μ} (fits : Fits R s op) : Right R s op := by
  cases op with
  | receive frame => exact fun valid => receives_right valid frame.2 (fits valid)
  | load => rfl
  | store => rfl
  | reset => rfl
  | clocks => rfl
  | guest => trivial
  | transmit => trivial

/-- Along a run whose frames each find a descriptor of the ring with room for them, all are
received right. -/
theorem receives_right_along (R : DmaRam bus) {s : Eth × μ} {ops : List (Op μ)}
    (fits : Along (step bus) (Fits R) s ops) : Along (step bus) (Right R) s ops :=
  fits.imp fun _ _ here => right_of_fits here

def Inside (e : Eth) : Prop := e.rxIdx < descCount (e.reg dmacrxrlr)

def SameRing (e e' : Eth) : Prop :=
  e'.rxIdx = e.rxIdx ∧ e'.reg dmacrxrlr = e.reg dmacrxrlr

theorem SameRing.inside {e e' : Eth} (same : SameRing e e') (inside : e.Inside) : e'.Inside := by
  rwa [Inside, same.1, same.2]

theorem SameRing.trans {e e' e'' : Eth} (first : SameRing e e') (next : SameRing e' e'') :
    SameRing e e'' :=
  ⟨next.1.trans first.1, next.2.trans first.2⟩

theorem setReg_ring {e : Eth} (offset : Nat) (other : dmacrxrlr / 4 ≠ offset / 4) (v : Word) :
    SameRing e (e.setReg offset v) := by
  have kept : Function.update e.regs (offset / 4) v (dmacrxrlr / 4) = e.regs (dmacrxrlr / 4) :=
    Function.update_of_ne other v e.regs
  exact ⟨rfl, kept⟩

theorem updateIrq_ring (e : Eth) : SameRing e e.updateIrq := by
  rw [updateIrq]
  split <;> exact ⟨rfl, rfl⟩

theorem raise_ring (e : Eth) (bits : Word) : SameRing e (e.raise bits) :=
  (setReg_ring dmacsr (by decide) _).trans (updateIrq_ring _)

theorem handleMdio_ring (e : Eth) (up : Bool) : SameRing e (e.handleMdio up) := by
  rw [handleMdio]
  dsimp only
  split
  · exact ⟨rfl, rfl⟩
  refine SameRing.trans ?_ (setReg_ring macmdioar (by decide) _)
  split
  · exact setReg_ring macmdiodr (by decide) _
  split
  · exact setReg_ring macmdiodr (by decide) _
  split
  · split <;> exact ⟨rfl, rfl⟩
  · exact ⟨rfl, rfl⟩

theorem read_ring (e : Eth) (offset n : Word) (up : Bool) : SameRing e (e.read offset n up).2 := by
  rw [read]
  split
  · exact ⟨rfl, rfl⟩
  split
  · exact ⟨rfl, rfl⟩
  split
  · exact ⟨rfl, rfl⟩
  dsimp only
  split
  · exact handleMdio_ring e up
  · split <;> exact ⟨rfl, rfl⟩

theorem txLoop_ring (base rlr : Word) (buf : Nat → Nat → Byte) (n : Nat) (e : Eth) (m : μ) :
    SameRing e (txLoop bus base rlr buf n e m).2.1 := by
  induction n generalizing e m with
  | zero => exact ⟨rfl, rfl⟩
  | succ n ih =>
    rw [txLoop]
    dsimp only
    split
    · exact ⟨rfl, rfl⟩
    · split
      · exact ⟨rfl, rfl⟩
      · exact SameRing.trans (raise_ring e dmacsrTi) (ih _ _)

theorem inside_of_zero {e : Eth} (first : e.rxIdx = 0) : e.Inside := by
  rw [Inside, first]
  exact descCount_pos _

def KeepsPlace (s : Eth × μ) : Op μ → Prop
  | .store offset _ value _ _ => dmacrxrlr / 4 = offset.toNat / 4 → s.1.rxIdx < descCount value
  | _ => True

theorem write_inside {e : Eth} (inside : e.Inside) {offset n value : Word} (up : Bool)
    (random : BitVec 64)
    (keeps : dmacrxrlr / 4 = offset.toNat / 4 → e.rxIdx < descCount value) :
    (e.write offset n value up random).2.Inside := by
  rw [write]
  by_cases sized : n ≠ 4
  · rwa [if_pos sized]
  rw [if_neg sized]
  by_cases past : size ≤ offset
  · rwa [if_pos past]
  rw [if_neg past]
  by_cases stopped : (!e.clockEnabled) = true
  · rwa [if_pos stopped]
  rw [if_neg stopped]
  by_cases mode : offset.toNat = dmamr
  · rw [if_pos mode]
    dsimp only
    split
    · exact inside_of_zero rfl
    · exact (setReg_ring dmamr (by decide) value).inside inside
  rw [if_neg mode]
  by_cases status : offset.toNat = dmacsr
  · rw [if_pos status]
    exact ((setReg_ring dmacsr (by decide) _).trans (updateIrq_ring _)).inside inside
  rw [if_neg status]
  by_cases mdio : offset.toNat = macmdioar
  · rw [if_pos mdio]
    exact ((setReg_ring macmdioar (by decide) _).trans (handleMdio_ring _ up)).inside inside
  rw [if_neg mdio]
  have stored : (e.setReg offset.toNat value).Inside := by
    by_cases length : dmacrxrlr / 4 = offset.toNat / 4
    · have here : (e.setReg offset.toNat value).reg dmacrxrlr = value := by
        rw [reg, length]
        exact Function.update_self (offset.toNat / 4) value e.regs
      rw [Inside, here]
      exact keeps length
    · exact (setReg_ring _ length value).inside inside
  dsimp only
  split
  · exact stored
  · split <;> exact stored

theorem rxPoll_inside {e : Eth} (inside : e.Inside) (frame : List Byte) (m : μ) :
    (e.rxPoll bus frame m).1.Inside := by
  rw [rxPoll]
  split
  · exact inside
  split
  · exact inside
  split
  · exact inside
  split
  · exact (raise_ring e dmacsrRbu).inside inside
  dsimp only
  split
  · exact inside
  · have length : (e.raise dmacsrRi).reg dmacrxrlr = e.reg dmacrxrlr := (raise_ring e dmacsrRi).2
    change _ < descCount ((e.raise dmacsrRi).reg dmacrxrlr)
    rw [length]
    exact Nat.mod_lt _ (descCount_pos _)

theorem step_inside {s : Eth × μ} (inside : s.1.Inside) {op : Op μ} (keeps : KeepsPlace s op) :
    (step bus s op).1.Inside := by
  cases op with
  | load offset n up => exact (read_ring s.1 offset n up).inside inside
  | store offset n value up random => exact write_inside inside up random keeps
  | reset => exact inside_of_zero rfl
  | clocks => exact inside
  | guest => exact inside
  | transmit buf =>
    rw [step, txPoll]
    split
    · exact (txLoop_ring _ _ buf _ s.1 s.2).inside inside
    · exact inside
  | receive frame => exact rxPoll_inside inside frame s.2

theorem inside_throughout {s : Eth × μ} {ops : List (Op μ)} (inside : s.1.Inside)
    (keeps : Along (step bus) KeepsPlace s ops) :
    Throughout (step bus) (fun s => s.1.Inside) s ops :=
  throughout_of_along (fun _ _ now keeps => step_inside now keeps) inside keeps

end Ram

instance : DecidablePred flatRam.ram := fun _ => isTrue trivial

instance : DecidablePred flatRam.Valid := fun _ => isTrue trivial

def blank : Eth where
  regs _ := 0
  phyRegs _ := 0
  mac _ := 0
  txIdx := 0
  rxIdx := 0
  ahb1enr := none
  irq := false

/-- A driver that lets frames be received with two descriptors at the address 0x20, each with a buffer
of as many bytes as `rxcr` says. -/
def bringUp (rxcr : Word) : List (Op (ByteMem 32)) :=
  [.store 0x0000 4 maccrRe true 0, .store 0x1108 4 rxcr true 0, .store 0x111C 4 0x20 true 0,
    .store 0x1130 4 1 true 0,
    .guest ((⟨0x102, 0, 0, desOwn⟩ : EthDesc).put
      ((⟨0x202, 0, 0, desOwn⟩ : EthDesc).put (fun _ => 0) 0x30) 0x20)]

theorem receives_right_twice :
    Along (step flatBus) (Right flatRam) (blank, fun _ => 0)
      (bringUp 0x81 ++ [.receive ⟨[1, 2, 3, 4, 5], by decide⟩, .receive ⟨[6], by decide⟩]) :=
  receives_right_along flatRam (by decide +kernel)

/-- A frame of five bytes goes to a buffer of four, and the second frame to a descriptor that is no
longer in the ring. -/
theorem receives_wrong :
    ¬ Along (step flatBus) (Right flatRam) (blank, fun _ => 0)
        (bringUp 0x09 ++ [.receive ⟨[1, 2, 3, 4, 5], by decide⟩]) ∧
      ¬ Along (step flatBus) (Right flatRam) (blank, fun _ => 0)
        (bringUp 0x81 ++
          [.receive ⟨[1], by decide⟩, .store 0x1130 4 0 true 0, .receive ⟨[2], by decide⟩]) := by
  constructor
  · intro right
    obtain ⟨last, -⟩ := (along_append.mp right).2
    have whole := ((last trivial).delivered (by decide +kernel) ⟨0x102, 0, 0, desOwn⟩
      (by decide +kernel) (by decide +kernel)).whole
    exact absurd (whole (by decide +kernel) (by decide +kernel)) (by decide +kernel)
  · intro right
    obtain ⟨-, -, last, -⟩ := (along_append.mp right).2
    exact absurd ((last trivial).inside (by decide +kernel)) (by decide +kernel)

end Eth

end M33mu
