import M33mu.EthReceive
import M33mu.EthTransmit
import M33mu.FaultRecords

namespace M33mu

open Lib

structure DmaBus.Simulates {μ : Type u} {ν : Type v} (bus : DmaBus μ) (bus' : DmaBus ν)
    (R : μ → ν → Prop) : Prop where
  read : ∀ {m m'}, R m m' → ∀ a, ∃ v m₁ m₁',
    bus.read32 m a = (v, m₁) ∧ bus'.read32 m' a = (v, m₁') ∧ R m₁ m₁'
  write : ∀ {m m'}, R m m' → ∀ a v, ∃ ok m₁ m₁',
    bus.write32 m a v = (ok, m₁) ∧ bus'.write32 m' a v = (ok, m₁') ∧ R m₁ m₁'

section Simulates

variable {μ : Type u} {ν : Type v} {bus : DmaBus μ} {bus' : DmaBus ν} {R : μ → ν → Prop} {m : μ}
  {m' : ν}

namespace DmaBus.Simulates

theorem readDesc (sim : bus.Simulates bus' R) (related : R m m') (a : Word) :
    ∃ desc m₁ m₁', bus.readDesc m a = (desc, m₁) ∧ bus'.readDesc m' a = (desc, m₁') ∧
      R m₁ m₁' := by
  obtain ⟨_ | des0, m₁, m₁', read, read', related⟩ := sim.read related a
  all_goals simp only [DmaBus.readDesc, read, read']
  · exact ⟨none, m₁, m₁', rfl, rfl, related⟩
  obtain ⟨_ | des1, m₂, m₂', read, read', related⟩ := sim.read related (a + 4)
  all_goals simp only [read, read']
  · exact ⟨none, m₂, m₂', rfl, rfl, related⟩
  obtain ⟨_ | des2, m₃, m₃', read, read', related⟩ := sim.read related (a + 8)
  all_goals simp only [read, read']
  · exact ⟨none, m₃, m₃', rfl, rfl, related⟩
  obtain ⟨_ | des3, m₄, m₄', read, read', related⟩ := sim.read related (a + 12)
  all_goals simp only [read, read']
  · exact ⟨none, m₄, m₄', rfl, rfl, related⟩
  · exact ⟨some ⟨des0, des1, des2, des3⟩, m₄, m₄', rfl, rfl, related⟩

theorem writeDesc (sim : bus.Simulates bus' R) (related : R m m') (a : Word) (desc : EthDesc) :
    ∃ ok m₁ m₁', bus.writeDesc m a desc = (ok, m₁) ∧ bus'.writeDesc m' a desc = (ok, m₁') ∧
      R m₁ m₁' := by
  obtain ⟨_ | _, m₁, m₁', write, write', related⟩ := sim.write related a desc.des0
  all_goals simp only [DmaBus.writeDesc, write, write']
  · exact ⟨false, m₁, m₁', rfl, rfl, related⟩
  obtain ⟨_ | _, m₂, m₂', write, write', related⟩ := sim.write related (a + 4) desc.des1
  all_goals simp only [write, write']
  · exact ⟨false, m₂, m₂', rfl, rfl, related⟩
  obtain ⟨_ | _, m₃, m₃', write, write', related⟩ := sim.write related (a + 8) desc.des2
  all_goals simp only [write, write']
  · exact ⟨false, m₃, m₃', rfl, rfl, related⟩
  · exact sim.write related (a + 12) desc.des3

end DmaBus.Simulates

namespace Eth

theorem gather_simulates (sim : bus.Simulates bus' R) (related : R m m') (des0 : Word) (n j : Nat)
    (des1 : Word) :
    ∃ bytes last m₁ m₁', gather bus des0 n j des1 m = (bytes, last, m₁) ∧
      gather bus' des0 n j des1 m' = (bytes, last, m₁') ∧ R m₁ m₁' := by
  induction n generalizing j des1 m m' with
  | zero => exact ⟨[], des1, m, m', rfl, rfl, related⟩
  | succ n ih =>
    obtain ⟨_ | v, m₁, m₁', read, read', related⟩ :=
      sim.read related (des0 + BitVec.ofNat 32 (4 * (j / 4)))
    all_goals simp only [gather, read, read']
    · exact ⟨[], des1, m₁, m₁', rfl, rfl, related⟩
    obtain ⟨bytes, last, m₂, m₂', rest, rest', related⟩ := ih related (j + 1) v
    simp only [rest, rest']
    exact ⟨_, last, m₂, m₂', rfl, rfl, related⟩

theorem send_simulates (sim : bus.Simulates bus' R) (related : R m m') (rlr : Word)
    (buf : Nat → Byte) (a : Word) (desc : EthDesc) (e : Eth) :
    ∃ frame e₁ m₁ m₁', e.send bus rlr buf a desc m = (frame, e₁, m₁) ∧
      e.send bus' rlr buf a desc m' = (frame, e₁, m₁') ∧ R m₁ m₁' := by
  obtain ⟨bytes, last, m₁, m₁', gathered, gathered', related⟩ :=
    gather_simulates sim related desc.des0 (txLength desc) 0 desc.des1
  simp only [send, gathered, gathered']
  obtain ⟨ok, m₂, m₂', written, written', related⟩ := sim.writeDesc related a
    { desc with des1 := last, des3 := desc.des3 &&& ~~~desOwn }
  rw [written, written']
  exact ⟨_, _, m₂, m₂', rfl, rfl, related⟩

theorem txLoop_simulates (sim : bus.Simulates bus' R) (related : R m m') (base rlr : Word)
    (buf : Nat → Nat → Byte) (n : Nat) (e : Eth) :
    ∃ frames e₁ m₁ m₁', txLoop bus base rlr buf n e m = (frames, e₁, m₁) ∧
      txLoop bus' base rlr buf n e m' = (frames, e₁, m₁') ∧ R m₁ m₁' := by
  induction n generalizing e m m' with
  | zero => exact ⟨[], e, m, m', rfl, rfl, related⟩
  | succ n ih =>
    obtain ⟨_ | desc, m₁, m₁', read, read', related⟩ :=
      sim.readDesc related (base + BitVec.ofNat 32 (16 * e.txIdx))
    all_goals simp only [txLoop, read, read']
    · exact ⟨[], e, m₁, m₁', rfl, rfl, related⟩
    split
    · exact ⟨[], e, m₁, m₁', rfl, rfl, related⟩
    obtain ⟨frame, e₂, m₂, m₂', sent, sent', related⟩ := send_simulates sim related rlr (buf n)
      (base + BitVec.ofNat 32 (16 * e.txIdx)) desc e
    obtain ⟨frames, e₃, m₃, m₃', rest, rest', related⟩ := ih related e₂
    simp only [sent, sent', rest, rest']
    exact ⟨frame :: frames, e₃, m₃, m₃', rfl, rfl, related⟩

theorem txPoll_simulates (sim : bus.Simulates bus' R) (related : R m m') (buf : Nat → Nat → Byte)
    (e : Eth) :
    ∃ frames e₁ m₁ m₁', e.txPoll bus buf m = (frames, e₁, m₁) ∧
      e.txPoll bus' buf m' = (frames, e₁, m₁') ∧ R m₁ m₁' := by
  by_cases enabled : e.txEnabled
  · simp only [txPoll, enabled, if_true]
    exact txLoop_simulates sim related _ _ buf _ e
  · exact ⟨[], e, m, m', if_neg enabled, if_neg enabled, related⟩

theorem store_simulates (sim : bus.Simulates bus' R) (related : R m m') (des0 : Word)
    (data : List Byte) (i : Nat) : R (store bus des0 data i m) (store bus' des0 data i m') := by
  induction data generalizing i m m' with
  | nil => exact related
  | cons b data ih =>
    obtain ⟨word, m₁, m₁', read, read', related⟩ :=
      sim.read related (des0 + BitVec.ofNat 32 (4 * (i / 4)))
    simp only [store, read, read']
    obtain ⟨ok, m₂, m₂', written, written', related⟩ := sim.write related
      (des0 + BitVec.ofNat 32 (4 * (i / 4)))
      (word.getD 0 &&& ~~~(0xFF#32 <<< (8 * (i % 4))) ||| b.setWidth 32 <<< (8 * (i % 4)))
    rw [written, written']
    exact ih related (i + 1)

theorem rxPoll_simulates (sim : bus.Simulates bus' R) (related : R m m') (frame : List Byte)
    (e : Eth) :
    ∃ e₁ m₁ m₁', e.rxPoll bus frame m = (e₁, m₁) ∧ e.rxPoll bus' frame m' = (e₁, m₁') ∧
      R m₁ m₁' := by
  by_cases idle : e.rxEnabled ∧ frame ≠ []
  case neg => exact ⟨e, m, m', rxPoll_idle idle m, rxPoll_idle idle m', related⟩
  have busy : (!e.rxEnabled) = false := by rw [idle.1]; rfl
  obtain ⟨_ | desc, m₁, m₁', read, read', related⟩ := sim.readDesc related e.rxSlot
  all_goals simp only [rxPoll, busy, Bool.false_eq_true, if_false, idle.2, read, read']
  · exact ⟨e, m₁, m₁', rfl, rfl, related⟩
  split
  · exact ⟨_, m₁, m₁', rfl, rfl, related⟩
  split
  · exact ⟨e, m₁, m₁', rfl, rfl, related⟩
  have stored := store_simulates sim related desc.des0 (frame.take (e.rxBufLen desc)) 0
  obtain ⟨ok, m₂, m₂', written, written', related⟩ := sim.writeDesc stored e.rxSlot
    { desc with des3 := desc.des3 &&& desBuf1v ||| desFd ||| desLd |||
      (BitVec.ofNat 32 (frame.take (e.rxBufLen desc)).length &&& lengthMask) }
  rw [written, written']
  exact ⟨_, m₂, m₂', rfl, rfl, related⟩

theorem poll_simulates (sim : bus.Simulates bus' R) (related : R m m') (buf : Nat → Nat → Byte)
    (frame : List Byte) (e : Eth) :
    ∃ frames e₁ m₁ m₁', e.poll bus buf frame m = (frames, e₁, m₁) ∧
      e.poll bus' buf frame m' = (frames, e₁, m₁') ∧ R m₁ m₁' := by
  by_cases off : (!e.clockEnabled) = true
  · exact ⟨[], e, m, m', if_pos off, if_pos off, related⟩
  obtain ⟨frames, e₁, m₁, m₁', sent, sent', related⟩ := txPoll_simulates sim related buf e
  obtain ⟨e₂, m₂, m₂', received, received', related⟩ := rxPoll_simulates sim related frame e₁
  simp only [poll, off, sent, sent', received, received']
  exact ⟨frames, e₂, m₂, m₂', rfl, rfl, related⟩

end Eth

end Simulates

namespace World

variable {δ : Type u} (env : Env δ)

def DmaReads (w : World δ) (a : Word) : Prop :=
  w.Granted env .read .nonsecure a 4 ∧ ((w.read env .nonsecure a 4).1 = none →
    (w.read env .nonsecure a 4).2.Granted env .read .secure a 4)

def DmaWritesAs (w : World δ) (sec : SecState) (a v : Word) : Prop :=
  w.Granted env .write sec a 4 ∧ ((w.write env sec a 4 v).1 = true →
    w.map.flashOffsets a 4 = [] ∧ (w.map.writeRam a 4 v).isSome = true)

def DmaWrites (w : World δ) (a v : Word) : Prop :=
  w.DmaWritesAs env .nonsecure a v ∧ ((w.write env .nonsecure a 4 v).1 = false →
    (w.write env .nonsecure a 4 v).2.DmaWritesAs env .secure a v)

instance (w : World δ) (a : Word) : Decidable (w.DmaReads env a) :=
  inferInstanceAs (Decidable (_ ∧ (_ → _)))

instance (w : World δ) (sec : SecState) (a v : Word) : Decidable (w.DmaWritesAs env sec a v) :=
  inferInstanceAs (Decidable (_ ∧ (_ → _)))

instance (w : World δ) (a v : Word) : Decidable (w.DmaWrites env a v) :=
  inferInstanceAs (Decidable (_ ∧ (_ → _)))

def notedDma : DmaBus (World δ × Bool) where
  read32 s a :=
    (((ethDma env).read32 s.1 a).1, ((ethDma env).read32 s.1 a).2, s.2 && decide (s.1.DmaReads env a))
  write32 s a v :=
    (((ethDma env).write32 s.1 a v).1, ((ethDma env).write32 s.1 a v).2,
      s.2 && decide (s.1.DmaWrites env a v))

def ProbesGranted (w : World δ) (e : Eth) (buf : Nat → Nat → Byte) (frame : List Byte) : Prop :=
  (e.poll (notedDma env) buf frame (w, true)).2.2.2 = true

instance (w : World δ) (e : Eth) (buf : Nat → Nat → Byte) (frame : List Byte) :
    Decidable (w.ProbesGranted env e buf frame) := inferInstanceAs (Decidable (_ = _))

variable {env}

theorem ethDma_read_status (keeps : env.KeepsStatus) {w : World δ} {a : Word}
    (granted : w.DmaReads env a) : ((ethDma env).read32 w a).2.status = w.status := by
  obtain ⟨first, second⟩ := granted
  have same := read_status keeps first
  simp only [ethDma]
  rcases read : w.read env .nonsecure a 4 with ⟨_ | v, w₁⟩
  · rw [read] at same second
    exact (read_status keeps (second rfl)).trans same
  · rw [read] at same
    exact same

theorem writesAs_status (keeps : env.KeepsStatus) {w : World δ} {sec : SecState} {a v : Word}
    (granted : w.DmaWritesAs env sec a v) : (w.write env sec a 4 v).2.status = w.status := by
  obtain ⟨granted, ram⟩ := granted
  rcases write : w.write env sec a 4 v with ⟨_ | _, w₁⟩
  · exact write_status keeps granted write
  · rw [write] at ram
    have same := (write_ram_status granted (ram rfl).1 (ram rfl).2).2
    rwa [write] at same

theorem ethDma_write_status (keeps : env.KeepsStatus) {w : World δ} {a v : Word}
    (granted : w.DmaWrites env a v) : ((ethDma env).write32 w a v).2.status = w.status := by
  obtain ⟨first, second⟩ := granted
  have same := writesAs_status keeps first
  simp only [ethDma]
  rcases write : w.write env .nonsecure a 4 v with ⟨_ | _, w₁⟩
  · rw [write] at same second
    exact (writesAs_status keeps (second rfl)).trans same
  · rw [write] at same
    exact same

theorem notedDma_simulates (keeps : env.KeepsStatus) (before : FaultStatus) :
    (notedDma env).Simulates (ethDma env)
      fun s w => s.1 = w ∧ (s.2 = true → w.status = before) where
  read {s w} related a := by
    obtain ⟨rfl, same⟩ := related
    refine ⟨_, _, _, rfl, rfl, rfl, fun granted => ?_⟩
    obtain ⟨sofar, reads⟩ := Bool.and_eq_true_iff.mp granted
    exact (ethDma_read_status keeps (of_decide_eq_true reads)).trans (same sofar)
  write {s w} related a v := by
    obtain ⟨rfl, same⟩ := related
    refine ⟨_, _, _, rfl, rfl, rfl, fun granted => ?_⟩
    obtain ⟨sofar, writes⟩ := Bool.and_eq_true_iff.mp granted
    exact (ethDma_write_status keeps (of_decide_eq_true writes)).trans (same sofar)

theorem poll_status (keeps : env.KeepsStatus) {w : World δ} {e : Eth} {buf : Nat → Nat → Byte}
    {frame : List Byte} (granted : w.ProbesGranted env e buf frame) :
    (e.poll (ethDma env) buf frame w).2.2.status = w.status := by
  have start : w = w ∧ (true = true → w.status = w.status) := ⟨rfl, fun _ => rfl⟩
  obtain ⟨frames, e₁, s, w', noted, polled, rfl, same⟩ := Eth.poll_simulates
    (notedDma_simulates keeps w.status) (m := (w, true)) start buf frame e
  rw [ProbesGranted, noted] at granted
  rw [polled]
  exact same granted

end World

/-- A target whose only poll is that of the Ethernet controller, which `get` and `set` find among its
devices. -/
def Host.ofEth {δ : Type u} (env : Env δ) (get : δ → Eth) (set : Eth → δ → δ)
    (tick : World δ → World δ) (buf : Nat → Nat → Byte) (frame : List Byte) : Host δ where
  tick
  poll w :=
    let (_, e, w) := (get w.dev).poll (World.ethDma env) buf frame w
    { w with dev := set e w.dev }

theorem Host.pollKeeps_ofEth {δ : Type u} {env : Env δ} (keeps : env.KeepsStatus) {get : δ → Eth}
    {set : Eth → δ → δ} {tick : World δ → World δ} {buf : Nat → Nat → Byte} {frame : List Byte}
    {w : World δ} (granted : w.ProbesGranted env (get w.dev) buf frame) :
    (Host.ofEth env get set tick buf frame).PollKeeps w :=
  World.poll_status keeps granted

namespace Eth

structure InWindow (base size : Word) (b : ByteMem 32) (slots : List Word) : Prop where
  slot : ∀ s ∈ slots, ByteMem.dist base s + 16 ≤ size.toNat
  buffer : ∀ s ∈ slots, (EthDesc.get b s).Owned → ByteMem.dist base (EthDesc.get b s).des0 +
    ((EthDesc.get b s).des2 &&& lengthMask).toNat + 3 ≤ size.toNat

/-- So do the descriptor that the next frame goes to and its buffer, which has room for the frame
and lies apart from the descriptors that are not owned. -/
structure RxInWindow (base size : Word) (b : ByteMem 32) (e : Eth) (frame : List Byte) : Prop where
  place : e.rxIdx < descCount (e.reg dmacrxrlr)
  slot : ByteMem.dist base e.rxSlot + 16 ≤ size.toNat
  room : (EthDesc.get b e.rxSlot).Owned → e.rxBufLen (.get b e.rxSlot) ≠ 0 →
    frame.length ≤ e.rxBufLen (.get b e.rxSlot)
  buffer : (EthDesc.get b e.rxSlot).Owned →
    ByteMem.dist base (EthDesc.get b e.rxSlot).des0 + frame.length + 3 ≤ size.toNat
  apart : (EthDesc.get b e.rxSlot).Owned → ∀ i < frame.length,
    16 ≤ ByteMem.dist e.rxSlot ((EthDesc.get b e.rxSlot).des0 + BitVec.ofNat 32 i)
  free : (EthDesc.get b e.rxSlot).Owned → ∀ k < descCount (e.reg dmacrxrlr),
    ¬ (EthDesc.get b (e.rxDesc k)).Owned → ∀ i < frame.length,
      16 ≤ ByteMem.dist (e.rxDesc k) ((EthDesc.get b e.rxSlot).des0 + BitVec.ofNat 32 i)

section Window

variable {δ : Type u} {env : Env δ} (quiet : World.QuietReads env) {w : World δ}
  {base off size : Word}

theorem slot_ethRam {s : Word} (inside : ByteMem.dist base s + 16 ≤ size.toNat) :
    (World.ethRam quiet base off size).Slot s := by
  have room := size.isLt
  have word (k : Nat) (low : k ≤ 12) :
      ByteMem.dist base (s + BitVec.ofNat 32 k) + 4 ≤ size.toNat := by
    rw [ByteMem.dist_add_right (by omega)]
    omega
  have first := word 0 (by decide)
  rw [BitVec.add_zero] at first
  exact ⟨first, word 4 (by decide), word 8 (by decide), word 12 (by decide)⟩

theorem buffer_ethRam {des0 : Word} {n : Nat} (inside : ByteMem.dist base des0 + n + 3 ≤ size.toNat) :
    (World.ethRam quiet base off size).Buffer des0 n := by
  intro j low
  have room := size.isLt
  have here : ByteMem.dist base (des0 + BitVec.ofNat 32 (4 * (j / 4))) + 4 ≤ size.toNat := by
    rw [ByteMem.dist_add_right (by omega)]
    omega
  exact here

theorem covered_ethRam {b : ByteMem 32} {slots : List Word} (inside : InWindow base size b slots) :
    Covered (World.ethRam quiet base off size) b slots := by
  induction slots with
  | nil => trivial
  | cons s slots ih =>
    refine ⟨slot_ethRam quiet (inside.slot s (.head slots)), fun owned =>
      ⟨buffer_ethRam quiet (inside.buffer s (.head slots) owned), ih ?_⟩⟩
    exact ⟨fun t mem => inside.slot t (.tail s mem), fun t mem => inside.buffer t (.tail s mem)⟩

theorem transmits_from_ram_iff (opened : w.OpenTo env .nonsecure base off size)
    (buf : Nat → Nat → Byte) {e : Eth}
    (inside : e.txEnabled → InWindow base size (World.windowByte base off size w) e.txRing) :
    TransmitsRight (World.ethRam quiet base off size) buf e w ↔
      (e.txEnabled → e.StartsInRing (World.windowByte base off size w) ∧
        AllWhole (World.windowByte base off size w) e.txRing) :=
  transmitsRight_iff buf opened fun enabled => covered_ethRam quiet (inside enabled)

theorem receivable_ethRam (opened : w.OpenTo env .nonsecure base off size) {frame : List Byte}
    {e : Eth} (inside : e.rxEnabled → frame ≠ [] →
      RxInWindow base size (World.windowByte base off size w) e frame) :
    Receivable (World.ethRam quiet base off size) frame e w := by
  intro enabled some
  have inside := inside enabled some
  have slot : (World.ethRam quiet base off size).Slot _ := slot_ethRam quiet inside.slot
  refine ⟨inside.place, fun desc found owned free => ?_⟩
  obtain ⟨w', read, -, -⟩ := DmaRam.readDesc (R := World.ethRam quiet base off size) opened slot
  rw [read] at found
  obtain rfl := Option.some.inj found
  exact ⟨inside.room owned free, slot, buffer_ethRam quiet (inside.buffer owned),
    inside.apart owned, inside.free owned⟩

variable (env base off size) in
def FitsWindow (s : Eth × World δ) : Op (World δ) → Prop
  | .receive frame => s.2.OpenTo env .nonsecure base off size → s.1.rxEnabled → frame.1 ≠ [] →
    RxInWindow base size (World.windowByte base off size s.2) s.1 frame
  | _ => True

theorem receives_to_ram {s : Eth × World δ} {ops : List (Op (World δ))}
    (inside : Along (step (World.ethDma env)) (FitsWindow env base off size) s ops) :
    Along (step (World.ethDma env)) (Right (World.ethRam quiet base off size)) s ops := by
  refine inside.imp fun s op here => right_of_fits ?_
  cases op with
  | receive frame => exact fun opened => receivable_ethRam quiet opened (here opened)
  | _ => trivial

end Window

end Eth

end M33mu
