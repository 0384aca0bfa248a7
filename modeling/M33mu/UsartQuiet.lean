import M33mu.Lib.Bits
import M33mu.Stm32Usart

namespace M33mu

open Lib

namespace UartIo

theorem tail_flushLoop (io : UartIo) (rs : List WriteResult) :
    (io.flushLoop rs).2.2.txTail = io.txTail ∨
      (io.flushLoop rs).2.2.txHead = 0 ∧ (io.flushLoop rs).2.2.txTail = 0 := by
  induction rs generalizing io with
  | nil => exact .inl rfl
  | cons r rs ih =>
    rw [flushLoop.eq_def]
    dsimp only
    split
    · exact .inl rfl
    · cases r with
      | wrote k => exact ih { io with txHead := (io.txHead + min (k + 1) io.firstChunk) % txSize }
      | again => exact .inl rfl
      | failed => exact .inr ⟨rfl, rfl⟩

theorem tail_flush (io : UartIo) (rs : List WriteResult) :
    (io.flush rs).2.2.txTail = io.txTail ∨
      (io.flush rs).2.2.txHead = 0 ∧ (io.flush rs).2.2.txTail = 0 := by
  rw [flush]
  split
  · exact .inl rfl
  · exact io.tail_flushLoop rs

def Drops (io : UartIo) (rs : List WriteResult) (byte : Byte) : Prop :=
  io.connected = true ∧ io.txHead = 0 ∧ io.txTail = 0 ∧ io.txBuf 0 = byte ∧
    rs.head? = some .failed

theorem queueTx_of_empty {io : UartIo} (head : io.txHead = 0) (tail : io.txTail = 0) (byte : Byte) :
    io.queueTx byte = { io with txBuf := Function.update io.txBuf 0 byte, txTail := 1 } := by
  obtain ⟨connected, stdoutOnly, txBuf, txHead, txTail, rxPending, rxByte⟩ := io
  obtain rfl : txHead = 0 := head
  obtain rfl : txTail = 0 := tail
  rfl

theorem flush_of_drops {io : UartIo} {rs : List WriteResult} {byte : Byte}
    (drops : io.Drops rs byte) : (io.queueTx byte).flush rs = (false, [], io) := by
  obtain ⟨connected, head, tail, there, first⟩ := drops
  obtain ⟨rs, rfl⟩ : ∃ later, rs = .failed :: later := by
    cases rs with
    | nil => cases first
    | cons r rs => exact ⟨rs, congrArg (· :: rs) (Option.some.inj first)⟩
  obtain ⟨open', stdoutOnly, txBuf, txHead, txTail, rxPending, rxByte⟩ := io
  obtain rfl : open' = true := connected
  obtain rfl : txHead = 0 := head
  obtain rfl : txTail = 0 := tail
  obtain rfl : txBuf 0 = byte := there
  rw [queueTx_of_empty rfl rfl, Function.update_eq_self]
  rfl

theorem flush_queueTx_iff (io : UartIo) (rs : List WriteResult) (byte : Byte) :
    ((io.queueTx byte).flush rs).2.1 = [] ∧ ((io.queueTx byte).flush rs).2.2 = io ↔
      io.Drops rs byte := by
  constructor
  · rintro ⟨none', same⟩
    have tail := (io.queueTx byte).tail_flush rs
    rw [same] at tail
    have moved : io.txTail ≠ (io.queueTx byte).txTail := by
      change io.txTail ≠ (io.txTail + 1) % 1024
      omega
    obtain ⟨head, tail⟩ := tail.resolve_left moved
    rw [queueTx_of_empty head tail] at none' same
    obtain ⟨open', stdoutOnly, txBuf, txHead, txTail, rxPending, rxByte⟩ := io
    obtain rfl : txHead = 0 := head
    obtain rfl : txTail = 0 := tail
    have waits : (1 : Nat) ≠ 0 := by decide
    cases open' with
    | false => exact absurd (congrArg UartIo.txTail same) waits
    | true =>
      cases rs with
      | nil => exact absurd (congrArg UartIo.txTail same) waits
      | cons r rs =>
        cases r with
        | wrote k =>
          have sent : (List.range (min (k + 1) 1)).map _ ++ _ = [] := none'
          have short := congrArg List.length (List.append_eq_nil_iff.mp sent).1
          rw [List.length_map, List.length_range] at short
          exact absurd short (Nat.ne_of_gt (Nat.lt_min.mpr ⟨Nat.succ_pos k, Nat.one_pos⟩))
        | again => exact absurd (congrArg UartIo.txTail same) waits
        | failed =>
          refine ⟨rfl, rfl, rfl, ?_, rfl⟩
          have buf : Function.update txBuf 0 byte 0 = txBuf 0 :=
            congrFun (congrArg UartIo.txBuf same) 0
          exact buf.symm.trans (Function.update_self ..)
  · intro drops
    rw [flush_of_drops drops]
    exact ⟨rfl, rfl⟩

end UartIo

namespace Usart

def ueOn (u : Usart) (e : UsartEnv) : Bool :=
  u.regs.word 0x00 &&& cr1Ue ≠ 0 && clockOn u.index e.rcc

def ReadsNothing (u : Usart) (e : UsartEnv) (offset n : Word) : Prop :=
  n ≠ 0 → n ≤ 4 → offset < size → u.enabled = u.ueOn e ∧
    if offset = rdr then
      (u.io.stdoutOnly = true ∨ u.io.rxPending = false) ∧ u.isr.getLsbD 5 = false
    else offset ≠ isrOffset ∧ u.regs.slice offset.toNat n.toNat = 0

def WritesNothing (u : Usart) (e : UsartEnv) (offset n value : Word) : Prop :=
  n ≠ 0 → n ≤ 4 → offset < size →
    if offset = tdr then
      u.enabled = u.ueOn e ∧ (u.enabled = true →
        u.io.Drops e.writes (value.setWidth 8) ∧ u.isr.getLsbD 7 = false)
    else
      ∀ b, 8 * offset.toNat ≤ b → b < 8 * (offset.toNat + n.toNat) →
        value.getLsbD (b - 8 * offset.toNat) = u.regs.bit b

variable {u : Usart} {e : UsartEnv} {offset n value : Word}

theorem enabled_ensureEnabled (u : Usart) (e : UsartEnv) :
    (u.ensureEnabled e).enabled = u.ueOn e := by
  simp only [ensureEnabled, ← ueOn.eq_1]
  split
  · split <;> rfl
  · split <;> rfl

theorem ensureEnabled_of_same (same : u.enabled = u.ueOn e) : u.ensureEnabled e = u := by
  have on : (u.regs.word 0x00 &&& cr1Ue ≠ 0 && clockOn u.index e.rcc) = u.enabled := same.symm
  simp only [ensureEnabled, on, Bool.and_not_self, Bool.not_and_self, Bool.false_eq_true, if_false]

theorem setIsr_eq_self_iff {io : UartIo} {v : Word} :
    setIsr { u with io := io } v = u ↔ io = u.io ∧ v = u.isr := by
  constructor
  · intro same
    have regs := congrArg isr same
    rw [isr, setIsr, RegFile.word_setWord] at regs
    exact ⟨congrArg Usart.io same, regs⟩
  · rintro ⟨rfl, rfl⟩
    rw [setIsr, isr, RegFile.setWord_self]

theorem receive_nothing_iff (u : Usart) :
    u.receive.1 = 0 ∧ u.receive.2 = u ↔
      (u.io.stdoutOnly = true ∨ u.io.rxPending = false) ∧ u.isr.getLsbD 5 = false := by
  have cleared : u.isr &&& ~~~isrRxne = u.isr ↔ u.isr.getLsbD 5 = false :=
    and_not_twoPow_eq_self_iff (by decide)
  rw [receive]
  dsimp only
  rw [setIsr_eq_self_iff, cleared, ← and_assoc]
  refine and_congr_left' ?_
  by_cases waits : u.io.rxPending = true
  · rw [if_pos waits, UartIo.read]
    by_cases stdout : u.io.stdoutOnly = true
    · rw [if_pos (.inl stdout)]
      exact iff_of_true ⟨rfl, rfl⟩ (.inl stdout)
    · have out : ¬ (u.io.stdoutOnly = true ∨ u.io.rxPending = false) := by simp [stdout, waits]
      rw [if_neg out]
      refine iff_of_false (fun is => ?_) out
      have taken := congrArg UartIo.rxPending is.2
      exact Bool.false_ne_true (taken.trans waits)
  · rw [if_neg waits]
    exact iff_of_true ⟨rfl, rfl⟩ (.inr (Bool.eq_false_iff.mpr waits))

theorem read_nothing_iff (heard : ¬ (u.secureOnly e = true ∧ e.sec = .nonsecure)) :
    (∀ v ∈ (u.read e offset n).1, v = 0) ∧ (u.read e offset n).2 = u ↔
      u.ReadsNothing e offset n := by
  rw [read, if_neg heard]
  by_cases few : n = 0 ∨ 4 < n
  · rw [if_pos few]
    refine iff_of_true ⟨nofun, rfl⟩ fun some' small => ?_
    exact absurd few (not_or.mpr ⟨some', BitVec.not_lt.mpr small⟩)
  rw [if_neg few]
  by_cases low : size ≤ offset
  · rw [if_pos low]
    exact iff_of_true ⟨nofun, rfl⟩ fun _ _ inside => absurd low (BitVec.not_le.mpr inside)
  rw [if_neg low, ReadsNothing, forall_prop_of_true (not_or.mp few).1,
    forall_prop_of_true (BitVec.not_lt.mp (not_or.mp few).2),
    forall_prop_of_true (BitVec.not_le.mp low)]
  by_cases same : u.enabled = u.ueOn e
  · rw [ensureEnabled_of_same same, and_iff_right same]
    dsimp only
    split
    · rw [← receive_nothing_iff]
      simp
    split
    · rename_i status
      subst status
      refine iff_of_false (fun is => ?_) fun is => is.1 rfl
      have shown : RegFile.slice (u.regs.setWord 0x1C (u.isr ||| isrTxe)) 0x1C n.toNat = 0 :=
        is.1 _ rfl
      have bit := RegFile.bit_slice (u.regs.setWord 0x1C (u.isr ||| isrTxe)) 0x1C n.toNat
        (show 7 < 32 by decide)
      have some' : 0 < n.toNat :=
        Nat.pos_of_ne_zero fun zero => (not_or.mp few).1 (BitVec.eq_of_toNat_eq zero)
      rw [shown, decide_eq_true (show 7 < 8 * n.toNat by omega), Bool.true_and,
        ← RegFile.bit_word _ _ (by decide), RegFile.word_setWord, BitVec.getLsbD_or, show isrTxe.getLsbD 7 = true by decide,
        Bool.or_true] at bit
      exact absurd bit (by decide)
    · rename_i status
      rw [and_iff_right status]
      simp
  · refine iff_of_false (fun is => same ?_) fun is => same is.1
    rw [← enabled_ensureEnabled]
    have kept := congrArg enabled is.2
    dsimp only at kept
    split at kept
    · exact kept.symm
    · split at kept <;> exact kept.symm

theorem transmit_nothing_iff (other : u.index ≠ 2) (writes : List WriteResult) (ch : Byte) :
    (u.transmit writes ch).1 = [] ∧ (u.transmit writes ch).2 = u ↔
      u.io.Drops writes ch ∧ u.isr.getLsbD 7 = false := by
  have cleared : u.isr &&& ~~~isrTxe = u.isr ↔ u.isr.getLsbD 7 = false :=
    and_not_twoPow_eq_self_iff (by decide)
  have unwatched : u.watchMacro ch = u := by rw [watchMacro, if_neg other]
  rw [transmit, unwatched, drain]
  dsimp only
  rw [show ∀ io v, (setIsr { u with io := io } v).io = io from fun _ _ => rfl]
  constructor
  · rintro ⟨none', same⟩
    have io : ((u.io.queueTx ch).flush writes).2.2 = u.io := by
      refine Eq.trans ?_ (congrArg Usart.io same)
      split <;> rfl
    have drops := (UartIo.flush_queueTx_iff u.io writes ch).mp ⟨none', io⟩
    rw [UartIo.flush_of_drops drops] at same
    have lost : setIsr { u with io := u.io } (u.isr &&& ~~~isrTxe) = u := same
    exact ⟨drops, cleared.mp (setIsr_eq_self_iff.mp lost).2⟩
  · rintro ⟨drops, clear⟩
    rw [UartIo.flush_of_drops drops]
    exact ⟨rfl, setIsr_eq_self_iff.mpr ⟨rfl, cleared.mpr clear⟩⟩

theorem enabled_transmit (u : Usart) (writes : List WriteResult) (ch : Byte) :
    (u.transmit writes ch).2.enabled = u.enabled := by
  have watched : (u.watchMacro ch).enabled = u.enabled := by
    rw [watchMacro]
    split <;> rfl
  rw [transmit, ← watched, drain]
  dsimp only
  split <;> rfl

theorem write_nothing_iff (other : u.index ≠ 2)
    (heard : ¬ (u.secureOnly e = true ∧ e.sec = .nonsecure)) :
    (u.write e offset n value).2.1 = [] ∧ (u.write e offset n value).2.2 = u ↔
      u.WritesNothing e offset n value := by
  rw [write, if_neg heard]
  by_cases few : n = 0 ∨ 4 < n
  · rw [if_pos few]
    refine iff_of_true ⟨rfl, rfl⟩ fun some' small => ?_
    exact absurd few (not_or.mpr ⟨some', BitVec.not_lt.mpr small⟩)
  rw [if_neg few]
  by_cases low : size ≤ offset
  · rw [if_pos low]
    exact iff_of_true ⟨rfl, rfl⟩ fun _ _ inside => absurd low (BitVec.not_le.mpr inside)
  rw [if_neg low, WritesNothing, forall_prop_of_true (not_or.mp few).1,
    forall_prop_of_true (BitVec.not_lt.mp (not_or.mp few).2),
    forall_prop_of_true (BitVec.not_le.mp low)]
  by_cases data : offset = tdr
  · rw [if_pos data, if_pos data]
    dsimp only
    by_cases same : u.enabled = u.ueOn e
    · rw [ensureEnabled_of_same same, and_iff_right same]
      by_cases on : u.enabled = true
      · rw [if_neg (by rw [on]; nofun), forall_prop_of_true on]
        exact transmit_nothing_iff other e.writes (value.setWidth 8)
      · rw [if_pos (Bool.eq_false_iff.mpr on)]
        exact iff_of_true ⟨rfl, rfl⟩ fun is => absurd is on
    · refine iff_of_false (fun is => same ?_) fun is => same is.1
      rw [← enabled_ensureEnabled]
      have kept := congrArg enabled is.2
      split at kept
      · exact kept.symm
      · exact kept.symm.trans (enabled_transmit ..)
  · rw [if_neg data, if_neg data, ← RegFile.copy_eq_self_iff]
    refine ⟨fun is => congrArg regs is.2, fun same => ⟨rfl, ?_⟩⟩
    dsimp only
    rw [same]

end Usart

end M33mu
