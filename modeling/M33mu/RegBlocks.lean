import M33mu.Lib.Outer
import M33mu.SpiTransfer
import M33mu.Stm32Usart

namespace M33mu

open Lib

def Usart.outer (u : Usart) (o : RegFile) : Usart :=
  { u with regs := u.regs.followedBy Usart.size.toNat o }

def SpiInst.outer (s : SpiInst) (limit : Nat) (o : RegFile) : SpiInst :=
  { s with regs := s.regs.followedBy limit o }

def Gpio.outer (g : Gpio) (o : RegFile) : Gpio :=
  { g with regs := g.regs.followedBy Gpio.size.toNat o }

structure Starts (size offset n : Word) : Prop where
  few : ¬ (n = 0 ∨ 4 < n)
  low : ¬ size ≤ offset

theorem Starts.few_toNat {size offset n : Word} (starts : Starts size offset n) : n.toNat ≤ 4 :=
  Nat.not_lt.mp fun more => starts.few (.inr (BitVec.lt_def.mpr more))

theorem Starts.low_toNat {size offset n : Word} (starts : Starts size offset n) :
    offset.toNat < size.toNat := BitVec.lt_def.mp (BitVec.not_le.mp starts.low)

theorem Starts.ne_of_over {size offset n : Word} (starts : Starts size offset n)
    (beyond : size.toNat < offset.toNat + n.toNat) {k : Word} (inner : k.toNat + 4 ≤ size.toNat) :
    offset ≠ k := by
  rintro rfl
  have few := starts.few_toNat
  omega

namespace Usart

variable {u : Usart} {o : RegFile} {e : UsartEnv} {offset n : Word}

def Heeds (u : Usart) (e : UsartEnv) (offset n : Word) : Prop :=
  ¬ (u.secureOnly e = true ∧ e.sec = .nonsecure) ∧ Starts size offset n

theorem outer_setIsr (u : Usart) (o : RegFile) (v : Word) :
    (u.outer o).setIsr v = (u.setIsr v).outer o := by
  rw [setIsr, outer, RegFile.setWord_followedBy (by decide)]
  rfl

theorem outer_isr (u : Usart) (o : RegFile) : (u.outer o).isr = u.isr :=
  RegFile.word_followedBy (by decide)

theorem outer_ensureEnabled (u : Usart) (o : RegFile) (e : UsartEnv) :
    (u.outer o).ensureEnabled e = (u.ensureEnabled e).outer o := by
  have cr1 : (u.outer o).regs.word 0x00 = u.regs.word 0x00 := RegFile.word_followedBy (by decide)
  rw [ensureEnabled, ensureEnabled, cr1]
  let on := u.regs.word 0x00 &&& cr1Ue ≠ 0 && clockOn u.index e.rcc
  let u₁ : Usart := { u with enabled := on }
  let u₂ : Usart := { u₁ with io := (u.io.openIo e.stdout e.terminal).2 }
  change (if on && !u.enabled then
      if (u.io.openIo e.stdout e.terminal).1 then
        (u₂.outer o).setIsr ((u₂.outer o).isr ||| isrTxe) else u₂.outer o
    else if !on && u.enabled then { u₁ with io := u.io.closeIo }.outer o else u₁.outer o) =
    (if on && !u.enabled then
      if (u.io.openIo e.stdout e.terminal).1 then u₂.setIsr (u₂.isr ||| isrTxe) else u₂
    else if !on && u.enabled then { u₁ with io := u.io.closeIo } else u₁ : Usart).outer o
  rw [outer_isr, outer_setIsr]
  split
  · split <;> rfl
  · split <;> rfl

theorem outer_watchMacro (u : Usart) (o : RegFile) (ch : Byte) :
    (u.outer o).watchMacro ch = (u.watchMacro ch).outer o := by
  by_cases third : u.index = 2
  · rw [watchMacro, watchMacro, if_pos third]
    exact if_pos third
  · rw [watchMacro, watchMacro, if_neg third]
    exact if_neg third

theorem outer_receive (u : Usart) (o : RegFile) :
    (u.outer o).receive = (u.receive.1, u.receive.2.outer o) := by
  let io := (if u.io.rxPending then u.io.read else (0, u.io)).2
  exact congrArg (Prod.mk _) ((congrArg (fun v => setIsr (outer { u with io := io } o)
    (v &&& ~~~isrRxne)) (outer_isr u o)).trans (outer_setIsr { u with io := io } o _))

theorem outer_drain (u : Usart) (o : RegFile) (writes : List WriteResult) :
    (u.outer o).drain writes = ((u.drain writes).1, (u.drain writes).2.outer o) := by
  let last : Usart := { u with io := (u.io.flush writes).2.2 }
  have raised : (last.outer o).setIsr ((last.outer o).isr ||| isrTxe) =
      (last.setIsr (last.isr ||| isrTxe)).outer o := by
    rw [outer_isr, outer_setIsr]
  change (_, if (u.io.flush writes).1 && last.io.txEmpty then
      (last.outer o).setIsr ((last.outer o).isr ||| isrTxe) else last.outer o) =
    (_, (if (u.io.flush writes).1 && last.io.txEmpty then last.setIsr (last.isr ||| isrTxe)
      else last).outer o)
  rw [raised]
  split <;> rfl

theorem outer_transmit (u : Usart) (o : RegFile) (writes : List WriteResult) (ch : Byte) :
    (u.outer o).transmit writes ch =
      ((u.transmit writes ch).1, (u.transmit writes ch).2.outer o) := by
  rw [transmit, transmit, outer_watchMacro]
  generalize u.watchMacro ch = u
  let queued : Usart := { u with io := u.io.queueTx ch }
  have sent : setIsr (queued.outer o) ((u.outer o).isr &&& ~~~isrTxe) =
      (queued.setIsr (u.isr &&& ~~~isrTxe)).outer o := by
    rw [outer_isr, outer_setIsr]
  exact (congrArg (drain · writes) sent).trans (outer_drain _ o writes)

theorem outer_read (u : Usart) (o : RegFile) {e : UsartEnv} {offset n : Word}
    (fits : u.Heeds e offset n → offset.toNat + n.toNat ≤ size.toNat) :
    (u.outer o).read e offset n = ((u.read e offset n).1, (u.read e offset n).2.outer o) := by
  have only : (u.outer o).secureOnly e = u.secureOnly e := rfl
  rw [read, read, only, outer_ensureEnabled]
  generalize u.ensureEnabled e = t
  split
  · rfl
  split
  · rfl
  split
  · rfl
  rename_i heard few low
  have inside := fits ⟨heard, few, low⟩
  dsimp only
  split
  · rw [outer_receive]
  · have slice (t : Usart) : (t.outer o).regs.slice offset.toNat n.toNat =
        t.regs.slice offset.toNat n.toNat := RegFile.slice_followedBy inside
    split
    · rw [outer_isr, outer_setIsr, slice]
    · rw [slice]

theorem outer_write (u : Usart) (o : RegFile) {e : UsartEnv} {offset n : Word} (value : Word)
    (fits : u.Heeds e offset n → offset.toNat + n.toNat ≤ size.toNat) :
    (u.outer o).write e offset n value = ((u.write e offset n value).1, (u.write e offset n value).2.1,
        (u.write e offset n value).2.2.outer o) := by
  have only : (u.outer o).secureOnly e = u.secureOnly e := rfl
  rw [write, write, only, outer_ensureEnabled]
  generalize u.ensureEnabled e = t
  split
  · rfl
  split
  · rfl
  split
  · rfl
  rename_i heard few low
  have inside := fits ⟨heard, few, low⟩
  split
  · have enabled : (t.outer o).enabled = t.enabled := rfl
    dsimp only
    rw [enabled, outer_transmit]
    split <;> rfl
  · have copied : (u.outer o).regs.copy offset.toNat n.toNat value =
        (u.regs.copy offset.toNat n.toNat value).followedBy size.toNat o :=
      RegFile.copy_followedBy inside value
    rw [copied]
    rfl

theorem read_over (heeds : u.Heeds e offset n)
    (beyond : size.toNat < offset.toNat + n.toNat) : ¬ ∀ o, (u.outer o).read e offset n =
      ((u.read e offset n).1, (u.read e offset n).2.outer o) := by
  intro same
  obtain ⟨heard, starts⟩ := heeds
  have shown (o : RegFile) : ((u.outer o).read e offset n).1 =
      some (((u.ensureEnabled e).regs.followedBy size.toNat o).slice offset.toNat n.toNat) := by
    have only : (u.outer o).secureOnly e = u.secureOnly e := rfl
    rw [read, only, outer_ensureEnabled, if_neg heard, if_neg starts.few, if_neg starts.low]
    dsimp only
    rw [if_neg (starts.ne_of_over beyond (by decide)), if_neg (starts.ne_of_over beyond (by decide))]
    rfl
  obtain ⟨o, o', differ⟩ := RegFile.slice_shows (r := (u.ensureEnabled e).regs)
    starts.low_toNat beyond starts.few_toNat
  refine differ (Option.some_inj.mp ?_)
  rw [← shown, ← shown, same o, same o']

theorem write_over (heeds : u.Heeds e offset n) (value : Word)
    (beyond : size.toNat < offset.toNat + n.toNat) : ¬ ∀ o, (u.outer o).write e offset n value =
      ((u.write e offset n value).1, (u.write e offset n value).2.1,
        (u.write e offset n value).2.2.outer o) := by
  intro same
  obtain ⟨heard, starts⟩ := heeds
  obtain ⟨o, reached⟩ := RegFile.copy_reaches (r := u.regs) (Nat.le_of_lt starts.low_toNat) beyond
    value
  have copied : ((u.outer o).write e offset n value).2.2.regs =
      (u.regs.followedBy size.toNat o).copy offset.toNat n.toNat value := by
    have only : (u.outer o).secureOnly e = u.secureOnly e := rfl
    rw [write, only, if_neg heard, if_neg starts.few, if_neg starts.low,
      if_neg (starts.ne_of_over beyond (by decide))]
    rfl
  rw [← copied, same o] at reached
  exact reached (RegFile.followedBy_of_le (r := (u.write e offset n value).2.2.regs) (Nat.le_refl size.toNat))

end Usart

namespace SpiInst

variable {s : SpiInst} {limit : Nat} {o : RegFile} {offset n : Word}

theorem outer_word {off : Nat} (inside : off + 4 ≤ limit) :
    (s.outer limit o).regs.word off = s.regs.word off := RegFile.word_followedBy inside

theorem outer_setWord {off : Nat} (inside : off + 4 ≤ limit) (v : Word) :
    ({ s.outer limit o with regs := (s.outer limit o).regs.setWord off v } : SpiInst) =
      outer { s with regs := s.regs.setWord off v } limit o :=
  congrArg (fun regs => ({ s with regs := regs } : SpiInst)) (RegFile.setWord_followedBy inside v)

theorem outer_updateSr (low : size.toNat ≤ limit) (s : SpiInst) (o : RegFile) :
    (s.outer limit o).updateSr = s.updateSr.outer limit o :=
  outer_setWord (Nat.le_trans (by decide) low) _

theorem outer_setEnabled (low : size.toNat ≤ limit) (s : SpiInst) (o : RegFile) (enable : Bool)
    (ds : List SpiDevice) : (s.outer limit o).setEnabled enable ds =
      ((s.setEnabled enable ds).1.outer limit o, (s.setEnabled enable ds).2) := by
  cases enable with
  | true => exact congrArg (·, ds) (outer_updateSr low { s with enabled := true } o)
  | false => exact congrArg (·, spiBusEnd s.busIndex ds) (outer_updateSr low { s with
      enabled := false, transferActive := false, eotPending := false, tsizeRem := 0, rxHead := 0,
      rxTail := 0 } o)

theorem outer_startTransfer (low : size.toNat ≤ limit) (s : SpiInst) (o : RegFile) :
    (s.outer limit o).startTransfer = s.startTransfer.outer limit o := by
  have cr2 : (s.outer limit o).cr2 = s.cr2 := outer_word (Nat.le_trans (by decide) low)
  have sr : (s.outer limit o).sr = s.sr := outer_word (Nat.le_trans (by decide) low)
  rw [startTransfer, startTransfer, cr2, sr]
  exact outer_setWord (s := { s with
    transferActive := true
    eotPending := false
    tsizeRem := if s.cr2 &&& 0xFFFF = 0 then 0xFFFFFFFF else s.cr2 &&& 0xFFFF })
    (Nat.le_trans (by decide) low) _

theorem outer_applySpe (low : size.toNat ≤ limit) (s : SpiInst) (o : RegFile) (value : Word)
    (busy : Bool) (ds : List SpiDevice) : (s.outer limit o).applySpe value busy ds =
      ((s.applySpe value busy ds).1.outer limit o, (s.applySpe value busy ds).2) := by
  have cr1 : (s.outer limit o).cr1 = s.cr1 := outer_word (Nat.le_trans (by decide) low)
  rw [applySpe, applySpe, outer_setEnabled low, outer_setEnabled low, cr1,
    outer_setWord (Nat.le_trans (by decide) low)]
  split
  · rfl
  split <;> rfl

theorem outer_applyCstart (low : size.toNat ≤ limit) (s : SpiInst) (o : RegFile) (value : Word) :
    (s.outer limit o).applyCstart value = (s.applyCstart value).outer limit o := by
  rw [applyCstart, applyCstart, outer_startTransfer low]
  split
  · exact (apply_ite (outer · limit o) _ _ _).symm
  · rfl

theorem outer_writeCr1 (low : size.toNat ≤ limit) (s : SpiInst) (o : RegFile) (value : Word)
    (ds : List SpiDevice) : (s.outer limit o).writeCr1 value ds =
      ((s.writeCr1 value ds).1.outer limit o, (s.writeCr1 value ds).2) := by
  have cr1 : (s.outer limit o).cr1 = s.cr1 := outer_word (Nat.le_trans (by decide) low)
  have sr : (s.outer limit o).sr = s.sr := outer_word (Nat.le_trans (by decide) low)
  rw [writeCr1, writeCr1, cr1, sr, outer_setWord (Nat.le_trans (by decide) low)]
  dsimp only
  rw [outer_applySpe low, outer_applyCstart low]
  rfl

theorem outer_writeIfcr (low : size.toNat ≤ limit) (s : SpiInst) (o : RegFile) (value : Word) :
    (s.outer limit o).writeIfcr value = (s.writeIfcr value).outer limit o := by
  have sr : (s.outer limit o).sr = s.sr := outer_word (Nat.le_trans (by decide) low)
  rw [writeIfcr, writeIfcr, sr]
  exact outer_setWord (s := { s with
    eotPending := if value &&& srEot ≠ 0 then false else s.eotPending })
    (Nat.le_trans (by decide) low) _

theorem outer_sendBytes (low : size.toNat ≤ limit) (s : SpiInst) (o : RegFile) (n : Word) :
    (s.outer limit o).sendBytes n = s.sendBytes n := by
  have cfg1 : (s.outer limit o).cfg1 = s.cfg1 := outer_word (Nat.le_trans (by decide) low)
  rw [sendBytes, sendBytes, frameBytes, frameBytes, cfg1]

theorem outer_fifoPush (low : size.toNat + 32 ≤ limit) (inside : s.fifo.Inside) (o : RegFile)
    (v : Byte) : (s.outer limit o).fifoPush v = (s.fifoPush v).outer limit o := by
  have tail : s.rxTail.toNat < 32 := inside.2
  have room : size.toNat + s.rxTail.toNat + 1 ≤ limit := by omega
  by_cases full : (s.rxTail + 1) &&& 0x1F = s.rxHead
  · rw [show s.fifoPush v = s from if_pos full]
    exact if_pos full
  · rw [fifoPush, fifoPush, if_neg full]
    exact (if_neg full).trans (congrArg
      (fun regs => ({ s with regs := regs, rxTail := (s.rxTail + 1) &&& 0x1F } : SpiInst))
      (RegFile.copy_followedBy room (v.setWidth 32)))

theorem outer_fifoPop (low : size.toNat + 32 ≤ limit) (inside : s.fifo.Inside) (o : RegFile) :
    (s.outer limit o).fifoPop = (s.fifoPop.1, s.fifoPop.2.outer limit o) := by
  have head : s.rxHead.toNat < 32 := inside.1
  have byte : (s.outer limit o).regs (size.toNat + s.rxHead.toNat) =
      s.regs (size.toNat + s.rxHead.toNat) := RegFile.followedBy_of_lt (by omega)
  by_cases none' : s.rxHead = s.rxTail
  · rw [show s.fifoPop = (none, s) from if_pos none']
    exact if_pos none'
  · rw [fifoPop, fifoPop, if_neg none']
    exact (if_neg none').trans (congrArg (fun b => (some b, _)) byte)

theorem outer_handleTx (low : size.toNat + 32 ≤ limit) (inside : s.fifo.Inside) (o : RegFile)
    (banks : Banks) (value n : Word) (ds : List SpiDevice) :
    (s.outer limit o).handleTx banks value n ds =
      ((s.handleTx banks value n ds).1.outer limit o, (s.handleTx banks value n ds).2) := by
  have loop (is : List Nat) (s : SpiInst) (ds : List SpiDevice) (inside : s.fifo.Inside) :
      is.foldl (txByte banks value) (s.outer limit o, ds) =
        ((is.foldl (txByte banks value) (s, ds)).1.outer limit o,
          (is.foldl (txByte banks value) (s, ds)).2) := by
    induction is generalizing s ds with
    | nil => rfl
    | cons i is ih =>
      have one : txByte banks value (s.outer limit o, ds) i =
          ((txByte banks value (s, ds) i).1.outer limit o, (txByte banks value (s, ds) i).2) := by
        let answer := (spiBusXfer banks s.busIndex (txOut value i) ds).1
        have pushed : (s.outer limit o).fifoPush answer = (s.fifoPush answer).outer limit o :=
          outer_fifoPush low inside o answer
        have next : txByte banks value (s.outer limit o, ds) i =
            (if (s.fifoPush answer).transferActive && (s.fifoPush answer).tsizeRem ≠ 0 then
                outer { s.fifoPush answer with tsizeRem := (s.fifoPush answer).tsizeRem - 1 } limit o
              else (s.fifoPush answer).outer limit o,
              (spiBusXfer banks s.busIndex (txOut value i) ds).2) := by
          exact congrArg (fun p : SpiInst =>
            (if p.transferActive && p.tsizeRem ≠ 0 then { p with tsizeRem := p.tsizeRem - 1 } else p,
              (spiBusXfer banks s.busIndex (txOut value i) ds).2)) pushed
        rw [next]
        exact congrArg (·, _) (apply_ite (outer · limit o) _ _ _).symm
      rw [List.foldl_cons, List.foldl_cons, one]
      exact ih _ _ (inside_txByte inside banks value ds i)
  rw [handleTx, handleTx, outer_sendBytes (by omega), loop _ s ds inside]
  generalize (List.range (s.sendBytes n).toNat).foldl (txByte banks value) (s, ds) = sent
  let after (now : SpiInst × List SpiDevice) := (now.1.outer limit o, now.2)
  let last : SpiInst := { sent.1 with transferActive := false, eotPending := true }
  have updated : (sent.1.outer limit o).updateSr = sent.1.updateSr.outer limit o :=
    outer_updateSr (by omega) sent.1 o
  have ended : (last.outer limit o).updateSr = last.updateSr.outer limit o :=
    outer_updateSr (by omega) last o
  change _ = after (if (!s.enabled) = true then (s, ds)
    else if (sent.1.transferActive && sent.1.tsizeRem = 0) = true then
      (last.updateSr, spiBusEnd sent.1.busIndex sent.2)
    else (sent.1.updateSr, sent.2))
  rw [apply_ite after, apply_ite after]
  exact if_congr Iff.rfl rfl (if_congr Iff.rfl (congrArg (·, spiBusEnd sent.1.busIndex sent.2) ended)
    (congrArg (·, sent.2) updated))

theorem outer_rxLoop (low : size.toNat + 32 ≤ limit) (inside : s.fifo.Inside) (o : RegFile)
    (v : Word) (is : List Nat) : is.foldl rxByte (v, s.outer limit o) =
      ((is.foldl rxByte (v, s)).1, (is.foldl rxByte (v, s)).2.outer limit o) := by
  induction is generalizing v s with
  | nil => rfl
  | cons i is ih =>
    have popped : rxByte (v, s.outer limit o) i =
        ((rxByte (v, s) i).1, (rxByte (v, s) i).2.outer limit o) :=
      congrArg (fun p : Option Byte × SpiInst => (v ||| (p.1.getD 0).setWidth 32 <<< (i * 8), p.2))
        (outer_fifoPop low inside o)
    rw [List.foldl_cons, List.foldl_cons, popped]
    exact ih (s := (rxByte (v, s) i).2) (fifoPop_snd inside).1 (rxByte (v, s) i).1

theorem outer_read (low : size.toNat ≤ limit) (inside : s.fifo.Inside) (o : RegFile)
    (fits : Starts size offset n → offset.toNat + n.toNat ≤ size.toNat)
    (fifo : offset = 0x30 → size.toNat + 32 ≤ limit) :
    (s.outer limit o).read offset n = ((s.read offset n).1, (s.read offset n).2.outer limit o) := by
  rw [SpiInst.read, SpiInst.read, outer_sendBytes low]
  split
  · rfl
  split
  · rfl
  split
  next rxdr =>
    rw [outer_rxLoop (fifo rxdr) inside]
    exact congrArg (some (List.foldl rxByte (0, s) (List.range (s.sendBytes n).toNat)).1, ·)
      (outer_updateSr low _ o)
  next few start _ =>
    have ends := fits ⟨few, start⟩
    dsimp only
    rw [outer_updateSr low]
    exact congrArg (fun v => (some v, _)) (RegFile.slice_followedBy (by omega))

theorem outer_write (low : size.toNat ≤ limit) (inside : s.fifo.Inside) (o : RegFile)
    (banks : Banks) (value : Word) (ds : List SpiDevice)
    (fits : Starts size offset n → offset.toNat + n.toNat ≤ size.toNat)
    (fifo : offset = 0x20 → size.toNat + 32 ≤ limit) :
    (s.outer limit o).write banks offset n value ds =
      ((s.write banks offset n value ds).1, (s.write banks offset n value ds).2.1.outer limit o,
        (s.write banks offset n value ds).2.2) := by
  rw [SpiInst.write, SpiInst.write]
  split
  · rfl
  split
  · rfl
  split
  · rw [outer_writeCr1 low]
  split
  next txdr => rw [outer_handleTx (fifo txdr) inside]
  split
  · rw [outer_writeIfcr low]
  next few start _ _ _ =>
    have ends := fits ⟨few, start⟩
    exact congrArg (fun regs => (true, ({ s with regs := regs } : SpiInst), ds))
      (RegFile.copy_followedBy (by omega) value)

theorem read_over (starts : Starts size offset n) (beyond : size.toNat < offset.toNat + n.toNat) :
    ¬ ∀ o, (s.outer size.toNat o).read offset n =
      ((s.read offset n).1, (s.read offset n).2.outer size.toNat o) := by
  intro same
  have shown (o : RegFile) : ((s.outer size.toNat o).read offset n).1 =
      some ((s.updateSr.regs.followedBy size.toNat o).slice offset.toNat n.toNat) := by
    rw [SpiInst.read, if_neg starts.few, if_neg starts.low,
      if_neg (starts.ne_of_over beyond (by decide))]
    dsimp only
    rw [outer_updateSr (Nat.le_refl _)]
    rfl
  obtain ⟨o, o', differ⟩ := RegFile.slice_shows (r := s.updateSr.regs) starts.low_toNat beyond
    starts.few_toNat
  refine differ (Option.some_inj.mp ?_)
  rw [← shown, ← shown, same o, same o']

theorem write_over (starts : Starts size offset n) (banks : Banks) (value : Word)
    (ds : List SpiDevice) (beyond : size.toNat < offset.toNat + n.toNat) :
    ¬ ∀ o, (s.outer size.toNat o).write banks offset n value ds =
      ((s.write banks offset n value ds).1,
        (s.write banks offset n value ds).2.1.outer size.toNat o,
        (s.write banks offset n value ds).2.2) := by
  intro same
  obtain ⟨o, reached⟩ := RegFile.copy_reaches (r := s.regs) (Nat.le_of_lt starts.low_toNat) beyond
    value
  have copied : ((s.outer size.toNat o).write banks offset n value ds).2.1.regs =
      (s.regs.followedBy size.toNat o).copy offset.toNat n.toNat value := by
    rw [SpiInst.write, if_neg starts.few, if_neg starts.low,
      if_neg (starts.ne_of_over beyond (by decide)), if_neg (starts.ne_of_over beyond (by decide)),
      if_neg (starts.ne_of_over beyond (by decide))]
    rfl
  rw [← copied, same o] at reached
  exact reached (RegFile.followedBy_of_le (r := (s.write banks offset n value ds).2.1.regs) (Nat.le_refl size.toNat))

end SpiInst

namespace Gpio

variable {g : Gpio} {o : RegFile} {offset n : Word}

def Heeds (g : Gpio) (offset n : Word) : Prop := g.clockEnabled = true ∧ Starts size offset n

theorem outer_seccfgr (g : Gpio) (o : RegFile) : (g.outer o).seccfgr = g.seccfgr :=
  RegFile.word_followedBy (by decide)

theorem outer_odr (g : Gpio) (o : RegFile) : (g.outer o).odr = g.odr :=
  RegFile.word_followedBy (by decide)

theorem outer_setWord {off : Nat} (inside : off + 4 ≤ size.toNat) (v : Word) :
    ({ g.outer o with regs := (g.outer o).regs.setWord off v } : Gpio) =
      outer { g with regs := g.regs.setWord off v } o :=
  congrArg (fun regs => ({ g with regs := regs } : Gpio)) (RegFile.setWord_followedBy inside v)

theorem outer_syncOdr (g : Gpio) (o : RegFile) (oldOdr : Word) :
    (g.outer o).syncOdr oldOdr = (g.syncOdr oldOdr).outer o := by
  rw [syncOdr, syncOdr, outer_odr, outer_setWord (by decide)]
  split <;> rfl

theorem outer_writeBsrr (g : Gpio) (o : RegFile) (value mask : Word) :
    (g.outer o).writeBsrr value mask = (g.writeBsrr value mask).outer o := by
  rw [writeBsrr, writeBsrr, applyBsrr, applyBsrr, outer_odr]
  rw [outer_setWord (by decide), outer_syncOdr]

theorem outer_writeBrr (g : Gpio) (o : RegFile) (value mask : Word) :
    (g.outer o).writeBrr value mask = (g.writeBrr value mask).outer o := by
  rw [writeBrr, writeBrr, applyBrr, applyBrr, outer_odr, outer_setWord (by decide), outer_syncOdr]

theorem outer_writeAny (g : Gpio) (o : RegFile) {offset n : Word} (value : Word)
    (ends : offset.toNat + n.toNat ≤ size.toNat) :
    (g.outer o).writeAny offset n value = (g.writeAny offset n value).outer o := by
  have copied : ({ g.outer o with regs := (g.outer o).regs.copy offset.toNat n.toNat value } : Gpio) =
      outer { g with regs := g.regs.copy offset.toNat n.toNat value } o :=
    congrArg (fun regs => ({ g with regs := regs } : Gpio)) (RegFile.copy_followedBy ends value)
  rw [writeAny, writeAny, outer_writeBsrr, outer_writeBrr, outer_odr, copied]
  dsimp only
  rw [outer_syncOdr]
  split
  · rfl
  split
  · rfl
  split <;> rfl

theorem outer_read (g : Gpio) (o : RegFile) (secAlias : Bool)
    (fits : g.Heeds offset n → offset.toNat + n.toNat ≤ size.toNat) :
    (g.outer o).read secAlias offset n = g.read secAlias offset n := by
  have clock : (g.outer o).clockEnabled = g.clockEnabled := rfl
  rw [Gpio.read, Gpio.read, readMask, readMask, outer_seccfgr, clock]
  split
  · rfl
  split
  · rfl
  split
  · rfl
  rename_i few low on
  have ends := fits ⟨eq_true_of_ne_false on, few, low⟩
  have slice : (g.outer o).regs.slice offset.toNat n.toNat = g.regs.slice offset.toNat n.toNat :=
    RegFile.slice_followedBy ends
  rw [slice]

theorem outer_write (g : Gpio) (o : RegFile) (secAlias : Bool) (value : Word)
    (fits : g.Heeds offset n → offset.toNat + n.toNat ≤ size.toNat) :
    (g.outer o).write secAlias offset n value =
      ((g.write secAlias offset n value).1, (g.write secAlias offset n value).2.outer o) := by
  have clock : (g.outer o).clockEnabled = g.clockEnabled := rfl
  have mask : (g.outer o).writeMask offset = g.writeMask offset := by
    rw [writeMask, writeMask, outer_seccfgr]
  rw [Gpio.write, Gpio.write, clock, mask]
  split
  · rfl
  split
  · rfl
  split
  · rfl
  rename_i few low on
  have ends := fits ⟨eq_true_of_ne_false on, few, low⟩
  rw [outer_writeAny g o _ ends, outer_writeAny g o _ ends, outer_seccfgr, outer_writeBsrr,
    outer_writeBrr]
  split
  · rfl
  split
  · rfl
  split
  · rfl
  split <;> rfl

theorem read_over (heeds : g.Heeds offset n) (secAlias : Bool)
    (beyond : size.toNat < offset.toNat + n.toNat) :
    ¬ ∀ o, (g.outer o).read secAlias offset n = g.read secAlias offset n := by
  intro same
  obtain ⟨on, starts⟩ := heeds
  have ne {k : Word} (inner : k.toNat + 4 ≤ size.toNat) : offset ≠ k := starts.ne_of_over beyond inner
  have last : 0x30 < offset.toNat := by
    have few := starts.few_toNat
    have size' : size.toNat = 0x34 := rfl
    omega
  -- the registers that the Non-secure alias masks come before
  have whole : (g.readMask offset) = BitVec.allOnes 32 := by
    rw [readMask, if_neg (ne (by decide)), if_neg, if_neg]
    · exact fun low => by
        have low' : offset.toNat ≤ 0x0c := low
        omega
    · rintro (h | h | h | h | h | h | h | h) <;> exact ne (by decide) h
  have shown (o : RegFile) : (g.outer o).read secAlias offset n =
      some ((g.regs.followedBy size.toNat o).slice offset.toNat n.toNat) := by
    have clock : (g.outer o).clockEnabled = true := on
    have mask : (g.outer o).readMask offset = BitVec.allOnes 32 := by
      rw [← whole, readMask, readMask, outer_seccfgr]
    rw [Gpio.read, if_neg starts.few, if_neg starts.low, clock, mask]
    cases secAlias with
    | true => rfl
    | false => exact congrArg some BitVec.and_allOnes
  obtain ⟨o, o', differ⟩ := RegFile.slice_shows (r := g.regs) starts.low_toNat beyond
    starts.few_toNat
  refine differ (Option.some_inj.mp ?_)
  rw [← shown, ← shown, same o, same o']

theorem write_over (heeds : g.Heeds offset n) (secAlias : Bool) (value : Word)
    (beyond : size.toNat < offset.toNat + n.toNat) :
    ¬ ∀ o, (g.outer o).write secAlias offset n value =
      ((g.write secAlias offset n value).1, (g.write secAlias offset n value).2.outer o) := by
  intro same
  obtain ⟨on, starts⟩ := heeds
  have ne {k : Word} (inner : k.toNat + 4 ≤ size.toNat) : offset ≠ k := starts.ne_of_over beyond inner
  let v := if secAlias then value else value &&& g.writeMask offset
  have copied (o : RegFile) : ((g.outer o).write secAlias offset n value).2.regs =
      (g.regs.followedBy size.toNat o).copy offset.toNat n.toNat v := by
    have clock : (g.outer o).clockEnabled = true := on
    have mask : (g.outer o).writeMask offset = g.writeMask offset := by
      rw [writeMask, writeMask, outer_seccfgr]
    have any (w : Word) : ((g.outer o).writeAny offset n w).regs =
        (g.regs.followedBy size.toNat o).copy offset.toNat n.toNat w := by
      rw [writeAny, if_neg (ne (by decide)), if_neg (ne (by decide))]
      dsimp only
      rw [if_neg (ne (by decide))]
      rfl
    rw [Gpio.write, if_neg starts.few, if_neg starts.low, clock, mask]
    cases secAlias with
    | true => exact any value
    | false =>
      rw [if_neg (by decide), if_neg (by decide), if_neg (ne (by decide)), if_neg (ne (by decide)),
        if_neg (ne (by decide))]
      exact any (value &&& g.writeMask offset)
  obtain ⟨o, reached⟩ := RegFile.copy_reaches (r := g.regs) (Nat.le_of_lt starts.low_toNat) beyond v
  rw [← copied, same o] at reached
  exact reached (RegFile.followedBy_of_le (r := (g.write secAlias offset n value).2.regs) (Nat.le_refl size.toNat))

end Gpio

inductive RegBlock
  | usart (u : Usart) (e : UsartEnv)
  | spi (s : SpiInst) (inside : s.fifo.Inside) (banks : Banks) (ds : List SpiDevice)
  | gpio (g : Gpio) (secAlias : Bool)

inductive RegAccess
  | read (offset n : Word)
  | write (offset n value : Word)

def RegAccess.offset : RegAccess → Word
  | read offset _ => offset
  | write offset _ _ => offset

def RegAccess.n : RegAccess → Word
  | read _ n => n
  | write _ n _ => n

namespace RegBlock

def size : RegBlock → Word
  | usart _ _ => Usart.size
  | spi _ _ _ _ => SpiInst.size
  | gpio _ _ => Gpio.size

def Heeds : RegBlock → RegAccess → Prop
  | usart u e, a => u.Heeds e a.offset a.n
  | spi _ _ _ _, a => Starts SpiInst.size a.offset a.n
  | gpio g _, a => g.Heeds a.offset a.n

def limit (offset : Word) : Nat :=
  if offset = 0x20 ∨ offset = 0x30 then SpiInst.size.toNat + 32 else SpiInst.size.toNat

def Confined : RegBlock → RegAccess → Prop
  | usart u e, .read offset n => ∀ o, (u.outer o).read e offset n =
      ((u.read e offset n).1, (u.read e offset n).2.outer o)
  | usart u e, .write offset n value => ∀ o, (u.outer o).write e offset n value =
      ((u.write e offset n value).1, (u.write e offset n value).2.1,
        (u.write e offset n value).2.2.outer o)
  | spi s _ _ _, .read offset n => ∀ o, (s.outer (limit offset) o).read offset n =
      ((s.read offset n).1, (s.read offset n).2.outer (limit offset) o)
  | spi s _ banks ds, .write offset n value => ∀ o,
      (s.outer (limit offset) o).write banks offset n value ds =
        ((s.write banks offset n value ds).1,
          (s.write banks offset n value ds).2.1.outer (limit offset) o,
          (s.write banks offset n value ds).2.2)
  | gpio g secAlias, .read offset n => ∀ o,
      (g.outer o).read secAlias offset n = g.read secAlias offset n
  | gpio g secAlias, .write offset n value => ∀ o, (g.outer o).write secAlias offset n value =
      ((g.write secAlias offset n value).1, (g.write secAlias offset n value).2.outer o)

theorem size_le_limit (offset : Word) : SpiInst.size.toNat ≤ limit offset := by
  rw [limit]
  split
  · exact Nat.le_add_right _ _
  · exact Nat.le_refl _

theorem limit_of_over {offset n : Word} (starts : Starts SpiInst.size offset n)
    (beyond : SpiInst.size.toNat < offset.toNat + n.toNat) : limit offset = SpiInst.size.toNat :=
  if_neg fun data =>
    data.elim (starts.ne_of_over beyond (by decide)) (starts.ne_of_over beyond (by decide))

theorem confined_of_fits (b : RegBlock) (a : RegAccess)
    (fits : b.Heeds a → a.offset.toNat + a.n.toNat ≤ b.size.toNat) : b.Confined a := by
  cases b with
  | usart u e =>
    cases a with
    | read offset n => exact fun o => Usart.outer_read u o fits
    | write offset n value => exact fun o => Usart.outer_write u o value fits
  | spi s inside banks ds =>
    cases a with
    | read offset n =>
      exact fun o => SpiInst.outer_read (size_le_limit offset) inside o fits fun rxdr =>
        Nat.le_of_eq (if_pos (.inr rxdr)).symm
    | write offset n value =>
      exact fun o => SpiInst.outer_write (size_le_limit offset) inside o banks value ds fits
        fun txdr => Nat.le_of_eq (if_pos (.inl txdr)).symm
  | gpio g secAlias =>
    cases a with
    | read offset n => exact fun o => Gpio.outer_read g o secAlias fits
    | write offset n value => exact fun o => Gpio.outer_write g o secAlias value fits

theorem not_confined_of_over {b : RegBlock} {a : RegAccess} (heeds : b.Heeds a)
    (beyond : b.size.toNat < a.offset.toNat + a.n.toNat) : ¬ b.Confined a := by
  cases b with
  | usart u e =>
    cases a with
    | read offset n => exact Usart.read_over heeds beyond
    | write offset n value => exact Usart.write_over heeds value beyond
  | spi s inside banks ds =>
    cases a with
    | read offset n =>
      have own : limit offset = SpiInst.size.toNat := limit_of_over heeds beyond
      rw [Confined, own]
      exact SpiInst.read_over heeds beyond
    | write offset n value =>
      have own : limit offset = SpiInst.size.toNat := limit_of_over heeds beyond
      rw [Confined, own]
      exact SpiInst.write_over heeds banks value ds beyond
  | gpio g secAlias =>
    cases a with
    | read offset n => exact Gpio.read_over heeds secAlias beyond
    | write offset n value => exact Gpio.write_over heeds secAlias value beyond

/-- The handlers look at where an access starts, and one that they heed stays inside of the array
exactly if it ends there too. -/
theorem confined_iff (b : RegBlock) (a : RegAccess) :
    b.Confined a ↔ (b.Heeds a → a.offset.toNat + a.n.toNat ≤ b.size.toNat) := by
  refine ⟨fun confined heeds => ?_, b.confined_of_fits a⟩
  by_contra beyond
  exact not_confined_of_over heeds (Nat.lt_of_not_le beyond) confined

theorem spi_write_reaches_fifo :
    ¬ ∀ (b : RegBlock) (a : RegAccess), (a.n = 1 ∨ a.n = 2 ∨ a.n = 4) → a.offset < 0x400 →
      b.Confined a := by
  intro all
  let s : SpiInst := ⟨.zero, 0, 0, false, false, false, 0, 0⟩
  have confined := all (.spi s ⟨by decide, by decide⟩ (fun _ => ⟨.zero, 1, 0⟩) [])
    (.write 0x4E 4 0xFFFFFFFF) (.inr (.inr rfl)) (by decide) .zero
  have byte := congrArg (fun r => r.2.1.regs 0x50) confined
  exact absurd byte (by decide)

end RegBlock

end M33mu
