import M33mu.PersistedFlash
import M33mu.Stm32Flash
import M33mu.Windows

namespace M33mu

open Lib

theorem Memmap.altered_of_writeBufLe {buf buf' : Word → Byte} {off n v a : Word}
    (stored : writeBufLe buf off n v = some buf') (differs : buf' a ≠ buf a) :
    ∃ i < n.toNat, a = off + BitVec.ofNat 32 i ∧ buf a ≠ (v >>> (8 * i)).setWidth 8 := by
  have sized : Sized n := by
    by_contra other
    rw [Sized, not_or, not_or] at other
    rw [writeBufLe, if_neg other.2.2, if_neg other.2.1, if_neg other.1] at stored
    cases stored
  rw [writeBufLe_of_sized sized] at stored
  cases stored
  by_cases inside : ∃ i < n.toNat, off + BitVec.ofNat 32 i = a
  · obtain ⟨i, low, rfl⟩ := inside
    refine ⟨i, low, rfl, ?_⟩
    rw [putBytes_at sized.toNat_le.2 low] at differs
    exact differs.symm
  · exact absurd (putBytes_apart fun i low here => inside ⟨i, low, here⟩) differs

def Erases (x : Word × Word) (a : Word) : Prop := x.1 ≤ a ∧ a.toNat < x.1.toNat + x.2.toNat

namespace Stm32Flash

variable {π : Type u} [DecidableEq π]

def written (s : Stm32Flash π) (c : SecState) (n value : Word) : Stm32Flash π :=
  let s := { s with regs := s.regs.copy (cr c).toNat n.toNat value }
  if value &&& crLock ≠ 0 then s.setReg (cr c) (s.reg (cr c) ||| crLock) else s

def erased (s : Stm32Flash π) (c : SecState) : Option (Word × Word) :=
  if s.flashSize = 0 ∨ s.sectorSize = 0 then none else s.eraseRange (s.reg (cr c))

def starts (s : Stm32Flash π) (addr n value : Word) : Option (Word × Word) :=
  if n = 0 ∨ 4 < n then none
  else
    ((regOffset addr).bind (which cr)).bind fun c =>
      if s.isUnlocked c = false ∧ value &&& crLock = 0 ∨ value &&& crStrt = 0 then none
      else (s.written c n value).erased c

def programs (s : Stm32Flash π) (sec : SecState) (addr n : Word) : Option Word :=
  if s.flashSize = 0 then none
  else
    (s.offsetOf addr).filter fun offset =>
      offset + n ≤ s.flashSize ∧ s.isUnlocked sec = true ∧ s.reg (cr sec) &&& crPg ≠ 0 ∧
        ¬ (s.writeOnce = true ∧ s.sectorSize ≠ 0 ∧ s.sectorWritten offset = true) ∧ Sized n

def alters (s : Stm32Flash π) : Op → Word → Prop
  | .write addr n value, a => ∃ x ∈ s.starts addr n value, Erases x a ∧ s.flash a ≠ 0xFF
  | .store sec addr n value, a => ∃ offset ∈ s.programs sec addr n, ∃ i < n.toNat,
      a = offset + BitVec.ofNat 32 i ∧ s.flash a ≠ (value >>> (8 * i)).setWidth 8

def flushes (s : Stm32Flash π) : Op → Option (Word × Word)
  | .write addr n value => s.starts addr n value
  | .store sec addr n _ => (s.programs sec addr n).map (·, n)

def filled (flash : Word → Byte) : Option (Word × Word) → Word → Byte
  | some (first, n) => fill flash first n
  | none => flash

def bound (s : Stm32Flash π) : FlashPersist π × Word × Word × Word :=
  (s.persist, s.flashSize, s.baseS, s.baseNs)

structure EraseOf (s t : Stm32Flash π) (x : Option (Word × Word)) : Prop where
  flash : t.flash = filled s.flash x
  files : t.files = s.persist.flushed t.flash s.files x
  bound : t.bound = s.bound

theorem eraseOf_self (s : Stm32Flash π) : s.EraseOf s none := ⟨rfl, rfl, rfl⟩

theorem eraseOf_applyErase (s : Stm32Flash π) (c : SecState) :
    s.EraseOf (s.applyErase c) (s.erased c) := by
  rw [applyErase, erased]
  split
  · exact s.eraseOf_self
  · cases s.eraseRange (s.reg (cr c)) with
    | none => exact s.eraseOf_self
    | some x => exact ⟨rfl, rfl, rfl⟩

theorem eraseOf_writeControl (s : Stm32Flash π) (c : SecState) (n value : Word) :
    s.EraseOf (s.writeControl c n value)
      (if s.isUnlocked c = false ∧ value &&& crLock = 0 ∨ value &&& crStrt = 0 then none
        else (s.written c n value).erased c) := by
  have eq : s.writeControl c n value =
      if s.isUnlocked c = false ∧ value &&& crLock = 0 then s
      else if value &&& crStrt ≠ 0 then
        let t := (s.written c n value).applyErase c
        t.setReg (cr c) (t.reg (cr c) &&& ~~~crStrt)
      else s.written c n value := rfl
  have same : s.EraseOf (s.written c n value) none := by
    rw [written]
    split <;> exact ⟨rfl, rfl, rfl⟩
  rw [eq]
  by_cases locked : s.isUnlocked c = false ∧ value &&& crLock = 0
  · rw [if_pos locked, if_pos (.inl locked)]
    exact s.eraseOf_self
  rw [if_neg locked]
  by_cases start : value &&& crStrt = 0
  · rw [if_neg (not_not.mpr start), if_pos (.inr start)]
    exact same
  rw [if_pos start, if_neg (not_or.mpr ⟨locked, start⟩)]
  have erase := eraseOf_applyErase (s.written c n value) c
  refine ⟨?_, ?_, erase.bound.trans same.bound⟩
  · exact erase.flash.trans (congrArg (filled · _) same.flash)
  · refine erase.files.trans ?_
    rw [show (s.written c n value).persist = s.persist from congrArg (·.1) same.bound,
      show (s.written c n value).files = s.files from same.files]
    rfl

theorem write_cr (s : Stm32Flash π) (c : SecState) {n : Word} (few : ¬ (n = 0 ∨ 4 < n))
    (value : Word) : s.write (cr c) n value = (true, s.writeControl c n value) := by
  have key : which keyr (cr c) = none := by cases c <;> decide
  have clear : which ccr (cr c) = none := by cases c <;> decide
  have small := BitVec.le_def.mp (BitVec.not_lt.mp (not_or.mp few).2)
  change n.toNat ≤ 4 at small
  have inside : ¬ size < cr c + n := by
    have low : (cr c).toNat ≤ 44 := by cases c <;> decide
    rw [BitVec.lt_def, BitVec.toNat_add]
    change ¬ 1024 < _
    omega
  rw [write, if_neg few, if_neg inside, key, clear, which_cr]

theorem eraseOf_write (s : Stm32Flash π) (addr n value : Word) :
    s.EraseOf (s.step (.write addr n value)) (s.starts addr n value) := by
  rw [step, starts]
  cases here : regOffset addr with
  | none =>
    rw [Option.bind_none, Option.bind_none, ite_self]
    exact s.eraseOf_self
  | some off =>
    dsimp only
    by_cases invalid : n = 0 ∨ 4 < n
    · rw [write, if_pos invalid, if_pos invalid]
      exact s.eraseOf_self
    rw [if_neg invalid, Option.bind_some]
    cases control : which cr off with
    | none =>
      rw [write, if_neg invalid, control, Option.bind_none]
      split
      · exact s.eraseOf_self
      split
      · rw [handleKey]
        split
        · exact ⟨rfl, rfl, rfl⟩
        · dsimp only
          split <;> exact ⟨rfl, rfl, rfl⟩
      split
      · dsimp only
        split <;> exact ⟨rfl, rfl, rfl⟩
      · exact ⟨rfl, rfl, rfl⟩
    | some c =>
      obtain rfl := which_eq_some control
      rw [write_cr s c invalid]
      exact eraseOf_writeControl s c n value

theorem writeCb_snd (s : Stm32Flash π) (sec : SecState) (addr n value : Word) :
    (s.writeCb sec addr n value).2 =
      match s.programs sec addr n with
      | some offset =>
        ({ s with flash := Memmap.putBytes s.flash offset value n.toNat }.setEop
          (sr sec)).persistFlush offset n
      | none => s := by
  rw [writeCb, programs]
  by_cases empty : s.flashSize = 0
  · rw [if_pos empty, if_pos empty]
  rw [if_neg empty, if_neg empty]
  cases s.offsetOf addr with
  | none => rfl
  | some offset =>
    rw [Option.filter_some]
    dsimp only
    by_cases outside : s.flashSize < offset + n
    · rw [if_pos outside, decide_eq_false fun all => absurd outside (BitVec.not_lt.mpr all.1)]
      rfl
    rw [if_neg outside]
    cases locked : s.isUnlocked sec with
    | false =>
      rw [if_pos rfl, decide_eq_false fun all => absurd all.2.1 Bool.false_ne_true]
      rfl
    | true =>
      rw [if_neg (show ¬ true = false from fun is => by cases is)]
      by_cases idle : s.reg (cr sec) &&& crPg = 0
      · rw [if_pos idle, decide_eq_false fun all => all.2.2.1 idle]
        rfl
      rw [if_neg idle]
      by_cases once : s.writeOnce = true ∧ s.sectorSize ≠ 0 ∧ s.sectorWritten offset = true
      · rw [if_pos once, decide_eq_false fun all => all.2.2.2.1 once]
        rfl
      rw [if_neg once]
      by_cases sized : Sized n
      · rw [Memmap.writeBufLe_of_sized sized,
          decide_eq_true ⟨BitVec.not_lt.mp outside, rfl, idle, once, sized⟩]
        rfl
      · have refused : Memmap.writeBufLe s.flash offset n value = none := by
          rw [Sized, not_or, not_or] at sized
          rw [Memmap.writeBufLe, if_neg sized.2.2, if_neg sized.2.1, if_neg sized.1]
        rw [refused, decide_eq_false fun all => sized all.2.2.2.2]
        rfl

theorem bound_step (s : Stm32Flash π) (op : Op) : (s.step op).bound = s.bound := by
  cases op with
  | write addr n value => exact (eraseOf_write s addr n value).bound
  | store sec addr n value =>
    rw [step, writeCb_snd]
    split <;> rfl

omit [DecidableEq π] in
theorem sized_of_programs {s : Stm32Flash π} {sec : SecState} {addr n offset : Word}
    (found : s.programs sec addr n = some offset) : offset + n ≤ s.flashSize ∧ Sized n := by
  rw [programs] at found
  split at found
  · cases found
  · have all := of_decide_eq_true (Option.filter_eq_some_iff.mp found).2
    exact ⟨all.1, all.2.2.2.2⟩

def persisted : PersistedFlash (Stm32Flash π) Op π where
  step := step
  flash := flash
  files := files
  persist := persist
  alters := alters
  flushes := flushes
  persist_step s op := congrArg (·.1) (bound_step s op)
  flash_step s op a differs := by
    cases op with
    | write addr n value =>
      rw [(eraseOf_write s addr n value).flash] at differs
      cases start : s.starts addr n value with
      | none =>
        rw [start] at differs
        exact absurd rfl differs
      | some x =>
        rw [start, filled, fill] at differs
        split at differs
        · exact ⟨x, start, ‹_›, differs.symm⟩
        · exact absurd rfl differs
    | store sec addr n value =>
      rw [step, writeCb_snd] at differs
      cases found : s.programs sec addr n with
      | none =>
        rw [found] at differs
        exact absurd rfl differs
      | some offset =>
        rw [found] at differs
        exact ⟨offset, found, Memmap.altered_of_writeBufLe
          (Memmap.writeBufLe_of_sized (sized_of_programs found).2 ..) differs⟩
  files_step s op := by
    cases op with
    | write addr n value => exact (eraseOf_write s addr n value).files
    | store sec addr n value =>
      rw [step, writeCb_snd, flushes]
      cases s.programs sec addr n <;> rfl

structure Fitted (s : Stm32Flash π) : Prop where
  flashSize : s.flashSize = 0x200000
  baseS : s.baseS = 0x0C000000
  baseNs : s.baseNs = 0x08000000
  enabled : s.persist.ranges ≠ [] → s.persist.enabled = true

theorem fitted_step {s : Stm32Flash π} (fitted : s.Fitted) (op : Op) : (s.step op).Fitted := by
  have same := bound_step s op
  have persist : (s.step op).persist = s.persist := congrArg (·.1) same
  exact ⟨(congrArg (·.2.1) same).trans fitted.flashSize,
    (congrArg (·.2.2.1) same).trans fitted.baseS, (congrArg (·.2.2.2) same).trans fitted.baseNs,
    persist ▸ fitted.enabled⟩

omit [DecidableEq π] in
theorem end_of_eraseRange {s : Stm32Flash π} (fitted : s.flashSize = 0x200000) {cr : Word}
    {x : Word × Word} (found : s.eraseRange cr = some x) :
    x.1.toNat + x.2.toNat ≤ 0x200000 := by
  have sector : s.sectorSize = 0x2000 := by
    rw [sectorSize, fitted]
    decide
  rw [eraseRange, fitted, sector] at found
  split at found
  · cases found
    decide
  split at found
  · dsimp only at found
    generalize (if (0x200000 : Word) / 2 ≠ 0 ∧ cr &&& crBksel ≠ 0 then
      ((cr &&& crSnbMask) >>> 6) * 0x2000 + 0x200000 / 2
      else ((cr &&& crSnbMask) >>> 6) * 0x2000) = first at found
    split at found
    · cases found
    rename_i inside
    have low := BitVec.lt_def.mp (BitVec.not_le.mp inside)
    change first.toNat < 0x200000 at low
    split at found
    · cases found
      rw [BitVec.toNat_sub]
      change first.toNat + (2 ^ 32 - first.toNat + 0x200000) % 2 ^ 32 ≤ 0x200000
      omega
    · rename_i fits
      cases found
      have fits := BitVec.le_def.mp (BitVec.not_lt.mp fits)
      rw [BitVec.toNat_add] at fits
      change (first.toNat + 0x2000) % 2 ^ 32 ≤ 0x200000 at fits
      change first.toNat + 0x2000 ≤ 0x200000
      omega
  · cases found

omit [DecidableEq π] in
theorem end_of_starts {s : Stm32Flash π} (fitted : s.Fitted) {addr n value : Word}
    {x : Word × Word} (found : s.starts addr n value = some x) :
    x.1.toNat + x.2.toNat ≤ 0x200000 := by
  rw [starts] at found
  split at found
  · cases found
  obtain ⟨c, -, found⟩ := Option.bind_eq_some_iff.mp found
  split at found
  · cases found
  rw [erased] at found
  split at found
  · cases found
  · have same : (s.written c n value).flashSize = s.flashSize := by
      rw [written]
      split <;> rfl
    exact end_of_eraseRange (same.trans fitted.flashSize) found

omit [DecidableEq π] in
theorem end_of_programs {s : Stm32Flash π} (fitted : s.Fitted) {sec : SecState}
    {addr n offset : Word} (found : s.programs sec addr n = some offset) :
    offset.toNat + n.toNat ≤ 0x200000 := by
  obtain ⟨inside, sized⟩ := sized_of_programs found
  have small := sized.toNat_le.2
  have low : offset.toNat < 0x200000 := by
    rw [programs] at found
    split at found
    · cases found
    have here := (Option.filter_eq_some_iff.mp found).1
    rw [offsetOf, fitted.baseS, fitted.baseNs, fitted.flashSize] at here
    split at here
    · rename_i within
      cases here
      have first := BitVec.le_def.mp within.1
      have last := BitVec.lt_def.mp within.2
      change 0x0C000000 ≤ addr.toNat at first
      change addr.toNat < 0x0C200000 at last
      rw [BitVec.toNat_sub_of_le within.1]
      change addr.toNat - 0x0C000000 < _
      omega
    split at here
    · rename_i within
      cases here
      have first := BitVec.le_def.mp within.1
      have last := BitVec.lt_def.mp within.2
      change 0x08000000 ≤ addr.toNat at first
      change addr.toNat < 0x08200000 at last
      rw [BitVec.toNat_sub_of_le within.1]
      change addr.toNat - 0x08000000 < _
      omega
    · cases here
  have inside := BitVec.le_def.mp inside
  rw [fitted.flashSize, BitVec.toNat_add] at inside
  change _ ≤ 0x200000 at inside
  omega

end Stm32Flash

end M33mu
