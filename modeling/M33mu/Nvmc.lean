import M33mu.FlashImages

namespace M33mu

open Lib

/-- `nvmc_state`, over the flash that is bound to it; `regs` is by `offset / 4`. -/
structure Nvmc (π : Type u) where
  regs : Word → Word
  flash : Word → Byte
  flashSize : Word
  baseS : Word
  baseNs : Word
  persist : FlashPersist π
  files : π → List Byte

namespace Nvmc

def baseNonsecure : Word := 0x40039000

def baseSecure : Word := 0x50039000

def size : Word := 0x1000

def config : Word := 0x504

def erasepage : Word := 0x508

def eraseall : Word := 0x50C

def confignsOffset : Word := 0x584

def pageSize : Word := 0x1000

variable {π : Type u}

def reg (s : Nvmc π) (offset : Word) : Word := s.regs (offset / 4)

def wen (s : Nvmc π) : Word :=
  let wen := s.reg config &&& 0x7
  if wen = 0 then s.reg confignsOffset &&& 0x3 else wen

def aliasOf (s : Nvmc π) (addr : Word) : Word := if s.baseS ≤ addr then s.baseS else s.baseNs

/-- `apply_write`. -/
def applyWrite (cur offsetInReg n value : Word) : Word :=
  let shift := (offsetInReg * 8).toNat
  let mask : Word := if n = 4 then 0xFFFFFFFF else 1 <<< (n * 8).toNat - 1
  cur &&& ~~~(mask <<< shift) ||| (value &&& mask) <<< shift

/-- What `nvmc_erase_page` erases: the alias, and the offset of the page in it. -/
def pageOf (s : Nvmc π) (addr : Word) : Option (Word × Word) :=
  let base := s.aliasOf addr
  if addr < base then none
  else
    let offset := addr - base
    if s.flashSize ≤ offset then none
    else
      let page := offset / pageSize * pageSize
      if s.flashSize < page + pageSize then none else some (base, page)

section

variable [DecidableEq π]

def persistFlush (s : Nvmc π) (addr n : Word) : Nvmc π :=
  { s with files := s.persist.flush s.flash s.files addr n }

/-- `nvmc_write_cb`: programs clear bits. -/
def writeCb (s : Nvmc π) (addr n value : Word) : Bool × Nvmc π :=
  if s.wen ≠ 1 then (false, s)
  else
    let base := s.aliasOf addr
    if addr < base then (false, s)
    else
      let offset := addr - base
      if s.flashSize < offset + n then (false, s)
      else
        match (Memmap.readBufLe s.flash offset n).bind fun cur =>
          Memmap.writeBufLe s.flash offset n (cur &&& value) with
        | none => (false, s)
        | some flash => (true, { s with flash := flash }.persistFlush addr n)

/-- `nvmc_erase_all`. -/
def eraseAll (s : Nvmc π) : Nvmc π :=
  { s with flash := Stm32Flash.fill s.flash 0 s.flashSize }.persistFlush s.baseNs s.flashSize

/-- `nvmc_erase_page`. -/
def erasePage (s : Nvmc π) (addr : Word) : Nvmc π :=
  match s.pageOf addr with
  | none => s
  | some (base, page) =>
    { s with flash := Stm32Flash.fill s.flash page pageSize }.persistFlush (base + page) pageSize

/-- `nvmc_write`. -/
def write (s : Nvmc π) (offset n value : Word) : Bool × Nvmc π :=
  if n = 0 ∨ 4 < n then (false, s)
  else if size < offset + n then (false, s)
  else if offset = eraseall ∧ n = 4 then
    (true, if s.wen = 2 ∧ value &&& 1 ≠ 0 then s.eraseAll else s)
  else if offset = erasepage ∧ n = 4 then
    (true, if s.wen = 2 then s.erasePage value else s)
  else
    let put := applyWrite (s.regs (offset / 4)) (offset &&& 3) n value
    (true, { s with regs := Function.update s.regs (offset / 4) put })

end

def regOffset (addr : Word) : Option Word :=
  if baseNonsecure ≤ addr ∧ addr - baseNonsecure < size then some (addr - baseNonsecure)
  else if baseSecure ≤ addr ∧ addr - baseSecure < size then some (addr - baseSecure)
  else none

abbrev Op := Stm32Flash.Op

def step [DecidableEq π] (s : Nvmc π) : Op → Nvmc π
  | .write addr n value =>
    match regOffset addr with
    | some offset => (s.write offset n value).2
    | none => s
  | .store _ addr n value => (s.writeCb addr n value).2

def starts (s : Nvmc π) (addr n value : Word) : Option (Word × Word × Word) :=
  if s.wen ≠ 2 ∨ n ≠ 4 then none
  else if regOffset addr = some eraseall then
    if value &&& 1 ≠ 0 then some (s.baseNs, 0, s.flashSize) else none
  else if regOffset addr = some erasepage then
    (s.pageOf value).map fun (base, page) => (base, page, pageSize)
  else none

def programs (s : Nvmc π) (addr n : Word) : Option Word :=
  if s.wen = 1 ∧ s.aliasOf addr ≤ addr ∧ addr - s.aliasOf addr + n ≤ s.flashSize ∧ Sized n then
    some (addr - s.aliasOf addr)
  else none

def alters (s : Nvmc π) : Op → Word → Prop
  | .write addr n value, a =>
    ∃ x ∈ s.starts addr n value, Erases x.2 a ∧ s.flash a ≠ 0xFF
  | .store _ addr n value, a => ∃ offset ∈ s.programs addr n, ∃ i < n.toNat,
      a = offset + BitVec.ofNat 32 i ∧ s.flash a &&& (value >>> (8 * i)).setWidth 8 ≠ s.flash a

def flushes (s : Nvmc π) : Op → Option (Word × Word)
  | .write addr n value => (s.starts addr n value).map fun x => (x.1 + x.2.1, x.2.2)
  | .store _ addr n _ => (s.programs addr n).map fun _ => (addr, n)

end Nvmc

theorem Memmap.byte_of_readBufLe {buf : Word → Byte} {off n v : Word} (sized : Sized n)
    (read : readBufLe buf off n = some v) {i : Nat} (low : i < n.toNat) :
    (v >>> (8 * i)).setWidth 8 = buf (off + BitVec.ofNat 32 i) := by
  have zero : off + BitVec.ofNat 32 0 = off := BitVec.add_zero off
  refine BitVec.eq_of_getLsbD_eq fun j hj => ?_
  rcases sized with rfl | rfl | rfl
  · cases read
    obtain rfl : i = 0 := Nat.lt_one_iff.mp low
    rw [zero, BitVec.getLsbD_setWidth, BitVec.getLsbD_ushiftRight, BitVec.getLsbD_setWidth]
    grind
  · cases read
    have small : i < 2 := low
    obtain rfl | rfl : i = 0 ∨ i = 1 := by omega
    all_goals
      simp only [zero, BitVec.getLsbD_setWidth, BitVec.getLsbD_ushiftRight, BitVec.getLsbD_append]
      grind
  · cases read
    have small : i < 4 := low
    obtain rfl | rfl | rfl | rfl : i = 0 ∨ i = 1 ∨ i = 2 ∨ i = 3 := by omega
    all_goals
      simp only [zero, BitVec.getLsbD_setWidth, BitVec.getLsbD_ushiftRight, BitVec.getLsbD_append]
      grind

namespace Nvmc

variable {π : Type u}

def bound (s : Nvmc π) : FlashPersist π × Word × Word × Word :=
  (s.persist, s.flashSize, s.baseS, s.baseNs)

section

variable [DecidableEq π]

structure EraseOf (s t : Nvmc π) (x : Option (Word × Word × Word)) : Prop where
  flash : t.flash = Stm32Flash.filled s.flash (x.map (·.2))
  files : t.files = s.persist.flushed t.flash s.files (x.map fun x => (x.1 + x.2.1, x.2.2))
  bound : t.bound = s.bound

theorem eraseOf_self (s : Nvmc π) : s.EraseOf s none := ⟨rfl, rfl, rfl⟩

theorem eraseOf_eraseAll (s : Nvmc π) :
    s.EraseOf s.eraseAll (some (s.baseNs, 0, s.flashSize)) :=
  ⟨rfl, congrArg (fun addr => s.persist.flush _ s.files addr s.flashSize)
    (BitVec.add_zero s.baseNs).symm, rfl⟩

theorem eraseOf_erasePage (s : Nvmc π) (addr : Word) : s.EraseOf (s.erasePage addr)
    ((s.pageOf addr).map fun (base, page) => (base, page, pageSize)) := by
  rw [erasePage]
  cases s.pageOf addr with
  | none => exact s.eraseOf_self
  | some x => exact ⟨rfl, rfl, rfl⟩

theorem eraseOf_other (s : Nvmc π) {offset n : Word} (value : Word)
    (all : ¬ (offset = eraseall ∧ n = 4)) (page : ¬ (offset = erasepage ∧ n = 4)) :
    s.EraseOf (s.write offset n value).2 none := by
  rw [write]
  split
  · exact s.eraseOf_self
  split
  · exact s.eraseOf_self
  · exact ⟨rfl, rfl, rfl⟩

theorem eraseOf_write (s : Nvmc π) (addr n value : Word) :
    s.EraseOf (s.step (.write addr n value)) (s.starts addr n value) := by
  rw [step, starts]
  cases here : regOffset addr with
  | none =>
    rw [if_neg (show ¬ none = some eraseall from nofun),
      if_neg (show ¬ none = some erasepage from nofun), ite_self]
    exact s.eraseOf_self
  | some off =>
    dsimp only
    simp only [Option.some.injEq]
    by_cases four : n = 4
    · subst four
      by_cases all : off = eraseall
      · subst all
        rw [write, if_neg (show ¬ ((4 : Word) = 0 ∨ (4 : Word) < 4) by decide),
          if_neg (show ¬ size < eraseall + 4 by decide), if_pos ⟨rfl, rfl⟩]
        by_cases enabled : s.wen = 2
        · by_cases set : value &&& 1 ≠ 0
          · rw [if_pos ⟨enabled, set⟩, if_neg (by rw [enabled]; decide), if_pos rfl, if_pos set]
            exact s.eraseOf_eraseAll
          · rw [if_neg fun both => set both.2, if_neg (by rw [enabled]; decide), if_pos rfl,
              if_neg set]
            exact s.eraseOf_self
        · rw [if_neg fun both => enabled both.1, if_pos (.inl enabled)]
          exact s.eraseOf_self
      by_cases page : off = erasepage
      · subst page
        rw [write, if_neg (show ¬ ((4 : Word) = 0 ∨ (4 : Word) < 4) by decide),
          if_neg (show ¬ size < erasepage + 4 by decide), if_neg fun both => all both.1,
          if_pos ⟨rfl, rfl⟩]
        by_cases enabled : s.wen = 2
        · rw [if_pos enabled, if_neg (by rw [enabled]; decide), if_neg all, if_pos rfl]
          exact s.eraseOf_erasePage value
        · rw [if_neg enabled, if_pos (.inl enabled)]
          exact s.eraseOf_self
      · rw [if_neg all, if_neg page, ite_self]
        exact s.eraseOf_other value (fun both => all both.1) fun both => page both.1
    · rw [if_pos (.inr four)]
      exact s.eraseOf_other value (fun both => four both.2) fun both => four both.2

theorem writeCb_snd (s : Nvmc π) (addr n value : Word) :
    (s.writeCb addr n value).2 =
      match s.programs addr n with
      | some offset =>
        let next := (Memmap.readBufLe s.flash offset n).getD 0 &&& value
        { s with flash := Memmap.putBytes s.flash offset next n.toNat }.persistFlush addr n
      | none => s := by
  rw [writeCb, programs]
  by_cases enabled : s.wen = 1
  swap
  · rw [if_pos enabled, if_neg fun all => enabled all.1]
  rw [if_neg (not_not.mpr enabled)]
  dsimp only
  by_cases below : addr < s.aliasOf addr
  · rw [if_pos below, if_neg fun all => absurd below (BitVec.not_lt.mpr all.2.1)]
  rw [if_neg below]
  by_cases outside : s.flashSize < addr - s.aliasOf addr + n
  · rw [if_pos outside, if_neg fun all => absurd outside (BitVec.not_lt.mpr all.2.2.1)]
  rw [if_neg outside]
  by_cases sized : Sized n
  · obtain ⟨cur, read⟩ := Memmap.exists_readBufLe sized s.flash (addr - s.aliasOf addr)
    rw [if_pos ⟨enabled, BitVec.not_lt.mp below, BitVec.not_lt.mp outside, sized⟩]
    dsimp only
    rw [read, Option.bind_some, Memmap.writeBufLe_of_sized sized]
    rfl
  · have refused (v : Word) : Memmap.writeBufLe s.flash (addr - s.aliasOf addr) n v = none := by
      rw [Sized, not_or, not_or] at sized
      rw [Memmap.writeBufLe, if_neg sized.2.2, if_neg sized.2.1, if_neg sized.1]
    rw [if_neg fun all => sized all.2.2.2]
    cases Memmap.readBufLe s.flash (addr - s.aliasOf addr) n with
    | none => rfl
    | some cur =>
      rw [Option.bind_some, refused]

theorem bound_step (s : Nvmc π) (op : Op) : (s.step op).bound = s.bound := by
  cases op with
  | write addr n value => exact (eraseOf_write s addr n value).bound
  | store sec addr n value =>
    rw [step, writeCb_snd]
    split <;> rfl

omit [DecidableEq π] in
theorem of_programs {s : Nvmc π} {addr n offset : Word} (found : s.programs addr n = some offset) :
    offset = addr - s.aliasOf addr ∧ s.aliasOf addr ≤ addr ∧ offset + n ≤ s.flashSize ∧
      Sized n := by
  rw [programs] at found
  split at found
  · rename_i all
    cases found
    exact ⟨rfl, all.2⟩
  · cases found

theorem flash_program {s : Nvmc π} {addr n offset : Word} (sec : SecState) (value : Word)
    (found : s.programs addr n = some offset) {i : Nat} (low : i < n.toNat) :
    (s.step (.store sec addr n value)).flash (offset + BitVec.ofNat 32 i) =
      s.flash (offset + BitVec.ofNat 32 i) &&& (value >>> (8 * i)).setWidth 8 := by
  have sized := (of_programs found).2.2.2
  obtain ⟨cur, read⟩ := Memmap.exists_readBufLe sized s.flash offset
  rw [step, writeCb_snd, found]
  refine (Memmap.putBytes_at sized.toNat_le.2 low).trans ?_
  rw [read, Option.getD_some, ← Memmap.byte_of_readBufLe sized read low]
  refine BitVec.eq_of_getLsbD_eq fun j _ => ?_
  simp only [BitVec.getLsbD_and, BitVec.getLsbD_setWidth, BitVec.getLsbD_ushiftRight]
  cases value.getLsbD (8 * i + j) <;> cases cur.getLsbD (8 * i + j) <;> simp

theorem altered_of_program {s : Nvmc π} {sec : SecState} {addr n value a : Word}
    (differs : (s.step (.store sec addr n value)).flash a ≠ s.flash a) :
    s.alters (.store sec addr n value) a := by
  have stored := congrArg flash (writeCb_snd s addr n value)
  cases found : s.programs addr n with
  | none =>
    rw [found] at stored
    exact absurd (congrFun stored a) differs
  | some offset =>
    rw [found] at stored
    have put : (s.step (.store sec addr n value)).flash a = _ := congrFun stored a
    have sized := (of_programs found).2.2.2
    obtain ⟨i, low, rfl, -⟩ := Memmap.altered_of_writeBufLe
      (Memmap.writeBufLe_of_sized sized ..) (put ▸ differs)
    rw [flash_program sec value found low] at differs
    exact ⟨offset, found, i, low, rfl, differs⟩

def persisted : PersistedFlash (Nvmc π) Op π where
  step := step
  flash := flash
  files := files
  persist := persist
  alters := alters
  flushes := flushes
  persist_step s op := congrArg (·.1) (bound_step s op)
  flash_step s op a differs := by
    cases op with
    | write addr n value =>
      rw [(eraseOf_write s addr n value).flash] at differs
      cases start : s.starts addr n value with
      | none =>
        rw [start] at differs
        exact absurd rfl differs
      | some x =>
        rw [start, Option.map_some, Stm32Flash.filled, Stm32Flash.fill] at differs
        split at differs
        · exact ⟨x, start, ‹_›, differs.symm⟩
        · exact absurd rfl differs
    | store sec addr n value => exact altered_of_program differs
  files_step s op := by
    cases op with
    | write addr n value => exact (eraseOf_write s addr n value).files
    | store sec addr n value =>
      rw [step, writeCb_snd, flushes]
      cases s.programs addr n <;> rfl

end

end Nvmc

end M33mu
