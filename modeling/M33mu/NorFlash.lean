import M33mu.Mpcbb
import M33mu.Nvmc
import M33mu.SystemReset

namespace M33mu

open Lib

inductive BusAccess
  | load (sec : SecState) (addr n : Word)
  | store (sec : SecState) (addr n value : Word)
  deriving DecidableEq, Repr

namespace Nvmc

variable {π : Type u}

def readyOffset : Word := 0x400

def readynext : Word := 0x408

/-- `read_slice`. -/
def readSlice (reg offsetInReg n : Word) : Word :=
  let mask : Word := if n = 4 then 0xFFFFFFFF else 1 <<< (n * 8).toNat - 1
  reg >>> (offsetInReg * 8).toNat &&& mask

/-- `nvmc_read`. -/
def read (s : Nvmc π) (offset n : Word) : Option Word :=
  if n = 0 ∨ 4 < n then none
  else if size < offset + n then none
  else if (offset = readyOffset ∨ offset = readynext) ∧ n = 4 then some 1
  else some (readSlice (s.regs (offset / 4)) (offset &&& 3) n)

/-- The controller and the map share the flash. -/
def put (w : World (Nvmc π)) (s : Nvmc π) : World (Nvmc π) :=
  { w with dev := s, map := { w.map with flash := some s.flash } }

def flashOffset (addr : Word) : Option Word :=
  if 0x10000000 ≤ addr ∧ addr < 0x10100000 then some (addr - 0x10000000)
  else if addr < 0x100000 then some addr
  else none

inductive Nor (s : Nvmc π) (a : Word) (b : Byte) : BusAccess → Prop
  | program {sec} {addr n value : Word} (enabled : s.wen = 1) (i : Nat) (low : i < n.toNat)
    (here : flashOffset (addr + BitVec.ofNat 32 i) = some a)
    (clears : b = s.flash a &&& (value >>> (8 * i)).setWidth 8) :
    Nor s a b (.store sec addr n value)
  | page {sec} {addr value : Word} (enabled : s.wen = 2) (reg : regOffset addr = some erasepage)
    (o : Word) (here : flashOffset value = some o) (same : a / pageSize = o / pageSize)
    (sets : b = 0xFF) : Nor s a b (.store sec addr 4 value)
  | all {sec} {addr value : Word} (enabled : s.wen = 2) (reg : regOffset addr = some eraseall)
    (start : value &&& 1 ≠ 0) (low : a < 0x100000) (sets : b = 0xFF) :
    Nor s a b (.store sec addr 4 value)

structure Bound (s : Nvmc π) : Prop where
  flashSize : s.flashSize = 0x100000
  baseS : s.baseS = 0x10000000
  baseNs : s.baseNs = 0

variable [DecidableEq π]

def region (base : Word) : MmioRegion (Nvmc π) where
  base := base
  size := size
  read offset n w := (w.dev.read offset n, w)
  write offset n value w :=
    let (ok, s) := w.dev.write offset n value
    (ok, put w s)

def env : Env (Nvmc π) where
  mmio := [region baseNonsecure, region baseSecure]
  blockSecure := none
  flashWrite := some fun _ addr n value w =>
    let (ok, s) := w.dev.writeCb addr n value
    (ok, put w s)
  quitOnFaults := false
  optGdb := false

def access (w : World (Nvmc π)) : BusAccess → World (Nvmc π)
  | .load sec addr n => (w.read env sec addr n).2
  | .store sec addr n value => (w.write env sec addr n value).2

structure Shown (w : World (Nvmc π)) : Prop where
  bound : w.dev.Bound
  flash : w.map.flash = some w.dev.flash
  windows : w.map.flashWindows = [(0x10000000, 0x100000), (0, 0x100000)]

def Steps (s s' : Nvmc π) : BusAccess → Prop
  | .load _ _ _ => s' = s
  | .store sec addr n value =>
    s' = s ∨ s' = s.step (.write addr n value) ∨ s' = s.step (.store sec addr n value)

variable {s : Nvmc π}

omit [DecidableEq π] in
theorem toNat_sub_aliasOf_lt (bound : s.Bound) (addr : Word) :
    (addr - s.aliasOf addr).toNat < 0xF0000000 := by
  rw [aliasOf, bound.baseS, bound.baseNs]
  by_cases secure : (0x10000000 : Word) ≤ addr
  · have high := BitVec.le_def.mp secure
    change 0x10000000 ≤ addr.toNat at high
    rw [if_pos secure, BitVec.toNat_sub]
    change (2 ^ 32 - 0x10000000 + addr.toNat) % 2 ^ 32 < 0xF0000000
    omega
  · have whole : addr - 0 = addr := BitVec.sub_zero addr
    have below := BitVec.lt_def.mp (BitVec.not_le.mp secure)
    change addr.toNat < 0x10000000 at below
    rw [if_neg secure, whole]
    omega

omit [DecidableEq π] in
theorem flashOffset_of_aliasOf (bound : s.Bound) {addr : Word} {i : Nat}
    (low : (addr - s.aliasOf addr).toNat + i < 0x100000) :
    flashOffset (addr + BitVec.ofNat 32 i) =
      some (addr - s.aliasOf addr + BitVec.ofNat 32 i) := by
  rw [aliasOf, bound.baseS, bound.baseNs] at low ⊢
  by_cases secure : (0x10000000 : Word) ≤ addr
  · rw [if_pos secure] at low ⊢
    have high := BitVec.le_def.mp secure
    change 0x10000000 ≤ addr.toNat at high
    rw [BitVec.toNat_sub] at low
    change (2 ^ 32 - 0x10000000 + addr.toNat) % 2 ^ 32 + i < 0x100000 at low
    have place : (addr + BitVec.ofNat 32 i).toNat = addr.toNat + i := by
      rw [BitVec.toNat_add, BitVec.toNat_ofNat]
      omega
    have inside : (0x10000000 : Word) ≤ addr + BitVec.ofNat 32 i ∧
        addr + BitVec.ofNat 32 i < (0x10100000 : Word) := by
      rw [BitVec.le_def, BitVec.lt_def, place]
      change 0x10000000 ≤ _ ∧ _ < 0x10100000
      omega
    rw [flashOffset, if_pos inside, BitVec.sub_add_comm]
  · have whole : addr - 0 = addr := BitVec.sub_zero addr
    rw [if_neg secure, whole] at low ⊢
    have place : (addr + BitVec.ofNat 32 i).toNat = addr.toNat + i := by
      rw [BitVec.toNat_add, BitVec.toNat_ofNat]
      omega
    have other : ¬ ((0x10000000 : Word) ≤ addr + BitVec.ofNat 32 i ∧
        addr + BitVec.ofNat 32 i < (0x10100000 : Word)) := by
      rw [BitVec.le_def, place]
      change ¬ (0x10000000 ≤ _ ∧ _)
      omega
    have inside : addr + BitVec.ofNat 32 i < (0x100000 : Word) := by
      rw [BitVec.lt_def, place]
      exact low
    rw [flashOffset, if_neg other, if_pos inside]

theorem nor_store (bound : s.Bound) (sec : SecState) (addr n value : Word) {a : Word}
    (differs : (s.step (.store sec addr n value)).flash a ≠ s.flash a) :
    Nor s a ((s.step (.store sec addr n value)).flash a) (.store sec addr n value) := by
  obtain ⟨offset, found, i, low, rfl, -⟩ := altered_of_program differs
  have enabled : s.wen = 1 := by
    by_contra none'
    rw [programs, if_neg fun all => none' all.1] at found
    cases found
  obtain ⟨rfl, above, fits, sized⟩ := of_programs found
  have few := sized.toNat_le.2
  have low' := toNat_sub_aliasOf_lt bound addr
  have ends := BitVec.le_def.mp fits
  rw [bound.flashSize, BitVec.toNat_add] at ends
  change (_ + n.toNat) % 2 ^ 32 ≤ 0x100000 at ends
  refine .program enabled i low (flashOffset_of_aliasOf bound ?_)
    (flash_program sec value found low)
  omega

omit [DecidableEq π] in
theorem of_pageOf (bound : s.Bound) {value base page : Word}
    (found : s.pageOf value = some (base, page)) :
    ∃ o, flashOffset value = some o ∧ page = o / pageSize * pageSize ∧
      page.toNat + 0x1000 ≤ 0x100000 := by
  rw [pageOf] at found
  dsimp only at found
  split at found
  · cases found
  split at found
  · cases found
  split at found
  · cases found
  rename_i inside fits
  cases found
  have inside := BitVec.lt_def.mp (BitVec.not_le.mp inside)
  have fits := BitVec.le_def.mp (BitVec.not_lt.mp fits)
  rw [bound.flashSize] at inside
  rw [bound.flashSize, BitVec.toNat_add] at fits
  change _ < 0x100000 at inside
  change (_ + 0x1000) % 2 ^ 32 ≤ 0x100000 at fits
  have zero (v : Word) : v + BitVec.ofNat 32 0 = v := BitVec.add_zero v
  have here := flashOffset_of_aliasOf bound (i := 0) inside
  rw [zero, zero] at here
  refine ⟨_, here, rfl, ?_⟩
  have low : (((value - s.aliasOf value) / pageSize) * pageSize).toNat ≤
      (value - s.aliasOf value).toNat := by
    rw [BitVec.toNat_mul, BitVec.toNat_udiv]
    exact Nat.le_trans (Nat.mod_le _ _) (Nat.div_mul_le_self ..)
  omega

theorem div_eq_of_page {a o page : Word} (eq : page = o / 0x1000 * 0x1000)
    (first : page.toNat ≤ a.toNat) (last : a.toNat < page.toNat + 0x1000) :
    a / 0x1000 = o / 0x1000 := by
  rw [eq, BitVec.toNat_mul, BitVec.toNat_udiv] at first last
  apply BitVec.eq_of_toNat_eq
  rw [BitVec.toNat_udiv, BitVec.toNat_udiv]
  change o.toNat / 0x1000 * 0x1000 % 2 ^ 32 ≤ a.toNat at first
  change a.toNat < o.toNat / 0x1000 * 0x1000 % 2 ^ 32 + 0x1000 at last
  change a.toNat / 0x1000 = o.toNat / 0x1000
  have small := o.isLt
  omega

theorem nor_write (bound : s.Bound) (sec : SecState) (addr n value : Word) {a : Word}
    (differs : (s.step (.write addr n value)).flash a ≠ s.flash a) :
    Nor s a ((s.step (.write addr n value)).flash a) (.store sec addr n value) := by
  have filled := (eraseOf_write s addr n value).flash
  rw [filled] at differs ⊢
  cases start : s.starts addr n value with
  | none =>
    rw [start] at differs
    exact absurd rfl differs
  | some x =>
    rw [start, Option.map_some, Stm32Flash.filled, Stm32Flash.fill] at differs
    split at differs
    swap
    · exact absurd rfl differs
    rename_i inside
    have sets : Stm32Flash.filled s.flash (some x.2) a = 0xFF := if_pos inside
    rw [starts] at start
    split at start
    · cases start
    rename_i selected
    obtain ⟨enabled, four⟩ := not_or.mp selected
    obtain rfl := not_not.mp four
    split at start
    · rename_i all
      split at start
      · rename_i set
        cases start
        refine .all (not_not.mp enabled) all set ?_ sets
        have low := inside.2
        rw [bound.flashSize] at low
        rw [BitVec.lt_def]
        exact Nat.lt_of_lt_of_eq low (Nat.zero_add 0x100000)
      · cases start
    split at start
    · rename_i page
      obtain ⟨y, paged, rfl⟩ := Option.map_eq_some_iff.mp start
      obtain ⟨o, here, eq, ends⟩ := of_pageOf bound paged
      exact .page (not_not.mp enabled) page o here
        (div_eq_of_page eq (BitVec.le_def.mp inside.1) inside.2) sets
    · cases start

structure Accessed (w w' : World (Nvmc π)) (sec : SecState) (addr n value : Word) : Prop where
  dev : w'.dev = w.dev ∨ w'.dev = w.dev.step (.write addr n value) ∨
    w'.dev = w.dev.step (.store sec addr n value)
  flash : w'.map.flash = some w'.dev.flash
  windows : w'.map.flashWindows = w.map.flashWindows

theorem exists_region {addr : Word} {r : MmioRegion (Nvmc π)}
    (found : World.busFind env addr = some r) :
    ∃ base, r = region base ∧ regOffset addr = some (addr - base) := by
  have covers (base : Word) : (decide ((region (π := π) base).base ≤ addr) &&
      decide (addr - (region (π := π) base).base < (region (π := π) base).size)) = true ↔
      base ≤ addr ∧ addr - base < size := by
    rw [Bool.and_eq_true, decide_eq_true_iff, decide_eq_true_iff]
    rfl
  rw [World.busFind, env, List.find?_cons, List.find?_cons, List.find?_nil] at found
  split at found
  · rename_i here
    cases found
    exact ⟨baseNonsecure, rfl, if_pos ((covers baseNonsecure).mp here)⟩
  split at found
  · rename_i _ other _ here
    cases found
    refine ⟨baseSecure, rfl, ?_⟩
    rw [regOffset, if_neg, if_pos ((covers baseSecure).mp here)]
    exact fun all => Bool.false_ne_true (other.symm.trans ((covers baseNonsecure).mpr all))
  · cases found

theorem accessed_store (w : World (Nvmc π)) (shown : Shown w) (sec : SecState)
    (addr n value : Word) : Accessed w (w.write env sec addr n value).2 sec addr n value := by
  rw [World.write, World.interceptOk_eq]
  generalize World.verdict env w.map w.dev w.scs .write sec addr n = v
  dsimp only
  split
  · exact ⟨.inl rfl, shown.flash, rfl⟩
  split
  · rename_i f given
    cases given
    split
    · exact ⟨.inr (.inr rfl), rfl, rfl⟩
    rw [World.writeRamOrBus]
    cases ram : Memmap.writeRam w.map addr n value with
    | some m =>
      rw [Memmap.writeRam] at ram
      obtain ⟨buf, -, ram⟩ := Option.bind_eq_some_iff.mp ram
      obtain ⟨off, -, ram⟩ := Option.bind_eq_some_iff.mp ram
      obtain ⟨buf', -, rfl⟩ := Option.map_eq_some_iff.mp ram
      exact ⟨.inl rfl, shown.flash, rfl⟩
    | none =>
      dsimp only
      rw [World.busWrite]
      cases found : World.busFind (δ := Nvmc π) env addr with
      | none => exact ⟨.inl rfl, shown.flash, rfl⟩
      | some r =>
        obtain ⟨base, rfl, reg⟩ := exists_region found
        refine ⟨.inr (.inl ?_), rfl, rfl⟩
        rw [step, reg]
        rfl
  · rename_i none'
    cases none'

theorem load_same (w : World (Nvmc π)) (sec : SecState) (addr n : Word) :
    (w.read env sec addr n).2.dev = w.dev ∧ (w.read env sec addr n).2.map = w.map := by
  rw [World.read, World.interceptOk_eq]
  generalize World.verdict env w.map w.dev w.scs .read sec addr n = v
  dsimp only
  split
  · exact ⟨rfl, rfl⟩
  split
  · exact ⟨rfl, rfl⟩
  rw [World.busRead]
  cases found : World.busFind (δ := Nvmc π) env addr with
  | none => exact ⟨rfl, rfl⟩
  | some r =>
    obtain ⟨base, rfl, -⟩ := exists_region found
    exact ⟨rfl, rfl⟩

def ReadsAlike (w : World (Nvmc π)) : Prop :=
  ∀ (sec : SecState) (o n : Word), Sized n → o.toNat + n.toNat ≤ 0x100000 →
    ∀ addr, addr = o ∨ addr = 0x10000000 + o →
      (w.interceptOk env .read sec addr n).1 = true →
      (w.read env sec addr n).1 = Memmap.readBufLe w.dev.flash o n

omit [DecidableEq π] in
theorem flashOffsets_eq {w : World (Nvmc π)} (shown : Shown w) {o n addr : Word}
    (ends : o.toNat + n.toNat ≤ 0x100000) (alias' : addr = o ∨ addr = 0x10000000 + o) :
    (w.map.flashOffsets addr n).head? = some o := by
  have offset (base : Word) : Memmap.offsetIn base 0x100000 addr n =
      if base ≤ addr ∧ addr - base + n ≤ (0x100000 : Word) then some (addr - base) else none := rfl
  rw [Memmap.flashOffsets, shown.windows, List.filterMap_cons, List.filterMap_cons,
    List.filterMap_nil]
  dsimp only
  rw [offset, offset]
  have fits : o + n ≤ (0x100000 : Word) := by
    rw [BitVec.le_def, BitVec.toNat_add]
    change _ ≤ 0x100000
    omega
  rcases alias' with rfl | rfl
  · have low : ¬ ((0x10000000 : Word) ≤ addr ∧ addr - 0x10000000 + n ≤ (0x100000 : Word)) := by
      rw [BitVec.le_def]
      change ¬ (0x10000000 ≤ _ ∧ _)
      omega
    have whole : addr - 0 = addr := BitVec.sub_zero addr
    rw [if_neg low, whole, if_pos ⟨BitVec.le_def.mpr (Nat.zero_le _), fits⟩]
    rfl
  · have back : (0x10000000 : Word) + o - 0x10000000 = o := by
      rw [BitVec.add_comm, BitVec.add_sub_cancel]
    have high : (0x10000000 : Word) ≤ 0x10000000 + o := by
      rw [BitVec.le_def, BitVec.toNat_add]
      change 0x10000000 ≤ (0x10000000 + _) % 2 ^ 32
      omega
    rw [back, if_pos ⟨high, fits⟩]
    rfl

theorem readsAlike_of_shown {w : World (Nvmc π)} (shown : Shown w) : ReadsAlike w := by
  intro sec o n sized ends addr alias' granted
  obtain ⟨v, read⟩ := Memmap.exists_readBufLe sized w.dev.flash o
  have offsets := flashOffsets_eq shown ends alias'
  have flash : w.map.readFlash addr n = some v := by
    rw [Memmap.readFlash, shown.flash, Option.bind_some]
    cases all : w.map.flashOffsets addr n with
    | nil =>
      rw [all] at offsets
      cases offsets
    | cons first rest =>
      rw [all] at offsets
      cases offsets
      rw [List.findSome?_cons, read]
  rw [World.interceptOk_eq] at granted
  rw [World.read, World.interceptOk_eq, granted]
  dsimp only
  rw [flash, read]
  rfl

theorem bound_access {w : World (Nvmc π)} (shown : Shown w) (a : BusAccess) :
    Shown (access w a) := by
  cases a with
  | load sec addr n =>
    obtain ⟨dev, map⟩ := load_same w sec addr n
    rw [access]
    exact ⟨dev ▸ shown.bound, by rw [map, dev]; exact shown.flash, map ▸ shown.windows⟩
  | store sec addr n value =>
    obtain ⟨dev, flash, windows⟩ := accessed_store w shown sec addr n value
    have bound (op : Op) : (w.dev.step op).Bound := by
      have same := bound_step w.dev op
      exact ⟨(congrArg (·.2.1) same).trans shown.bound.flashSize,
        (congrArg (·.2.2.1) same).trans shown.bound.baseS,
        (congrArg (·.2.2.2) same).trans shown.bound.baseNs⟩
    refine ⟨?_, flash, windows.trans shown.windows⟩
    rcases dev with eq | eq | eq <;> rw [access, eq]
    · exact shown.bound
    · exact bound _
    · exact bound _

def Changes (w : World (Nvmc π)) (a : BusAccess) : Prop :=
  ∀ addr, (access w a).dev.flash addr ≠ w.dev.flash addr →
    Nor w.dev addr ((access w a).dev.flash addr) a

theorem changes_access {w : World (Nvmc π)} (shown : Shown w) (a : BusAccess) : Changes w a := by
  intro at' differs
  cases a with
  | load sec addr n =>
    rw [access, (load_same w sec addr n).1] at differs
    exact absurd rfl differs
  | store sec addr n value =>
    rw [access] at differs ⊢
    rcases (accessed_store w shown sec addr n value).dev with eq | eq | eq <;> rw [eq] at differs ⊢
    · exact absurd rfl differs
    · exact nor_write shown.bound sec addr n value differs
    · exact nor_store shown.bound sec addr n value differs

/-- In every run, a byte of the flash changes by a store that clears bits of it or by an erase, and
both aliases show what the flash has. -/
theorem nor_run {w : World (Nvmc π)} (shown : Shown w) (accesses : List BusAccess) :
    Throughout access ReadsAlike w accesses ∧ Along access Changes w accesses := by
  have always : Throughout access Shown w accesses ∧ Along access Changes w accesses :=
    throughout_and_along (P := fun _ _ => True)
      (fun _ a shown _ => ⟨bound_access shown a, changes_access shown a⟩) shown
      (along_of_forall fun _ _ => trivial)
  exact ⟨always.1.imp fun _ => readsAlike_of_shown, always.2⟩

def started : World (Nvmc Unit) :=
  { Board.configured Board.nrf5340 (fun _ => 0xFF) fun _ => 0 with
    dev := ⟨fun _ => 0, fun _ => 0xFF, 0x100000, 0x10000000, 0, ⟨false, []⟩, fun _ => []⟩ }

theorem nor_run_program :
    let accesses := [.store .secure 0x50039504 4 1, .store .secure 0x10000002 2 0x1234]
    Throughout access ReadsAlike started accesses ∧ Along access Changes started accesses :=
  nor_run ⟨⟨rfl, rfl, rfl⟩, rfl, rfl⟩ _

end Nvmc

end M33mu
