import M33mu.FlashImages
import M33mu.Lib.Patch

/-!
The stores to a sector of the STM32H563's flash that was erased. The flash is written once, and a
sector with anything in it takes no more.
-/

namespace M33mu

open Lib

structure FlashStore where
  through : SecState
  offset : Word
  n : Word
  value : Word

namespace FlashStore

structure Inside (first : Word) (x : FlashStore) : Prop where
  sized : Sized x.n
  starts : first.toNat ≤ x.offset.toNat
  ends : x.offset.toNat + x.n.toNat ≤ first.toNat + 0x2000

def Apart (x y : FlashStore) : Prop :=
  x.offset.toNat + x.n.toNat ≤ y.offset.toNat ∨ y.offset.toNat + y.n.toNat ≤ x.offset.toNat

def addr (x : FlashStore) : Word :=
  match x.through with
  | .secure => 0x0C000000 + x.offset
  | .nonsecure => 0x08000000 + x.offset

def byte (x : FlashStore) (k : Nat) : Byte := (x.value >>> (8 * k)).setWidth 8

def patch (x : FlashStore) : Patch Word Byte := fun a =>
  if x.offset.toNat ≤ a.toNat ∧ a.toNat < x.offset.toNat + x.n.toNat then
    some (x.byte (a.toNat - x.offset.toNat))
  else none

def isBlank (x : FlashStore) : Bool := (List.range x.n.toNat).all fun k => x.byte k = 0xFF

variable {x y : FlashStore} {first : Word}

theorem mem_patch {a : Word} {b : Byte} : b ∈ x.patch a ↔
    (x.offset.toNat ≤ a.toNat ∧ a.toNat < x.offset.toNat + x.n.toNat) ∧
      x.byte (a.toNat - x.offset.toNat) = b := by
  rw [patch, Option.mem_def, Option.ite_none_right_eq_some, Option.some_inj]

theorem sector_of_mem (inside : x.Inside first) {a : Word} {b : Byte} (has : b ∈ x.patch a) :
    first.toNat ≤ a.toNat ∧ a.toNat < first.toNat + 0x2000 := by
  obtain ⟨⟨above, below⟩, -⟩ := mem_patch.mp has
  have starts := inside.starts
  have ends := inside.ends
  omega

theorem patch_eq_none {a : Word} : x.patch a = none ↔
    ¬ (x.offset.toNat ≤ a.toNat ∧ a.toNat < x.offset.toNat + x.n.toNat) := by
  rw [patch, ite_eq_right_iff]
  exact forall_congr' fun _ => iff_of_false nofun id

theorem apart_patch (apart : x.Apart y) : x.patch.Apart y.patch := by
  intro a
  rw [patch_eq_none, patch_eq_none]
  rw [Apart] at apart
  omega

theorem toNat_offset_add (inside : x.Inside first) (low : first.toNat + 0x2000 ≤ 0x200000) {k : Nat}
    (below : k < x.n.toNat) : (x.offset + BitVec.ofNat 32 k).toNat = x.offset.toNat + k := by
  have last := inside.ends
  rw [BitVec.toNat_add, BitVec.toNat_ofNat]
  omega

theorem isBlank_iff (inside : x.Inside first) (low : first.toNat + 0x2000 ≤ 0x200000) :
    x.isBlank = true ↔ x.patch.Blank 0xFF := by
  rw [isBlank, List.all_eq_true]
  constructor
  · intro all a b has
    obtain ⟨⟨above, below⟩, rfl⟩ := mem_patch.mp has
    exact of_decide_eq_true (all (a.toNat - x.offset.toNat) (List.mem_range.mpr (by omega)))
  · intro blank k mem
    have below := List.mem_range.mp mem
    have place := toNat_offset_add inside low below
    refine decide_eq_true (blank (x.offset + BitVec.ofNat 32 k) _ (mem_patch.mpr ⟨by omega, ?_⟩))
    rw [place, Nat.add_sub_cancel_left]

theorem putBytes_eq (inside : x.Inside first) (low : first.toNat + 0x2000 ≤ 0x200000)
    (flash : Word → Byte) :
    Memmap.putBytes flash x.offset x.value x.n.toNat = x.patch.put flash := by
  funext a
  by_cases covered : x.offset.toNat ≤ a.toNat ∧ a.toNat < x.offset.toNat + x.n.toNat
  · have below : a.toNat - x.offset.toNat < x.n.toNat := by omega
    have place : x.offset + BitVec.ofNat 32 (a.toNat - x.offset.toNat) = a := by
      apply BitVec.eq_of_toNat_eq
      rw [toNat_offset_add inside low below]
      omega
    rw [Patch.put_of_mem (mem_patch.mpr ⟨covered, rfl⟩)]
    have stored : Memmap.putBytes flash x.offset x.value x.n.toNat
        (x.offset + BitVec.ofNat 32 (a.toNat - x.offset.toNat)) =
          (x.value >>> (8 * (a.toNat - x.offset.toNat))).setWidth 8 :=
      Memmap.putBytes_at inside.sized.toNat_le.2 below
    rwa [place] at stored
  · rw [Patch.put_of_none (patch_eq_none.mpr covered)]
    refine Memmap.putBytes_apart fun k below here => covered ?_
    rw [← here, toNat_offset_add inside low below]
    omega

end FlashStore

namespace Stm32Flash

variable {π : Type u}

structure WritesOnce (s : Stm32Flash π) : Prop where
  flashSize : s.flashSize = 0x200000
  baseS : s.baseS = 0x0C000000
  baseNs : s.baseNs = 0x08000000
  once : s.writeOnce = true

structure Sector (first : Word) : Prop where
  aligned : first.toNat % 0x2000 = 0
  low : first.toNat + 0x2000 ≤ 0x200000

def Erased (first : Word) (flash : Word → Byte) : Prop :=
  ∀ a : Word, first.toNat ≤ a.toNat → a.toNat < first.toNat + 0x2000 → flash a = 0xFF

variable {s : Stm32Flash π} {first : Word} {x : FlashStore} {c : SecState}

theorem WritesOnce.sectorSize (once : s.WritesOnce) : s.sectorSize = 0x2000 := by
  rw [Stm32Flash.sectorSize, once.flashSize]
  decide

theorem WritesOnce.offsetOf (once : s.WritesOnce) (sector : Sector first) (inside : x.Inside first) :
    s.offsetOf x.addr = some x.offset := by
  have low := sector.low
  have last := inside.ends
  have some' := inside.sized.toNat_le.1
  have back (base : Word) : some (base + x.offset - base) = some x.offset := by
    rw [BitVec.add_comm, BitVec.add_sub_cancel]
  rw [Stm32Flash.offsetOf, once.flashSize, once.baseS, once.baseNs, FlashStore.addr]
  cases x.through with
  | secure =>
    have place : ((0x0C000000 : Word) + x.offset).toNat = 0x0C000000 + x.offset.toNat := by
      rw [BitVec.toNat_add]
      change (0x0C000000 + _) % _ = _
      omega
    have here : (0x0C000000 : Word) ≤ 0x0C000000 + x.offset ∧
        0x0C000000 + x.offset < (0x0C000000 + 0x200000 : Word) := by
      rw [BitVec.le_def, BitVec.lt_def, place]
      change 0x0C000000 ≤ _ ∧ _ < 0x0C200000
      omega
    rw [if_pos here]
    exact back _
  | nonsecure =>
    have place : ((0x08000000 : Word) + x.offset).toNat = 0x08000000 + x.offset.toNat := by
      rw [BitVec.toNat_add]
      change (0x08000000 + _) % _ = _
      omega
    have other : ¬ ((0x0C000000 : Word) ≤ 0x08000000 + x.offset ∧
        0x08000000 + x.offset < (0x0C000000 + 0x200000 : Word)) := by
      rw [BitVec.le_def, place]
      change ¬ (0x0C000000 ≤ _ ∧ _)
      omega
    have here : (0x08000000 : Word) ≤ 0x08000000 + x.offset ∧
        0x08000000 + x.offset < (0x08000000 + 0x200000 : Word) := by
      rw [BitVec.le_def, BitVec.lt_def, place]
      change 0x08000000 ≤ _ ∧ _ < 0x08200000
      omega
    rw [if_neg other, if_pos here]
    exact back _

theorem sectorWritten_eq_false_iff (once : s.WritesOnce) (sector : Sector first)
    (inside : x.Inside first) : s.sectorWritten x.offset = false ↔ Erased first s.flash := by
  obtain ⟨aligned, low⟩ := sector
  have starts := inside.starts
  have ends := inside.ends
  have some' := inside.sized.toNat_le.1
  have base : x.offset / 0x2000 * 0x2000 = first := by
    apply BitVec.eq_of_toNat_eq
    rw [BitVec.toNat_mul, BitVec.toNat_udiv]
    change x.offset.toNat / 0x2000 * 0x2000 % _ = _
    omega
  have place {i : Nat} (below : i < 0x2000) :
      (first + BitVec.ofNat 32 i).toNat = first.toNat + i := by
    rw [BitVec.toNat_add, BitVec.toNat_ofNat]
    omega
  have inFlash {i : Nat} (below : i < 0x2000) :
      first + BitVec.ofNat 32 i < (0x200000 : Word) := by
    rw [BitVec.lt_def, place below]
    change _ < 0x200000
    omega
  rw [sectorWritten, once.sectorSize, once.flashSize, base, List.any_eq_false]
  constructor
  · intro all a above below
    have near : a.toNat - first.toNat < 0x2000 := by omega
    have here : first + BitVec.ofNat 32 (a.toNat - first.toNat) = a := by
      apply BitVec.eq_of_toNat_eq
      rw [place near]
      omega
    have blank := all _ (List.mem_range.mpr near)
    rw [decide_eq_true (inFlash near), here] at blank
    simpa using blank
  · intro erased i mem
    have near : i < 0x2000 := List.mem_range.mp mem
    rw [erased _ (by rw [place near]; omega) (by rw [place near]; omega)]
    simp

structure Ready (s : Stm32Flash π) (c : SecState) : Prop where
  once : s.WritesOnce
  unlocked : s.isUnlocked c = true
  pg : s.reg (cr c) &&& crPg ≠ 0

theorem programs_eq (ready : s.Ready c) (sector : Sector first) (inside : x.Inside first) :
    s.programs c x.addr x.n = if s.sectorWritten x.offset = true then none else some x.offset := by
  have ends := inside.ends
  have low := sector.low
  have fits : x.offset + x.n ≤ (0x200000 : Word) := by
    rw [BitVec.le_def, BitVec.toNat_add]
    change _ ≤ 0x200000
    omega
  have size : s.sectorSize ≠ 0 := by
    rw [ready.once.sectorSize]
    decide
  rw [programs, ready.once.offsetOf sector inside, ready.once.flashSize, if_neg (by decide),
    Option.filter_some]
  cases written : s.sectorWritten x.offset with
  | true =>
    rw [if_pos rfl, if_neg]
    intro all
    exact (of_decide_eq_true all).2.2.2.1 ⟨ready.once.once, size, rfl⟩
  | false =>
    rw [if_neg Bool.false_ne_true, if_pos]
    exact decide_eq_true ⟨fits, ready.unlocked, ready.pg, fun all => Bool.false_ne_true all.2.2, inside.sized⟩

variable [DecidableEq π]

theorem flash_store (ready : s.Ready c) (sector : Sector first) (inside : x.Inside first) :
    (s.step (.store c x.addr x.n x.value)).flash =
      if s.sectorWritten x.offset = true then s.flash else x.patch.put s.flash := by
  rw [step, writeCb_snd, programs_eq ready sector inside]
  cases s.sectorWritten x.offset with
  | true => rfl
  | false => exact x.putBytes_eq inside sector.low s.flash

theorem ready_store (ready : s.Ready c) (addr n value : Word) :
    (s.step (.store c addr n value)).Ready c := by
  have same := bound_step s (.store c addr n value)
  have control : (s.step (.store c addr n value)).reg (cr c) = s.reg (cr c) :=
    reg_cr_writeCb s c c addr n value
  have once : (s.step (.store c addr n value)).writeOnce = s.writeOnce := by
    rw [step, writeCb_snd]
    split <;> rfl
  exact ⟨⟨(congrArg (·.2.1) same).trans ready.once.flashSize,
    (congrArg (·.2.2.1) same).trans ready.once.baseS,
    (congrArg (·.2.2.2) same).trans ready.once.baseNs, once.trans ready.once.once⟩,
    (isUnlocked_congr control).trans ready.unlocked, control ▸ ready.pg⟩

def stores (c : SecState) (xs : List FlashStore) : List Op :=
  xs.map fun x => .store c x.addr x.n x.value

theorem run_written {xs : List FlashStore} (ready : s.Ready c) (sector : Sector first)
    (inside : ∀ x ∈ xs, x.Inside first) (written : ¬ Erased first s.flash) :
    (run step s (stores c xs)).flash = s.flash := by
  induction xs generalizing s with
  | nil => rfl
  | cons x xs ih =>
    obtain ⟨here, inside⟩ := List.forall_mem_cons.mp inside
    have refused : s.sectorWritten x.offset = true := eq_true_of_ne_false fun blank =>
      written ((sectorWritten_eq_false_iff ready.once sector here).mp blank)
    have kept := flash_store ready sector here
    rw [if_pos refused] at kept
    exact (ih (ready_store ready _ _ _) inside (kept ▸ written)).trans kept

theorem run_erased {xs : List FlashStore} (ready : s.Ready c) (sector : Sector first)
    (inside : ∀ x ∈ xs, x.Inside first) (erased : Erased first s.flash) :
    (run step s (stores c xs)).flash =
      Patch.once FlashStore.patch FlashStore.isBlank xs s.flash := by
  induction xs generalizing s with
  | nil => rfl
  | cons x xs ih =>
    obtain ⟨here, inside⟩ := List.forall_mem_cons.mp inside
    have blank : s.sectorWritten x.offset = false :=
      (sectorWritten_eq_false_iff ready.once sector here).mpr erased
    have put := flash_store ready sector here
    rw [blank, if_neg Bool.false_ne_true] at put
    have ready' := ready_store ready x.addr x.n x.value
    rw [Patch.once]
    cases nothing : x.isBlank with
    | true =>
      -- what it puts is there already
      have same : x.patch.put s.flash = s.flash := by
        funext a
        cases here' : x.patch a with
        | none => exact Patch.put_of_none here' s.flash
        | some b =>
          obtain ⟨above, below⟩ := FlashStore.sector_of_mem here here'
          rw [Patch.put_of_mem here', (x.isBlank_iff here sector.low).mp nothing a b here',
            erased a above below]
      rw [same] at put
      rw [if_pos rfl, ← put]
      exact ih ready' inside (put ▸ erased)
    | false =>
      rw [if_neg Bool.false_ne_true, ← put]
      refine run_written ready' sector inside fun erased' => ?_
      have blank' : x.patch.Blank 0xFF := fun a b has => by
        obtain ⟨above, below⟩ := FlashStore.sector_of_mem here has
        rw [← Patch.put_of_mem has s.flash, ← put]
        exact erased' a above below
      exact Bool.false_ne_true (nothing.symm.trans ((x.isBlank_iff here sector.low).mpr blank'))

def sectorOf (v : Word) : Word :=
  if v &&& crBksel ≠ 0 then (v &&& crSnbMask) >>> 6 * 0x2000 + 0x100000
  else (v &&& crSnbMask) >>> 6 * 0x2000

theorem sector_sectorOf (v : Word) : Sector (sectorOf v) := by
  have snb : ((v &&& crSnbMask) >>> 6).toNat ≤ 127 := by
    rw [BitVec.toNat_ushiftRight, BitVec.toNat_and, Nat.shiftRight_eq_div_pow]
    exact Nat.div_le_of_le_mul (Nat.le_trans Nat.and_le_right (by decide))
  have place : ((v &&& crSnbMask) >>> 6 * 0x2000).toNat =
      ((v &&& crSnbMask) >>> 6).toNat * 0x2000 := by
    rw [BitVec.toNat_mul]
    change _ * 0x2000 % _ = _
    omega
  rw [sectorOf]
  split
  · have place' : ((v &&& crSnbMask) >>> 6 * 0x2000 + 0x100000).toNat =
        ((v &&& crSnbMask) >>> 6).toNat * 0x2000 + 0x100000 := by
      rw [BitVec.toNat_add, place]
      change (_ + 0x100000) % _ = _
      omega
    exact ⟨by omega, by omega⟩
  · exact ⟨by omega, by omega⟩

structure ErasesSector (v : Word) : Prop where
  ser : v &&& crSer ≠ 0
  ber : v &&& crBer = 0
  strt : v &&& crStrt ≠ 0
  lock : v &&& crLock = 0

structure Programs (v : Word) : Prop where
  pg : v &&& crPg ≠ 0
  strt : v &&& crStrt = 0
  lock : v &&& crLock = 0

omit [DecidableEq π] in
theorem eraseRange_eq (once : s.WritesOnce) {v : Word} (erases : ErasesSector v) :
    s.eraseRange v = some (sectorOf v, 0x2000) := by
  have low := (sector_sectorOf v).low
  have first : (if (0x200000 : Word) / 2 ≠ 0 ∧ v &&& crBksel ≠ 0 then
      (v &&& crSnbMask) >>> 6 * 0x2000 + 0x200000 / 2
      else (v &&& crSnbMask) >>> 6 * 0x2000) = sectorOf v :=
    if_congr (and_iff_right (by decide)) rfl rfl
  have inside : ¬ (0x200000 : Word) ≤ sectorOf v := by
    rw [BitVec.le_def]
    change ¬ 0x200000 ≤ _
    omega
  have fits : ¬ (0x200000 : Word) < sectorOf v + 0x2000 := by
    rw [BitVec.lt_def, BitVec.toNat_add]
    change ¬ 0x200000 < (_ + 0x2000) % _
    omega
  rw [eraseRange, if_neg (not_not.mpr erases.ber), if_pos erases.ser, once.flashSize,
    once.sectorSize]
  dsimp only
  rw [first, if_neg inside, if_neg fits]

omit [DecidableEq π] in
theorem written_eq {v : Word} (lock : v &&& crLock = 0) :
    s.written c 4 v = s.setReg (cr c) v := if_neg (not_not.mpr lock)

theorem step_control {addr v : Word} (control : regOffset addr = some (cr c))
    (lock : v &&& crLock = 0) (unlocked : s.isUnlocked c = true) :
    s.step (.write addr 4 v) = if v &&& crStrt ≠ 0 then
        let t := (s.setReg (cr c) v).applyErase c
        t.setReg (cr c) (t.reg (cr c) &&& ~~~crStrt)
      else s.setReg (cr c) v := by
  have open' : ¬ (s.isUnlocked c = false ∧ v &&& crLock = 0) := fun all =>
    Bool.false_ne_true (all.1.symm.trans unlocked)
  have control' : s.step (.write addr 4 v) = s.writeControl c 4 v := by
    rw [step, control]
    exact congrArg (·.2) (write_cr s c (show ¬ ((4 : Word) = 0 ∨ 4 < (4 : Word)) by decide) v)
  rw [control', ← written_eq lock]
  exact if_neg open'

structure Cleared (s : Stm32Flash π) (c : SecState) (first : Word) : Prop where
  once : s.WritesOnce
  unlocked : s.isUnlocked c = true
  erased : Erased first s.flash

theorem cleared_erase (once : s.WritesOnce) (unlocked : s.isUnlocked c = true) {addr v : Word}
    (control : regOffset addr = some (cr c)) (erases : ErasesSector v) :
    (s.step (.write addr 4 v)).Cleared c (sectorOf v) := by
  let t := s.setReg (cr c) v
  have once' : t.WritesOnce := ⟨once.flashSize, once.baseS, once.baseNs, once.once⟩
  have reg : t.reg (cr c) = v := reg_setReg_self s (cr c) v
  have some' : ¬ (t.flashSize = 0 ∨ t.sectorSize = 0) := by
    rw [once'.flashSize, once'.sectorSize]
    decide
  have range : t.eraseRange (t.reg (cr c)) = some (sectorOf v, 0x2000) := by
    rw [reg]
    exact eraseRange_eq once' erases
  have erased := eraseOf_applyErase t c
  have applied : t.erased c = some (sectorOf v, 0x2000) := (if_neg some').trans range
  rw [applied] at erased
  have same := erased.bound
  have writes : (t.applyErase c).writeOnce = s.writeOnce := by
    rw [applyErase, if_neg some', range]
    rfl
  rw [step_control control erases.lock unlocked, if_pos erases.strt]
  refine ⟨⟨(congrArg (·.2.1) same).trans once.flashSize, (congrArg (·.2.2.1) same).trans once.baseS,
    (congrArg (·.2.2.2) same).trans once.baseNs, writes.trans once.once⟩, ?_, ?_⟩
  · have still : (t.applyErase c).reg (cr c) = v := (reg_cr_applyErase t c c).trans reg
    have clear : v &&& ~~~crStrt &&& crLock = 0 := by
      rw [BitVec.and_assoc, BitVec.and_comm (~~~crStrt), ← BitVec.and_assoc, erases.lock]
      exact BitVec.zero_and
    rw [isUnlocked, reg_setReg_self, still, clear]
    rfl
  · intro a above below
    exact (congrFun erased.flash a).trans (if_pos ⟨above, below⟩)

theorem ready_programs {first : Word} (cleared : s.Cleared c first) {addr v : Word}
    (control : regOffset addr = some (cr c)) (programs : Programs v) :
    (s.step (.write addr 4 v)).Ready c ∧ Erased first (s.step (.write addr 4 v)).flash := by
  obtain ⟨once, unlocked, erased⟩ := cleared
  have reg := reg_setReg_self s (cr c) v
  rw [step_control control programs.lock unlocked, if_neg (not_not.mpr programs.strt)]
  refine ⟨⟨⟨once.flashSize, once.baseS, once.baseNs, once.once⟩, ?_, ?_⟩, erased⟩
  · rw [isUnlocked, reg, programs.lock]
    rfl
  · rw [reg]
    exact programs.pg

theorem took_iff {first : Word} (ready : s.Ready c) (sector : Sector first)
    (erased : Erased first s.flash) {xs : List FlashStore} (inside : ∀ x ∈ xs, x.Inside first)
    (apart : xs.Pairwise FlashStore.Apart) :
    Patch.Took (xs.map FlashStore.patch) s.flash (run step s (stores c xs)).flash ↔
      xs.countP (!·.isBlank) ≤ 1 := by
  rw [run_erased ready sector inside erased]
  refine Patch.took_once_iff (fun x mem => x.isBlank_iff (inside x mem) sector.low)
    (apart.imp FlashStore.apart_patch) fun x mem a some' => ?_
  obtain ⟨b, has⟩ := Option.ne_none_iff_exists'.mp some'
  obtain ⟨above, below⟩ := FlashStore.sector_of_mem (inside x mem) has
  exact erased a above below

/-- After a sector is erased and PG is set, a list of stores to the sector, none over another,
takes effect exactly if at most one of them has anything to program. -/
theorem stores_take_effect_iff (s : Stm32Flash π) (once : s.WritesOnce) {c : SecState}
    (unlocked : s.isUnlocked c = true) {addr erase pg : Word}
    (control : regOffset addr = some (cr c)) (erases : ErasesSector erase)
    (programs : Programs pg) (xs : List FlashStore)
    (inside : ∀ x ∈ xs, x.Inside (sectorOf erase)) (apart : xs.Pairwise FlashStore.Apart) :
    let t := run step s [.write addr 4 erase, .write addr 4 pg]
    Patch.Took (xs.map FlashStore.patch) t.flash (run step t (stores c xs)).flash ↔
      xs.countP (!·.isBlank) ≤ 1 := by
  obtain ⟨ready, erased⟩ := ready_programs (cleared_erase once unlocked control erases) control
    programs
  exact took_iff ready (sector_sectorOf erase) erased inside apart

def opened : Stm32Flash Unit :=
  run step (start (fun _ => 0) 0x200000 0x0C000000 0x08000000 ⟨false, []⟩ true fun _ => [])
    [.write (base + keyr .nonsecure) 4 key1, .write (base + keyr .nonsecure) 4 key2]

theorem writesOnce_opened : opened.WritesOnce := ⟨rfl, rfl, rfl, rfl⟩

theorem isUnlocked_opened : opened.isUnlocked .nonsecure = true := by decide +kernel

theorem erasesSector_first : ErasesSector 0x24 := ⟨by decide, by decide, by decide, by decide⟩

theorem programs_pg : Programs 0x2 := ⟨by decide, by decide, by decide⟩

def twoWords (second : Word) : List FlashStore :=
  [⟨.nonsecure, 0, 4, 0x12345678⟩, ⟨.secure, 4, 4, second⟩]

theorem inside_twoWords (second : Word) :
    ∀ x ∈ twoWords second, x.Inside (sectorOf 0x24) := by
  refine List.forall_mem_cons.mpr ⟨?_, List.forall_mem_singleton.mpr ?_⟩
  · exact ⟨.inr (.inr rfl), by decide, by decide⟩
  · exact ⟨.inr (.inr rfl), show (sectorOf 0x24).toNat ≤ (4 : Word).toNat by decide,
      show (4 : Word).toNat + (4 : Word).toNat ≤ (sectorOf 0x24).toNat + 0x2000 by decide⟩

theorem apart_twoWords (second : Word) : (twoWords second).Pairwise FlashStore.Apart :=
  List.pairwise_pair.mpr (.inl
    (show (0 : Word).toNat + (4 : Word).toNat ≤ (4 : Word).toNat by decide))

theorem stores_take_effect_one :
    let t := run step opened
      [.write (base + cr .nonsecure) 4 0x24, .write (base + cr .nonsecure) 4 0x2]
    Patch.Took ((twoWords 0xFFFFFFFF).map FlashStore.patch) t.flash
      (run step t (stores .nonsecure (twoWords 0xFFFFFFFF))).flash :=
  (stores_take_effect_iff opened writesOnce_opened isUnlocked_opened (by decide)
    erasesSector_first programs_pg _ (inside_twoWords _) (apart_twoWords _)).mpr (by decide)

theorem second_word_ignored : ¬ ∀ (s : Stm32Flash Unit) (c : SecState) (addr erase pg : Word)
    (xs : List FlashStore), s.WritesOnce → s.isUnlocked c = true →
      regOffset addr = some (cr c) → ErasesSector erase → Programs pg →
      (∀ x ∈ xs, x.Inside (sectorOf erase)) → xs.Pairwise FlashStore.Apart →
      let t := run step s [.write addr 4 erase, .write addr 4 pg]
      Patch.Took (xs.map FlashStore.patch) t.flash (run step t (stores c xs)).flash := by
  intro all
  have control : regOffset (base + cr .nonsecure) = some (cr .nonsecure) := by decide
  have took := all opened .nonsecure _ 0x24 0x2 (twoWords 0) writesOnce_opened isUnlocked_opened
    control erasesSector_first programs_pg (inside_twoWords 0) (apart_twoWords 0)
  obtain ⟨ready, erased⟩ := ready_programs
    (cleared_erase writesOnce_opened isUnlocked_opened control erasesSector_first) control
    programs_pg
  exact absurd ((took_iff ready (sector_sectorOf 0x24) erased (inside_twoWords 0)
    (apart_twoWords 0)).mp took) (by decide)

end Stm32Flash

end M33mu
