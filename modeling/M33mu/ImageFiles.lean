import M33mu.Nvmc

namespace M33mu

open Lib PersistedFlash

variable {π : Type u}

namespace FlashPersist

theorem enabled_build (flashSize : Word) (images : List (Option π × Word))
    (some' : (build flashSize images).ranges ≠ []) : (build flashSize images).enabled = true := by
  rw [build] at some' ⊢
  split
  · rename_i none'
    rw [if_pos none'] at some'
    exact absurd rfl some'
  · rfl

end FlashPersist

namespace Stm32Flash

/-- `mm_stm32h563_flash_bind`, of the flash of the target. -/
def bind (s : Stm32Flash π) (persist : FlashPersist π) : Stm32Flash π :=
  { s with
    flashSize := 0x200000
    baseS := 0x0C000000
    baseNs := 0x08000000
    persist := persist }

theorem fitted_bind (s : Stm32Flash π) (images : List (Option π × Word)) :
    (s.bind (.build 0x200000 images)).Fitted :=
  ⟨rfl, rfl, rfl, FlashPersist.enabled_build 0x200000 images⟩

variable [DecidableEq π]

theorem flushed_of_fitted {m : Recorded (Stm32Flash π)} (fitted : m.ctl.Fitted) (op : Op) :
    persisted.Flushed m op := by
  rintro r mem path here ⟨a, has, alters⟩
  have enabled := fitted.enabled (List.ne_nil_of_mem mem)
  cases op with
  | write addr n value =>
    obtain ⟨x, found, ⟨first, last⟩, -⟩ := alters
    have ends := end_of_starts fitted found
    refine persisted.lastFlushed_ne_none found enabled mem here has first ?_
    rw [BitVec.lt_def, BitVec.toNat_add]
    omega
  | store sec addr n value =>
    obtain ⟨offset, found, i, low, rfl, -⟩ := alters
    have ends := end_of_programs fitted found
    have flushes : persisted.flushes m.ctl (.store sec addr n value) = some (offset, n) :=
      congrArg (Option.map (·, n)) found
    refine persisted.lastFlushed_ne_none flushes enabled mem here has ?_ ?_
    · rw [BitVec.le_def, BitVec.toNat_add, BitVec.toNat_ofNat]
      omega
    · rw [BitVec.lt_def, BitVec.toNat_add, BitVec.toNat_add, BitVec.toNat_ofNat]
      omega

theorem throughout_holds {s : Stm32Flash π} {ops : List Op} (fitted : s.Fitted)
    (last : Along persisted.record persisted.Last (unchanged s) ops) :
    Throughout persisted.record persisted.Holds (unchanged s) ops := by
  refine persisted.throughout_holds ?_
  exact along_of_invariant (I := fun m => m.ctl.Fitted) (fun _ op fitted => fitted_step fitted op)
    (fun _ op fitted last => ⟨flushed_of_fitted fitted op, last⟩) fitted last

end Stm32Flash

namespace Nvmc

/-- `mm_nrf5340_flash_bind`, of the flash of the target. -/
def bind (s : Nvmc π) (persist : FlashPersist π) : Nvmc π :=
  { s with flashSize := 0x100000, baseS := 0x10000000, baseNs := 0, persist := persist }

structure Fitted (s : Nvmc π) : Prop where
  flashSize : s.flashSize = 0x100000
  baseS : s.baseS = 0x10000000
  baseNs : s.baseNs = 0
  enabled : s.persist.ranges ≠ [] → s.persist.enabled = true

theorem fitted_bind (s : Nvmc π) (images : List (Option π × Word)) :
    (s.bind (.build 0x100000 images)).Fitted :=
  ⟨rfl, rfl, rfl, FlashPersist.enabled_build 0x100000 images⟩

def Aliased (s : Nvmc π) : Op → Prop
  | .write addr _ value => regOffset addr = some erasepage ∧ s.baseS ≤ value
  | .store _ addr _ _ => s.baseS ≤ addr

def Spares (m : Recorded (Nvmc π)) (op : Op) : Prop :=
  m.ctl.Aliased op → ∀ r ∈ m.ctl.persist.ranges, r.path ≠ none → ∀ a, r.Has a →
    ¬ m.ctl.alters op a

variable [DecidableEq π]

theorem fitted_step {s : Nvmc π} (fitted : s.Fitted) (op : Op) : (s.step op).Fitted := by
  have same := bound_step s op
  have persist : (s.step op).persist = s.persist := congrArg (·.1) same
  exact ⟨(congrArg (·.2.1) same).trans fitted.flashSize,
    (congrArg (·.2.2.1) same).trans fitted.baseS, (congrArg (·.2.2.2) same).trans fitted.baseNs,
    persist ▸ fitted.enabled⟩

omit [DecidableEq π] in
theorem of_starts {s : Nvmc π} (fitted : s.Fitted) {addr n value : Word} {x : Word × Word × Word}
    (found : s.starts addr n value = some x) (near : ¬ s.Aliased (.write addr n value)) :
    x.1 = 0 ∧ x.2.1.toNat + x.2.2.toNat ≤ 0x100000 := by
  rw [starts] at found
  split at found
  · cases found
  split at found
  · split at found
    · cases found
      refine ⟨fitted.baseNs, ?_⟩
      rw [fitted.flashSize]
      exact Nat.le_of_eq (Nat.zero_add 0x100000)
    · cases found
  split at found
  · rename_i page
    have below : s.aliasOf value = 0 := by
      rw [aliasOf, if_neg fun above => near ⟨page, above⟩, fitted.baseNs]
    obtain ⟨y, paged, rfl⟩ := Option.map_eq_some_iff.mp found
    have whole : value - 0 = value := BitVec.sub_zero value
    rw [pageOf, below, whole] at paged
    dsimp only at paged
    split at paged
    · cases paged
    split at paged
    · cases paged
    split at paged
    · cases paged
    · rename_i inside fits
      cases paged
      refine ⟨rfl, ?_⟩
      have fits := BitVec.le_def.mp (BitVec.not_lt.mp fits)
      have low : (value / pageSize * pageSize).toNat ≤ value.toNat := by
        rw [BitVec.toNat_mul, BitVec.toNat_udiv]
        exact Nat.le_trans (Nat.mod_le _ _) (Nat.div_mul_le_self ..)
      have inside := BitVec.lt_def.mp (BitVec.not_le.mp inside)
      rw [fitted.flashSize] at inside
      rw [fitted.flashSize, BitVec.toNat_add] at fits
      change value.toNat < 0x100000 at inside
      change (_ + 0x1000) % 2 ^ 32 ≤ 0x100000 at fits
      change (value / pageSize * pageSize).toNat + 0x1000 ≤ 0x100000
      omega
  · cases found

theorem flushed_of_fitted {m : Recorded (Nvmc π)} (fitted : m.ctl.Fitted) {op : Op}
    (spares : Spares m op) : persisted.Flushed m op := by
  rintro r mem path here ⟨a, has, alters⟩
  have enabled := fitted.enabled (List.ne_nil_of_mem mem)
  have near : ¬ m.ctl.Aliased op := fun aliased =>
    spares aliased r mem (by rw [here]; exact nofun) a has alters
  cases op with
  | write addr n value =>
    obtain ⟨x, found, ⟨first, last⟩, -⟩ := alters
    obtain ⟨base, ends⟩ := of_starts fitted found near
    have flushes : persisted.flushes m.ctl (.write addr n value) = some (x.2.1, x.2.2) := by
      refine (congrArg (Option.map fun x => (x.1 + x.2.1, x.2.2)) found).trans ?_
      rw [Option.map_some, base]
      exact congrArg (fun addr => some (addr, x.2.2)) (BitVec.zero_add x.2.1)
    refine persisted.lastFlushed_ne_none flushes enabled mem here has first ?_
    rw [BitVec.lt_def, BitVec.toNat_add]
    omega
  | store sec addr n value =>
    obtain ⟨offset, found, i, low, rfl, -⟩ := alters
    have flushes : persisted.flushes m.ctl (.store sec addr n value) = some (addr, n) :=
      congrArg (Option.map fun _ => (addr, n)) found
    obtain ⟨eq, -, inside, sized⟩ := of_programs found
    have small := sized.toNat_le.2
    rw [aliasOf, if_neg (show ¬ m.ctl.baseS ≤ addr from near), fitted.baseNs] at eq
    obtain rfl : offset = addr := eq.trans (BitVec.sub_zero addr)
    have bound := BitVec.lt_def.mp (BitVec.not_le.mp near)
    rw [fitted.baseS] at bound
    change offset.toNat < 0x10000000 at bound
    refine persisted.lastFlushed_ne_none flushes enabled mem here has ?_ ?_
    · rw [BitVec.le_def, BitVec.toNat_add, BitVec.toNat_ofNat]
      omega
    · rw [BitVec.lt_def, BitVec.toNat_add, BitVec.toNat_add, BitVec.toNat_ofNat]
      omega

theorem throughout_holds {s : Nvmc π} {ops : List Op} (fitted : s.Fitted)
    (kept : Along persisted.record (fun m op => persisted.Last m op ∧ Spares m op) (unchanged s)
      ops) :
    Throughout persisted.record persisted.Holds (unchanged s) ops := by
  refine persisted.throughout_holds ?_
  exact along_of_invariant (I := fun m => m.ctl.Fitted) (fun _ op fitted => fitted_step fitted op)
    (fun _ op fitted kept => ⟨flushed_of_fitted fitted kept.2, kept.1⟩) fitted kept

end Nvmc

variable [DecidableEq π]

/-- In a run of either controller in which the last range that an operation writes to a file is the
one that has changed there, and nothing of an image is altered through the Secure alias of the
nRF5340, the files of the ranges that have changed hold the flash. -/
theorem image_files_hold (images : List (Option π × Word)) :
    (∀ (s : Stm32Flash π) (ops : List Stm32Flash.Op),
      Along Stm32Flash.persisted.record Stm32Flash.persisted.Last
          (unchanged (s.bind (.build 0x200000 images))) ops →
        Throughout Stm32Flash.persisted.record Stm32Flash.persisted.Holds
          (unchanged (s.bind (.build 0x200000 images))) ops) ∧
      ∀ (s : Nvmc π) (ops : List Nvmc.Op),
        Along Nvmc.persisted.record
            (fun m op => Nvmc.persisted.Last m op ∧ Nvmc.Spares m op)
            (unchanged (s.bind (.build 0x100000 images))) ops →
          Throughout Nvmc.persisted.record Nvmc.persisted.Holds
            (unchanged (s.bind (.build 0x100000 images))) ops :=
  ⟨fun s _ => Stm32Flash.throughout_holds (s.fitted_bind images),
    fun s _ => Nvmc.throughout_holds (s.fitted_bind images)⟩

def twoImages : List (Option Bool × Word) := [(some false, 0), (some true, 0x10000)]

def blankStm32 : Stm32Flash Bool :=
  .start (fun _ => 0xFF) 0x200000 0x0C000000 0x08000000 ⟨false, []⟩ false fun _ => []

def blankNrf (π : Type) : Nvmc π := ⟨fun _ => 0, fun _ => 0xFF, 0, 0, 0, ⟨false, []⟩, fun _ => []⟩

def storing : List Stm32Flash.Op :=
  [.write 0x40022004 4 Stm32Flash.key1, .write 0x40022004 4 Stm32Flash.key2,
    .write 0x40022028 4 Stm32Flash.crPg, .store .nonsecure 0x08000000 4 0x12345678]

theorem image_files_hold_apart :
    Throughout Stm32Flash.persisted.record Stm32Flash.persisted.Holds
        (unchanged (blankStm32.bind (.build 0x200000 twoImages))) storing ∧
      Throughout Nvmc.persisted.record Nvmc.persisted.Holds
        (unchanged ((blankNrf Bool).bind (.build 0x100000 twoImages)))
        [.write (Nvmc.baseNonsecure + Nvmc.config) 4 1, .store .nonsecure 0x100 4 0] := by
  have paths : (twoImages.map (·.1)).Nodup := by decide
  have apart (flashSize : Word) := FlashPersist.nodup_build flashSize paths
  refine ⟨(image_files_hold twoImages).1 _ storing
      (PersistedFlash.along_last_of_nodup _ (apart _) storing),
    (image_files_hold twoImages).2 _ _ ((PersistedFlash.along_last_of_nodup _ (apart _) _).and ?_)⟩
  refine ⟨fun aliased => absurd aliased.1 (by decide), fun aliased => ?_, trivial⟩
  exact absurd (show (0x10000000 : Word) ≤ 0x100 from aliased) (by decide)

theorem secure_program_not_saved :
    ¬ Throughout Nvmc.persisted.record Nvmc.persisted.Holds
      (unchanged ((blankNrf Unit).bind (.build 0x100000 [(some (), 0)])))
      [.write (Nvmc.baseNonsecure + Nvmc.config) 4 1, .store .secure 0x10000000 4 0] := by
  rintro ⟨-, -, holds⟩
  have changed := holds ⟨some (), 0, 0x100000⟩ (.head _) () rfl
    ⟨0, ⟨by decide, by decide⟩, .inr (by decide +kernel)⟩
  have size := congrArg List.length changed
  rw [PersistRange.bytes, List.length_map, List.length_range] at size
  exact absurd size (by decide +kernel)

end M33mu
