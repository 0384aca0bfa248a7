import M33mu.Lib.Bits
import M33mu.ScsAccess

namespace M33mu

open Lib

namespace Nvic

/-- `n'` differs from `n` at most in the enable, pending, active and priority of interrupts that
are routed to Secure state. -/
structure NsEq (n n' : Nvic) : Prop where
  itns : n'.itnsMask = n.itnsMask
  enable : ∀ irq, n.irqTargetSec irq = .nonsecure →
    testBit n'.enableMask irq = testBit n.enableMask irq
  pending : ∀ irq, n.irqTargetSec irq = .nonsecure →
    testBit n'.pendingMask irq = testBit n.pendingMask irq
  active : ∀ irq, n.irqTargetSec irq = .nonsecure →
    testBit n'.activeMask irq = testBit n.activeMask irq
  priority : ∀ irq, n.irqTargetSec irq = .nonsecure → n'.priority irq = n.priority irq

/-- `n'` keeps the routing of `n` and the enable, pending and priority of its Secure-routed
interrupts. -/
structure KeepsSecure (n n' : Nvic) : Prop where
  itns : n'.itnsMask = n.itnsMask
  enable : ∀ irq, n.irqTargetSec irq = .secure →
    testBit n'.enableMask irq = testBit n.enableMask irq
  pending : ∀ irq, n.irqTargetSec irq = .secure →
    testBit n'.pendingMask irq = testBit n.pendingMask irq
  priority : ∀ irq, n.irqTargetSec irq = .secure → n'.priority irq = n.priority irq

theorem KeepsSecure.refl (n : Nvic) : n.KeepsSecure n :=
  ⟨rfl, fun _ _ => rfl, fun _ _ => rfl, fun _ _ => rfl⟩

theorem irqTargetSec_congr {n n' : Nvic} (h : n'.itnsMask = n.itnsMask) (irq : Irq) :
    n'.irqTargetSec irq = n.irqTargetSec irq := by
  simp only [irqTargetSec, h]

theorem KeepsSecure.trans {n n' n'' : Nvic} (h : n.KeepsSecure n') (h' : n'.KeepsSecure n'') :
    n.KeepsSecure n'' where
  itns := h'.itns.trans h.itns
  enable irq hs := (h'.enable irq (irqTargetSec_congr h.itns irq ▸ hs)).trans (h.enable irq hs)
  pending irq hs := (h'.pending irq (irqTargetSec_congr h.itns irq ▸ hs)).trans (h.pending irq hs)
  priority irq hs :=
    (h'.priority irq (irqTargetSec_congr h.itns irq ▸ hs)).trans (h.priority irq hs)

theorem irqTargetSec_eq_nonsecure {n : Nvic} {irq : Irq} :
    n.irqTargetSec irq = .nonsecure ↔ testBit n.itnsMask irq = true := by
  simp only [irqTargetSec]
  split <;> simp_all

theorem irqTargetSec_eq_secure {n : Nvic} {irq : Irq} :
    n.irqTargetSec irq = .secure ↔ testBit n.itnsMask irq = false := by
  simp only [irqTargetSec]
  split <;> simp_all

theorem bit_lt (irq : Irq) : bit irq < 32 := Nat.mod_lt _ (by decide)

def irqAt (idx : MaskWord) (i : Fin 32) : Irq :=
  ⟨32 * idx + i, by have := idx.isLt; have := i.isLt; unfold maxIrq; omega⟩

@[simp] theorem testBit_irqAt (arr : MaskWord → Word) (idx : MaskWord) (i : Fin 32) :
    testBit arr (irqAt idx i) = (arr idx).getLsbD i := by
  have hw : word (irqAt idx i) = idx := by
    apply Fin.ext
    simp only [word, irqAt]
    omega
  have hb : bit (irqAt idx i) = i := by
    simp only [bit, irqAt]
    omega
  simp only [testBit, hw, hb]

theorem testBit_update (arr : MaskWord → Word) (idx : MaskWord) (v : Word) (irq : Irq) :
    testBit (Function.update arr idx v) irq =
      if word irq = idx then v.getLsbD (bit irq) else testBit arr irq := by
  simp only [testBit, Function.update_apply]
  split <;> rfl

theorem testBit_setMasked (m arr : MaskWord → Word) (idx : MaskWord) (v : Word) (irq : Irq) :
    testBit (Function.update arr idx (arr idx ||| (v &&& m idx))) irq =
      (testBit arr irq || (decide (word irq = idx) && v.getLsbD (bit irq) && testBit m irq)) := by
  rw [testBit_update]
  split
  · rename_i h
    subst h
    simp [testBit]
  · rename_i h
    simp [h]

theorem testBit_clearMasked (m arr : MaskWord → Word) (idx : MaskWord) (v : Word) (irq : Irq) :
    testBit (Function.update arr idx (arr idx &&& ~~~(v &&& m idx))) irq =
      (testBit arr irq && !(decide (word irq = idx) && v.getLsbD (bit irq) && testBit m irq)) := by
  have hlt := bit_lt irq
  rw [testBit_update]
  split
  · rename_i h
    subst h
    simp only [testBit, BitVec.getLsbD_and, BitVec.getLsbD_not, hlt]
    simp
  · rename_i h
    simp [h]

theorem and_eq_and_of_nsEq {m f g : MaskWord → Word}
    (h : ∀ irq, testBit m irq = true → testBit g irq = testBit f irq) (idx : MaskWord) :
    g idx &&& m idx = f idx &&& m idx := by
  apply BitVec.eq_of_getLsbD_eq
  intro i hi
  have := h (irqAt idx ⟨i, hi⟩)
  simp only [testBit_irqAt] at this
  simp only [BitVec.getLsbD_and]
  cases hm : (m idx).getLsbD i with
  | false => simp
  | true => simp [this hm]

def iprTouches (offset size : Word) : List Nat :=
  let idx := (offset - 0x400).toNat
  if 0x400 ≤ offset ∧ offset < 0x500 then
    if size = 1 then [idx]
    else if size = 4 ∧ idx % 4 = 0 then [idx, idx + 1, idx + 2, idx + 3]
    else []
  else []

def NsByte (n : Nvic) (k : Nat) : Prop := ∀ h : k < maxIrq, n.irqTargetSec ⟨k, h⟩ = .nonsecure

theorem setPriorityAt_keepsSecure {n : Nvic} {k : Nat} (h : n.NsByte k) (p : Byte) :
    n.KeepsSecure (n.setPriorityAt k p) := by
  simp only [setPriorityAt]
  split
  · rename_i hk
    refine ⟨rfl, fun _ _ => rfl, fun _ _ => rfl, fun irq hs => ?_⟩
    have hne : irq ≠ ⟨k, hk⟩ := by
      intro heq
      rw [heq, h hk] at hs
      cases hs
    simp [hne]
  · exact .refl n

@[simp] theorem setPriorityAt_itnsMask (n : Nvic) (k : Nat) (p : Byte) :
    (n.setPriorityAt k p).itnsMask = n.itnsMask := by
  simp only [setPriorityAt]
  split <;> rfl

theorem NsByte.congr {n n' : Nvic} (hn : n'.itnsMask = n.itnsMask) {k : Nat} (h : n.NsByte k) :
    n'.NsByte k := fun hk => (irqTargetSec_congr hn _).trans (h hk)

theorem iprWrite_keepsSecure {n : Nvic} {offset size : Word}
    (hr : 0x400 ≤ offset ∧ offset < 0x500) (h : ∀ k ∈ iprTouches offset size, n.NsByte k)
    (value : Word) : n.KeepsSecure (n.iprWrite offset size value) := by
  simp only [iprTouches, hr, and_self, if_true] at h
  simp only [iprWrite]
  split
  · rename_i hs
    simp only [hs, if_true, List.mem_singleton, forall_eq] at h
    exact setPriorityAt_keepsSecure h _
  · rename_i hs
    split
    · rename_i h4
      rw [if_neg hs, if_pos h4] at h
      simp only [List.mem_cons, List.not_mem_nil, or_false, forall_eq_or_imp, forall_eq] at h
      obtain ⟨h0, h1, h2, h3⟩ := h
      have k0 := setPriorityAt_keepsSecure h0 (byteOf value 0)
      have k1 := k0.trans (setPriorityAt_keepsSecure (h1.congr k0.itns) (byteOf value 1))
      have k2 := k1.trans (setPriorityAt_keepsSecure (h2.congr k1.itns) (byteOf value 2))
      exact k2.trans (setPriorityAt_keepsSecure (h3.congr k2.itns) (byteOf value 3))
    · exact .refl n

theorem priorityAt_of_nsEq {n n' : Nvic} (h : n.NsEq n') {k : Nat} (hk : n.NsByte k) :
    n'.priorityAt k = n.priorityAt k := by
  simp only [priorityAt]
  split
  · rename_i hlt
    exact h.priority _ (hk hlt)
  · rfl

theorem iprRead_of_nsEq {n n' : Nvic} (h : n.NsEq n') {offset size : Word}
    (hr : 0x400 ≤ offset ∧ offset < 0x500) (hb : ∀ k ∈ iprTouches offset size, n.NsByte k) :
    n'.iprRead offset size = n.iprRead offset size := by
  simp only [iprTouches, hr, and_self, if_true] at hb
  simp only [iprRead]
  by_cases hs : size = 1
  · simp only [hs, if_true, List.mem_singleton, forall_eq] at hb ⊢
    rw [priorityAt_of_nsEq h hb]
  · simp only [if_neg hs] at hb ⊢
    by_cases h4 : size = 4 ∧ (offset - 0x400).toNat % 4 = 0
    · rw [if_pos h4] at hb
      rw [if_pos h4, if_pos h4]
      simp only [List.mem_cons, List.not_mem_nil, or_false, forall_eq_or_imp, forall_eq] at hb
      obtain ⟨h0, h1, h2, h3⟩ := hb
      rw [priorityAt_of_nsEq h h0, priorityAt_of_nsEq h h1, priorityAt_of_nsEq h h2,
        priorityAt_of_nsEq h h3]
    · rw [if_neg h4, if_neg h4]

theorem NsEq.setPriorityAt {n n' : Nvic} (h : n.NsEq n') (k : Nat) (p : Byte) :
    (n.setPriorityAt k p).NsEq (n'.setPriorityAt k p) := by
  simp only [Nvic.setPriorityAt]
  split
  · refine ⟨h.itns, h.enable, h.pending, h.active, fun irq hs => ?_⟩
    simp only [Function.update_apply]
    split
    · rfl
    · exact h.priority irq hs
  · exact h

theorem NsEq.iprWrite {n n' : Nvic} (h : n.NsEq n') (offset size value : Word) :
    (n.iprWrite offset size value).NsEq (n'.iprWrite offset size value) := by
  simp only [Nvic.iprWrite]
  split
  · exact h.setPriorityAt _ _
  · split
    · exact (((h.setPriorityAt _ _).setPriorityAt _ _).setPriorityAt _ _).setPriorityAt _ _
    · exact h

end Nvic

namespace NvicFile

open Nvic

theorem write_keepsSecure (n : Nvic) (idx : MaskWord) (value : Word) (file : NvicFile) :
    n.KeepsSecure (file.write n .nonsecure idx value) := by
  have set (arr irq) (hs : n.irqTargetSec irq = .secure) :=
    (testBit_setMasked n.itnsMask arr idx value irq).trans
      (by rw [irqTargetSec_eq_secure.mp hs, Bool.and_false, Bool.or_false])
  have clear (arr irq) (hs : n.irqTargetSec irq = .secure) :=
    (testBit_clearMasked n.itnsMask arr idx value irq).trans
      (by rw [irqTargetSec_eq_secure.mp hs, Bool.and_false, Bool.not_false, Bool.and_true])
  cases file with
  | iabr => exact .refl n
  | itns => exact .refl n
  | iser => exact ⟨rfl, set n.enableMask, fun _ _ => rfl, fun _ _ => rfl⟩
  | icer => exact ⟨rfl, clear n.enableMask, fun _ _ => rfl, fun _ _ => rfl⟩
  | ispr => exact ⟨rfl, fun _ _ => rfl, set n.pendingMask, fun _ _ => rfl⟩
  | icpr => exact ⟨rfl, fun _ _ => rfl, clear n.pendingMask, fun _ _ => rfl⟩

theorem write_nsEq {n n' : Nvic} (h : n.NsEq n') (idx : MaskWord) (value : Word)
    (file : NvicFile) :
    (file.write n .nonsecure idx value).NsEq (file.write n' .nonsecure idx value) := by
  have set {arr arr' : MaskWord → Word} {irq} (ha : testBit arr' irq = testBit arr irq) :
      testBit (Function.update arr' idx (arr' idx ||| (value &&& n'.itnsMask idx))) irq =
        testBit (Function.update arr idx (arr idx ||| (value &&& n.itnsMask idx))) irq := by
    rw [testBit_setMasked, testBit_setMasked, ha, h.itns]
  have clear {arr arr' : MaskWord → Word} {irq} (ha : testBit arr' irq = testBit arr irq) :
      testBit (Function.update arr' idx (arr' idx &&& ~~~(value &&& n'.itnsMask idx))) irq =
        testBit (Function.update arr idx (arr idx &&& ~~~(value &&& n.itnsMask idx))) irq := by
    rw [testBit_clearMasked, testBit_clearMasked, ha, h.itns]
  obtain ⟨itns, enable, pending, active, priority⟩ := h
  cases file with
  | iabr => exact ⟨itns, enable, pending, active, priority⟩
  | itns => exact ⟨itns, enable, pending, active, priority⟩
  | iser => exact ⟨itns, fun irq hs => set (enable irq hs), pending, active, priority⟩
  | icer => exact ⟨itns, fun irq hs => clear (enable irq hs), pending, active, priority⟩
  | ispr => exact ⟨itns, enable, fun irq hs => set (pending irq hs), active, priority⟩
  | icpr => exact ⟨itns, enable, fun irq hs => clear (pending irq hs), active, priority⟩

theorem wordAt_spec {file : NvicFile} {words : Nat} {aligned : Word} {idx : MaskWord}
    (h : file.wordAt words aligned = some idx) :
    file.base ≤ aligned ∧ (aligned - file.base).toNat < 4 * words ∧
      (aligned - file.base).toNat / 4 = idx := by
  simp only [wordAt] at h
  split at h
  · rename_i hr
    split at h
    · cases h
      exact ⟨hr.1, hr.2, rfl⟩
    · cases h
  · cases h

theorem readable_spec {file : NvicFile} {aligned : Word} {idx : MaskWord}
    (h : readable aligned = some (file, idx)) : file.wordAt 2 aligned = some idx := by
  obtain ⟨f, -, hf⟩ := List.exists_of_findSome?_eq_some h
  simp only [Option.map_eq_some_iff, Prod.mk.injEq] at hf
  obtain ⟨i, hi, rfl, rfl⟩ := hf
  exact hi

def Masked : NvicFile → Prop
  | .iser | .itns => True
  | _ => False

theorem readMask_of_masked {n : Nvic} {file : NvicFile} {aligned w : Word} {idx : MaskWord}
    (h : readable aligned = some (file, idx)) (hm : file.Masked) :
    file.readMask n .nonsecure aligned w = w &&& n.itnsMask idx := by
  obtain ⟨-, -, hidx⟩ := wordAt_spec (readable_spec h)
  have hi : file.maskIndex aligned = idx := by
    cases file <;> first | exact hidx | cases hm
  simp only [readMask, hi, idx.isLt, dif_pos]

theorem readMask_of_not_masked {n : Nvic} {file : NvicFile} {aligned w : Word} {idx : MaskWord}
    (h : readable aligned = some (file, idx)) (hm : ¬ file.Masked) :
    file.readMask n .nonsecure aligned w = w := by
  obtain ⟨hle, hlt, -⟩ := wordAt_spec (readable_spec h)
  have hi : ¬ file.maskIndex aligned < 4 := by
    cases file <;> simp only [Masked, not_true_eq_false, not_false_eq_true] at hm <;>
      simp only [base, maskIndex] at hle hlt ⊢ <;> bv_omega
  simp only [readMask]
  rw [dif_neg hi]

end NvicFile

namespace ScsBlock

theorem lane_eq_of_and_eq {w w' m k : Word} (s : Nat) (h : w' &&& m = w &&& m)
    (hlane : (~~~m >>> s) &&& k = 0) : (w' >>> s) &&& k = (w >>> s) &&& k := by
  apply BitVec.eq_of_getLsbD_eq
  intro i hi
  have hw := congrArg (fun x : Word => x.getLsbD (s + i)) h
  have hk := congrArg (fun x : Word => x.getLsbD i) hlane
  simp only [BitVec.getLsbD_and, BitVec.getLsbD_ushiftRight, BitVec.getLsbD_not] at hw hk ⊢
  by_cases hs : s + i < 32
  · cases hm : m.getLsbD (s + i) with
    | true => simpa [hm] using congrArg (· && k.getLsbD i) hw
    | false =>
      rw [hm] at hk
      have hki : k.getLsbD i = false := by simpa [hs] using hk
      simp [hki]
  · simp [BitVec.getLsbD_of_ge _ _ (Nat.not_lt.mp hs)]

theorem subword_eq_of_and_eq {w w' m offset size : Word} (h : w' &&& m = w &&& m)
    (hlane : ∀ v, subword offset size (~~~m) = some v → v = 0) :
    subword offset size w' = subword offset size w := by
  simp only [subword] at hlane ⊢
  by_cases h1 : size = 1
  · simp only [h1, if_true, Option.some.injEq, forall_eq'] at hlane ⊢
    exact lane_eq_of_and_eq _ h hlane
  · by_cases h2 : size = 2
    · rw [if_neg h1, if_pos h2] at hlane
      rw [if_neg h1, if_neg h1, if_pos h2, if_pos h2]
      exact congrArg some (lane_eq_of_and_eq _ h (hlane _ rfl))
    · by_cases h4 : size = 4
      · rw [if_neg h1, if_neg h2, if_pos h4] at hlane
        rw [if_neg h1, if_neg h2, if_pos h4, if_neg h1, if_neg h2, if_pos h4]
        have hm : m = BitVec.allOnes 32 := by
          rw [← BitVec.not_not (b := m), hlane _ rfl]
          rfl
        rw [hm, BitVec.and_allOnes, BitVec.and_allOnes] at h
        rw [h]
      · rw [if_neg h1, if_neg h2, if_neg h4, if_neg h1, if_neg h2, if_neg h4]

end ScsBlock

namespace Nvic

open ScsBlock

/-- What it takes for a Non-secure read of one register-file word to tell nothing about its
Secure-routed interrupts. ISER is masked, but a word of all ones reads as zero; the other files
are not masked at all. -/
def SealedWord (n : Nvic) (idx : MaskWord) (offset size : Word) : NvicFile → Prop
  | .itns => True
  | .iser =>
    n.itnsMask idx = BitVec.allOnes 32 ∨ n.enableMask idx &&& n.itnsMask idx ≠ n.itnsMask idx ∨
      subword offset size (n.itnsMask idx) = some 0
  | file =>
    n.itnsMask idx = BitVec.allOnes 32 ∨
      (file.word n .nonsecure idx &&& n.itnsMask idx ≠ n.itnsMask idx ∧
        ∀ v, subword offset size (~~~n.itnsMask idx) = some v → v = 0)

/-- The access reaches no priority byte of a Secure-routed interrupt, and if it reads a
register-file word, that word is sealed. -/
structure Sealed (n : Nvic) (a : ScsAccess) : Prop where
  ipr : ∀ k ∈ iprTouches a.offset a.size, n.NsByte k
  word : a.value = none → ∀ file idx,
    NvicFile.readable (a.offset &&& ~~~3#32) = some (file, idx) →
      n.SealedWord idx a.offset a.size file

theorem word_of_nsEq {n n' : Nvic} (h : n.NsEq n') (file : NvicFile) (idx : MaskWord) :
    file.word n' .nonsecure idx &&& n.itnsMask idx =
      file.word n .nonsecure idx &&& n.itnsMask idx := by
  have agree {f g : MaskWord → Word}
      (hfg : ∀ irq, n.irqTargetSec irq = .nonsecure → testBit g irq = testBit f irq) :=
    and_eq_and_of_nsEq (fun irq hm => hfg irq (irqTargetSec_eq_nonsecure.mpr hm)) idx
  cases file with
  | iser => exact agree h.enable
  | icer => exact agree h.enable
  | ispr => exact agree h.pending
  | icpr => exact agree h.pending
  | iabr => exact agree h.active
  | itns => rfl

theorem ne_allOnes_of_and_ne {w m : Word} (h : w &&& m ≠ m) : w ≠ 0xffffffff := by
  rintro rfl
  exact h (BitVec.allOnes_and (x := m))

theorem not_ipr_of_readable {offset : Word} {file : NvicFile} {idx : MaskWord}
    (h : NvicFile.readable (offset &&& ~~~3#32) = some (file, idx)) :
    ¬ (0x400 ≤ offset ∧ offset < 0x500) := by
  obtain ⟨hle, hlt, -⟩ := NvicFile.wordAt_spec (NvicFile.readable_spec h)
  have hb : file.base.toNat ≤ 0x380 := by cases file <;> decide
  have ha : (offset &&& ~~~3#32).toNat = offset.toNat / 4 * 4 :=
    toNat_and_not_mask offset 2 (by decide)
  rintro ⟨h4, -⟩
  bv_omega

end Nvic

namespace ScsBlock

open Nvic

theorem maskedRead_eq {w w' m offset size : Word} (h : w' &&& m = w &&& m)
    (hs : m = BitVec.allOnes 32 ∨ w &&& m ≠ m ∨ subword offset size m = some 0) :
    (if w' = 0xffffffff then some 0 else subword offset size (w' &&& m)) =
      if w = 0xffffffff then some 0 else subword offset size (w &&& m) := by
  have all {x : Word} (hx : x = 0xffffffff) : x &&& m = m := by
    rw [hx]
    exact BitVec.allOnes_and
  rcases hs with hm | hne | hz
  · rw [hm, BitVec.and_allOnes, BitVec.and_allOnes] at h
    rw [h]
  · rw [if_neg (ne_allOnes_of_and_ne hne), if_neg (ne_allOnes_of_and_ne (h ▸ hne)), h]
  · by_cases hw : w = 0xffffffff
    · rw [h, all hw, hz, if_pos hw, ite_self]
    · by_cases hw' : w' = 0xffffffff
      · rw [← h, all hw', hz, if_pos hw', ite_self]
      · rw [if_neg hw, if_neg hw', h]

theorem plainRead_eq {w w' m offset size : Word} (h : w' &&& m = w &&& m)
    (hs : m = BitVec.allOnes 32 ∨
      (w &&& m ≠ m ∧ ∀ v, subword offset size (~~~m) = some v → v = 0)) :
    (if w' = 0xffffffff then some 0 else subword offset size w') =
      if w = 0xffffffff then some 0 else subword offset size w := by
  rcases hs with hm | ⟨hne, hlane⟩
  · rw [hm, BitVec.and_allOnes, BitVec.and_allOnes] at h
    rw [h]
  · rw [if_neg (ne_allOnes_of_and_ne hne), if_neg (ne_allOnes_of_and_ne (h ▸ hne))]
    exact subword_eq_of_and_eq h hlane

theorem nvicRead_of_nsEq {b : ScsBlock} {n' : Nvic} (h : b.nvic.NsEq n') {a : ScsAccess}
    (hs : b.nvic.Sealed a) (hv : a.value = none) :
    ({ b with nvic := n' } : ScsBlock).nvicRead .nonsecure a.offset a.size =
      b.nvicRead .nonsecure a.offset a.size := by
  simp only [nvicRead]
  cases hr : NvicFile.readable (a.offset &&& ~~~3#32) with
  | none =>
    simp only
    split
    · rename_i hrange
      rw [iprRead_of_nsEq h hrange hs.ipr]
    · rfl
  | some p =>
    obtain ⟨file, idx⟩ := p
    have hword := word_of_nsEq h file idx
    have hseal := hs.word hv file idx hr
    simp only [if_neg (not_ipr_of_readable hr)]
    have masked (n : Nvic) (hm : file.Masked) :=
      @NvicFile.readMask_of_masked n file _ (file.word n .nonsecure idx) idx hr hm
    have plain (n : Nvic) (hm : ¬ file.Masked) :=
      @NvicFile.readMask_of_not_masked n file _ (file.word n .nonsecure idx) idx hr hm
    cases file with
    | itns =>
      rw [masked _ trivial, masked _ trivial, h.itns]
      rfl
    | iser =>
      rw [masked _ trivial, masked _ trivial, h.itns]
      exact maskedRead_eq hword hseal
    | icer | ispr | icpr | iabr =>
      rw [plain _ id, plain _ id]
      exact plainRead_eq hword hseal

def NsEq (b b' : ScsBlock) : Prop := ∃ n', b' = { b with nvic := n' } ∧ b.nvic.NsEq n'

theorem scsRead_of_nsEq {b : ScsBlock} {n' : Nvic} (h : b.nvic.NsEq n') {a : ScsAccess}
    (heff : b.effSec a.win = .nonsecure) (hs : b.nvic.Sealed a) (hv : a.value = none) :
    (({ b with nvic := n' } : ScsBlock).scsRead a.win a.offset a.size).1 =
        (b.scsRead a.win a.offset a.size).1 ∧
      (b.scsRead a.win a.offset a.size).2.NsEq
        (({ b with nvic := n' } : ScsBlock).scsRead a.win a.offset a.size).2 := by
  have heff' : ({ b with nvic := n' } : ScsBlock).effSec a.win = .nonsecure := heff
  simp only [scsRead, heff, heff']
  by_cases hpage : scsPageSize ≤ a.offset
  · simp only [if_pos hpage]
    exact ⟨trivial, n', rfl, h⟩
  · by_cases hscb : a.offset < scsScbOffset
    · simp only [if_neg hpage, if_pos hscb]
      cases SysTickReg.ofOffset (a.offset &&& ~~~3#32) with
      | none => exact ⟨nvicRead_of_nsEq h hs hv, n', rfl, h⟩
      | some reg => cases reg <;> exact ⟨rfl, n', rfl, h⟩
    · simp only [if_neg hpage, if_neg hscb]
      refine ⟨?_, n', rfl, h⟩
      cases ScbReg.ofOffset ((a.offset &&& ~~~3#32) - scsScbOffset) with
      | none => rfl
      | some reg => cases reg <;> rfl

theorem nvicWrite_of_nsEq {b : ScsBlock} {n' : Nvic} (h : b.nvic.NsEq n')
    (offset size value : Word) :
    (b.nvicWrite .nonsecure offset size value).NsEq
      (({ b with nvic := n' } : ScsBlock).nvicWrite .nonsecure offset size value) := by
  simp only [nvicWrite]
  split
  · exact ⟨_, rfl, NvicFile.write_nsEq h _ _ _⟩
  · split
    · exact ⟨_, rfl, h.iprWrite _ _ _⟩
    · exact ⟨n', rfl, h⟩

theorem rmwValue_nvic (b : ScsBlock) (n' : Nvic) {win : SecState} {offset size value : Word}
    (hscb : ¬ offset < scsScbOffset) :
    ({ b with nvic := n' } : ScsBlock).rmwValue win offset size value =
      b.rmwValue win offset size value := by
  have haligned : ¬ offset &&& ~~~3#32 < scsScbOffset := by
    have ha : (offset &&& ~~~3#32).toNat = offset.toNat / 4 * 4 :=
      toNat_and_not_mask offset 2 (by decide)
    simp only [scsScbOffset] at hscb ⊢
    bv_omega
  have hread : (({ b with nvic := n' } : ScsBlock).scsRead win (offset &&& ~~~3#32) 4).1 =
      (b.scsRead win (offset &&& ~~~3#32) 4).1 := by
    simp only [scsRead, if_neg haligned]
    split
    · rfl
    · cases ScbReg.ofOffset (offset &&& ~~~3#32 &&& ~~~3#32 - scsScbOffset) with
      | none => rfl
      | some reg => cases reg <;> rfl
  simp only [rmwValue, hread]

theorem scbWrite_nvic (b : ScsBlock) (n' : Nvic) (win eff : SecState) (value : Word)
    (reg : ScbReg) :
    ({ b with nvic := n' } : ScsBlock).scbWrite win eff value reg =
      ((b.scbWrite win eff value reg).1,
        { (b.scbWrite win eff value reg).2 with nvic := n' }) ∧
      (b.scbWrite win eff value reg).2.nvic = b.nvic := by
  cases reg with
  | aircr =>
    simp only [scbWrite]
    split <;> exact ⟨rfl, rfl⟩
  | sauD8 | sauDC | sauE0 | sauE4 =>
    cases eff
    · exact ⟨rfl, rfl⟩
    · simp only [scbWrite, sauWrite]
      split <;> exact ⟨rfl, rfl⟩
  | sauCtrl | sauRnr | sauE8 => cases eff <;> exact ⟨rfl, rfl⟩
  | _ => exact ⟨rfl, rfl⟩

theorem scsWrite_of_nsEq {b : ScsBlock} {n' : Nvic} (h : b.nvic.NsEq n') {win : SecState}
    (heff : b.effSec win = .nonsecure) (offset size value : Word) :
    (({ b with nvic := n' } : ScsBlock).scsWrite win offset size value).1 =
        (b.scsWrite win offset size value).1 ∧
      (b.scsWrite win offset size value).2.NsEq
        (({ b with nvic := n' } : ScsBlock).scsWrite win offset size value).2 := by
  have heff' : ({ b with nvic := n' } : ScsBlock).effSec win = .nonsecure := heff
  simp only [scsWrite, heff, heff']
  by_cases hpage : scsPageSize ≤ offset
  · simp only [if_pos hpage]
    exact ⟨trivial, n', rfl, h⟩
  · by_cases hscb : offset < scsScbOffset
    · simp only [if_neg hpage, if_pos hscb]
      cases SysTickReg.ofOffset (offset &&& ~~~3#32) with
      | none => exact ⟨rfl, nvicWrite_of_nsEq h offset size value⟩
      | some reg =>
        cases reg with
        | calib => exact ⟨rfl, nvicWrite_of_nsEq h offset size value⟩
        | _ => exact ⟨rfl, n', rfl, h⟩
    · simp only [if_neg hpage, if_neg hscb, rmwValue_nvic b n' hscb]
      split
      · cases ScbReg.ofOffset ((offset &&& ~~~3#32) - scsScbOffset) with
        | none => exact ⟨rfl, n', rfl, h⟩
        | some reg =>
          obtain ⟨heq, hn⟩ := scbWrite_nvic b n' win .nonsecure (b.rmwValue win offset size value) reg
          simp only [heq]
          exact ⟨trivial, n', rfl, hn ▸ h⟩
      · exact ⟨rfl, n', rfl, h⟩

theorem nsAccess_of_nsEq {b b' : ScsBlock} {a : NsAccess} (h : b.NsEq b')
    (hs : b.nvic.Sealed a) :
    (b.nsAccess a).1 = (b'.nsAccess a).1 ∧ (b.nsAccess a).2.NsEq (b'.nsAccess a).2 := by
  obtain ⟨n', rfl, hn⟩ := h
  have heff := effSec_noteAccess b a
  simp only [nsAccess, access]
  cases hv : a.1.value with
  | none =>
    have := scsRead_of_nsEq (b := b.noteAccess a.1.sec) hn heff hs hv
    exact ⟨congrArg ScsResult.read this.1.symm, this.2⟩
  | some v =>
    have := scsWrite_of_nsEq (b := b.noteAccess a.1.sec) hn heff a.1.offset a.1.size v
    exact ⟨congrArg ScsResult.written this.1.symm, this.2⟩

theorem scsRead_nvic (b : ScsBlock) (win : SecState) (offset size : Word) :
    (b.scsRead win offset size).2.nvic = b.nvic := by
  simp only [scsRead]
  split
  · rfl
  · split
    · cases SysTickReg.ofOffset (offset &&& ~~~3#32) with
      | none => rfl
      | some reg => cases reg <;> rfl
    · rfl

theorem nvicWrite_keepsSecure {b : ScsBlock} {offset size : Word}
    (h : ∀ k ∈ iprTouches offset size, b.nvic.NsByte k) (value : Word) :
    b.nvic.KeepsSecure (b.nvicWrite .nonsecure offset size value).nvic := by
  simp only [nvicWrite]
  split
  · exact NvicFile.write_keepsSecure _ _ _ _
  · split
    · rename_i hr
      exact iprWrite_keepsSecure hr h value
    · exact .refl _

theorem nsAccess_keepsSecure {b : ScsBlock} {a : NsAccess} (hs : b.nvic.Sealed a) :
    b.nvic.KeepsSecure (b.nsAccess a).2.nvic := by
  have heff := effSec_noteAccess b a
  simp only [nsAccess, access]
  cases a.1.value with
  | none =>
    simp only [scsRead_nvic]
    exact .refl _
  | some v =>
    simp only [scsWrite, heff]
    split
    · exact .refl _
    · split
      · split
        · exact nvicWrite_keepsSecure (b := b.noteAccess a.1.sec) hs.ipr v
        · exact nvicWrite_keepsSecure (b := b.noteAccess a.1.sec) hs.ipr v
        · rename_i reg _ _
          cases reg <;> exact .refl _
      · split
        · split
          · rw [(scbWrite_nvic _ b.nvic _ _ _ _).2]
            exact .refl _
          · exact .refl _
        · exact .refl _

/-- Along sealed Non-secure accesses no Secure-routed interrupt changes, and two NVIC states that
differ only in Secure-routed interrupts answer alike. -/
theorem sealed_accesses_isolate_secure_irqs (b : ScsBlock) (n' : Nvic) (as : List NsAccess)
    (h : b.nvic.NsEq n')
    (hs : Along (fun b a => (b.nsAccess a).2) (fun b (a : NsAccess) => b.nvic.Sealed a) b as) :
    Throughout (fun b a => (b.nsAccess a).2) (fun c => b.nvic.KeepsSecure c.nvic) b as ∧
      outputs nsAccess b as = outputs nsAccess { b with nvic := n' } as := by
  constructor
  · exact throughout_of_along (fun c a keeps sealed => keeps.trans (nsAccess_keepsSecure sealed))
      (.refl b.nvic) hs
  · have step : ∀ (s t : ScsBlock) (a : NsAccess), s.NsEq t → s.nvic.Sealed a →
        (s.nsAccess a).1 = (t.nsAccess a).1 ∧ (s.nsAccess a).2.NsEq (t.nsAccess a).2 :=
      fun _ _ _ => nsAccess_of_nsEq
    exact outputs_eq_of_unwinding step ⟨n', rfl, h⟩ hs

/-- The Non-secure side at reset, where ITNS routes every interrupt to Secure state: it asks for
interrupt 0 to be enabled and reads back the enables. -/
theorem sealed_accesses_isolate_reset :
    let as : List NsAccess :=
      [⟨⟨.secure, .nonsecure, 0x100, 4, some 0x1⟩, .inl rfl⟩,
        ⟨⟨.nonsecure, .nonsecure, 0x100, 4, none⟩, .inl rfl⟩]
    let n' : Nvic := { Nvic.init with enableMask := fun _ => 0x5 }
    Throughout (fun b a => (b.nsAccess a).2) (fun c => reset.nvic.KeepsSecure c.nvic) reset as ∧
      outputs nsAccess reset as = outputs nsAccess { reset with nvic := n' } as := by
  have secure : ∀ irq, reset.nvic.irqTargetSec irq = .secure := by decide
  have noIpr {b : ScsBlock} : ∀ k ∈ iprTouches 0x100 4, b.nvic.NsByte k := by
    intro k hk
    rw [show iprTouches 0x100 4 = [] by decide] at hk
    cases hk
  have view (irq) (h : reset.nvic.irqTargetSec irq = .nonsecure) : False := by
    rw [secure irq] at h
    cases h
  refine sealed_accesses_isolate_secure_irqs reset _ _
    ⟨rfl, fun irq h => (view irq h).elim, fun _ _ => rfl, fun _ _ => rfl, fun _ _ => rfl⟩
    ⟨⟨noIpr, fun h => by cases h⟩, ⟨noIpr, fun _ file idx h => ?_⟩, trivial⟩
  have iser : NvicFile.readable (0x100 &&& ~~~3#32) = some (.iser, 0) := by decide
  rw [iser] at h
  cases h
  exact .inr (.inr (by decide))

/-- Non-secure code lowers the priority value of Secure interrupt 0, and reads its enable through
`ICER0`. -/
theorem ipr_and_icer_reach_secure_irqs :
    (¬ ∀ (b : ScsBlock) (as : List NsAccess),
      b.nvic.KeepsSecure (run (fun b a => (b.nsAccess a).2) b as).nvic) ∧
    ¬ ∀ (b : ScsBlock) (n' : Nvic) (as : List NsAccess), b.nvic.NsEq n' →
      outputs nsAccess b as = outputs nsAccess { b with nvic := n' } as := by
  constructor
  · intro h
    have priority := (h reset [⟨⟨.secure, .nonsecure, 0x400, 1, some 0⟩, .inl rfl⟩]).priority ⟨0, by decide⟩
    revert priority
    decide
  · intro h
    have reads := h reset { Nvic.init with enableMask := fun _ => 1 }
      [⟨⟨.secure, .nonsecure, 0x180, 4, none⟩, .inl rfl⟩]
      ⟨rfl, by decide, fun _ _ => rfl, fun _ _ => rfl, fun _ _ => rfl⟩
    revert reads
    decide

end ScsBlock

end M33mu
