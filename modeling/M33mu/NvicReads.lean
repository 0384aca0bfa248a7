import M33mu.Board
import M33mu.NvicIsolation

namespace M33mu

open Lib

inductive NvicOp
  | write (offset size value : Word)
  | setPending (irq : Word) (pending : Bool)
  | setEnable (irq : Word) (enable : Bool)
  deriving DecidableEq

namespace NvicFile

def offset (file : NvicFile) (idx : MaskWord) : Word := file.base + BitVec.ofNat 32 (4 * idx.val)

def Legible (idx : MaskWord) (w : Word) : Prop := w = 0 ∨ idx.val < 2 ∧ w ≠ 0xffffffff

instance (idx : MaskWord) (w : Word) : Decidable (Legible idx w) :=
  inferInstanceAs (Decidable (_ ∨ _ ∧ _))

theorem Legible.and {idx : MaskWord} {w : Word} (legible : Legible idx w) (m : Word) :
    Legible idx (w &&& m) := by
  rcases legible with rfl | ⟨low, some⟩
  · exact .inl BitVec.zero_and
  · exact .inr ⟨low, fun ones => some (BitVec.and_eq_allOnes_iff.mp ones).1⟩

theorem readable_offset (file : NvicFile) (idx : MaskWord) :
    readable (file.offset idx &&& ~~~3#32) = if idx.val < 2 then some (file, idx) else none := by
  revert idx
  cases file <;> decide

end NvicFile

open NvicFile

namespace ScsBlock

def readWord (b : ScsBlock) (file : NvicFile) (idx : MaskWord) : ScsResult :=
  (b.access ⟨.secure, .secure, file.offset idx, 4, none⟩).1

def ReadsBack (b : ScsBlock) : Prop :=
  ∀ file idx, b.readWord file idx = .read (some (NvicFile.word b.nvic .secure idx file))

theorem readWord_eq (b : ScsBlock) (file : NvicFile) (idx : MaskWord) :
    b.readWord file idx = .read (some
      (if idx.val < 2 ∧ NvicFile.word b.nvic .secure idx file ≠ 0xffffffff then
        NvicFile.word b.nvic .secure idx file else 0)) := by
  have ipr : ¬ (0x400 ≤ file.offset idx ∧ file.offset idx < 0x500) := by
    revert idx
    cases file <;> decide
  have scb : ¬ scsPageSize ≤ file.offset idx ∧ file.offset idx < scsScbOffset ∧
      SysTickReg.ofOffset (file.offset idx &&& ~~~3#32) = none := by
    revert idx
    cases file <;> decide
  obtain ⟨page, low, systick⟩ := scb
  simp only [readWord, access, scsRead, if_neg page, if_pos low, systick, nvicRead, if_neg ipr,
    readable_offset]
  by_cases reached : idx.val < 2
  · rw [if_pos reached]
    by_cases ones : NvicFile.word b.nvic .secure idx file = 0xffffffff
    · rw [if_neg fun h => h.2 ones]
      exact congrArg ScsResult.read (if_pos ones)
    · rw [if_pos ⟨reached, ones⟩]
      exact congrArg ScsResult.read (if_neg ones)
  · rw [if_neg reached, if_neg fun h => reached h.1]

theorem readsBack_iff {b : ScsBlock} :
    b.ReadsBack ↔ ∀ file idx, Legible idx (NvicFile.word b.nvic .secure idx file) := by
  refine forall_congr' fun file => forall_congr' fun idx => ?_
  rw [readWord_eq, Legible, ScsResult.read.injEq, Option.some.injEq]
  split
  · rename_i reached
    exact iff_of_true rfl (.inr reached)
  · rename_i lost
    exact eq_comm.trans (or_iff_left lost).symm

/-- `mm_nvic_set_pending` and `mm_nvic_set_enable` do nothing past the last interrupt. -/
def nvicStep (b : ScsBlock) : NvicOp → ScsBlock
  | .write offset size value => (b.access ⟨.secure, .secure, offset, size, some value⟩).2
  | .setPending irq pending =>
    if h : irq.toNat < maxIrq then { b with nvic := b.nvic.setPending ⟨irq.toNat, h⟩ pending } else b
  | .setEnable irq enable =>
    if h : irq.toNat < maxIrq then { b with nvic := b.nvic.setEnable ⟨irq.toNat, h⟩ enable } else b

def StaysLegible (b : ScsBlock) : NvicOp → Prop
  | .write offset size value =>
    match if size = 4 then writable (offset &&& ~~~3#32) else none with
    | some (.iser, idx) => Legible idx (b.nvic.enableMask idx ||| value)
    | some (.ispr, idx) => Legible idx (b.nvic.pendingMask idx ||| value)
    | some (.itns, idx) => Legible idx value
    | _ => True
  | .setPending irq pending => pending = true → ∀ h : irq.toNat < maxIrq,
    Legible (Nvic.word ⟨irq.toNat, h⟩)
      (b.nvic.pendingMask (Nvic.word ⟨irq.toNat, h⟩) ||| 1#32 <<< Nvic.bit ⟨irq.toNat, h⟩)
  | .setEnable irq enable => enable = true → ∀ h : irq.toNat < maxIrq,
    Legible (Nvic.word ⟨irq.toNat, h⟩)
      (b.nvic.enableMask (Nvic.word ⟨irq.toNat, h⟩) ||| 1#32 <<< Nvic.bit ⟨irq.toNat, h⟩)

end ScsBlock

namespace Nvic

theorem forall_legible_iff {n : Nvic} :
    (∀ file idx, Legible idx (NvicFile.word n .secure idx file)) ↔
      (∀ idx, Legible idx (n.enableMask idx)) ∧ (∀ idx, Legible idx (n.pendingMask idx)) ∧
        (∀ idx, Legible idx (n.activeMask idx)) ∧ ∀ idx, Legible idx (n.itnsMask idx) := by
  constructor
  · exact fun all => ⟨all .iser, all .ispr, all .iabr, all .itns⟩
  · rintro ⟨enable, pending, active, itns⟩ file
    cases file with
    | iser => exact enable
    | icer => exact enable
    | ispr => exact pending
    | icpr => exact pending
    | iabr => exact active
    | itns => exact itns

theorem legible_update_iff {arr : MaskWord → Word} (legible : ∀ idx, Legible idx (arr idx))
    (idx : MaskWord) (w : Word) :
    (∀ i, Legible i (Function.update arr idx w i)) ↔ Legible idx w := by
  rw [Function.forall_update_iff arr fun i w => Legible i w]
  exact and_iff_left fun i _ => legible i

theorem legible_bitop_iff {arr : MaskWord → Word} (legible : ∀ idx, Legible idx (arr idx))
    (irq : Irq) (set : Bool) :
    (∀ i, Legible i (bitop arr irq set i)) ↔
      (set = true → Legible (word irq) (arr (word irq) ||| 1#32 <<< bit irq)) := by
  rw [bitop, legible_update_iff legible]
  cases set with
  | false => simpa using (legible (word irq)).and _
  | true => simp

theorem iprWrite_legible_iff {n : Nvic} (offset size value : Word) :
    (∀ file idx, Legible idx (NvicFile.word (n.iprWrite offset size value) .secure idx file)) ↔
      ∀ file idx, Legible idx (NvicFile.word n .secure idx file) := by
  simp only [forall_legible_iff, iprWrite_masks]

end Nvic

namespace ScsBlock

theorem writable_outside {aligned : Word} (outside : aligned < 0x100 ∨ 0x400 ≤ aligned) :
    writable aligned = none := by
  have apart (file : NvicFile) : file.wordAt 4 aligned = none := by
    rw [wordAt, if_neg]
    rintro ⟨above, below⟩
    cases file <;> simp only [base] at above below <;> bv_omega
  simp [writable, find, apart]

theorem nvicWrite_outside (b : ScsBlock) {offset size value : Word}
    (outside : offset < 0x100 ∨ 0x500 ≤ offset) :
    (b.nvicWrite .secure offset size value).nvic = b.nvic := by
  have aligned : (offset &&& ~~~3#32).toNat = offset.toNat / 4 * 4 :=
    toNat_and_not_mask offset 2 (by decide)
  have files : writable (offset &&& ~~~3#32) = none :=
    writable_outside (by bv_omega)
  have ipr : ¬ (0x400 ≤ offset ∧ offset < 0x500) := by bv_omega
  simp only [nvicWrite, files, ite_self, if_neg ipr]

theorem systick_low {offset : Word} {reg : SysTickReg}
    (systick : SysTickReg.ofOffset (offset &&& ~~~3#32) = some reg) : offset < 0x100 := by
  have aligned : (offset &&& ~~~3#32).toNat = offset.toNat / 4 * 4 :=
    toNat_and_not_mask offset 2 (by decide)
  by_contra high
  have none : SysTickReg.ofOffset (offset &&& ~~~3#32) = none := by
    rw [SysTickReg.ofOffset, if_neg, if_neg, if_neg, if_neg] <;> bv_omega
  exact nomatch none.symm.trans systick

theorem nvic_write (b : ScsBlock) (offset size value : Word) :
    (b.nvicStep (.write offset size value)).nvic =
      ((b.noteAccess .secure).nvicWrite .secure offset size value).nvic := by
  have eff : (b.noteAccess .secure).effSec .secure = .secure := rfl
  simp only [nvicStep, access, scsWrite, eff]
  split
  · rename_i page
    exact (nvicWrite_outside _ (.inr (by simp only [scsPageSize] at page; bv_omega))).symm
  split
  · rename_i found
    split
    · rfl
    · rfl
    · rename_i reg notCalib systick
      rw [nvicWrite_outside _ (.inl (systick_low systick))]
      cases reg <;> rfl
  · rename_i scb
    rw [nvicWrite_outside _ (.inr (by simp only [scsScbOffset] at scb; bv_omega))]
    split
    · split
      · exact (scbWrite_nvic _ b.nvic _ _ _ _).2
      · rfl
    · rfl

theorem legible_write_iff {b : ScsBlock} {file : NvicFile} {idx : MaskWord} {offset value : Word}
    (reached : writable (offset &&& ~~~3#32) = some (file, idx))
    (legible : ∀ file idx, Legible idx (NvicFile.word b.nvic .secure idx file)) :
    (∀ f i, Legible i (NvicFile.word (file.write b.nvic .secure idx value) .secure i f)) ↔
      b.StaysLegible (.write offset 4 value) := by
  obtain ⟨enable, pending, active, itns⟩ := Nvic.forall_legible_iff.mp legible
  rw [StaysLegible, if_pos rfl, reached, Nvic.forall_legible_iff]
  cases file with
  | iser =>
    have set := Nvic.legible_update_iff enable idx (b.nvic.enableMask idx ||| value)
    exact ⟨fun all => set.mp all.1, fun ok => ⟨set.mpr ok, pending, active, itns⟩⟩
  | icer =>
    have cleared := (Nvic.legible_update_iff enable idx _).mpr ((enable idx).and (~~~value))
    exact iff_of_true ⟨cleared, pending, active, itns⟩ trivial
  | ispr =>
    have set := Nvic.legible_update_iff pending idx (b.nvic.pendingMask idx ||| value)
    exact ⟨fun all => set.mp all.2.1, fun ok => ⟨enable, set.mpr ok, active, itns⟩⟩
  | icpr =>
    have cleared := (Nvic.legible_update_iff pending idx _).mpr ((pending idx).and (~~~value))
    exact iff_of_true ⟨enable, cleared, active, itns⟩ trivial
  | iabr => exact iff_of_true ⟨enable, pending, active, itns⟩ trivial
  | itns =>
    have set := Nvic.legible_update_iff itns idx value
    exact ⟨fun all => set.mp all.2.2.2, fun ok => ⟨enable, pending, active, set.mpr ok⟩⟩

theorem nvicStep_readsBack_iff {b : ScsBlock} (reads : b.ReadsBack) (op : NvicOp) :
    (b.nvicStep op).ReadsBack ↔ b.StaysLegible op := by
  have legible := readsBack_iff.mp reads
  obtain ⟨enable, pending, active, itns⟩ := Nvic.forall_legible_iff.mp legible
  rw [readsBack_iff]
  cases op with
  | write offset size value =>
    rw [nvic_write]
    cases reached : if size = 4 then writable (offset &&& ~~~3#32) else none with
    | none =>
      simp only [nvicWrite, StaysLegible, reached]
      refine iff_of_true ?_ trivial
      split
      · exact (Nvic.iprWrite_legible_iff offset size value).mpr legible
      · exact legible
    | some word =>
      obtain ⟨file, idx⟩ := word
      by_cases whole : size = 4
      · subst whole
        rw [if_pos rfl] at reached
        simp only [nvicWrite, if_true, reached]
        exact legible_write_iff reached legible
      · rw [if_neg whole] at reached
        cases reached
  | setPending irq set =>
    simp only [nvicStep, StaysLegible]
    split
    · rename_i inRange
      have word := Nvic.legible_bitop_iff pending ⟨irq.toNat, inRange⟩ set
      rw [Nvic.forall_legible_iff]
      exact ⟨fun all some _ => word.mp all.2.1 some,
        fun ok => ⟨enable, word.mpr fun some => ok some inRange, active, itns⟩⟩
    · rename_i past
      exact iff_of_true legible fun _ inRange => absurd inRange past
  | setEnable irq set =>
    simp only [nvicStep, StaysLegible]
    split
    · rename_i inRange
      have word := Nvic.legible_bitop_iff enable ⟨irq.toNat, inRange⟩ set
      rw [Nvic.forall_legible_iff]
      exact ⟨fun all some _ => word.mp all.1 some,
        fun ok => ⟨word.mpr fun some => ok some inRange, pending, active, itns⟩⟩
    · rename_i past
      exact iff_of_true legible fun _ inRange => absurd inRange past

theorem readsBack_init {b : ScsBlock} (init : b.nvic = .init) : b.ReadsBack := by
  rw [readsBack_iff, init]
  intro file idx
  cases file <;> exact .inl rfl

/-- Every read is right, throughout, exactly when every step leaves the registers legible. -/
theorem readsBack_throughout_iff {b : ScsBlock} (init : b.nvic = .init) (ops : List NvicOp) :
    Throughout nvicStep ReadsBack b ops ↔ Along nvicStep StaysLegible b ops := by
  have step (b : ScsBlock) (op : NvicOp) (reads : b.ReadsBack) :
      (nvicStep b op).ReadsBack ↔ StaysLegible b op := nvicStep_readsBack_iff reads op
  exact throughout_iff_along step (readsBack_init init)

theorem not_readsBack_throughout :
    ¬ ∀ (b : ScsBlock) (ops : List NvicOp), b.nvic = .init →
      Throughout nvicStep ReadsBack b ops := by
  intro always
  have throughout := always Board.world.toScsBlock [.write 0x100 4 0xffffffff] rfl
  have read := throughout.2 .iser 0
  revert read
  decide

theorem readsBack_throughout_first : Throughout nvicStep ReadsBack Board.world.toScsBlock
      [.write 0x100 4 0xfffffffe, .setPending 63 true, .setPending 200 true] ↔
    Along nvicStep StaysLegible Board.world.toScsBlock
      [.write 0x100 4 0xfffffffe, .setPending 63 true, .setPending 200 true] :=
  readsBack_throughout_iff rfl _

end ScsBlock

end M33mu
