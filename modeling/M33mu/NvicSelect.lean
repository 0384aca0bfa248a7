import Mathlib.Data.Fin.Basic
import M33mu.Lib.Select
import M33mu.Nvic

namespace M33mu.Nvic

open Lib

def Ready (n : Nvic) (irq : Irq) : Prop :=
  testBit n.enableMask irq = true ∧ testBit n.pendingMask irq = true

instance (n : Nvic) (irq : Irq) : Decidable (n.Ready irq) := inferInstanceAs (Decidable (_ ∧ _))

theorem candidate_iff {n : Nvic} {c : Cpu} {irq : Irq} :
    n.candidate c irq = true ↔ n.Ready irq ∧ c.primask.get (n.irqTargetSec irq) = 0 := by
  simp [candidate, Ready, primaskBlocksTarget]

theorem selectRouted_eq (n : Nvic) (c : Cpu) :
    n.selectRouted c = ((List.finRange maxIrq).foldl
      (keepBest (n.candidate c) fun irq => (n.priority irq).toNat) none).map
        fun irq => (irq, n.irqTargetSec irq) := by
  have same : (fun best irq => if n.candidate c irq && n.better best irq then some irq else best) =
      keepBest (n.candidate c) fun irq => (n.priority irq).toNat := by
    funext best irq
    cases best <;> rfl
  rw [selectRouted, same]

theorem selectRouted_eq_none_iff {n : Nvic} {c : Cpu} :
    n.selectRouted c = none ↔ ∀ irq, n.candidate c irq = false := by
  have best := isBest_foldl (n.candidate c) (fun irq => (n.priority irq).toNat)
    (List.finRange maxIrq)
  rw [selectRouted_eq, Option.map_eq_none_iff]
  constructor
  · intro none irq
    rw [none] at best
    exact best irq (List.mem_finRange irq)
  · intro no
    cases found : List.foldl _ _ _ with
    | none => rfl
    | some irq =>
      rw [found] at best
      exact absurd (best.2.1.symm.trans (no irq)) nofun

theorem selectRouted_isSome_iff {n : Nvic} {c : Cpu} :
    (n.selectRouted c).isSome = true ↔ ∃ irq, n.candidate c irq = true := by
  rw [← Option.ne_none_iff_isSome, Ne, selectRouted_eq_none_iff, not_forall]
  simp

theorem of_selectRouted {n : Nvic} {c : Cpu} {irq : Irq} {sec : SecState}
    (chosen : n.selectRouted c = some (irq, sec)) :
    n.candidate c irq = true ∧ sec = n.irqTargetSec irq ∧
      ∀ other, n.candidate c other = true → n.priority irq ≤ n.priority other := by
  have best := isBest_foldl (n.candidate c) (fun irq => (n.priority irq).toNat)
    (List.finRange maxIrq)
  rw [selectRouted_eq, Option.map_eq_some_iff] at chosen
  obtain ⟨irq', found, eq⟩ := chosen
  cases eq
  rw [found] at best
  exact ⟨best.2.1, rfl, fun other yes => best.2.2 other (List.mem_finRange other) yes⟩

structure Deliverable (n : Nvic) (c : Cpu) (irq : Irq) : Prop where
  enabled : testBit n.enableMask irq = true
  pending : testBit n.pendingMask irq = true
  unmasked : c.primask.get (n.irqTargetSec irq) = 0

theorem deliverable_iff {n : Nvic} {c : Cpu} {irq : Irq} :
    n.Deliverable c irq ↔ n.candidate c irq = true := by
  rw [candidate_iff]
  exact ⟨fun h => ⟨⟨h.enabled, h.pending⟩, h.unmasked⟩, fun h => ⟨h.1.1, h.1.2, h.2⟩⟩

def IsFirst (n : Nvic) (c : Cpu) : Option (Irq × SecState) → Prop
  | none => ∀ irq, ¬ n.Deliverable c irq
  | some (irq, sec) => n.Deliverable c irq ∧ sec = n.irqTargetSec irq ∧
    ∀ other, n.Deliverable c other → n.priority irq < n.priority other ∨
      n.priority irq = n.priority other ∧ irq ≤ other

instance (n : Nvic) (c : Cpu) (irq : Irq) : Decidable (n.Deliverable c irq) :=
  decidable_of_iff _ deliverable_iff.symm

theorem isFirst_of_selectRouted {n : Nvic} {c : Cpu} {irq : Irq} {sec : SecState}
    (chosen : n.selectRouted c = some (irq, sec)) : n.IsFirst c (some (irq, sec)) := by
  obtain ⟨yes, target, least⟩ := of_selectRouted chosen
  refine ⟨deliverable_iff.mpr yes, target, fun other deliverable => ?_⟩
  have yes' := deliverable_iff.mp deliverable
  by_cases less : n.priority irq < n.priority other
  · exact .inl less
  · have same := BitVec.le_antisymm (least other yes') (BitVec.not_lt.mp less)
    refine .inr ⟨same, ?_⟩
    rw [selectRouted_eq, Option.map_eq_some_iff] at chosen
    obtain ⟨irq', found, eq⟩ := chosen
    cases eq
    have sorted : (List.finRange maxIrq).Pairwise (· < ·) := List.pairwise_lt_finRange maxIrq
    rcases first_foldl sorted found other (List.mem_finRange other) yes'
      (congrArg BitVec.toNat same.symm) with is | after
    · exact Fin.le_of_eq is.symm
    · exact Fin.le_of_lt after

theorem selectRouted_isFirst (n : Nvic) (c : Cpu) : n.IsFirst c (n.selectRouted c) := by
  cases chosen : n.selectRouted c with
  | none =>
    intro irq deliverable
    exact nomatch (deliverable_iff.mp deliverable).symm.trans (selectRouted_eq_none_iff.mp chosen irq)
  | some choice => exact isFirst_of_selectRouted chosen

end M33mu.Nvic
