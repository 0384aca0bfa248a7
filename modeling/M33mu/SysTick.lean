import M33mu.Lib.Prescaler
import M33mu.Scs
import Mathlib.Logic.Function.Iterate

namespace M33mu

open Lib

namespace Scs

variable {scs : Scs}

theorem systickCurrent_lt (scs : Scs) : scs.systickCurrent < 2 ^ 24 := by
  have low (v : Word) : (v &&& 0x00FFFFFF).toNat < 2 ^ 24 := by
    rw [BitVec.toNat_and]
    exact Nat.lt_of_le_of_lt Nat.and_le_right (by decide)
  simp only [systickCurrent]
  split
  · exact low _
  · exact low _

theorem systickVal_toNat {n : Nat} (small : n < 2 ^ 24) :
    (BitVec.ofNat 32 n &&& 0x00FFFFFF).toNat = n := by
  rw [BitVec.toNat_and, BitVec.toNat_ofNat, Nat.mod_eq_of_lt (by omega)]
  exact (Nat.and_two_pow_sub_one_eq_mod n 24).trans (Nat.mod_eq_of_lt small)

theorem systickAdvance_zero (scs : Scs) : scs.systickAdvance 0 = scs := by
  simp [systickAdvance]

theorem systickAdvance_of_off (off : scs.systickCyclesUntilFire = none) (n : BitVec 64) :
    scs.systickAdvance n = scs := by
  simp only [systickCyclesUntilFire] at off
  simp only [systickAdvance]
  split at off
  · rename_i stopped
    rw [if_pos (.inr stopped)]
  · cases off

theorem systickCyclesUntilFire_eq_some {delta : BitVec 64} :
    scs.systickCyclesUntilFire = some delta ↔ scs.systickCtrl.getLsbD 0 = true ∧
      (scs.systickLoad &&& 0x00FFFFFF).toNat ≠ 0 ∧ delta = BitVec.ofNat 64 scs.systickCurrent := by
  simp only [systickCyclesUntilFire]
  split
  · rename_i stopped
    refine ⟨nofun, fun ⟨enabled, loaded, _⟩ => ?_⟩
    rcases stopped with off | none
    · exact absurd (enabled.symm.trans off) nofun
    · exact absurd none loaded
  · rename_i running
    rw [not_or, Bool.not_eq_false] at running
    rw [Option.some.injEq, eq_comm]
    exact ⟨fun eq => ⟨running.1, running.2, eq⟩, fun h => h.2.2⟩

theorem toNat_of_on {delta : BitVec 64} (on : scs.systickCyclesUntilFire = some delta) :
    delta.toNat = scs.systickCurrent ∧ 0 < delta.toNat := by
  have small := scs.systickCurrent_lt
  obtain ⟨-, loaded, rfl⟩ := systickCyclesUntilFire_eq_some.mp on
  rw [BitVec.toNat_ofNat, Nat.mod_eq_of_lt (by omega)]
  refine ⟨rfl, ?_⟩
  simp only [systickCurrent]
  split <;> omega

def load (scs : Scs) : Nat := (scs.systickLoad &&& 0x00FFFFFF).toNat

def counted (scs : Scs) (val wraps : Nat) : Scs :=
  { scs with
    systickVal := BitVec.ofNat 32 val &&& 0x00FFFFFF
    systickWraps := scs.systickWraps + BitVec.ofNat 64 wraps
    systickCountflag := scs.systickCountflag || wraps != 0
    pendSt := scs.pendSt || wraps != 0 && scs.systickCtrl.getLsbD 1 }

theorem counted_counted (scs : Scs) (val val' wraps wraps' : Nat) :
    (scs.counted val wraps).counted val' wraps' = scs.counted val' (wraps + wraps') := by
  have some : (wraps + wraps' != 0) = (wraps != 0 || wraps' != 0) := by
    rw [Bool.eq_iff_iff]
    simp only [bne_iff_ne, Bool.or_eq_true]
    omega
  simp only [counted, BitVec.ofNat_add, BitVec.add_assoc, some, Bool.or_assoc,
    Bool.and_or_distrib_right]

theorem systickAdvance_of_on {delta : BitVec 64} (on : scs.systickCyclesUntilFire = some delta)
    {n : BitVec 64} (some : n ≠ 0) : scs.systickAdvance n =
      scs.counted (countLeft scs.load delta.toNat n.toNat)
        (reloads scs.load delta.toNat n.toNat) := by
  obtain ⟨enabled, loaded, -⟩ := systickCyclesUntilFire_eq_some.mp on
  have cur := (toNat_of_on on).1
  have running : ¬ (n = 0 ∨ scs.systickCtrl.getLsbD 0 = false ∨
      (scs.systickLoad &&& 0x00FFFFFF).toNat = 0) := by
    rintro (none | off | unloaded)
    · exact some none
    · exact absurd (enabled.symm.trans off) nofun
    · exact loaded unloaded
  simp only [systickAdvance, counted, if_neg running, countLeft, reloads, cur, load]
  split
  · simp
  · have rem (l r : Nat) : (if r = 0 then l else l - r) = l - r := by
      split <;> omega
    have wraps (q : Nat) : scs.systickWraps + 1 + BitVec.ofNat 64 q =
        scs.systickWraps + BitVec.ofNat 64 (q + 1) := by
      rw [BitVec.ofNat_add, BitVec.add_assoc, BitVec.add_comm 1]
      rfl
    have reloaded (q : Nat) : (q + 1 != 0) = true := rfl
    simp only [rem, wraps, reloaded, Bool.or_true, Bool.true_and]

theorem systickAdvance_keeps (scs : Scs) (n : BitVec 64) :
    (scs.systickAdvance n).pendSv = scs.pendSv ∧
      (scs.systickAdvance n).systickCtrl = scs.systickCtrl ∧
      (scs.systickAdvance n).systickLoad = scs.systickLoad := by
  simp only [systickAdvance]
  split
  · exact ⟨rfl, rfl, rfl⟩
  · split <;> exact ⟨rfl, rfl, rfl⟩

theorem off_systickAdvance (scs : Scs) (n : BitVec 64) :
    (scs.systickAdvance n).systickCyclesUntilFire = none ↔ scs.systickCyclesUntilFire = none := by
  obtain ⟨-, ctrl, load⟩ := scs.systickAdvance_keeps n
  simp only [systickCyclesUntilFire, ctrl, load]
  split <;> simp

theorem countLeft_of_on {delta : BitVec 64} (on : scs.systickCyclesUntilFire = some delta)
    (n : BitVec 64) : 0 < countLeft scs.load delta.toNat n.toNat ∧
      countLeft scs.load delta.toNat n.toNat < 2 ^ 24 := by
  obtain ⟨-, loaded, -⟩ := systickCyclesUntilFire_eq_some.mp on
  have cur := (toNat_of_on on).1
  have small := scs.systickCurrent_lt
  have top : scs.load < 2 ^ 24 := by
    rw [load, BitVec.toNat_and]
    exact Nat.lt_of_le_of_lt Nat.and_le_right (by decide)
  have hl : 0 < scs.load := Nat.pos_of_ne_zero loaded
  have bounds : _ ∧ countLeft scs.load delta.toNat n.toNat ≤ _ := countLeft_bounds hl n.toNat
  exact ⟨bounds.1, Nat.lt_of_le_of_lt bounds.2 (by omega)⟩

theorem systickCyclesUntilFire_advance {delta : BitVec 64}
    (on : scs.systickCyclesUntilFire = some delta) {n : BitVec 64} (hn : n ≠ 0) :
    (scs.systickAdvance n).systickCyclesUntilFire =
      some (BitVec.ofNat 64 (countLeft scs.load delta.toNat n.toNat)) := by
  obtain ⟨-, ctrl, reload⟩ := scs.systickAdvance_keeps n
  obtain ⟨enabled, loaded, -⟩ := systickCyclesUntilFire_eq_some.mp on
  have cur := (toNat_of_on on).1
  have small := scs.systickCurrent_lt
  obtain ⟨pos, bound⟩ := countLeft_of_on on n
  obtain ⟨left, eq⟩ : ∃ left, countLeft scs.load delta.toNat n.toNat = left := ⟨_, rfl⟩
  rw [eq] at pos bound
  refine systickCyclesUntilFire_eq_some.mpr ⟨ctrl ▸ enabled, reload ▸ loaded, ?_⟩
  have val : ((scs.systickAdvance n).systickVal &&& 0x00FFFFFF).toNat = left := by
    rw [systickAdvance_of_on on hn, eq, counted, BitVec.and_assoc, BitVec.and_self]
    exact systickVal_toNat bound
  rw [systickCurrent, val, if_neg (by omega), eq]

theorem systickAdvance_add (scs : Scs) {a b : BitVec 64} (small : a.toNat + b.toNat < 2 ^ 64) :
    (scs.systickAdvance a).systickAdvance b = scs.systickAdvance (a + b) := by
  by_cases ha : a = 0
  · subst ha
    rw [systickAdvance_zero]
    exact congrArg scs.systickAdvance (BitVec.zero_add b).symm
  by_cases hb : b = 0
  · subst hb
    rw [systickAdvance_zero]
    exact congrArg scs.systickAdvance (BitVec.add_zero a).symm
  cases dist : scs.systickCyclesUntilFire with
  | none =>
    rw [systickAdvance_of_off dist, systickAdvance_of_off dist, systickAdvance_of_off dist]
  | some delta =>
    have sum : (a + b).toNat = a.toNat + b.toNat := by
      rw [BitVec.toNat_add, Nat.mod_eq_of_lt small]
    have hsum : a + b ≠ 0 := fun zero => by
      have zeros : a.toNat + b.toNat = 0 := sum.symm.trans (congrArg BitVec.toNat zero)
      exact ha (BitVec.eq_of_toNat_eq (Nat.eq_zero_of_add_eq_zero_right zeros))
    obtain ⟨-, loaded, -⟩ := systickCyclesUntilFire_eq_some.mp dist
    obtain ⟨left, wraps⟩ := countLeft_add (Nat.pos_of_ne_zero loaded) delta.toNat a.toNat b.toNat
    have reload : (scs.systickAdvance a).load = scs.load :=
      congrArg (fun w => (w &&& 0x00FFFFFF).toNat) (scs.systickAdvance_keeps a).2.2
    have bound := (countLeft_of_on dist a).2
    rw [systickAdvance_of_on (systickCyclesUntilFire_advance dist ha) hb, BitVec.toNat_ofNat,
      Nat.mod_eq_of_lt (by omega), reload, systickAdvance_of_on dist ha, counted_counted,
      systickAdvance_of_on dist hsum, sum]
    exact congr (congrArg scs.counted left) wraps

/-- `mm_scs_systick_step`. -/
def systickStep (scs : Scs) : Scs := scs.systickAdvance 1

def Silent (scs : Scs) : Prop :=
  scs.systickCtrl.getLsbD 1 = true → scs.systickCyclesUntilFire = none

theorem Silent.advance (silent : scs.Silent) (n : BitVec 64) :
    (scs.systickAdvance n).Silent ∧ (scs.systickAdvance n).pendSt = scs.pendSt := by
  constructor
  · rw [Silent, off_systickAdvance, (scs.systickAdvance_keeps n).2.1]
    exact silent
  · cases tickint : scs.systickCtrl.getLsbD 1 with
    | true => rw [systickAdvance_of_off (silent tickint)]
    | false =>
      simp only [systickAdvance, tickint, Bool.or_false]
      split
      · rfl
      · split <;> rfl

theorem iterate_systickStep (scs : Scs) {n : Nat} (small : n < 2 ^ 64) :
    systickStep^[n] scs = scs.systickAdvance (BitVec.ofNat 64 n) := by
  induction n with
  | zero => exact (systickAdvance_zero scs).symm
  | succ n ih =>
    have nat : (BitVec.ofNat 64 n).toNat = n := Nat.mod_eq_of_lt (Nat.lt_of_succ_lt small)
    rw [Function.iterate_succ_apply', ih (Nat.lt_of_succ_lt small), systickStep,
      systickAdvance_add scs (by rw [nat]; exact small), BitVec.ofNat_add]
    rfl

theorem iterate_systickStep_keeps (scs : Scs) (n : Nat) :
    (systickStep^[n] scs).pendSv = scs.pendSv ∧
      (systickStep^[n] scs).systickCtrl = scs.systickCtrl ∧
      ((systickStep^[n] scs).systickCyclesUntilFire = none ↔
        scs.systickCyclesUntilFire = none) := by
  induction n with
  | zero => exact ⟨rfl, rfl, Iff.rfl⟩
  | succ n ih =>
    obtain ⟨pendSv, ctrl, -⟩ := (systickStep^[n] scs).systickAdvance_keeps 1
    rw [Function.iterate_succ_apply']
    exact ⟨pendSv.trans ih.1, ctrl.trans ih.2.1, (off_systickAdvance _ 1).trans ih.2.2⟩

theorem pendSt_iterate_systickStep {n : Nat}
    (quiet : ∀ delta, scs.systickCyclesUntilFire = some delta →
      scs.systickCtrl.getLsbD 1 = true → n < delta.toNat) :
    (systickStep^[n] scs).pendSt = scs.pendSt := by
  by_cases silent : scs.Silent
  · have both : (systickStep^[n] scs).Silent ∧ (systickStep^[n] scs).pendSt = scs.pendSt := by
      clear quiet
      induction n with
      | zero => exact ⟨silent, rfl⟩
      | succ n ih =>
        rw [Function.iterate_succ_apply']
        exact ⟨(ih.1.advance 1).1, (ih.1.advance 1).2.trans ih.2⟩
    exact both.2
  · rw [Silent, Classical.not_imp] at silent
    obtain ⟨tickint, on⟩ := silent
    obtain ⟨delta, on⟩ := Option.ne_none_iff_exists'.mp on
    have lt := quiet delta on tickint
    rw [iterate_systickStep scs (Nat.lt_trans lt delta.isLt)]
    have nat : (BitVec.ofNat 64 n).toNat = n := Nat.mod_eq_of_lt (Nat.lt_trans lt delta.isLt)
    by_cases none : BitVec.ofNat 64 n = 0
    · rw [none, systickAdvance_zero]
    · rw [systickAdvance_of_on on none, nat, counted, reloads, if_pos lt]
      simp

theorem pendSt_at_expiry {delta : BitVec 64} (on : scs.systickCyclesUntilFire = some delta)
    (tickint : scs.systickCtrl.getLsbD 1 = true) :
    (systickStep^[delta.toNat] scs).pendSt = true := by
  have pos := (toNat_of_on on).2
  have some : delta ≠ 0 := fun zero => by simp [zero] at pos
  rw [iterate_systickStep scs delta.isLt, BitVec.ofNat_toNat, BitVec.setWidth_eq,
    systickAdvance_of_on on some, counted, reloads, if_neg (Nat.lt_irrefl _)]
  simp [tickint]

/-- Bulk advances add up and are single steps, and count a wrap exactly at the expiry. -/
theorem systickAdvance_counts (scs : Scs) :
    (∀ a b : BitVec 64, a.toNat + b.toNat < 2 ^ 64 →
      (scs.systickAdvance a).systickAdvance b = scs.systickAdvance (a + b)) ∧
    (∀ n : BitVec 64, scs.systickAdvance n = systickStep^[n.toNat] scs) ∧
    ∀ delta : BitVec 64, scs.systickCyclesUntilFire = some delta →
      (∀ n < delta, (scs.systickAdvance n).systickWraps = scs.systickWraps) ∧
      (scs.systickAdvance delta).systickWraps = scs.systickWraps + 1 := by
  refine ⟨fun a b small => systickAdvance_add scs small, fun n => ?_, fun delta on => ⟨?_, ?_⟩⟩
  · rw [iterate_systickStep scs n.isLt, BitVec.ofNat_toNat, BitVec.setWidth_eq]
  · intro n lt
    by_cases none : n = 0
    · rw [none, systickAdvance_zero]
    · rw [systickAdvance_of_on on none, counted, reloads, if_pos (BitVec.lt_def.mp lt)]
      simp
  · have pos := (toNat_of_on on).2
    have some : delta ≠ 0 := fun zero => by simp [zero] at pos
    rw [systickAdvance_of_on on some, counted, reloads, if_neg (Nat.lt_irrefl _), Nat.sub_self,
      Nat.zero_div]
    rfl

theorem systickAdvance_counts_reloading :
    let scs := { Scs.init 0 with systickCtrl := 3, systickLoad := 3 }
    (scs.systickAdvance 2).systickAdvance 5 = scs.systickAdvance 7 ∧
      (scs.systickAdvance 2).systickWraps = scs.systickWraps ∧
      (scs.systickAdvance 3).systickWraps = scs.systickWraps + 1 :=
  let counts := systickAdvance_counts { Scs.init 0 with systickCtrl := 3, systickLoad := 3 }
  ⟨counts.1 2 5 (by decide), (counts.2.2 3 (by decide)).1 2 (by decide),
    (counts.2.2 3 (by decide)).2⟩

end Scs

end M33mu
