import M33mu.SysTick

namespace M33mu

open Lib

namespace Scs

variable {scs : Scs}

def current (scs : Scs) : Nat := (scs.systickVal &&& 0x00FFFFFF).toNat

def architecturalTick (scs : Scs) : Scs :=
  let cur := scs.current
  if cur = 0 then { scs with systickVal := BitVec.ofNat 32 scs.load &&& 0x00FFFFFF }
  else if cur = 1 then
    { scs with
      systickVal := 0
      systickWraps := scs.systickWraps + 1
      systickCountflag := true
      pendSt := scs.pendSt || scs.systickCtrl.getLsbD 1 }
  else { scs with systickVal := BitVec.ofNat 32 (cur - 1) &&& 0x00FFFFFF }

structure SameExpiries (s s' : Scs) : Prop where
  countflag : s.systickCountflag = s'.systickCountflag
  pendSt : s.pendSt = s'.pendSt
  wraps : s.systickWraps = s'.systickWraps

/-- The cycles before the architectural counter is 0 next. -/
def untilZero (scs : Scs) : Nat := if scs.current = 0 then scs.load + 1 else scs.current

theorem untilZero_pos (scs : Scs) : 0 < scs.untilZero := by
  rw [untilZero]
  split <;> omega

theorem load_lt (scs : Scs) : scs.load < 2 ^ 24 := by
  rw [load, BitVec.toNat_and]
  exact Nat.lt_of_le_of_lt Nat.and_le_right (by decide)

theorem current_lt (scs : Scs) : scs.current < 2 ^ 24 := by
  rw [current, BitVec.toNat_and]
  exact Nat.lt_of_le_of_lt Nat.and_le_right (by decide)

structure Expired (scs s : Scs) (wraps : Nat) : Prop where
  ctrl : s.systickCtrl = scs.systickCtrl
  load : s.systickLoad = scs.systickLoad
  total : s.systickWraps = scs.systickWraps + BitVec.ofNat 64 wraps
  countflag : s.systickCountflag = (scs.systickCountflag || wraps != 0)
  pendSt : s.pendSt = (scs.pendSt || wraps != 0 && scs.systickCtrl.getLsbD 1)

theorem expired_zero (scs : Scs) (val : Word) : Expired scs { scs with systickVal := val } 0 where
  ctrl := rfl
  load := rfl
  total := (BitVec.add_zero _).symm
  countflag := (Bool.or_false _).symm
  pendSt := (Bool.or_false _).symm

theorem Expired.refl (scs : Scs) : Expired scs scs 0 := expired_zero scs scs.systickVal

theorem expired_counted (scs : Scs) (val wraps : Nat) : Expired scs (scs.counted val wraps) wraps :=
  ⟨rfl, rfl, rfl, rfl, rfl⟩

theorem Expired.trans {s s' : Scs} {wraps wraps' : Nat} (h : Expired scs s wraps)
    (h' : Expired s s' wraps') : Expired scs s' (wraps + wraps') := by
  have sum : (wraps + wraps' != 0) = (wraps != 0 || wraps' != 0) := by
    rw [Bool.eq_iff_iff]
    simp only [bne_iff_ne, Bool.or_eq_true]
    omega
  refine ⟨h'.ctrl.trans h.ctrl, h'.load.trans h.load, ?_, ?_, ?_⟩
  · rw [h'.total, h.total, BitVec.ofNat_add, BitVec.add_assoc]
  · rw [h'.countflag, h.countflag, sum, Bool.or_assoc]
  · rw [h'.pendSt, h.pendSt, h.ctrl, sum, Bool.or_assoc, ← Bool.and_or_distrib_right]

theorem Expired.same_iff {s s' : Scs} {wraps wraps' : Nat} (h : Expired scs s wraps)
    (h' : Expired scs s' wraps') (lt : wraps < 2 ^ 64) (lt' : wraps' < 2 ^ 64) :
    SameExpiries s s' ↔ wraps = wraps' := by
  constructor
  · intro same
    have sum : scs.systickWraps + BitVec.ofNat 64 wraps =
        scs.systickWraps + BitVec.ofNat 64 wraps' := by
      rw [← h.total, ← h'.total, same.wraps]
    have eq := congrArg BitVec.toNat ((BitVec.add_right_inj _).mp sum)
    rwa [BitVec.toNat_ofNat, BitVec.toNat_ofNat, Nat.mod_eq_of_lt lt, Nat.mod_eq_of_lt lt'] at eq
  · rintro rfl
    exact ⟨h.countflag.trans h'.countflag.symm, h.pendSt.trans h'.pendSt.symm,
      h.total.trans h'.total.symm⟩

theorem current_of_val {s : Scs} {n : Nat} (small : n < 2 ^ 24)
    (val : s.systickVal = BitVec.ofNat 32 n &&& 0x00FFFFFF) : s.current = n := by
  rw [current, val, BitVec.and_assoc, BitVec.and_self, systickVal_toNat small]

/-- One cycle of the architectural counter, by the cycles it has left. -/
theorem architecturalTick_counts (loaded : scs.load ≠ 0) :
    Expired scs scs.architecturalTick (reloads (scs.load + 1) scs.untilZero 1) ∧
      scs.architecturalTick.untilZero = countLeft (scs.load + 1) scs.untilZero 1 := by
  have top := scs.load_lt
  have below := scs.current_lt
  rw [reloads_one scs.untilZero_pos, countLeft_one scs.untilZero_pos]
  by_cases zero : scs.current = 0
  · have tick : scs.architecturalTick =
        { scs with systickVal := BitVec.ofNat 32 scs.load &&& 0x00FFFFFF } := if_pos zero
    have cur : scs.architecturalTick.current = scs.load :=
      current_of_val top (congrArg systickVal tick)
    have left : scs.untilZero = scs.load + 1 := if_pos zero
    have more : ¬ scs.load + 1 = 1 := by omega
    rw [left, if_neg more, if_neg more]
    constructor
    · rw [tick]
      exact expired_zero scs _
    · rw [untilZero, cur, if_neg loaded, Nat.add_sub_cancel]
  · have left : scs.untilZero = scs.current := if_neg zero
    rw [left]
    by_cases one : scs.current = 1
    · have tick : scs.architecturalTick =
          { scs with
            systickVal := 0
            systickWraps := scs.systickWraps + 1
            systickCountflag := true
            pendSt := scs.pendSt || scs.systickCtrl.getLsbD 1 } :=
        (if_neg zero).trans (if_pos one)
      rw [if_pos one, if_pos one, tick]
      constructor
      · exact ⟨rfl, rfl, rfl, (Bool.or_true _).symm, rfl⟩
      · exact if_pos (show (0 &&& 0x00FFFFFF : Word).toNat = 0 from rfl)
    · have tick : scs.architecturalTick =
          { scs with systickVal := BitVec.ofNat 32 (scs.current - 1) &&& 0x00FFFFFF } :=
        (if_neg zero).trans (if_neg one)
      have cur : scs.architecturalTick.current = scs.current - 1 :=
        current_of_val (by omega) (congrArg systickVal tick)
      rw [if_neg one, if_neg one]
      constructor
      · rw [tick]
        exact expired_zero scs _
      · rw [untilZero, cur, if_neg (by omega)]

theorem iterate_architecturalTick (loaded : scs.load ≠ 0) (n : Nat) :
    Expired scs (architecturalTick^[n] scs) (reloads (scs.load + 1) scs.untilZero n) ∧
      (architecturalTick^[n] scs).untilZero = countLeft (scs.load + 1) scs.untilZero n := by
  induction n with
  | zero =>
    rw [reloads, countLeft, if_pos scs.untilZero_pos, if_pos scs.untilZero_pos]
    exact ⟨Expired.refl scs, rfl⟩
  | succ n ih =>
    obtain ⟨expired, left⟩ := ih
    obtain ⟨later, count⟩ := countLeft_add (Nat.succ_pos scs.load) scs.untilZero n 1
    have reload : (architecturalTick^[n] scs).load = scs.load :=
      congrArg (fun w => (w &&& 0x00FFFFFF).toNat) expired.load
    obtain ⟨step, next⟩ := architecturalTick_counts (reload.trans_ne loaded)
    rw [Function.iterate_succ_apply', ← count, ← later, ← left]
    rw [reload] at step next
    exact ⟨expired.trans step, next⟩

theorem systickAdvance_expired (enabled : scs.systickCtrl.getLsbD 0 = true)
    (loaded : scs.load ≠ 0) (n : BitVec 64) :
    Expired scs (scs.systickAdvance n) (reloads scs.load scs.systickCurrent n.toNat) := by
  have on : scs.systickCyclesUntilFire = some (BitVec.ofNat 64 scs.systickCurrent) :=
    systickCyclesUntilFire_eq_some.mpr ⟨enabled, loaded, rfl⟩
  obtain ⟨cur, pos⟩ := toNat_of_on on
  rw [cur] at pos
  by_cases none : n = 0
  · subst none
    rw [systickAdvance_zero, reloads, if_pos (show (0 : BitVec 64).toNat < _ from pos)]
    exact Expired.refl scs
  · rw [systickAdvance_of_on on none, cur]
    exact expired_counted ..

/-- The cycles since the counter was 0 first are not so many that a period has been gained. -/
theorem reloads_eq_iff (loaded : scs.load ≠ 0) (n : Nat) :
    reloads scs.load scs.systickCurrent n = reloads (scs.load + 1) scs.untilZero n ↔
      (n - scs.current) % (scs.load + 1) + (n - scs.current) / (scs.load + 1) < scs.load := by
  have pos := Nat.pos_of_ne_zero loaded
  rw [← div_eq_div_succ_iff pos]
  by_cases zero : scs.current = 0
  · have cur : scs.systickCurrent = scs.load := if_pos zero
    have left : scs.untilZero = scs.load + 1 := if_pos zero
    rw [cur, left, reloads_self pos, reloads_self (Nat.succ_pos _), zero, Nat.sub_zero]
  · have cur : scs.systickCurrent = scs.current := if_neg zero
    have left : scs.untilZero = scs.current := if_neg zero
    rw [cur, left, reloads, reloads]
    by_cases early : n < scs.current
    · rw [if_pos early, if_pos early, Nat.sub_eq_zero_of_le (Nat.le_of_lt early), Nat.zero_div, Nat.zero_div]
    · rw [if_neg early, if_neg early, Nat.add_right_cancel_iff]

/-- `mm_scs_systick_advance` and the architectural counter expire as often while the periods
passed and the cycles of the current one are fewer than LOAD. -/
theorem sameExpiries_architectural_iff (enabled : scs.systickCtrl.getLsbD 0 = true)
    (loaded : scs.load ≠ 0) (n : BitVec 64) :
    SameExpiries (scs.systickAdvance n) (architecturalTick^[n.toNat] scs) ↔
      (n.toNat - scs.current) % (scs.load + 1) + (n.toNat - scs.current) / (scs.load + 1) <
        scs.load := by
  have pos : 0 < scs.systickCurrent := by
    have h : scs.load = (scs.systickLoad &&& 0x00FFFFFF).toNat := rfl
    simp only [systickCurrent]
    split <;> omega
  have bulk := Nat.lt_of_le_of_lt (reloads_le scs.load scs.systickCurrent n.toNat pos) n.isLt
  have steps := Nat.lt_of_le_of_lt
    (reloads_le (scs.load + 1) scs.untilZero n.toNat scs.untilZero_pos) n.isLt
  have expired := (iterate_architecturalTick loaded n.toNat).1
  rw [(systickAdvance_expired enabled loaded n).same_iff expired bulk steps, reloads_eq_iff loaded]

theorem sameExpiries_architectural_reloading :
    let scs := { Scs.init 0 with systickCtrl := 3, systickLoad := 3 }
    SameExpiries (scs.systickAdvance 2) (architecturalTick^[2] scs) := by
  have enabled : ({ Scs.init 0 with systickCtrl := 3, systickLoad := 3 } : Scs).systickCtrl.getLsbD
      0 = true := rfl
  exact (sameExpiries_architectural_iff enabled (by decide) 2).mpr (by decide)

theorem not_sameExpiries_architectural :
    let scs := { Scs.init 0 with systickCtrl := 3, systickLoad := 3 }
    scs.load = 3 ∧ (scs.systickAdvance 3).pendSt = true ∧
      (architecturalTick^[3] scs).pendSt = false ∧ (architecturalTick^[4] scs).pendSt = true := by
  decide

end Scs

end M33mu
