import Mathlib.Tactic.IntervalCases
import M33mu.Lib.Lanes
import M33mu.NvicReads

namespace M33mu

open Lib

namespace ScsBlock

def InLanes (offset size : Word) (k : Nat) : Prop :=
  (offset &&& 0x3).toNat ≤ k ∧ k < (offset &&& 0x3).toNat + size.toNat

instance (offset size : Word) (k : Nat) : Decidable (InLanes offset size k) :=
  inferInstanceAs (Decidable (_ ∧ _))

def laneMask (offset size : Word) : Word :=
  (if size = 1 then 0xFF else 0xFFFF : Word) <<< ((offset &&& 0x3).toNat * 8)

def lanes (offset size value : Word) : Word :=
  (value &&& if size = 1 then 0xFF else 0xFFFF : Word) <<< ((offset &&& 0x3).toNat * 8)

theorem lanes_and_mask (offset size value : Word) :
    lanes offset size value &&& laneMask offset size = lanes offset size value := by
  rw [lanes, laneMask, ← BitVec.shiftLeft_and_distrib, BitVec.and_assoc, BitVec.and_self]

theorem insertSubword_eq (offset size cur value : Word) :
    insertSubword offset size cur value =
      blend (laneMask offset size) cur (lanes offset size value) := by
  rw [blend, lanes_and_mask]
  rfl

def slotWrite (b : ScsBlock) (w : Word) : ScbReg → ScsBlock
  | .sauD8 =>
    if b.sauLayout = .legacy then { b with scs := { b.scs with sauRnr := w &&& 0x7 } }
    else { b with scs := { b.scs with sauRbar := setRegion b.scs.sauRbar b.scs.sauRnr w } }
  | .sauDC =>
    if b.sauLayout = .legacy then
      { b with scs := { b.scs with sauRbar := setRegion b.scs.sauRbar b.scs.sauRnr w } }
    else { b with scs := { b.scs with sauRlar := setRegion b.scs.sauRlar b.scs.sauRnr w } }
  | .sauE0 =>
    if b.sauLayout = .legacy then
      { b with scs := { b.scs with sauRlar := setRegion b.scs.sauRlar b.scs.sauRnr w } }
    else { b with scs := { b.scs with sauSfsr := w } }
  | .sauE4 =>
    if b.sauLayout = .legacy then { b with scs := { b.scs with sauSfsr := w } }
    else { b with scs := { b.scs with sauSfar := w } }
  | _ => b

def icsrWrite (b : ScsBlock) (win : SecState) (w stored : Word) : ScsBlock :=
  { b with scs := { b.scs with
    pendSv := !w.getLsbD 27 && (w.getLsbD 28 || b.scs.pendSv)
    pendSt := !w.getLsbD 25 && (w.getLsbD 26 || b.scs.pendSt)
    icsr := b.scs.icsr.set win stored } }

/-- A word write of an SCB register restricted to the addressed lanes: flags are set and cleared
by written bits only, the key has to be among them, and all else keeps the other lanes. -/
def laneScbWrite (b : ScsBlock) (win eff : SecState) (offset size value : Word) (reg : ScbReg) :
    Bool × ScsBlock :=
  let mask := laneMask offset size
  let w := lanes offset size value
  match reg with
  | .icsr => (true, b.icsrWrite win w (blend mask (b.scs.icsr.get win) (icsrStored w)))
  | .aircr =>
    if aircrKeyOk w then
      (true, { b with
        scs := { b.scs with aircr := b.scs.aircr.set win (blend mask (b.scs.aircr.get win) w) }
        resetPending := b.resetPending || w.getLsbD 2 })
    else (false, b)
  | .cfsr => b.scbWrite win eff w .cfsr
  | .sauD8 | .sauDC | .sauE0 | .sauE4 =>
    (true, b.sauWrite eff fun b => b.slotWrite (blend mask (b.scbRead win eff reg) w) reg)
  | reg => b.scbWrite win eff (blend mask (b.scbRead win eff reg) w) reg

/-- Whether a write of `m` to a slot of the SAU reaches the register that the slot reads, or
finds in both what it would leave there. -/
def SlotAlone (b : ScsBlock) (m : Word) : ScbReg → Prop
  | .sauD8 => (b.sauLayout = .legacy ↔ m &&& ~~~0x7#32 = 0) ∨ b.sauLayout = .legacy ∧
      m &&& 0x7 = b.scs.sauRnr ∧ m = b.scs.sauRbar (Scs.regionIndex b.scs.sauRnr)
  | .sauDC => (b.sauLayout = .legacy ↔ m &&& 0x1F = 0) ∨ b.sauLayout = .legacy ∧
      m = b.scs.sauRbar (Scs.regionIndex b.scs.sauRnr) ∧
        m = b.scs.sauRlar (Scs.regionIndex b.scs.sauRnr)
  | .sauE0 => (b.sauLayout = .legacy ↔ 0xFF < m) ∨ b.sauLayout = .legacy ∧
      m = b.scs.sauRlar (Scs.regionIndex b.scs.sauRnr) ∧ m = b.scs.sauSfsr
  | .sauE4 => (b.sauLayout = .legacy ↔ m ≤ 0xFF) ∨ b.sauLayout = .legacy ∧
      m = b.scs.sauSfsr ∧ m = b.scs.sauSfar
  | _ => True

def ScbAlone (b : ScsBlock) (win eff : SecState) (offset size value : Word) (reg : ScbReg) : Prop :=
  let mask := laneMask offset size
  let w := lanes offset size value
  match reg with
  | .icsr => ¬ InLanes offset size 3 →
      b.scs.pendSv = ((b.scs.icsr.get win).getLsbD 28 && !(b.scs.icsr.get win).getLsbD 27) ∧
        (b.scs.icsr.get win).getLsbD 26 = false ∧ (b.scs.icsr.get win).getLsbD 25 = false
  | .aircr =>
    if aircrKeyOk w then b.scs.aircr.get eff &&& ~~~mask = b.scs.aircr.get win &&& ~~~mask ∧
      ((b.scs.aircr.get eff).getLsbD 2 = true → b.resetPending = true)
    else ¬ aircrKeyOk (blend mask (b.scs.aircr.get eff) w)
  | .cfsr => b.scs.cfsr &&& ~~~mask = 0
  | .sauD8 | .sauDC | .sauE0 | .sauE4 =>
    eff = .secure → b.SlotAlone (blend mask (b.scbRead win eff reg) w) reg
  | _ => True

variable {b : ScsBlock} {win eff : SecState} {offset size value : Word}

theorem lane_lt (offset : Word) : (offset &&& 0x3).toNat < 4 := by
  rw [BitVec.toNat_and]
  exact Nat.lt_succ_of_le Nat.and_le_right

theorem getLsbD_laneMask (offset : Word) (sub : size = 1 ∨ size = 2) {k i : Nat} (inWord : k < 4)
    (inByte : i < 8) : (laneMask offset size).getLsbD (8 * k + i) = decide (InLanes offset size k) := by
  have ones8 (i : Nat) : (0xFF : Word).getLsbD i = decide (i < 8) :=
    getLsbD_twoPow_sub_one 32 8 i (by decide)
  have ones16 (i : Nat) : (0xFFFF : Word).getLsbD i = decide (i < 16) :=
    getLsbD_twoPow_sub_one 32 16 i (by decide)
  have inside : 8 * k + i < 32 := by omega
  rw [Bool.eq_iff_iff, decide_eq_true_eq, laneMask, BitVec.getLsbD_shiftLeft, InLanes]
  generalize (offset &&& 0x3).toNat = lane
  rcases sub with rfl | rfl
  · rw [if_pos rfl, ones8]
    simp only [inside, decide_true, Bool.true_and, Bool.and_eq_true, Bool.not_eq_true',
      decide_eq_false_iff_not, decide_eq_true_eq]
    change _ ↔ lane ≤ k ∧ k < lane + 1
    omega
  · rw [if_neg (by decide), ones16]
    simp only [inside, decide_true, Bool.true_and, Bool.and_eq_true, Bool.not_eq_true',
      decide_eq_false_iff_not, decide_eq_true_eq]
    change _ ↔ lane ≤ k ∧ k < lane + 2
    omega

variable (b win eff offset size value) in
def rmwScbWrite (reg : ScbReg) : Bool × ScsBlock :=
  b.scbWrite win eff (blend (laneMask offset size) (b.scbRead win eff reg)
    (lanes offset size value)) reg

theorem cfsr_eq_iff : b.rmwScbWrite win eff offset size value .cfsr =
    b.laneScbWrite win eff offset size value .cfsr ↔
      b.ScbAlone win eff offset size value .cfsr := by
  have clear : b.scs.cfsr &&& ~~~blend (laneMask offset size) b.scs.cfsr (lanes offset size value) =
      b.scs.cfsr &&& ~~~(lanes offset size value &&& laneMask offset size) ↔
        b.scs.cfsr &&& ~~~laneMask offset size = 0 := clear_blend_iff
  rw [lanes_and_mask] at clear
  rw [ScbAlone, ← clear]
  constructor
  · exact fun same => congrArg (·.2.scs.cfsr) same
  · intro same
    simp only [rmwScbWrite, laneScbWrite, scbWrite, scbRead, same]

theorem get_set (x : Banked Word) (sec : SecState) (w : Word) : (x.set sec w).get sec = w := by
  cases sec <;> rfl

theorem scbWrite_icsr (w : Word) :
    b.scbWrite win eff w .icsr = (true, b.icsrWrite win w (icsrStored w)) := by
  rw [scbWrite, icsrWrite, icsrStored]
  cases w.getLsbD 25 <;> cases w.getLsbD 26 <;> cases w.getLsbD 27 <;> cases w.getLsbD 28 <;> rfl

theorem icsrWrite_inj {w w' stored stored' : Word} :
    b.icsrWrite win w stored = b.icsrWrite win w' stored' ↔
      (!w.getLsbD 27 && (w.getLsbD 28 || b.scs.pendSv)) =
        (!w'.getLsbD 27 && (w'.getLsbD 28 || b.scs.pendSv)) ∧
      (!w.getLsbD 25 && (w.getLsbD 26 || b.scs.pendSt)) =
        (!w'.getLsbD 25 && (w'.getLsbD 26 || b.scs.pendSt)) ∧ stored = stored' := by
  constructor
  · intro same
    have kept := congrArg (·.scs.icsr.get win) same
    simp only [icsrWrite, get_set] at kept
    exact ⟨congrArg (·.scs.pendSv) same, congrArg (·.scs.pendSt) same, kept⟩
  · rintro ⟨sv, st, rfl⟩
    rw [icsrWrite, icsrWrite, sv, st]

theorem getLsbD_icsrStored (w : Word) (i : Nat) :
    (icsrStored w).getLsbD i = (w.getLsbD i && !(i == 25 || i == 26)) := by
  by_cases inside : i < 32
  · have keep : ∀ i : Fin 32, (~~~(3#32 <<< 25)).getLsbD i = !(i.val == 25 || i.val == 26) := by decide
    rw [icsrStored, BitVec.getLsbD_and, keep ⟨i, inside⟩]
  · rw [BitVec.getLsbD_of_ge _ _ (Nat.not_lt.mp inside),
      BitVec.getLsbD_of_ge _ _ (Nat.not_lt.mp inside)]
    rfl

theorem getLsbD_icsr (i : Nat) : (b.scbRead win eff .icsr).getLsbD i =
    ((b.scs.icsr.get win).getLsbD i || (b.scs.pendSv && i == 28) || (b.scs.pendSt && i == 26)) := by
  have bit (k : Nat) (low : k < 32) (pend : Bool) :
      (if pend = true then 1#32 <<< k else 0).getLsbD i = (pend && i == k) := by
    cases pend with
    | false => simp
    | true =>
      rw [if_pos rfl, ← BitVec.twoPow_eq, BitVec.getLsbD_twoPow]
      simp only [low, decide_true, Bool.true_and, eq_comm]
      rfl
  rw [scbRead, BitVec.getLsbD_or, BitVec.getLsbD_or, bit 28 (by decide), bit 26 (by decide)]

theorem icsr_stored_iff (out25 : (laneMask offset size).getLsbD 25 = false)
    (out26 : (laneMask offset size).getLsbD 26 = false)
    (out28 : (laneMask offset size).getLsbD 28 = false) :
    icsrStored (blend (laneMask offset size) (b.scbRead win eff .icsr)
        (lanes offset size value)) = blend (laneMask offset size) (b.scs.icsr.get win)
          (icsrStored (lanes offset size value)) ↔
      (b.scs.pendSv = true → (b.scs.icsr.get win).getLsbD 28 = true) ∧
        (b.scs.icsr.get win).getLsbD 26 = false ∧ (b.scs.icsr.get win).getLsbD 25 = false := by
  constructor
  · intro same
    have bit (i : Nat) := congrArg (·.getLsbD i) same
    simp only [getLsbD_icsrStored, getLsbD_blend, getLsbD_icsr] at bit
    have bit28 := bit 28
    have bit26 := bit 26
    have bit25 := bit 25
    simp only [out28, out26, out25, Bool.false_eq_true, if_false] at bit28 bit26 bit25
    refine ⟨fun pend => ?_, ?_, ?_⟩
    · simpa [pend] using bit28.symm
    · simpa using bit26.symm
    · simpa using bit25.symm
  · rintro ⟨pend, clear26, clear25⟩
    apply BitVec.eq_of_getLsbD_eq
    intro i _
    simp only [getLsbD_icsrStored, getLsbD_blend, getLsbD_icsr]
    split
    · rfl
    by_cases at28 : i = 28
    · subst at28
      cases sv : b.scs.pendSv
      · simp
      · simp [pend sv]
    by_cases at26 : i = 26
    · subst at26
      simpa using clear26.symm
    by_cases at25 : i = 25
    · subst at25
      simpa using clear25.symm
    · simp [beq_eq_false_iff_ne.mpr at25, beq_eq_false_iff_ne.mpr at26,
        beq_eq_false_iff_ne.mpr at28]

theorem icsr_eq_iff (sub : size = 1 ∨ size = 2) : b.rmwScbWrite win eff offset size value .icsr =
    b.laneScbWrite win eff offset size value .icsr ↔
      b.ScbAlone win eff offset size value .icsr := by
  have pend (i : Nat) (inByte : i < 8) := getLsbD_laneMask offset sub (by decide : 3 < 4) inByte
  have unwritten (i : Nat) (out : (laneMask offset size).getLsbD i = false) :
      (lanes offset size value).getLsbD i = false := by
    rw [← lanes_and_mask, BitVec.getLsbD_and, out, Bool.and_false]
  rw [rmwScbWrite, scbWrite_icsr, laneScbWrite, Prod.mk.injEq, and_iff_right rfl, icsrWrite_inj]
  simp only [ScbAlone, getLsbD_blend, getLsbD_icsr]
  by_cases written : InLanes offset size 3
  · have inside (i : Nat) (inByte : i < 8) := (pend i inByte).trans (decide_eq_true written)
    rw [inside 1 (by decide), inside 2 (by decide), inside 3 (by decide), inside 4 (by decide)]
    refine iff_of_true ⟨rfl, rfl, ?_⟩ fun out => absurd written out
    apply BitVec.eq_of_getLsbD_eq
    intro i _
    simp only [getLsbD_icsrStored, getLsbD_blend, getLsbD_icsr]
    cases lane : (laneMask offset size).getLsbD i with
    | true => rfl
    | false =>
      have apart (k : Nat) (here : (laneMask offset size).getLsbD k = true) : (i == k) = false := by
        rw [beq_eq_false_iff_ne]
        rintro rfl
        exact nomatch here.symm.trans lane
      simp [apart 25 (inside 1 (by decide)), apart 26 (inside 2 (by decide)),
        apart 28 (inside 4 (by decide))]
  · have out (i : Nat) (inByte : i < 8) := (pend i inByte).trans (decide_eq_false written)
    have out25 := out 1 (by decide)
    have out26 := out 2 (by decide)
    have out27 := out 3 (by decide)
    have out28 := out 4 (by decide)
    rw [forall_prop_of_true written, icsr_stored_iff out25 out26 out28, out25, out26, out27, out28,
      unwritten 25 out25, unwritten 26 out26, unwritten 27 out27, unwritten 28 out28]
    cases b.scs.pendSv <;> cases b.scs.pendSt <;> cases (b.scs.icsr.get win).getLsbD 25 <;>
      cases (b.scs.icsr.get win).getLsbD 26 <;> cases (b.scs.icsr.get win).getLsbD 27 <;>
      cases (b.scs.icsr.get win).getLsbD 28 <;> decide

theorem aircr_lanes_of_key (sub : size = 1 ∨ size = 2) (key : aircrKeyOk (lanes offset size value)) :
    laneMask offset size = 0xFFFF0000 := by
  have bit (i : Nat) : (lanes offset size value).getLsbD i = true →
      (laneMask offset size).getLsbD i = true := by
    rw [← lanes_and_mask, BitVec.getLsbD_and, Bool.and_eq_true]
    exact And.right
  have key' : (lanes offset size value >>> 16) &&& 0xFFFF#32 = 0x05FA#32 := key
  have set17 : (lanes offset size value).getLsbD 17 = true := by
    simpa using congrArg (·.getLsbD 1) key'
  have set24 : (lanes offset size value).getLsbD 24 = true := by
    simpa using congrArg (·.getLsbD 8) key'
  have lane (k i : Nat) (inWord : k < 4) (inByte : i < 8)
      (set : (lanes offset size value).getLsbD (8 * k + i) = true) : InLanes offset size k :=
    of_decide_eq_true ((getLsbD_laneMask offset sub inWord inByte).symm.trans (bit _ set))
  have byte2 : InLanes offset size 2 := lane 2 1 (by decide) (by decide) set17
  have byte3 : InLanes offset size 3 := lane 3 0 (by decide) (by decide) set24
  rcases sub with rfl | rfl
  · change _ ∧ 3 < _ + 1 at byte3
    have low := byte2.1
    omega
  · have lane : (offset &&& 0x3).toNat = 2 := by
      change _ ∧ 3 < _ + 2 at byte3
      have low := byte2.1
      omega
    rw [laneMask, lane]
    decide

theorem aircr_eq_iff (sub : size = 1 ∨ size = 2) : b.rmwScbWrite win eff offset size value .aircr =
    b.laneScbWrite win eff offset size value .aircr ↔
      b.ScbAlone win eff offset size value .aircr := by
  have merged : b.scbRead win eff .aircr = b.scs.aircr.get eff := rfl
  simp only [rmwScbWrite, laneScbWrite, ScbAlone, scbWrite, merged]
  by_cases key : aircrKeyOk (lanes offset size value)
  · have mask := aircr_lanes_of_key sub key
    have key' : aircrKeyOk (blend (laneMask offset size) (b.scs.aircr.get eff)
        (lanes offset size value)) := by
      have upper : ∀ i : Fin 32, BitVec.getLsbD (0xFFFF0000 : Word) (16 + i.val) =
          BitVec.getLsbD (0xFFFF : Word) i.val := by decide
      rw [aircrKeyOk] at key ⊢
      rw [← key]
      apply BitVec.eq_of_getLsbD_eq
      intro i inside
      rw [BitVec.getLsbD_and, BitVec.getLsbD_and, BitVec.getLsbD_ushiftRight,
        BitVec.getLsbD_ushiftRight, getLsbD_blend, mask, show BitVec.getLsbD _ (16 + i) = _ from
          upper ⟨i, inside⟩]
      cases BitVec.getLsbD (0xFFFF : Word) i with
      | false => rw [Bool.and_false, Bool.and_false]
      | true => rfl
    have bit2 : (blend (laneMask offset size) (b.scs.aircr.get eff)
        (lanes offset size value)).getLsbD 2 = (b.scs.aircr.get eff).getLsbD 2 := by
      rw [getLsbD_blend, mask]
      rfl
    have written2 : (lanes offset size value).getLsbD 2 = false := by
      rw [← lanes_and_mask, BitVec.getLsbD_and, mask]
      exact Bool.and_false _
    rw [if_pos key, if_pos key, if_pos key', bit2, written2, Bool.or_false]
    constructor
    · intro same
      have kept := congrArg (·.2.scs.aircr.get win) same
      have reset : (b.resetPending || (b.scs.aircr.get eff).getLsbD 2) = b.resetPending :=
        congrArg (·.2.resetPending) same
      simp only [get_set] at kept
      refine ⟨blend_inj_left.mp kept, fun set => ?_⟩
      rw [← reset, set, Bool.or_true]
    · rintro ⟨same, reset⟩
      rw [blend_inj_left.mpr same]
      cases set : (b.scs.aircr.get eff).getLsbD 2 with
      | false => rw [Bool.or_false]
      | true => rw [reset set, Bool.or_true]
  · rw [if_neg key, if_neg key]
    by_cases key' : aircrKeyOk (blend (laneMask offset size) (b.scs.aircr.get eff)
        (lanes offset size value))
    · rw [if_pos key']
      exact iff_of_false (fun is => by cases is) (not_not_intro key')
    · rw [if_neg key']
      exact iff_of_true rfl key'

theorem setRegion_eq_self_iff {regs : Fin 8 → Word} {rnr w : Word} :
    setRegion regs rnr w = regs ↔ w = regs (Scs.regionIndex rnr) :=
  Function.update_eq_self_iff

theorem choice_eq_iff {α : Type} {goes legacy : Prop} [Decidable goes] [Decidable legacy]
    {x y z w : α} (both : goes → legacy → x = z) (set : goes → ¬ legacy → x ≠ w) (same : y = w) :
    (if goes then x else y) = (if legacy then z else w) ↔ (legacy ↔ goes) ∨ legacy ∧ y = z := by
  by_cases old : legacy
  · by_cases here : goes
    · simp [old, here, both here old]
    · simp [old, here]
  · by_cases here : goes
    · simp [old, here, set here old]
    · simp [old, here, same]

theorem slot_eq_iff (m : Word) {reg : ScbReg} (slot : reg ∈ [.sauD8, .sauDC, .sauE0, .sauE4]) :
    b.scbWrite win .secure m reg = (true, b.slotWrite m reg) ↔ b.SlotAlone m reg := by
  obtain ⟨scs, nvic, layout, pending⟩ := b
  have relaid {scs' scs'' : Scs} (new : layout ≠ .legacy) :
      (⟨scs', nvic, .legacy, pending⟩ : ScsBlock) ≠ ⟨scs'', nvic, layout, pending⟩ :=
    fun same => new (congrArg (·.sauLayout) same).symm
  simp only [List.mem_cons, List.not_mem_nil, or_false] at slot
  rcases slot with rfl | rfl | rfl | rfl
  · simp only [scbWrite, sauWrite, slotWrite, SlotAlone, Prod.mk.injEq, true_and]
    rw [choice_eq_iff (fun _ old => by rw [old]) (fun _ new => relaid new) rfl]
    refine or_congr_right (and_congr_right fun _ => ⟨fun same => ?_, fun same => ?_⟩)
    · exact ⟨(congrArg (·.scs.sauRnr) same).symm,
        setRegion_eq_self_iff.mp (congrArg (·.scs.sauRbar) same)⟩
    · obtain ⟨rnr, rbar⟩ := same
      rw [setRegion_eq_self_iff.mpr rbar, rnr]
  · simp only [scbWrite, sauWrite, slotWrite, SlotAlone, Prod.mk.injEq, true_and]
    rw [choice_eq_iff (fun _ old => by rw [old]) (fun _ new => relaid new) rfl]
    refine or_congr_right (and_congr_right fun _ => ⟨fun same => ?_, fun same => ?_⟩)
    · exact ⟨setRegion_eq_self_iff.mp (congrArg (·.scs.sauRbar) same).symm,
        setRegion_eq_self_iff.mp (congrArg (·.scs.sauRlar) same)⟩
    · obtain ⟨rbar, rlar⟩ := same
      rw [setRegion_eq_self_iff.mpr rbar, setRegion_eq_self_iff.mpr rlar]
  · simp only [scbWrite, sauWrite, slotWrite, SlotAlone, Prod.mk.injEq, true_and]
    rw [← ite_not, choice_eq_iff (fun _ old => by rw [old]) (fun _ new => relaid new) rfl,
      BitVec.not_le]
    refine or_congr_right (and_congr_right fun _ => ⟨fun same => ?_, fun same => ?_⟩)
    · exact ⟨setRegion_eq_self_iff.mp (congrArg (·.scs.sauRlar) same).symm,
        congrArg (·.scs.sauSfsr) same⟩
    · obtain ⟨rlar, sfsr⟩ := same
      rw [setRegion_eq_self_iff.mpr rlar, sfsr]
  · simp only [scbWrite, sauWrite, slotWrite, SlotAlone, Prod.mk.injEq, true_and]
    rw [choice_eq_iff (fun _ old => by rw [old]) (fun _ new => relaid new) rfl]
    refine or_congr_right (and_congr_right fun _ => ⟨fun same => ?_, fun same => ?_⟩)
    · exact ⟨(congrArg (·.scs.sauSfsr) same).symm, congrArg (·.scs.sauSfar) same⟩
    · obtain ⟨sfsr, sfar⟩ := same
      rw [← sfsr, ← sfar]

theorem scb_eq_iff (sub : size = 1 ∨ size = 2) (reg : ScbReg) :
    b.rmwScbWrite win eff offset size value reg = b.laneScbWrite win eff offset size value reg ↔
      b.ScbAlone win eff offset size value reg := by
  have slot (here : reg ∈ [.sauD8, .sauDC, .sauE0, .sauE4]) :
      b.rmwScbWrite win eff offset size value reg =
        (true, b.sauWrite eff fun b => b.slotWrite (blend (laneMask offset size)
          (b.scbRead win eff reg) (lanes offset size value)) reg) ↔
      (eff = .secure → b.SlotAlone (blend (laneMask offset size) (b.scbRead win eff reg)
        (lanes offset size value)) reg) := by
    cases eff with
    | secure =>
      rw [forall_prop_of_true rfl]
      exact slot_eq_iff _ here
    | nonsecure =>
      simp only [List.mem_cons, List.not_mem_nil, or_false] at here
      refine iff_of_true ?_ nofun
      rcases here with rfl | rfl | rfl | rfl <;> rfl
  cases reg with
  | icsr => exact icsr_eq_iff sub
  | aircr => exact aircr_eq_iff sub
  | cfsr => exact cfsr_eq_iff
  | sauD8 => exact slot (by decide)
  | sauDC => exact slot (by decide)
  | sauE0 => exact slot (by decide)
  | sauE4 => exact slot (by decide)
  | _ => exact iff_of_true rfl trivial

def laneSystickWrite (b : ScsBlock) (offset size value : Word) (reg : SysTickReg) : ScsBlock :=
  let mask := laneMask offset size
  let w := lanes offset size value
  match reg with
  | .ctrl => b.systickWrite (offset &&& ~~~3#32) 4 (blend mask b.scs.systickCtrl w) .ctrl
  | .load => b.systickWrite (offset &&& ~~~3#32) 4 (blend mask b.scs.systickLoad w) .load
  | .val => b.systickWrite (offset &&& ~~~3#32) 4 w .val
  | .calib => b

def SystickAlone (b : ScsBlock) (offset size : Word) : SysTickReg → Prop
  | .load => b.scs.systickLoad &&& ~~~laneMask offset size &&& 0x00FFFFFF = 0
  | _ => True

theorem systick_eq_iff (sub : size = 1 ∨ size = 2) {reg : SysTickReg} :
    b.systickWrite offset size value reg = b.laneSystickWrite offset size value reg ↔
      b.SystickAlone offset size reg := by
  cases reg with
  | ctrl =>
    refine iff_of_true ?_ trivial
    simp only [systickWrite, laneSystickWrite, if_pos sub, insertSubword_eq]
    rfl
  | load =>
    have whole : size ≠ 4 := by
      rcases sub with rfl | rfl <;> decide
    have stored : lanes offset size value &&& laneMask offset size &&& 0x00FFFFFF =
        blend (laneMask offset size) b.scs.systickLoad (lanes offset size value) &&& 0x00FFFFFF ↔
        b.scs.systickLoad &&& ~~~laneMask offset size &&& 0x00FFFFFF = 0 := and_mask_eq_blend_iff
    rw [lanes_and_mask] at stored
    rw [SystickAlone, ← stored]
    simp only [systickWrite, laneSystickWrite, if_neg whole, if_pos]
    constructor
    · exact fun same => congrArg (·.scs.systickLoad) same
    · intro same
      change ({ b with scs := { b.scs with systickLoad := lanes offset size value &&& _ } } :
        ScsBlock) = _
      rw [same]
  | val => exact iff_of_true rfl trivial
  | calib => exact iff_of_true rfl trivial

end ScsBlock

namespace NvicFile

def laneWrite (n : Nvic) (eff : SecState) (idx : MaskWord) (mask w : Word) : NvicFile → Nvic
  | .itns => write n eff idx (blend mask (n.itnsMask idx) w) .itns
  | file => write n eff idx w file

def Alone (n : Nvic) (eff : SecState) (idx : MaskWord) (mask w : Word) : NvicFile → Prop
  | .iser => writeMask n eff idx w &&& ~~~n.enableMask idx = 0
  | .icer => writeMask n eff idx w &&& n.enableMask idx = 0
  | .ispr => writeMask n eff idx w &&& ~~~n.pendingMask idx = 0
  | .icpr => writeMask n eff idx w &&& n.pendingMask idx = 0
  | .iabr => True
  | .itns => eff = .secure → w &&& mask = n.itnsMask idx &&& mask

theorem laneWrite_eq_self_iff (n : Nvic) (eff : SecState) (idx : MaskWord) (mask w : Word)
    (file : NvicFile) : file.laneWrite n eff idx mask w = n ↔ file.Alone n eff idx mask w := by
  have update (arr : MaskWord → Word) (x : Word) : Function.update arr idx x = arr ↔ x = arr idx :=
    Function.update_eq_self_iff
  have enable {arr : MaskWord → Word} : { n with enableMask := arr } = n ↔ arr = n.enableMask :=
    ⟨congrArg Nvic.enableMask, fun same => by rw [same]⟩
  have pending {arr : MaskWord → Word} : { n with pendingMask := arr } = n ↔ arr = n.pendingMask :=
    ⟨congrArg Nvic.pendingMask, fun same => by rw [same]⟩
  cases file with
  | iser => simp only [laneWrite, write, Alone, enable, update, or_eq_self_iff]
  | icer => simp only [laneWrite, write, Alone, enable, update, and_not_eq_self_iff]
  | ispr => simp only [laneWrite, write, Alone, pending, update, or_eq_self_iff]
  | icpr => simp only [laneWrite, write, Alone, pending, update, and_not_eq_self_iff]
  | iabr => exact iff_of_true rfl trivial
  | itns =>
    rw [Alone]
    cases eff with
    | secure =>
      have itns {arr : MaskWord → Word} : { n with itnsMask := arr } = n ↔ arr = n.itnsMask :=
        ⟨congrArg Nvic.itnsMask, fun same => by rw [same]⟩
      rw [forall_prop_of_true rfl, ← blend_eq_self_iff, ← update, ← itns]
      rfl
    | nonsecure => exact iff_of_true rfl fun is => by cases is

end NvicFile

namespace Nvic

open ScsBlock

def laneIprWrite (n : Nvic) (offset size value : Word) : Nvic :=
  n.iprWrite (offset &&& ~~~3#32) 4 (blend (laneMask offset size)
    (n.iprRead (offset &&& ~~~3#32) 4) (lanes offset size value))

def laneWrite (n : Nvic) (eff : SecState) (offset size value : Word) : Nvic :=
  match NvicFile.writable (offset &&& ~~~3#32) with
  | some (file, idx) => file.laneWrite n eff idx (laneMask offset size) (lanes offset size value)
  | none => if 0x400 ≤ offset ∧ offset < 0x500 then n.laneIprWrite offset size value else n

def LanesAlone (n : Nvic) (eff : SecState) (offset size value : Word) : Prop :=
  match NvicFile.writable (offset &&& ~~~3#32) with
  | some (file, idx) => file.Alone n eff idx (laneMask offset size) (lanes offset size value)
  | none => 0x400 ≤ offset → offset < 0x500 → size = 2 → ∀ k < 4, InLanes offset size k →
      ((offset &&& ~~~3#32) - 0x400).toNat + k < maxIrq →
        n.priorityAt (((offset &&& ~~~3#32) - 0x400).toNat + k) = byteOf (lanes offset size value) k

variable {n : Nvic} {eff : SecState} {offset size value : Word}

theorem byteOf_blend (sub : size = 1 ∨ size = 2) (cur w : Word) {k : Nat} (inWord : k < 4) :
    byteOf (blend (laneMask offset size) cur w) k =
      if InLanes offset size k then byteOf w k else byteOf cur k := by
  apply BitVec.eq_of_getLsbD_eq
  intro i inside
  have lane := getLsbD_laneMask offset sub inWord inside
  simp only [byteOf, BitVec.getLsbD_setWidth, BitVec.getLsbD_ushiftRight, getLsbD_blend, lane]
  by_cases here : InLanes offset size k
  · simp [here]
  · simp [here]

theorem priorityAt_setPriorityAt (n : Nvic) (i j : Nat) (p : Byte) :
    (n.setPriorityAt i p).priorityAt j = if j = i ∧ i < maxIrq then p else n.priorityAt j := by
  rw [setPriorityAt]
  by_cases low : i < maxIrq
  · rw [dif_pos low, priorityAt, priorityAt]
    by_cases here : j < maxIrq
    · simp only [dif_pos here, Function.update_apply, Fin.mk.injEq, low, and_true]
    · have other : j ≠ i := fun same => here (same ▸ low)
      simp only [dif_neg here, other, false_and, if_false]
  · rw [dif_neg low, if_neg fun h => low h.2]

theorem ext_priorityAt (n' n : Nvic) (masks : n'.enableMask = n.enableMask ∧
    n'.pendingMask = n.pendingMask ∧ n'.activeMask = n.activeMask ∧ n'.itnsMask = n.itnsMask) :
    n' = n ↔ ∀ j, n'.priorityAt j = n.priorityAt j := by
  constructor
  · rintro rfl _
    rfl
  · intro same
    obtain ⟨enable, pending, active, itns, priority⟩ := n
    obtain ⟨enable', pending', active', itns', priority'⟩ := n'
    obtain ⟨rfl, rfl, rfl, rfl⟩ : _ ∧ _ ∧ _ ∧ _ := masks
    have priorities : priority' = priority := by
      funext irq
      have at' := same irq.val
      simpa only [priorityAt, dif_pos irq.isLt] using at'
    rw [priorities]

theorem priorityAt_iprWrite {v : Word} (aligned : (offset - 0x400).toNat % 4 = 0) (j : Nat) :
    (n.iprWrite offset 4 v).priorityAt j =
      if j / 4 = (offset - 0x400).toNat / 4 ∧ j < maxIrq then byteOf v (j % 4)
      else n.priorityAt j := by
  rw [iprWrite, if_neg (by decide), if_pos ⟨rfl, aligned⟩]
  simp only [priorityAt_setPriorityAt]
  generalize (offset - 0x400).toNat = idx at aligned
  by_cases here : j / 4 = idx / 4 ∧ j < maxIrq
  · rw [if_pos here]
    obtain ⟨word, low⟩ := here
    obtain ⟨k, small, rfl⟩ : ∃ k < 4, j = idx + k := ⟨j - idx, by omega, by omega⟩
    have byte : (idx + k) % 4 = k := by omega
    rw [byte]
    interval_cases k
    · rw [if_neg (by omega), if_neg (by omega), if_neg (by omega), if_pos ⟨rfl, low⟩]
    · rw [if_neg (by omega), if_neg (by omega), if_pos ⟨rfl, low⟩]
    · rw [if_neg (by omega), if_pos ⟨rfl, low⟩]
    · rw [if_pos ⟨rfl, low⟩]
  · rw [if_neg here, if_neg (by omega), if_neg (by omega), if_neg (by omega), if_neg (by omega)]

theorem byteOf_append (p₃ p₂ p₁ p₀ : Byte) :
    byteOf (p₃ ++ p₂ ++ p₁ ++ p₀) 0 = p₀ ∧ byteOf (p₃ ++ p₂ ++ p₁ ++ p₀) 1 = p₁ ∧
      byteOf (p₃ ++ p₂ ++ p₁ ++ p₀) 2 = p₂ ∧ byteOf (p₃ ++ p₂ ++ p₁ ++ p₀) 3 = p₃ := by
  have bit (i : Nat) : (p₃ ++ p₂ ++ p₁ ++ p₀).getLsbD i = if i < 8 then p₀.getLsbD i
      else if i - 8 < 8 then p₁.getLsbD (i - 8) else if i - 8 - 8 < 8 then p₂.getLsbD (i - 8 - 8)
      else p₃.getLsbD (i - 8 - 8 - 8) := by
    simp only [BitVec.getLsbD_append]
  have byte (k i : Nat) (inside : i < 8) : (byteOf (p₃ ++ p₂ ++ p₁ ++ p₀) k).getLsbD i =
      (p₃ ++ p₂ ++ p₁ ++ p₀).getLsbD (8 * k + i) := by
    rw [byteOf, BitVec.getLsbD_setWidth, BitVec.getLsbD_ushiftRight, decide_eq_true inside,
      Bool.true_and]
  refine ⟨?_, ?_, ?_, ?_⟩
  · apply BitVec.eq_of_getLsbD_eq
    intro i inside
    rw [byte 0 i inside, bit, if_pos (by omega)]
    congr 1
    omega
  · apply BitVec.eq_of_getLsbD_eq
    intro i inside
    rw [byte 1 i inside, bit, if_neg (by omega), if_pos (by omega)]
    congr 1
    omega
  · apply BitVec.eq_of_getLsbD_eq
    intro i inside
    rw [byte 2 i inside, bit, if_neg (by omega), if_neg (by omega), if_pos (by omega)]
    congr 1
    omega
  · apply BitVec.eq_of_getLsbD_eq
    intro i inside
    rw [byte 3 i inside, bit, if_neg (by omega), if_neg (by omega), if_neg (by omega)]
    congr 1
    omega

theorem byteOf_iprRead (n : Nvic) (aligned : (offset - 0x400).toNat % 4 = 0) {k : Nat} (low : k < 4) :
    byteOf (n.iprRead offset 4) k = n.priorityAt ((offset - 0x400).toNat + k) := by
  rw [iprRead, if_neg (by decide), if_pos ⟨rfl, aligned⟩]
  obtain ⟨byte0, byte1, byte2, byte3⟩ := byteOf_append
    (n.priorityAt ((offset - 0x400).toNat + 3)) (n.priorityAt ((offset - 0x400).toNat + 2))
    (n.priorityAt ((offset - 0x400).toNat + 1)) (n.priorityAt (offset - 0x400).toNat)
  interval_cases k
  · exact byte0
  · exact byte1
  · exact byte2
  · exact byte3

theorem priorityAt_laneIprWrite (sub : size = 1 ∨ size = 2) (ipr : 0x400 ≤ offset) (j : Nat) :
    (n.laneIprWrite offset size value).priorityAt j =
      if j / 4 = (offset - 0x400).toNat / 4 ∧ j < maxIrq ∧ InLanes offset size (j % 4) then
        byteOf (lanes offset size value) (j % 4)
      else n.priorityAt j := by
  have floor : (offset &&& ~~~3#32).toNat = offset.toNat / 4 * 4 :=
    toNat_and_not_mask offset 2 (by decide)
  have word : ((offset &&& ~~~3#32) - 0x400).toNat = (offset - 0x400).toNat / 4 * 4 := by
    bv_omega
  have aligned : ((offset &&& ~~~3#32) - 0x400).toNat % 4 = 0 := by omega
  rw [laneIprWrite, priorityAt_iprWrite aligned, byteOf_blend sub _ _ (Nat.mod_lt j (by decide)),
    byteOf_iprRead n aligned (Nat.mod_lt j (by decide)), word,
    Nat.mul_div_cancel _ (by decide : 0 < 4)]
  by_cases here : j / 4 = (offset - 0x400).toNat / 4
  · have same : (offset - 0x400).toNat / 4 * 4 + j % 4 = j := by omega
    rw [same]
    by_cases low : j < maxIrq <;> by_cases lane : InLanes offset size (j % 4) <;>
      simp [here, low, lane]
  · rw [if_neg fun h => here h.1, if_neg fun h => here h.1]

theorem byteOf_lanes_one (offset value : Word) :
    byteOf (lanes offset 1 value) (offset &&& 0x3).toNat = byteOf value 0 := by
  have lane := lane_lt offset
  apply BitVec.eq_of_getLsbD_eq
  intro i inside
  have ones8 : (0xFF : Word).getLsbD i = decide (i < 8) :=
    getLsbD_twoPow_sub_one 32 8 i (by decide)
  rw [byteOf, byteOf, lanes, if_pos rfl]
  generalize (offset &&& 0x3).toNat = l at lane
  rw [Nat.mul_comm l 8, BitVec.getLsbD_setWidth, BitVec.getLsbD_setWidth,
    BitVec.getLsbD_ushiftRight, BitVec.getLsbD_ushiftRight, BitVec.getLsbD_shiftLeft,
    Nat.add_sub_cancel_left, BitVec.getLsbD_and, ones8]
  have low : 8 * l + i < 32 := by omega
  simp [inside, low]

theorem inLanes_one_iff (offset : Word) (k : Nat) : InLanes offset 1 k ↔ k = (offset &&& 0x3).toNat := by
  change _ ∧ k < _ + 1 ↔ _
  omega

theorem ipr_eq_iff (sub : size = 1 ∨ size = 2) (ipr : 0x400 ≤ offset) :
    n.iprWrite offset size value = n.laneIprWrite offset size value ↔
      (size = 2 → ∀ k < 4, InLanes offset size k →
        ((offset &&& ~~~3#32) - 0x400).toNat + k < maxIrq →
          n.priorityAt (((offset &&& ~~~3#32) - 0x400).toNat + k) =
            byteOf (lanes offset size value) k) := by
  have floor : (offset &&& ~~~3#32).toNat = offset.toNat / 4 * 4 :=
    toNat_and_not_mask offset 2 (by decide)
  have low : (offset &&& 0x3).toNat = offset.toNat % 4 := toNat_and_mask offset 2 (by decide)
  have word : ((offset &&& ~~~3#32) - 0x400).toNat = (offset - 0x400).toNat / 4 * 4 := by
    bv_omega
  have lane : (offset - 0x400).toNat % 4 = (offset &&& 0x3).toNat := by bv_omega
  have masks : _ ∧ _ ∧ _ ∧ _ := iprWrite_masks n (offset &&& ~~~3#32) 4
    (blend (laneMask offset size) (n.iprRead (offset &&& ~~~3#32) 4) (lanes offset size value))
  obtain ⟨enable, pending, active, itns⟩ := masks
  rcases sub with rfl | rfl
  · refine iff_of_true ?_ nofun
    have written : n.iprWrite offset 1 value =
        n.setPriorityAt (offset - 0x400).toNat (byteOf value 0) := by
      rw [iprWrite, if_pos rfl]
    have kept := iprWrite_masks n offset 1 value
    refine (ext_priorityAt _ (n.laneIprWrite offset 1 value) ⟨?_, ?_, ?_, ?_⟩).mpr fun j => ?_
    · exact kept.1.trans enable.symm
    · exact kept.2.1.trans pending.symm
    · exact kept.2.2.1.trans active.symm
    · exact kept.2.2.2.trans itns.symm
    · rw [written, priorityAt_setPriorityAt, priorityAt_laneIprWrite (.inl rfl) ipr]
      simp only [inLanes_one_iff]
      by_cases here : j = (offset - 0x400).toNat
      · subst here
        rw [lane, byteOf_lanes_one]
        simp
      · rw [if_neg fun h => here h.1, if_neg]
        rintro ⟨quotient, -, rest⟩
        omega
  · rw [forall_prop_of_true rfl, word]
    have ignored : n.iprWrite offset 2 value = n := by
      rw [iprWrite, if_neg (by decide), if_neg fun h => absurd h.1 (by decide)]
    rw [ignored, eq_comm,
      ext_priorityAt (n.laneIprWrite offset 2 value) n ⟨enable, pending, active, itns⟩]
    simp only [priorityAt_laneIprWrite (.inr rfl) ipr]
    constructor
    · intro same k small lane low
      have at' := same ((offset - 0x400).toNat / 4 * 4 + k)
      have quotient : ((offset - 0x400).toNat / 4 * 4 + k) / 4 = (offset - 0x400).toNat / 4 := by
        omega
      have rest : ((offset - 0x400).toNat / 4 * 4 + k) % 4 = k := by omega
      rw [rest, if_pos ⟨quotient, low, lane⟩] at at'
      exact at'.symm
    · intro same j
      split
      · rename_i here
        obtain ⟨quotient, low, lane⟩ := here
        have at' := same (j % 4) (Nat.mod_lt j (by decide)) lane
        have back : (offset - 0x400).toNat / 4 * 4 + j % 4 = j := by omega
        rw [back] at at'
        exact (at' low).symm
      · rfl

theorem nvicWrite_eq_iff (b : ScsBlock) (sub : size = 1 ∨ size = 2) :
    b.nvicWrite eff offset size value = { b with nvic := b.nvic.laneWrite eff offset size value } ↔
      b.nvic.LanesAlone eff offset size value := by
  have whole : size ≠ 4 := by
    rcases sub with rfl | rfl <;> decide
  have nvic {m m' : Nvic} : ({ b with nvic := m } : ScsBlock) = { b with nvic := m' } ↔ m = m' :=
    ⟨congrArg ScsBlock.nvic, fun same => by rw [same]⟩
  have same : b.nvicWrite eff offset size value = { b with nvic :=
      if 0x400 ≤ offset ∧ offset < 0x500 then b.nvic.iprWrite offset size value else b.nvic } := by
    simp only [nvicWrite, if_neg whole]
    split <;> rfl
  rw [same, nvic, laneWrite, LanesAlone]
  cases reached : NvicFile.writable (offset &&& ~~~3#32) with
  | some word =>
    obtain ⟨file, idx⟩ := word
    have outside : ¬ (0x400 ≤ offset ∧ offset < 0x500) := by
      rintro ⟨above, -⟩
      have floor : (offset &&& ~~~3#32).toNat = offset.toNat / 4 * 4 :=
        toNat_and_not_mask offset 2 (by decide)
      cases reached.symm.trans (writable_outside (.inr (by bv_omega)))
    rw [if_neg outside, eq_comm]
    exact NvicFile.laneWrite_eq_self_iff ..
  | none =>
    by_cases ipr : 0x400 ≤ offset ∧ offset < 0x500
    · simp only [if_pos ipr, forall_prop_of_true ipr.1, forall_prop_of_true ipr.2]
      exact ipr_eq_iff sub ipr.1
    · simp only [if_neg ipr]
      exact iff_of_true trivial fun above below => absurd ⟨above, below⟩ ipr

end Nvic

namespace ScsBlock

/-- The write of a word that has the written bits in the addressed lanes, and in the others what
keeps the register as it is. -/
def laneWrite (b : ScsBlock) (win : SecState) (offset size value : Word) : Bool × ScsBlock :=
  if scsPageSize ≤ offset then (false, b)
  else if offset < scsScbOffset then
    match SysTickReg.ofOffset (offset &&& ~~~3#32) with
    | some reg => (true, b.laneSystickWrite offset size value reg)
    | none => (true, { b with nvic := b.nvic.laneWrite (b.effSec win) offset size value })
  else
    match ScbReg.ofOffset ((offset &&& ~~~3#32) - scsScbOffset) with
    | some reg => b.laneScbWrite win (b.effSec win) offset size value reg
    | none => (true, b)

def LanesAlone (b : ScsBlock) (win : SecState) (offset size value : Word) : Prop :=
  if scsPageSize ≤ offset then True
  else if offset < scsScbOffset then
    match SysTickReg.ofOffset (offset &&& ~~~3#32) with
    | some reg => b.SystickAlone offset size reg
    | none => b.nvic.LanesAlone (b.effSec win) offset size value
  else
    match ScbReg.ofOffset ((offset &&& ~~~3#32) - scsScbOffset) with
    | some reg => b.ScbAlone win (b.effSec win) offset size value reg
    | none => True

/-- Exactly when a byte or halfword write does what the word write of its lanes would. -/
theorem scsWrite_eq_laneWrite_iff (b : ScsBlock) (win : SecState) (offset value : Word) {size : Word}
    (sub : size = 1 ∨ size = 2) :
    b.scsWrite win offset size value = b.laneWrite win offset size value ↔
      b.LanesAlone win offset size value := by
  have sized : size = 1 ∨ size = 2 ∨ size = 4 := by
    rcases sub with one | two
    · exact .inl one
    · exact .inr (.inl two)
  have whole : size ≠ 4 := by
    rcases sub with rfl | rfl <;> decide
  have written (x y : ScsBlock) : (true, x) = (true, y) ↔ x = y := by
    rw [Prod.mk.injEq, and_iff_right rfl]
  rw [laneWrite, LanesAlone]
  by_cases page : scsPageSize ≤ offset
  · rw [if_pos page, if_pos page]
    exact iff_of_true (if_pos page) trivial
  rw [if_neg page, if_neg page]
  by_cases low : offset < scsScbOffset
  · rw [if_pos low, if_pos low, scsWrite, if_neg page, if_pos low]
    cases reg : SysTickReg.ofOffset (offset &&& ~~~3#32) with
    | none => exact (written _ _).trans (Nvic.nvicWrite_eq_iff b sub)
    | some reg' =>
      cases reg' with
      | calib =>
        have ipr : ¬ (0x400 ≤ offset ∧ offset < 0x500) := by
          have below := systick_low reg
          bv_omega
        refine iff_of_true ?_ trivial
        simp only [nvicWrite, if_neg whole, if_neg ipr]
        rfl
      | ctrl => exact (written _ _).trans (systick_eq_iff sub)
      | load => exact (written _ _).trans (systick_eq_iff sub)
      | val => exact (written _ _).trans (systick_eq_iff sub)
  · rw [if_neg low, if_neg low]
    cases found : ScbReg.ofOffset ((offset &&& ~~~3#32) - scsScbOffset) with
    | none =>
      refine iff_of_true ?_ trivial
      rw [scsWrite, if_neg page, if_neg low, if_pos sized, found]
    | some reg =>
      have target : scbTarget offset size = some reg :=
        scbTarget_eq_some.mpr ⟨⟨BitVec.not_le.mp page, BitVec.not_lt.mp low, sized⟩, found⟩
      rw [scsWrite_of_target target, merged, if_pos sub, insertSubword_eq]
      exact scb_eq_iff sub reg

def faulted : ScsBlock :=
  { Board.world.toScsBlock with scs := { Board.world.scs with cfsr := 0x00000201 } }

theorem scsWrite_ne_laneWrite_mmfsr :
    ¬ ∀ (b : ScsBlock) (win : SecState) (offset size value : Word), size = 1 ∨ size = 2 →
      b.scsWrite win offset size value = b.laneWrite win offset size value := by
  intro always
  have same := always faulted .secure 0xD28 1 0x01 (.inl rfl)
  have cfsr := congrArg (·.2.scs.cfsr) same
  revert cfsr
  decide

theorem scsWrite_eq_laneWrite_mmfsr :
    faulted.scsWrite .secure 0xD28 1 0x01 = faulted.laneWrite .secure 0xD28 1 0x01 ↔
      faulted.LanesAlone .secure 0xD28 1 0x01 :=
  scsWrite_eq_laneWrite_iff faulted .secure 0xD28 0x01 (.inl rfl)

end ScsBlock

end M33mu
