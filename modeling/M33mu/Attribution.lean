import M33mu.MemProt

namespace M33mu

open Lib

namespace Prot

variable (ctx : ProtCtx) (blockSecure : BlockSecure) (scs : Scs) (type : AccessType)
  (addr size : Word)

def AdmitsByte (i : Nat) : Prop :=
  admits type (attrForAddr ctx blockSecure scs (addr + BitVec.ofNat 32 i)) = true

def AdmitsAll : Prop := ∀ i < size.toNat, AdmitsByte ctx blockSecure scs type addr i

def Straddles : Prop :=
  AdmitsByte ctx blockSecure scs type addr 0 ∧ ¬ AdmitsAll ctx blockSecure scs type addr size

def RegionsGrant : Prop :=
  ¬ (type = .exec ∧ Mpu.isXnExec scs .nonsecure addr = true) ∧
    regionAllows ctx type false (addrSec (attrForAddr ctx blockSecure scs addr)) addr size = true

/-- `SFSR` and `SFAR` name the access: valid address, cause by access type, first address. -/
structure Describes : Prop where
  valid : scs.sauSfsr.getLsbD 6 = true
  cause : scs.sauSfsr.getLsbD (if type = .exec then 0 else 3) = true
  address : scs.sauSfar = addr

theorem describes_recordMemfault {scs : Scs} {type : AccessType} {addr : Word}
    (h : Describes scs type addr) (sec : SecState) :
    Describes (recordMemfault scs sec type addr) type addr :=
  ⟨h.valid, h.cause, h.address⟩

theorem describes_recordSecurefault : Describes (recordSecurefault scs type addr) type addr := by
  constructor
  · cases type <;> simp [recordSecurefault, sfsrSfarvalid, sfsrInvep, sfsrAuviol]
  · cases type <;> simp [recordSecurefault, sfsrSfarvalid, sfsrInvep, sfsrAuviol]
  · rfl

theorem admitsByte_zero : AdmitsByte ctx blockSecure scs type addr 0 ↔
    admits type (attrForAddr ctx blockSecure scs addr) = true := by
  simp [AdmitsByte]

theorem interceptor_fst_iff (hout : isSystemControl addr = false) :
    (interceptor ctx blockSecure scs type .nonsecure addr size).1 = true ↔
      AdmitsByte ctx blockSecure scs type addr 0 ∧
        RegionsGrant ctx blockSecure scs type addr size := by
  rw [admitsByte_zero]
  simp only [interceptor, hout, RegionsGrant]
  cases admits type (attrForAddr ctx blockSecure scs addr) with
  | false => simp
  | true =>
    by_cases hxn : type = .exec ∧ Mpu.isXnExec scs .nonsecure addr = true
    · simp [hxn]
    · by_cases hr : regionAllows ctx type false (addrSec (attrForAddr ctx blockSecure scs addr))
          addr size = true <;> simp [hxn, hr]

theorem interceptor_refused (hout : isSystemControl addr = false)
    (h : ¬ AdmitsByte ctx blockSecure scs type addr 0) :
    (interceptor ctx blockSecure scs type .nonsecure addr size).1 = false ∧
      Describes (interceptor ctx blockSecure scs type .nonsecure addr size).2 type addr := by
  rw [admitsByte_zero, Bool.not_eq_true] at h
  simp only [interceptor, hout, h]
  exact ⟨rfl, describes_recordMemfault (describes_recordSecurefault scs type addr) .nonsecure⟩

/-- A granted Non-secure access has every byte admitted, and a refused attribution is described,
exactly when the access is not one that straddles into refused bytes under a granting region. -/
theorem interceptor_attributes_all_iff (hout : isSystemControl addr = false) :
    (((interceptor ctx blockSecure scs type .nonsecure addr size).1 = true →
        AdmitsAll ctx blockSecure scs type addr size) ∧
      (¬ AdmitsByte ctx blockSecure scs type addr 0 →
        (interceptor ctx blockSecure scs type .nonsecure addr size).1 = false ∧
          Describes (interceptor ctx blockSecure scs type .nonsecure addr size).2 type addr)) ↔
    ¬ (Straddles ctx blockSecure scs type addr size ∧
        RegionsGrant ctx blockSecure scs type addr size) := by
  rw [interceptor_fst_iff ctx blockSecure scs type addr size hout]
  constructor
  · rintro ⟨hall, -⟩ ⟨⟨hfirst, hrest⟩, hgrant⟩
    exact hrest (hall ⟨hfirst, hgrant⟩)
  · intro h
    refine ⟨fun hg => ?_, interceptor_refused ctx blockSecure scs type addr size hout⟩
    exact Classical.byContradiction fun hrest => h ⟨⟨hg.1, hrest⟩, hg.2⟩

def lineScs : Scs :=
  { Scs.init 0x410fc241 with
    sauCtrl := 1
    sauRbar := fun _ => 0x20000000
    sauRlar := fun _ => 0x20000001 }

def lineCtx : ProtCtx :=
  ⟨[⟨0x20000000, 0x1000, 7, .nonsecure⟩], ⟨0, 0, 0, 0, 0, 0, 0, 0, [], 0⟩⟩

theorem interceptor_attributes_all_line :
    ((interceptor lineCtx none lineScs .read .nonsecure 0x2000001C 4).1 = true →
        AdmitsAll lineCtx none lineScs .read 0x2000001C 4) ∧
      (¬ AdmitsByte lineCtx none lineScs .read 0x2000001C 0 →
        (interceptor lineCtx none lineScs .read .nonsecure 0x2000001C 4).1 = false ∧
          Describes (interceptor lineCtx none lineScs .read .nonsecure 0x2000001C 4).2 .read
            0x2000001C) := by
  refine (interceptor_attributes_all_iff lineCtx none lineScs .read 0x2000001C 4 (by decide)).mpr ?_
  rintro ⟨⟨-, h⟩, -⟩
  revert h
  simp only [AdmitsAll, AdmitsByte]
  decide

theorem straddling_read_granted :
    ¬ ∀ (ctx : ProtCtx) (blockSecure : BlockSecure) (scs : Scs) (type : AccessType)
      (addr size : Word), (size = 1 ∨ size = 2 ∨ size = 4) → isSystemControl addr = false →
        (interceptor ctx blockSecure scs type .nonsecure addr size).1 = true →
          AdmitsAll ctx blockSecure scs type addr size := by
  intro h
  have all := h lineCtx none lineScs .read 0x2000001E 4 (by decide) (by decide) (by decide)
  revert all
  simp only [AdmitsAll, AdmitsByte]
  decide

section Aligned

/-- Every bound that `mpcbb_attr_for_addr` compares with is a multiple of four. -/
structure WordAligned (cfg : TargetCfg) : Prop where
  block : cfg.mpcbbBlockSize.toNat % 4 = 0
  region : ∀ r ∈ cfg.ramRegions,
    r.baseS.toNat % 4 = 0 ∧ r.baseNs.toNat % 4 = 0 ∧ r.size.toNat % 4 = 0

theorem sau_attrForAddr_congr (scs : Scs) {a b : Word} (h : a.toNat / 32 = b.toNat / 32) :
    Sau.attrForAddr scs a = Sau.attrForAddr scs b := by
  have matches_eq : ∀ rbar rlar, Sau.regionMatches rbar rlar a = Sau.regionMatches rbar rlar b := by
    intro rbar rlar
    have hbase : (rbar &&& ~~~0x1F#32).toNat = rbar.toNat / 32 * 32 :=
      toNat_and_not_mask rbar 5 (by decide)
    have hlimit : ((rlar &&& ~~~0x1F#32) ||| 0x1F#32).toNat = rlar.toNat / 32 * 32 + 31 :=
      toNat_or_mask rlar 5 (by decide)
    have hle : (rbar &&& ~~~0x1F#32 ≤ a) = (rbar &&& ~~~0x1F#32 ≤ b) := by
      rw [BitVec.le_def, BitVec.le_def, hbase]
      apply propext
      omega
    have hge : (a ≤ (rlar &&& ~~~0x1F#32) ||| 0x1F#32) = (b ≤ (rlar &&& ~~~0x1F#32) ||| 0x1F#32) := by
      rw [BitVec.le_def, BitVec.le_def, hlimit]
      apply propext
      omega
    simp only [Sau.regionMatches, hle, hge]
  simp only [Sau.attrForAddr, Sau.matchIndex, matches_eq]

theorem blockOf_congr {cfg : TargetCfg} (hc : WordAligned cfg) {r : RamRegion}
    (hr : r ∈ cfg.ramRegions) {a b : Word} (h : a.toNat / 4 = b.toNat / 4) :
    blockOf cfg r a = blockOf cfg r b := by
  obtain ⟨hbs, hbn, hsz⟩ := hc.region r hr
  have hblk := hc.block
  have view (base : Word) (hb : base.toNat % 4 = 0) :
      (base ≤ a ∧ a - base < r.size ↔ base ≤ b ∧ b - base < r.size) ∧
        (base ≤ a ∧ a - base < r.size →
          (a - base) / cfg.mpcbbBlockSize = (b - base) / cfg.mpcbbBlockSize) := by
    have sub {x : Word} (hx : base ≤ x) : (x - base).toNat = x.toNat - base.toNat :=
      BitVec.toNat_sub_of_le hx
    have le_iff : base ≤ a ↔ base ≤ b := by
      rw [BitVec.le_def, BitVec.le_def]
      omega
    constructor
    · constructor
      · rintro ⟨ha, hlt⟩
        refine ⟨le_iff.mp ha, ?_⟩
        rw [BitVec.lt_def, sub ha] at hlt
        rw [BitVec.lt_def, sub (le_iff.mp ha)]
        omega
      · rintro ⟨hb', hlt⟩
        refine ⟨le_iff.mpr hb', ?_⟩
        rw [BitVec.lt_def, sub hb'] at hlt
        rw [BitVec.lt_def, sub (le_iff.mpr hb')]
        omega
    · rintro ⟨ha, -⟩
      apply BitVec.eq_of_toNat_eq
      rw [BitVec.toNat_udiv, BitVec.toNat_udiv, sub ha, sub (le_iff.mp ha)]
      obtain ⟨k, hk⟩ : ∃ k, cfg.mpcbbBlockSize.toNat = 4 * k :=
        ⟨_, (Nat.mul_div_cancel' (Nat.dvd_of_mod_eq_zero hblk)).symm⟩
      rw [hk, ← Nat.div_div_eq_div_mul, ← Nat.div_div_eq_div_mul]
      congr 1
      omega
  obtain ⟨iffS, eqS⟩ := view r.baseS hbs
  obtain ⟨iffN, eqN⟩ := view r.baseNs hbn
  simp only [blockOf]
  by_cases hS : r.baseS ≤ a ∧ a - r.baseS < r.size
  · rw [if_pos hS, if_pos (iffS.mp hS), eqS hS]
  · rw [if_neg hS, if_neg (mt iffS.mpr hS)]
    by_cases hN : r.baseNs ≤ a ∧ a - r.baseNs < r.size
    · rw [if_pos hN, if_pos (iffN.mp hN), eqN hN]
    · rw [if_neg hN, if_neg (mt iffN.mpr hN)]

theorem findSome?_congr {l : List α} {f g : α → Option β} (h : ∀ a ∈ l, f a = g a) :
    l.findSome? f = l.findSome? g := by
  induction l with
  | nil => rfl
  | cons a l ih =>
    simp only [List.findSome?_cons, h a List.mem_cons_self]
    rw [ih fun b hb => h b (List.mem_cons_of_mem a hb)]

theorem attrForAddr_congr (hc : WordAligned ctx.cfg) {a b : Word}
    (h : a.toNat / 4 = b.toNat / 4) :
    attrForAddr ctx blockSecure scs a = attrForAddr ctx blockSecure scs b := by
  have blocks : ctx.cfg.ramRegions.findSome? (fun r => blockOf ctx.cfg r a) =
      ctx.cfg.ramRegions.findSome? fun r => blockOf ctx.cfg r b :=
    findSome?_congr fun r hr => blockOf_congr hc hr h
  have sau := sau_attrForAddr_congr scs (a := a) (b := b) (by omega)
  simp only [attrForAddr, mpcbbAttrForAddr, blocks, sau]

theorem not_straddles_of_aligned (hc : WordAligned ctx.cfg)
    (hsize : size = 1 ∨ size = 2 ∨ size = 4) (ha : addr.toNat % size.toNat = 0) :
    ¬ Straddles ctx blockSecure scs type addr size := by
  rintro ⟨hfirst, hrest⟩
  apply hrest
  intro i hi
  rw [admitsByte_zero] at hfirst
  have hin : (addr + BitVec.ofNat 32 i).toNat / 4 = addr.toNat / 4 := by
    have hlt := addr.isLt
    have hs : size.toNat = 1 ∨ size.toNat = 2 ∨ size.toNat = 4 := by
      rcases hsize with rfl | rfl | rfl <;> decide
    rw [BitVec.toNat_add, BitVec.toNat_ofNat]
    rcases hs with hs | hs | hs <;> rw [hs] at hi ha <;> omega
  rw [AdmitsByte, attrForAddr_congr ctx blockSecure scs hc hin]
  exact hfirst

theorem admitsAll_of_aligned (hc : WordAligned ctx.cfg) (hsize : size = 1 ∨ size = 2 ∨ size = 4)
    (ha : addr.toNat % size.toNat = 0) (hout : isSystemControl addr = false)
    (granted : (interceptor ctx blockSecure scs type .nonsecure addr size).1 = true) :
    AdmitsAll ctx blockSecure scs type addr size := by
  have hfirst := ((interceptor_fst_iff ctx blockSecure scs type addr size hout).mp granted).1
  by_contra hrest
  exact not_straddles_of_aligned ctx blockSecure scs type addr size hc hsize ha ⟨hfirst, hrest⟩

end Aligned

end Prot

end M33mu
