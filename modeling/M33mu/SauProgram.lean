import M33mu.ScsMmio

namespace M33mu

structure SauRegs where
  rnr : Word
  rbar : Fin 8 → Word
  rlar : Fin 8 → Word
  sfsr : Word
  sfar : Word
  layout : SauLayout

namespace SauRegs

def putRnr (s : SauRegs) (v : Word) : SauRegs := { s with rnr := v &&& 0x7 }

def putRbar (s : SauRegs) (v : Word) : SauRegs :=
  { s with rbar := ScsBlock.setRegion s.rbar s.rnr v }

def putRlar (s : SauRegs) (v : Word) : SauRegs :=
  { s with rlar := ScsBlock.setRegion s.rlar s.rnr v }

def toLegacy (s : SauRegs) : SauRegs := { s with layout := .legacy }

def putD8 (s : SauRegs) (v : Word) : SauRegs :=
  if v &&& ~~~0x7#32 = 0 then (s.putRnr v).toLegacy else s.putRbar v

def putDC (s : SauRegs) (v : Word) : SauRegs :=
  if v &&& 0x1F = 0 then (s.putRbar v).toLegacy else s.putRlar v

def putE0 (s : SauRegs) (v : Word) : SauRegs :=
  if v ≤ 0xFF then { s with sfsr := v } else (s.putRlar v).toLegacy

def slot (s : SauRegs) (legacy new : Word) : Word := if s.layout = .legacy then legacy else new

def current (s : SauRegs) : Fin 8 := Scs.regionIndex s.rnr

theorem number_low (n : Fin 8) : BitVec.ofNat 32 n &&& ~~~0x7#32 = 0 := by
  revert n
  decide

theorem number_kept (n : Fin 8) : BitVec.ofNat 32 n &&& 0x7 = BitVec.ofNat 32 n := by
  revert n
  decide

theorem regionIndex_number (n : Fin 8) : Scs.regionIndex (BitVec.ofNat 32 n) = n := by
  revert n
  decide

theorem legacy_based (s : SauRegs) (n : Fin 8) {base : Word} (aligned : base &&& 0x1F = 0) :
    (s.putD8 (BitVec.ofNat 32 n)).putDC base =
      { s with
        rnr := BitVec.ofNat 32 n
        rbar := Function.update s.rbar n base
        layout := .legacy } := by
  rw [putD8, if_pos (number_low n), putDC, if_pos aligned]
  simp only [putRnr, toLegacy, putRbar, ScsBlock.setRegion, number_kept, regionIndex_number]

/-- What the registers hold after the three writes, with what the two slots of the region read. -/
structure Holds (s s' : SauRegs) (n : Fin 8) (base limit readRbar readRlar : Word) : Prop where
  rbar : s'.rbar = Function.update s.rbar n base
  rlar : s'.rlar = Function.update s.rlar n limit
  sfsr : s'.sfsr = s.sfsr
  sfar : s'.sfar = s.sfar
  readRbar : readRbar = base
  readRlar : readRlar = limit

theorem new_zero (s : SauRegs) (n : Fin 8) :
    (s.putRnr (BitVec.ofNat 32 n)).putD8 0 = { s with rnr := 0, layout := .legacy } := by
  rw [putD8, if_pos (by decide)]
  rfl

theorem new_based (s : SauRegs) (n : Fin 8) {base : Word} (far : base &&& ~~~0x7#32 ≠ 0) :
    (s.putRnr (BitVec.ofNat 32 n)).putD8 base =
      { s with rnr := BitVec.ofNat 32 n, rbar := Function.update s.rbar n base } := by
  rw [putD8, if_neg far]
  simp only [putRnr, putRbar, ScsBlock.setRegion, number_kept, regionIndex_number]

theorem based_far {base : Word} (aligned : base &&& 0x1F = 0) (nonzero : base ≠ 0) :
    base &&& ~~~0x7#32 ≠ 0 := by
  intro low
  apply nonzero
  calc base = base &&& (~~~0x7#32 ||| 0x1F) := (BitVec.and_allOnes ..).symm
    _ = (base &&& ~~~0x7#32) ||| (base &&& 0x1F) := BitVec.and_or_distrib_left ..
    _ = 0 := by rw [low, aligned]; rfl

end SauRegs

inductive SauMap
  | new
  | legacy
  deriving DecidableEq, Repr

namespace SauMap

def rnr : SauMap → Word
  | .new => 0xDD4
  | .legacy => 0xDD8

def rbar : SauMap → Word
  | .new => 0xDD8
  | .legacy => 0xDDC

def rlar : SauMap → Word
  | .new => 0xDDC
  | .legacy => 0xDE0

end SauMap

namespace ScsBlock

def sau (b : ScsBlock) : SauRegs :=
  ⟨b.scs.sauRnr, b.scs.sauRbar, b.scs.sauRlar, b.scs.sauSfsr, b.scs.sauSfar, b.sauLayout⟩

def put (b : ScsBlock) (offset value : Word) : ScsBlock := (b.scsWrite .secure offset 4 value).2

def get (b : ScsBlock) (offset : Word) : Option Word := (b.scsRead .secure offset 4).1

def program (map : SauMap) (b : ScsBlock) (n : Fin 8) (base limit : Word) : ScsBlock :=
  ((b.put map.rnr (BitVec.ofNat 32 n)).put map.rbar base).put map.rlar limit

/-- The region has what was written, nothing else of the SAU has changed, and what was written is
read back. -/
structure Programmed (map : SauMap) (b b' : ScsBlock) (n : Fin 8) (base limit : Word) : Prop where
  rbar : b'.scs.sauRbar = Function.update b.scs.sauRbar n base
  rlar : b'.scs.sauRlar = Function.update b.scs.sauRlar n limit
  sfsr : b'.scs.sauSfsr = b.scs.sauSfsr
  sfar : b'.scs.sauSfar = b.scs.sauSfar
  readRbar : b'.get map.rbar = some base
  readRlar : b'.get map.rlar = some limit

def AlreadyZero (b : ScsBlock) (n : Fin 8) (limit : Word) : Prop :=
  if n = 0 then limit = 0 ∧ b.scs.sauRlar 0 = 0
  else b.scs.sauRbar n = 0 ∧ b.scs.sauRlar n = limit ∧ b.scs.sauRbar 0 = limit ∧
    (limit &&& 0x1F ≠ 0 → b.scs.sauRlar 0 = limit)

def NewTold (b : ScsBlock) (n : Fin 8) (base limit : Word) : Prop :=
  if base = 0 then b.AlreadyZero n limit else limit &&& 0x1F ≠ 0 ∧ b.sauLayout ≠ .legacy

def LegacyTold (b : ScsBlock) (n : Fin 8) (limit : Word) : Prop :=
  0xFF < limit ∨ b.scs.sauSfsr = limit ∧ b.scs.sauRlar n = limit

def Told (b : ScsBlock) (n : Fin 8) (base limit : Word) : SauMap → Prop
  | .new => b.NewTold n base limit
  | .legacy => b.LegacyTold n limit

variable {b : ScsBlock}

section

variable (secure : b.scs.lastAccessSec = .secure)

include secure

theorem put_scb {offset : Word} {reg : ScbReg} (scb : scsScbOffset ≤ offset)
    (inPage : offset < scsPageSize)
    (slot : ScbReg.ofOffset ((offset &&& ~~~3#32) - scsScbOffset) = some reg) (v : Word) :
    b.put offset v = (b.scbWrite .secure .secure v reg).2 := by
  have eff : b.effSec .secure = .secure := secure
  rw [put, scsWrite, if_neg (BitVec.not_le.mpr inPage), if_neg (BitVec.not_lt.mpr scb),
    if_pos (.inr (.inr rfl)), slot, eff]
  rfl

theorem put_D4 (v : Word) :
    (b.put 0xDD4 v).sau = b.sau.putRnr v ∧ (b.put 0xDD4 v).scs.lastAccessSec = .secure := by
  rw [put_scb secure (by decide) (by decide) rfl]
  exact ⟨rfl, secure⟩

theorem put_D8 (v : Word) :
    (b.put 0xDD8 v).sau = b.sau.putD8 v ∧ (b.put 0xDD8 v).scs.lastAccessSec = .secure := by
  rw [put_scb secure (by decide) (by decide) rfl, SauRegs.putD8, scbWrite, sauWrite]
  by_cases number : v &&& ~~~0x7#32 = 0
  · rw [if_pos number, if_pos number]
    exact ⟨rfl, secure⟩
  · rw [if_neg number, if_neg number]
    exact ⟨rfl, secure⟩

theorem put_DC (v : Word) :
    (b.put 0xDDC v).sau = b.sau.putDC v ∧ (b.put 0xDDC v).scs.lastAccessSec = .secure := by
  rw [put_scb secure (by decide) (by decide) rfl, SauRegs.putDC, scbWrite, sauWrite]
  by_cases aligned : v &&& 0x1F = 0
  · rw [if_pos aligned, if_pos aligned]
    exact ⟨rfl, secure⟩
  · rw [if_neg aligned, if_neg aligned]
    exact ⟨rfl, secure⟩

theorem put_E0 (v : Word) :
    (b.put 0xDE0 v).sau = b.sau.putE0 v ∧ (b.put 0xDE0 v).scs.lastAccessSec = .secure := by
  rw [put_scb secure (by decide) (by decide) rfl, SauRegs.putE0, scbWrite, sauWrite]
  by_cases small : v ≤ 0xFF
  · rw [if_pos small, if_pos small]
    exact ⟨rfl, secure⟩
  · rw [if_neg small, if_neg small]
    exact ⟨rfl, secure⟩

theorem get_scb (offset : Word) {reg : ScbReg} (scb : scsScbOffset ≤ offset)
    (inPage : offset < scsPageSize)
    (slot : ScbReg.ofOffset ((offset &&& ~~~3#32) - scsScbOffset) = some reg) :
    b.get offset = some (b.scbRead .secure .secure reg) := by
  have eff : b.effSec .secure = .secure := secure
  rw [get, scsRead, if_neg (BitVec.not_le.mpr inPage), if_neg (BitVec.not_lt.mpr scb), slot, eff]
  rfl

theorem get_D8 : b.get 0xDD8 = some (b.sau.slot b.sau.rnr (b.sau.rbar b.sau.current)) :=
  get_scb secure 0xDD8 (by decide) (by decide) rfl

theorem get_DC : b.get 0xDDC =
    some (b.sau.slot (b.sau.rbar b.sau.current) (b.sau.rlar b.sau.current)) :=
  get_scb secure 0xDDC (by decide) (by decide) rfl

theorem get_E0 : b.get 0xDE0 = some (b.sau.slot (b.sau.rlar b.sau.current) b.sau.sfsr) :=
  get_scb secure 0xDE0 (by decide) (by decide) rfl

theorem program_new (n : Fin 8) (base limit : Word) :
    (b.program .new n base limit).sau =
        ((b.sau.putRnr (BitVec.ofNat 32 n)).putD8 base).putDC limit ∧
      (b.program .new n base limit).scs.lastAccessSec = .secure := by
  obtain ⟨numbered, secure⟩ := put_D4 secure (BitVec.ofNat 32 n)
  obtain ⟨based, secure⟩ := put_D8 secure base
  obtain ⟨limited, secure⟩ := put_DC secure limit
  exact ⟨by rw [← numbered, ← based, ← limited]; rfl, secure⟩

theorem program_legacy (n : Fin 8) (base limit : Word) :
    (b.program .legacy n base limit).sau =
        ((b.sau.putD8 (BitVec.ofNat 32 n)).putDC base).putE0 limit ∧
      (b.program .legacy n base limit).scs.lastAccessSec = .secure := by
  obtain ⟨numbered, secure⟩ := put_D8 secure (BitVec.ofNat 32 n)
  obtain ⟨based, secure⟩ := put_DC secure base
  obtain ⟨limited, secure⟩ := put_E0 secure limit
  exact ⟨by rw [← numbered, ← based, ← limited]; rfl, secure⟩

end

theorem programmed_holds (map : SauMap) {b' : ScsBlock} {s' : SauRegs} (view : b'.sau = s')
    {n : Fin 8} {base limit readRbar readRlar : Word} (atRbar : b'.get map.rbar = some readRbar)
    (atRlar : b'.get map.rlar = some readRlar) :
    Programmed map b b' n base limit ↔ b.sau.Holds s' n base limit readRbar readRlar := by
  subst view
  constructor
  · intro done
    exact ⟨done.rbar, done.rlar, done.sfsr, done.sfar,
      Option.some_inj.mp (atRbar.symm.trans done.readRbar),
      Option.some_inj.mp (atRlar.symm.trans done.readRlar)⟩
  · intro held
    exact ⟨held.rbar, held.rlar, held.sfsr, held.sfar, by rw [atRbar, held.readRbar],
      by rw [atRlar, held.readRlar]⟩

theorem legacy_programmed_iff (secure : b.scs.lastAccessSec = .secure) (n : Fin 8)
    {base limit : Word} (aligned : base &&& 0x1F = 0) :
    Programmed .legacy b (b.program .legacy n base limit) n base limit ↔ b.LegacyTold n limit := by
  obtain ⟨result, secure'⟩ := program_legacy secure n base limit
  rw [programmed_holds .legacy result (get_DC secure') (get_E0 secure'), result, LegacyTold,
    SauRegs.legacy_based b.sau n aligned, SauRegs.putE0]
  by_cases small : limit ≤ 0xFF
  · rw [if_pos small, SauRegs.slot, SauRegs.slot, if_pos rfl, if_pos rfl, SauRegs.current,
      SauRegs.regionIndex_number]
    constructor
    · intro held
      exact .inr ⟨held.sfsr.symm, held.readRlar⟩
    · rintro (large | ⟨sfsr, rlar⟩)
      · exact absurd small (BitVec.not_le.mpr large)
      · exact ⟨rfl, Function.eq_update_self_iff.mpr rlar, sfsr.symm, rfl,
          Function.update_self .., rlar⟩
  · simp only [if_neg small, SauRegs.putRlar, SauRegs.toLegacy, SauRegs.slot, SauRegs.current,
      setRegion, SauRegs.regionIndex_number, if_true]
    exact iff_of_true
      ⟨rfl, rfl, rfl, rfl, Function.update_self .., Function.update_self ..⟩
      (.inl (BitVec.not_le.mp small))

theorem new_zero_iff (b : ScsBlock) (n : Fin 8) (limit : Word) {s' : SauRegs}
    (result : s' = SauRegs.putDC { b.sau with rnr := 0, layout := .legacy } limit) :
    b.sau.Holds s' n 0 limit (s'.slot s'.rnr (s'.rbar s'.current))
      (s'.slot (s'.rbar s'.current) (s'.rlar s'.current)) ↔ b.AlreadyZero n limit := by
  rw [AlreadyZero]
  have zero : Scs.regionIndex 0 = 0 := rfl
  by_cases low : limit &&& 0x1F = 0
  · rw [SauRegs.putDC, if_pos low] at result
    simp only [SauRegs.putRbar, SauRegs.toLegacy, setRegion, zero] at result
    subst result
    simp only [SauRegs.slot, SauRegs.current, zero, if_true, Function.update_self]
    by_cases first : n = 0
    · subst first
      rw [if_pos rfl]
      constructor
      · intro held
        have cleared := congrFun held.rbar 0
        have limited := congrFun held.rlar 0
        simp only [Function.update_self] at cleared limited
        exact ⟨cleared, limited.trans cleared⟩
      · rintro ⟨rfl, rlar⟩
        exact ⟨rfl, Function.eq_update_self_iff.mpr rlar, rfl, rfl, rfl, rfl⟩
    · rw [if_neg first]
      constructor
      · intro held
        have limited := congrFun held.rlar n
        have cleared := congrFun held.rbar n
        have based := congrFun held.rbar 0
        simp only [Function.update_self, Function.update_of_ne first,
          Function.update_of_ne (Ne.symm first)] at cleared limited based
        exact ⟨cleared, limited, based.symm, fun far => absurd low far⟩
      · rintro ⟨cleared, limited, based, -⟩
        have kept : Function.update b.sau.rbar 0 limit = b.sau.rbar :=
          Function.update_eq_self_iff.mpr based.symm
        refine ⟨kept.trans ?_, Function.eq_update_self_iff.mpr limited, rfl, rfl, rfl, rfl⟩
        exact Function.eq_update_self_iff.mpr cleared
  · rw [SauRegs.putDC, if_neg low] at result
    simp only [SauRegs.putRlar, setRegion, zero] at result
    subst result
    simp only [SauRegs.slot, SauRegs.current, zero, if_true]
    by_cases first : n = 0
    · subst first
      rw [if_pos rfl]
      refine iff_of_false (fun held => low ?_) fun already => low ?_
      · have cleared := congrFun held.rbar 0
        rw [Function.update_self] at cleared
        rw [← held.readRlar, cleared]
        rfl
      · rw [already.1]
        rfl
    · rw [if_neg first]
      constructor
      · intro held
        have limited := congrFun held.rlar n
        have other := congrFun held.rlar 0
        simp only [Function.update_self, Function.update_of_ne first,
          Function.update_of_ne (Ne.symm first)] at limited other
        have cleared := Function.eq_update_self_iff.mp held.rbar
        exact ⟨cleared, limited, held.readRlar, fun _ => other.symm⟩
      · rintro ⟨cleared, limited, based, far⟩
        have kept : Function.update b.sau.rlar 0 limit = b.sau.rlar :=
          Function.update_eq_self_iff.mpr (far low).symm
        refine ⟨Function.eq_update_self_iff.mpr cleared, kept.trans ?_, rfl, rfl, rfl, based⟩
        exact Function.eq_update_self_iff.mpr limited

theorem new_programmed_iff (secure : b.scs.lastAccessSec = .secure) (n : Fin 8)
    {base limit : Word} (aligned : base &&& 0x1F = 0) :
    Programmed .new b (b.program .new n base limit) n base limit ↔ b.NewTold n base limit := by
  obtain ⟨result, secure'⟩ := program_new secure n base limit
  rw [programmed_holds .new result (get_D8 secure') (get_DC secure'), result, NewTold]
  by_cases zero : base = 0
  · rw [if_pos zero]
    subst zero
    rw [SauRegs.new_zero]
    exact new_zero_iff b n limit rfl
  · have far := SauRegs.based_far aligned zero
    rw [if_neg zero, SauRegs.new_based b.sau n far, SauRegs.putDC]
    by_cases low : limit &&& 0x1F = 0
    · rw [if_pos low]
      refine iff_of_false (fun held => far ?_) fun told => told.1 low
      rw [← held.readRbar]
      exact SauRegs.number_low n
    · rw [if_neg low, SauRegs.slot, SauRegs.slot, SauRegs.current]
      simp only [SauRegs.putRlar, setRegion, SauRegs.regionIndex_number]
      constructor
      · intro held
        refine ⟨low, fun legacy => far ?_⟩
        rw [← held.readRbar]
        exact (congrArg (· &&& ~~~0x7#32) (if_pos legacy)).trans (SauRegs.number_low n)
      · rintro ⟨-, layout⟩
        exact ⟨rfl, rfl, rfl, rfl, (if_neg layout).trans (Function.update_self ..),
          (if_neg layout).trans (Function.update_self ..)⟩

/-- A region can be programmed with the values that the guess of the register takes rightly, and
with no others. -/
theorem sau_programmed_iff (secure : b.scs.lastAccessSec = .secure) (map : SauMap) (n : Fin 8)
    {base limit : Word} (aligned : base &&& 0x1F = 0) :
    Programmed map b (b.program map n base limit) n base limit ↔ b.Told n base limit map := by
  cases map with
  | new => exact new_programmed_iff secure n aligned
  | legacy => exact legacy_programmed_iff secure n aligned

theorem region_two_programmed :
    let b : ScsBlock := ⟨Scs.init 0x410fc241, Nvic.init, .unknown, false⟩
    Programmed .new b (b.program .new 2 0x10000000 0x100FFFE1) 2 0x10000000 0x100FFFE1 :=
  (sau_programmed_iff rfl .new 2 (by decide)).mpr ⟨by decide, by decide⟩

/-- After a region has been set up in the legacy layout, a limit of 0, which would disable it, goes
to the fault status. -/
theorem region_not_disabled :
    ¬ ∀ (b : ScsBlock) (map : SauMap) (n : Fin 8) (base limit : Word),
      b.scs.lastAccessSec = .secure → base &&& 0x1F = 0 →
      Programmed map b (b.program map n base limit) n base limit := by
  intro always
  let b : ScsBlock := ⟨{ Scs.init 0x410fc241 with sauRlar := fun _ => 0x100FFFE1 }, Nvic.init,
    .legacy, false⟩
  have disabled := always b .legacy 2 0x10000000 0 rfl (by decide)
  have limit := congrFun disabled.rlar 2
  exact absurd limit (by decide)

end ScsBlock

end M33mu
