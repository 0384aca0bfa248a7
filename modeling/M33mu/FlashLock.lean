import M33mu.Lib.Run
import M33mu.Stm32Flash

namespace M33mu

open Lib

/-- How far the keys of a control register have come since its LOCK bit was set. -/
inductive KeyState
  | none
  | first
  | opened
  deriving DecidableEq, Repr

def KeyState.key (value : Word) : KeyState → KeyState
  | .none => if value = Stm32Flash.key1 then .first else .none
  | .first => if value = Stm32Flash.key2 then .opened else .none
  | .opened => .opened

theorem KeyState.key_key2 {k : KeyState} (given : k ≠ .none) : k.key Stm32Flash.key2 = .opened := by
  cases k with
  | none => exact absurd rfl given
  | first => rw [key, if_pos rfl]
  | opened => rfl

namespace Stm32Flash

variable {π : Type u}

structure Keyed (π : Type u) where
  ctl : Stm32Flash π
  keys : SecState → KeyState

def Guarded (m : Keyed π) : Prop := ∀ c, m.ctl.isUnlocked c = true → m.keys c = .opened

def locked (s : Stm32Flash π) : Keyed π := ⟨s, fun _ => .none⟩

theorem guarded_locked {s : Stm32Flash π} (set : ∀ c, s.isUnlocked c = false) : Guarded (locked s) :=
  fun c unlocked => absurd ((set c).symm.trans unlocked) Bool.false_ne_true

section

variable [DecidableEq π]

def keyOf (c : SecState) : Op → Option Word
  | .write addr n value =>
    if regOffset addr = some (keyr c) ∧ n ≠ 0 ∧ n ≤ 4 then some value else none
  | .store .. => none

def controlOf : Op → Option SecState
  | .write addr _ _ => (regOffset addr).bind (which cr)
  | .store sec .. => some sec

def keyedStep (m : Keyed π) (op : Op) : Keyed π where
  ctl := m.ctl.step op
  keys c :=
    if m.ctl.isUnlocked c = true ∧ (m.ctl.step op).isUnlocked c = false then .none
    else
      match keyOf c op with
      | some value => (m.keys c).key value
      | none => m.keys c

/-- Before its keys are given, a control register keeps its value, but for the LOCK bit that the last
of them clears; a write to it then does nothing, and the flash does not change under it. -/
structure Respects (m : Keyed π) (op : Op) : Prop where
  keeps : ∀ c, m.keys c ≠ .opened → (m.ctl.step op).reg (cr c) = m.ctl.reg (cr c) ∨
    (keyedStep m op).keys c = .opened ∧
      (m.ctl.step op).reg (cr c) = m.ctl.reg (cr c) &&& ~~~crLock
  inert : ∀ addr n value c, op = .write addr n value → regOffset addr = some (cr c) →
    m.keys c ≠ .opened → m.ctl.step op = m.ctl
  flash : (m.ctl.step op).flash ≠ m.ctl.flash → ∃ c, controlOf op = some c ∧ m.keys c = .opened

/-- The second key comes after a first one that was given since the register was locked; and a write
that reaches a control register before that leaves its bytes as they are, or is one that does not
set LOCK. -/
def Harmless (m : Keyed π) : Op → Prop
  | .write addr n value => ∀ off ∈ regOffset addr, n ≠ 0 → n ≤ 4 → ∀ c,
      (off = keyr c → m.ctl.keyStage.get c = true → value = key2 → m.keys c ≠ .none) ∧
      (m.keys c ≠ .opened → ¬ (off = cr c ∧ value &&& crLock = 0) →
        (m.ctl.regs.copy off.toNat n.toNat value).word (cr c).toNat = m.ctl.reg (cr c) ∧
          (off = cr c → value &&& crStrt = 0))
  | .store .. => True

theorem keys_keyedStep {m : Keyed π} {op : Op} {c : SecState}
    (same : (m.ctl.step op).reg (cr c) = m.ctl.reg (cr c)) :
    (keyedStep m op).keys c = match keyOf c op with
      | some value => (m.keys c).key value
      | none => m.keys c := by
  refine if_neg fun locks => ?_
  rw [isUnlocked_congr same] at locks
  exact Bool.false_ne_true (locks.2.symm.trans locks.1)

theorem respects_of_same {m : Keyed π} {op : Op} (guarded : Guarded m)
    (regs : ∀ c, (m.ctl.step op).reg (cr c) = m.ctl.reg (cr c))
    (inert : ∀ addr n value c, op = .write addr n value → regOffset addr = some (cr c) →
      m.ctl.step op = m.ctl)
    (flash : (m.ctl.step op).flash ≠ m.ctl.flash → ∃ c, controlOf op = some c ∧ m.keys c = .opened) :
    Guarded (keyedStep m op) ∧ Respects m op := by
  refine ⟨fun c unlocked => ?_, ⟨fun c _ => .inl (regs c), fun addr n value c eq here _ =>
    inert addr n value c eq here, flash⟩⟩
  have opened := guarded c ((isUnlocked_congr (regs c)).symm.trans unlocked)
  rw [keys_keyedStep (regs c), opened]
  split <;> rfl

theorem respects_store {m : Keyed π} (guarded : Guarded m) (sec : SecState) (addr n value : Word) :
    Guarded (keyedStep m (.store sec addr n value)) ∧ Respects m (.store sec addr n value) :=
  respects_of_same guarded (fun c => reg_cr_writeCb m.ctl c sec addr n value) nofun
    fun changes => ⟨sec, rfl, guarded sec (isUnlocked_of_writeCb changes)⟩

theorem respects_idle {m : Keyed π} {op : Op} (guarded : Guarded m) (idle : m.ctl.step op = m.ctl) :
    Guarded (keyedStep m op) ∧ Respects m op :=
  respects_of_same guarded (fun _ => by rw [idle]) (fun _ _ _ _ _ _ => idle)
    fun changes => absurd (congrArg Stm32Flash.flash idle) changes

theorem keyOf_write {addr n value off : Word} (here : regOffset addr = some off) (some' : n ≠ 0)
    (small : n ≤ 4) (c : SecState) :
    keyOf c (.write addr n value) = if off = keyr c then some value else none := by
  rw [keyOf, here]
  by_cases key : off = keyr c
  · rw [if_pos ⟨congrArg some key, some', small⟩, if_pos key]
  · rw [if_neg fun all => key (Option.some.inj all.1), if_neg key]

theorem keys_of_unlocked {m : Keyed π} {op : Op} {c : SecState}
    (unlocked : (m.ctl.step op).isUnlocked c = true) :
    (keyedStep m op).keys c = match keyOf c op with
      | some value => (m.keys c).key value
      | none => m.keys c :=
  if_neg fun locks => Bool.false_ne_true (locks.2.symm.trans unlocked)

theorem cr_ne_keyr (c d : SecState) : cr c ≠ keyr d := by
  cases c <;> cases d <;> decide

theorem cr_ne_ccr (c d : SecState) : cr c ≠ ccr d := by
  cases c <;> cases d <;> decide

theorem keyr_inj {c d : SecState} (same : keyr c = keyr d) : c = d := by
  cases c <;> cases d <;> first | rfl | exact absurd same (by decide)

theorem respects_key {m : Keyed π} (guarded : Guarded m) {addr n value : Word} {d : SecState}
    (here : regOffset addr = some (keyr d)) (some' : n ≠ 0) (small : n ≤ 4)
    (eq : m.ctl.step (.write addr n value) = m.ctl.handleKey d value)
    (fresh : m.ctl.keyStage.get d = true → value = key2 → m.keys d ≠ .none) :
    Guarded (keyedStep m (.write addr n value)) ∧ Respects m (.write addr n value) := by
  have inert (addr' n' value' : Word) (c : SecState) (same : Op.write addr n value = .write addr' n' value')
      (control : regOffset addr' = some (cr c)) : m.ctl.step (.write addr n value) = m.ctl := by
    cases same
    exact absurd (Option.some.inj (control.symm.trans here)) (cr_ne_keyr c d)
  have flash : (m.ctl.step (.write addr n value)).flash = m.ctl.flash := by
    rw [eq, flash_handleKey]
  by_cases unlocks : m.ctl.keyStage.get d = true ∧ value = key2
  · obtain ⟨regs, others⟩ := reg_handleKey_unlocks m.ctl unlocks.1 unlocks.2
    rw [← eq] at regs others
    have opens : (keyedStep m (.write addr n value)).keys d = .opened := by
      rw [keys_of_unlocked (isUnlocked_of_reg regs), keyOf_write here some' small, if_pos rfl,
        unlocks.2]
      exact KeyState.key_key2 (fresh unlocks.1 unlocks.2)
    refine ⟨fun c unlocked => ?_, fun c shut => ?_, fun addr n value c same control _ =>
      inert addr n value c same control, fun changes => absurd flash changes⟩
    · by_cases this : c = d
      · exact this ▸ opens
      · have opened := guarded c ((isUnlocked_congr (others c this)).symm.trans unlocked)
        rw [keys_of_unlocked unlocked, keyOf_write here some' small,
          if_neg fun same => this (keyr_inj same).symm]
        exact opened
    · by_cases this : c = d
      · subst this
        exact .inr ⟨opens, regs⟩
      · exact .inl (others c this)
  · refine respects_of_same guarded (fun c => ?_) inert fun changes => absurd flash changes
    rw [eq, reg_handleKey_keeps m.ctl unlocks]

theorem writeControl_of_locked {s : Stm32Flash π} {d : SecState} {n value : Word} (small : n ≤ 4)
    (set : s.isUnlocked d = false)
    (harmless : value &&& crLock ≠ 0 →
      (s.regs.copy (cr d).toNat n.toNat value).word (cr d).toNat = s.reg (cr d) ∧
        value &&& crStrt = 0) : s.writeControl d n value = s := by
  rw [writeControl]
  by_cases lock : value &&& crLock = 0
  · exact if_pos ⟨set, lock⟩
  obtain ⟨same, start⟩ := harmless lock
  have copied : s.regs.copy (cr d).toNat n.toNat value = s.regs :=
    RegFile.copy_eq_self (BitVec.le_def.mp small) same
  have kept : s.reg (cr d) ||| crLock = s.reg (cr d) := or_crLock_of_locked set
  have written : s.setReg (cr d) (s.reg (cr d)) = s :=
    congrArg (fun regs => { s with regs := regs }) (RegFile.setWord_self ..)
  rw [if_neg fun clear => lock clear.2]
  dsimp only
  rw [copied, if_pos lock, if_neg (not_not.mpr start)]
  exact (congrArg (s.setReg (cr d)) kept).trans written

theorem respects_control {m : Keyed π} (guarded : Guarded m) {addr n value : Word} {d : SecState}
    (here : regOffset addr = some (cr d)) (some' : n ≠ 0) (small : n ≤ 4)
    (eq : m.ctl.step (.write addr n value) = m.ctl.writeControl d n value)
    (harmless : m.keys d ≠ .opened → value &&& crLock ≠ 0 →
      (m.ctl.regs.copy (cr d).toNat n.toNat value).word (cr d).toNat = m.ctl.reg (cr d) ∧
        value &&& crStrt = 0) :
    Guarded (keyedStep m (.write addr n value)) ∧ Respects m (.write addr n value) := by
  by_cases shut : m.keys d = .opened
  · have others (c : SecState) (this : c ≠ d) :
        (m.ctl.step (.write addr n value)).reg (cr c) = m.ctl.reg (cr c) := by
      rw [eq, reg_writeControl_of_ne m.ctl small this]
    have none' (c : SecState) : keyOf c (.write addr n value) = none := by
      rw [keyOf_write here some' small, if_neg (cr_ne_keyr d c)]
    have opened {c : SecState} (opened : m.keys c = .opened)
        (unlocked : (m.ctl.step (.write addr n value)).isUnlocked c = true) :
        (keyedStep m (.write addr n value)).keys c = .opened := by
      rw [keys_of_unlocked unlocked, none']
      exact opened
    refine ⟨fun c unlocked => ?_, fun c locked => ?_, fun addr' n' value' c same control locked => ?_,
      fun changes => ⟨d, ?_, shut⟩⟩
    · by_cases this : c = d
      · exact opened (this ▸ shut) unlocked
      · exact opened (guarded c ((isUnlocked_congr (others c this)).symm.trans unlocked)) unlocked
    · exact .inl (others c fun this => locked (this ▸ shut))
    · cases same
      obtain rfl := cr_inj (Option.some.inj (control.symm.trans here))
      exact absurd shut locked
    · rw [controlOf, here]
      exact which_cr d
  · have set : m.ctl.isUnlocked d = false := eq_false_of_ne_true fun unlocked => shut (guarded d unlocked)
    exact respects_idle guarded (eq.trans (writeControl_of_locked small set (harmless shut)))

theorem respects_write {m : Keyed π} (guarded : Guarded m) {addr n value off : Word}
    (here : regOffset addr = some off) (harmless : Harmless m (.write addr n value)) :
    Guarded (keyedStep m (.write addr n value)) ∧ Respects m (.write addr n value) := by
  have eq : m.ctl.step (.write addr n value) = (m.ctl.write off n value).2 := by
    rw [step, here]
  have harmless := harmless off here
  rw [write] at eq
  split at eq
  · exact respects_idle guarded eq
  rename_i valid
  obtain ⟨some', large⟩ := not_or.mp valid
  have small : n ≤ 4 := BitVec.not_lt.mp large
  split at eq
  · exact respects_idle guarded eq
  have harmless := harmless some' small
  split at eq
  · rename_i d key
    obtain rfl := which_eq_some key
    exact respects_key guarded here some' small eq ((harmless d).1 rfl)
  split at eq
  · rename_i d clear
    obtain rfl := which_eq_some clear
    refine respects_of_same guarded (fun c => ?_) (fun addr' n' value' c same control => ?_)
      fun changes => absurd ?_ changes
    · rw [eq]
      dsimp only
      split
      · exact reg_cr_setReg_sr ..
      · rfl
    · cases same
      exact absurd (Option.some.inj (control.symm.trans here)) (cr_ne_ccr c d)
    · rw [eq]
      dsimp only
      split <;> rfl
  split at eq
  · rename_i d control
    obtain rfl := which_eq_some control
    refine respects_control guarded here some' small eq fun shut lock => ?_
    obtain ⟨same, start⟩ := (harmless d).2 shut fun clear => lock clear.2
    exact ⟨same, start rfl⟩
  · rename_i notKey _ notControl
    have other (c : SecState) : off ≠ cr c := fun this => by
      rw [this, which_cr] at notControl
      cases notControl
    have keeps (c : SecState) (shut : m.keys c ≠ .opened) :
        (m.ctl.step (.write addr n value)).reg (cr c) = m.ctl.reg (cr c) := by
      rw [eq]
      exact ((harmless c).2 shut fun this => other c this.1).1
    refine ⟨fun c unlocked => ?_, fun c shut => .inl (keeps c shut),
      fun addr' n' value' c same control _ => ?_, fun changes => absurd (by rw [eq]) changes⟩
    · have opened : m.keys c = .opened := by
        by_contra shut
        exact shut (guarded c ((isUnlocked_congr (keeps c shut)).symm.trans unlocked))
      rw [keys_of_unlocked unlocked, opened]
      split <;> rfl
    · cases same
      exact absurd (Option.some.inj (control.symm.trans here)).symm (other c)

theorem respects_step {m : Keyed π} {op : Op} (guarded : Guarded m) (harmless : Harmless m op) :
    Guarded (keyedStep m op) ∧ Respects m op := by
  cases op with
  | store sec addr n value => exact respects_store guarded sec addr n value
  | write addr n value =>
    cases here : regOffset addr with
    | none => exact respects_idle guarded (by rw [step, here])
    | some off => exact respects_write guarded here harmless

theorem run_respects {m : Keyed π} {ops : List Op} (guarded : Guarded m)
    (harmless : Along keyedStep Harmless m ops) :
    Throughout keyedStep Guarded m ops ∧ Along keyedStep Respects m ops := by
  refine throughout_and_along ?_ guarded harmless
  exact fun m op guarded harmless => respects_step guarded harmless

omit [DecidableEq π] in
theorem harmless_key {m : Keyed π} {addr n value : Word} {d : SecState}
    (here : regOffset addr = some (keyr d))
    (given : m.ctl.keyStage.get d = true → value = key2 → m.keys d ≠ .none) :
    Harmless m (.write addr n value) := by
  intro off found _ small c
  obtain rfl := Option.some.inj (here.symm.trans found)
  refine ⟨fun key => ?_, fun _ _ => ⟨?_, fun control => absurd control.symm (cr_ne_keyr c d)⟩⟩
  · obtain rfl := keyr_inj key
    exact given
  · refine RegFile.word_copy_of_apart _ _ (.inr ?_)
    have bound := BitVec.le_def.mp small
    change n.toNat ≤ 4 at bound
    have last : (keyr d).toNat + 4 ≤ (cr c).toNat := by cases c <;> cases d <;> decide
    omega

omit [DecidableEq π] in
theorem harmless_opened {m : Keyed π} {addr n value : Word} {d : SecState}
    (here : regOffset addr = some (cr d)) (opened : m.keys d = .opened) :
    Harmless m (.write addr n value) := by
  intro off found _ small c
  obtain rfl := Option.some.inj (here.symm.trans found)
  refine ⟨fun key => absurd key (cr_ne_keyr d c), fun shut _ => ?_⟩
  have other : c ≠ d := fun this => shut (this ▸ opened)
  refine ⟨RegFile.word_copy_of_apart _ _ ?_, fun same => absurd (cr_inj same).symm other⟩
  have bound := BitVec.le_def.mp small
  change n.toNat ≤ 4 at bound
  have apart := cr_apart other
  omega

/-- In a run whose writes are harmless, only the keys unlock a control register, and what it guards
stays as it is before they are given. -/
theorem flash_locked_until_keys (flash : Word → Byte) (flashSize baseS baseNs : Word)
    (persist : FlashPersist π) (writeOnce : Bool) (files : π → List Byte) (ops : List Op)
    (harmless : Along keyedStep Harmless
      (locked (start flash flashSize baseS baseNs persist writeOnce files)) ops) :
    Throughout keyedStep Guarded
        (locked (start flash flashSize baseS baseNs persist writeOnce files)) ops ∧
      Along keyedStep Respects
        (locked (start flash flashSize baseS baseNs persist writeOnce files)) ops :=
  run_respects (guarded_locked
    (isUnlocked_start flash flashSize baseS baseNs persist writeOnce files)) harmless

end

def fresh : Stm32Flash Unit :=
  start (fun _ => 0) 0x200000 0x0C000000 0x08000000 ⟨false, []⟩ false fun _ => []

def programming : List Op :=
  [.write (base + keyr .nonsecure) 4 key1, .write (base + keyr .nonsecure) 4 key2,
    .write (base + cr .nonsecure) 4 crPg, .store .nonsecure 0x08000000 4 0x12345678]

theorem flash_locked_programming :
    Throughout keyedStep Guarded (locked fresh) programming ∧
      Along keyedStep Respects (locked fresh) programming := by
  have first : ∀ m : Keyed Unit, Harmless m (.write (base + keyr .nonsecure) 4 key1) :=
    fun _ => harmless_key (d := .nonsecure) rfl fun _ second => absurd second (by decide)
  refine flash_locked_until_keys (fun _ => 0) 0x200000 0x0C000000 0x08000000 ⟨false, []⟩ false
    (fun _ => []) programming ⟨first _, harmless_key (d := .nonsecure) rfl fun _ _ => ?_,
      harmless_opened (d := .nonsecure) rfl ?_, trivial, trivial⟩
  · decide +kernel
  · decide +kernel

theorem locked_erase_erases :
    ¬ (Throughout keyedStep Guarded (locked fresh) [.write (base + cr .nonsecure) 4 0x25] ∧
      Along keyedStep Respects (locked fresh) [.write (base + cr .nonsecure) 4 0x25]) := by
  rintro ⟨-, respects, -⟩
  have erased : ((locked fresh).ctl.step (.write (base + cr .nonsecure) 4 0x25)).flash 0 ≠
      (locked fresh).ctl.flash 0 := by decide +kernel
  obtain ⟨c, -, opened⟩ := respects.flash fun same => erased (congrFun same 0)
  cases opened

end Stm32Flash

end M33mu
