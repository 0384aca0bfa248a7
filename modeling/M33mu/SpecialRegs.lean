import M33mu.Decode32
import M33mu.SystemReset

namespace M33mu

inductive Special
  | msp
  | psp
  | msplim
  | psplim
  | primask
  | control
  deriving DecidableEq, Repr

/-- A special register of the current state, or the alias by which Secure code names that of
Non-secure state. -/
inductive SpecialName
  | own (x : Special)
  | aliasNs (x : Special)
  deriving DecidableEq, Repr

namespace SpecialName

def reg : SpecialName → Special
  | .own x => x
  | .aliasNs x => x

def bank (x : SpecialName) (c : Cpu) : SecState :=
  match x with
  | .own _ => c.secState
  | .aliasNs _ => .nonsecure

def sysm : SpecialName → Word
  | .own .msp => 0x08
  | .own .psp => 0x09
  | .own .msplim => 0x0a
  | .own .psplim => 0x0b
  | .own .primask => 0x10
  | .own .control => 0x14
  | .aliasNs .msp => 0x88
  | .aliasNs .psp => 0x89
  | .aliasNs .msplim => 0x8a
  | .aliasNs .psplim => 0x8b
  | .aliasNs .primask => 0x90
  | .aliasNs .control => 0x94

end SpecialName

namespace Cpu

def putSpecial (c : Cpu) (x : Special) (sec : SecState) (v : Word) : Cpu :=
  match x with
  | .msp => { c with msp := c.msp.set sec v }
  | .psp => { c with psp := c.psp.set sec v }
  | .msplim => { c with msplim := c.msplim.set sec v }
  | .psplim => { c with psplim := c.psplim.set sec v }
  | .primask => { c with primask := c.primask.set sec v }
  | .control => c.setControl sec v

def reloadSp (c : Cpu) : Cpu := c.setReg 13 c.getActiveSp

theorem setReg_eq_iff (c : Cpu) (i : Reg) (v w : Word) : c.setReg i v = c.setReg i w ↔ v = w := by
  constructor
  · intro same
    simpa using congrArg (fun c => c.r i) same
  · exact congrArg _

theorem withoutTracking_setMsp (c : Cpu) (sec : SecState) (v : Word) :
    (c.setMsp sec v).withoutTracking = (c.putSpecial .msp sec v).withoutTracking := by
  refine (withoutTracking_updateMspMin _ sec v).trans ?_
  cases sec with
  | nonsecure => rfl
  | secure => exact withoutTracking_initMspTop _ .secure v

end Cpu

inductive Status
  | apsr
  | ipsr
  | xpsr
  deriving DecidableEq, Repr

def Status.sysm : Status → Word
  | .apsr => 0x00
  | .ipsr => 0x05
  | .xpsr => 0x03

namespace Cpu

variable {c : Cpu} {rd : Reg}

/-- The CPU that `MSR` and `MRS` of `v` should leave. -/
def roundTrip (c : Cpu) (x : Special) (sec : SecState) (rd : Reg) (v : Word) : Cpu :=
  (c.putSpecial x sec v).reloadSp.setReg rd v

/-- The CPU that `MSR` of `w` and `MRS` leave. -/
def afterPair (c : Cpu) (x : SpecialName) (rd : Reg) (w : Word) : Cpu :=
  let c := (c.writeSpecial x.sysm w).reloadSp
  c.setReg rd (c.readSpecial x.sysm)

variable (rd) in
theorem withoutTracking_afterPair {d : Cpu} {x : SpecialName} {w a : Word}
    (written : (c.writeSpecial x.sysm w).withoutTracking = d.withoutTracking)
    (read : (c.writeSpecial x.sysm w).reloadSp.readSpecial x.sysm = a) :
    (c.afterPair x rd w).withoutTracking = (d.reloadSp.setReg rd a).withoutTracking := by
  have reloaded := congrArg (fun c : Cpu => (c.reloadSp.setReg rd a).withoutTracking) written
  rw [afterPair, read]
  exact reloaded

theorem r_of_withoutTracking_eq {c c' : Cpu} {a b : Word}
    (same : (c.setReg rd a).withoutTracking = (c'.setReg rd b).withoutTracking) : a = b := by
  have regs := congrArg (fun c : Cpu => c.r rd) same
  exact (setReg_r_self c rd a).symm.trans (Eq.trans regs (setReg_r_self c' rd b))

theorem afterPair_eq_iff_of_inverse {x : Special} {sec : SecState} {n : SpecialName} {w v : Word}
    (written : (c.writeSpecial n.sysm w).withoutTracking = (c.putSpecial x sec w).withoutTracking)
    (read : (c.writeSpecial n.sysm w).reloadSp.readSpecial n.sysm = w) :
    (c.afterPair n rd w).withoutTracking = (c.roundTrip x sec rd v).withoutTracking ↔ v = w := by
  rw [withoutTracking_afterPair rd written read]
  constructor
  · intro same
    exact (r_of_withoutTracking_eq same).symm
  · rintro rfl
    rfl

theorem afterPair_msp_iff (w v : Word) :
    (c.afterPair (.own .msp) rd w).withoutTracking =
        (c.roundTrip .msp c.secState rd v).withoutTracking ↔
      v = w ∧ (c.usesPsp = true → c.psp.get c.secState = w) := by
  have written := withoutTracking_setMsp c c.secState w
  have read : (c.setMsp c.secState w).reloadSp.readSpecial 0x08 =
      if c.usesPsp then c.psp.get c.secState else w := by
    have active := congrArg Cpu.getActiveSp written
    refine Eq.trans active ?_
    show (if c.usesPsp then _ else (c.msp.set c.secState w).get c.secState) = _
    rw [Banked.get_set_self]
    rfl
  have pair := withoutTracking_afterPair rd (x := .own .msp) written read
  rw [pair]
  constructor
  · intro same
    have value := r_of_withoutTracking_eq same
    have banks : (c.msp.set c.secState w).get c.secState = (c.msp.set c.secState v).get c.secState :=
      congrArg (fun c' : Cpu => c'.msp.get c.secState) same
    simp only [Banked.get_set_self] at banks
    refine ⟨banks.symm, fun psp => ?_⟩
    rw [if_pos psp] at value
    exact value.trans banks.symm
  · rintro ⟨rfl, psp⟩
    have value : (if c.usesPsp then c.psp.get c.secState else v) = v := by
      split
      · exact psp ‹_›
      · rfl
    rw [value]
    rfl

theorem afterPair_primask_iff {n : SpecialName} (primask : n.reg = .primask) (sec : SecState)
    (w v : Word) :
    (c.afterPair n rd w).withoutTracking = (c.roundTrip .primask sec rd v).withoutTracking ↔
      v = 0 ∧ c.primask.get sec = 0 := by
  have pair : (c.afterPair n rd w).withoutTracking = (c.reloadSp.setReg rd 0).withoutTracking := by
    cases n <;> cases primask <;> rfl
  rw [pair]
  constructor
  · intro same
    have value := r_of_withoutTracking_eq same
    have banks : c.primask = c.primask.set sec v := congrArg Cpu.primask same
    have own := congrArg (fun b : Banked Word => b.get sec) banks
    simp only [Banked.get_set_self] at own
    exact ⟨value.symm, own.trans value.symm⟩
  · rintro ⟨rfl, zero⟩
    have unchanged : c.putSpecial .primask sec 0 = c := by
      have := c.primask.set_get_self sec
      rw [zero] at this
      simp only [putSpecial, this]
    rw [roundTrip, unchanged]

theorem afterPair_control_iff (w v : Word) :
    (c.afterPair (.own .control) rd w).withoutTracking =
        (c.roundTrip .control .nonsecure rd v).withoutTracking ↔
      v = w ∧ c.control = .both w ∧ c.priv = .both (w.getLsbD 0) := by
  rw [withoutTracking_afterPair rd (d := c.setControl .secure w) (a := w) rfl rfl]
  constructor
  · intro same
    have value := r_of_withoutTracking_eq same
    have control : c.control.set .secure w = c.control.set .nonsecure v :=
      congrArg Cpu.control same
    have priv : c.priv.set .secure (w.getLsbD 0) = c.priv.set .nonsecure (v.getLsbD 0) :=
      congrArg Cpu.priv same
    rw [Banked.ext_iff] at control priv
    obtain ⟨controlNs, controlS⟩ := control
    obtain ⟨privNs, privS⟩ := priv
    subst value
    exact ⟨rfl, Banked.ext controlNs controlS.symm, Banked.ext privNs privS.symm⟩
  · rintro ⟨rfl, control, priv⟩
    have same : c.setControl .secure v = c.setControl .nonsecure v := by
      simp only [setControl, control, priv]
      rfl
    rw [same]
    rfl

/-- When `MSR` of `w` and `MRS` keep to the register `n`, read off the two tables. -/
def Keeps (c : Cpu) (implemented : Special → Word) (w : Word) : SpecialName → Prop
  | .own .msp => w &&& implemented .msp = w ∧ (c.usesPsp = true → c.psp.get c.secState = w)
  | .own .control =>
    w &&& implemented .control = w ∧
      (c.secState = .nonsecure → c.control = .both w ∧ c.priv = .both (w.getLsbD 0))
  | .own .primask => w &&& implemented .primask = 0 ∧ c.primask.get c.secState = 0
  | .aliasNs .primask => w &&& implemented .primask = 0 ∧ c.primask.ns = 0
  | .own x | .aliasNs x => w &&& implemented x = w

theorem afterPair_eq_iff (implemented : Special → Word) (n : SpecialName) (w : Word) :
    (c.afterPair n rd w).withoutTracking =
        (c.roundTrip n.reg (n.bank c) rd (w &&& implemented n.reg)).withoutTracking ↔
      c.Keeps implemented w n := by
  cases n with
  | own x =>
    cases x with
    | msp => exact afterPair_msp_iff w _
    | psp => exact afterPair_eq_iff_of_inverse rfl (Banked.get_set_self _ _ _)
    | msplim => exact afterPair_eq_iff_of_inverse rfl (Banked.get_set_self _ _ _)
    | psplim => exact afterPair_eq_iff_of_inverse rfl (Banked.get_set_self _ _ _)
    | primask => exact afterPair_primask_iff rfl _ w _
    | control =>
      have secure (v : Word) : (c.afterPair (.own .control) rd w).withoutTracking =
          (c.roundTrip .control .secure rd v).withoutTracking ↔ v = w :=
        afterPair_eq_iff_of_inverse rfl rfl
      simp only [SpecialName.reg, SpecialName.bank, Keeps]
      cases c.secState with
      | nonsecure => simpa using afterPair_control_iff w _
      | secure => simpa using secure _
  | aliasNs x =>
    cases x with
    | msp =>
      have written := withoutTracking_setMsp c .nonsecure w
      have read := congrArg (fun c : Cpu => c.msp.ns) written
      exact afterPair_eq_iff_of_inverse written read
    | psp => exact afterPair_eq_iff_of_inverse rfl rfl
    | msplim => exact afterPair_eq_iff_of_inverse rfl rfl
    | psplim => exact afterPair_eq_iff_of_inverse rfl rfl
    | primask => exact afterPair_primask_iff rfl _ w _
    | control => exact afterPair_eq_iff_of_inverse rfl rfl

end Cpu

/-- What `MRS` names. -/
inductive Readable
  | special (x : SpecialName)
  | status (x : Status)
  deriving DecidableEq, Repr

def Readable.sysm : Readable → Word
  | .special x => x.sysm
  | .status x => x.sysm

/-- `MSR <special>, Rm` with the mask that writes the whole register. -/
def msrInsn (rm : Reg) (sysm : Word) : Word := 0xf3808800 ||| BitVec.ofNat 32 rm.val <<< 16 ||| sysm

/-- `MRS Rd, <special>`. -/
def mrsInsn (rd : Reg) (sysm : Word) : Word := 0xf3ef8000 ||| BitVec.ofNat 32 rd.val <<< 8 ||| sysm

theorem decode32_msr (rm : Reg) (x : SpecialName) :
    (Decode.decode32 (msrInsn rm x.sysm)).kind = .msr ∧
      (Decode.decode32 (msrInsn rm x.sysm)).rm = rm ∧
      (Decode.decode32 (msrInsn rm x.sysm)).imm = 0x800 ||| x.sysm := by
  revert rm
  rcases x with x | x <;> cases x <;> decide +kernel

theorem decode32_mrs {rd : Reg} (hrd : rd ≠ 15) (x : Readable) :
    (Decode.decode32 (mrsInsn rd x.sysm)).kind = .mrs ∧
      (Decode.decode32 (mrsInsn rd x.sysm)).rd = rd ∧
      (Decode.decode32 (mrsInsn rd x.sysm)).imm &&& 0xff = x.sysm := by
  revert rd
  rcases x with (x | x) | x <;> cases x <;> decide +kernel

namespace Machine

variable {δ : Type u} (env : Env δ)

def execWide (m : Machine δ) (pc insn : Word) : Machine δ :=
  let f : FetchResult := ⟨insn, 4, false, 0, pc⟩
  (executeDecoded env f (Decode.decodeT32 Decode.decode32 f)
    { m with cpu := m.cpu.reloadSp }).2

theorem execWide_msr (m : Machine δ) (pc : Word) (rm : Reg) (x : SpecialName) :
    m.execWide env pc (msrInsn rm x.sysm) =
      { m with cpu := m.cpu.reloadSp.writeSpecial x.sysm (m.cpu.reloadSp.r rm) } := by
  obtain ⟨kind, hrm, himm⟩ := decode32_msr rm x
  have sysm : (0x800 ||| x.sysm) &&& 0xff = x.sysm := by
    rcases x with x | x <;> cases x <;> decide
  have mask : (0x800 ||| x.sysm) >>> 8 &&& 0xf = 8 := by
    rcases x with x | x <;> cases x <;> decide
  have msr (c : Cpu) : c.execMsr (Decode.decode32 (msrInsn rm x.sysm)) =
      c.writeSpecial x.sysm (c.r rm) := by
    simp only [Cpu.execMsr, hrm, himm, sysm, mask, if_true]
  simp [execWide, Decode.decodeT32, executeDecoded, kind, msr]

theorem execWide_mrs (m : Machine δ) (pc : Word) (x : Readable) {rd : Reg} (hrd : rd ≠ 15) :
    m.execWide env pc (mrsInsn rd x.sysm) =
      { m with cpu := m.cpu.reloadSp.setReg rd (m.cpu.reloadSp.readSpecial x.sysm) } := by
  obtain ⟨kind, hd, himm⟩ := decode32_mrs hrd x
  have mrs (m : Machine δ) : Execute.execMrs m (Decode.decode32 (mrsInsn rd x.sysm)) =
      (.ok, m.setReg rd (m.cpu.readSpecial x.sysm)) := by
    simp only [Execute.execMrs, hd, hrd, himm, if_false]
  simp [execWide, Decode.decodeT32, executeDecoded, kind, mrs, Machine.setReg]

structure Implemented where
  special : Special → Word
  status : Status → Word

inductive Access
  | writeRead (n : SpecialName) (rm rd : Reg)
  | readMsp (rd : Reg)
  | readStatus (x : Status) (rd : Reg)
  deriving DecidableEq, Repr

namespace Access

def rd : Access → Reg
  | .writeRead _ _ rd | .readMsp rd | .readStatus _ rd => rd

def NamedIn (sec : SecState) : Access → Prop
  | .writeRead (.aliasNs _) _ _ => sec = .secure
  | _ => True

/-- What an access should do to the CPU, once the first of its instructions was fetched at `pc` and
the second, if any, at `pc'`. -/
def Obeyed (imp : Implemented) (m : Machine δ) (pc pc' : Word) (a : Access) : Prop :=
  let c := m.cpu.reloadSp
  match a with
  | .writeRead n rm rd =>
    ((m.execWide env pc (msrInsn rm n.sysm)).execWide env pc'
        (mrsInsn rd n.sysm)).cpu.withoutTracking =
      (c.roundTrip n.reg (n.bank c) rd (c.r rm &&& imp.special n.reg)).withoutTracking
  | .readMsp rd =>
    (m.execWide env pc (mrsInsn rd (SpecialName.own .msp).sysm)).cpu =
      c.setReg rd (c.msp.get c.secState)
  | .readStatus x rd =>
    (m.execWide env pc (mrsInsn rd x.sysm)).cpu = c.setReg rd (c.xpsr &&& imp.status x)

def Kept (imp : Implemented) (c : Cpu) : Access → Prop
  | .writeRead n rm _ => c.Keeps imp.special (c.r rm) n
  | .readMsp _ => c.usesPsp = true → c.psp.get c.secState = c.msp.get c.secState
  | .readStatus x _ => c.xpsr &&& imp.status x = 0

end Access

theorem writeRead_obeyed_iff (imp : Implemented) (m : Machine δ) (pc pc' : Word) (n : SpecialName)
    (rm : Reg) {rd : Reg} (hrd : rd ≠ 15) :
    (Access.writeRead n rm rd).Obeyed env imp m pc pc' ↔
      (Access.writeRead n rm rd).Kept imp m.cpu.reloadSp := by
  have pair : ((m.execWide env pc (msrInsn rm n.sysm)).execWide env pc' (mrsInsn rd n.sysm)).cpu =
      m.cpu.reloadSp.afterPair n rd (m.cpu.reloadSp.r rm) := by
    rw [execWide_msr]
    exact congrArg (fun m : Machine δ => m.cpu) (execWide_mrs env _ pc' (.special n) hrd)
  rw [Access.Obeyed, pair]
  exact Cpu.afterPair_eq_iff imp.special n _

theorem readMsp_obeyed_iff (imp : Implemented) (m : Machine δ) (pc pc' : Word) {rd : Reg}
    (hrd : rd ≠ 15) :
    (Access.readMsp rd).Obeyed env imp m pc pc' ↔ (Access.readMsp rd).Kept imp m.cpu.reloadSp := by
  have read : (m.execWide env pc (mrsInsn rd (SpecialName.own .msp).sysm)).cpu =
      m.cpu.reloadSp.setReg rd m.cpu.reloadSp.getActiveSp :=
    congrArg (fun m : Machine δ => m.cpu) (execWide_mrs env m pc (.special (.own .msp)) hrd)
  rw [Access.Obeyed, read, Cpu.setReg_eq_iff, Access.Kept, Cpu.getActiveSp]
  split <;> simp [*]

theorem readStatus_obeyed_iff (imp : Implemented) (m : Machine δ) (pc pc' : Word) (x : Status)
    {rd : Reg} (hrd : rd ≠ 15) :
    (Access.readStatus x rd).Obeyed env imp m pc pc' ↔
      (Access.readStatus x rd).Kept imp m.cpu.reloadSp := by
  have read : (m.execWide env pc (mrsInsn rd x.sysm)).cpu = m.cpu.reloadSp.setReg rd 0 := by
    have := congrArg (fun m : Machine δ => m.cpu) (execWide_mrs env m pc (.status x) hrd)
    cases x <;> exact this
  rw [Access.Obeyed, read, Cpu.setReg_eq_iff, Access.Kept, eq_comm]

/-- A special register comes back from `MSR` and `MRS`, and a read of `MSP` or of the status shows
it, exactly when the two tables agree on it in the state before. -/
theorem specialAccess_obeyed_iff (imp : Implemented) (m : Machine δ) (pc pc' : Word) (a : Access)
    (hrd : a.rd ≠ 15) :
    a.Obeyed env imp m pc pc' ↔ a.Kept imp m.cpu.reloadSp := by
  cases a with
  | writeRead n rm rd => exact writeRead_obeyed_iff env imp m pc pc' n rm hrd
  | readMsp rd => exact readMsp_obeyed_iff env imp m pc pc' hrd
  | readStatus x rd => exact readStatus_obeyed_iff env imp m pc pc' x hrd

def onPsp : Machine Unit :=
  ⟨⟨{ Board.cpu with control := .both 2 }, Board.world, []⟩, ⟨0, 0, 0⟩, false, false, []⟩

theorem specialAccess_obeyed_limits :
    (Access.writeRead (.own .psplim) 0 1).Obeyed Board.env ⟨fun _ => ~~~7#32, fun _ => 0xf80f01ff⟩ onPsp
        0 4 ↔
      (Access.writeRead (.own .psplim) 0 1).Kept ⟨fun _ => ~~~7#32, fun _ => 0xf80f01ff⟩
        onPsp.cpu.reloadSp :=
  specialAccess_obeyed_iff Board.env _ onPsp 0 4 _ (by decide)

theorem mrsMsp_reads_psp :
    ¬ ∀ (imp : Implemented) (m : Machine Unit) (pc pc' : Word) (a : Access), a.rd ≠ 15 →
      a.NamedIn m.cpu.secState → a.Obeyed Board.env imp m pc pc' := by
  intro obeyed
  have msp := obeyed ⟨fun _ => 0, fun _ => 0⟩ onPsp 0 0 (.readMsp 0) (by decide) trivial
  have kept := (readMsp_obeyed_iff Board.env _ onPsp 0 0 (by decide)).mp msp
  exact absurd (kept (by decide)) (by decide)

end Machine

end M33mu
