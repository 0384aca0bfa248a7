import M33mu.Board
import M33mu.Effects
import M33mu.Lib.Run

/-!
Non-secure code and the Secure bank of the CPU. Only `MSR` to `CONTROL` reaches across, since it
names the Secure register in both security states.
-/

namespace M33mu

open Lib

namespace Cpu

theorem Entered.secureBank {c c' : Cpu} {num xpsrIn : Word} {handlerSec : SecState}
    (h : c.Entered c' num xpsrIn handlerSec) (ns : c.secState = .nonsecure) :
    c'.secureBank = c.secureBank := by
  obtain ⟨handler, sleeping, eventReg, rfl⟩ := h
  simp only [Cpu.secureBank, enterHandler, setBankSp, ns]
  split <;> simp

theorem Entered.secState {c c' : Cpu} {num xpsrIn : Word} {handlerSec : SecState}
    (h : c.Entered c' num xpsrIn handlerSec) : c'.secState = handlerSec := by
  obtain ⟨handler, sleeping, eventReg, rfl⟩ := h
  rfl

theorem secureBank_resume (c : Cpu) {info : ExcReturnInfo} (ns : info.targetSec = .nonsecure)
    (f : Frame) (sp : Word) : (c.resume info f sp).secureBank = c.secureBank := by
  simp only [secureBank, resume, setBankSp, ns]
  split <;> simp

end Cpu

namespace Machine

variable {δ : Type u} {env : Env δ} {f : FetchResult} {P : Request → Prop}

theorem Local.secState {m m' : Machine δ} (h : m.Local m') :
    m'.cpu.secState = m.cpu.secState := by
  induction h with
  | refl => rfl
  | tail _ step ih =>
    cases step with
    | inl quiet => exact quiet.cpu.secState.trans ih
    | inr entry =>
      obtain ⟨num, entered, -⟩ := entry.entered
      exact entered.secState.trans ih

theorem Local.secureBank {m m' : Machine δ} (h : m.Local m') (ns : m.cpu.secState = .nonsecure) :
    m'.cpu.secureBank = m.cpu.secureBank := by
  induction h with
  | refl => rfl
  | tail before step ih =>
    have ns' := (Local.secState before).trans ns
    cases step with
    | inl quiet => exact (quiet.cpu.bank ns').trans ih
    | inr entry =>
      obtain ⟨num, entered, -⟩ := entry.entered
      exact (entered.secureBank ns').trans ih

theorem Transfer.secureBank {m m' : Machine δ} (h : Transfer env f P m m')
    (ns : m'.cpu.secState = .nonsecure) : m'.cpu.secureBank = m.cpu.secureBank := by
  cases h with
  | ret excRet _ ok =>
    obtain ⟨info, frame, w, -, eq⟩ := excReturn_of_ok env ok
    rw [eq] at ns ⊢
    exact Cpu.secureBank_resume _ ns _ _
  | sg _ ns' =>
    have secure : m.cpu.tzExecSg.secState = .secure := by
      simp only [Cpu.tzExecSg, ns']
      exact (Cpu.setActiveSp_quiet _ _).secState
    cases secure.symm.trans ns
  | bxns target => exact (Cpu.enterNs_quiet { m.cpu with secState := .nonsecure } rfl).bank rfl
  | blxns target returnAddr => exact (Cpu.enterNs_quiet _ rfl).bank rfl
  | tzReturn rec ns' pop => rfl

theorem Effect.secureBank {m m' : Machine δ} (h : Effect env f P m m')
    (ns : m.cpu.secState = .nonsecure) (ns' : m'.cpu.secState = .nonsecure) :
    m'.cpu.secureBank = m.cpu.secureBank := by
  cases h with
  | stays h => exact h.secureBank ns
  | transfers before transfer after =>
    have nsb := after.secState.symm.trans ns'
    exact ((after.secureBank nsb).trans (transfer.secureBank nsb)).trans (before.cpu.bank ns)

end Machine

namespace Cpu

/-- An `MSR` to the Secure `CONTROL` writes the value and the privilege that are there. -/
def SparesControl (c : Cpu) (d : Decoded) : Prop :=
  d.kind = .msr ∧ d.imm >>> 8 &&& 0xf = 8 ∧ d.imm &&& 0xff = 0x14 →
    c.r d.rm = c.control.s ∧ (c.r d.rm).getLsbD 0 = c.priv.s

instance (c : Cpu) (d : Decoded) : Decidable (c.SparesControl d) :=
  inferInstanceAs (Decidable (_ → _))

theorem secureBank_setMsp_nonsecure (c : Cpu) (v : Word) :
    (c.setMsp .nonsecure v).secureBank = c.secureBank := by
  simp only [setMsp, updateMspMin]
  split <;> rfl

theorem secureBank_writeSpecial_of_ne (c : Cpu) (ns : c.secState = .nonsecure) {sysm : Word}
    (ne : sysm ≠ 0x14) (val : Word) : (c.writeSpecial sysm val).secureBank = c.secureBank := by
  simp only [writeSpecial, ns]
  split
  case h_9 control => exact absurd (BitVec.eq_of_toNat_eq control) ne
  case h_1 | h_5 => exact c.secureBank_setMsp_nonsecure val
  all_goals rfl

theorem secureBank_setControl_iff (c : Cpu) (val : Word) :
    (c.setControl .secure val).secureBank = c.secureBank ↔
      val = c.control.s ∧ val.getLsbD 0 = c.priv.s := by
  simp [secureBank, setControl]

theorem secureBank_writeSpecial_iff (c : Cpu) (ns : c.secState = .nonsecure) (sysm val : Word) :
    (c.writeSpecial sysm val).secureBank = c.secureBank ↔
      (sysm = 0x14 → val = c.control.s ∧ val.getLsbD 0 = c.priv.s) := by
  by_cases control : sysm = 0x14
  · rw [control, ← secureBank_setControl_iff]
    simp [writeSpecial]
  · simp only [secureBank_writeSpecial_of_ne c ns control, control, false_implies]

theorem secureBank_execMsr_iff (c : Cpu) (ns : c.secState = .nonsecure) {d : Decoded}
    (msr : d.kind = .msr) : (c.execMsr d).secureBank = c.secureBank ↔ c.SparesControl d := by
  simp only [execMsr, SparesControl, msr, true_and]
  split
  · rename_i mask
    simp only [secureBank_writeSpecial_iff c ns, mask, true_and]
  · rename_i mask
    simp only [mask, false_and, false_implies, iff_true]
    split <;> rfl

end Cpu

namespace CpuIsolation

variable {δ : Type u} (env : Env δ)

structure Instr where
  fetched : FetchResult
  decoded : Decoded

def exec (m : Machine δ) (i : Instr) : Machine δ := (executeDecoded env i.fetched i.decoded m).2

def StaysNs (m : Machine δ) (i : Instr) : Prop :=
  m.cpu.secState = .nonsecure ∧ (exec env m i).cpu.secState = .nonsecure

instance (m : Machine δ) (i : Instr) : Decidable (StaysNs env m i) :=
  inferInstanceAs (Decidable (_ ∧ _))

theorem secureBank_exec_iff {m : Machine δ} {i : Instr} (h : StaysNs env m i) :
    (exec env m i).cpu.secureBank = m.cpu.secureBank ↔ m.cpu.SparesControl i.decoded := by
  obtain ⟨f, d⟩ := i
  by_cases msr : d.kind = .msr
  · rw [← m.cpu.secureBank_execMsr_iff h.1 msr]
    simp [exec, executeDecoded, msr]
  · have spares : m.cpu.SparesControl d := fun h => absurd h.1 msr
    by_cases it : d.kind = .it
    · simp only [exec, executeDecoded, it]
      exact iff_of_true rfl spares
    · have effect : Machine.Effect env f _ m (executeDecoded env f d m).2 :=
        executeDecoded_effect m it msr
      have same := effect.secureBank h.1 h.2
      simp only [exec, same, spares]

/-- Along any sequence of instructions that stay in Non-secure state, the Secure bank keeps its
values exactly when no `MSR` to `CONTROL` writes a different one. -/
theorem nsInstructions_keep_bank_iff {m : Machine δ} {is : List Instr}
    (h : Along (exec env) (StaysNs env) m is) :
    Throughout (exec env) (fun t => t.cpu.secureBank = m.cpu.secureBank) m is ↔
      Along (exec env) (fun t i => t.cpu.SparesControl i.decoded) m is :=
  throughout_eq_iff_along_of (f := fun t => t.cpu.secureBank)
    (fun _ _ stays => secureBank_exec_iff env stays) h

def nsThread : Machine Unit where
  cpu := { Board.cpu.setReg 0 2 with secState := .nonsecure }
  world := Board.world
  trace := []
  it := ⟨0, 0, 0⟩
  done := false
  resetAgain := false
  transfers := []

/-- `MSR CONTROL, r0` and `MSR CONTROL_NS, r0`. -/
def msrControl (sysm : Word) : Instr :=
  let raw := 0xF3808800 ||| sysm
  ⟨⟨raw, 4, false, 0, 0x1000⟩, { Decoded.default 4 raw with kind := .msr, imm := 0x800 ||| sysm }⟩

theorem nsInstructions_keep_bank_controlNs :
    Throughout (exec Board.env) (fun t => t.cpu.secureBank = nsThread.cpu.secureBank) nsThread
        [msrControl 0x94] ↔
      Along (exec Board.env) (fun t i => t.cpu.SparesControl i.decoded) nsThread
        [msrControl 0x94] :=
  nsInstructions_keep_bank_iff Board.env ⟨⟨rfl, rfl⟩, trivial⟩

theorem nsMsrControl_changes_secureBank :
    ¬ ∀ (m : Machine Unit) (is : List Instr), Along (exec Board.env) (StaysNs Board.env) m is →
      Throughout (exec Board.env) (fun t => t.cpu.secureBank = m.cpu.secureBank) m is := by
  intro h
  have throughout := h nsThread [msrControl 0x14] ⟨⟨rfl, rfl⟩, trivial⟩
  have control := congrArg SecureCpuBank.control throughout.2
  revert control
  decide

end CpuIsolation

end M33mu
