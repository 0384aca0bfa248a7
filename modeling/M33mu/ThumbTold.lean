import M33mu.Lib.Leads
import M33mu.ThumbExecute

/-!
What the flags of the emulator tell of the flags of the architecture, and that a program which reads
no others cannot tell the two apart.
-/

namespace M33mu

open Lib

namespace Flags

structure Agree (told f g : Flags) : Prop where
  n : told.n = true → f.n = g.n
  z : told.z = true → f.z = g.z
  c : told.c = true → f.c = g.c
  v : told.v = true → f.v = g.v

def none : Flags := ⟨false, false, false, false⟩

def all : Flags := ⟨true, true, true, true⟩

def covers (told needs : Flags) : Bool :=
  (!needs.n || told.n) && (!needs.z || told.z) && (!needs.c || told.c) && (!needs.v || told.v)

theorem Agree.refl (told f : Flags) : told.Agree f f :=
  ⟨fun _ => rfl, fun _ => rfl, fun _ => rfl, fun _ => rfl⟩

theorem Agree.covered {told needs f g : Flags} (agree : told.Agree f g)
    (covers : told.covers needs = true) : needs.Agree f g := by
  simp only [Flags.covers, Bool.and_eq_true, Bool.or_eq_true, Bool.not_eq_true'] at covers
  obtain ⟨⟨⟨n, z⟩, c⟩, v⟩ := covers
  constructor
  · exact fun is => agree.n (n.resolve_left (Bool.not_eq_false _ ▸ is))
  · exact fun is => agree.z (z.resolve_left (Bool.not_eq_false _ ▸ is))
  · exact fun is => agree.c (c.resolve_left (Bool.not_eq_false _ ▸ is))
  · exact fun is => agree.v (v.resolve_left (Bool.not_eq_false _ ▸ is))

end Flags

namespace Branch

def reads (c : Fin 14) : Flags :=
  match c.val / 2 with
  | 0 => { Flags.none with z := true }
  | 1 => { Flags.none with c := true }
  | 2 => { Flags.none with n := true }
  | 3 => { Flags.none with v := true }
  | 4 => { Flags.none with z := true, c := true }
  | 5 => { Flags.none with n := true, v := true }
  | _ => { Flags.none with n := true, z := true, v := true }

theorem holds_congr {c : Fin 14} {f g : Flags} (agree : (reads c).Agree f g) :
    holds c f = holds c g := by
  obtain ⟨n, z, c', v⟩ := agree
  rw [holds, holds]
  rw [reads] at n z c' v
  generalize c.val / 2 = k at n z c' v ⊢
  match k with
  | 0 => exact congrArg (· ^^ _) (z rfl)
  | 1 => exact congrArg (· ^^ _) (c' rfl)
  | 2 => exact congrArg (· ^^ _) (n rfl)
  | 3 => exact congrArg (· ^^ _) (v rfl)
  | 4 => exact congrArg (· ^^ _) (congrArg₂ (· && !·) (c' rfl) (z rfl))
  | 5 => exact congrArg (· ^^ _) (congrArg₂ (· == ·) (n rfl) (v rfl))
  | k + 6 =>
    exact congrArg (· ^^ _)
      (congrArg₂ (· && !·) (congrArg₂ (· == ·) (n rfl) (v rfl)) (z rfl))

end Branch

def Alu.told (a : Alu) (told : Flags) : Flags :=
  ⟨true, true, a.carry.isSome || told.c, a.overflow.isSome || told.v⟩

theorem Alu.told_agree (a : Alu) {told f g : Flags} (agree : told.Agree f g) :
    (a.told told).Agree (a.flags f) (a.flags g) := by
  obtain ⟨value, carry, overflow⟩ := a
  refine ⟨fun _ => rfl, fun _ => rfl, fun is => ?_, fun is => ?_⟩
  · cases carry with
    | none => exact agree.c is
    | some c => rfl
  · cases overflow with
    | none => exact agree.v is
    | some v => rfl

theorem armShifted_carry (x : Word) {type : ShiftType} (plain : type ≠ .rrx) (n : Nat)
    (carry carry' : Bool) : armShifted x type n carry = armShifted x type n carry' := by
  rw [armShifted, armShifted]
  cases n with
  | zero => rfl
  | succ n =>
    rw [armShift_of_pos x (Nat.succ_pos n), armShift_of_pos x (Nat.succ_pos n)]
    cases type with
    | rrx => exact absurd rfl plain
    | _ => rfl

namespace Core

def withFlags (s : Core) (g : Flags) : Core := { s with flags := g }

variable (acc : MemAccess) (s : Core) (g : Flags)

theorem load_withFlags (rt : Reg) (a : Word) (n : Nat) (e : Word → Word) :
    (s.withFlags g).load acc rt a n e = (s.load acc rt a n e).map (·.withFlags g) := by
  rw [load, load]
  split <;> rfl

theorem store_withFlags (a : Word) (n : Nat) (v : Word) :
    (s.withFlags g).store acc a n v = (s.store acc a n v).map (·.withFlags g) := by
  rw [store, store]
  split <;> rfl

end Core

namespace Thumb

theorem MemOp.run_withFlags (op : MemOp) (acc : MemAccess) (s : Core) (g : Flags) (rt : Reg)
    (a : Word) : op.run acc (s.withFlags g) rt a = (op.run acc s rt a).map (·.withFlags g) := by
  cases op with
  | str | strh | strb => exact Core.store_withFlags ..
  | _ => simp only [run, Core.load_withFlags]

def needs : Thumb → Flags
  | alu .adc _ _ | alu .sbc _ _ => { Flags.none with c := true }
  | bCond c _ => Branch.reads c
  | _ => .none

def tells (i : Thumb) (a : Alu) (told : Flags) : Flags :=
  match i with
  | immediate .mov _ _ => { told with n := false, z := false }
  | shift _ _ _ _ | alu .lsl _ _ | alu .lsr _ _ | alu .asr _ _ => { a.told told with v := false }
  | _ => a.told told

theorem operation_carry {i : Thumb} {r : Regs} {carry carry' : Bool}
    (same : i.needs.c = true → carry = carry') : i.operation r carry = i.operation r carry' := by
  cases i with
  | shift op imm5 rm rd =>
    have plain : op.type ≠ .rrx := by cases op <;> exact ShiftType.noConfusion
    rw [operation, operation, armShifted_carry _ plain _ carry carry']
  | immediate op | high op => cases op <;> rfl
  | alu op rm rdn =>
    cases op with
    | adc | sbc => rw [same rfl]
    | lsl | lsr | asr | ror =>
      simp only [operation, AluOp.arm]
      rw [armShifted_carry _ ShiftType.noConfusion _ carry carry']
    | _ => rfl
  | _ => rfl

theorem tells_agree {i : Thumb} {r : Regs} {carry : Bool} {rd : Option Reg} {a : Alu}
    (sets : i.operation r carry = some (rd, a)) {told f g : Flags} (agree : told.Agree f g) :
    (i.tells a told).Agree (a.flags f) (i.shown a g) := by
  have own := a.told_agree agree
  have cleared : Flags.Agree { a.told told with v := false } (a.flags f)
      { a.flags g with v := false } := ⟨own.n, own.z, own.c, Bool.noConfusion⟩
  cases i with
  | shift => exact cleared
  | immediate op rdn imm8 =>
    cases op with
    | mov =>
      cases sets
      exact ⟨Bool.noConfusion, Bool.noConfusion, agree.c, agree.v⟩
    | _ => exact own
  | alu op =>
    cases op with
    | lsl | lsr | asr => exact cleared
    | _ => exact own
  | _ => exact own

theorem act_withFlags {acc : MemAccess} {i : Thumb} {s : Core} {g : Flags}
    (same : i.needs.Agree s.flags g) :
    i.act acc (s.withFlags g) = (i.act acc s).map (·.withFlags g) := by
  cases i with
  | high op =>
    cases op with
    | cmp => rfl
    | add =>
      rw [act_highAdd, act_highAdd]
      split <;> rfl
    | mov =>
      rw [act_highMov, act_highMov]
      split <;> rfl
  | bx link ns rm =>
    cases ns with
    | true => rfl
    | false =>
      rw [act_bx, act_bx]
      by_cases leaves : rm = 15 ∨ ¬ Target (s.r (wide rm))
      · rw [if_pos leaves]
        exact if_pos leaves
      · rw [if_neg leaves]
        refine (if_neg leaves).trans ?_
        cases link <;> rfl
  | ldrLiteral => exact Core.load_withFlags ..
  | memReg op => exact MemOp.run_withFlags ..
  | memImm size load => exact MemOp.run_withFlags ..
  | memSp load => exact MemOp.run_withFlags ..
  | cbz nonzero off rn =>
    refine congrArg some ?_
    by_cases taken : ((s.r (low rn) == 0) != nonzero) = true
    · rw [if_pos taken]
      exact if_pos taken
    · rw [if_neg taken]
      exact if_neg taken
  | hint op => cases op <;> rfl
  | bCond c =>
    have holds := Branch.holds_congr same
    rw [act_bCond, act_bCond, holds]
    refine congrArg some ?_
    by_cases taken : Branch.holds c g = true
    · rw [if_pos taken]
      exact if_pos taken
    · rw [if_neg taken]
      exact if_neg taken
  | _ => rfl

theorem act_flags {acc : MemAccess} {i : Thumb} {s t : Core} (act : i.act acc s = some t) :
    t.flags = s.flags := by
  have same : i.act acc (s.withFlags s.flags) = (i.act acc s).map (·.withFlags s.flags) :=
    act_withFlags (.refl i.needs s.flags)
  rw [show s.withFlags s.flags = s from rfl, act] at same
  have kept : t = t.withFlags s.flags := Option.some.inj same
  rw [kept]
  rfl

def telling (i : Thumb) (s : Core) (told : Flags) : Flags :=
  match i.operation s.r s.flags.c with
  | some (_, a) => i.tells a told
  | none => told

theorem emulate_run {acc : MemAccess} {i : Thumb} {s t : Core} {told f : Flags}
    (agree : told.Agree s.flags f) (reads : told.covers i.needs = true)
    (runs : i.run acc s = some t) :
    ∃ g, i.emulate acc (s.withFlags f) = some (t.withFlags g) ∧
      (i.telling s told).Agree t.flags g := by
  have known := agree.covered reads
  have carry : i.operation s.r f.c = i.operation s.r s.flags.c :=
    operation_carry fun is => (known.c is).symm
  rw [run] at runs
  rw [emulate, telling]
  dsimp only [Core.withFlags]
  rw [carry]
  cases sets : i.operation s.r s.flags.c with
  | some set =>
    obtain ⟨rd, a⟩ := set
    rw [sets] at runs
    cases runs
    exact ⟨i.shown a f, rfl, tells_agree sets agree⟩
  | none =>
    rw [sets] at runs
    refine ⟨f, (act_withFlags known).trans ?_, ?_⟩
    · rw [show i.act acc s = some t from runs]
      rfl
    · rw [act_flags runs]
      exact agree

end Thumb

/-- A state of the architecture, and the flags that the emulator tells of it. -/
structure Told where
  core : Core
  flags : Flags

def Told.step (acc : MemAccess) (prog : Word → Option Thumb) (s : Told) : Option Told :=
  (prog s.core.pc).bind fun i =>
    if s.flags.covers i.needs then
      (i.run acc s.core).map fun core => ⟨core, i.telling s.core s.flags⟩
    else none

theorem Told.step_core {acc : MemAccess} {prog : Word → Option Thumb} {s t : Told}
    (step : s.step acc prog = some t) : s.core.step acc prog = some t.core := by
  obtain ⟨i, here, step⟩ := Option.bind_eq_some_iff.mp step
  split at step
  · obtain ⟨core, runs, rfl⟩ := Option.map_eq_some_iff.mp step
    rw [Core.step, here]
    exact runs
  · cases step

theorem Told.steps_core {acc : MemAccess} {prog : Word → Option Thumb} {n : Nat} {s t : Told}
    (reached : steps (Told.step acc prog) n s = some t) :
    steps (Core.step acc prog) n s.core = some t.core := by
  induction n generalizing s with
  | zero => exact congrArg (Option.map Told.core) reached
  | succ n ih =>
    obtain ⟨u, step, rest⟩ := Option.bind_eq_some_iff.mp reached
    rw [steps, Told.step_core step]
    exact ih rest

end M33mu
