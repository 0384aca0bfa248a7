import M33mu.Nesting

namespace M33mu

open Lib

structure Cpu.LoadedFrom (c : Cpu) (f : Frame) : Prop where
  r0 : c.r 0 = f.r0
  r1 : c.r 1 = f.r1
  r2 : c.r 2 = f.r2
  r3 : c.r 3 = f.r3
  r12 : c.r 12 = f.r12
  lr : c.r 14 = f.lr
  pc : c.r 15 = f.pc ||| 1
  xpsr : c.xpsr = f.xpsr &&& ~~~0x1FF#32

namespace ContextSwitch

variable {δ : Type u} {κ : Type v} [DecidableEq κ] (env : Env δ)

structure Context where
  psp : Word
  frame : Frame
  deriving DecidableEq, Repr

structure Tasks (κ : Type v) (δ : Type u) where
  sys : Sys δ
  saved : κ → Context

/-- An exception that interrupts task `k`, handler code, and the exception return that is to
resume task `k`. -/
inductive Op (κ : Type v) (δ : Type u)
  | switchOut (k : κ) (e : ExcEntry)
  | handler (f : Sys δ → Sys δ)
  | resume (k : κ) (excRet : Word)

def step (x : Tasks κ δ) : Op κ δ → Tasks κ δ
  | .switchOut k e =>
    let c := x.sys.cpu
    let s := (e.raise env x.sys).2
    ⟨s, Function.update x.saved k
      ⟨s.cpu.psp.get c.secState, c.frame e.returnPc c.xpsr⟩⟩
  | .handler f => { x with sys := f x.sys }
  | .resume _ excRet => { x with sys := (x.sys.excReturnUnstack env excRet).2 }

def Selects (s : Sys δ) (excRet : Word) (k : Context) : Prop :=
  ∃ info ∈ excReturnDecode excRet, info.toThread = true ∧ info.usePsp = true ∧
    s.cpu.psp.get info.targetSec = k.psp ∧
    (s.world.readFrame env info.targetSec k.psp).1 = some k.frame

instance (s : Sys δ) (excRet : Word) (k : Context) : Decidable (Selects env s excRet k) :=
  inferInstanceAs (Decidable (∃ info ∈ excReturnDecode excRet, _ ∧ _ ∧ _ ∧ _))

def Lawful (x : Tasks κ δ) : Op κ δ → Prop
  | .switchOut _ e => (e.raise env x.sys).1 = true ∧ x.sys.cpu.usePspEntry = true
  | .handler _ => True
  | .resume k excRet => Selects env x.sys excRet (x.saved k)

instance (x : Tasks κ δ) (op : Op κ δ) : Decidable (Lawful env x op) :=
  match op with
  | .switchOut _ e => inferInstanceAs (Decidable ((e.raise env x.sys).1 = true ∧ _))
  | .handler _ => isTrue trivial
  | .resume k excRet => inferInstanceAs (Decidable (Selects env x.sys excRet (x.saved k)))

/-- The side stack is empty, or its top is of the other security state, or it is the frame that
PSP points at. -/
def Unrecorded (s : Sys δ) (excRet : Word) : Prop :=
  ∀ info ∈ excReturnDecode excRet, ∀ rec ∈ s.cpu.exc.pop.1,
    rec.sec = info.targetSec → rec.sp = s.cpu.psp.get info.targetSec

instance (s : Sys δ) (excRet : Word) : Decidable (Unrecorded s excRet) :=
  inferInstanceAs (Decidable (∀ info ∈ excReturnDecode excRet, ∀ rec ∈ s.cpu.exc.pop.1, _ → _))

def Followed (x : Tasks κ δ) : Op κ δ → Prop
  | .resume _ excRet => Unrecorded x.sys excRet
  | _ => True

instance (x : Tasks κ δ) (op : Op κ δ) : Decidable (Followed x op) :=
  match op with
  | .switchOut _ _ => isTrue trivial
  | .handler _ => isTrue trivial
  | .resume _ excRet => inferInstanceAs (Decidable (Unrecorded x.sys excRet))

def Resumed (s : Sys δ) (excRet : Word) (k : Context) : Prop :=
  (s.excReturnUnstack env excRet).1 = true ∧
    (s.excReturnUnstack env excRet).2.cpu.LoadedFrom k.frame ∧
    (s.excReturnUnstack env excRet).2.cpu.psp.get
      (s.excReturnUnstack env excRet).2.cpu.secState = k.psp + 32

def Resumes (x : Tasks κ δ) : Op κ δ → Prop
  | .resume k excRet => Resumed env x.sys excRet (x.saved k)
  | _ => True

theorem loadedFrom_resume (c : Cpu) {info : ExcReturnInfo} (thread : info.toThread = true)
    (f : Frame) (sp : Word) : (c.resume info f sp).LoadedFrom f := by
  constructor
  case xpsr => simp [Cpu.resume, thread]
  all_goals rfl

theorem psp_resume (c : Cpu) {info : ExcReturnInfo} (psp : info.usePsp = true) (f : Frame)
    (sp : Word) : (c.resume info f sp).psp.get (c.resume info f sp).secState = sp + 32 := by
  simp [Cpu.resume, Cpu.setBankSp, psp]

theorem psp_of_unstack {s : Sys δ} {excRet : Word} {info : ExcReturnInfo}
    (hd : excReturnDecode excRet = some info) (psp : info.usePsp = true)
    (ok : (s.excReturnUnstack env excRet).1 = true) :
    (s.excReturnUnstack env excRet).2.cpu.psp.get
      (s.excReturnUnstack env excRet).2.cpu.secState = s.cpu.unstackSp info + 32 := by
  rcases read : s.world.readFrame env info.targetSec (s.cpu.unstackSp info) with ⟨_ | f, w⟩
  · simp [Sys.excReturnUnstack, hd, read] at ok
  · rw [Sys.excReturnUnstack_of_frame env hd read]
    exact psp_resume _ psp f _

theorem unstackSp_eq_psp_iff {s : Sys δ} {excRet : Word} {info : ExcReturnInfo}
    (hd : excReturnDecode excRet = some info) (psp : info.usePsp = true) :
    s.cpu.unstackSp info = s.cpu.psp.get info.targetSec ↔ Unrecorded s excRet := by
  simp only [Cpu.unstackSp, Unrecorded, hd, Option.mem_def, Option.some.injEq, forall_eq']
  cases s.cpu.exc.pop.1 with
  | none => simp [Cpu.bankSp, psp]
  | some rec =>
    by_cases hsec : rec.sec = info.targetSec
    · simp [hsec]
    · simp [hsec, Cpu.bankSp, psp]

theorem resumed_iff {s : Sys δ} {excRet : Word} {k : Context} (h : Selects env s excRet k) :
    Unrecorded s excRet ↔ Resumed env s excRet k := by
  obtain ⟨info, hd, thread, psp, hpsp, hframe⟩ := h
  rw [← unstackSp_eq_psp_iff hd psp, hpsp]
  constructor
  · intro sp
    obtain ⟨w, read⟩ : ∃ w, s.world.readFrame env info.targetSec (s.cpu.unstackSp info) =
        (some k.frame, w) := by
      rw [sp, ← hframe]
      exact ⟨_, rfl⟩
    rw [Resumed, Sys.excReturnUnstack_of_frame env hd read, sp]
    exact ⟨rfl, loadedFrom_resume _ thread _ _, psp_resume _ psp _ _⟩
  · rintro ⟨ok, -, left⟩
    exact (BitVec.add_left_inj 32).mp ((psp_of_unstack env hd psp ok).symm.trans left)

/-- Along any sequence of switches between any tasks, every task resumes with the registers it
was switched out with exactly where every return finds no other frame recorded. -/
theorem resumes_iff_followed {x : Tasks κ δ} {ops : List (Op κ δ)}
    (h : Along (step env) (Lawful env) x ops) :
    Along (step env) Followed x ops ↔ Along (step env) (Resumes env) x ops := by
  refine along_congr (fun x op hop => ?_) h
  cases op with
  | resume k excRet => exact resumed_iff env hop
  | _ => exact Iff.rfl

/-- The board with Thread mode on PSP in both security states, and two tasks: the first is
running, the second waits on a frame of zeros at `0x20002000`. -/
def twoTasks : Tasks Bool Unit :=
  ⟨{ Board.sys with cpu := { Board.cpu with control := .both 2 } },
    fun _ => ⟨0x20002000, ⟨0, 0, 0, 0, 0, 0, 0, 0⟩⟩⟩

theorem resumes_iff_followed_same_task :
    let ops : List (Op Bool Unit) :=
      [.switchOut false (.exception Vect.pendsv 0x100 .secure), .resume false 0xFFFFFFFD]
    Along (step Board.env) Followed twoTasks ops ↔
      Along (step Board.env) (Resumes Board.env) twoTasks ops :=
  resumes_iff_followed Board.env (by decide)

/-- PendSV interrupts the first task, writes the second one's stack pointer to PSP, and resumes
the first task all the same. -/
theorem pendSv_resumes_the_interrupted_task :
    ¬ ∀ (x : Tasks Bool Unit) (ops : List (Op Bool Unit)),
      Along (step Board.env) (Lawful Board.env) x ops →
        Along (step Board.env) (Resumes Board.env) x ops := by
  intro h
  have resumes := h twoTasks
    [.switchOut false (.exception Vect.pendsv 0x100 .secure),
      .handler fun s => { s with cpu := s.cpu.setPsp .secure 0x20002000 },
      .resume true 0xFFFFFFFD] (by decide)
  have psp := resumes.2.2.1.2.2
  revert psp
  decide

end ContextSwitch

end M33mu
