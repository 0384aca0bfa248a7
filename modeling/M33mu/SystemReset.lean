import M33mu.Board
import M33mu.Tracking

namespace M33mu

open Lib

namespace Cpu

/-- The assignments of `mm_vector_apply_reset`. -/
def started (c : Cpu) (initialSp resetPc : Word) : Cpu :=
  ({ ({ c with xpsr := 0x01000000 }.setActiveSp initialSp).setReg 15 (resetPc ||| 1) with
    secState := .secure
    mode := .thread }).setPrivileged false

theorem started_withoutTracking (c : Cpu) (initialSp resetPc : Word) :
    c.withoutTracking.started initialSp resetPc = (c.started initialSp resetPc).withoutTracking := by
  have active := setActiveSp_withoutTracking { c with xpsr := 0x01000000 } initialSp
  exact congrArg (fun c => ({ c.setReg 15 (resetPc ||| 1) with
    secState := .secure
    mode := .thread } : Cpu).setPrivileged false) active

end Cpu

structure Retained where
  msplim : Banked Word
  psplim : Banked Word
  exclValid : Bool
  exclSec : SecState
  exclAddr : Word
  exclSize : Word
  it : ItCache
  sauLayout : SauLayout
  deriving DecidableEq

structure CoreState where
  cpu : Cpu
  it : ItCache
  scs : ScsBlock

def CoreState.retained (s : CoreState) : Retained :=
  ⟨s.cpu.msplim, s.cpu.psplim, s.cpu.exclValid, s.cpu.exclSec, s.cpu.exclAddr, s.cpu.exclSize, s.it,
    s.scs.sauLayout⟩

namespace Machine

variable {δ : Type u} (env : Env δ)

/-- What the firmware finds: CPU, cached IT triple, SCS and NVIC. -/
def coreState (m : Machine δ) : CoreState := ⟨m.cpu.withoutTracking, m.it, m.world.toScsBlock⟩

end Machine

def World.setUpAgain {δ : Type u} (w : World δ) (map : Memmap) (dev : δ) : World δ :=
  { w with
    scs := .init 0x410fc241
    nvic := .init
    resetPending := false
    map := map
    dev := dev }

namespace World

variable {δ : Type u} (env : Env δ)

def verdict (map : Memmap) (dev : δ) (scs : Scs) (type : AccessType) (sec : SecState)
    (addr size : Word) : Bool × Scs :=
  match map.prot with
  | none => (true, scs)
  | some ctx => Prot.interceptor ctx (env.blockSecure.map fun f => f dev) scs type sec addr size

theorem interceptOk_eq (w : World δ) (type : AccessType) (sec : SecState) (addr size : Word) :
    w.interceptOk env type sec addr size =
      ((verdict env w.map w.dev w.scs type sec addr size).1,
        { w with scs := (verdict env w.map w.dev w.scs type sec addr size).2 }) := by
  simp only [interceptOk, verdict]
  cases w.map.prot <;> rfl

theorem read_of_flash {w : World δ} {addr : Word} (mapped : (w.map.readFlash addr 4).isSome)
    (sec : SecState) :
    w.read env sec addr 4 =
      (if (verdict env w.map w.dev w.scs .read sec addr 4).1 then w.map.readFlash addr 4 else none,
        { w with scs := (verdict env w.map w.dev w.scs .read sec addr 4).2 }) := by
  obtain ⟨v, flash⟩ := Option.isSome_iff_exists.mp mapped
  simp only [read, interceptOk_eq, flash]
  cases (verdict env w.map w.dev w.scs .read sec addr 4).1 <;> rfl

theorem vectorRead_of_flash {w w' : World δ} (map : w'.map = w.map) (dev : w'.dev = w.dev)
    (scs : w'.scs = w.scs) {vtor index : Word} (sec : SecState)
    (mapped : (w.map.readFlash (vtor + index * 4) 4).isSome) :
    ∃ v s, w.vectorRead env sec vtor index = (v, { w with scs := s }) ∧
      w'.vectorRead env sec vtor index = (v, { w' with scs := s }) := by
  have mapped' : (w'.map.readFlash (vtor + index * 4) 4).isSome := by rw [map]; exact mapped
  refine ⟨_, _, read_of_flash env mapped sec, ?_⟩
  rw [vectorRead, read_of_flash env mapped' sec, map, dev, scs]

end World

namespace Machine

variable {δ : Type u} (env : Env δ)

/-- The restart of `main`, where the target comes up with `map` and `dev`. -/
def reboot (m : Machine δ) (vtor : Banked Word) (map : Memmap) (dev : δ) : Machine δ :=
  m.restart env vtor (m.world.setUpAgain map dev)

/-- The machine that `mm_vector_apply_reset` starts from. -/
def cleared (m : Machine δ) (vtor : Banked Word) (map : Memmap) (dev : δ) : Machine δ :=
  { m with
    cpu := m.cpu.reset vtor
    world := m.world.setUpAgain map dev
    trace := []
    done := false
    resetAgain := false
    transfers := [] }

def retained (m : Machine δ) : Retained := m.coreState.retained

/-- `g_mmio_active_sec`, which the devices see, and `g_fault_pending`, which ends a run. -/
def globals (m : Machine δ) : SecState × Bool := (m.world.activeSec, m.world.faultPending)

variable {env}

theorem coreState_cleared {m m' : Machine δ} (same : m.retained = m'.retained) (vtor : Banked Word)
    (map : Memmap) (dev : δ) :
    (m.cleared vtor map dev).coreState = (m'.cleared vtor map dev).coreState := by
  simp only [retained, coreState, CoreState.retained, Retained.mk.injEq, Cpu.withoutTracking]
    at same
  obtain ⟨msplim, psplim, valid, sec, addr, size, it, layout⟩ := same
  simp only [cleared, coreState, Cpu.reset, Cpu.withoutTracking, World.setUpAgain, msplim, psplim,
    valid, sec, addr, size, it, layout]

theorem vectorApplyReset_eq (m : Machine δ) :
    m.vectorApplyReset env =
      match m.world.vectorRead env .secure m.cpu.vtor.s 0 with
      | (none, w) => (false, m.withWorld w)
      | (some initialSp, w) =>
        match w.vectorRead env .secure m.cpu.vtor.s 1 with
        | (none, w) => (false, m.withWorld w)
        | (some resetPc, w) => (true, { m.withWorld w with cpu := m.cpu.started initialSp resetPc }) :=
  rfl

variable (env) in
theorem coreState_vectorApplyReset {m m' : Machine δ} (same : m.coreState = m'.coreState)
    (map : m'.world.map = m.world.map) (dev : m'.world.dev = m.world.dev)
    (mapped : ∀ index ∈ ([0, 1] : List Word),
      (m.world.map.readFlash (m.cpu.vtor.s + index * 4) 4).isSome) :
    (m.vectorApplyReset env).1 = (m'.vectorApplyReset env).1 ∧
      (m.vectorApplyReset env).2.coreState = (m'.vectorApplyReset env).2.coreState := by
  simp only [coreState, CoreState.mk.injEq] at same ⊢
  obtain ⟨cpu, it, block⟩ := same
  have vtor : m'.cpu.vtor = m.cpu.vtor := congrArg (fun c => c.vtor) cpu.symm
  have scs : m'.world.scs = m.world.scs := congrArg ScsBlock.scs block.symm
  have after (s : Scs) : { m.world with scs := s }.toScsBlock = { m'.world with scs := s }.toScsBlock :=
    congrArg (fun b => { b with scs := s }) block
  obtain ⟨v, s, read, read'⟩ := World.vectorRead_of_flash env map dev scs .secure
    (mapped 0 (by decide))
  rw [vectorApplyReset_eq, vectorApplyReset_eq, vtor, read, read']
  cases v with
  | none => exact ⟨rfl, cpu, it, after s⟩
  | some initialSp =>
    have map : { m'.world with scs := s }.map = { m.world with scs := s }.map := map
    obtain ⟨v, s', read, read'⟩ :=
      World.vectorRead_of_flash env map dev rfl .secure (mapped 1 (by decide))
    simp only [read, read']
    cases v with
    | none => exact ⟨rfl, cpu, it, after s'⟩
    | some resetPc =>
      have started := congrArg (fun c => c.started initialSp resetPc) cpu
      exact ⟨rfl, (m.cpu.started_withoutTracking _ _).symm.trans
        (started.trans (m'.cpu.started_withoutTracking _ _)), it, after s'⟩

theorem reboot_eq {m : Machine δ} (again : m.resetAgain = true) (vtor : Banked Word)
    (map : Memmap) (dev : δ) :
    m.reboot env vtor map dev =
      match (m.cleared vtor map dev).vectorApplyReset env with
      | (false, m) => { m with done := true }
      | (true, m) =>
        { m.setReg 14 0xFFFFFFFF with
          world := { m.world with scs := { m.world.scs with vtor := m.cpu.vtor } } } := by
  simp only [reboot, restart, again, Bool.not_true, Bool.false_eq_true, if_false]
  rfl

theorem coreState_reboot {m m' : Machine δ} (again : m.resetAgain = true)
    (again' : m'.resetAgain = true) (same : m.retained = m'.retained) (vtor : Banked Word)
    (map : Memmap) (dev : δ)
    (mapped : ∀ index ∈ ([0, 1] : List Word), (map.readFlash (vtor.s + index * 4) 4).isSome) :
    (m.reboot env vtor map dev).coreState = (m'.reboot env vtor map dev).coreState := by
  have applied := coreState_vectorApplyReset env (coreState_cleared same vtor map dev) rfl rfl mapped
  rw [reboot_eq again, reboot_eq again']
  generalize vectorApplyReset env (m.cleared vtor map dev) = r at applied ⊢
  generalize vectorApplyReset env (m'.cleared vtor map dev) = r' at applied ⊢
  obtain ⟨ok, a⟩ := r
  obtain ⟨ok', b⟩ := r'
  obtain ⟨rfl, same⟩ := applied
  cases ok with
  | false => exact same
  | true =>
    exact congrArg (fun s => CoreState.mk (s.cpu.setReg 14 0xFFFFFFFF) s.it
      { s.scs with scs := { s.scs.scs with vtor := s.cpu.vtor } }) same

theorem retained_started (m : Machine δ) (w : World δ) (initialSp resetPc : Word)
    (layout : w.sauLayout = m.world.sauLayout) :
    { m.withWorld w with cpu := m.cpu.started initialSp resetPc }.retained = m.retained := by
  obtain ⟨top, low, valid, eq⟩ := { m.cpu with xpsr := 0x01000000 }.exists_setActiveSp_eq initialSp
  simp only [retained, coreState, CoreState.retained, Cpu.started, eq, withWorld, layout]
  rfl

variable (env) in
theorem retained_vectorApplyReset {m : Machine δ} (mapped : ∀ index ∈ ([0, 1] : List Word),
      (m.world.map.readFlash (m.cpu.vtor.s + index * 4) 4).isSome) :
    (m.vectorApplyReset env).2.retained = m.retained := by
  obtain ⟨v, s, read, -⟩ := World.vectorRead_of_flash env (w := m.world) rfl rfl rfl .secure
    (mapped 0 (by decide))
  rw [vectorApplyReset_eq, read]
  cases v with
  | none => rfl
  | some initialSp =>
    obtain ⟨v, s', read, -⟩ := World.vectorRead_of_flash env (w := { m.world with scs := s })
      rfl rfl rfl .secure (mapped 1 (by decide))
    simp only [read]
    cases v with
    | none => rfl
    | some resetPc => exact retained_started m _ initialSp resetPc rfl

theorem retained_reboot {m : Machine δ} (again : m.resetAgain = true) (vtor : Banked Word)
    (map : Memmap) (dev : δ)
    (mapped : ∀ index ∈ ([0, 1] : List Word), (map.readFlash (vtor.s + index * 4) 4).isSome) :
    (m.reboot env vtor map dev).coreState.retained = m.retained := by
  have kept := retained_vectorApplyReset env (m := m.cleared vtor map dev) mapped
  rw [reboot_eq again]
  generalize vectorApplyReset env (m.cleared vtor map dev) = r at kept ⊢
  obtain ⟨ok, a⟩ := r
  cases ok with
  | false => exact kept
  | true => exact kept

theorem cleared_congr {m m' : Machine δ} (same : m.retained = m'.retained)
    (globals : m.globals = m'.globals) (vtor : Banked Word) (map : Memmap) (dev : δ) :
    (m.cleared vtor map dev).withoutTracking = (m'.cleared vtor map dev).withoutTracking := by
  simp only [retained, coreState, CoreState.retained, Retained.mk.injEq, Cpu.withoutTracking]
    at same
  simp only [Machine.globals, Prod.mk.injEq] at globals
  obtain ⟨msplim, psplim, exclValid, exclSec, exclAddr, exclSize, it, layout⟩ := same
  obtain ⟨sec, fault⟩ := globals
  simp only [cleared, withoutTracking, Sys.withoutTracking, Cpu.withoutTracking, Cpu.reset,
    World.setUpAgain, msplim, psplim, exclValid, exclSec, exclAddr, exclSize, it, layout, sec, fault]

theorem reboot_congr {m m' : Machine δ} (again : m.resetAgain = true)
    (again' : m'.resetAgain = true) (same : m.retained = m'.retained)
    (globals : m.globals = m'.globals) (vtor : Banked Word) (map : Memmap) (dev : δ) :
    (m.reboot env vtor map dev).withoutTracking = (m'.reboot env vtor map dev).withoutTracking := by
  have restarts {m : Machine δ} (again : m.resetAgain = true) :
      (m.reboot env vtor map dev).withoutTracking =
        match (m.cleared vtor map dev).withoutTracking.vectorApplyReset env with
        | (false, m) => { m with done := true }
        | (true, m) =>
          { m.setReg 14 0xFFFFFFFF with
            world := { m.world with scs := { m.world.scs with vtor := m.cpu.vtor } } } := by
    rw [reboot_eq again, vectorApplyReset_withoutTracking]
    generalize vectorApplyReset env (m.cleared vtor map dev) = r
    obtain ⟨ok, a⟩ := r
    cases ok <;> rfl
  rw [restarts again, restarts again', cleared_congr same globals]

/-- Two machines restart in the same state, whatever was run before, exactly when they agree in
what the reset retains. Where they agree in the globals of the bus and of the faults as well, the
same firmware then runs in the same way: no run looks at the tracking of the main stacks. -/
theorem reboot_same_iff {m m' : Machine δ} (again : m.resetAgain = true)
    (again' : m'.resetAgain = true) (vtor : Banked Word) (map : Memmap) (dev : δ)
    (mapped : ∀ index ∈ ([0, 1] : List Word), (map.readFlash (vtor.s + index * 4) 4).isSome) :
    ((m.reboot env vtor map dev).coreState = (m'.reboot env vtor map dev).coreState ↔
        m.retained = m'.retained) ∧
      (m.retained = m'.retained → m.globals = m'.globals →
        ∀ (decode32 : Word → Decoded) (is : List (Input δ)),
          (run (loopStep env decode32) (m.reboot env vtor map dev) is).withoutTracking =
            (run (loopStep env decode32) (m'.reboot env vtor map dev) is).withoutTracking) := by
  refine ⟨⟨fun same => ?_, fun same => ?_⟩, fun same globals decode32 is => ?_⟩
  · rw [← retained_reboot again vtor map dev mapped, same,
      retained_reboot again' vtor map dev mapped]
  · exact coreState_reboot again again' same vtor map dev mapped
  · rw [← run_withoutTracking, ← run_withoutTracking, reboot_congr again again' same globals]

def resetImage (before : Word) : World Unit :=
  Board.flashed [(0x00, 0x20008000), (0x04, 0x101), (0x100, 0x49034802),
    (0x104, 0x60010000 ||| before), (0x108, 0xBF00BF00), (0x10C, 0xE000ED0C), (0x110, 0x05FA0004)]

def freshStart (w : World Unit) : Machine Unit := ⟨⟨Board.cpu, w, []⟩, ⟨0, 0, 0⟩, false, true, []⟩

def requestsReset (before : Word) : Machine Unit :=
  run (loopStep Board.scsEnv Board.decode32)
    (start Board.scsEnv Board.cpu (.both 0) (resetImage before))
    (List.replicate 4 (.pass ⟨id, id⟩))

/-- The restart from running code is a fresh start: the conditions hold, though the main stack was
tracked in one of the machines and not in the other. -/
theorem reboot_same_nop :
    let m := requestsReset 0xBF00
    let m' := freshStart (resetImage 0xBF00)
    let map := (resetImage 0xBF00).map
    m.cpu.mspTopValid ≠ m'.cpu.mspTopValid ∧
      (m.reboot Board.scsEnv (.both 0) map ()).coreState =
        (m'.reboot Board.scsEnv (.both 0) map ()).coreState ∧
      ∀ (decode32 : Word → Decoded) (is : List (Input Unit)),
        (run (loopStep Board.scsEnv decode32) (m.reboot Board.scsEnv (.both 0) map ())
            is).withoutTracking =
          (run (loopStep Board.scsEnv decode32) (m'.reboot Board.scsEnv (.both 0) map ())
            is).withoutTracking := by
  have again : (requestsReset 0xBF00).resetAgain = true := by decide +kernel
  have mapped : ∀ index ∈ ([0, 1] : List Word),
      ((resetImage 0xBF00).map.readFlash ((Banked.both (0 : Word)).s + index * 4) 4).isSome :=
    List.forall_mem_cons.mpr ⟨by decide +kernel,
      List.forall_mem_cons.mpr ⟨by decide +kernel, List.forall_mem_nil _⟩⟩
  have retained : (requestsReset 0xBF00).retained = (freshStart (resetImage 0xBF00)).retained := by
    decide +kernel
  have globals : (requestsReset 0xBF00).globals = (freshStart (resetImage 0xBF00)).globals := by
    decide +kernel
  have fresh : (freshStart (resetImage 0xBF00)).resetAgain = true := rfl
  obtain ⟨states, runs⟩ := @reboot_same_iff Unit Board.scsEnv _ _ again fresh (.both 0)
    (resetImage 0xBF00).map () mapped
  exact ⟨by decide +kernel, states.mpr retained, runs retained globals⟩

theorem reboot_inside_it_differs :
    ¬ ∀ (m m' : Machine Unit) (vtor : Banked Word) (map : Memmap),
      m.resetAgain = true → m'.resetAgain = true →
        (m.reboot Board.scsEnv vtor map ()).coreState =
          (m'.reboot Board.scsEnv vtor map ()).coreState := by
  intro h
  have same := h (requestsReset 0xBFE4) (freshStart (resetImage 0xBFE4)) (.both 0)
    (resetImage 0xBFE4).map (by decide +kernel) rfl
  have it := congrArg CoreState.it same
  revert it
  decide +kernel

end Machine

end M33mu
