import M33mu.ConfinedRuns
import M33mu.Lib.Leads
import M33mu.Pass
import M33mu.ThumbTold
import M33mu.ThumbWindow

namespace M33mu

open Lib Decode Thumb

namespace Thumb

theorem prefix_bits (hw : Half) :
    hw.setWidth 32 &&& (0xF800 : Word) = (hw.extractLsb' 11 5).setWidth 32 <<< 11 := by
  have mask : ∀ n < 32, (0xF800 : Word).getLsbD n = decide (11 ≤ n ∧ n < 16) := by decide
  apply BitVec.eq_of_getLsbD_eq
  intro i low
  simp only [BitVec.getLsbD_and, BitVec.getLsbD_shiftLeft, BitVec.getLsbD_setWidth,
    BitVec.getLsbD_extractLsb']
  grind

theorem reserved_of_long {hw : Half} (long : Machine.t32Is32bitPrefix (hw.setWidth 32) = true) :
    Reserved hw := by
  have three : ∀ top : BitVec 5, (0xE800 : Word) ≤ top.setWidth 32 <<< 11 →
      top = 0b11101 ∨ top.extractLsb' 1 4 = 0xf := by decide
  rw [Machine.t32Is32bitPrefix, prefix_bits, decide_eq_true_iff] at long
  apply Reserved.longer
  apply (three _ long).imp_right
  intro top
  refine Eq.trans ?_ top
  apply BitVec.eq_of_getLsbD_eq
  intro i low
  simp only [BitVec.getLsbD_extractLsb']
  grind

theorem encode_short {i : Thumb} (proper : i.Proper) :
    Machine.t32Is32bitPrefix (i.encode.setWidth 32) = false := by
  by_contra long
  have undefined := undefined_of_reserved (reserved_of_long (Bool.not_eq_false _ ▸ long))
  rw [decode16_encode i proper, decoded_defined] at undefined
  cases undefined

theorem decodeT32_half (decode32 : Word → Decoded) {i : Thumb} (proper : i.Proper) (pc : Word) :
    decodeT32 decode32 ⟨i.encode.setWidth 32, 2, false, 0, pc⟩ = i.decoded := by
  have half : (i.encode.setWidth 32).setWidth 16 = i.encode :=
    BitVec.setWidth_setWidth_of_le _ (by decide)
  refine Eq.trans ?_ (decode16_encode i proper)
  exact congrArg decode16 half

end Thumb

theorem Scs.systickAdvance_fields (scs : Scs) (n : BitVec 64) : ∃ val wraps flag st,
    scs.systickAdvance n = { scs with
      systickVal := val, systickWraps := wraps, systickCountflag := flag, pendSt := st } := by
  simp only [Scs.systickAdvance]
  repeat' split
  all_goals exact ⟨_, _, _, _, rfl⟩

namespace World

variable {δ : Type u} {env : Env δ} {sec : SecState} {acc : MemAccess} {prog : Word → Option Thumb}
  {place : Word → Option (Buffer × Word)} {w w' : World δ}

structure Leaves (env : Env δ) (prog : Word → Option Thumb)
    (place : Word → Option (Buffer × Word)) (w w' : World δ) : Prop where
  touched : w.Touched env w'
  view : w'.view place = w.view place
  code : ∀ a i, prog a = some i → w'.map.fetchHalf a = w.map.fetchHalf a

theorem Leaves.trans {w'' : World δ} (first : w.Leaves env prog place w')
    (second : w'.Leaves env prog place w'') : w.Leaves env prog place w'' :=
  ⟨first.touched.trans second.touched, second.view.trans first.view,
    fun a i here => (second.code a i here).trans (first.code a i here)⟩

theorem touched_systickAdvance (w : World δ) (n : BitVec 64) :
    w.Touched env { w with scs := w.scs.systickAdvance n } := by
  refine ⟨.refl _, fun type sec addr size => ?_⟩
  rw [interceptOk, interceptOk]
  cases w.map.prot with
  | none => rfl
  | some ctx =>
    obtain ⟨val, wraps, flag, st, counts⟩ := w.scs.systickAdvance_fields n
    dsimp only
    rw [counts, Prot.interceptor_fst, Prot.interceptor_fst]
    rfl

theorem touched_reset (w : World δ) (pending : Bool) :
    w.Touched env { w with resetPending := pending } :=
  ⟨.refl _, fun type sec addr size =>
    interceptOk_congr w { w with resetPending := pending } rfl rfl rfl type sec addr size⟩

theorem Leaves.of_map (touched : w.Touched env w') (same : w'.map = w.map) :
    w.Leaves env prog place w' := by
  refine ⟨touched, ?_, fun _ _ _ => by rw [same]⟩
  funext x
  rw [World.view, World.view, same]

theorem Serves.left (serves : Serves env sec acc prog place w) (leaves : w.Leaves env prog place w') :
    Serves env sec acc prog place w' where
  once := serves.once
  sized := serves.sized
  mayRead a n ok := (leaves.touched.grants ..).trans (serves.mayRead a n ok)
  reads a n ok := by
    rw [leaves.touched.map.loadPlace]
    exact serves.reads a n ok
  mayWrite a n ok := (leaves.touched.grants ..).trans (serves.mayWrite a n ok)
  writes a n ok := by
    rw [leaves.touched.map.storePlace, leaves.touched.programsFlash]
    exact serves.writes a n ok
  mayFetch a i here :=
    ⟨(serves.mayFetch a i here).1, (leaves.touched.grants ..).trans (serves.mayFetch a i here).2⟩
  code a i here := (leaves.code a i here).trans (serves.code a i here)
  apart a i p here found := serves.apart a i p here (leaves.touched.map.loadPlace a 2 ▸ found)

theorem Serves.fetch (serves : Serves env sec acc prog place w) {a : Word} {i : Thumb}
    (here : prog a = some i) :
    ∃ w', w.fetchRead16 env sec a = (some (i.encode.setWidth 32), w') ∧
      w.Leaves env prog place w' := by
  have granted := (serves.mayFetch a i here).2
  have touched := touched_interceptOk env w .exec sec a 2
  have map := interceptOk_map env w .exec sec a 2
  have code := serves.code a i here
  rw [Granted] at granted
  refine ⟨_, ?_, .of_map touched map⟩
  rw [fetchRead16]
  generalize w.interceptOk env .exec sec a 2 = o at granted map
  obtain ⟨ok, w₁⟩ := o
  cases granted
  dsimp only at map ⊢
  rw [map, code]
  rfl

end World

namespace Machine

variable {δ : Type u}

def resting (place : Word → Option (Buffer × Word)) (m : Machine δ) : Core :=
  (m.setReg 13 m.cpu.getActiveSp).core place (m.cpu.r 15 &&& ~~~1#32)

structure At (env : Env δ) (acc : MemAccess) (prog : Word → Option Thumb)
    (place : Word → Option (Buffer × Word)) (m : Machine δ) (s : Told) : Prop where
  serves : World.Serves env m.cpu.secState acc prog place m.world
  outside : m.it.remaining = 0
  core : m.resting place = s.core.withFlags (.ofXpsr m.cpu.xpsr)
  flags : s.flags.Agree s.core.flags (.ofXpsr m.cpu.xpsr)

theorem At.start {env : Env δ} {acc : MemAccess} {prog : Word → Option Thumb}
    {place : Word → Option (Buffer × Word)} {m : Machine δ}
    (serves : World.Serves env m.cpu.secState acc prog place m.world)
    (outside : m.it.remaining = 0) : m.At env acc prog place ⟨m.resting place, .none⟩ :=
  ⟨serves, outside, rfl, .refl _ _⟩

/-- The pass goes on to an instruction, and the devices leave the memory of the program alone. -/
structure Undisturbed (env : Env δ) (prog : Word → Option Thumb)
    (place : Word → Option (Buffer × Word)) (m : Machine δ) (h : Host δ) : Prop where
  goesOn : m.attend h = (m, true)
  calm : m.pending = none
  tick : ∀ w : World δ, w.Leaves env prog place (h.tick w)
  poll : ∀ w : World δ, w.Leaves env prog place (h.poll w)

variable {env : Env δ} {acc : MemAccess} {prog : Word → Option Thumb}
  {place : Word → Option (Buffer × Word)} {m : Machine δ} {h : Host δ} {s : Told}

def Awake (m : Machine δ) : Prop :=
  m.Running ∧ m.cpu.sleeping = false ∧ m.pending.isNone = true

instance (m : Machine δ) : Decidable m.Awake :=
  inferInstanceAs (Decidable ((_ ∧ _ ∧ _) ∧ _ ∧ _))

theorem along_undisturbed {decode32 : Word → Decoded} {hs : List (Host δ)}
    (tick : ∀ h ∈ hs, ∀ w : World δ, w.Leaves env prog place (h.tick w))
    (poll : ∀ h ∈ hs, ∀ w : World δ, w.Leaves env prog place (h.poll w))
    (awake : Along (mainPass env decode32) (fun m _ => m.Awake) m hs) :
    Along (mainPass env decode32) (Undisturbed env prog place) m hs := by
  induction hs generalizing m with
  | nil => trivial
  | cons h hs ih =>
    obtain ⟨⟨running, awake, none⟩, later⟩ := awake
    have calm := Option.isNone_iff_eq_none.mp none
    exact ⟨⟨attend_of_awake running awake h, calm, tick h (.head hs), poll h (.head hs)⟩,
      ih (fun h' mem => tick h' (.tail h mem)) (fun h' mem => poll h' (.tail h mem)) later⟩

def pastFetch (m : Machine δ) (pc : Word) (w : World δ) : Machine δ :=
  ((m.setReg 13 m.cpu.getActiveSp).setReg 15 ((pc + 2) ||| 1)).withWorld w

theorem ready_at (at' : m.At env acc prog place s) (calm : m.Undisturbed env prog place h)
    {i : Thumb} (here : prog s.core.pc = some i) :
    ∃ w, m.ready env h =
        (⟨i.encode.setWidth 32, 2, false, 0, s.core.pc⟩, m.pastFetch s.core.pc w) ∧
      m.world.Leaves env prog place w := by
  have pc : m.cpu.r 15 &&& ~~~1#32 = s.core.pc := congrArg Core.pc at'.core
  have counted : m.world.Leaves env prog place
      { m.world with scs := m.world.scs.systickAdvance 1 } :=
    .of_map (World.touched_systickAdvance m.world 1) rfl
  have ticked := counted.trans (calm.tick _)
  obtain ⟨w, found, leaves⟩ := (at'.serves.left ticked).fetch here
  refine ⟨w, ?_, ticked.trans leaves⟩
  rw [ready, fetch]
  dsimp only [setReg, withWorld, Cpu.setReg]
  rw [Function.update_of_ne (by decide), pc, found]
  dsimp only
  rw [if_neg (Bool.eq_false_iff.mp (encode_short (at'.serves.mayFetch _ i here).1))]
  rfl

theorem pastFetch_core (at' : m.At env acc prog place s) {w : World δ}
    (leaves : m.world.Leaves env prog place w) :
    (m.pastFetch s.core.pc w).core place s.core.pc = s.core.withFlags (.ofXpsr m.cpu.xpsr) := by
  have pc : m.cpu.r 15 &&& ~~~1#32 = s.core.pc := congrArg Core.pc at'.core
  rw [← at'.core, resting, pc, core, core, pastFetch]
  dsimp only [withWorld, setReg, Cpu.setReg]
  rw [Function.update_idem, leaves.view]

theorem pastFetch_pc (m : Machine δ) (pc : Word) (w : World δ) :
    (m.pastFetch pc w).cpu.r 15 = (pc + 2) ||| 1 := by
  rw [pastFetch]
  dsimp only [withWorld, setReg, Cpu.setReg]
  rw [Function.update_self]

theorem endPass_leaves (poll : ∀ w : World δ, w.Leaves env prog place (h.poll w)) (m : Machine δ) :
    (m.endPass h).cpu = m.cpu ∧ (m.endPass h).it = m.it ∧
      m.world.Leaves env prog place (m.endPass h).world := by
  have polled := poll m.world
  simp only [endPass]
  split
  · exact ⟨rfl, rfl, polled.trans (.of_map (World.touched_reset _ false) rfl)⟩
  · exact ⟨rfl, rfl, polled⟩

theorem at_of_arrives {a b : Machine δ} {r : Regs} {xpsr : Word} {w : World δ} {t : Told}
    (serves : World.Serves env a.cpu.secState acc prog place w)
    (core : (a.after r xpsr w).core place (r 15 &&& ~~~1#32) = t.core.withFlags (.ofXpsr xpsr))
    (sp : r 13 = a.cpu.getActiveSp) (flags : t.flags.Agree t.core.flags (.ofXpsr xpsr))
    (cpu : b.cpu = { a.cpu with r := r, xpsr := xpsr }) (outside : b.it.remaining = 0)
    (leaves : w.Leaves env prog place b.world) : b.At env acc prog place t where
  serves := by
    rw [cpu]
    exact serves.left leaves
  outside := outside
  core := by
    have own : Function.update r 13 a.cpu.getActiveSp = r := by rw [← sp, Function.update_eq_self]
    rw [cpu, ← core, resting, setReg, cpu]
    dsimp only [Machine.core, Cpu.setReg, after]
    rw [leaves.view, show Cpu.getActiveSp { a.cpu with r := r, xpsr := xpsr } =
      a.cpu.getActiveSp from rfl, own]
  flags := by
    rw [cpu]
    exact flags

theorem at_mainPass (decode32 : Word → Decoded) (m : Machine δ) (s t : Told) (h : Host δ)
    (at' : m.At env acc prog place s) (step : s.step acc prog = some t)
    (calm : m.Undisturbed env prog place h) :
    (m.mainPass env decode32 h).At env acc prog place t := by
  obtain ⟨i, here, step⟩ := Option.bind_eq_some_iff.mp step
  split at step
  · rename_i reads
    obtain ⟨core, runs, rfl⟩ := Option.map_eq_some_iff.mp step
    obtain ⟨g, emulates, tells⟩ := emulate_run at'.flags reads runs
    obtain ⟨w, ready, leaves⟩ := ready_at at' calm here
    have proper := (at'.serves.mayFetch _ i here).1
    rw [← pastFetch_core at' leaves] at emulates
    have even : s.core.pc &&& ~~~1#32 = s.core.pc := by
      rw [← show m.cpu.r 15 &&& ~~~1#32 = s.core.pc from congrArg Core.pc at'.core, clear_clear]
    obtain ⟨r, xpsr, w', done, serves, core', sp⟩ :=
      execute_emulate (f := ⟨i.encode.setWidth 32, 2, false, 0, s.core.pc⟩)
        (m := m.pastFetch s.core.pc w) (at'.serves.left leaves) (m.pastFetch_pc _ w) even
        at'.outside emulates
    have outside : (m.pastFetch s.core.pc w).inBlock i.decoded = false := by
      rw [inBlock, show (m.pastFetch s.core.pc w).it.remaining = 0 from at'.outside]
      rfl
    have outside' : ((m.pastFetch s.core.pc w).after r xpsr w').inBlock i.decoded = false := outside
    rw [mainPass, calm.goesOn]
    dsimp only
    rw [handlePending, calm.calm]
    dsimp only
    rw [executePass, ready]
    dsimp only
    rw [if_neg Bool.false_ne_true, decodeT32_half decode32 proper, decoded_defined,
      if_neg Bool.false_ne_true, outside, Bool.false_and, if_neg Bool.false_ne_true, done,
      afterExecute, if_neg (Bool.eq_false_iff.mp outside')]
    obtain ⟨cpu, it, polled⟩ := endPass_leaves calm.poll ((m.pastFetch s.core.pc w).after r xpsr w')
    have shown : g = .ofXpsr xpsr := (congrArg Core.flags core').symm
    rw [shown] at core' tells
    apply at_of_arrives serves core' (sp.trans ?_) tells cpu ?_ polled
    · rfl
    · rw [it]
      exact at'.outside
  · cases step

/-- The emulator is at the state that the architecture gets to in as many steps as it made
passes. -/
theorem follows_program (decode32 : Word → Decoded) {n : Nat} {t : Told}
    (reached : steps (Told.step acc prog) n s = some t) (at' : m.At env acc prog place s)
    {hs : List (Host δ)} (length : hs.length = n)
    (along : Along (mainPass env decode32) (Undisturbed env prog place) m hs) :
    (Lib.run (mainPass env decode32) m hs).At env acc prog place t ∧
      steps (Core.step acc prog) n s.core = some t.core :=
  ⟨follows_steps (at_mainPass decode32) reached at' length along, Told.steps_core reached⟩

end Machine

namespace Board

def bump : List Thumb :=
  [.memImm .byte true 0 0 1, .immediate .add 1 1, .memImm .byte false 0 0 1]

def bumping : Machine Unit where
  cpu := { cpu with r := fun i => if i = 0 then 0x20000000 else if i = 15 then 1 else 0 }
  world := flashed [(0, 0x31017801), (4, 0xFFFF7001)]
  trace := []
  it := ⟨0, 0, 0⟩
  done := false
  resetAgain := false
  transfers := []

def still : Host Unit := ⟨id, id⟩

theorem bumping_windowed : World.Windowed env bumping.cpu.secState (placed 0 bump) 0x20000000 0x10000
    ramWindow bumping.world :=
  windowed_placed (by simp [bump, Proper]) (by decide) (by decide)

theorem still_undisturbed {decode32 : Word → Decoded} {prog : Word → Option Thumb}
    {place : Word → Option (Buffer × Word)} {m : Machine Unit} {n : Nat}
    (awake : Along (Machine.mainPass env decode32) (fun m _ => m.Awake) m (List.replicate n still)) :
    Along (Machine.mainPass env decode32) (Machine.Undisturbed env prog place) m
      (List.replicate n still) := by
  refine Machine.along_undisturbed (fun h mem w => ?_) (fun h mem w => ?_) awake
  · rw [List.eq_of_mem_replicate mem]
    exact .of_map (.refl w) rfl
  · rw [List.eq_of_mem_replicate mem]
    exact .of_map (.refl w) rfl

end Board

open Board in
theorem Machine.follows_program_bump : ∃ t,
    steps (Told.step (.within 0x20000000 0x10000) (placed 0 bump)) 3
      ⟨bumping.resting (ramWindow.place 0x20000000 0x10000), .none⟩ = some t ∧
    t.core.mem 0x20000000 = 1 ∧
    (Lib.run (mainPass Board.env Decode.decode32) bumping [still, still, still]).At Board.env
      (.within 0x20000000 0x10000) (placed 0 bump) (ramWindow.place 0x20000000 0x10000) t := by
  refine ⟨_, rfl, rfl, (follows_program Decode.decode32 rfl (.start bumping_windowed.serves rfl) rfl ?_).1⟩
  exact still_undisturbed (n := 3) (by decide +kernel)

end M33mu
