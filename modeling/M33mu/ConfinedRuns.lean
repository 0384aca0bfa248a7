import M33mu.Board
import M33mu.ConfinedExecute
import M33mu.SecureEntry
import M33mu.Wakeup

namespace M33mu

open Lib

structure Host.Contained {δ : Type u} (env : Env δ) (h : Host δ) : Prop where
  tick_free : ∀ w ram, h.tick (w.withRam ram) = (h.tick w).withRam ram
  poll_free : ∀ w ram, h.poll (w.withRam ram) = (h.poll w).withRam ram
  tick_walls : ∀ w : World δ, w.SameWalls env (h.tick w)
  poll_walls : ∀ w : World δ, w.SameWalls env (h.poll w)

namespace Machine

variable {δ : Type u} {env : Env δ} {decode32 : Word → Decoded} {H : Set Word} {S : Word → Byte}
  {h : Host δ}

theorem veil_of_free {g : World δ → World δ} (free : ∀ w ram, g (w.withRam ram) = (g w).withRam ram)
    (w : World δ) : g (w.veil H S) = (g w).veil H S :=
  congrArg Prod.snd (World.RamFree.veil (g := fun w => ((), g w))
    (fun w ram => Prod.ext rfl (free w ram)) w)

theorem endPass_hide (contained : h.Contained env) (m : Machine δ) :
    (m.hide H S).endPass h = (m.endPass h).hide H S := by
  have poll : h.poll (m.hide H S).world = (h.poll m.world).veil H S :=
    veil_of_free contained.poll_free m.world
  simp only [endPass, poll]
  split <;> split <;> rename_i reset reset'
  · rfl
  · exact absurd reset reset'
  · exact absurd reset' reset
  · rfl

theorem endPass_guards (contained : h.Contained env) {m : Machine δ}
    (guards : m.world.Guards env H) : (m.endPass h).world.Guards env H := by
  have polled := guards.congr (contained.poll_walls m.world)
  simp only [endPass]
  split
  · exact polled.congr ⟨⟨rfl, rfl, rfl⟩, rfl, rfl⟩
  · exact polled

theorem fetch_hide {m : Machine δ} (ns : m.cpu.secState = .nonsecure)
    (guards : m.world.Guards env H) :
    (m.hide H S).fetch env = ((m.fetch env).1, (m.fetch env).2.hide H S) ∧
      (m.fetch env).2.world.Guards env H := by
  have cpu : (m.hide H S).cpu = m.cpu := rfl
  have world : (m.hide H S).world = m.world.veil H S := rfl
  have first := guards.congr (World.fetchRead16_sameWalls env m.world .nonsecure
    (m.cpu.r 15 &&& ~~~1#32))
  simp only [fetch, cpu, world, ns, World.fetchRead16_veil guards.walled]
  generalize m.world.fetchRead16 env .nonsecure (m.cpu.r 15 &&& ~~~1#32) = o at first ⊢
  obtain ⟨v, w⟩ := o
  cases v with
  | none => exact ⟨rfl, first⟩
  | some hw1 =>
    have cpu' : (m.withWorld w).cpu = m.cpu := rfl
    have world' : (m.withWorld w).world = w := rfl
    have veiled : ((m.hide H S).withWorld (w.veil H S)).cpu = m.cpu := rfl
    have veiled' : ((m.hide H S).withWorld (w.veil H S)).world = w.veil H S := rfl
    have second := first.congr (World.fetchRead16_sameWalls env w .nonsecure
      ((m.cpu.r 15 &&& ~~~1#32) + 2))
    simp only [cpu', world', veiled, veiled', ns, World.fetchRead16_veil first.walled]
    generalize w.fetchRead16 env .nonsecure ((m.cpu.r 15 &&& ~~~1#32) + 2) = o at second ⊢
    obtain ⟨v, w'⟩ := o
    split
    · cases v with
      | none => exact ⟨rfl, second⟩
      | some hw2 => exact ⟨rfl, second⟩
    · exact ⟨rfl, first⟩

theorem sau_systickAdvance (scs : Scs) (cycles : BitVec 64) :
    Sau.attrForAddr (scs.systickAdvance cycles) = Sau.attrForAddr scs := by
  simp only [Scs.systickAdvance]
  split
  · rfl
  split <;> rfl

theorem ready_hide (contained : h.Contained env) {m : Machine δ}
    (ns : m.cpu.secState = .nonsecure) (guards : m.world.Guards env H) :
    (m.hide H S).ready env h = ((m.ready env h).1, (m.ready env h).2.hide H S) ∧
      (m.ready env h).2.world.Guards env H := by
  obtain ⟨w, counted⟩ : ∃ w, w = { m.world with scs := m.world.scs.systickAdvance 1 } := ⟨_, rfl⟩
  have counted' : { (m.hide H S).world with
      scs := (m.hide H S).world.scs.systickAdvance 1 } = w.veil H S := by
    rw [counted]
    rfl
  have g : w.Guards env H := counted ▸ guards.of_scs (sau_systickAdvance _ _)
  have ticked := g.congr (contained.tick_walls w)
  have tick : h.tick (w.veil H S) = (h.tick w).veil H S := veil_of_free contained.tick_free w
  have fetched := fetch_hide (m := (m.withWorld (h.tick w)).setReg 13 m.cpu.getActiveSp) (S := S) ns
    ticked
  simp only [ready, counted', ← counted]
  change fetch env ((withWorld _ (h.tick (w.veil H S))).setReg 13 _) = _ ∧ _
  rw [tick]
  exact fetched

theorem fastForward_hide (contained : h.Contained env) {m : Machine δ}
    (guards : m.world.Guards env H) :
    (m.hide H S).fastForward h = (m.fastForward h).map (World.veil H S) ∧
      ∀ w ∈ m.fastForward h, w.Guards env H := by
  have scs : (m.hide H S).world.scs = m.world.scs := rfl
  simp only [fastForward, scs, Option.map_map]
  cases m.world.scs.systickCyclesUntilFire with
  | none => simp only [Option.map_none, Option.not_mem_none, false_implies, implies_true, and_self]
  | some delta =>
    obtain ⟨w, counted⟩ : ∃ w, w = { m.world with scs := m.world.scs.systickAdvance delta } :=
      ⟨_, rfl⟩
    have counted' : { (m.hide H S).world with scs := m.world.scs.systickAdvance delta } =
        w.veil H S := by
      rw [counted]
      rfl
    have g : w.Guards env H := counted ▸ guards.of_scs (sau_systickAdvance _ _)
    simp only [Option.map_some, Function.comp, counted', ← counted]
    refine ⟨congrArg some (veil_of_free contained.tick_free w), fun w' mem => ?_⟩
    rw [← Option.mem_some.mp mem]
    exact g.congr (contained.tick_walls w)

theorem attend_hide (contained : h.Contained env) {m : Machine δ} (guards : m.world.Guards env H) :
    (m.hide H S).attend h = ((m.attend h).1.hide H S, (m.attend h).2) ∧
      (m.attend h).1.world.Guards env H := by
  by_cases idles : m.Idles
  · have idles' : (m.hide H S).Idles := idles
    obtain ⟨skipped, after⟩ := fastForward_hide (S := S) contained guards
    rw [attend_of_idles idles, attend_of_idles idles', skipped]
    cases skip : m.fastForward h with
    | none =>
      exact ⟨congrArg (·, false) (endPass_hide contained m), endPass_guards contained guards⟩
    | some w =>
      have g := after w skip
      simp only [Option.map_some]
      have woken : (if (w.veil H S).scs.pendSt || (w.veil H S).scs.pendSv then
            ((m.hide H S).withWorld (w.veil H S)).wake
          else (m.hide H S).withWorld (w.veil H S)) =
          (if w.scs.pendSt || w.scs.pendSv then (m.withWorld w).wake else m.withWorld w).hide
            H S := by
        change (if w.scs.pendSt || w.scs.pendSv then _ else _) = _
        split <;> rfl
      have ready : (if w.scs.pendSt || w.scs.pendSv then (m.withWorld w).wake
          else m.withWorld w).world.Guards env H := by
        split <;> exact g
      rw [woken, endPass_hide contained]
      exact ⟨rfl, endPass_guards contained ready⟩
  · have cpu : (m.hide H S).cpu = m.cpu := rfl
    have scs : (m.hide H S).world.scs = m.world.scs := rfl
    have nvic : (m.hide H S).world.nvic = m.world.nvic := rfl
    have done : (m.hide H S).done = m.done := rfl
    have again : (m.hide H S).resetAgain = m.resetAgain := rfl
    have fault : (m.hide H S).world.faultPending = m.world.faultPending := rfl
    simp only [attend, cpu, scs, nvic, done, again, fault]
    split
    · exact ⟨rfl, guards⟩
    split
    · exact ⟨rfl, guards⟩
    split
    · exact ⟨rfl, guards⟩
    split
    · exact ⟨rfl, guards⟩
    · rename_i going quiet asleep still
      simp only [Bool.or_eq_true, not_or, Bool.not_eq_true, Bool.not_eq_eq_eq_not,
        Bool.not_true] at going quiet asleep still
      refine absurd ?_ idles
      exact ⟨⟨going.1, going.2, quiet⟩, by simpa using asleep, still.1.1.1, still.1.1.2, still.1.2,
        still.2⟩

theorem pending_hide (m : Machine δ) : (m.hide H S).pending =
    m.pending.map fun (excNum, sec, m) => (excNum, sec, m.hide H S) := by
  have cpu : (m.hide H S).cpu = m.cpu := rfl
  have scs : (m.hide H S).world.scs = m.world.scs := rfl
  have nvic : (m.hide H S).world.nvic = m.world.nvic := rfl
  simp only [pending, cpu, scs, nvic]
  split
  · rfl
  split
  · rfl
  · rw [Option.map_map]
    rfl

theorem pending_guards {m m' : Machine δ} {excNum : Word} {sec : SecState}
    (guards : m.world.Guards env H) (accepted : m.pending = some (excNum, sec, m')) :
    m'.world.Guards env H := by
  simp only [pending] at accepted
  split at accepted
  · cases accepted
    exact guards
  split at accepted
  · cases accepted
    exact guards
  · simp only [Option.map_eq_some_iff, Prod.mk.injEq] at accepted
    obtain ⟨⟨irq, sec'⟩, -, -, -, rfl⟩ := accepted
    exact guards.congr ⟨⟨rfl, rfl, rfl⟩, rfl, rfl⟩

theorem dispatch_veiled (contained : env.Contained) {m : Machine δ}
    (ns : m.cpu.secState = .nonsecure) (guards : m.world.Guards env H) (excNum : Word)
    (handlerSec : SecState) :
    (veil env H S).Veiled (m.dispatch env excNum handlerSec)
      ((m.hide H S).dispatch env excNum handlerSec) := by
  exact syncCall_veiled (Sys.enterExceptionEx_agree contained (s := m.toSys) ns guards _ _ _ _)

theorem afterExecute_veiled (contained : h.Contained env) {d : Decoded} {o o' : Outcome δ}
    (agree : (veil env H S).Agree o o') :
    (veil env H S).Veiled (afterExecute h d o) (afterExecute h d o') := by
  by_cases low : o.2.cpu.secState = .nonsecure
  · have same : o' = (o.1, o.2.hide H S) := Prod.ext (agree.output low) (agree.eq low)
    have guards : o.2.world.Guards env H := agree.inv low
    rw [same]
    obtain ⟨status, m⟩ := o
    cases status with
    | cont => exact veiled_self guards
    | ok =>
      have block : (m.hide H S).inBlock d = m.inBlock d := rfl
      simp only [afterExecute, block]
      split
      · rw [show (m.hide H S).advanceIt = m.advanceIt.hide H S from rfl, endPass_hide contained]
        exact veiled_self (endPass_guards contained guards)
      · rw [endPass_hide contained]
        exact veiled_self (endPass_guards contained guards)
  · refine .of_out (fun back => low ((afterExecute_secState h d o).symm.trans back)) fun back =>
      low ?_
    exact agree.low.mp ((afterExecute_secState h d o').symm.trans back)

theorem executePass_veiled (target : env.Contained) (contained : h.Contained env) {m : Machine δ}
    (ns : m.cpu.secState = .nonsecure) (guards : m.world.Guards env H) :
    (veil env H S).Veiled (m.executePass env decode32 h)
      ((m.hide H S).executePass env decode32 h) := by
  obtain ⟨fetched, ready⟩ := ready_hide (S := S) contained ns guards
  have ns' := (ready_quiet env h m).cpu.secState.trans ns
  simp only [executePass, fetched]
  generalize m.ready env h = o at ready ns' ⊢
  obtain ⟨f, a⟩ := o
  have cpu : (a.hide H S).cpu = a.cpu := rfl
  have block (d : Decoded) : (a.hide H S).inBlock d = a.inBlock d := rfl
  have it : (a.hide H S).it = a.it := rfl
  simp only [cpu, block, it]
  split
  · exact afterCall_veiled (Sys.raiseMemFault_agree target (s := a.toSys) ns' ready _ _ _ _)
  split
  · exact usageFault_veiled target ns' ready _
  split
  · exact veiled_self (m := a.advanceIt) ready
  · exact afterExecute_veiled contained (executeDecoded_agree target ns' ready)

theorem mainPass_blind (target : env.Contained) (contained : h.Contained env) :
    (veil env H S).Blind (mainPass env decode32 · h) := by
  intro m ns guards
  obtain ⟨attended, after⟩ := attend_hide (S := S) contained guards
  have ns' := (attend_quiet h m).cpu.secState.trans ns
  have attended' : ((veil env H S).blur m).attend h = _ := attended
  simp only [mainPass, attended']
  generalize m.attend h = o at after ns' ⊢
  obtain ⟨a, goes⟩ := o
  cases goes with
  | false => exact veiled_self after
  | true =>
    simp only [handlePending, pending_hide]
    cases accepted : a.pending with
    | none => exact executePass_veiled target contained ns' after
    | some taken =>
      obtain ⟨excNum, sec, b⟩ := taken
      exact dispatch_veiled target ((pending_quiet accepted).cpu.secState.trans ns')
        (pending_guards after accepted) excNum sec

/-- Non-secure code learns nothing of the hidden bytes: whatever they are, the run is the same but
for them. -/
theorem nonsecure_run_hides (target : env.Contained) {m : Machine δ} {hs : List (Host δ)}
    (devices : ∀ h ∈ hs, h.Contained env) {hidden : Set Word}
    (guards : m.world.Guards env hidden) (secret : Word → Byte)
    (ns : Throughout (mainPass env decode32) (fun t => t.cpu.secState = .nonsecure) m hs) :
    run (mainPass env decode32) (m.hide hidden secret) hs =
      (run (mainPass env decode32) m hs).hide hidden secret :=
  Veil.run_blur (V := veil env hidden secret) (fun _ => mainPass_blind target) devices guards ns

def fencedScs : Scs :=
  { Scs.init 0x410fc241 with
    sauCtrl := 1
    sauRbar := fun i => if i = 1 then 0x20000000 else 0
    sauRlar := fun i => if i = 0 then 0xFE1 else if i = 1 then 0x20007FE1 else 0 }

/-- A Non-secure `STR r0, [r1]` to Secure RAM, and a HardFault handler. -/
def fenced : Machine Unit where
  cpu := { ((Board.cpu.setReg 15 0x101).setReg 1 0x20009000) with secState := .nonsecure }
  world := { Board.guarded [(0x0C, 0x201), (0x100, 0xBF006008), (0x200, 0xBF00BF00)] with
    scs := fencedScs }
  trace := []
  it := ⟨0, 0, 0⟩
  done := false
  resetAgain := false
  transfers := []

def fencedBytes : Set Word := {off | 0x9000 ≤ off ∧ off < 0xA000}

theorem fenced_attr {addr : Word} (high : 0xFFF < addr)
    (out : addr < 0x20000000 ∨ 0x20007FFF < addr) : Sau.attrForAddr fencedScs addr = .secure := by
  have unmatched : Sau.matchIndex fencedScs addr = none := by
    refine List.find?_eq_none.mpr fun i _ => ?_
    have region (rbar rlar base limit : Word) (hb : rbar &&& ~~~0x1F#32 = base)
        (hl : (rlar &&& ~~~0x1F#32) ||| 0x1F#32 = limit) (off : addr < base ∨ limit < addr) :
        ¬ Sau.regionMatches rbar rlar addr = true := by
      simp only [Sau.regionMatches, hb, hl, Bool.and_eq_true, decide_eq_true_eq, not_and]
      bv_omega
    match i with
    | 0 => exact region 0 0xFE1 0 0xFFF (by decide) (by decide) (.inr high)
    | 1 => exact region 0x20000000 0x20007FE1 0x20000000 0x20007FFF (by decide) (by decide) out
    | 2 | 3 | 4 | 5 | 6 | 7 => simp [Sau.regionMatches, fencedScs]
  simp only [Sau.attrForAddr, unmatched]
  rfl

theorem fenced_walled {off : Word} (mem : off ∈ fencedBytes) :
    fenced.world.Walled Board.scsEnv off := by
  refine ⟨Board.prot, rfl, fun addr size => ?_⟩
  rintro ⟨small, o, reached, inside⟩
  have here : o = addr ∨ o = addr - 0x20000000 := by
    change ((Memmap.offsetIn 0x20000000 0x10000 addr size <|>
      Memmap.offsetIn 0x20000000 0x10000 addr size) <|> if _ then some addr else none) = some o
      at reached
    simp only [Memmap.offsetIn] at reached
    split at reached
    · cases reached
      exact .inr rfl
    · split at reached
      · cases reached
        exact .inl rfl
      · cases reached
  have low : 0x9000 ≤ off := mem.1
  have high : off < 0xA000 := mem.2
  constructor
  · simp only [Prot.isSystemControl, Bool.or_eq_false_iff, Bool.and_eq_false_iff,
      decide_eq_false_iff_not]
    bv_omega
  · exact fenced_attr (by bv_omega) (by bv_omega)

theorem scsEnv_contained : Board.scsEnv.Contained := ⟨World.scsRegions_contained _, nofun, nofun⟩

theorem idle_contained : Host.Contained Board.scsEnv ⟨id, id⟩ :=
  ⟨fun _ _ => rfl, fun _ _ => rfl, .refl _, .refl _⟩

theorem fenced_guards : fenced.world.Guards Board.scsEnv fencedBytes :=
  ⟨rfl, rfl, fun _ => fenced_walled⟩

theorem fenced_staysNs : Throughout (mainPass Board.scsEnv Board.decode32)
    (fun t => t.cpu.secState = .nonsecure) fenced [⟨id, id⟩, ⟨id, id⟩] := by
  simp only [Throughout]
  decide +kernel

theorem nonsecure_run_hides_fenced :
    run (mainPass Board.scsEnv Board.decode32) (fenced.hide fencedBytes fun _ => 0x5A)
        [⟨id, id⟩, ⟨id, id⟩] =
      (run (mainPass Board.scsEnv Board.decode32) fenced [⟨id, id⟩, ⟨id, id⟩]).hide fencedBytes
        fun _ => 0x5A :=
  nonsecure_run_hides scsEnv_contained (by simpa using idle_contained) fenced_guards _
    fenced_staysNs

/-- Non-secure code changes none of the hidden bytes. -/
theorem nonsecure_run_keeps (target : env.Contained) {m : Machine δ} {hs : List (Host δ)}
    (devices : ∀ h ∈ hs, h.Contained env) {hidden : Set Word}
    (guards : m.world.Guards env hidden) {buf : Word → Byte} (ram : m.world.map.ram = some buf)
    (ns : Throughout (mainPass env decode32) (fun t => t.cpu.secState = .nonsecure) m hs) :
    Throughout (mainPass env decode32)
      (fun t => ∃ buf', t.world.map.ram = some buf' ∧ ∀ off ∈ hidden, buf' off = buf off) m hs := by
  have own : (veil env hidden buf).blur m = m := by
    change m.withWorld { m.world with map := m.world.map.veil hidden buf } = m
    rw [Memmap.veil_self ram]
    rfl
  refine (Veil.throughout_blur_eq_self (V := veil env hidden buf) (fun _ => mainPass_blind target)
    devices guards ns own).imp fun t ⟨guards, same⟩ => ?_
  obtain ⟨buf', ram'⟩ := Option.isSome_iff_exists.mp guards.ram
  have kept : t.world.map.veil hidden buf = t.world.map :=
    congrArg (fun a : Machine δ => a.world.map) same
  exact ⟨buf', ram', fun off mem => Memmap.eq_of_veil_eq kept ram' mem⟩

theorem nonsecure_run_keeps_fenced : Throughout (mainPass Board.scsEnv Board.decode32)
    (fun t => ∃ buf', t.world.map.ram = some buf' ∧ ∀ off ∈ fencedBytes, buf' off = 0) fenced
    [⟨id, id⟩, ⟨id, id⟩] :=
  nonsecure_run_keeps scsEnv_contained (by simpa using idle_contained) fenced_guards rfl
    fenced_staysNs

end Machine

end M33mu
