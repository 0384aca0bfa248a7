import M33mu.CpuIsolation
import M33mu.SecureRam

namespace M33mu

open Lib

namespace World

variable {δ : Type u} (env : Env δ)

structure Guards (hidden : Set Word) (w : World δ) : Prop where
  ram : w.map.ram.isSome = true
  prot : w.map.prot.isSome = true
  walled : ∀ off ∈ hidden, w.Walled env off

variable {env} {H : Set Word} {S : Word → Byte}

theorem Guards.congr {w w' : World δ} (h : w.Guards env H) (same : w.SameWalls env w') :
    w'.Guards env H :=
  ⟨same.layout.ram ▸ h.ram, same.layout.prot ▸ h.prot,
    fun off mem => (h.walled off mem).congr env same⟩

theorem Guards.of_scs {w : World δ} (h : w.Guards env H) {scs : Scs}
    (sau : Sau.attrForAddr scs = Sau.attrForAddr w.scs) : Guards env H { w with scs := scs } :=
  h.congr (.of_scs env w sau)

theorem Guards.setShcsr {w : World δ} (h : w.Guards env H) (sec : SecState) (i : Nat) :
    (w.setShcsr sec i).Guards env H := h.of_scs rfl

theorem Guards.noteQuit {w : World δ} (h : w.Guards env H) :
    (w.noteQuit env).Guards env H := by
  simp only [World.noteQuit]
  split
  · exact h.congr ⟨⟨rfl, rfl, rfl⟩, rfl, rfl⟩
  · exact h

theorem noteQuit_veil (w : World δ) :
    (w.veil H S).noteQuit env = (w.noteQuit env).veil H S := by
  simp only [noteQuit]
  split <;> rfl

theorem Guards.noteEntry {w : World δ} (h : w.Guards env H) (sec : SecState) (excNum : Word) :
    (w.noteEntry sec excNum).Guards env H := by
  simp only [World.noteEntry]
  split
  · exact h.setShcsr _ _
  split
  · exact h.congr ⟨⟨rfl, rfl, rfl⟩, rfl, rfl⟩
  split
  · exact h.congr ⟨⟨rfl, rfl, rfl⟩, rfl, rfl⟩
  · exact h

theorem noteEntry_veil (w : World δ) (sec : SecState) (excNum : Word) :
    (w.veil H S).noteEntry sec excNum = (w.noteEntry sec excNum).veil H S := by
  simp only [noteEntry]
  split
  · rfl
  split
  · rfl
  split <;> rfl

section Access

variable (contained : env.Contained)
include contained

theorem read_veils {w : World δ} (guards : w.Guards env H) (sec : SecState)
    (addr size : Word) : ∃ v, (w.veil H S).read env sec addr size =
        (v, (w.read env sec addr size).2.veil H S) ∧
      v.isSome = (w.read env sec addr size).1.isSome ∧
      (sec = .nonsecure → v = (w.read env sec addr size).1) := by
  obtain ⟨v, eq, success⟩ := read_veil_any contained (H := H) (S := S) w sec addr
    size
  refine ⟨v, eq, success, fun ns => ?_⟩
  subst ns
  rw [read_veil contained guards.walled] at eq
  exact (congrArg Prod.fst eq).symm

theorem Guards.read {w : World δ} (h : w.Guards env H) (sec : SecState) (addr size : Word) :
    (w.read env sec addr size).2.Guards env H :=
  h.congr (read_sameWalls contained w sec addr size)

theorem Guards.write {w : World δ} (h : w.Guards env H) (addr size value : Word) :
    (w.write env .nonsecure addr size value).2.Guards env H :=
  h.congr (write_sameWalls contained h.prot addr size value)

theorem readWords_veil {w : World δ} (guards : w.Guards env H) (sec : SecState) (addr : Word)
    (n : Nat) : ∃ vs, (w.veil H S).readWords env sec addr n =
        (vs, (w.readWords env sec addr n).2.veil H S) ∧
      vs.map List.length = (w.readWords env sec addr n).1.map List.length ∧
      (sec = .nonsecure → vs = (w.readWords env sec addr n).1) ∧
      (w.readWords env sec addr n).2.Guards env H := by
  induction n generalizing w addr with
  | zero => exact ⟨some [], rfl, rfl, fun _ => rfl, guards⟩
  | succ n ih =>
    obtain ⟨v', eq, success, value⟩ := read_veils contained (S := S) guards sec addr 4
    have after := guards.read contained sec addr 4
    simp only [readWords, eq]
    generalize w.read env sec addr 4 = o at success value after ⊢
    obtain ⟨v, w'⟩ := o
    cases v with
    | none =>
      obtain rfl : v' = none := Option.isNone_iff_eq_none.mp (Option.isSome_eq_false_iff.mp success)
      exact ⟨none, rfl, rfl, fun _ => rfl, after⟩
    | some v =>
      obtain ⟨v', rfl⟩ := Option.isSome_iff_exists.mp success
      obtain ⟨vs, eq, length, same, guards'⟩ := ih after (addr + 4)
      simp only [eq]
      refine ⟨vs.map (v' :: ·), rfl, ?_, fun ns => ?_, guards'⟩
      · rw [Option.map_map, Option.map_map]
        have longer := congrArg (Option.map (· + 1)) length
        rwa [Option.map_map, Option.map_map] at longer
      · rw [same ns, Option.some.inj (value ns)]

theorem readFrame_veil {w : World δ} (guards : w.Guards env H) (sec : SecState) (sp : Word) :
    ∃ f, (w.veil H S).readFrame env sec sp =
        (f, (w.readFrame env sec sp).2.veil H S) ∧
      f.isSome = (w.readFrame env sec sp).1.isSome ∧
      (sec = .nonsecure → f = (w.readFrame env sec sp).1) ∧
      (w.readFrame env sec sp).2.Guards env H := by
  obtain ⟨vs, eq, length, same, after⟩ := readWords_veil contained (S := S) guards sec sp 8
  simp only [readFrame, eq]
  generalize w.readWords env sec sp 8 = o at length same after ⊢
  obtain ⟨us, w'⟩ := o
  cases us with
  | none =>
    obtain rfl : vs = none := Option.map_eq_none_iff.mp length
    exact ⟨none, rfl, rfl, fun _ => rfl, after⟩
  | some us =>
    cases vs with
    | none => cases length
    | some vs =>
      have lengths : vs.length = us.length := Option.some.inj length
      match us, vs, lengths with
      | [_, _, _, _, _, _, _, _], [_, _, _, _, _, _, _, _], _ =>
        refine ⟨_, rfl, rfl, fun ns => ?_, after⟩
        cases same ns
        rfl
      | [], [], _ | [_], [_], _ | [_, _], [_, _], _ | [_, _, _], [_, _, _], _
      | [_, _, _, _], [_, _, _, _], _ | [_, _, _, _, _], [_, _, _, _, _], _
      | [_, _, _, _, _, _], [_, _, _, _, _, _], _
      | [_, _, _, _, _, _, _], [_, _, _, _, _, _, _], _
      | _ :: _ :: _ :: _ :: _ :: _ :: _ :: _ :: _ :: _,
          _ :: _ :: _ :: _ :: _ :: _ :: _ :: _ :: _ :: _, _ =>
        exact ⟨none, rfl, rfl, fun _ => rfl, after⟩

theorem pushWords_veil {w : World δ} (guards : w.Guards env H) (sp : Word) (ws : List Word) :
    (w.veil H S).pushWords env .nonsecure sp ws =
        ((w.pushWords env .nonsecure sp ws).1,
          (w.pushWords env .nonsecure sp ws).2.veil H S) ∧
      (w.pushWords env .nonsecure sp ws).2.Guards env H := by
  induction ws generalizing w sp with
  | nil => exact ⟨rfl, guards⟩
  | cons v vs ih =>
    have after := guards.write contained (sp - 4) 4 v
    simp only [pushWords, write_veil contained guards.walled]
    generalize w.write env .nonsecure (sp - 4) 4 v = o at after ⊢
    obtain ⟨ok, w'⟩ := o
    cases ok with
    | false => exact ⟨rfl, after⟩
    | true => exact ih after (sp - 4)

theorem exceptionReadHandler_veil {w : World δ} (guards : w.Guards env H) (sec : SecState)
    (index : Word) : ∃ v, (w.veil H S).exceptionReadHandler env sec index =
        (v, (w.exceptionReadHandler env sec index).2.veil H S) ∧
      (sec = .nonsecure → v = (w.exceptionReadHandler env sec index).1) ∧
      (w.exceptionReadHandler env sec index).2.Guards env H := by
  obtain ⟨v', eq, success, value⟩ := read_veils contained (S := S) guards sec
    (w.scs.vtor.get sec + index * 4) 4
  have after := guards.read contained sec (w.scs.vtor.get sec + index * 4) 4
  have vtor : (w.veil H S).scs = w.scs := rfl
  simp only [exceptionReadHandler, vectorRead, vtor, eq]
  generalize w.read env sec _ 4 = o at success value after ⊢
  obtain ⟨v, w₁⟩ := o
  cases v with
  | some v =>
    obtain ⟨v', rfl⟩ := Option.isSome_iff_exists.mp success
    exact ⟨v', rfl, fun ns => Option.some.inj (value ns), after⟩
  | none =>
    obtain rfl : v' = none := Option.isNone_iff_eq_none.mp (Option.isSome_eq_false_iff.mp success)
    have flash : (w₁.veil H S).map.flash = w₁.map.flash := rfl
    have base : (w₁.veil H S).map.flashBase = w₁.map.flashBase := rfl
    have length : (w₁.veil H S).map.flashLength = w₁.map.flashLength := rfl
    simp only [flash, base, length]
    split
    · split
      · exact ⟨_, rfl, fun _ => rfl, after⟩
      · exact ⟨_, rfl, fun _ => rfl, after⟩
    · exact ⟨_, rfl, fun _ => rfl, after⟩

end Access

end World

namespace Sys

variable {δ : Type u} (env : Env δ) (H : Set Word) (S : Word → Byte)

noncomputable def veil : Veil (Sys δ) where
  low s := s.cpu.secState = .nonsecure
  inv s := s.world.Guards env H
  blur s := { s with world := s.world.veil H S }

variable {env H S}

theorem agree_of_veiled {b : Bool} {c : Cpu} {w : World δ} {t : List Event}
    (guards : w.Guards env H) : (veil env H S).Agree (b, ⟨c, w, t⟩)
      (b, ⟨c, w.veil H S, t⟩) :=
  ⟨⟨Iff.rfl, fun _ => guards, fun _ => rfl⟩, fun _ => rfl⟩

section Access

variable (contained : env.Contained)
include contained

theorem enter_agree {c : Cpu} {w : World δ} (t : List Event) (ns : c.secState = .nonsecure)
    (guards : w.Guards env H) (num returnPc xpsrIn xpsr : Word) {handler handler' : Word}
    {handlerSec : SecState} (same : handlerSec = .nonsecure → handler' = handler) :
    (veil env H S).Agree
      (enter env ⟨c, w, t⟩ num returnPc xpsrIn xpsr handler handlerSec)
      (enter env ⟨c, w.veil H S, t⟩ num returnPc xpsrIn xpsr handler' handlerSec) := by
  obtain ⟨eq, after⟩ := World.pushWords_veil contained (S := S) guards
    (c.bankSp c.secState c.usePspEntry) (c.frame returnPc xpsrIn).words.reverse
  simp only [enter, World.pushFrame, ns] at eq after ⊢
  rw [eq]
  generalize w.pushWords env .nonsecure _ _ = o at after ⊢
  obtain ⟨sp, w'⟩ := o
  cases sp with
  | none => exact agree_of_veiled after
  | some sp =>
    cases handlerSec with
    | secure =>
      have out : SecState.secure ≠ .nonsecure := by decide
      exact ⟨.of_out out out, fun low => absurd low out⟩
    | nonsecure =>
      rw [same rfl]
      exact agree_of_veiled after

theorem raiseHardFault_agree {s : Sys δ} (ns : s.cpu.secState = .nonsecure)
    (guards : s.world.Guards env H) (faultPc faultXpsr : Word) :
    (veil env H S).Agree (s.raiseHardFault env faultPc faultXpsr)
      (raiseHardFault env ((veil env H S).blur s) faultPc faultXpsr) := by
  obtain ⟨w₀, begun⟩ : ∃ w₀, w₀ = World.setShcsr { s.world with scs :=
    { s.world.scs with hfsr := s.world.scs.hfsr ||| 1#32 <<< 30 } } .nonsecure 1 := ⟨_, rfl⟩
  have begun' : World.setShcsr { s.world.veil H S with scs :=
      { (s.world.veil H S).scs with
        hfsr := (s.world.veil H S).scs.hfsr ||| 1#32 <<< 30 } } .nonsecure 1 =
      w₀.veil H S := by
    rw [begun]
    rfl
  have g₀ : w₀.Guards env H := begun ▸ guards.congr ⟨⟨rfl, rfl, rfl⟩, rfl, rfl⟩
  obtain ⟨v, eq, same, g₁⟩ := World.exceptionReadHandler_veil contained (S := S) g₀
    .nonsecure Vect.hardfault
  simp only [raiseHardFault, veil, ns, begun', ← begun, eq, same rfl]
  generalize w₀.exceptionReadHandler env .nonsecure Vect.hardfault = o at g₁ ⊢
  obtain ⟨handler, w₁⟩ := o
  have probe {w : World δ} (g : w.Guards env H) (addr size : Word) :=
    And.intro (World.read_veil contained (S := S) g.walled addr size)
      (g.read contained .nonsecure addr size)
  obtain ⟨eq₂, g₂⟩ := probe g₁ 0xE000ED28 4
  rw [eq₂]
  obtain ⟨eq₃, g₃⟩ := probe g₂ 0xE000ED34 4
  rw [eq₃]
  obtain ⟨eq₄, g₄⟩ := probe g₃ (faultPc &&& ~~~1#32) 2
  rw [eq₄]
  obtain ⟨eq₅, g₅⟩ := probe g₄ (handler &&& ~~~1#32) 2
  rw [eq₅, World.noteQuit_veil]
  exact enter_agree contained s.trace ns g₅.noteQuit _ _ _ _ fun _ => rfl

theorem raiseUsageFault_agree {s : Sys δ} (ns : s.cpu.secState = .nonsecure)
    (guards : s.world.Guards env H) (faultPc faultXpsr ufsrBits : Word) :
    (veil env H S).Agree (s.raiseUsageFault env faultPc faultXpsr ufsrBits)
      (raiseUsageFault env ((veil env H S).blur s) faultPc faultXpsr ufsrBits) := by
  obtain ⟨w₀, begun⟩ : ∃ w₀, w₀ = World.setShcsr { s.world with scs :=
    { s.world.scs with cfsr := s.world.scs.cfsr |||
      if ufsrBits = 0 then ufsrUndefinstr else ufsrBits } } .nonsecure 2 := ⟨_, rfl⟩
  have begun' : World.setShcsr { s.world.veil H S with scs :=
      { (s.world.veil H S).scs with
        cfsr := (s.world.veil H S).scs.cfsr |||
          if ufsrBits = 0 then ufsrUndefinstr else ufsrBits } } .nonsecure 2 =
      w₀.veil H S := by
    rw [begun]
    rfl
  have g₀ : w₀.Guards env H := begun ▸ guards.congr ⟨⟨rfl, rfl, rfl⟩, rfl, rfl⟩
  obtain ⟨v, eq, same, g₁⟩ := World.exceptionReadHandler_veil contained (S := S) g₀
    .nonsecure Vect.usagefault
  simp only [raiseUsageFault, veil, ns, begun', ← begun, eq, same rfl]
  generalize w₀.exceptionReadHandler env .nonsecure Vect.usagefault = o at g₁ ⊢
  obtain ⟨handler, w₁⟩ := o
  have probe {w : World δ} (g : w.Guards env H) (addr size : Word) :=
    And.intro (World.read_veil contained (S := S) g.walled addr size)
      (g.read contained .nonsecure addr size)
  obtain ⟨eq₂, g₂⟩ := probe g₁ 0xE000ED28 4
  rw [eq₂]
  obtain ⟨eq₃, g₃⟩ := probe g₂ (faultPc &&& ~~~1#32) 2
  rw [eq₃]
  generalize World.read env _ .nonsecure (faultPc &&& ~~~1#32) 2 = o at g₃ ⊢
  obtain ⟨hw, w₃⟩ := o
  obtain ⟨eq₄, g₄⟩ := probe g₃ (faultPc &&& ~~~3#32) 4
  have finish {w : World δ} (g : w.Guards env H) :
      (veil env H S).Agree (enter env ⟨s.cpu, w, s.trace⟩ Vect.usagefault faultPc faultXpsr
          ((faultXpsr &&& 0xF8000000) ||| 0x01000006) handler .nonsecure)
        (enter env ⟨s.cpu, w.veil H S, s.trace⟩ Vect.usagefault faultPc faultXpsr
          ((faultXpsr &&& 0xF8000000) ||| 0x01000006) handler .nonsecure) :=
    enter_agree contained s.trace ns g _ _ _ _ fun _ => rfl
  cases hw with
  | none =>
    split
    · exact agree_of_veiled g₃
    · exact finish g₃
  | some hw =>
    simp only [Option.isSome_some, if_true, eq₄]
    split
    · exact agree_of_veiled g₄
    · exact finish g₄

theorem enterExceptionEx_agree {s : Sys δ} (ns : s.cpu.secState = .nonsecure)
    (guards : s.world.Guards env H) (excNum returnPc xpsrIn : Word) (handlerSec : SecState) :
    (veil env H S).Agree (s.enterExceptionEx env excNum returnPc xpsrIn handlerSec)
      (enterExceptionEx env ((veil env H S).blur s) excNum returnPc xpsrIn
        handlerSec) := by
  have finish {w : World δ} (g : w.Guards env H) (xpsr handler handler' : Word)
      (same : handlerSec = .nonsecure → handler' = handler) :
      (veil env H S).Agree
        (enter env ⟨s.cpu, w.noteEntry .nonsecure excNum, s.trace⟩ excNum returnPc xpsrIn xpsr
          handler handlerSec)
        (enter env ⟨s.cpu, (w.veil H S).noteEntry .nonsecure excNum, s.trace⟩ excNum
          returnPc xpsrIn xpsr handler' handlerSec) := by
    rw [World.noteEntry_veil]
    exact enter_agree contained s.trace ns (g.noteEntry _ _) _ _ _ _ same
  have woken {o o' : Bool × Sys δ} (h : (veil env H S).Agree o o') :
      (veil env H S).Agree
        (o.1, if o.1 then { o.2 with cpu := { o.2.cpu with sleeping := false, eventReg := false } }
          else o.2)
        (o'.1, if o'.1 then
            { o'.2 with cpu := { o'.2.cpu with sleeping := false, eventReg := false } }
          else o'.2) := by
    refine h.then (k := fun ok s => (ok, if ok then
      { s with cpu := { s.cpu with sleeping := false, eventReg := false } } else s)) ?_ ?_
    · intro ok a low inv
      cases ok <;> exact ⟨⟨Iff.rfl, fun _ => inv, fun _ => rfl⟩, fun _ => rfl⟩
    · intro ok a out
      cases ok <;> exact out
  simp only [enterExceptionEx]
  apply woken
  by_cases irq : 16 ≤ excNum
  · obtain ⟨v, eq, success, value⟩ := World.read_veils contained (S := S) guards handlerSec
      (s.world.scs.vtor.get handlerSec + excNum * 4) 4
    have after := guards.read contained handlerSec (s.world.scs.vtor.get handlerSec + excNum * 4) 4
    have vtor : (s.world.veil H S).scs = s.world.scs := rfl
    simp only [irq, if_true, veil, ns, World.vectorRead, vtor, eq]
    refine finish after _ _ _ fun ns' => ?_
    rw [value ns']
  · obtain ⟨v, eq, same, after⟩ := World.exceptionReadHandler_veil contained (S := S)
      guards handlerSec excNum
    simp only [irq, if_false, veil, ns, eq]
    exact finish after _ _ _ same

theorem raiseMemFault_agree {s : Sys δ} (ns : s.cpu.secState = .nonsecure)
    (guards : s.world.Guards env H) (faultPc faultXpsr addr : Word) (isExec : Bool) :
    (veil env H S).Agree (s.raiseMemFault env faultPc faultXpsr addr isExec)
      (raiseMemFault env ((veil env H S).blur s) faultPc faultXpsr addr isExec) := by
  have noted : ((s.world.noteQuit env).noteMemManage .nonsecure addr isExec).Guards env H :=
    guards.noteQuit.congr ⟨⟨rfl, rfl, rfl⟩, rfl, rfl⟩
  have same : ((s.world.veil H S).noteQuit env).noteMemManage .nonsecure addr isExec =
      ((s.world.noteQuit env).noteMemManage .nonsecure addr isExec).veil H S := by
    rw [World.noteQuit_veil]
    rfl
  have shcsr (w : World δ) : (w.veil H S).scs.shcsr = w.scs.shcsr := rfl
  simp only [raiseMemFault, veil, ns, reduceCtorEq, false_and, if_false, same, shcsr,
    enterException]
  generalize (s.world.noteQuit env).noteMemManage .nonsecure addr isExec = w at noted ⊢
  split
  · exact enterExceptionEx_agree contained (s := ⟨s.cpu, w, s.trace⟩) ns noted _ _ _ _
  · exact raiseHardFault_agree contained (s := ⟨s.cpu, w, s.trace⟩) ns noted _ _

theorem enterException_agree {s : Sys δ} (ns : s.cpu.secState = .nonsecure)
    (guards : s.world.Guards env H) (excNum returnPc xpsrIn : Word) :
    (veil env H S).Agree (s.enterException env excNum returnPc xpsrIn)
      (enterException env ((veil env H S).blur s) excNum returnPc xpsrIn) :=
  enterExceptionEx_agree contained ns guards _ _ _ _

theorem excReturnUnstack_agree {s : Sys δ} (guards : s.world.Guards env H) (excRet : Word) :
    (veil env H S).Agree (s.excReturnUnstack env excRet)
      (excReturnUnstack env ((veil env H S).blur s) excRet) := by
  simp only [excReturnUnstack]
  cases excReturnDecode excRet with
  | none => exact agree_of_veiled guards
  | some info =>
    obtain ⟨f', eq, success, value, after⟩ := World.readFrame_veil contained (S := S) guards
      info.targetSec (s.cpu.unstackSp info)
    simp only [veil, eq]
    generalize s.world.readFrame env info.targetSec (s.cpu.unstackSp info) = o
      at success value after ⊢
    obtain ⟨f, w⟩ := o
    cases f with
    | none =>
      obtain rfl : f' = none := Option.isNone_iff_eq_none.mp (Option.isSome_eq_false_iff.mp success)
      exact agree_of_veiled after
    | some f =>
      obtain ⟨f', rfl⟩ := Option.isSome_iff_exists.mp success
      cases target : info.targetSec with
      | secure =>
        refine ⟨.of_out ?_ ?_, fun low => ?_⟩
        · simp [Cpu.resume, target]
        · simp [Cpu.resume, target]
        · simp [Cpu.resume, target] at low
      | nonsecure =>
        obtain rfl : f' = f := Option.some.inj (value target)
        exact agree_of_veiled after

end Access

end Sys

end M33mu
