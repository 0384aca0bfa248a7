import M33mu.Nrf5340Spim

namespace M33mu

open Lib

namespace UartIo

def pending (io : UartIo) : List Byte := if io.rxPending then [io.rxByte] else []

def Sane (io : UartIo) : Prop := io.stdoutOnly = true → io.rxPending = false

structure SameRx (io io' : UartIo) : Prop where
  stdoutOnly : io'.stdoutOnly = io.stdoutOnly
  rxPending : io'.rxPending = io.rxPending
  rxByte : io'.rxByte = io.rxByte

variable {io io₁ io₂ : UartIo}

theorem SameRx.refl (io : UartIo) : io.SameRx io := ⟨rfl, rfl, rfl⟩

theorem SameRx.trans (first : io.SameRx io₁) (second : io₁.SameRx io₂) : io.SameRx io₂ :=
  ⟨second.stdoutOnly.trans first.stdoutOnly, second.rxPending.trans first.rxPending,
    second.rxByte.trans first.rxByte⟩

theorem SameRx.pending (same : io.SameRx io₁) : io₁.pending = io.pending := by
  rw [UartIo.pending, same.rxPending, same.rxByte, UartIo.pending]

theorem SameRx.sane (same : io.SameRx io₁) (sane : io.Sane) : io₁.Sane := fun stdout =>
  same.rxPending.trans (sane (same.stdoutOnly.symm.trans stdout))

theorem sameRx_flushLoop (io : UartIo) (rs : List WriteResult) : io.SameRx (io.flushLoop rs).2.2 := by
  induction rs generalizing io with
  | nil => exact .refl io
  | cons r rs ih =>
    rw [flushLoop.eq_def]
    dsimp only
    split
    · exact .refl io
    · cases r with
      | wrote k =>
        have first : io.SameRx
            { io with txHead := (io.txHead + min (k + 1) io.firstChunk) % txSize } :=
          ⟨rfl, rfl, rfl⟩
        exact first.trans (ih _)
      | again => exact .refl io
      | failed => exact ⟨rfl, rfl, rfl⟩

theorem sameRx_flush (io : UartIo) (rs : List WriteResult) : io.SameRx (io.flush rs).2.2 := by
  rw [flush]
  split
  · exact .refl io
  · exact io.sameRx_flushLoop rs

structure Polled (io : UartIo) (new : Bool) (io' : UartIo) : Prop where
  heard : io'.pending = io.pending ++ if new then [io'.rxByte] else []
  sane : io.Sane → io'.Sane

theorem polled (io : UartIo) (rs : List WriteResult) (rx : Option Byte) :
    io.Polled (io.poll rs rx).1 (io.poll rs rx).2.2 := by
  have still {io' : UartIo} (same : io.SameRx io') : io.Polled false io' :=
    ⟨same.pending.trans (List.append_nil _).symm, same.sane⟩
  rw [poll]
  split
  · exact still (.refl io)
  · rename_i on
    have flushed := io.sameRx_flush rs
    generalize io.flush rs = r at flushed
    obtain ⟨_, bytes, io₁⟩ := r
    cases rx with
    | none => exact still flushed
    | some b =>
      dsimp only
      cases waits : io₁.rxPending with
      | true => exact still flushed
      | false =>
        have none' : io.rxPending = false := flushed.rxPending.symm.trans waits
        have off : io.stdoutOnly = false := Bool.eq_false_iff.mpr fun stdout => on (.inr stdout)
        refine ⟨by simp [pending, none'], fun _ stdout => ?_⟩
        exact nomatch off.symm.trans (flushed.stdoutOnly.symm.trans stdout)

theorem read_of_pending (sane : io.Sane) (waits : io.rxPending = true) :
    io.read = (io.rxByte, { io with rxPending := false }) := by
  rw [read, if_neg]
  rintro (stdout | none')
  · exact nomatch waits.symm.trans (sane stdout)
  · exact nomatch waits.symm.trans none'

end UartIo

namespace SerialPort

open Serial

variable {δ : Type u} {env : Env δ} {s s' s₁ s₂ : SerialPort δ} {e : SerialEnv}

/-- No byte from the host is lost, doubled or out of order: each was taken, or still waits. -/
structure Kept (s : SerialPort δ) : Prop where
  sane : s.dev.io.Sane
  all : s.heard = s.taken ++ s.dev.io.pending

structure Took (s s' : SerialPort δ) (new : List Byte) : Prop where
  sane : s.dev.io.Sane → s'.dev.io.Sane
  pending : s.dev.io.pending = new ++ s'.dev.io.pending
  heard : s'.heard = s.heard
  taken : s'.taken = s.taken ++ new
  ptr : s'.dev.reg rxdPtr = s.dev.reg rxdPtr
  maxcnt : s'.dev.reg rxdMaxcnt = s.dev.reg rxdMaxcnt

theorem Took.refl (s : SerialPort δ) : s.Took s [] :=
  ⟨id, rfl, rfl, (List.append_nil _).symm, rfl, rfl⟩

theorem Took.append {new more : List Byte} (first : s.Took s₁ new) (second : s₁.Took s₂ more) :
    s.Took s₂ (new ++ more) where
  sane := second.sane ∘ first.sane
  pending := by rw [first.pending, second.pending, List.append_assoc]
  heard := second.heard.trans first.heard
  taken := by rw [second.taken, first.taken, List.append_assoc]
  ptr := second.ptr.trans first.ptr
  maxcnt := second.maxcnt.trans first.maxcnt

theorem Took.then {new : List Byte} (first : s.Took s₁ new) (second : s₁.Took s₂ []) :
    s.Took s₂ new :=
  List.append_nil new ▸ first.append second

theorem Took.kept {new : List Byte} (took : s.Took s' new) (kept : s.Kept) : s'.Kept :=
  ⟨took.sane kept.sane, by rw [took.heard, took.taken, kept.all, took.pending, List.append_assoc]⟩

theorem took_setReg (s : SerialPort δ) (offset v : Word) (ptr : rxdPtr / 4 ≠ offset / 4)
    (maxcnt : rxdMaxcnt / 4 ≠ offset / 4) :
    s.Took { s with dev := s.dev.setReg offset v } [] :=
  ⟨id, rfl, rfl, (List.append_nil _).symm, reg_setReg_of_ne _ v ptr, reg_setReg_of_ne _ v maxcnt⟩

theorem took_eventSet (s : SerialPort δ) (offset mask : Word)
    (ptr : rxdPtr / 4 ≠ offset / 4) (maxcnt : rxdMaxcnt / 4 ≠ offset / 4) :
    s.Took (s.eventSet offset mask) [] := by
  obtain ⟨nvic, eq⟩ := eventSet_eq s offset mask
  rw [eq]
  exact (took_setReg s offset 1 ptr maxcnt).then
    ⟨id, rfl, rfl, (List.append_nil _).symm, rfl, rfl⟩

theorem stored_eventSet (s : SerialPort δ) (offset mask : Word) (sec : SecState) (a : Word) :
    s.world.Stored env (s.eventSet offset mask).world sec a [] := by
  obtain ⟨nvic, eq⟩ := eventSet_eq s offset mask
  rw [eq]
  exact .nil (touched_nvic _ nvic) rfl

theorem took_one (waits : s.dev.io.rxPending = true) (w : World δ) :
    s.Took { s with
      dev := { s.dev with io := { s.dev.io with rxPending := false } }
      world := w
      taken := s.taken ++ [s.dev.io.rxByte] } [s.dev.io.rxByte] where
  sane _ _ := rfl
  pending := by
    simp only [UartIo.pending, waits, if_true]
    rfl
  heard := rfl
  taken := rfl
  ptr := rfl
  maxcnt := rfl

structure Filled (env : Env δ) (s s' : SerialPort δ) (sec : SecState) (amount amount' : Word)
    (n : Nat) (new : List Byte) : Prop where
  took : s.Took s' new
  few : new.length ≤ n
  count : amount' = amount + BitVec.ofNat 32 new.length
  stored : (∀ k < n,
      World.busFind env (s.dev.reg rxdPtr + amount + BitVec.ofNat 32 k) = none) →
    s.world.Stored env s'.world sec (s.dev.reg rxdPtr + amount) new

theorem filled_refl (s : SerialPort δ) (sec : SecState) (amount : Word) (n : Nat) :
    s.Filled env s sec amount amount n [] :=
  ⟨.refl s, Nat.zero_le n, (BitVec.add_zero amount).symm, fun _ => .nil (.refl _) rfl⟩

variable (env) in
theorem filled_rxLoop (sane : s.dev.io.Sane) (e : SerialEnv) (amount : Word) (n : Nat) :
    ∃ new, s.Filled env (s.rxLoop env e amount n).2 e.sec amount (s.rxLoop env e amount n).1 n
      new := by
  induction n generalizing s amount with
  | zero => exact ⟨[], filled_refl ..⟩
  | succ n ih =>
    rw [rxLoop]
    split
    · rename_i waits
      rw [UartIo.read_of_pending sane waits]
      dsimp only
      have one := took_one waits (s.world.write8 env e.sec (s.dev.reg rxdPtr + amount)
        s.dev.io.rxByte).2
      generalize read : ({ s with dev := _, world := _, taken := _ } : SerialPort δ) = s₁ at one ⊢
      have event := one.then (took_eventSet s₁ eventsRxdrdy intRxdrdy (by decide) (by decide))
      obtain ⟨new, rest⟩ := ih (event.sane sane) (amount + 1)
      refine ⟨s.dev.io.rxByte :: new, event.append rest.took, Nat.succ_le_succ rest.few, ?_, ?_⟩
      · rw [rest.count, List.length_cons, Memmap.add_ofNat_succ]
      · intro off
        have here := off 0 (Nat.succ_pos n)
        have zero : s.dev.reg rxdPtr + amount + BitVec.ofNat 32 0 = s.dev.reg rxdPtr + amount :=
          BitVec.add_zero _
        rw [zero] at here
        have first : s.world.Stored env s₁.world e.sec (s.dev.reg rxdPtr + amount)
            [s.dev.io.rxByte] := by
          rw [← read]
          exact World.stored_one s.world e.sec here _
        have later := rest.stored fun k low => by
          have later := off (k + 1) (Nat.succ_lt_succ low)
          rwa [Memmap.add_ofNat_succ, BitVec.add_assoc _ amount, ← event.ptr] at later
        rw [event.ptr, ← BitVec.add_assoc] at later
        exact (first.append (stored_eventSet s₁ ..)).append later
    · exact ⟨[], filled_refl ..⟩

theorem running_eventSet (s : SerialPort δ) (offset mask : Word) :
    (s.eventSet offset mask).dev.rxRunning = s.dev.rxRunning := by
  obtain ⟨nvic, eq⟩ := eventSet_eq s offset mask
  rw [eq]
  rfl

variable (env) in
theorem running_rxLoop (s : SerialPort δ) (e : SerialEnv) (amount : Word) (n : Nat) :
    (s.rxLoop env e amount n).2.dev.rxRunning = s.dev.rxRunning := by
  induction n generalizing s amount with
  | zero => rfl
  | succ n ih =>
    rw [rxLoop]
    split
    · exact (ih _ _).trans (running_eventSet ..)
    · rfl

structure Still (env : Env δ) (s s' : SerialPort δ) : Prop where
  took : s.Took s' []
  running : s'.dev.rxRunning = s.dev.rxRunning
  amount : s'.dev.reg rxdAmount = s.dev.reg rxdAmount
  stored : ∀ sec a, s.world.Stored env s'.world sec a []

theorem Still.refl (s : SerialPort δ) : s.Still env s :=
  ⟨.refl s, rfl, rfl, fun _ _ => .nil (.refl _) rfl⟩

theorem Still.trans (first : s.Still env s₁) (second : s₁.Still env s₂) : s.Still env s₂ :=
  ⟨first.took.then second.took, second.running.trans first.running,
    second.amount.trans first.amount, fun sec a => (first.stored sec a).append (second.stored sec _)⟩

theorem still_eventSet (s : SerialPort δ) (offset mask : Word) (ptr : rxdPtr / 4 ≠ offset / 4)
    (maxcnt : rxdMaxcnt / 4 ≠ offset / 4) (amount : rxdAmount / 4 ≠ offset / 4) :
    s.Still env (s.eventSet offset mask) := by
  refine ⟨took_eventSet s offset mask ptr maxcnt, running_eventSet .., ?_,
    stored_eventSet s offset mask⟩
  obtain ⟨nvic, eq⟩ := eventSet_eq s offset mask
  rw [eq]
  exact reg_setReg_of_ne _ 1 amount

theorem took_stop (s : SerialPort δ) : s.Took { s with dev := { s.dev with rxRunning := false } } [] :=
  ⟨id, rfl, rfl, (List.append_nil _).symm, rfl, rfl⟩

theorem Filled.then {sec : SecState} {amount amount' : Word} {n : Nat} {new : List Byte}
    (filled : s.Filled env s₁ sec amount amount' n new) (took : s₁.Took s₂ [])
    (stored : ∀ a, s₁.world.Stored env s₂.world sec a []) :
    s.Filled env s₂ sec amount amount' n new :=
  ⟨filled.took.then took, filled.few, filled.count, fun off =>
    List.append_nil new ▸ (filled.stored off).append (stored _)⟩

variable (env) in
theorem filled_tryRx (sane : s.dev.io.Sane) (e : SerialEnv) : s.tryRx env e = s ∨
    s.dev.rxRunning = true ∧ ∃ new,
      s.Filled env (s.tryRx env e) e.sec (s.dev.reg rxdAmount) ((s.tryRx env e).dev.reg rxdAmount)
        ((s.dev.reg rxdMaxcnt).toNat - (s.dev.reg rxdAmount).toNat) new ∧
      (s.dev.reg rxdMaxcnt ≠ 0 → ((s.tryRx env e).dev.rxRunning = false ↔
        s.dev.reg rxdMaxcnt ≤ (s.tryRx env e).dev.reg rxdAmount)) := by
  rw [tryRx]
  split
  · exact .inl rfl
  · rename_i runs
    have runs : s.dev.rxRunning = true := Bool.not_eq_false _ ▸ fun stopped => runs (.inl stopped)
    refine .inr ⟨runs, ?_⟩
    dsimp only
    obtain ⟨new, filled⟩ := filled_rxLoop env sane e (s.dev.reg rxdAmount)
      ((s.dev.reg rxdMaxcnt).toNat - (s.dev.reg rxdAmount).toNat)
    have running := (running_rxLoop env s e (s.dev.reg rxdAmount)
      ((s.dev.reg rxdMaxcnt).toNat - (s.dev.reg rxdAmount).toNat)).trans runs
    generalize s.rxLoop env e _ _ = r at filled running ⊢
    obtain ⟨amount, s₁⟩ := r
    generalize counted : ({ s₁ with dev := s₁.dev.setReg rxdAmount amount } : SerialPort δ) = s₂
    have here : s₂.dev.reg rxdAmount = amount := by
      rw [← counted]
      exact reg_setReg_self ..
    have running₂ : s₂.dev.rxRunning = true := counted ▸ running
    have filled₂ : s.Filled env s₂ e.sec (s.dev.reg rxdAmount) (s₂.dev.reg rxdAmount)
        ((s.dev.reg rxdMaxcnt).toNat - (s.dev.reg rxdAmount).toNat) new := by
      rw [here, ← counted]
      exact ⟨filled.took.then (took_setReg s₁ rxdAmount amount (by decide) (by decide)),
        filled.few, filled.count, filled.stored⟩
    split
    · rename_i ends
      have event : Still env { s₂ with dev := { s₂.dev with rxRunning := false } }
          (eventSet { s₂ with dev := { s₂.dev with rxRunning := false } } eventsEndrx intEndrx) :=
        still_eventSet _ _ _ (by decide) (by decide) (by decide)
      have last := filled₂.then ((took_stop s₂).then event.took) fun a => event.stored e.sec a
      have amount' : (eventSet { s₂ with dev := { s₂.dev with rxRunning := false } } eventsEndrx
          intEndrx).dev.reg rxdAmount = amount := event.amount.trans here
      have full := ends.1
      rw [← amount'] at full
      rw [here, ← amount'] at last
      subst counted
      exact ⟨new, last, fun _ => ⟨fun _ => full, fun _ => event.running⟩⟩
    · rename_i room
      refine ⟨new, filled₂, fun some' => ⟨fun stopped => ?_, fun full => ?_⟩⟩
      · exact absurd (running₂.symm.trans stopped) (by decide)
      · rw [here] at full
        exact absurd ⟨full, some'⟩ room

def TxOff (env : Env δ) (s : SerialPort δ) : Prop :=
  ∀ i < (s.dev.reg txdMaxcnt).toNat,
    World.busFind env (s.dev.reg txdPtr + BitVec.ofNat 32 i) = none

/-- A reception after `new` bytes: they are in memory from RXD.PTR on, in order, AMOUNT counts them,
and it is over with the buffer full, or stopped. -/
structure Receiving (env : Env δ) (s₀ s : SerialPort δ) (sec : SecState) (new : List Byte)
    (stopped : Prop) : Prop where
  kept : s.Kept
  taken : s.taken = s₀.taken ++ new
  ptr : s.dev.reg rxdPtr = s₀.dev.reg rxdPtr
  maxcnt : s.dev.reg rxdMaxcnt = s₀.dev.reg rxdMaxcnt
  count : s.dev.reg rxdAmount = BitVec.ofNat 32 new.length
  few : new.length ≤ (s₀.dev.reg rxdMaxcnt).toNat
  finished : s₀.dev.reg rxdMaxcnt ≠ 0 →
    (s.dev.rxRunning = false ↔ new.length = (s₀.dev.reg rxdMaxcnt).toNat ∨ stopped)
  stored : s₀.world.Stored env s.world sec (s₀.dev.reg rxdPtr) new

def Leaves (env : Env δ) (sec : SecState) (s : SerialPort δ) : Op → Prop
  | .write e offset n _ => e.sec = sec ∧
      offset / 4 ∉ [rxdPtr / 4, rxdMaxcnt / 4, rxdAmount / 4] ∧
      (n = 4 → offset ≠ startrx ∧ offset ≠ spimStart) ∧ (offset = starttx → s.TxOff env)
  | .poll e _ => e.sec = sec

variable {s₀ : SerialPort δ} {sec : SecState} {new : List Byte} {stopped : Prop}

theorem Receiving.still (receiving : Receiving env s₀ s sec new stopped) (still : s.Still env s') :
    Receiving env s₀ s' sec new stopped where
  kept := still.took.kept receiving.kept
  taken := by rw [still.took.taken, List.append_nil, receiving.taken]
  ptr := still.took.ptr.trans receiving.ptr
  maxcnt := still.took.maxcnt.trans receiving.maxcnt
  count := still.amount.trans receiving.count
  few := receiving.few
  finished some' := by rw [still.running, receiving.finished some']
  stored := List.append_nil new ▸ receiving.stored.append (still.stored ..)

theorem Receiving.stop (receiving : Receiving env s₀ s sec new stopped) {stopped' : Prop}
    (does : stopped') :
    Receiving env s₀ { s with dev := { s.dev with rxRunning := false } } sec new stopped' :=
  { receiving with
    kept := (took_stop s).kept receiving.kept
    finished := fun _ => ⟨fun _ => .inr does, fun _ => rfl⟩
    stored := List.append_nil new ▸ receiving.stored.append (.nil (.refl _) rfl) }

theorem Receiving.congr {stopped' : Prop} (receiving : Receiving env s₀ s sec new stopped)
    (same : stopped ↔ stopped') : Receiving env s₀ s sec new stopped' :=
  propext same ▸ receiving

theorem Receiving.tryRx (receiving : Receiving env s₀ s sec new stopped)
    (off : ∀ k < (s₀.dev.reg rxdMaxcnt).toNat,
      World.busFind env (s₀.dev.reg rxdPtr + BitVec.ofNat 32 k) = none) {e : SerialEnv}
    (same : e.sec = sec) : ∃ new', Receiving env s₀ (s.tryRx env e) sec (new ++ new') stopped := by
  have room := (s₀.dev.reg rxdMaxcnt).isLt
  have few := receiving.few
  have counted : (s.dev.reg rxdAmount).toNat = new.length := by
    rw [receiving.count, BitVec.toNat_ofNat, Nat.mod_eq_of_lt (by omega)]
  rcases filled_tryRx env receiving.kept.sane e with idle | ⟨runs, new', filled, ends⟩
  · refine ⟨[], ?_⟩
    rw [idle, List.append_nil]
    exact receiving
  · rw [counted, receiving.maxcnt] at filled
    have more := filled.few
    have stored := filled.stored fun k low => by
      rw [receiving.ptr, receiving.count, BitVec.add_assoc, ← BitVec.ofNat_add]
      exact off _ (by omega)
    rw [receiving.ptr, receiving.count, same] at stored
    have count := filled.count
    rw [receiving.count, ← BitVec.ofNat_add] at count
    rw [receiving.maxcnt, count] at ends
    refine ⟨new', ?_⟩
    constructor
    case kept => exact filled.took.kept receiving.kept
    case taken => rw [filled.took.taken, receiving.taken, List.append_assoc]
    case ptr => exact filled.took.ptr.trans receiving.ptr
    case maxcnt => exact filled.took.maxcnt.trans receiving.maxcnt
    case count => rw [count, List.length_append]
    case few =>
      rw [List.length_append]
      omega
    case finished =>
      intro some'
      -- It was running, so nothing has stopped it before.
      have going : ¬ stopped := fun does =>
        absurd (runs.symm.trans ((receiving.finished some').mpr (.inr does))) (by decide)
      rw [ends some', BitVec.le_def, BitVec.toNat_ofNat, Nat.mod_eq_of_lt (by omega),
        List.length_append]
      constructor
      · exact fun full => .inl (by omega)
      · exact fun finished => le_of_eq (finished.resolve_right going).symm
    case stored => exact receiving.stored.append stored

def start (dev : Serial) (w : World δ) (flashes : List SpiDevice) : SerialPort δ :=
  ⟨dev, w, flashes, [], [], []⟩

theorem kept_start (busIndex : Nat) (irq : Irq) (hasUarte connected stdout : Bool) (w : World δ)
    (flashes : List SpiDevice) :
    (start (.register busIndex irq hasUarte connected stdout) w flashes).Kept := by
  cases hasUarte <;> cases stdout <;> exact ⟨fun _ => rfl, rfl⟩

end SerialPort

end M33mu
