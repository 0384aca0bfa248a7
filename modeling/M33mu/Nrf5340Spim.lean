import M33mu.Nrf5340Serial
import M33mu.SpiCells

namespace M33mu

open Lib

namespace Lib

theorem outputs_append {σ : Type u} {ι : Type v} {o : Type w} {step : σ → ι → o × σ} (s : σ)
    (is js : List ι) : outputs step s (is ++ js) =
      outputs step s is ++ outputs step (run (fun s i => (step s i).2) s is) js := by
  induction is generalizing s with
  | nil => rfl
  | cons i is ih => exact congrArg _ (ih (step s i).2)

end Lib

namespace SpiDevice

variable {d : SpiDevice} {banks : Banks} {bus : Nat}

structure Answers (ds : List SpiDevice) (banks : Banks) (bus k : Nat) (d : SpiDevice) : Prop where
  valid : ∀ d ∈ ds, d.csValid = true
  found : ds[k]? = some d
  selected : d.Selected banks bus
  alone : ∀ j ≠ k, ∀ d, ds[j]? = some d → ¬ d.Selected banks bus

theorem Passed.wired {d' : SpiDevice} (passed : Passed banks d d') (valid : d.csValid = true) :
    ∃ level flash, d' = { d with csLevel := level, flash := flash } := by
  cases passed with
  | inl same => exact ⟨d.csLevel, d.flash, same⟩
  | inr sampled =>
    cases level : d.pinLevel banks with
    | false => exact ⟨_, d.flash, sampled.trans (by rw [sampled_of_low valid level])⟩
    | true => exact ⟨_, _, sampled.trans (by rw [sampled_of_high valid level])⟩

theorem Answers.xfer {ds : List SpiDevice} {k : Nat} (answers : Answers ds banks bus k d)
    (out : Byte) : (spiBusXfer banks bus out ds).1 = (d.flash.xfer out).1 ∧
      Answers (spiBusXfer banks bus out ds).2 banks bus k
        { d with csLevel := false, flash := (d.flash.xfer out).2 } := by
  obtain ⟨valid, found, selected, alone⟩ := answers
  rcases spiBusXfer_cases banks bus valid out with ⟨none', -⟩ |
    ⟨i, d', place, low, answer, place', others⟩
  · exact absurd selected (none' d (List.mem_of_getElem? found))
  obtain rfl : i = k := by
    by_contra other
    exact alone i other d' place low
  obtain rfl : d' = d := Option.some.inj (place.symm.trans found)
  have length : (spiBusXfer banks bus out ds).2.length = ds.length := spiBusXfer_length valid out
  have wired (j : Nat) (other : j ≠ i) (d₁ : SpiDevice)
      (found₁ : (spiBusXfer banks bus out ds).2[j]? = some d₁) :
      ∃ d₀ level flash, ds[j]? = some d₀ ∧ d₁ = { d₀ with csLevel := level, flash := flash } := by
    have inside : j < ds.length := length ▸ (List.getElem?_eq_some_iff.mp found₁).1
    have before := List.getElem?_eq_getElem inside
    obtain ⟨d₂, found₂, passed⟩ := others j other _ before
    obtain ⟨level, flash, same⟩ := passed.wired (valid _ (List.getElem_mem inside))
    exact ⟨_, level, flash, before, (Option.some.inj (found₁.symm.trans found₂)).trans same⟩
  refine ⟨answer, ?_, place', selected, fun j other d₁ found₁ => ?_⟩
  · intro d₁ member
    obtain ⟨j, found₁⟩ := List.mem_iff_getElem?.mp member
    by_cases here : j = i
    · subst here
      rw [← Option.some.inj (place'.symm.trans found₁)]
      exact valid d' (List.mem_of_getElem? place)
    · obtain ⟨d₀, level, flash, found₀, rfl⟩ := wired j here d₁ found₁
      exact valid d₀ (List.mem_of_getElem? found₀)
  · obtain ⟨d₀, level, flash, found₀, rfl⟩ := wired j other d₁ found₁
    exact alone j other d₀ found₀

def busStep (banks : Banks) (bus : Nat) (ds : List SpiDevice) (out : Byte) :
    Byte × List SpiDevice := spiBusXfer banks bus out ds

theorem Answers.send {ds : List SpiDevice} {k : Nat} (answers : Answers ds banks bus k d)
    (outs : List Byte) :
    outputs (busStep banks bus) ds outs = outputs SpiFlash.xfer d.flash outs ∧
      ∃ level, Answers (run (fun ds out => (busStep banks bus ds out).2) ds outs) banks bus k
        { d with csLevel := level, flash := d.flash.send outs } := by
  induction outs generalizing ds d with
  | nil => exact ⟨rfl, d.csLevel, answers⟩
  | cons out outs ih =>
    obtain ⟨first, answers'⟩ := answers.xfer out
    obtain ⟨rest, level, last⟩ := ih answers'
    exact ⟨congrArg₂ List.cons first rest, level, last⟩

end SpiDevice

namespace SerialPort

open Serial

variable {δ : Type u} {env : Env δ} {s₀ s : SerialPort δ} {e : SerialEnv}

def spimData (env : Env δ) (s : SerialPort δ) (e : SerialEnv) (i : Nat) : Byte :=
  let orc := (s.dev.reg orc).setWidth 8
  if i < (s.dev.reg txdMaxcnt).toNat then
    ((s.world.dmaSource env e.sec (s.dev.reg txdPtr + BitVec.ofNat 32 i)).map
      s.world.map.bytes).getD orc
  else orc

def spimOuts (env : Env δ) (s : SerialPort δ) (e : SerialEnv) (n : Nat) : List Byte :=
  (List.range n).map (s.spimData env e)

def spimAnswers (env : Env δ) (s : SerialPort δ) (e : SerialEnv) (n : Nat) : List Byte :=
  outputs (SpiDevice.busStep e.banks s.dev.busIndex) s.flashes (s.spimOuts env e n)

def spimTotal (s : SerialPort δ) : Nat :=
  max (s.dev.reg txdMaxcnt).toNat (s.dev.reg rxdMaxcnt).toNat

/-- The buffers are at addresses where no device on the bus answers, and no byte is received over
one that is still to be sent. -/
structure SpimReady (env : Env δ) (s : SerialPort δ) (e : SerialEnv) : Prop where
  offTx : ∀ i < (s.dev.reg txdMaxcnt).toNat,
    World.busFind env (s.dev.reg txdPtr + BitVec.ofNat 32 i) = none
  offRx : ∀ i < (s.dev.reg rxdMaxcnt).toNat,
    World.busFind env (s.dev.reg rxdPtr + BitVec.ofNat 32 i) = none
  ahead : ∀ i < (s.dev.reg txdMaxcnt).toNat, ∀ j < i, j < (s.dev.reg rxdMaxcnt).toNat → ∀ p,
    s.world.dmaSource env e.sec (s.dev.reg txdPtr + BitVec.ofNat 32 i) = some p →
      s.world.dmaPlace env e.sec (s.dev.reg rxdPtr + BitVec.ofNat 32 j) ≠ some p

structure Exchanged (env : Env δ) (s₀ s : SerialPort δ) (e : SerialEnv) (n : Nat) : Prop where
  same : s = { s₀ with world := s.world, flashes := s.flashes }
  flashes : s.flashes = run (fun ds out => (SpiDevice.busStep e.banks s₀.dev.busIndex ds out).2)
    s₀.flashes (s₀.spimOuts env e n)
  stored : s₀.world.Stored env s.world e.sec (s₀.dev.reg rxdPtr)
    ((s₀.spimAnswers env e n).take (s₀.dev.reg rxdMaxcnt).toNat)

theorem spimOuts_succ (s : SerialPort δ) (n : Nat) :
    s.spimOuts env e (n + 1) = s.spimOuts env e n ++ [s.spimData env e n] := by
  rw [spimOuts, List.range_succ, List.map_append]
  rfl

variable (env e) in
theorem length_spimAnswers (s : SerialPort δ) (n : Nat) : (s.spimAnswers env e n).length = n := by
  rw [spimAnswers, length_outputs, spimOuts, List.length_map, List.length_range]

theorem exchanged_start (s : SerialPort δ) : s.Exchanged env s e 0 where
  same := rfl
  flashes := rfl
  stored := by
    have none' : s.spimAnswers env e 0 = [] := rfl
    rw [none', List.take_nil]
    exact .nil (.refl _) rfl

theorem ofNat_lt_iff {n : Nat} {v : Word} (low : n < 2 ^ 32) :
    BitVec.ofNat 32 n < v ↔ n < v.toNat := by
  rw [BitVec.lt_def, BitVec.toNat_ofNat, Nat.mod_eq_of_lt low]

theorem spimOut_eq (ready : s₀.SpimReady env e) {n : Nat} (low : n < 2 ^ 32)
    (sofar : s₀.Exchanged env s e n) :
    ∃ w, s.spimOut env e (BitVec.ofNat 32 n) = (s₀.spimData env e n, { s with world := w }) ∧
      s.world.Touched env w ∧ w.map = s.world.map := by
  have dev : s.dev = s₀.dev := by rw [sofar.same]
  rw [spimOut, spimData, dev]
  by_cases inside : n < (s₀.dev.reg txdMaxcnt).toNat
  · obtain ⟨read, touched, map⟩ := World.dma_read8 s.world e.sec (ready.offTx n inside)
    refine ⟨_, ?_, touched, map⟩
    rw [if_pos ((ofNat_lt_iff low).mpr inside), if_pos inside]
    refine Prod.ext ?_ rfl
    dsimp only
    rw [read, sofar.stored.touched.dmaSource]
    cases source : s₀.world.dmaSource env e.sec (s₀.dev.reg txdPtr + BitVec.ofNat 32 n) with
    | none => rfl
    | some p =>
      have same : s.world.map.bytes p = s₀.world.map.bytes p := by
        refine sofar.stored.kept fun k below => ?_
        rw [List.length_take, length_spimAnswers, Nat.lt_min] at below
        exact ready.ahead n inside k below.2 below.1 p source
      rw [Option.map_some, Option.map_some, same]
  · refine ⟨s.world, ?_, .refl _, rfl⟩
    rw [if_neg fun less => inside ((ofNat_lt_iff low).mp less), if_neg inside, ← dev]

theorem exchanged_byte (ready : s₀.SpimReady env e) {n : Nat} (low : n < 2 ^ 32)
    (sofar : s₀.Exchanged env s e n) :
    s₀.Exchanged env (s.spimByte env e (BitVec.ofNat 32 n)) e (n + 1) := by
  obtain ⟨w, sent, touched, map⟩ := spimOut_eq ready low sofar
  have dev : s.dev = s₀.dev := by rw [sofar.same]
  have length := length_spimAnswers env e s₀ n
  have next : s₀.spimAnswers env e (n + 1) = s₀.spimAnswers env e n ++
      [(spiBusXfer e.banks s₀.dev.busIndex (s₀.spimData env e n) s.flashes).1] := by
    rw [spimAnswers, spimOuts_succ, outputs_append, ← sofar.flashes]
    rfl
  have flashes : (spiBusXfer e.banks s₀.dev.busIndex (s₀.spimData env e n) s.flashes).2 =
      run (fun ds out => (SpiDevice.busStep e.banks s₀.dev.busIndex ds out).2) s₀.flashes
        (s₀.spimOuts env e (n + 1)) := by
    rw [spimOuts_succ, run_append, ← sofar.flashes]
    rfl
  have stored := sofar.stored.with touched map
  simp only [spimByte, sent, dev]
  by_cases inside : n < (s₀.dev.reg rxdMaxcnt).toNat
  · rw [if_pos ((ofNat_lt_iff low).mpr inside)]
    refine ⟨by rw [sofar.same], flashes, ?_⟩
    rw [next, List.take_of_length_le (by rw [List.length_append, length]; exact inside)]
    rw [List.take_of_length_le (by rw [length]; exact Nat.le_of_lt inside)] at stored
    have written := stored.write8 (by rw [length]; exact ready.offRx n inside)
    rw [length] at written
    exact written _
  · rw [if_neg fun less => inside ((ofNat_lt_iff low).mp less)]
    refine ⟨by rw [sofar.same], flashes, ?_⟩
    rwa [next, List.take_append_of_le_length (by rw [length]; exact Nat.le_of_not_lt inside)]

theorem exchanged_loop (ready : s₀.SpimReady env e) {i : Nat} (n : Nat) (low : i + n < 2 ^ 32)
    (sofar : s₀.Exchanged env s e i) :
    s₀.Exchanged env (s.spimLoop env e (BitVec.ofNat 32 i) n) e (i + n) := by
  induction n generalizing i s with
  | zero => exact sofar
  | succ n ih =>
    have next : BitVec.ofNat 32 i + 1 = BitVec.ofNat 32 (i + 1) := (BitVec.ofNat_add i 1).symm
    have done := ih (i := i + 1) (by omega) (exchanged_byte ready (by omega) sofar)
    rw [spimLoop, next]
    rwa [Nat.add_right_comm] at done

def spimDone (s : Serial) : Serial :=
  ((((s.setReg txdAmount (s.reg txdMaxcnt)).setReg rxdAmount (s.reg rxdMaxcnt)).setReg
    eventsEndtx 1).setReg eventsEndrx 1).setReg spimEventsEnd 1

theorem spimEnd_eq (s : SerialPort δ) : ∃ nvic, s.spimEnd =
    { s with
      dev := spimDone s.dev
      world := { s.world with nvic := nvic }
      flashes := spiBusEnd s.dev.busIndex s.flashes } := by
  rw [spimEnd]
  dsimp only
  obtain ⟨nvic₁, first⟩ := eventSet_eq { s with
    dev := (s.dev.setReg txdAmount (s.dev.reg txdMaxcnt)).setReg rxdAmount
      (s.dev.reg rxdMaxcnt) } eventsEndtx intEndtx
  rw [first]
  generalize eq : ({ s with dev := _, world := _ } : SerialPort δ) = s₁
  obtain ⟨nvic₂, second⟩ := eventSet_eq s₁ eventsEndrx intEndrx
  rw [second]
  generalize eq' : ({ s₁ with dev := _, world := _ } : SerialPort δ) = s₂
  obtain ⟨nvic₃, third⟩ := eventSet_eq s₂ spimEventsEnd (intEndtx ||| intEndrx)
  rw [third, ← eq', ← eq]
  exact ⟨nvic₃, rfl⟩

def endEvents : List Word := [eventsEndtx, eventsEndrx, spimEventsEnd]

theorem spimDone_counts (s : Serial) : (spimDone s).reg txdAmount = s.reg txdMaxcnt ∧
    (spimDone s).reg rxdAmount = s.reg rxdMaxcnt ∧
    ∀ event ∈ endEvents, (spimDone s).reg event = 1 := by
  refine ⟨?_, ?_, ?_⟩
  · rw [spimDone, reg_setReg_of_ne _ _ (by decide), reg_setReg_of_ne _ _ (by decide),
      reg_setReg_of_ne _ _ (by decide), reg_setReg_of_ne _ _ (by decide), reg_setReg_self]
  · rw [spimDone, reg_setReg_of_ne _ _ (by decide), reg_setReg_of_ne _ _ (by decide),
      reg_setReg_of_ne _ _ (by decide), reg_setReg_self]
  · simp only [endEvents, List.forall_mem_cons]
    refine ⟨?_, ?_, reg_setReg_self .., List.forall_mem_nil _⟩
    · rw [spimDone, reg_setReg_of_ne _ _ (by decide), reg_setReg_of_ne _ _ (by decide),
        reg_setReg_self]
    · rw [spimDone, reg_setReg_of_ne _ _ (by decide), reg_setReg_self]

structure Transferred (env : Env δ) (s s' : SerialPort δ) (e : SerialEnv) : Prop where
  flashes : s'.flashes = spiBusEnd s.dev.busIndex
    (run (fun ds out => (SpiDevice.busStep e.banks s.dev.busIndex ds out).2) s.flashes
      (s.spimOuts env e s.spimTotal))
  stored : s.world.Stored env s'.world e.sec (s.dev.reg rxdPtr)
    ((s.spimAnswers env e s.spimTotal).take (s.dev.reg rxdMaxcnt).toNat)
  txd : s'.dev.reg txdAmount = s.dev.reg txdMaxcnt
  rxd : s'.dev.reg rxdAmount = s.dev.reg rxdMaxcnt
  done : ∀ event ∈ endEvents, s'.dev.reg event = 1

theorem spimRun_transfers (running : e.hfRunning = true) (role : s.dev.enabled enableSpim = true)
    (ready : s.SpimReady env e) : Transferred env s (s.spimRun env e) e := by
  have rounds : (if s.dev.reg rxdMaxcnt < s.dev.reg txdMaxcnt then s.dev.reg txdMaxcnt
      else s.dev.reg rxdMaxcnt).toNat = s.spimTotal := by
    simp only [spimTotal, BitVec.lt_def]
    split <;> omega
  have few : 0 + s.spimTotal < 2 ^ 32 := by
    have tx := (s.dev.reg txdMaxcnt).isLt
    have rx := (s.dev.reg rxdMaxcnt).isLt
    rw [spimTotal]
    omega
  have done := exchanged_loop ready s.spimTotal few (exchanged_start s)
  have start : BitVec.ofNat 32 0 = 0 := rfl
  rw [Nat.zero_add, start] at done
  rw [spimRun, if_neg (by simp [running, role])]
  simp only [rounds]
  generalize s.spimLoop env e 0 s.spimTotal = s₁ at done
  have dev : s₁.dev = s.dev := by rw [done.same]
  obtain ⟨nvic, ended⟩ := spimEnd_eq s₁
  obtain ⟨txd, rxd, last⟩ := spimDone_counts s.dev
  rw [ended]
  simp only [dev]
  exact ⟨by rw [done.flashes], done.stored.with (touched_nvic _ nvic) rfl, txd, rxd, last⟩

theorem write_spimStart (s : SerialPort δ) (e : SerialEnv) {value : Word} (go : value &&& 1 ≠ 0) :
    s.write env e spimStart 4 value = (true, s.spimRun env e) := by
  have goes : s.task env e spimStart value = some (s.spimRun env e) := by
    rw [task, if_neg (by decide), if_neg (by decide), if_neg (by decide), if_neg (by decide),
      if_neg (by decide), if_pos rfl, if_pos go]
  rw [write, if_neg (by decide), if_neg (by decide)]
  dsimp only
  rw [if_neg (by decide), if_neg (by decide), if_neg (by decide), goes]

def spimBoard : SerialPort Unit where
  dev :=
    { regs offset :=
        if offset = enable / 4 then enableSpim
        else if offset = txdPtr / 4 ∨ offset = rxdPtr / 4 then 0x20000000
        else if offset = txdMaxcnt / 4 then 4
        else if offset = rxdMaxcnt / 4 then 5
        else 0
      busIndex := 0
      irq := ⟨8, by decide⟩
      hasUarte := true
      rxRunning := false
      io := .init }
  world := { Board.world with map := { Board.map with
    ram := some fun off => if off = 0 then 0x03 else if off = 3 then 0x10 else 0 } }
  flashes := [.register 0 0 4 0x1000 fun off => off.setWidth 8]
  out := []
  heard := []
  taken := []

def spimPins : SerialEnv where
  sec := .secure
  hfRunning := true
  banks i := ⟨RegFile.zero.setWord 0 0x100, 1, i⟩
  writes := []

theorem spimBoard_ready : spimBoard.SpimReady Board.env spimPins := by
  have apart : ∀ i < 4, ∀ j < i, spimBoard.world.dmaSource Board.env .secure
      (0x20000000 + BitVec.ofNat 32 i) ≠ spimBoard.world.dmaPlace Board.env .secure
      (0x20000000 + BitVec.ofNat 32 j) := by decide
  exact ⟨fun _ _ => rfl, fun _ _ => rfl, fun i low j below _ _ source place =>
    apart i low j below (source.trans place.symm)⟩

theorem spimBoard_answers : SpiDevice.Answers spimBoard.flashes spimPins.banks
    spimBoard.dev.busIndex 0 (.register 0 0 4 0x1000 fun off => off.setWidth 8) := by
  refine ⟨fun d member => ?_, rfl, ⟨rfl, by decide⟩, fun j other d found => ?_⟩
  · rw [List.mem_singleton.mp member]
    rfl
  · obtain ⟨inside, -⟩ := List.getElem?_eq_some_iff.mp found
    exact absurd (Nat.lt_one_iff.mp inside) other

end SerialPort

namespace SpiFlash

theorem outputs_reading {t : SpiFlash} (state : t.state = .read) (op : t.cmd = 0x03)
    (dummy : t.dummyLeft = 0) (accepted : t.size ≠ 0) (outs : List Byte) {k : Nat}
    (below : k < outs.length) : (outputs xfer t outs)[k]? =
      some (t.data ((t.addr + BitVec.ofNat 32 k) % t.size)) := by
  induction outs generalizing t k with
  | nil => exact absurd below (Nat.not_lt_zero k)
  | cons out outs ih =>
    have reads : t.xfer out = t.readNext := by
      rw [xfer, state]
    have next : t.xfer out = (t.data (t.addr % t.size), { t with addr := t.addr + 1 }) := by
      rw [reads, readNext, if_neg (by rw [op]; decide), if_neg (by rw [dummy]; decide), readByte,
        if_neg accepted]
    rw [outputs, next]
    cases k with
    | zero => rw [List.getElem?_cons_zero, BitVec.add_zero]
    | succ k =>
      rw [List.getElem?_cons_succ, ih (t := { t with addr := t.addr + 1 }) state op dummy accepted
        (Nat.lt_of_succ_lt_succ below), Memmap.add_ofNat_succ]

theorem outputs_read_command {s : SpiFlash} (idle : s.state = .idle) (accepted : s.size ≠ 0)
    (a b c : Byte) (outs : List Byte) {k : Nat} (below : k < outs.length) :
    (outputs xfer s ([0x03, a, b, c] ++ outs))[4 + k]? =
      some (s.data ((addressOf a b c + BitVec.ofNat 32 k) % s.size)) := by
  obtain ⟨t, sent, op, addr, -, size, data, -⟩ := send_address idle (.inl rfl) a b c
  have reads : t.addressed = { t with dummyLeft := 0, state := .read } := by
    rw [addressed, op]
    rfl
  have answer := outputs_reading (t := { t with dummyLeft := 0, state := .read }) rfl op rfl
    (size ▸ accepted) outs below
  have after : run (fun s i => (xfer s i).2) s [0x03, a, b, c] =
      { t with dummyLeft := 0, state := .read } := sent.trans reads
  rw [outputs_append, after, List.getElem?_append_right (Nat.le_add_right 4 k)]
  have four : (outputs xfer s [0x03, a, b, c]).length = 4 := length_outputs ..
  rw [four, Nat.add_sub_cancel_left, answer, addr, size, data]

end SpiFlash

namespace SerialPort

open Serial

variable {δ : Type u} {env : Env δ} {s : SerialPort δ} {e : SerialEnv}

variable (env e) in
theorem spimOuts_add (s : SerialPort δ) (m n : Nat) : ∃ rest : List Byte, rest.length = n ∧
    s.spimOuts env e (m + n) = s.spimOuts env e m ++ rest := by
  refine ⟨((List.range n).map (m + ·)).map (s.spimData env e), ?_, ?_⟩
  · rw [List.length_map, List.length_map, List.length_range]
  · rw [spimOuts, List.range_add, List.map_append]
    rfl

/-- READ from the selected flash: behind the four bytes of the command, memory has the contents of
the flash. -/
theorem spim_reads_flash {value : Word} (go : value &&& 1 ≠ 0)
    (running : e.hfRunning = true) (role : s.dev.enabled enableSpim = true)
    (ready : s.SpimReady env e) {k : Nat} {d : SpiDevice}
    (answers : SpiDevice.Answers s.flashes e.banks s.dev.busIndex k d)
    (idle : d.flash.state = .idle) (accepted : d.flash.size ≠ 0) {a b c : Byte}
    (command : s.spimOuts env e 4 = [0x03, a, b, c]) {j : Nat} {p : Buffer × Word}
    (inside : 4 + j < (s.dev.reg rxdMaxcnt).toNat)
    (place : s.world.dmaPlace env e.sec (s.dev.reg rxdPtr + BitVec.ofNat 32 (4 + j)) = some p)
    (last : ∀ i, 4 + j < i → i < (s.dev.reg rxdMaxcnt).toNat →
      s.world.dmaPlace env e.sec (s.dev.reg rxdPtr + BitVec.ofNat 32 i) ≠ some p) :
    (s.write env e spimStart 4 value).2.world.map.bytes p =
      d.flash.data ((SpiFlash.addressOf a b c + BitVec.ofNat 32 j) % d.flash.size) := by
  have stored := (spimRun_transfers running role ready).stored
  rw [spimAnswers, (answers.send _).1] at stored
  have total : (s.dev.reg rxdMaxcnt).toNat ≤ s.spimTotal := Nat.le_max_right ..
  obtain ⟨rest, length, outs⟩ := spimOuts_add env e s 4 (s.spimTotal - 4)
  rw [Nat.add_sub_cancel' (by omega), command] at outs
  rw [write_spimStart s e go]
  refine stored.byte place ?_ fun i below later => last i later ?_
  · rw [List.getElem?_take_of_lt inside, outs]
    exact SpiFlash.outputs_read_command idle accepted a b c rest (by omega)
  · rw [List.length_take] at below
    exact Nat.lt_of_lt_of_le below (Nat.min_le_left ..)

theorem spim_reads_flash_byte :
    (spimBoard.write Board.env spimPins spimStart 4 1).2.world.map.bytes (.ram, 4) = 0x10 :=
  spim_reads_flash (a := 0) (b := 0) (c := 0x10) (j := 0) (p := (.ram, 4))
    (show (1 : Word) &&& 1 ≠ 0 by decide) rfl (by decide) spimBoard_ready spimBoard_answers rfl
    (by decide) (by decide) (by decide) (by decide)
    fun _ above below => absurd above (Nat.not_lt.mpr (Nat.le_of_lt_succ below))

end SerialPort

end M33mu
