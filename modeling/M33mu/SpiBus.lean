import M33mu.Gpio
import M33mu.SpiFlash
import Mathlib.Data.List.Forall2

namespace M33mu

open Lib

namespace SpiFlash

def send (s : SpiFlash) (bytes : List Byte) : SpiFlash :=
  bytes.foldl (fun s out => (s.xfer out).2) s

def transact (s : SpiFlash) (bytes : List Byte) : SpiFlash := (s.send bytes).csDeassert

def rest (s : SpiFlash) : SpiFlash := { s with cmd := 0, addr := 0, addrHave := 0, addrNeed := 0 }

inductive Alike (s t : SpiFlash) : Prop
  | same (eq : s = t) : Alike s t
  | idle (state : s.state = .idle) (state' : t.state = .idle) (rest : s.rest = t.rest) : Alike s t

structure Sound (s : SpiFlash) : Prop where
  dummy : s.state ≠ .read → s.dummyLeft = 0
  program : s.state = .idle ∨ s.state = .statusWrite → s.cmd ≠ 0x02

variable {s t u : SpiFlash}

theorem Alike.refl (s : SpiFlash) : s.Alike s := .same rfl

theorem Alike.symm (alike : s.Alike t) : t.Alike s := by
  cases alike with
  | same eq => exact .same eq.symm
  | idle state state' rest => exact .idle state' state rest.symm

theorem Alike.trans (first : s.Alike t) (second : t.Alike u) : s.Alike u := by
  cases first with
  | same eq => exact eq ▸ second
  | idle state state' rest =>
    cases second with
    | same eq => exact .idle state (eq ▸ state') (eq ▸ rest)
    | idle _ state'' rest' => exact .idle state state'' (rest.trans rest')

theorem Alike.data (alike : s.Alike t) : s.data = t.data := by
  cases alike with
  | same eq => rw [eq]
  | idle _ _ rest =>
    have data : s.rest.data = t.rest.data := congrArg SpiFlash.data rest
    exact data

theorem Alike.xfer (alike : s.Alike t) (out : Byte) : s.xfer out = t.xfer out := by
  cases alike with
  | same eq => rw [eq]
  | idle state state' rest =>
    have command (s : SpiFlash) : s.command out = s.rest.command out := rfl
    rw [SpiFlash.xfer, SpiFlash.xfer, state, state']
    exact (command s).trans ((congrArg (·.command out) rest).trans (command t).symm)

theorem Sound.csDeassert (s : SpiFlash) : s.csDeassert.Sound :=
  ⟨fun _ => rfl, fun _ => (by decide : (0 : Byte) ≠ 0x02)⟩

theorem csDeassert_of_idle (sound : s.Sound) (idle : s.state = .idle) : s.csDeassert = s.rest := by
  have dummy : s.dummyLeft = 0 := sound.dummy (by rw [idle]; exact nofun)
  rw [SpiFlash.csDeassert, if_neg (sound.program (.inl idle)), rest, idle, dummy]

theorem alike_csDeassert (sound : s.Sound) (idle : s.state = .idle) : s.csDeassert.Alike s :=
  .idle rfl idle (by rw [csDeassert_of_idle sound idle]; rfl)

theorem Alike.csDeassert (sound : s.Sound) (sound' : t.Sound) (alike : s.Alike t) :
    s.csDeassert.Alike t.csDeassert := by
  cases alike with
  | same eq => exact .same (by rw [eq])
  | idle state state' rest =>
    exact .same (by rw [csDeassert_of_idle sound state, csDeassert_of_idle sound' state', rest])

theorem erase_kept (s : SpiFlash) (addr size : Word) :
    (s.erase addr size).dummyLeft = s.dummyLeft ∧ (s.erase addr size).cmd = s.cmd := by
  obtain ⟨data, eq⟩ := s.exists_erase_eq addr size
  rw [eq]
  exact ⟨rfl, rfl⟩

theorem Sound.command (sound : s.Sound) (idle : s.state = .idle) (out : Byte) :
    (s.command out).2.Sound := by
  have dummy : s.dummyLeft = 0 := sound.dummy (by rw [idle]; exact nofun)
  by_cases chip : out = 0xC7 ∨ out = 0x60
  · let begun : SpiFlash := { s with cmd := out, addr := 0, addrHave := 0, addrNeed := 0 }
    have erases : (s.command out).2 = begun.erase 0 s.size := by
      rcases chip with rfl | rfl <;> rfl
    obtain ⟨sameDummy, sameCmd⟩ := erase_kept begun 0 s.size
    rw [erases]
    have other : out ≠ 0x02 := by
      rcases chip with rfl | rfl <;> decide
    exact ⟨fun _ => sameDummy.trans dummy, fun _ => sameCmd ▸ other⟩
  · simp only [SpiFlash.command, if_neg chip]
    constructor
    · repeat' split
      all_goals exact fun _ => dummy
    · repeat' split
      all_goals simp_all

theorem Sound.addressed (dummy : s.dummyLeft = 0) : s.addressed.Sound := by
  rw [SpiFlash.addressed]
  split
  · refine ⟨fun other => absurd rfl other, fun none => ?_⟩
    cases none with
    | inl idle => cases idle
    | inr write => cases write
  split
  · refine ⟨fun _ => dummy, fun none => ?_⟩
    cases none with
    | inl idle => cases idle
    | inr write => cases write
  rename_i program
  split
  · obtain ⟨sameDummy, sameCmd⟩ := erase_kept s (s.addr &&& ~~~0xFFF) 0x1000
    exact ⟨fun _ => sameDummy.trans dummy, fun _ => sameCmd ▸ program⟩
  split
  · obtain ⟨sameDummy, sameCmd⟩ := erase_kept s (s.addr &&& ~~~0xFFFF) 0x10000
    exact ⟨fun _ => sameDummy.trans dummy, fun _ => sameCmd ▸ program⟩
  · exact ⟨fun _ => dummy, fun _ => program⟩

theorem Sound.xfer (sound : s.Sound) (out : Byte) : (s.xfer out).2.Sound := by
  rw [SpiFlash.xfer]
  cases state : s.state with
  | idle => exact sound.command state out
  | addr =>
    have dummy : s.dummyLeft = 0 := sound.dummy (by rw [state]; intro is; cases is)
    simp only [addressByte]
    split
    · exact .addressed dummy
    · refine ⟨fun _ => dummy, fun none => ?_⟩
      exact none.elim (fun idle => by cases state.symm.trans idle)
        fun write => by cases state.symm.trans write
  | read =>
    have kept := (readNext_kept s).1.trans state
    refine ⟨fun other => absurd kept other, fun none => ?_⟩
    exact none.elim (fun idle => by cases kept.symm.trans idle)
      fun write => by cases kept.symm.trans write
  | pp =>
    have dummy : s.dummyLeft = 0 := sound.dummy (by rw [state]; intro is; cases is)
    refine ⟨fun _ => dummy, fun none => ?_⟩
    exact none.elim (fun idle => by cases state.symm.trans idle)
      fun write => by cases state.symm.trans write
  | statusRead => exact sound
  | statusWrite =>
    have dummy : s.dummyLeft = 0 := sound.dummy (by rw [state]; intro is; cases is)
    have cmd : s.cmd ≠ 0x02 := sound.program (.inr state)
    cases s.writeEnable <;> exact ⟨fun _ => dummy, fun _ => cmd⟩

theorem Sound.send (sound : s.Sound) (bytes : List Byte) : (s.send bytes).Sound := by
  induction bytes generalizing s with
  | nil => exact sound
  | cons out bytes ih => exact ih (sound.xfer out)

theorem send_append (s : SpiFlash) (bytes : List Byte) (out : Byte) :
    s.send (bytes ++ [out]) = ((s.send bytes).xfer out).2 :=
  List.foldl_append

end SpiFlash

abbrev Banks := Fin 9 → Gpio

/-- `stm32h563_gpio_bank_read`. -/
def Banks.read (banks : Banks) (bank : Nat) : Word :=
  if inside : bank < 9 then (banks ⟨bank, inside⟩).odr else 0

/-- `stm32h563_gpio_bank_read_moder`. -/
def Banks.readModer (banks : Banks) (bank : Nat) : Word :=
  if inside : bank < 9 then (banks ⟨bank, inside⟩).regs.word 0 else 0

/-- A flash as `mm_spiflash_register_cfg` registers it on a bus. -/
structure SpiDevice where
  bus : Nat
  csValid : Bool
  csBank : Nat
  csPin : Nat
  /-- The level when it was last sampled. -/
  csLevel : Bool
  flash : SpiFlash

namespace SpiDevice

/-- A flash with a chip select over the image in its file, in `mm_spiflash_register_cfg`. -/
def register (bus csBank csPin : Nat) (size : Word) (image : Word → Byte) : SpiDevice where
  bus := bus
  csValid := true
  csBank := csBank
  csPin := csPin
  csLevel := true
  flash := .attach size image

def Registered (d : SpiDevice) : Prop :=
  ∃ bus csBank csPin size image, d = register bus csBank csPin size image

def csMask (d : SpiDevice) : Word := if d.csValid then 1 <<< d.csPin else 0

/-- The level of the pin, as `spiflash_sample_cs` finds it. -/
def pinLevel (d : SpiDevice) (banks : Banks) : Bool :=
  let modeBits := banks.readModer d.csBank >>> (d.csPin * 2) &&& 0x3
  if modeBits ≠ 1 then true else banks.read d.csBank &&& d.csMask ≠ 0

/-- `mm_spiflash_set_cs`. -/
def setCs (d : SpiDevice) (level : Bool) : SpiDevice :=
  if !d.csValid then d
  else
    let d' := { d with csLevel := level }
    if d.csLevel = level then d'
    else if level then { d' with flash := d'.flash.csDeassert } else d'

/-- `spiflash_sample_cs`, on a target that reads its GPIO banks. -/
def sampleCs (d : SpiDevice) (banks : Banks) : Bool × SpiDevice :=
  if !d.csValid then (false, d)
  else
    let level := d.pinLevel banks
    (level, if level ≠ d.csLevel then d.setCs level else d)

/-- `spiflash_cs_level`. -/
def sampled (d : SpiDevice) (banks : Banks) : Bool × SpiDevice :=
  if !d.csValid then (false, d) else d.sampleCs banks

/-- `spiflash_bus_xfer`. -/
def busXfer (d : SpiDevice) (banks : Banks) (out : Byte) : Byte × SpiDevice :=
  let (level, d) := d.sampleCs banks
  if d.csValid && level then (0xFF, d)
  else
    let (answer, flash) := d.flash.xfer out
    (answer, { d with flash := flash })

/-- `spiflash_bus_end`. -/
def busEnd (d : SpiDevice) : SpiDevice := { d with flash := d.flash.csDeassert }

end SpiDevice

/-- `spi_bus_select`: the index of the device, and the devices after those before it were sampled.
Every flash has a chip select to sample, so that none is the fallback. -/
def spiBusSelect (banks : Banks) (bus : Nat) : List SpiDevice → Option Nat × List SpiDevice
  | [] => (none, [])
  | d :: ds =>
    if d.bus ≠ bus then
      let (i, ds) := spiBusSelect banks bus ds
      (i.map (· + 1), d :: ds)
    else
      let (level, d) := d.sampled banks
      if level = false then (some 0, d :: ds)
      else
        let (i, ds) := spiBusSelect banks bus ds
        (i.map (· + 1), d :: ds)

/-- `mm_spi_bus_xfer`. -/
def spiBusXfer (banks : Banks) (bus : Nat) (out : Byte) (ds : List SpiDevice) :
    Byte × List SpiDevice :=
  let (i, ds) := spiBusSelect banks bus ds
  match i.bind fun i => ds[i]?.map (i, ·) with
  | none => (0xFF, ds)
  | some (i, d) =>
    let (answer, d) := d.busXfer banks out
    (answer, ds.set i d)

/-- `mm_spi_bus_end`. -/
def spiBusEnd (bus : Nat) (ds : List SpiDevice) : List SpiDevice :=
  ds.map fun d => if d.bus ≠ bus then d else d.busEnd

structure SpiBus where
  banks : Banks
  devices : List SpiDevice

/-- A write to a bank, a byte that a controller clocks on its bus, and the end of a transfer that
a controller announces. -/
inductive SpiEvent
  | gpio (bank : Fin 9) (secAlias : Bool) (offset n value : Word)
  | byte (bus : Nat) (out : Byte)
  | stop (bus : Nat)
  deriving DecidableEq, Repr

namespace SpiBus

def step (s : SpiBus) : SpiEvent → SpiBus
  | .gpio bank secAlias offset n value =>
    let (_, g) := (s.banks bank).write secAlias offset n value
    { s with banks := Function.update s.banks bank g }
  | .byte bus out => { s with devices := (spiBusXfer s.banks bus out s.devices).2 }
  | .stop bus => { s with devices := spiBusEnd bus s.devices }

end SpiBus

def SpiDevice.Selected (d : SpiDevice) (banks : Banks) (bus : Nat) : Prop :=
  d.bus = bus ∧ d.pinLevel banks = false

instance (d : SpiDevice) (banks : Banks) (bus : Nat) : Decidable (d.Selected banks bus) :=
  inferInstanceAs (Decidable (_ ∧ _))

structure Wires where
  /-- The strings that a rising edge ended. -/
  past : List (List Byte)
  /-- The string under way. -/
  current : List Byte
  /-- The flash was in a command when the string began, or was made to leave one since. -/
  cut : Bool
  deriving DecidableEq, Repr

namespace Wires

def quiet : Wires := ⟨[], [], false⟩

def flash (w : Wires) (start : SpiFlash) : SpiFlash :=
  (w.past.foldl SpiFlash.transact start).send w.current

def edge (w : Wires) (before after busy : Bool) : Wires :=
  match before, after with
  | false, true => ⟨w.past ++ [w.current], [], false⟩
  | true, false => { w with current := [], cut := busy }
  | _, _ => w

def stop (w : Wires) (busy : Bool) : Wires :=
  if w.current = [] then { w with cut := false } else { w with cut := w.cut || busy }

def next (w : Wires) (d : SpiDevice) (s : SpiBus) (e : SpiEvent) : Wires :=
  match e with
  | .gpio .. =>
    w.edge (d.pinLevel s.banks) (d.pinLevel (s.step e).banks) (d.flash.state ≠ .idle)
  | .byte bus out => if d.Selected s.banks bus then { w with current := w.current ++ [out] } else w
  | .stop bus => if d.Selected s.banks bus then w.stop (d.flash.state ≠ .idle) else w

end Wires

structure Bench where
  bus : SpiBus
  wires : Nat → Wires

namespace Bench

def start (bus : SpiBus) : Bench := ⟨bus, fun _ => .quiet⟩

def step (b : Bench) (e : SpiEvent) : Bench where
  bus := b.bus.step e
  wires k :=
    match b.bus.devices[k]? with
    | some d => (b.wires k).next d b.bus e
    | none => b.wires k

def Clean (b : Bench) : SpiEvent → Prop
  | .byte bus _ => ∀ k d, b.bus.devices[k]? = some d → d.Selected b.bus.banks bus →
      (b.wires k).cut = false ∧
        ∀ j d', b.bus.devices[j]? = some d' → d'.Selected b.bus.banks bus → j = k
  | _ => True

def Holds (start : List SpiDevice) (b : Bench) : Prop :=
  ∀ k s, start[k]? = some s → ∃ d, b.bus.devices[k]? = some d ∧
    d.flash.data = ((b.wires k).flash s.flash).data

def Answers (start : List SpiDevice) (b : Bench) : SpiEvent → Prop
  | .byte bus out =>
    let answer := (spiBusXfer b.bus.banks bus out b.bus.devices).1
    (∀ k s, start[k]? = some s → s.Selected b.bus.banks bus →
      answer = (((b.wires k).flash s.flash).xfer out).1) ∧
    ((∀ s ∈ start, ¬ s.Selected b.bus.banks bus) → answer = 0xFF)
  | _ => True

end Bench

namespace SpiDevice

variable {d : SpiDevice} {banks : Banks} {bus : Nat}

theorem sampled_of_low (valid : d.csValid = true) (low : d.pinLevel banks = false) :
    d.sampled banks = (false, { d with csLevel := false }) := by
  obtain ⟨_, _, _, _, level, _⟩ := d
  cases valid
  simp only [sampled, sampleCs, low]
  cases level <;> rfl

theorem sampled_of_high (valid : d.csValid = true) (high : d.pinLevel banks = true) :
    d.sampled banks = (true, { d with
      csLevel := true
      flash := if d.csLevel then d.flash else d.flash.csDeassert }) := by
  obtain ⟨_, _, _, _, level, _⟩ := d
  cases valid
  simp only [sampled, sampleCs, high]
  cases level <;> rfl

def Passed (banks : Banks) (d d' : SpiDevice) : Prop := d' = d ∨ d' = (d.sampled banks).2

theorem forall₂_at {R : SpiDevice → SpiDevice → Prop} {ds ds' : List SpiDevice}
    (all : List.Forall₂ R ds ds') {k : Nat} (found : ds[k]? = some d) :
    ∃ d', ds'[k]? = some d' ∧ R d d' := by
  induction all generalizing k with
  | nil => exact nomatch found
  | cons first _ ih =>
    cases k with
    | zero =>
      obtain rfl := Option.some.inj found
      exact ⟨_, rfl, first⟩
    | succ k => exact ih found

theorem selected_iff (valid : d.csValid = true) :
    d.Selected banks bus ↔ d.bus = bus ∧ (d.sampled banks).1 = false := by
  rw [Selected]
  cases level : d.pinLevel banks with
  | false => rw [sampled_of_low valid level]
  | true => rw [sampled_of_high valid level]

theorem spiBusSelect_selected (valid : d.csValid = true) (selected : d.Selected banks bus)
    (ds : List SpiDevice) :
    spiBusSelect banks bus (d :: ds) = (some 0, (d.sampled banks).2 :: ds) := by
  obtain ⟨on, low⟩ := (selected_iff valid).mp selected
  rw [spiBusSelect, if_neg (not_not.mpr on)]
  exact if_pos low

theorem spiBusSelect_passing (valid : d.csValid = true) (passed : ¬ d.Selected banks bus)
    (ds : List SpiDevice) :
    spiBusSelect banks bus (d :: ds) = ((spiBusSelect banks bus ds).1.map (· + 1),
      (if d.bus ≠ bus then d else (d.sampled banks).2) :: (spiBusSelect banks bus ds).2) := by
  rw [spiBusSelect]
  by_cases elsewhere : d.bus ≠ bus
  · rw [if_pos elsewhere, if_pos elsewhere]
  · rw [if_neg elsewhere, if_neg elsewhere]
    exact if_neg fun low => passed ((selected_iff valid).mpr ⟨not_not.mp elsewhere, low⟩)

variable (banks bus) in
theorem spiBusSelect_passed {ds : List SpiDevice} (valid : ∀ d ∈ ds, d.csValid = true) :
    List.Forall₂ (Passed banks) ds (spiBusSelect banks bus ds).2 := by
  induction ds with
  | nil => exact .nil
  | cons d ds ih =>
    have validHere := valid d List.mem_cons_self
    by_cases selected : d.Selected banks bus
    · rw [spiBusSelect_selected validHere selected]
      exact .cons (.inr rfl) (List.forall₂_same.mpr fun _ _ => .inl rfl)
    · rw [spiBusSelect_passing validHere selected]
      refine .cons ?_ (ih fun d member => valid d (List.mem_cons_of_mem _ member))
      by_cases elsewhere : d.bus ≠ bus
      · exact .inl (if_pos elsewhere)
      · exact .inr (if_neg elsewhere)

variable (banks bus) in
theorem spiBusSelect_fst {ds : List SpiDevice} (valid : ∀ d ∈ ds, d.csValid = true) :
    match (spiBusSelect banks bus ds).1 with
    | none => ∀ d ∈ ds, ¬ d.Selected banks bus
    | some i => ∃ d, ds[i]? = some d ∧ d.Selected banks bus ∧
        (spiBusSelect banks bus ds).2[i]? = some (d.sampled banks).2 := by
  induction ds with
  | nil => exact nofun
  | cons d ds ih =>
    have validHere := valid d List.mem_cons_self
    have ih := ih fun d member => valid d (List.mem_cons_of_mem _ member)
    by_cases selected : d.Selected banks bus
    · rw [spiBusSelect_selected validHere selected]
      exact ⟨d, rfl, selected, rfl⟩
    · rw [spiBusSelect_passing validHere selected]
      cases found : (spiBusSelect banks bus ds).1 with
      | none =>
        rw [found] at ih
        intro d' member
        rcases List.mem_cons.mp member with rfl | member
        · exact selected
        · exact ih d' member
      | some i =>
        rw [found] at ih
        exact ih

theorem busXfer_of_selected (valid : d.csValid = true) (selected : d.Selected banks bus)
    (out : Byte) : (d.sampled banks).2.busXfer banks out =
      ((d.flash.xfer out).1, { d with csLevel := false, flash := (d.flash.xfer out).2 }) := by
  have low : ({ d with csLevel := false } : SpiDevice).sampled banks =
      (false, { d with csLevel := false }) :=
    sampled_of_low (d := { d with csLevel := false }) valid selected.2
  have again : ({ d with csLevel := false } : SpiDevice).sampleCs banks =
      (false, { d with csLevel := false }) := by
    rw [sampled, if_neg (by simp [valid])] at low
    exact low
  rw [sampled_of_low valid selected.2, busXfer, again]
  simp only [Bool.and_false, Bool.false_eq_true, if_false]

variable (banks bus) in
theorem spiBusXfer_cases {ds : List SpiDevice} (valid : ∀ d ∈ ds, d.csValid = true) (out : Byte) :
    ((∀ d ∈ ds, ¬ d.Selected banks bus) ∧ (spiBusXfer banks bus out ds).1 = 0xFF ∧
      List.Forall₂ (Passed banks) ds (spiBusXfer banks bus out ds).2) ∨
    ∃ (i : Nat) (d : SpiDevice), ds[i]? = some d ∧ d.Selected banks bus ∧
      (spiBusXfer banks bus out ds).1 = (d.flash.xfer out).1 ∧
      (spiBusXfer banks bus out ds).2[i]? =
        some { d with csLevel := false, flash := (d.flash.xfer out).2 } ∧
      ∀ k ≠ i, ∀ d, ds[k]? = some d →
        ∃ d', (spiBusXfer banks bus out ds).2[k]? = some d' ∧ Passed banks d d' := by
  have first := spiBusSelect_fst banks bus valid
  have passed := spiBusSelect_passed banks bus valid
  rw [spiBusXfer]
  generalize spiBusSelect banks bus ds = chosen at first passed ⊢
  obtain ⟨index, ds'⟩ := chosen
  cases index with
  | none => exact .inl ⟨first, rfl, passed⟩
  | some i =>
    obtain ⟨d, place, selected, place'⟩ := first
    have place' : ds'[i]? = some (d.sampled banks).2 := place'
    have xfer := busXfer_of_selected (valid d (List.mem_of_getElem? place)) selected out
    have inside : i < ds'.length := (List.getElem?_eq_some_iff.mp place').1
    simp only [Option.bind_some, place', Option.map_some, xfer]
    refine .inr ⟨i, d, place, selected, rfl, List.getElem?_set_self inside, ?_⟩
    intro k other d' place''
    rw [List.getElem?_set_ne other.symm]
    exact forall₂_at passed place''

theorem spiBusXfer_length {ds : List SpiDevice} (valid : ∀ d ∈ ds, d.csValid = true) (out : Byte) :
    (spiBusXfer banks bus out ds).2.length = ds.length := by
  have length := (spiBusSelect_passed banks bus valid).length_eq
  rw [spiBusXfer]
  generalize spiBusSelect banks bus ds = chosen at length ⊢
  obtain ⟨index, ds'⟩ := chosen
  simp only
  cases index.bind fun i => ds'[i]?.map (i, ·) with
  | none => exact length.symm
  | some p => exact List.length_set.trans length.symm

/-- A flash beside what its wires saw: equal to what the strings make of it once both have ended
their commands, and before that unless the string under way is cut. -/
structure Follows (s d : SpiDevice) (banks : Banks) (w : Wires) : Prop where
  wired : d = { s with csLevel := d.csLevel, flash := d.flash }
  valid : s.csValid = true
  sound : d.flash.Sound
  ideal : (w.flash s.flash).Sound
  rested : d.flash.csDeassert.Alike (w.flash s.flash).csDeassert
  under : s.pinLevel banks = false → w.cut = false → d.flash.Alike (w.flash s.flash)
  high : s.pinLevel banks = true → w.current = []
  idle : w.current = [] → (w.flash s.flash).state = .idle

variable {s : SpiDevice} {w : Wires}

theorem Follows.pinLevel (follows : s.Follows d banks w) (banks' : Banks) :
    d.pinLevel banks' = s.pinLevel banks' := by
  rw [follows.wired]
  rfl

theorem Follows.selected (follows : s.Follows d banks w) :
    d.Selected banks bus ↔ s.Selected banks bus := by
  rw [follows.wired]
  exact Iff.rfl

theorem follows_start (valid : s.csValid = true) (sound : s.flash.Sound)
    (idle : s.flash.state = .idle) : s.Follows s banks .quiet :=
  ⟨rfl, valid, sound, sound, .refl _, fun _ _ => .refl _, fun _ => rfl, fun _ => idle⟩

theorem Follows.edge (follows : s.Follows d banks w) (banks' : Banks) :
    s.Follows d banks' (w.edge (s.pinLevel banks) (s.pinLevel banks') (d.flash.state ≠ .idle)) := by
  obtain ⟨wired, valid, sound, ideal, rested, under, high, idle⟩ := follows
  cases before : s.pinLevel banks <;> cases after : s.pinLevel banks'
  · refine ⟨wired, valid, sound, ideal, rested, fun _ => under before, fun rises => ?_, idle⟩
    exact nomatch after.symm.trans rises
  · -- the string under way becomes a transaction
    have flash : Wires.flash ⟨w.past ++ [w.current], [], false⟩ s.flash =
        (w.flash s.flash).csDeassert := List.foldl_append
    refine ⟨wired, valid, sound, ?_, ?_, fun low => ?_, fun _ => rfl, fun _ => ?_⟩
    · exact flash ▸ .csDeassert _
    · exact flash ▸ rested
    · exact nomatch after.symm.trans low
    · exact congrArg SpiFlash.state flash
  · have none := high before
    have flash : Wires.flash { w with current := [], cut := decide (d.flash.state ≠ .idle) }
        s.flash = w.flash s.flash := by
      rw [Wires.flash, Wires.flash, none]
    refine ⟨wired, valid, sound, flash ▸ ideal, flash ▸ rested, fun _ whole => ?_, fun _ => rfl,
      fun _ => flash ▸ idle none⟩
    have quiet : d.flash.state = .idle := not_not.mp (decide_eq_false_iff_not.mp whole)
    exact flash ▸ ((SpiFlash.alike_csDeassert sound quiet).symm.trans rested).trans
      (SpiFlash.alike_csDeassert ideal (idle none))
  · refine ⟨wired, valid, sound, ideal, rested, fun low => ?_, fun _ => high before, idle⟩
    exact nomatch after.symm.trans low

theorem Follows.level (follows : s.Follows d banks w) (level : Bool) :
    s.Follows { d with csLevel := level } banks w := by
  obtain ⟨wired, valid, sound, ideal, rested, under, high, idle⟩ := follows
  exact ⟨by rw [wired], valid, sound, ideal, rested, under, high, idle⟩

theorem Follows.rise (follows : s.Follows d banks w) (up : s.pinLevel banks = true) :
    s.Follows d.busEnd banks w := by
  obtain ⟨wired, valid, sound, ideal, rested, under, high, idle⟩ := follows
  refine ⟨by rw [wired]; rfl, valid, .csDeassert _, ideal, rested, fun low => ?_, high, idle⟩
  exact nomatch up.symm.trans low

theorem Follows.passed {d' : SpiDevice} (follows : s.Follows d banks w)
    (passed : d.Passed banks d') : s.Follows d' banks w := by
  have valid : d.csValid = true := by
    rw [follows.wired]
    exact follows.valid
  rcases passed with rfl | rfl
  · exact follows
  cases pin : s.pinLevel banks with
  | false =>
    rw [sampled_of_low valid ((follows.pinLevel banks).trans pin)]
    exact follows.level false
  | true =>
    rw [sampled_of_high valid ((follows.pinLevel banks).trans pin)]
    cases d.csLevel with
    | true => exact follows.level true
    | false => exact (follows.rise pin).level true

theorem Follows.xfer (follows : s.Follows d banks w) (low : s.pinLevel banks = false)
    (whole : w.cut = false) (out : Byte) :
    s.Follows { d with csLevel := false, flash := (d.flash.xfer out).2 } banks
      { w with current := w.current ++ [out] } := by
  obtain ⟨wired, valid, sound, ideal, rested, under, high, idle⟩ := follows
  have flash : Wires.flash { w with current := w.current ++ [out] } s.flash =
      (d.flash.xfer out).2 := by
    rw [(under low whole).xfer out]
    exact SpiFlash.send_append _ _ _
  refine ⟨by rw [wired], valid, sound.xfer out, ?_, ?_, fun _ _ => ?_, fun up => ?_, fun none => ?_⟩
  · exact flash ▸ sound.xfer out
  · exact flash ▸ .refl _
  · exact flash ▸ .refl _
  · exact nomatch low.symm.trans up
  · exact absurd none (List.append_ne_nil_of_right_ne_nil _ (List.cons_ne_nil out []))

theorem Follows.stop (follows : s.Follows d banks w) (bus : Nat) :
    s.Follows (if d.bus ≠ bus then d else d.busEnd) banks
      (if s.Selected banks bus then w.stop (d.flash.state ≠ .idle) else w) := by
  have on : d.bus = s.bus := by rw [follows.wired]
  by_cases elsewhere : d.bus ≠ bus
  · rw [if_pos elsewhere, if_neg fun selected => elsewhere (on.trans selected.1)]
    exact follows
  rw [if_neg elsewhere]
  cases pin : s.pinLevel banks with
  | true =>
    have up : ¬ s.Selected banks bus := fun selected => nomatch pin.symm.trans selected.2
    rw [if_neg up]
    exact follows.rise pin
  | false =>
    rw [if_pos ⟨on.symm.trans (not_not.mp elsewhere), pin⟩, Wires.stop]
    obtain ⟨wired, valid, sound, ideal, rested, under, high, idle⟩ := follows
    have wired' : d.busEnd = { s with csLevel := d.busEnd.csLevel, flash := d.busEnd.flash } := by
      rw [wired]
      rfl
    by_cases none : w.current = []
    · rw [if_pos none]
      refine ⟨wired', valid, .csDeassert _, ideal, rested, fun _ _ => ?_, fun _ => none, idle⟩
      exact rested.trans (SpiFlash.alike_csDeassert ideal (idle none))
    · rw [if_neg none]
      refine ⟨wired', valid, .csDeassert _, ideal, rested, fun low whole => ?_, high, idle⟩
      obtain ⟨uncut, quiet⟩ := Bool.or_eq_false_iff.mp whole
      have quiet : d.flash.state = .idle := not_not.mp (decide_eq_false_iff_not.mp quiet)
      exact (SpiFlash.alike_csDeassert sound quiet).trans (under low uncut)

end SpiDevice

namespace Bench

variable {start : List SpiDevice} {b : Bench}

structure Follows (start : List SpiDevice) (b : Bench) : Prop where
  length : b.bus.devices.length = start.length
  each : ∀ (k : Nat) (s : SpiDevice), start[k]? = some s →
    ∃ d, b.bus.devices[k]? = some d ∧ s.Follows d b.bus.banks (b.wires k)

theorem Follows.find (follows : b.Follows start) {k : Nat} {d : SpiDevice}
    (found : b.bus.devices[k]? = some d) :
    ∃ s, start[k]? = some s ∧ s.Follows d b.bus.banks (b.wires k) := by
  have inside : k < start.length := by
    rw [← follows.length]
    exact (List.getElem?_eq_some_iff.mp found).1
  have first : start[k]? = some start[k] := List.getElem?_eq_getElem inside
  obtain ⟨d', found', here⟩ := follows.each k _ first
  obtain rfl := Option.some.inj (found.symm.trans found')
  exact ⟨_, first, here⟩

theorem Follows.valid (follows : b.Follows start) : ∀ d ∈ b.bus.devices, d.csValid = true := by
  intro d member
  obtain ⟨k, found⟩ := List.mem_iff_getElem?.mp member
  obtain ⟨s, -, here⟩ := follows.find found
  rw [here.wired]
  exact here.valid

theorem Follows.holds (follows : b.Follows start) : b.Holds start := by
  intro k s first
  obtain ⟨d, found, here⟩ := follows.each k s first
  exact ⟨d, found, here.rested.data⟩

theorem step_wires {k : Nat} {d : SpiDevice} (found : b.bus.devices[k]? = some d) (e : SpiEvent) :
    (b.step e).wires k = (b.wires k).next d b.bus e := by
  simp only [step, found]

theorem follows_gpio (follows : b.Follows start) (bank : Fin 9) (secAlias : Bool)
    (offset n value : Word) : (b.step (.gpio bank secAlias offset n value)).Follows start := by
  refine ⟨follows.length, fun k s first => ?_⟩
  obtain ⟨d, found, here⟩ := follows.each k s first
  refine ⟨d, found, ?_⟩
  rw [step_wires found, Wires.next, here.pinLevel, here.pinLevel]
  exact here.edge _

theorem follows_stop (follows : b.Follows start) (bus : Nat) :
    (b.step (.stop bus)).Follows start := by
  refine ⟨(List.length_map _).trans follows.length, fun k s first => ?_⟩
  obtain ⟨d, found, here⟩ := follows.each k s first
  have stopped : (b.step (.stop bus)).bus.devices[k]? =
      some (if d.bus ≠ bus then d else d.busEnd) := by
    have map : (spiBusEnd bus b.bus.devices)[k]? = _ := List.getElem?_map
    exact map.trans (by rw [found]; rfl)
  refine ⟨_, stopped, ?_⟩
  rw [step_wires found, Wires.next]
  simp only [here.selected]
  exact here.stop bus

theorem follows_byte (follows : b.Follows start) {bus : Nat} {out : Byte}
    (clean : b.Clean (.byte bus out)) :
    (b.step (.byte bus out)).Follows start ∧ b.Answers start (.byte bus out) := by
  have length : (b.step (.byte bus out)).bus.devices.length = start.length :=
    (SpiDevice.spiBusXfer_length follows.valid out).trans follows.length
  -- the wires of a flash that is not selected
  have still {k : Nat} {d : SpiDevice} (found : b.bus.devices[k]? = some d)
      (other : ¬ d.Selected b.bus.banks bus) :
      (b.step (.byte bus out)).wires k = b.wires k := by
    rw [step_wires found, Wires.next, if_neg other]
  rcases SpiDevice.spiBusXfer_cases b.bus.banks bus follows.valid out with
    ⟨none, answer, passed⟩ | ⟨i, d, found, selected, answer, taken, others⟩
  · refine ⟨⟨length, fun k s first => ?_⟩, fun k s first selected => ?_, fun _ => answer⟩
    · obtain ⟨d, found, here⟩ := follows.each k s first
      obtain ⟨d', found', pass⟩ := SpiDevice.forall₂_at passed found
      refine ⟨d', found', ?_⟩
      rw [still found (none d (List.mem_of_getElem? found))]
      exact here.passed pass
    · obtain ⟨d, found, here⟩ := follows.each k s first
      exact absurd (here.selected.mpr selected) (none d (List.mem_of_getElem? found))
  · obtain ⟨whole, only⟩ := clean i d found selected
    refine ⟨⟨length, fun k s first => ?_⟩, fun k s first selected' => ?_, fun none => ?_⟩
    · obtain ⟨d', found', here⟩ := follows.each k s first
      by_cases other : k = i
      · subst other
        obtain rfl := Option.some.inj (found.symm.trans found')
        refine ⟨_, taken, ?_⟩
        rw [step_wires found, Wires.next, if_pos selected]
        exact here.xfer (here.selected.mp selected).2 whole out
      · obtain ⟨d'', found'', pass⟩ := others k other d' found'
        refine ⟨d'', found'', ?_⟩
        rw [still found' fun selected' => other (only k d' found' selected')]
        exact here.passed pass
    · obtain ⟨d', found', here⟩ := follows.each k s first
      obtain rfl := only k d' found' (here.selected.mpr selected')
      obtain rfl := Option.some.inj (found.symm.trans found')
      exact answer.trans (congrArg Prod.fst ((here.under selected'.2 whole).xfer out))
    · obtain ⟨s, first, here⟩ := follows.find found
      exact absurd (here.selected.mp selected) (none s (List.mem_of_getElem? first))

theorem follows_step (e : SpiEvent) (follows : b.Follows start) (clean : b.Clean e) :
    (b.step e).Follows start ∧ b.Answers start e := by
  cases e with
  | gpio bank secAlias offset n value =>
    exact ⟨follows_gpio follows bank secAlias offset n value, trivial⟩
  | byte bus out => exact follows_byte follows clean
  | stop bus => exact ⟨follows_stop follows bus, trivial⟩

theorem follows_start {bus : SpiBus} (registered : ∀ d ∈ bus.devices, d.Registered) :
    (Bench.start bus).Follows bus.devices := by
  refine ⟨rfl, fun k s first => ⟨s, first, ?_⟩⟩
  obtain ⟨_, _, _, _, _, rfl⟩ := registered s (List.mem_of_getElem? first)
  refine SpiDevice.follows_start rfl ⟨fun _ => rfl, fun _ => ?_⟩ rfl
  exact (by decide : (0 : Byte) ≠ 0x02)

theorem run_bus (b : Bench) (es : List SpiEvent) :
    (run step b es).bus = run SpiBus.step b.bus es := by
  induction es generalizing b with
  | nil => rfl
  | cons e es ih => exact ih (b.step e)

theorem clean_byte {bus : Nat} (out : Byte) (alone : ∀ k : Fin b.bus.devices.length,
    b.bus.devices[k].Selected b.bus.banks bus → (b.wires k).cut = false ∧
      ∀ j : Fin b.bus.devices.length, b.bus.devices[j].Selected b.bus.banks bus → j = k) :
    b.Clean (.byte bus out) := by
  intro k d found low
  obtain ⟨inside, rfl⟩ := List.getElem?_eq_some_iff.mp found
  obtain ⟨whole, alone⟩ := alone ⟨k, inside⟩ low
  refine ⟨whole, fun j d' found' low' => ?_⟩
  obtain ⟨inside', rfl⟩ := List.getElem?_eq_some_iff.mp found'
  exact congrArg Fin.val (alone ⟨j, inside'⟩ low')

theorem follows_run (follows : b.Follows start) {es : List SpiEvent}
    (clean : Along step Clean b es) :
    Throughout step (Follows start) b es ∧ Along step (Answers start) b es :=
  throughout_and_along (fun _ e now clean => follows_step e now clean) follows clean

end Bench

end M33mu
