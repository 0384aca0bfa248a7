import M33mu.MapBounds
import M33mu.StoreSeen

/-!
The byte paths of the memory map, `mm_memmap_read8` and `mm_memmap_write8`, beside the sized ones.
-/

namespace M33mu

namespace Window

theorem admits_one_iff {v : Window} {addr : Word} (low : ¬ v.Wraps addr 1) :
    v.Admits addr 1 ↔ v.base ≤ addr ∧ addr - v.base < v.limit := by
  have one : (1 : Word).toNat = 1 := rfl
  rw [Wraps, one] at low
  rw [Admits, BitVec.le_def (x := addr - v.base + 1), BitVec.lt_def, BitVec.toNat_add, one]
  have := v.limit.isLt
  constructor
  · rintro ⟨above, below⟩
    exact ⟨above, by omega⟩
  · rintro ⟨above, below⟩
    exact ⟨above, by omega⟩

theorem not_wraps_of_below {v : Window} {addr : Word} (below : addr - v.base < v.limit) :
    ¬ v.Wraps addr 1 := by
  have one : (1 : Word).toNat = 1 := rfl
  rw [BitVec.lt_def] at below
  rw [Wraps, one]
  have := v.limit.isLt
  omega

end Window

theorem byte_back (b : Byte) : (b.setWidth 32).setWidth 8 = b := by
  simp

namespace Memmap

/-- The flash part of `mm_memmap_read8`. -/
def flashByte (m : Memmap) (addr : Word) : Option Byte :=
  m.flash.bind fun buf => m.flashWindows.findSome? fun (base, limit) =>
    if base ≤ addr ∧ addr - base < limit then some (buf (addr - base)) else none

def ramByte (m : Memmap) (addr : Word) : Option Byte :=
  m.ram.bind fun buf => (m.ramOffsetForAddr addr 1).map buf

def WrapsFirst (m : Memmap) (addr : Word) : Prop :=
  m.flash.isSome ∧ ∃ v, firstView m.flashViews addr 1 = some v ∧ v.Wraps addr 1

theorem ramByte_eq (m : Memmap) (addr : Word) :
    m.ramByte addr = (m.readRam addr 1).map (·.setWidth 8) := by
  rw [ramByte, readRam]
  cases m.ram with
  | none => rfl
  | some buf =>
    cases m.ramOffsetForAddr addr 1 with
    | none => rfl
    | some off => exact congrArg some (byte_back (buf off)).symm

theorem flashBytes_eq (buf : Word → Byte) (windows : List (Word × Word)) {addr : Word}
    (low : ∀ v ∈ firstView (windows.map fun (base, limit) => ⟨base, limit, 0⟩) addr 1,
      ¬ v.Wraps addr 1) :
    (windows.findSome? fun (base, limit) =>
        if base ≤ addr ∧ addr - base < limit then some (buf (addr - base)) else none) =
      ((windows.filterMap fun (base, limit) => offsetIn base limit addr 1).findSome? fun off =>
        readBufLe buf off 1).map (·.setWidth 8) := by
  induction windows with
  | nil => rfl
  | cons window windows ih =>
    obtain ⟨base, limit⟩ := window
    rw [List.map_cons, firstView_cons] at low
    rw [List.findSome?_cons, List.filterMap_cons]
    by_cases admits : (⟨base, limit, 0⟩ : Window).Admits addr 1
    · rw [if_pos admits] at low
      have inside := (Window.admits_one_iff (low _ rfl)).mp admits
      have here : offsetIn base limit addr 1 = some (addr - base) :=
        Window.offsetIn_of_admits admits
      simp only [here, if_pos inside]
      exact congrArg some (byte_back (buf (addr - base))).symm
    · rw [if_neg admits] at low
      have outside : ¬ (base ≤ addr ∧ addr - base < limit) := by
        rintro ⟨above, below⟩
        exact admits ((Window.admits_one_iff (Window.not_wraps_of_below below)).mpr ⟨above, below⟩)
      have here : offsetIn base limit addr 1 = none := Window.offsetIn_of_not admits
      simp only [here, if_neg outside]
      exact ih low

theorem flashByte_eq {m : Memmap} {addr : Word} (low : ¬ m.WrapsFirst addr) :
    m.flashByte addr = (m.readFlash addr 1).map (·.setWidth 8) := by
  rw [flashByte, readFlash]
  cases flash : m.flash with
  | none => rfl
  | some buf =>
    refine flashBytes_eq buf m.flashWindows fun v first wraps => low ⟨?_, v, first, wraps⟩
    rw [flash]
    rfl

theorem byte_eq_load {m : Memmap} {addr : Word} (low : ¬ m.WrapsFirst addr) :
    (m.flashByte addr <|> m.ramByte addr) = (m.load addr 1).map (·.setWidth 8) := by
  rw [flashByte_eq low, ramByte_eq, load]
  cases m.readFlash addr 1 <;> rfl

end Memmap

namespace World

variable {δ : Type u}

theorem interceptOk_activeSec (env : Env δ) (w : World δ) (type : AccessType) (sec : SecState)
    (addr size : Word) : (w.interceptOk env type sec addr size).2.activeSec = w.activeSec := by
  simp only [interceptOk]
  split <;> rfl

def SameRead (env : Env δ) (w : World δ) (sec : SecState) (addr : Word) : Prop :=
  let (v, w') := w.read env sec addr 1
  w.read8 env sec addr = (v.map (·.setWidth 8), w')

def SameWrite (env : Env δ) (w : World δ) (sec : SecState) (addr : Word) (value : Byte) : Prop :=
  w.write8 env sec addr value = w.write env sec addr 1 (value.setWidth 32)

variable (env : Env δ) (w : World δ) (sec : SecState) (addr : Word)

def ReadsAlike : Prop :=
  (w.interceptOk env .read sec addr 1).1 = false ∨
    ¬ w.map.WrapsFirst addr ∧ (w.map.readTaken addr 1 ≠ none ∨ w.activeSec = sec)

def WritesAlike : Prop :=
  (w.interceptOk env .write sec addr 1).1 = false ∨
    ¬ w.ProgramsFlash env addr 1 ∧ (w.map.ramTaken addr 1 ≠ none ∨
      w.activeSec = sec ∧ ¬ (0xE000E000 ≤ addr ∧ addr < 0xE0010000))

variable {env w sec addr}

variable (env w sec addr) in
theorem interceptOk_one (type : AccessType) : ∃ w' : World δ,
    w.interceptOk env type sec addr 1 = ((w.interceptOk env type sec addr 1).1, w') ∧
      w'.map = w.map ∧ w'.activeSec = w.activeSec :=
  ⟨_, rfl, interceptOk_map env w type sec addr 1, interceptOk_activeSec env w type sec addr 1⟩

variable {w' : World δ}

theorem read8_granted (granted : w.interceptOk env .read sec addr 1 = (true, w')) :
    w.read8 env sec addr =
      match w'.map.flashByte addr <|> w'.map.ramByte addr with
      | some b => (some b, w')
      | none =>
        let (v, w'') := w'.busRead env addr 1
        (v.map (·.setWidth 8), w'') := by
  rw [read8, granted]
  rfl

theorem read_granted_one (granted : w.interceptOk env .read sec addr 1 = (true, w')) :
    w.read env sec addr 1 =
      match w'.map.load addr 1 with
      | some v => (some v, w')
      | none => { w' with activeSec := sec }.busRead env addr 1 := by
  rw [read, granted]
  rfl

theorem load_one_eq_none {m : Memmap} : m.load addr 1 = none ↔ m.readTaken addr 1 = none := by
  rw [Memmap.load_eq m addr (.inl rfl)]
  cases m.readTaken addr 1 with
  | none => exact iff_of_true rfl rfl
  | some t => exact iff_of_false nofun nofun

theorem sameRead_of_alike (alike : w.ReadsAlike env sec addr) : w.SameRead env sec addr := by
  obtain ⟨w', intercepted, map, active⟩ := interceptOk_one env w sec addr .read
  rw [ReadsAlike] at alike
  cases ok : (w.interceptOk env .read sec addr 1).1 with
  | false =>
    rw [ok] at intercepted
    rw [SameRead, read, read8, intercepted]
    rfl
  | true =>
    rw [ok] at intercepted
    obtain ⟨low, found⟩ := alike.resolve_left fun refused => by cases ok.symm.trans refused
    rw [← map] at low found
    rw [SameRead, read_granted_one intercepted, read8_granted intercepted,
      Memmap.byte_eq_load low]
    cases load : w'.map.load addr 1 with
    | some v => rfl
    | none =>
      have same := found.resolve_left fun taken => taken (load_one_eq_none.mp load)
      have unchanged : { w' with activeSec := sec } = w' := by
        rw [← same, ← active]
      rw [unchanged]
      rfl

theorem write8_granted (granted : w.interceptOk env .write sec addr 1 = (true, w'))
    (value : Byte) :
    w.write8 env sec addr value =
      match w'.map.writeRam addr 1 (value.setWidth 32) with
      | some m => (true, { w' with map := m })
      | none => w'.busWrite env addr 1 (value.setWidth 32) := by
  rw [write8, granted]
  rfl

theorem write_granted_one (granted : w.interceptOk env .write sec addr 1 = (true, w'))
    (elsewhere : ¬ w'.ProgramsFlash env addr 1) (value : Word) :
    w.write env sec addr 1 value = w'.writeRamOrBus env sec addr 1 value := by
  rw [write, granted]
  rw [ProgramsFlash] at elsewhere
  cases writer : env.flashWrite with
  | none => rfl
  | some f =>
    rw [writer] at elsewhere
    exact if_neg fun inFlash => elsewhere ⟨rfl, inFlash⟩

theorem write_programs (granted : w.interceptOk env .write sec addr 1 = (true, w'))
    {f : SecState → Word → Word → Word → World δ → Bool × World δ}
    (installed : env.flashWrite = some f) (programs : w'.ProgramsFlash env addr 1) (value : Word) :
    w.write env sec addr 1 value = f sec addr 1 value w' := by
  rw [write, granted, installed]
  exact if_pos programs.2

theorem sameWrite_of_alike (alike : w.WritesAlike env sec addr) (value : Byte) :
    w.SameWrite env sec addr value := by
  obtain ⟨w', intercepted, map, active⟩ := interceptOk_one env w sec addr .write
  rw [WritesAlike] at alike
  cases ok : (w.interceptOk env .write sec addr 1).1 with
  | false =>
    rw [ok] at intercepted
    rw [SameWrite, write, write8, intercepted]
    rfl
  | true =>
    rw [ok] at intercepted
    obtain ⟨elsewhere, found⟩ := alike.resolve_left fun refused => by cases ok.symm.trans refused
    rw [ProgramsFlash, ← map] at elsewhere
    rw [← map] at found
    rw [SameWrite, write_granted_one intercepted elsewhere, write8_granted intercepted,
      writeRamOrBus, Memmap.writeRam_eq _ _ _ (.inl rfl)]
    cases taken : w'.map.ramTaken addr 1 with
    | some t => rfl
    | none =>
      obtain ⟨same, outside⟩ := found.resolve_left fun held => held taken
      have unchanged : { w' with activeSec := sec } = w' := by
        rw [← same, ← active]
      have ignored : (0xE000E000 ≤ addr && addr < 0xE0010000) = false := by
        rw [← Bool.decide_and]
        exact decide_eq_false outside
      rw [unchanged, Option.map_none]
      simp only [ignored, Bool.or_false]

end World

def Env.withDevices {δ : Type u} (env : Env δ) (mmio : List (MmioRegion δ))
    (writer : SecState → Word → Word → Word → World δ → Bool × World δ) : Env δ :=
  { env with mmio := mmio, flashWrite := env.flashWrite.map fun _ => writer }

namespace World

variable {δ : Type u}

def filled (w : World δ) (flash ram : Word → Byte) : World δ :=
  { w with map :=
    { w.map with flash := w.map.flash.map fun _ => flash, ram := w.map.ram.map fun _ => ram } }

def BytesAlike (env : Env δ) (w : World δ) (sec : SecState) (addr : Word) : Prop :=
  ∀ (mmio : List (MmioRegion δ))
    (writer : SecState → Word → Word → Word → World δ → Bool × World δ) (flash ram : Word → Byte),
    (w.filled flash ram).SameRead (env.withDevices mmio writer) sec addr ∧
      ∀ value, (w.filled flash ram).SameWrite (env.withDevices mmio writer) sec addr value

variable {env : Env δ} {w : World δ} {sec : SecState} {addr : Word} (mmio : List (MmioRegion δ))
  (writer : SecState → Word → Word → Word → World δ → Bool × World δ) (flash ram : Word → Byte)

theorem filled_interceptOk (type : AccessType) :
    ((w.filled flash ram).interceptOk (env.withDevices mmio writer) type sec addr 1).1 =
      (w.interceptOk env type sec addr 1).1 :=
  interceptOk_congr w (w.filled flash ram) rfl rfl rfl type sec addr 1

theorem filled_readTaken :
    (w.filled flash ram).map.readTaken addr 1 = w.map.readTaken addr 1 :=
  Memmap.readTaken_buffers w.map Option.isSome_map Option.isSome_map addr 1

theorem filled_ramTaken :
    (w.filled flash ram).map.ramTaken addr 1 = w.map.ramTaken addr 1 :=
  Memmap.ramTaken_buffers w.map Option.isSome_map addr 1

theorem filled_readsAlike :
    (w.filled flash ram).ReadsAlike (env.withDevices mmio writer) sec addr ↔
      w.ReadsAlike env sec addr := by
  rw [ReadsAlike, ReadsAlike, filled_interceptOk, filled_readTaken]
  have present : (w.filled flash ram).map.flash.isSome = w.map.flash.isSome := Option.isSome_map
  rw [Memmap.WrapsFirst, present]
  rfl

theorem filled_writesAlike :
    (w.filled flash ram).WritesAlike (env.withDevices mmio writer) sec addr ↔
      w.WritesAlike env sec addr := by
  rw [WritesAlike, WritesAlike, filled_interceptOk, filled_ramTaken]
  have present : (w.filled flash ram).map.flash.isSome = w.map.flash.isSome := Option.isSome_map
  have installed : (env.withDevices mmio writer).flashWrite.isSome = env.flashWrite.isSome :=
    Option.isSome_map
  rw [ProgramsFlash, present, installed]
  rfl

def secProbe (addr : Word) : MmioRegion δ where
  base := addr
  size := 1
  read _ _ w := (some (if w.activeSec = .secure then 1 else 0), w)
  write _ _ _ w := (w.activeSec = .secure, w)

theorem busFind_probe (addr : Word) :
    busFind (env.withDevices [secProbe addr] writer) addr = some (secProbe addr) := by
  rw [busFind]
  apply List.find?_cons_of_pos
  simp [secProbe]

def marks (i : Word) : Byte := if i = 0xFFFFFFFF then 1 else 0

theorem flashByte_marks {m : Memmap} (held : m.flash = some marks) {b : Byte}
    (found : m.flashByte addr = some b) : b = 0 := by
  rw [Memmap.flashByte, held, Option.bind_some] at found
  obtain ⟨⟨base, limit⟩, -, shown⟩ := List.exists_of_findSome?_eq_some found
  obtain ⟨⟨-, below⟩, marked⟩ := Option.ite_none_right_eq_some.mp shown
  have low : addr - base ≠ 0xFFFFFFFF := by
    intro last
    rw [last] at below
    exact BitVec.not_lt.mpr (BitVec.le_def.mpr (Nat.le_of_lt_succ limit.isLt)) below
  rw [marks, if_neg low] at marked
  exact (Option.some_inj.mp marked).symm

theorem load_marks {m : Memmap} (held : m.flash = some marks) {v : Window}
    (first : firstView m.flashViews addr 1 = some v) (wraps : v.Wraps addr 1) :
    m.load addr 1 = some 1 := by
  obtain ⟨window, -, rfl⟩ := List.mem_map.mp (mem_of_firstView first)
  have last : addr - window.1 = 0xFFFFFFFF := by
    have far : 2 ^ 32 ≤ (addr - window.1).toNat + 1 := wraps
    apply BitVec.eq_of_toNat_eq
    have := (addr - window.1).isLt
    have : (0xFFFFFFFF : Word).toNat = 2 ^ 32 - 1 := rfl
    omega
  have taken : m.readTaken addr 1 = some (.flash, ⟨window.1, window.2, 0⟩) := by
    rw [Memmap.readTaken, Memmap.flashTaken, held, Option.isSome_some, if_pos rfl, first]
    rfl
  rw [Memmap.load_eq m addr (.inl rfl), taken, Option.bind_some, Window.offset, last,
    Memmap.contents, held]
  simp [Memmap.readBufLe, marks]

theorem ramByte_zero {m : Memmap} (held : ∀ buf ∈ m.ram, buf = fun _ => 0) {b : Byte}
    (found : m.ramByte addr = some b) : b = 0 := by
  obtain ⟨buf, has, found⟩ := Option.bind_eq_some_iff.mp found
  obtain ⟨off, -, rfl⟩ := Option.map_eq_some_iff.mp found
  rw [held buf has]

theorem filled_ram {buf : Word → Byte} (has : buf ∈ (w.filled flash ram).map.ram) : buf = ram := by
  obtain ⟨-, -, rfl⟩ := Option.map_eq_some_iff.mp has
  rfl

theorem low_of_sameRead
    (same : (w.filled marks fun _ => 0).SameRead (env.withDevices [] writer) sec addr)
    (ok : (w.interceptOk env .read sec addr 1).1 = true) : ¬ w.map.WrapsFirst addr := by
  rintro ⟨present, v, first, wraps⟩
  obtain ⟨w', intercepted, map, -⟩ :=
    interceptOk_one (env.withDevices [] writer) (w.filled marks fun _ => 0) sec addr .read
  rw [filled_interceptOk, ok] at intercepted
  obtain ⟨buf, has⟩ := Option.isSome_iff_exists.mp present
  have held : (w.filled marks fun _ => 0).map.flash = some marks := by
    rw [filled, has]
    rfl
  rw [SameRead, read_granted_one intercepted, read8_granted intercepted, map,
    load_marks held first wraps] at same
  have value := congrArg Prod.fst same
  cases inFlash : (w.filled marks fun _ => 0).map.flashByte addr with
  | some b =>
    rw [inFlash, flashByte_marks held inFlash] at value
    have value : some (0 : Byte) = some 1 := value
    exact absurd value (by decide)
  | none =>
    cases inRam : (w.filled marks fun _ => 0).map.ramByte addr with
    | some b =>
      rw [inFlash, inRam, ramByte_zero (fun _ => filled_ram _ _) inRam] at value
      have value : some (0 : Byte) = some 1 := value
      exact absurd value (by decide)
    | none =>
      rw [inFlash, inRam] at value
      exact nomatch value

def observed (sec : SecState) : Byte := (if sec = .secure then (1 : Word) else 0).setWidth 8

theorem observed_inj {sec sec' : SecState} (same : observed sec = observed sec') : sec = sec' := by
  cases sec <;> cases sec' <;> first | rfl | exact absurd same (by decide)

theorem found_of_sameRead (low : ¬ w.map.WrapsFirst addr)
    (same : (w.filled flash ram).SameRead (env.withDevices [secProbe addr] writer) sec addr)
    (ok : (w.interceptOk env .read sec addr 1).1 = true) :
    w.map.readTaken addr 1 ≠ none ∨ w.activeSec = sec := by
  by_cases taken : w.map.readTaken addr 1 = none
  · obtain ⟨w', intercepted, map, active⟩ :=
      interceptOk_one (env.withDevices [secProbe addr] writer) (w.filled flash ram) sec addr .read
    rw [filled_interceptOk, ok] at intercepted
    have none : w'.map.load addr 1 = none := by
      rw [load_one_eq_none, map, filled_readTaken, taken]
    have low : ¬ w'.map.WrapsFirst addr := by
      have present : (w.filled flash ram).map.flash.isSome = w.map.flash.isSome :=
        Option.isSome_map
      rw [map, Memmap.WrapsFirst, present]
      exact low
    rw [SameRead, read_granted_one intercepted, read8_granted intercepted,
      Memmap.byte_eq_load low, none] at same
    simp only [Option.map_none, busRead, busFind_probe] at same
    have value : some (observed w'.activeSec) = some (observed sec) := congrArg Prod.fst same
    exact .inr (active.symm.trans (observed_inj (Option.some_inj.mp value)))
  · exact .inl taken

theorem readsAlike_of_sameRead
    (same : ∀ (mmio : List (MmioRegion δ)) (flash ram : Word → Byte),
      (w.filled flash ram).SameRead (env.withDevices mmio writer) sec addr) :
    w.ReadsAlike env sec addr := by
  cases ok : (w.interceptOk env .read sec addr 1).1 with
  | false => exact .inl ok
  | true =>
    have low := low_of_sameRead writer (same [] marks fun _ => 0) ok
    exact .inr ⟨low, found_of_sameRead writer _ _ low (same [secProbe addr] marks marks) ok⟩

theorem elsewhere_of_sameWrite
    (same : ∀ (mmio : List (MmioRegion δ))
      (writer : SecState → Word → Word → Word → World δ → Bool × World δ),
      (w.filled flash ram).SameWrite (env.withDevices mmio writer) sec addr 0)
    (ok : (w.interceptOk env .write sec addr 1).1 = true) : ¬ w.ProgramsFlash env addr 1 := by
  rintro ⟨installed, present, inside⟩
  let writer (_ : SecState) (_ _ _ : Word) (w' : World δ) : Bool × World δ :=
    ((w.map.ramTaken addr 1).isNone, w')
  obtain ⟨w', intercepted, map, -⟩ :=
    interceptOk_one (env.withDevices [] writer) (w.filled flash ram) sec addr .write
  rw [filled_interceptOk, ok] at intercepted
  have programs : w'.ProgramsFlash (env.withDevices [] writer) addr 1 := by
    rw [ProgramsFlash, map]
    exact ⟨Option.isSome_map.trans installed, Option.isSome_map.trans present, inside⟩
  obtain ⟨f, has⟩ := Option.isSome_iff_exists.mp installed
  have given : (env.withDevices [] writer).flashWrite = some writer := by
    rw [Env.withDevices, has]
    rfl
  have alike := same [] writer
  rw [SameWrite, write_programs intercepted given programs, write8_granted intercepted,
    Memmap.writeRam_eq _ _ _ (.inl rfl), map, filled_ramTaken] at alike
  have flag := congrArg Prod.fst alike
  cases taken : w.map.ramTaken addr 1 with
  | none =>
    simp only [taken, writer] at flag
    cases flag
  | some t =>
    simp only [taken, writer] at flag
    cases flag

theorem direct_of_sameWrite
    (elsewhere : ¬ w.ProgramsFlash env addr 1)
    (same : ∀ mmio : List (MmioRegion δ),
      (w.filled flash ram).SameWrite (env.withDevices mmio writer) sec addr 0)
    (ok : (w.interceptOk env .write sec addr 1).1 = true) :
    w.map.ramTaken addr 1 ≠ none ∨
      w.activeSec = sec ∧ ¬ (0xE000E000 ≤ addr ∧ addr < 0xE0010000) := by
  by_cases taken : w.map.ramTaken addr 1 = none
  · have alike (mmio : List (MmioRegion δ)) : ∃ w' : World δ, w'.activeSec = w.activeSec ∧
        w'.busWrite (env.withDevices mmio writer) addr 1 0 =
          (({ w' with activeSec := sec }.busWrite (env.withDevices mmio writer) addr 1 0).1 ||
              (0xE000E000 ≤ addr && addr < 0xE0010000),
            ({ w' with activeSec := sec }.busWrite (env.withDevices mmio writer) addr 1 0).2) := by
      obtain ⟨w', intercepted, map, active⟩ :=
        interceptOk_one (env.withDevices mmio writer) (w.filled flash ram) sec addr .write
      rw [filled_interceptOk, ok] at intercepted
      have away : ¬ w'.ProgramsFlash (env.withDevices mmio writer) addr 1 := by
        rintro ⟨installed, present, inside⟩
        rw [map] at present inside
        exact elsewhere ⟨Option.isSome_map.symm.trans installed,
          Option.isSome_map.symm.trans present, inside⟩
      have untaken : w'.map.ramTaken addr 1 = none := by
        rw [map, filled_ramTaken, taken]
      have alike := same mmio
      rw [SameWrite, write_granted_one intercepted away, write8_granted intercepted,
        writeRamOrBus, Memmap.writeRam_eq _ _ _ (.inl rfl), untaken] at alike
      exact ⟨w', active, alike⟩
    refine .inr ⟨?_, ?_⟩
    · obtain ⟨w', active, written⟩ := alike [secProbe addr]
      simp only [busWrite, busFind_probe] at written
      have activeSec : w' = { w' with activeSec := sec } := congrArg Prod.snd written
      exact active.symm.trans (congrArg World.activeSec activeSec)
    · obtain ⟨w', -, written⟩ := alike []
      intro inside
      have ignored : (0xE000E000 ≤ addr && addr < 0xE0010000) = true := by
        rw [← Bool.decide_and]
        exact decide_eq_true inside
      have flag : false = (false || (0xE000E000 ≤ addr && addr < 0xE0010000)) :=
        congrArg Prod.fst written
      rw [ignored] at flag
      cases flag
  · exact .inl taken

theorem writesAlike_of_sameWrite
    (same : ∀ (mmio : List (MmioRegion δ))
      (writer : SecState → Word → Word → Word → World δ → Bool × World δ),
      (w.filled flash ram).SameWrite (env.withDevices mmio writer) sec addr 0) :
    w.WritesAlike env sec addr := by
  cases ok : (w.interceptOk env .write sec addr 1).1 with
  | false => exact .inl ok
  | true =>
    have elsewhere := elsewhere_of_sameWrite flash ram same ok
    exact .inr ⟨elsewhere, direct_of_sameWrite (fun _ _ _ _ w => (true, w)) flash ram elsewhere
      (fun mmio => same mmio _) ok⟩

/-- Exactly where the byte paths go through the same steps as the sized ones. -/
theorem bytes_alike_iff (env : Env δ) (w : World δ) (sec : SecState) (addr : Word) :
    w.BytesAlike env sec addr ↔ w.ReadsAlike env sec addr ∧ w.WritesAlike env sec addr := by
  constructor
  · intro same
    exact ⟨readsAlike_of_sameRead (fun _ _ _ _ w => (true, w)) fun mmio flash ram =>
        (same mmio _ flash ram).1,
      writesAlike_of_sameWrite marks marks fun mmio writer => (same mmio writer _ _).2 0⟩
  · rintro ⟨reads, writes⟩ mmio writer flash ram
    exact ⟨sameRead_of_alike ((filled_readsAlike mmio writer flash ram).mpr reads),
      sameWrite_of_alike ((filled_writesAlike mmio writer flash ram).mpr writes)⟩

theorem byte_read_looks_secure :
    ¬ ∀ (env : Env Unit) (w : World Unit) (sec : SecState) (addr : Word),
      w.SameRead env sec addr ∧ ∀ value, w.SameWrite env sec addr value := by
  intro always
  let env : Env Unit := ⟨[secProbe 0x40000000], none, none, false, false⟩
  let w : World Unit := ⟨⟨Scs.init 0x410fc241, Nvic.init, .unknown, false⟩, Memmap.init, .secure,
    false, ()⟩
  have value := congrArg Prod.fst (always env w .nonsecure 0x40000000).1
  have value : some (observed .secure) = some (observed .nonsecure) := value
  exact absurd value (by decide)

end World

end M33mu
