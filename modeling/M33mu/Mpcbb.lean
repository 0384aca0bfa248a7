import M33mu.Attribution
import M33mu.Lib.RegFile
import M33mu.Lib.Run
import M33mu.MapBounds
import M33mu.SystemReset

namespace M33mu

open Lib

/-- The three `mpcbb_state`s, beside the state of the other peripherals. -/
structure Mpcbb (ρ : Type u) where
  banks : Fin 3 → RegFile
  rest : ρ

namespace Mpcbb

def size : Word := 0x400

/-- `MPCBB_SECCFGR_OFFSET`. -/
def seccfgr : Nat := 0x100

/-- `MPCBB_CR_INVSECSTATE`. -/
def crInvsecstate : Word := 0x40000000

/-- The part of `mm_stm32h563_mpcbb_block_secure` that reads one bank. -/
def attribution (r : RegFile) (block : Word) : Bool :=
  let word := block / 32
  if 32 ≤ word then false
  else
    let bit := block % 32
    let sec := r.word (seccfgr + 4 * word.toNat) >>> bit.toNat &&& 1 ≠ 0
    if r.word 0 &&& crInvsecstate ≠ 0 then !sec else sec

/-- `mm_stm32h563_mpcbb_block_secure`. -/
def blockSecure (d : Mpcbb ρ) (bank : Int) (block : Word) : Bool :=
  if inside : 0 ≤ bank ∧ bank < 3 then
    attribution (d.banks ⟨bank.toNat, by omega⟩) block
  else false

def put (d : Mpcbb ρ) (bank : Fin 3) (offset n value : Word) : Mpcbb ρ :=
  { d with
    banks := Function.update d.banks bank ((d.banks bank).copy offset.toNat n.toNat value) }

end Mpcbb

/-- One alias of a bank: `mpcbb_read` and `mpcbb_write`. -/
def mpcbbRegion (base : Word) (bank : Fin 3) : MmioRegion (Mpcbb ρ) where
  base := base
  size := Mpcbb.size
  read offset n w :=
    if n = 0 ∨ 4 < n then (none, w)
    else if Mpcbb.size < offset + n then (none, w)
    else (some ((w.dev.banks bank).slice offset.toNat n.toNat), w)
  write offset n value w :=
    if n = 0 ∨ 4 < n then (false, w)
    else if Mpcbb.size < offset + n then (false, w)
    else (true, { w with dev := w.dev.put bank offset n value })

namespace Mpcbb

def aliases : List (Word × Fin 3) :=
  [(0x40032c00, 0), (0x50032c00, 0), (0x40033000, 1), (0x50033000, 1), (0x40033400, 2),
    (0x50033400, 2)]

def bankAt (addr : Word) : Option (Fin 3 × Word) :=
  (aliases.find? fun a => a.1 ≤ addr && addr - a.1 < size).map fun a => (a.2, addr - a.1)

end Mpcbb

namespace World

def others (w : World (Mpcbb ρ)) : World ρ := { w with dev := w.dev.rest }

def withOthers (w : World (Mpcbb ρ)) (others : World ρ) : World (Mpcbb ρ) :=
  { others with dev := { w.dev with rest := others.dev } }

end World

def MmioRegion.beside (r : MmioRegion ρ) : MmioRegion (Mpcbb ρ) where
  base := r.base
  size := r.size
  read offset n w :=
    let (v, others) := r.read offset n w.others
    (v, w.withOthers others)
  write offset n value w :=
    let (ok, others) := r.write offset n value w.others
    (ok, w.withOthers others)

structure Peripherals (ρ : Type u) where
  before : List (MmioRegion ρ)
  after : List (MmioRegion ρ)
  flashWrite : Option (SecState → Word → Word → Word → World ρ → Bool × World ρ)
  quitOnFaults : Bool
  optGdb : Bool

namespace Mpcbb

variable {ρ : Type u} (p : Peripherals ρ)

def env : Env (Mpcbb ρ) where
  mmio := p.before.map (·.beside) ++ aliases.map (fun a => mpcbbRegion a.1 a.2) ++
    p.after.map (·.beside)
  blockSecure := some fun d bank block => d.blockSecure bank block
  flashWrite := p.flashWrite.map fun f sec addr n value w =>
    let (ok, others) := f sec addr n value w.others
    (ok, w.withOthers others)
  quitOnFaults := p.quitOnFaults
  optGdb := p.optGdb

inductive Access
  | read (addr n : Word)
  | write (addr n value : Word)
  | fetchRead16 (addr : Word)
  | read8 (addr : Word)
  | write8 (addr : Word) (value : Byte)
  deriving DecidableEq, Repr

def step (w : World (Mpcbb ρ)) : Access → World (Mpcbb ρ)
  | .read addr n => (w.read (env p) .nonsecure addr n).2
  | .write addr n value => (w.write (env p) .nonsecure addr n value).2
  | .fetchRead16 addr => (w.fetchRead16 (env p) .nonsecure addr).2
  | .read8 addr => (w.read8 (env p) .nonsecure addr).2
  | .write8 addr value => (w.write8 (env p) .nonsecure addr value).2

def Matters (b : Nat) : Prop := b = 30 ∨ 8 * seccfgr ≤ b ∧ b < 8 * seccfgr + 1024

def Passes (w : World (Mpcbb ρ)) (addr n value : Word) : Prop :=
  w.map.writeRam addr n value = none ∧
    ∀ r ∈ p.before, ¬ (r.base ≤ addr ∧ addr - r.base < r.size)

def Spares (w : World (Mpcbb ρ)) (addr n value : Word) : Prop :=
  ∀ bank offset, bankAt addr = some (bank, offset) → n ≠ 0 → n ≤ 4 → offset + n ≤ size →
    ∀ j < 8 * n.toNat, Matters (8 * offset.toNat + j) →
      value.getLsbD j = (w.dev.banks bank).bit (8 * offset.toNat + j)

def Harmless (w : World (Mpcbb ρ)) : Access → Prop
  | .write addr n value =>
    (w.interceptOk (env p) .write .nonsecure addr n).1 = true → ¬ w.ProgramsFlash (env p) addr n →
      Passes p w addr n value → Spares w addr n value
  | .write8 addr value =>
    (w.interceptOk (env p) .write .nonsecure addr 1).1 = true →
      Passes p w addr 1 (value.setWidth 32) → Spares w addr 1 (value.setWidth 32)
  | _ => True

theorem attribution_eq (r : RegFile) (block : Word) :
    attribution r block =
      (decide (block.toNat < 1024) && (r.bit (8 * seccfgr + block.toNat) ^^ r.bit 30)) := by
  have word : (block / 32).toNat = block.toNat / 32 := BitVec.toNat_udiv
  have bit : (block % 32).toNat = block.toNat % 32 := BitVec.toNat_umod
  rw [attribution]
  by_cases inside : block.toNat < 1024
  · have few : ¬ 32 ≤ block / 32 := by
      rw [BitVec.le_def, word]
      change ¬ 32 ≤ block.toNat / 32
      omega
    have place : 8 * (seccfgr + 4 * (block.toNat / 32)) + block.toNat % 32 =
        8 * seccfgr + block.toNat := by omega
    have inverted : (r.word 0 &&& crInvsecstate ≠ 0) ↔ r.bit 30 = true := by
      have turn : crInvsecstate = BitVec.twoPow 32 30 := by decide
      have mask := BitVec.and_twoPow (r.word 0) 30
      rw [turn, mask, RegFile.bit_word _ _ (by decide)]
      cases r.bit 30 <;> decide
    rw [if_neg few, decide_eq_true inside, Bool.true_and]
    dsimp only
    rw [word, bit, shift_bit, RegFile.bit_word _ _ (Nat.mod_lt _ (by decide)), place]
    cases turned : r.bit 30 with
    | false => rw [if_neg fun inverts => Bool.false_ne_true (turned.symm.trans (inverted.mp inverts)),
        Bool.xor_false]
    | true => rw [if_pos (inverted.mpr turned), Bool.xor_true]
  · have many : 32 ≤ block / 32 := by
      rw [BitVec.le_def, word]
      change 32 ≤ block.toNat / 32
      omega
    rw [if_pos many, decide_eq_false inside, Bool.false_and]

theorem attribution_congr {r r' : RegFile} (same : ∀ b, Matters b → r'.bit b = r.bit b) :
    attribution r' = attribution r := by
  funext block
  rw [attribution_eq, attribution_eq, same 30 (.inl rfl)]
  by_cases inside : block.toNat < 1024
  · rw [same _ (.inr ⟨by omega, by omega⟩)]
  · rw [decide_eq_false inside, Bool.false_and, Bool.false_and]

theorem bit_of_attribution {r r' : RegFile} (same : attribution r' = attribution r) {i : Nat}
    (inside : i < 1024) : (r'.bit (8 * seccfgr + i) ^^ r'.bit 30) =
      (r.bit (8 * seccfgr + i) ^^ r.bit 30) := by
  have block := congrFun same (BitVec.ofNat 32 i)
  have index : (BitVec.ofNat 32 i).toNat = i :=
    Nat.mod_eq_of_lt (Nat.lt_of_lt_of_le inside (by decide))
  rwa [attribution_eq, attribution_eq, index, decide_eq_true inside, Bool.true_and,
    Bool.true_and] at block

theorem attribution_copy_iff (r : RegFile) (off : Nat) {n : Nat} (small : n ≤ 4) (v : Word) :
    attribution (r.copy off n v) = attribution r ↔
      ∀ j < 8 * n, Matters (8 * off + j) → v.getLsbD j = r.bit (8 * off + j) := by
  have reached (j : Nat) (low : j < 8 * n) :
      (r.copy off n v).bit (8 * off + j) = v.getLsbD j := by
    have place : 8 * off + j - 8 * off = j := by omega
    rw [RegFile.bit_copy, if_pos (by omega), place]
  have other (b : Nat) (apart : b < 8 * off ∨ 8 * (off + n) ≤ b) :
      (r.copy off n v).bit b = r.bit b := by
    rw [RegFile.bit_copy, if_neg (by omega)]
  have start : 8 * seccfgr = 2048 := rfl
  constructor
  · intro same j low matters
    rw [← reached j low]
    rcases matters with turn | ⟨first, last⟩
    · have block := bit_of_attribution same (show 0 < 1024 by decide)
      rw [other (8 * seccfgr + 0) (by omega), Bool.xor_right_inj] at block
      rw [turn]
      exact block
    · obtain ⟨i, eq⟩ := Nat.exists_eq_add_of_le first
      have block := bit_of_attribution same (show i < 1024 by omega)
      rw [other 30 (by omega), Bool.xor_left_inj] at block
      rw [eq]
      exact block
  · intro same
    refine attribution_congr fun b matters => ?_
    by_cases inside : 8 * off ≤ b ∧ b < 8 * (off + n)
    · obtain ⟨j, rfl⟩ := Nat.exists_eq_add_of_le inside.1
      exact (reached j (by omega)).trans (same j (by omega) matters)
    · exact other b (by omega)

@[simp] theorem banks_put_self (d : Mpcbb ρ) (bank : Fin 3) (offset n value : Word) :
    (d.put bank offset n value).banks bank =
      (d.banks bank).copy offset.toNat n.toNat value :=
  Function.update_self ..

theorem banks_put_of_ne (d : Mpcbb ρ) {bank other : Fin 3} (ne : other ≠ bank)
    (offset n value : Word) : (d.put bank offset n value).banks other = d.banks other :=
  Function.update_of_ne ne ..

theorem blockSecure_put_iff (d : Mpcbb ρ) (bank : Fin 3) (offset : Word) {n : Word} (small : n ≤ 4)
    (value : Word) : (d.put bank offset n value).blockSecure = d.blockSecure ↔
      ∀ j < 8 * n.toNat, Matters (8 * offset.toNat + j) →
        value.getLsbD j = (d.banks bank).bit (8 * offset.toNat + j) := by
  rw [← attribution_copy_iff (d.banks bank) offset.toNat (BitVec.le_def.mp small) value]
  have inside : 0 ≤ (bank.val : Int) ∧ (bank.val : Int) < 3 := by
    have := bank.isLt
    omega
  constructor
  · intro same
    funext block
    have here := congrFun (congrFun same bank.val) block
    rw [blockSecure, blockSecure, dif_pos inside, dif_pos inside] at here
    change attribution ((d.put bank offset n value).banks bank) block =
      attribution (d.banks bank) block at here
    rwa [banks_put_self] at here
  · intro same
    funext other block
    rw [blockSecure, blockSecure]
    split
    · by_cases this : (⟨other.toNat, by omega⟩ : Fin 3) = bank
      · rw [this, banks_put_self, same]
      · rw [banks_put_of_ne d this]
    · rfl

theorem find_beside (rs : List (MmioRegion ρ)) (addr : Word) :
    (rs.map (·.beside)).find? (fun r => r.base ≤ addr && addr - r.base < r.size) =
      (rs.find? fun r => r.base ≤ addr && addr - r.base < r.size).map (·.beside) :=
  List.find?_map ..

theorem find_aliases (addr : Word) :
    (aliases.map fun a => (mpcbbRegion a.1 a.2 : MmioRegion (Mpcbb ρ))).find?
        (fun r => r.base ≤ addr && addr - r.base < r.size) =
      (aliases.find? fun a => a.1 ≤ addr && addr - a.1 < size).map fun a =>
        mpcbbRegion a.1 a.2 :=
  List.find?_map ..

/-- The bus has the address in a peripheral beside the banks, or in a bank if none before them has
it, or nowhere. -/
theorem busFind_cases (addr : Word) :
    (∃ r : MmioRegion ρ, World.busFind (env p) addr = some r.beside ∧
        ((∃ r ∈ p.before, r.base ≤ addr ∧ addr - r.base < r.size) ∨ bankAt addr = none)) ∨
      (∃ a : Word × Fin 3, World.busFind (env p) addr = some (mpcbbRegion a.1 a.2) ∧
        (∀ r ∈ p.before, ¬ (r.base ≤ addr ∧ addr - r.base < r.size)) ∧
        bankAt addr = some (a.2, addr - a.1)) ∨
      World.busFind (env p) addr = none ∧ bankAt addr = none := by
  have eq : World.busFind (env p) addr = _ := List.find?_append
  rw [List.find?_append, find_beside, find_beside, find_aliases] at eq
  rw [eq, bankAt]
  cases first : p.before.find? fun r => r.base ≤ addr && addr - r.base < r.size with
  | some r =>
    have here := List.find?_some first
    rw [Bool.and_eq_true, decide_eq_true_eq, decide_eq_true_eq] at here
    exact .inl ⟨r, rfl, .inl ⟨r, List.mem_of_find?_eq_some first, here⟩⟩
  | none =>
    have none' (r : MmioRegion ρ) (mem : r ∈ p.before) :
        ¬ (r.base ≤ addr ∧ addr - r.base < r.size) := by
      have refused := List.find?_eq_none.mp first r mem
      rwa [Bool.and_eq_true, decide_eq_true_eq, decide_eq_true_eq] at refused
    cases second : aliases.find? fun a => a.1 ≤ addr && addr - a.1 < size with
    | some a => exact .inr (.inl ⟨a, rfl, none', rfl⟩)
    | none =>
      cases p.after.find? fun r => r.base ≤ addr && addr - r.base < r.size with
      | some r => exact .inl ⟨r, rfl, .inr rfl⟩
      | none => exact .inr (.inr ⟨rfl, rfl⟩)

theorem busWrite_iff (w : World (Mpcbb ρ)) (addr n value : Word) :
    (w.busWrite (env p) addr n value).2.dev.blockSecure = w.dev.blockSecure ↔
      ((∀ r ∈ p.before, ¬ (r.base ≤ addr ∧ addr - r.base < r.size)) →
        Spares w addr n value) := by
  rw [World.busWrite]
  obtain ⟨r, found, elsewhere⟩ | ⟨a, found, first, bank⟩ | ⟨found, nowhere⟩ := busFind_cases p addr
  · rw [found]
    refine iff_of_true rfl fun first bank offset here => ?_
    rcases elsewhere with ⟨r, mem, taken⟩ | elsewhere
    · exact absurd taken (first r mem)
    · cases here.symm.trans elsewhere
  · rw [found]
    simp only [mpcbbRegion]
    rw [Spares, bank]
    split
    · rename_i refused
      refine iff_of_true rfl fun _ bank offset _ some' small => ?_
      exact absurd (refused.resolve_left some') (BitVec.not_lt.mpr small)
    rename_i valid
    obtain ⟨some', large⟩ := not_or.mp valid
    split
    · rename_i refused
      refine iff_of_true rfl fun _ bank offset here _ _ inside => ?_
      cases here
      exact absurd refused (BitVec.not_lt.mpr inside)
    rename_i inside
    refine (blockSecure_put_iff w.dev a.2 (addr - a.1) (BitVec.not_lt.mp large) value).trans ?_
    constructor
    · intro spares _ bank offset here _ _ _
      cases here
      exact spares
    · exact fun spares =>
        spares first a.2 (addr - a.1) rfl some' (BitVec.not_lt.mp large) (BitVec.not_lt.mp inside)
  · rw [found]
    refine iff_of_true rfl fun _ bank offset here => ?_
    cases here.symm.trans nowhere

theorem busRead_blockSecure (w : World (Mpcbb ρ)) (addr n : Word) :
    (w.busRead (env p) addr n).2.dev.blockSecure = w.dev.blockSecure := by
  rw [World.busRead]
  obtain ⟨r, found, -⟩ | ⟨a, found, -⟩ | ⟨found, -⟩ := busFind_cases p addr
  · rw [found]
    rfl
  · rw [found]
    simp only [mpcbbRegion]
    split
    · rfl
    · split <;> rfl
  · rw [found]

theorem writeRamOrBus_iff (w : World (Mpcbb ρ)) (sec : SecState) (addr n value : Word) :
    (w.writeRamOrBus (env p) sec addr n value).2.dev.blockSecure = w.dev.blockSecure ↔
      (Passes p w addr n value → Spares w addr n value) := by
  rw [World.writeRamOrBus, Passes]
  cases ram : w.map.writeRam addr n value with
  | some m => exact iff_of_true rfl fun passes => by cases passes.1
  | none =>
    refine (busWrite_iff p { w with activeSec := sec } addr n value).trans ?_
    exact ⟨fun spares passes => spares passes.2, fun spares first => spares ⟨rfl, first⟩⟩

theorem write_iff (w : World (Mpcbb ρ)) (addr n value : Word) :
    (w.write (env p) .nonsecure addr n value).2.dev.blockSecure = w.dev.blockSecure ↔
      Harmless p w (.write addr n value) := by
  rw [Harmless, World.write, World.interceptOk_eq]
  cases (World.verdict (env p) w.map w.dev w.scs .write .nonsecure addr n).1 with
  | false => exact iff_of_true rfl fun is => by cases is
  | true =>
    generalize (World.verdict (env p) w.map w.dev w.scs .write .nonsecure addr n).2 = scs
    have bus := writeRamOrBus_iff p { w with scs := scs } .nonsecure addr n value
    simp only [Bool.not_true, Bool.false_eq_true, if_false, true_implies]
    rw [World.ProgramsFlash]
    cases writer : (env p).flashWrite with
    | none => exact bus.trans ⟨fun spares _ => spares, fun spares => spares fun all => by cases all.1⟩
    | some f =>
      dsimp only
      split
      · rename_i flash
        refine iff_of_true ?_ fun elsewhere => absurd ⟨rfl, flash⟩ elsewhere
        obtain ⟨f', -, rfl⟩ := Option.map_eq_some_iff.mp writer
        rfl
      · rename_i elsewhere
        exact bus.trans ⟨fun spares _ => spares, fun spares => spares fun all => elsewhere all.2⟩

theorem write8_iff (w : World (Mpcbb ρ)) (addr : Word) (value : Byte) :
    (w.write8 (env p) .nonsecure addr value).2.dev.blockSecure = w.dev.blockSecure ↔
      Harmless p w (.write8 addr value) := by
  rw [Harmless, World.write8, World.interceptOk_eq, Passes]
  cases (World.verdict (env p) w.map w.dev w.scs .write .nonsecure addr 1).1 with
  | false => exact iff_of_true rfl nofun
  | true =>
    generalize (World.verdict (env p) w.map w.dev w.scs .write .nonsecure addr 1).2 = scs
    simp only [Bool.not_true, Bool.false_eq_true, if_false, true_implies]
    cases ram : w.map.writeRam addr 1 (value.setWidth 32) with
    | some m => exact iff_of_true rfl fun passes => nomatch passes.1
    | none =>
      refine (busWrite_iff p { w with scs := scs } addr 1 (value.setWidth 32)).trans ?_
      exact ⟨fun spares passes => spares passes.2, fun spares first => spares ⟨rfl, first⟩⟩

theorem read_blockSecure (w : World (Mpcbb ρ)) (addr n : Word) :
    (w.read (env p) .nonsecure addr n).2.dev.blockSecure = w.dev.blockSecure := by
  rw [World.read, World.interceptOk_eq]
  dsimp only
  split
  · rfl
  split
  · rfl
  · exact busRead_blockSecure p _ addr n

theorem read8_blockSecure (w : World (Mpcbb ρ)) (addr : Word) :
    (w.read8 (env p) .nonsecure addr).2.dev.blockSecure = w.dev.blockSecure := by
  rw [World.read8, World.interceptOk_eq]
  dsimp only
  split
  · rfl
  split
  · rfl
  · exact busRead_blockSecure p _ addr 1

theorem fetchRead16_blockSecure (w : World (Mpcbb ρ)) (addr : Word) :
    (w.fetchRead16 (env p) .nonsecure addr).2.dev.blockSecure = w.dev.blockSecure := by
  rw [World.fetchRead16, World.interceptOk_eq]
  dsimp only
  split <;> rfl

theorem blockSecure_step_iff (w : World (Mpcbb ρ)) (access : Access) :
    (step p w access).dev.blockSecure = w.dev.blockSecure ↔ Harmless p w access := by
  cases access with
  | read addr n => exact iff_of_true (read_blockSecure p w addr n) trivial
  | write addr n value => exact write_iff p w addr n value
  | fetchRead16 addr => exact iff_of_true (fetchRead16_blockSecure p w addr) trivial
  | read8 addr => exact iff_of_true (read8_blockSecure p w addr) trivial
  | write8 addr value => exact write8_iff p w addr value

/-- Non-secure state keeps the attribution of every block throughout a run exactly if it never writes
other bits to INVSECSTATE and to the attribution registers. -/
theorem blockSecure_kept_iff (w : World (Mpcbb ρ)) (accesses : List Access) :
    Throughout (step p) (fun w' => w'.dev.blockSecure = w.dev.blockSecure) w accesses ↔
      Along (step p) (Harmless p) w accesses :=
  throughout_eq_iff_along (blockSecure_step_iff p) w accesses

/-- `mpcbb_init_defaults`: all blocks are secure. -/
def defaults (rest : ρ) : Mpcbb ρ where
  banks _ := fun i => if seccfgr ≤ i ∧ i < seccfgr + 4 * 32 then 0xFF else 0
  rest := rest

end Mpcbb

namespace Board

def stm32h563 : TargetCfg where
  flashBaseS := 0x0C000000
  flashSizeS := 0x00200000
  flashBaseNs := 0x08000000
  flashSizeNs := 0x00200000
  ramBaseS := 0x30000000
  ramSizeS := 0x000A0000
  ramBaseNs := 0x20000000
  ramSizeNs := 0x000A0000
  ramRegions :=
    [⟨0x30000000, 0x20000000, 0x00040000, 0⟩, ⟨0x30040000, 0x20040000, 0x00010000, 1⟩,
      ⟨0x30050000, 0x20050000, 0x00050000, 2⟩]
  mpcbbBlockSize := 512

def stm32u585 : TargetCfg where
  flashBaseS := 0x0C000000
  flashSizeS := 0x00200000
  flashBaseNs := 0x08000000
  flashSizeNs := 0x00200000
  ramBaseS := 0x30000000
  ramSizeS := 0x000C0000
  ramBaseNs := 0x20000000
  ramSizeNs := 0x000C0000
  ramRegions :=
    [⟨0x30000000, 0x20000000, 0x00030000, 0⟩, ⟨0x30030000, 0x20030000, 0x00010000, 1⟩,
      ⟨0x30040000, 0x20040000, 0x00080000, 2⟩, ⟨0x38000000, 0x28000000, 0x00004000, 3⟩]
  mpcbbBlockSize := 512

def stm32l552 : TargetCfg where
  flashBaseS := 0x0C000000
  flashSizeS := 0x00080000
  flashBaseNs := 0x08000000
  flashSizeNs := 0x00080000
  ramBaseS := 0x30000000
  ramSizeS := 0x00040000
  ramBaseNs := 0x20000000
  ramSizeNs := 0x00040000
  ramRegions := []
  mpcbbBlockSize := 0

def nrf5340 : TargetCfg where
  flashBaseS := 0x10000000
  flashSizeS := 0x00100000
  flashBaseNs := 0
  flashSizeNs := 0x00100000
  ramBaseS := 0x30000000
  ramSizeS := 0x00080000
  ramBaseNs := 0x20000000
  ramSizeNs := 0x00080000
  ramRegions := []
  mpcbbBlockSize := 0

/-- `cpu_table`. -/
def cpuTable : List TargetCfg := [stm32h563, stm32u585, stm32l552, mcxw71c, nrf5340]

theorem wordAligned_cpuTable : ∀ cfg ∈ cpuTable, Prot.WordAligned cfg := by
  simp only [cpuTable, List.forall_mem_cons, List.not_mem_nil, false_imp_iff, implies_true, and_true]
  refine ⟨⟨?_, ?_⟩, ⟨?_, ?_⟩, ⟨?_, ?_⟩, ⟨?_, ?_⟩, ?_, ?_⟩
  all_goals decide

/-- Whatever the guards are set to, no target lets an aligned access of Non-secure code run into a
Secure byte. -/
theorem aligned_admitsAll {ctx : ProtCtx} (target : ctx.cfg ∈ cpuTable)
    (blockSecure : Prot.BlockSecure) (scs : Scs) (type : AccessType) {addr size : Word}
    (sized : size = 1 ∨ size = 2 ∨ size = 4) (aligned : addr.toNat % size.toNat = 0)
    (outside : Prot.isSystemControl addr = false)
    (granted : (Prot.interceptor ctx blockSecure scs type .nonsecure addr size).1 = true) :
    Prot.AdmitsAll ctx blockSecure scs type addr size :=
  Prot.admitsAll_of_aligned ctx blockSecure scs type addr size (wordAligned_cpuTable _ target) sized
    aligned outside granted

end Board

namespace Mpcbb

def openPeripherals : World (Mpcbb Unit) :=
  { Board.configured Board.stm32h563 (fun _ => 0xFF) fun _ => 0 with
    scs := { Scs.init 0x410fc241 with
      sauCtrl := 1
      sauRbar := fun _ => 0x40000000
      sauRlar := fun _ => 0x4FFFFFE1 }
    dev := defaults () }

theorem secure_blocks_opened :
    ¬ Throughout (step ⟨[], [], none, false, false⟩)
      (fun w => w.dev.blockSecure = openPeripherals.dev.blockSecure) openPeripherals
      [.write 0x40032d00 4 0] := by
  rintro ⟨-, opened⟩
  have first := congrFun (congrFun opened 0) 0
  exact absurd first (by decide +kernel)

end Mpcbb

end M33mu
