import M33mu.Lib.Select
import M33mu.MainLoop
import M33mu.Mpcbb
import M33mu.ScsAccess

namespace M33mu

open Lib

@[ext] structure MpuBank where
  ctrl : Word
  rnr : Word
  rbar : Fin 8 → Word
  rlar : Fin 8 → Word

namespace MpuBank

def Contains (b : MpuBank) (i : Fin 8) (addr : Word) : Prop :=
  (b.rlar i).getLsbD 0 = true ∧ b.rbar i &&& 0xFFFFFFE0 ≤ addr ∧
    addr ≤ (b.rlar i &&& 0xFFFFFFE0) ||| 0x1F

/-- The MPU is disabled, or no enabled region contains the address, or the highest-numbered one that
does has XN clear. -/
def Executable (b : MpuBank) (addr : Word) : Prop :=
  b.ctrl.getLsbD 0 = false ∨ (∀ i, ¬ b.Contains i addr) ∨
    ∃ i, b.Contains i addr ∧ (∀ j, i < j → ¬ b.Contains j addr) ∧ (b.rbar i).getLsbD 0 = false

def write (b : MpuBank) (offset size value : Word) : MpuBank :=
  match ScsBlock.scbTarget offset size with
  | some .mpuCtrl => { b with ctrl := ScsBlock.merged offset size b.ctrl value }
  | some .mpuRnr => { b with rnr := ScsBlock.merged offset size b.rnr value &&& 0x7 }
  | some .mpuRbar =>
    { b with
      rbar := ScsBlock.setRegion b.rbar b.rnr
        (ScsBlock.merged offset size (b.rbar (Scs.regionIndex b.rnr)) value) }
  | some .mpuRlar =>
    { b with
      rlar := ScsBlock.setRegion b.rlar b.rnr
        (ScsBlock.merged offset size (b.rlar (Scs.regionIndex b.rnr)) value) }
  | _ => b

end MpuBank

def Scs.mpuBank (scs : Scs) (sec : SecState) : MpuBank where
  ctrl := scs.mpuCtrl.get sec
  rnr := scs.mpuRnr.get sec
  rbar := scs.mpuRbar.get sec
  rlar := scs.mpuRlar.get sec

namespace Mpu

variable {scs : Scs} {sec : SecState} {addr : Word}

theorem regionContains_iff (b : MpuBank) (i : Fin 8) (addr : Word) :
    regionContains (b.rbar i) (b.rlar i) addr = true ↔ b.Contains i addr := by
  simp only [regionContains, MpuBank.Contains, Bool.and_eq_true, decide_eq_true_eq]
  constructor
  · rintro ⟨⟨⟨enabled, -⟩, above⟩, below⟩
    exact ⟨enabled, above, below⟩
  · rintro ⟨enabled, above, below⟩
    have base : (b.rbar i &&& 0xFFFFFFE0).toNat = (b.rbar i).toNat / 32 * 32 :=
      toNat_and_not_mask (b.rbar i) 5 (by decide)
    have limit : (b.rlar i &&& 0xFFFFFFE0).toNat = (b.rlar i).toNat / 32 * 32 :=
      toNat_and_not_mask (b.rlar i) 5 (by decide)
    have last : ((b.rlar i &&& 0xFFFFFFE0) ||| 0x1F).toNat = (b.rlar i).toNat / 32 * 32 + 31 :=
      toNat_or_mask (b.rlar i) 5 (by decide)
    refine ⟨⟨⟨enabled, ?_⟩, above⟩, below⟩
    rw [BitVec.le_def] at above below ⊢
    rw [base] at above ⊢
    rw [last] at below
    omega

theorem descending : [7, 6, 5, 4, 3, 2, 1, 0].Pairwise fun i j : Fin 8 => j < i := by
  decide

/-- The lookup by region numbers answers as the architecture does. -/
theorem isXnExec_eq_false_iff :
    isXnExec scs sec addr = false ↔ (scs.mpuBank sec).Executable addr := by
  have contains (i : Fin 8) : regionContains (scs.mpuRbar.get sec i) (scs.mpuRlar.get sec i) addr =
      true ↔ (scs.mpuBank sec).Contains i addr := regionContains_iff (scs.mpuBank sec) i addr
  have listed : ∀ i : Fin 8, i ∈ [7, 6, 5, 4, 3, 2, 1, 0] := by decide
  rw [isXnExec, regionLookup, MpuBank.Executable]
  cases enabled : (scs.mpuCtrl.get sec).getLsbD 0 with
  | false => exact iff_of_true rfl (.inl enabled)
  | true =>
    have on : ¬ (scs.mpuBank sec).ctrl.getLsbD 0 = false := by
      rw [Bool.not_eq_false]
      exact enabled
    rw [if_pos rfl, or_iff_right on]
    cases found : [7, 6, 5, 4, 3, 2, 1, 0].find? fun i =>
        regionContains (scs.mpuRbar.get sec i) (scs.mpuRlar.get sec i) addr with
    | none =>
      refine iff_of_true rfl (.inl fun i inside => ?_)
      exact List.find?_eq_none.mp found i (listed i) ((contains i).mpr inside)
    | some i =>
      have inside : (scs.mpuBank sec).Contains i addr :=
        (contains i).mp (by simpa using List.find?_some found)
      have highest (j : Fin 8) (above : i < j) : ¬ (scs.mpuBank sec).Contains j addr := fun other => by
        rcases find_first descending found j (listed j) ((contains j).mpr other) with same | below
        · exact absurd same (Fin.ne_of_gt above)
        · exact absurd above (Fin.not_lt.mpr (Fin.le_of_lt below))
      constructor
      · intro clear
        exact .inr ⟨i, inside, highest, clear⟩
      · rintro (none | ⟨j, other, top, clear⟩)
        · exact absurd inside (none i)
        · rcases Nat.lt_trichotomy i.val j.val with above | same | below
          · exact absurd other (highest j above)
          · exact Fin.ext same ▸ clear
          · exact absurd inside (top i below)

end Mpu

structure MpuWrite where
  win : SecState
  sec : SecState
  offset : Word
  size : Word
  value : Word
  target : ScsBlock.scbTarget offset size ∈
    [some ScbReg.mpuCtrl, some .mpuRnr, some .mpuRbar, some .mpuRlar]

namespace MpuWrite

def access (a : MpuWrite) : ScsAccess := ⟨a.win, a.sec, a.offset, a.size, some a.value⟩

def bank (a : MpuWrite) : SecState :=
  match a.win with
  | .secure => a.sec
  | .nonsecure => .nonsecure

end MpuWrite

structure Scs.SameView (sec : SecState) (a b : Scs) : Prop where
  mpu : a.mpuBank sec = b.mpuBank sec
  sauCtrl : a.sauCtrl = b.sauCtrl
  sauRbar : a.sauRbar = b.sauRbar
  sauRlar : a.sauRlar = b.sauRlar

namespace ScsBlock

theorem access_written (b : ScsBlock) (a : MpuWrite) : ∃ reg,
    scbTarget a.offset a.size = some reg ∧ reg ∈ [.mpuCtrl, .mpuRnr, .mpuRbar, .mpuRlar] ∧
      (b.access a.access).2 = ((b.noteAccess a.sec).scbWrite a.win a.bank
        (merged a.offset a.size ((b.noteAccess a.sec).scbRead a.win a.bank reg) a.value) reg).2 := by
  obtain ⟨reg, listed, target⟩ : ∃ reg, reg ∈ [.mpuCtrl, .mpuRnr, .mpuRbar, .mpuRlar] ∧
      scbTarget a.offset a.size = some reg := by
    have target := a.target
    simp only [List.mem_cons, List.not_mem_nil, or_false] at target
    rcases target with h | h | h | h
    · exact ⟨_, by decide, h⟩
    · exact ⟨_, by decide, h⟩
    · exact ⟨_, by decide, h⟩
    · exact ⟨_, by decide, h⟩
  have eff : (b.noteAccess a.sec).effSec a.win = a.bank := by
    obtain ⟨win, _, _, _, _, _⟩ := a
    cases win <;> rfl
  refine ⟨reg, target, listed, ?_⟩
  rw [access, MpuWrite.access]
  simp only
  rw [scsWrite_of_target target, eff]

theorem mpuBank_access (b : ScsBlock) (a : MpuWrite) (sec : SecState) :
    (b.access a.access).2.scs.mpuBank sec =
      if a.bank = sec then (b.scs.mpuBank sec).write a.offset a.size a.value
      else b.scs.mpuBank sec := by
  obtain ⟨reg, target, listed, eq⟩ := b.access_written a
  rw [eq, MpuBank.write, target]
  obtain ⟨bank, hb⟩ : ∃ bank, a.bank = bank := ⟨_, rfl⟩
  rw [hb]
  simp only [List.mem_cons, List.not_mem_nil, or_false] at listed
  rcases listed with rfl | rfl | rfl | rfl <;> cases bank <;> cases sec <;> rfl

theorem sau_access (b : ScsBlock) (a : MpuWrite) :
    (b.access a.access).2.scs.sauCtrl = b.scs.sauCtrl ∧
      (b.access a.access).2.scs.sauRbar = b.scs.sauRbar ∧
      (b.access a.access).2.scs.sauRlar = b.scs.sauRlar := by
  obtain ⟨reg, target, listed, eq⟩ := b.access_written a
  rw [eq]
  simp only [List.mem_cons, List.not_mem_nil, or_false] at listed
  rcases listed with rfl | rfl | rfl | rfl <;> exact ⟨rfl, rfl, rfl⟩

def programMpu (b : ScsBlock) (writes : List MpuWrite) : ScsBlock :=
  run (fun b a => (b.access a.access).2) b writes

theorem mpuBank_program (b : ScsBlock) (writes : List MpuWrite) (sec : SecState) :
    (b.programMpu writes).scs.mpuBank sec =
      (writes.filter (·.bank = sec)).foldl (fun bank a => bank.write a.offset a.size a.value)
        (b.scs.mpuBank sec) := by
  induction writes generalizing b with
  | nil => rfl
  | cons a writes ih =>
    refine (ih _).trans ?_
    rw [mpuBank_access]
    by_cases own : a.bank = sec
    · simp [own]
    · simp [own]

theorem sau_program (b : ScsBlock) (writes : List MpuWrite) :
    (b.programMpu writes).scs.sauCtrl = b.scs.sauCtrl ∧
      (b.programMpu writes).scs.sauRbar = b.scs.sauRbar ∧
      (b.programMpu writes).scs.sauRlar = b.scs.sauRlar := by
  induction writes generalizing b with
  | nil => exact ⟨rfl, rfl, rfl⟩
  | cons a writes ih =>
    obtain ⟨ctrl, rbar, rlar⟩ := b.sau_access a
    obtain ⟨ctrl', rbar', rlar'⟩ := ih (b.access a.access).2
    exact ⟨ctrl'.trans ctrl, rbar'.trans rbar, rlar'.trans rlar⟩

theorem program_sameView (b : ScsBlock) (writes : List MpuWrite) (sec : SecState) :
    Scs.SameView sec (b.programMpu writes).scs (b.programMpu (writes.filter (·.bank = sec))).scs := by
  obtain ⟨ctrl, rbar, rlar⟩ := b.sau_program writes
  obtain ⟨ctrl', rbar', rlar'⟩ := b.sau_program (writes.filter (·.bank = sec))
  refine ⟨?_, ctrl.trans ctrl'.symm, rbar.trans rbar'.symm, rlar.trans rlar'.symm⟩
  rw [mpuBank_program, mpuBank_program, List.filter_filter]
  simp

end ScsBlock

theorem Mpu.isXnExec_congr {sec : SecState} {a b : Scs} (same : a.mpuBank sec = b.mpuBank sec)
    (addr : Word) : isXnExec a sec addr = isXnExec b sec addr := by
  rw [← Bool.not_inj_iff, Bool.eq_iff_iff, Bool.not_eq_true', Bool.not_eq_true',
    isXnExec_eq_false_iff, isXnExec_eq_false_iff, same]

namespace Prot

variable {ctx : ProtCtx} {blockSecure : BlockSecure} {sec : SecState} {a b scs : Scs}

theorem attrForAddr_sameView (same : Scs.SameView sec a b) (addr : Word) :
    attrForAddr ctx blockSecure a addr = attrForAddr ctx blockSecure b addr := by
  simp only [attrForAddr, Sau.attrForAddr_congr same.sauCtrl same.sauRbar same.sauRlar]

theorem interceptor_sameView (type : AccessType) (by' : SecState) (addr size : Word) :
    Scs.SameView sec (interceptor ctx blockSecure scs type by' addr size).2 scs := by
  simp only [interceptor]
  split
  · exact ⟨rfl, rfl, rfl, rfl⟩
  split
  · exact ⟨rfl, rfl, rfl, rfl⟩
  split
  · exact ⟨rfl, rfl, rfl, rfl⟩
  split <;> exact ⟨rfl, rfl, rfl, rfl⟩

theorem interceptor_exec_congr (same : Scs.SameView sec a b) (addr size : Word) :
    (interceptor ctx blockSecure a .exec sec addr size).1 =
      (interceptor ctx blockSecure b .exec sec addr size).1 := by
  simp only [interceptor, attrForAddr_sameView same, Mpu.isXnExec_congr same.mpu]
  split
  · rfl
  split
  · rfl
  split
  · rfl
  split <;> rfl

theorem executable_of_granted {addr size : Word} (outside : isSystemControl addr = false)
    (granted : (interceptor ctx blockSecure scs .exec sec addr size).1 = true) :
    (scs.mpuBank sec).Executable addr := by
  rw [← Mpu.isXnExec_eq_false_iff, ← Bool.not_eq_true]
  intro never
  simp only [interceptor, outside, never, and_self, if_true, Bool.false_eq_true, if_false] at granted
  split at granted <;> cases granted

end Prot

def Window.OffSystem (v : Window) : Prop :=
  v.base.toNat + v.limit.toNat ≤ 0x00E00000 ∨
    0x00E10000 ≤ v.base ∧ v.base.toNat + v.limit.toNat ≤ 0xE000E000

instance (v : Window) : Decidable v.OffSystem := inferInstanceAs (Decidable (_ ∨ _))

theorem Window.OffSystem.refuses {v : Window} (off : v.OffSystem) {addr : Word}
    (inside : Prot.isSystemControl addr = true) : ¬ v.Admits addr 2 := by
  rintro ⟨above, below⟩
  simp only [Prot.isSystemControl, Bool.or_eq_true, Bool.and_eq_true, decide_eq_true_eq] at inside
  rw [OffSystem] at off
  bv_omega

namespace Memmap

def NoSystemCode (m : Memmap) : Prop :=
  ∀ addr, Prot.isSystemControl addr = true → m.fetchHalf addr = none

theorem noSystemCode_of_views {m : Memmap} (off : ∀ v ∈ m.flashViews ++ m.ramViews, v.OffSystem) :
    m.NoSystemCode := by
  intro addr inside
  have refused {views : List Window} (shown : ∀ v ∈ views, v ∈ m.flashViews ++ m.ramViews) :
      firstView views addr 2 = none :=
    firstView_eq_none.mpr fun v mem => (off v (shown v mem)).refuses inside
  have flash : m.flashTaken addr 2 = none := by
    rw [flashTaken, refused fun v mem => List.mem_append_left _ mem]
    split <;> rfl
  have ram : m.ramTaken addr 2 = none := by
    rw [ramTaken, refused fun v mem => List.mem_append_right _ mem]
    split <;> rfl
  change m.load addr 2 = none
  rw [load_eq m addr (.inr (.inl rfl)), readTaken, flash, ram]
  rfl

theorem offSystem_of_target : ∀ secureView, ∀ cfg ∈ Board.cpuTable,
    ∀ v ∈ (init.configureFlash cfg (fun _ => 0) secureView).flashViews ++
      (init.configureRam cfg fun _ => 0).ramViews, v.OffSystem := by
  decide

theorem noSystemCode_of_target {cfg : TargetCfg} (listed : cfg ∈ Board.cpuTable) (m : Memmap)
    (flash ram : Word → Byte) (secureView : Bool) :
    ((m.configureFlash cfg flash secureView).configureRam cfg ram).NoSystemCode :=
  noSystemCode_of_views (offSystem_of_target secureView cfg listed)

end Memmap

namespace World

variable {δ : Type u} {env : Env δ} {w w' : World δ} {sec : SecState} {addr : Word}

structure FetchesAlike (sec : SecState) (w w' : World δ) : Prop where
  map : w.map = w'.map
  dev : w.dev = w'.dev
  view : Scs.SameView sec w.scs w'.scs

theorem fetchRead16_alike (env : Env δ) (w : World δ) (sec : SecState) (addr : Word) :
    FetchesAlike sec (w.fetchRead16 env sec addr).2 w := by
  have kept : FetchesAlike sec (w.interceptOk env .exec sec addr 2).2 w := by
    rw [interceptOk]
    split
    · exact ⟨rfl, rfl, ⟨rfl, rfl, rfl, rfl⟩⟩
    · exact ⟨rfl, rfl, Prot.interceptor_sameView ..⟩
  simp only [fetchRead16]
  split <;> exact kept

theorem fetchRead16_eq (env : Env δ) (w : World δ) (sec : SecState) (addr : Word) :
    (w.fetchRead16 env sec addr).1 =
      if (w.interceptOk env .exec sec addr 2).1 then w.map.fetchHalf addr else none := by
  have map : (w.interceptOk env .exec sec addr 2).2.map = w.map := by
    rw [interceptOk]
    split <;> rfl
  simp only [fetchRead16]
  cases granted : (w.interceptOk env .exec sec addr 2).1 with
  | false => rfl
  | true => exact congrArg (·.fetchHalf addr) map

theorem FetchesAlike.fetchRead16 (h : FetchesAlike sec w w') (env : Env δ) (addr : Word) :
    (w.fetchRead16 env sec addr).1 = (w'.fetchRead16 env sec addr).1 := by
  have granted : (w.interceptOk env .exec sec addr 2).1 =
      (w'.interceptOk env .exec sec addr 2).1 := by
    rw [interceptOk, interceptOk, h.map, h.dev]
    split
    · rfl
    · exact Prot.interceptor_exec_congr h.view addr 2
  rw [fetchRead16_eq, fetchRead16_eq, granted, h.map]

theorem executable_of_read {ctx : ProtCtx} (prot : w.map.prot = some ctx)
    (noCode : w.map.NoSystemCode) {hw : Word} (read : (w.fetchRead16 env sec addr).1 = some hw) :
    (w.scs.mpuBank sec).Executable addr := by
  rw [fetchRead16_eq] at read
  split at read
  · rename_i granted
    have outside : Prot.isSystemControl addr = false := by
      rw [← Bool.not_eq_true]
      intro inside
      exact nomatch (noCode addr inside).symm.trans read
    simp only [interceptOk, prot] at granted
    exact Prot.executable_of_granted outside granted
  · cases read

end World

namespace Machine

variable {δ : Type u} {env : Env δ} {m : Machine δ}

def pcFetch (m : Machine δ) : Word := m.cpu.r 15 &&& ~~~1#32

def Refused (env : Env δ) (m : Machine δ) (addr : Word) : Prop :=
  (m.world.fetchRead16 env m.cpu.secState addr).1 = none

def fetchOf (m : Machine δ) (first second : Option Word) : FetchResult × Cpu :=
  match first with
  | none => (⟨0, 0, true, m.pcFetch, m.pcFetch⟩, m.cpu)
  | some hw1 =>
    if t32Is32bitPrefix hw1 then
      match second with
      | none => (⟨0, 0, true, m.pcFetch + 2, m.pcFetch⟩, m.cpu)
      | some hw2 =>
        (⟨hw1 <<< 16 ||| hw2, 4, false, 0, m.pcFetch⟩, (m.setReg 15 ((m.pcFetch + 4) ||| 1)).cpu)
    else (⟨hw1, 2, false, 0, m.pcFetch⟩, (m.setReg 15 ((m.pcFetch + 2) ||| 1)).cpu)

theorem fetch_eq (env : Env δ) (m : Machine δ) : ((m.fetch env).1, (m.fetch env).2.cpu) =
    m.fetchOf (m.world.fetchRead16 env m.cpu.secState m.pcFetch).1
      (m.world.fetchRead16 env m.cpu.secState (m.pcFetch + 2)).1 := by
  have alike := World.fetchRead16_alike env m.world m.cpu.secState m.pcFetch
  rw [← alike.fetchRead16 env (m.pcFetch + 2)]
  rcases first : m.world.fetchRead16 env m.cpu.secState m.pcFetch with ⟨v, w⟩
  rcases second : w.fetchRead16 env m.cpu.secState (m.pcFetch + 2) with ⟨v', w'⟩
  rw [pcFetch] at first second
  simp only [fetch, fetchOf, pcFetch, withWorld, first]
  cases v with
  | none => rfl
  | some hw1 =>
    simp only
    split
    · simp only [second]
      cases v' <;> rfl
    · rfl

def halfwordAt (m : Machine δ) (k : Nat) : Word := m.pcFetch + BitVec.ofNat 32 (2 * k)

/-- A fetch succeeds only for halfwords that `bank` has executable; a refused one reports the first
halfword that is refused and leaves the PC alone. -/
structure FetchesUnder (env : Env δ) (m : Machine δ) (bank : MpuBank) : Prop where
  executable : (m.fetch env).1.fault = false →
    ∀ k, 2 * k < (m.fetch env).1.len.toNat → bank.Executable (m.halfwordAt k)
  first : (m.fetch env).1.fault = true → ∃ k, (m.fetch env).1.faultAddr = m.halfwordAt k ∧
    m.Refused env (m.halfwordAt k) ∧ ∀ j < k, ¬ m.Refused env (m.halfwordAt j)
  pc : (m.fetch env).1.fault = true → (m.fetch env).2.cpu.r 15 = m.cpu.r 15

theorem halfwordAt_zero (m : Machine δ) : m.halfwordAt 0 = m.pcFetch := by
  simp [halfwordAt]

theorem halfwordAt_one (m : Machine δ) : m.halfwordAt 1 = m.pcFetch + 2 := rfl

theorem fetchesUnder_mpuBank {ctx : ProtCtx} (prot : m.world.map.prot = some ctx)
    (noCode : m.world.map.NoSystemCode) :
    m.FetchesUnder env (m.world.scs.mpuBank m.cpu.secState) := by
  have eq := fetch_eq env m
  rw [← halfwordAt_one, ← halfwordAt_zero] at eq
  have allowed {k : Nat} {hw : Word}
      (read : (m.world.fetchRead16 env m.cpu.secState (m.halfwordAt k)).1 = some hw) :
      (m.world.scs.mpuBank m.cpu.secState).Executable (m.halfwordAt k) :=
    World.executable_of_read prot noCode read
  cases first : (m.world.fetchRead16 env m.cpu.secState (m.halfwordAt 0)).1 with
  | none =>
    rw [first, fetchOf, Prod.mk.injEq] at eq
    obtain ⟨fetched, cpu⟩ := eq
    refine ⟨fun ok => ?_, fun _ => ⟨0, ?_, first, fun j lt => absurd lt j.not_lt_zero⟩, fun _ => ?_⟩
    · rw [fetched] at ok
      cases ok
    · rw [fetched, halfwordAt_zero]
    · rw [cpu]
  | some hw1 =>
    rw [first] at eq
    unfold fetchOf at eq
    simp only at eq
    split at eq
    · cases second : (m.world.fetchRead16 env m.cpu.secState (m.halfwordAt 1)).1 with
      | none =>
        rw [second, Prod.mk.injEq] at eq
        obtain ⟨fetched, cpu⟩ := eq
        refine ⟨fun ok => ?_, fun _ => ⟨1, ?_, second, fun j lt => ?_⟩, fun _ => ?_⟩
        · rw [fetched] at ok
          cases ok
        · rw [fetched, halfwordAt_one]
        · obtain rfl : j = 0 := by omega
          rw [Refused, first]
          exact nofun
        · rw [cpu]
      | some hw2 =>
        rw [second, Prod.mk.injEq] at eq
        obtain ⟨fetched, -⟩ := eq
        refine ⟨fun _ k below => ?_, fun refused => ?_, fun refused => ?_⟩
        · rw [fetched] at below
          have below : 2 * k < 4 := below
          obtain rfl | rfl : k = 0 ∨ k = 1 := by omega
          · exact allowed first
          · exact allowed second
        · rw [fetched] at refused
          cases refused
        · rw [fetched] at refused
          cases refused
    · rw [Prod.mk.injEq] at eq
      obtain ⟨fetched, -⟩ := eq
      refine ⟨fun _ k below => ?_, fun refused => ?_, fun refused => ?_⟩
      · rw [fetched] at below
        have below : 2 * k < 2 := below
        obtain rfl : k = 0 := by omega
        exact allowed first
      · rw [fetched] at refused
        cases refused
      · rw [fetched] at refused
        cases refused

def programMpu (m : Machine δ) (writes : List MpuWrite) : Machine δ :=
  { m with world := { m.world with toScsBlock := m.world.toScsBlock.programMpu writes } }

def ownWrites (m : Machine δ) (writes : List MpuWrite) : List MpuWrite :=
  writes.filter (·.bank = m.cpu.secState)

theorem program_fetchesAlike (m : Machine δ) (writes : List MpuWrite) :
    World.FetchesAlike m.cpu.secState (m.programMpu writes).world
      (m.programMpu (m.ownWrites writes)).world :=
  ⟨rfl, rfl, ScsBlock.program_sameView _ writes _⟩

/-- Instructions are fetched by the rules of the MPU of the fetching state, which are what the writes
to its own bank have made them, and as if there had been no others. -/
theorem fetchesUnder_program (env : Env δ) (m : Machine δ) {map : Memmap} {ctx : ProtCtx}
    {cfg : TargetCfg} {flash ram : Word → Byte} {secureView : Bool} (listed : cfg ∈ Board.cpuTable)
    (configured : m.world.map = (map.configureFlash cfg flash secureView).configureRam cfg ram)
    (prot : map.prot = some ctx) (writes : List MpuWrite) :
    (m.programMpu writes).FetchesUnder env
        ((m.ownWrites writes).foldl (fun bank a => bank.write a.offset a.size a.value)
          (m.world.scs.mpuBank m.cpu.secState)) ∧
      ((m.programMpu writes).fetch env).1 = ((m.programMpu (m.ownWrites writes)).fetch env).1 ∧
      ((m.programMpu writes).fetch env).2.cpu =
        ((m.programMpu (m.ownWrites writes)).fetch env).2.cpu := by
  refine ⟨?_, ?_⟩
  · have bank := m.world.toScsBlock.mpuBank_program writes m.cpu.secState
    have installed : (m.programMpu writes).world.map.prot = some ctx :=
      (congrArg Memmap.prot configured).trans prot
    have noCode : (m.programMpu writes).world.map.NoSystemCode := by
      rw [programMpu, configured]
      exact Memmap.noSystemCode_of_target listed map flash ram secureView
    rw [ownWrites, ← bank]
    exact fetchesUnder_mpuBank installed noCode
  · have alike := m.program_fetchesAlike writes
    have own := fetch_eq env (m.programMpu writes)
    have other := fetch_eq env (m.programMpu (m.ownWrites writes))
    have first := alike.fetchRead16 env m.pcFetch
    have second := alike.fetchRead16 env (m.pcFetch + 2)
    refine Prod.mk.inj (own.trans (Eq.trans ?_ other.symm))
    change m.fetchOf _ _ = m.fetchOf _ _
    exact congrArg₂ m.fetchOf first second

/-- The Non-secure MPU is set up from both windows: region 1 is never executable. -/
def setUp : List MpuWrite :=
  [⟨.nonsecure, .secure, 0xD98, 4, 1, by decide⟩,
    ⟨.nonsecure, .nonsecure, 0xD9C, 4, 0x08000001, by decide⟩,
    ⟨.secure, .nonsecure, 0xDA0, 4, 0x080000E1, by decide⟩, ⟨.secure, .secure, 0xD94, 4, 5, by decide⟩,
    ⟨.secure, .nonsecure, 0xD94, 1, 1, by decide⟩]

def nsBoot : Machine Unit where
  cpu := { Board.cpu with secState := .nonsecure }
  world := Board.configured Board.stm32h563 (fun _ => 0xBF) fun _ => 0
  trace := []
  it := ⟨0, 0, 0⟩
  done := false
  resetAgain := false
  transfers := []

theorem fetchesUnder_setUp :
    (nsBoot.programMpu setUp).FetchesUnder Board.env
        ((nsBoot.ownWrites setUp).foldl (fun bank a => bank.write a.offset a.size a.value)
          (nsBoot.world.scs.mpuBank .nonsecure)) ∧
      ((nsBoot.programMpu setUp).fetch Board.env).1 =
        ((nsBoot.programMpu (nsBoot.ownWrites setUp)).fetch Board.env).1 ∧
      ((nsBoot.programMpu setUp).fetch Board.env).2.cpu =
        ((nsBoot.programMpu (nsBoot.ownWrites setUp)).fetch Board.env).2.cpu := by
  let map : Memmap := { Memmap.init with prot := some (Prot.ofCfg Board.stm32h563) }
  have configured : nsBoot.world.map = (map.configureFlash Board.stm32h563 (fun _ => 0xBF)
      true).configureRam Board.stm32h563 fun _ => 0 := rfl
  exact fetchesUnder_program Board.env nsBoot (by decide) configured rfl setUp

end Machine

end M33mu
