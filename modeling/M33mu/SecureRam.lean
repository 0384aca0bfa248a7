import M33mu.Lib.Veil
import M33mu.MainLoop
import M33mu.RamWord
import M33mu.ScsAccess
import Mathlib.Data.Set.Piecewise

namespace M33mu

open Lib

namespace Memmap

open scoped Classical in
noncomputable def veil (hidden : Set Word) (secret : Word → Byte) (m : Memmap) : Memmap :=
  { m with ram := m.ram.map fun buf => hidden.piecewise secret buf }

def Reaches (m : Memmap) (addr size off : Word) : Prop :=
  size ≤ 4 ∧ ∃ o, m.ramOffsetForAddr addr size = some o ∧ off - o < size

structure SameLayout (m m' : Memmap) : Prop where
  ramOffset : m'.ramOffsetForAddr = m.ramOffsetForAddr
  ram : m'.ram.isSome = m.ram.isSome
  prot : m'.prot = m.prot

variable {H : Set Word} {S : Word → Byte}

theorem SameLayout.reaches {m m' : Memmap} (h : m.SameLayout m') {addr size off : Word} :
    m'.Reaches addr size off ↔ m.Reaches addr size off := by
  rw [Reaches, Reaches, h.ramOffset]

theorem veil_self {m : Memmap} {buf : Word → Byte} (ram : m.ram = some buf) : m.veil H buf = m := by
  simp only [veil, ram, Option.map_some, Set.piecewise_same]
  rw [← ram]

theorem eq_of_veil_eq {m : Memmap} (same : m.veil H S = m) {buf : Word → Byte}
    (ram : m.ram = some buf) {off : Word} (mem : off ∈ H) : buf off = S off := by
  classical
  have kept : m.ram.map (fun b => H.piecewise S b) = m.ram := congrArg Memmap.ram same
  rw [ram] at kept
  have byte : H.piecewise S buf off = buf off := congrFun (Option.some.inj kept) off
  rw [← byte, Set.piecewise_eq_of_mem _ _ _ mem]

open scoped Classical in
theorem readBufLe_piecewise {buf : Word → Byte} {o size : Word}
    (apart : ∀ off ∈ H, size ≤ 4 → ¬ off - o < size) :
    readBufLe (H.piecewise S buf) o size = readBufLe buf o size := by
  have byte (i : Word) (small : size ≤ 4) (inside : i < size) :
      H.piecewise S buf (o + i) = buf (o + i) := by
    refine Set.piecewise_eq_of_notMem _ _ _ fun mem => apart _ mem small ?_
    rwa [BitVec.add_comm o i, BitVec.add_sub_cancel]
  have first (small : size ≤ 4) (inside : 0 < size) :
      H.piecewise S buf o = buf o := by
    have start := byte 0 small inside
    rwa [BitVec.ofNat_eq_ofNat, BitVec.add_zero] at start
  simp only [readBufLe]
  split
  · rename_i h
    subst h
    rw [first (by decide) (by decide)]
  split
  · rename_i h
    subst h
    rw [first (by decide) (by decide), byte 1 (by decide) (by decide)]
  split
  · rename_i h
    subst h
    rw [first (by decide) (by decide), byte 1 (by decide) (by decide),
      byte 2 (by decide) (by decide)]
  split
  · rename_i h
    subst h
    rw [first (by decide) (by decide), byte 1 (by decide) (by decide),
      byte 2 (by decide) (by decide), byte 3 (by decide) (by decide)]
  · rfl

theorem isSome_readBufLe (buf buf' : Word → Byte) (o size : Word) :
    (readBufLe buf o size).isSome = (readBufLe buf' o size).isSome := by
  simp only [readBufLe]
  split
  · rfl
  split
  · rfl
  split
  · rfl
  split <;> rfl

open scoped Classical in
theorem piecewise_update {buf : Word → Byte} {i : Word} (b : Byte) (apart : i ∉ H) :
    Function.update (H.piecewise S buf) i b =
      H.piecewise S (Function.update buf i b) := by
  funext j
  by_cases same : j = i
  · subst same
    rw [Function.update_self, Set.piecewise_eq_of_notMem _ _ _ apart, Function.update_self]
  · rw [Function.update_of_ne same]
    by_cases mem : j ∈ H
    · rw [Set.piecewise_eq_of_mem _ _ _ mem, Set.piecewise_eq_of_mem _ _ _ mem]
    · rw [Set.piecewise_eq_of_notMem _ _ _ mem, Set.piecewise_eq_of_notMem _ _ _ mem,
        Function.update_of_ne same]

open scoped Classical in
theorem writeBufLe_piecewise {buf : Word → Byte} {o size value : Word}
    (apart : ∀ off ∈ H, size ≤ 4 → ¬ off - o < size) :
    writeBufLe (H.piecewise S buf) o size value =
      (writeBufLe buf o size value).map fun buf => H.piecewise S buf := by
  have byte (i : Word) (small : size ≤ 4) (inside : i < size) : o + i ∉ H := by
    refine fun mem => apart _ mem small ?_
    rwa [BitVec.add_comm o i, BitVec.add_sub_cancel]
  simp only [writeBufLe]
  split
  · rename_i h
    subst h
    rw [piecewise_update _ (byte _ (by decide) (by decide)),
      piecewise_update _ (byte _ (by decide) (by decide)),
      piecewise_update _ (byte _ (by decide) (by decide)),
      piecewise_update _ (byte _ (by decide) (by decide))]
    rfl
  split
  · rename_i h
    subst h
    rw [piecewise_update _ (byte _ (by decide) (by decide)),
      piecewise_update _ (byte _ (by decide) (by decide))]
    rfl
  split
  · rename_i h
    subst h
    rw [piecewise_update _ (byte _ (by decide) (by decide))]
    rfl
  · rfl

open scoped Classical in
theorem readRam_veil_eq (m : Memmap) (addr size : Word) :
    (m.veil H S).readRam addr size = m.ram.bind fun buf =>
      (m.ramOffsetForAddr addr size).bind fun o =>
        readBufLe (H.piecewise S buf) o size := by
  change (m.ram.map _).bind _ = _
  rw [Option.bind_map]
  rfl

theorem readRam_veil {m : Memmap} {addr size : Word}
    (apart : ∀ off ∈ H, ¬ m.Reaches addr size off) :
    (m.veil H S).readRam addr size = m.readRam addr size := by
  rw [readRam_veil_eq, readRam]
  refine Option.bind_congr fun buf _ => Option.bind_congr fun o reached => ?_
  exact readBufLe_piecewise fun off mem small inside => apart off mem ⟨small, o, reached, inside⟩

theorem isSome_readRam_veil (m : Memmap) (addr size : Word) :
    ((m.veil H S).readRam addr size).isSome = (m.readRam addr size).isSome := by
  rw [readRam_veil_eq, readRam]
  cases m.ram with
  | none => rfl
  | some buf =>
    cases m.ramOffsetForAddr addr size with
    | none => rfl
    | some o => exact isSome_readBufLe _ _ o size

open scoped Classical in
theorem writeRam_veil_eq (m : Memmap) (addr size value : Word) :
    (m.veil H S).writeRam addr size value = m.ram.bind fun buf =>
      (m.ramOffsetForAddr addr size).bind fun o =>
        (writeBufLe (H.piecewise S buf) o size value).map fun buf' =>
          { m with ram := some buf' } := by
  change (m.ram.map _).bind _ = _
  rw [Option.bind_map]
  rfl

theorem writeRam_veil {m : Memmap} {addr size : Word} (value : Word)
    (apart : ∀ off ∈ H, ¬ m.Reaches addr size off) :
    (m.veil H S).writeRam addr size value =
      (m.writeRam addr size value).map (veil H S) := by
  rw [writeRam_veil_eq, writeRam, Option.map_bind]
  refine Option.bind_congr fun buf _ => ?_
  rw [Function.comp, Option.map_bind]
  refine Option.bind_congr fun o reached => ?_
  rw [writeBufLe_piecewise fun off mem small inside => apart off mem ⟨small, o, reached, inside⟩,
    Function.comp, Option.map_map, Option.map_map]
  rfl

theorem writeRam_sameLayout {m m' : Memmap} {addr size value : Word}
    (h : m.writeRam addr size value = some m') : m.SameLayout m' := by
  simp only [writeRam, Option.bind_eq_some_iff, Option.map_eq_some_iff] at h
  obtain ⟨buf, ram, o, -, buf', -, rfl⟩ := h
  exact ⟨rfl, by rw [ram]; rfl, rfl⟩

end Memmap

namespace World

variable {δ : Type u} (env : Env δ)

def withRam (w : World δ) (ram : Option (Word → Byte)) : World δ :=
  { w with map := { w.map with ram := ram } }

noncomputable def veil (hidden : Set Word) (secret : Word → Byte) (w : World δ) : World δ :=
  { w with map := w.map.veil hidden secret }

/-- `cfg->mpcbb_block_secure` in the present state of the target. -/
def blockSecure (w : World δ) : Prot.BlockSecure := env.blockSecure.map fun f => f w.dev

def Walled (w : World δ) (off : Word) : Prop :=
  ∃ ctx, w.map.prot = some ctx ∧ ∀ addr size, w.map.Reaches addr size off →
    Prot.isSystemControl addr = false ∧
      Prot.attrForAddr ctx (w.blockSecure env) w.scs addr = .secure

structure SameWalls (w w' : World δ) : Prop where
  layout : w.map.SameLayout w'.map
  sau : Sau.attrForAddr w'.scs = Sau.attrForAddr w.scs
  blocks : w'.blockSecure env = w.blockSecure env

theorem SameWalls.refl (w : World δ) : w.SameWalls env w := ⟨⟨rfl, rfl, rfl⟩, rfl, rfl⟩

theorem SameWalls.trans {a b c : World δ} (h : a.SameWalls env b) (h' : b.SameWalls env c) :
    a.SameWalls env c where
  layout := ⟨h'.layout.ramOffset.trans h.layout.ramOffset, h'.layout.ram.trans h.layout.ram,
    h'.layout.prot.trans h.layout.prot⟩
  sau := h'.sau.trans h.sau
  blocks := h'.blocks.trans h.blocks

theorem SameWalls.of_scs (w : World δ) {scs : Scs}
    (sau : Sau.attrForAddr scs = Sau.attrForAddr w.scs) :
    w.SameWalls env { w with scs := scs } := ⟨⟨rfl, rfl, rfl⟩, sau, rfl⟩

theorem Walled.congr {w w' : World δ} {off : Word} (h : w.Walled env off)
    (same : w.SameWalls env w') : w'.Walled env off := by
  obtain ⟨ctx, prot, walled⟩ := h
  refine ⟨ctx, same.layout.prot.trans prot, fun addr size reaches => ?_⟩
  simp only [Prot.attrForAddr, same.blocks, same.sau]
  exact walled addr size (same.layout.reaches.mp reaches)

def RamFree (g : World δ → β × World δ) : Prop :=
  ∀ w ram, g (w.withRam ram) = ((g w).1, (g w).2.withRam ram)

section Veil

variable {env} {H : Set Word} {S : Word → Byte}

theorem RamFree.veil {g : World δ → β × World δ} (free : RamFree g) (w : World δ) :
    g (w.veil H S) = ((g w).1, (g w).2.veil H S) := by
  have same : (g w).2.map.ram = w.map.ram := by
    have own : g w = ((g w).1, (g w).2.withRam w.map.ram) := free w w.map.ram
    exact congrArg (fun o : β × World δ => o.2.map.ram) own
  have veiled : (g w).2.veil H S =
      (g w).2.withRam (w.veil H S).map.ram := by
    simp only [World.veil, withRam, Memmap.veil, same]
  rw [veiled]
  exact free w _

theorem interceptOk_veil (w : World δ) (type : AccessType) (sec : SecState) (addr size : Word) :
    (w.veil H S).interceptOk env type sec addr size =
      ((w.interceptOk env type sec addr size).1,
        (w.interceptOk env type sec addr size).2.veil H S) := by
  have prot : (w.veil H S).map.prot = w.map.prot := rfl
  simp only [interceptOk, prot]
  split <;> rfl

theorem interceptor_sau (ctx : ProtCtx) (blockSecure : Prot.BlockSecure) (scs : Scs)
    (type : AccessType) (sec : SecState) (addr size : Word) :
    Sau.attrForAddr (Prot.interceptor ctx blockSecure scs type sec addr size).2 =
      Sau.attrForAddr scs := by
  simp only [Prot.interceptor]
  split
  · rfl
  split
  · rfl
  split
  · rfl
  split <;> rfl

variable (env) in
theorem interceptOk_sameWalls (w : World δ) (type : AccessType) (sec : SecState)
    (addr size : Word) : w.SameWalls env (w.interceptOk env type sec addr size).2 := by
  simp only [interceptOk]
  split
  · exact .refl env w
  · exact .of_scs env w (interceptor_sau _ _ _ _ _ _ _)

variable (env) in
theorem interceptOk_notes {w : World δ} (prot : w.map.prot.isSome = true) (type : AccessType)
    (sec : SecState) (addr size : Word) (control : Prot.isSystemControl addr = true) :
    (w.interceptOk env type sec addr size).2.scs.lastAccessSec = sec := by
  obtain ⟨ctx, prot⟩ := Option.isSome_iff_exists.mp prot
  simp only [interceptOk, prot, Prot.interceptor, control, if_true]

theorem not_reaches_of_granted {w : World δ} {off : Word} (walled : w.Walled env off)
    (type : AccessType) (addr size : Word)
    (ok : (w.interceptOk env type .nonsecure addr size).1 = true) :
    ¬ w.map.Reaches addr size off := by
  obtain ⟨ctx, prot, secure⟩ := walled
  intro reaches
  obtain ⟨out, attr⟩ := secure addr size reaches
  simp only [interceptOk, prot, Prot.interceptor, out] at ok
  rw [show Prot.attrForAddr ctx (env.blockSecure.map fun f => f w.dev) w.scs addr = .secure
    from attr]
    at ok
  simp [Prot.admits] at ok

end Veil

end World

/-- A region whose callbacks keep to the SCS and the target's own state, and move no wall for
Non-secure state. -/
structure MmioRegion.Contained {δ : Type u} (env : Env δ) (r : MmioRegion δ) : Prop where
  read_free : ∀ offset size, World.RamFree (r.read offset size)
  write_free : ∀ offset size value, World.RamFree (r.write offset size value)
  read_walls : ∀ (w : World δ) offset size, w.SameWalls env (r.read offset size w).2
  write_walls : ∀ (w : World δ) offset size value, w.activeSec = .nonsecure →
    (Prot.isSystemControl (r.base + offset) = true → w.scs.lastAccessSec = .nonsecure) →
      w.SameWalls env (r.write offset size value w).2

structure Env.Contained {δ : Type u} (env : Env δ) : Prop where
  mmio : ∀ r ∈ env.mmio, r.Contained env
  flash_free : ∀ f ∈ env.flashWrite, ∀ addr size value, World.RamFree (f .nonsecure addr size value)
  flash_walls : ∀ f ∈ env.flashWrite, ∀ (w : World δ) addr size value,
    w.SameWalls env (f .nonsecure addr size value w).2

namespace ScsBlock

theorem sau_scbWrite (b : ScsBlock) (win : SecState) (value : Word) (reg : ScbReg) :
    Sau.attrForAddr (b.scbWrite win .nonsecure value reg).2.scs = Sau.attrForAddr b.scs := by
  cases reg
  case aircr =>
    simp only [scbWrite]
    split <;> rfl
  all_goals rfl

theorem sau_nvicWrite (b : ScsBlock) (eff : SecState) (offset size value : Word) :
    (b.nvicWrite eff offset size value).scs = b.scs := by
  simp only [nvicWrite]
  split
  · rfl
  · split <;> rfl

theorem sau_scsWrite {b : ScsBlock} {win : SecState} (ns : b.effSec win = .nonsecure)
    (offset size value : Word) :
    Sau.attrForAddr (b.scsWrite win offset size value).2.scs = Sau.attrForAddr b.scs := by
  simp only [scsWrite, ns]
  split
  · rfl
  split
  · split
    · exact congrArg Sau.attrForAddr (sau_nvicWrite b _ offset size value)
    · exact congrArg Sau.attrForAddr (sau_nvicWrite b _ offset size value)
    · rename_i reg _ _
      cases reg <;> rfl
  split
  · split
    · exact sau_scbWrite b win _ _
    · rfl
  · rfl

theorem sau_scsRead (b : ScsBlock) (win : SecState) (offset size : Word) :
    Sau.attrForAddr (b.scsRead win offset size).2.scs = Sau.attrForAddr b.scs := by
  simp only [scsRead]
  split
  · rfl
  split
  · split
    · rename_i reg _
      cases reg <;> rfl
    · rfl
  · rfl

end ScsBlock

namespace World

theorem scsRegions_contained {δ : Type u} (env : Env δ) :
    ∀ r ∈ scsRegions, MmioRegion.Contained env r := by
  have walls (w : World δ) {b : ScsBlock} (sau : Sau.attrForAddr b.scs = Sau.attrForAddr w.scs) :
      w.SameWalls env { w with toScsBlock := b } := ⟨⟨rfl, rfl, rfl⟩, sau, rfl⟩
  have window (base : Word) (sec : SecState) (control : ∀ w : World δ, w.scs.lastAccessSec =
      .nonsecure → w.toScsBlock.effSec sec = .nonsecure)
      (inside : ∀ offset, offset < 0x1000 →
        Prot.isSystemControl (base - scsScbOffset + offset) = true) :
      MmioRegion.Contained env (scsWindow base sec) := by
    refine ⟨fun _ _ _ _ => rfl, fun _ _ _ _ _ => rfl, fun w offset size => ?_,
      fun w offset size value _ noted => ?_⟩
    · exact walls w (ScsBlock.sau_scsRead _ sec offset size)
    · by_cases page : offset < 0x1000
      · exact walls w
          (ScsBlock.sau_scsWrite (control w (noted (inside offset page))) offset size value)
      · have refused : w.toScsBlock.scsWrite sec offset size value = (false, w.toScsBlock) :=
          if_pos (BitVec.not_lt.mp page)
        exact walls w (congrArg (fun o : Bool × ScsBlock => Sau.attrForAddr o.2.scs) refused)
  intro r mem
  have cases : r = scsWindow 0xE000ED00 .secure ∨ r = scsWindow 0xE002ED00 .nonsecure := by
    simpa [scsRegions] using mem
  rcases cases with rfl | rfl
  · refine window _ _ (fun w noted => noted) fun offset page => ?_
    have low : 0xE000E000 ≤ 0xE000ED00 - scsScbOffset + offset := by
      simp only [scsScbOffset]
      bv_omega
    have high : 0xE000ED00 - scsScbOffset + offset < 0xE0010000 := by
      simp only [scsScbOffset]
      bv_omega
    simp only [Prot.isSystemControl, low, high, decide_true, Bool.and_true, Bool.true_or]
  · refine window _ _ (fun w _ => rfl) fun offset page => ?_
    have low : 0xE002E000 ≤ 0xE002ED00 - scsScbOffset + offset := by
      simp only [scsScbOffset]
      bv_omega
    have high : 0xE002ED00 - scsScbOffset + offset < 0xE0030000 := by
      simp only [scsScbOffset]
      bv_omega
    simp only [Prot.isSystemControl, low, high, decide_true, Bool.and_true, Bool.true_or,
      Bool.or_true]

section Access

variable {δ : Type u} {env : Env δ} (contained : env.Contained) {H : Set Word}
  {S : Word → Byte}

theorem mem_of_busFind {addr : Word} {r : MmioRegion δ} (found : busFind env addr = some r) :
    r ∈ env.mmio := List.mem_of_find?_eq_some found

include contained

theorem busRead_veil (w : World δ) (addr size : Word) :
    (w.veil H S).busRead env addr size =
      ((w.busRead env addr size).1, (w.busRead env addr size).2.veil H S) := by
  simp only [busRead]
  split
  · rename_i r found
    exact ((contained.mmio r (mem_of_busFind found)).read_free _ _).veil w
  · rfl

theorem busRead_sameWalls (w : World δ) (addr size : Word) :
    w.SameWalls env (w.busRead env addr size).2 := by
  simp only [busRead]
  split
  · rename_i r found
    exact (contained.mmio r (mem_of_busFind found)).read_walls w _ _
  · exact .refl env w

theorem busWrite_veil (w : World δ) (addr size value : Word) :
    (w.veil H S).busWrite env addr size value =
      ((w.busWrite env addr size value).1,
        (w.busWrite env addr size value).2.veil H S) := by
  simp only [busWrite]
  split
  · rename_i r found
    exact ((contained.mmio r (mem_of_busFind found)).write_free _ _ _).veil w
  · rfl

theorem busWrite_sameWalls {w : World δ} {addr : Word} (size value : Word)
    (ns : w.activeSec = .nonsecure)
    (noted : Prot.isSystemControl addr = true → w.scs.lastAccessSec = .nonsecure) :
    w.SameWalls env (w.busWrite env addr size value).2 := by
  simp only [busWrite]
  split
  · rename_i r found
    refine (contained.mmio r (mem_of_busFind found)).write_walls w _ _ _ ns ?_
    rwa [BitVec.add_comm, BitVec.sub_add_cancel]
  · exact .refl env w

theorem read_veil {w : World δ} (walled : ∀ off ∈ H, w.Walled env off) (addr size : Word) :
    (w.veil H S).read env .nonsecure addr size =
      ((w.read env .nonsecure addr size).1,
        (w.read env .nonsecure addr size).2.veil H S) := by
  have apart := fun off mem => not_reaches_of_granted (walled off mem) .read addr size
  have map := interceptOk_map env w .read .nonsecure addr size
  simp only [read, interceptOk_veil]
  generalize w.interceptOk env .read .nonsecure addr size = o at apart map ⊢
  obtain ⟨ok, w'⟩ := o
  cases ok with
  | false => rfl
  | true =>
    have flash : (w'.veil H S).map.readFlash addr size = w'.map.readFlash addr size := rfl
    have ram : (w'.veil H S).map.readRam addr size = w'.map.readRam addr size :=
      Memmap.readRam_veil (map ▸ fun off mem => apart off mem rfl)
    simp only [flash, ram, Bool.not_true, Bool.false_eq_true, if_false]
    cases w'.map.readFlash addr size <|> w'.map.readRam addr size with
    | some v => rfl
    | none => exact busRead_veil contained { w' with activeSec := .nonsecure } addr size

theorem read_veil_any (w : World δ) (sec : SecState) (addr size : Word) :
    ∃ v, (w.veil H S).read env sec addr size =
        (v, (w.read env sec addr size).2.veil H S) ∧
      v.isSome = (w.read env sec addr size).1.isSome := by
  simp only [read, interceptOk_veil]
  generalize w.interceptOk env .read sec addr size = o
  obtain ⟨ok, w'⟩ := o
  cases ok with
  | false => exact ⟨none, rfl, rfl⟩
  | true =>
    have flash : (w'.veil H S).map.readFlash addr size = w'.map.readFlash addr size := rfl
    have ram : ((w'.veil H S).map.readRam addr size).isSome =
        (w'.map.readRam addr size).isSome := Memmap.isSome_readRam_veil w'.map addr size
    simp only [flash, Bool.not_true, Bool.false_eq_true, if_false, Option.orElse_eq_orElse,
      Option.orElse_eq_or]
    generalize (w'.veil H S).map.readRam addr size = v' at ram ⊢
    generalize w'.map.readRam addr size = v at ram ⊢
    cases w'.map.readFlash addr size with
    | some v => exact ⟨some v, rfl, rfl⟩
    | none =>
      cases v with
      | some v =>
        obtain ⟨v', rfl⟩ := Option.isSome_iff_exists.mp ram
        exact ⟨some v', rfl, rfl⟩
      | none =>
        obtain rfl : v' = none := Option.isNone_iff_eq_none.mp (Option.isSome_eq_false_iff.mp ram)
        exact ⟨_, busRead_veil contained { w' with activeSec := sec } addr size, rfl⟩

theorem read_sameWalls (w : World δ) (sec : SecState) (addr size : Word) :
    w.SameWalls env (w.read env sec addr size).2 := by
  have granted := interceptOk_sameWalls env w .read sec addr size
  simp only [read]
  generalize w.interceptOk env .read sec addr size = o at granted ⊢
  obtain ⟨ok, w'⟩ := o
  cases ok with
  | false => exact granted
  | true =>
    simp only [Bool.not_true, Bool.false_eq_true, if_false]
    split
    · exact granted
    · have active : w'.SameWalls env { w' with activeSec := sec } := ⟨⟨rfl, rfl, rfl⟩, rfl, rfl⟩
      exact (granted.trans env active).trans env (busRead_sameWalls contained _ addr size)

theorem writeRamOrBus_veil {w : World δ} (addr size value : Word)
    (apart : ∀ off ∈ H, ¬ w.map.Reaches addr size off) :
    (w.veil H S).writeRamOrBus env .nonsecure addr size value =
      ((w.writeRamOrBus env .nonsecure addr size value).1,
        (w.writeRamOrBus env .nonsecure addr size value).2.veil H S) := by
  have ram : (w.veil H S).map.writeRam addr size value =
      (w.map.writeRam addr size value).map (Memmap.veil H S) :=
    Memmap.writeRam_veil value apart
  have bus := busWrite_veil contained (H := H) (S := S)
    { w with activeSec := .nonsecure } addr size value
  simp only [writeRamOrBus, ram]
  cases w.map.writeRam addr size value with
  | some m => rfl
  | none =>
    change (_, _) = (_, _)
    rw [show busWrite env { w.veil H S with activeSec := .nonsecure } addr size value = _
      from bus]

theorem writeRamOrBus_sameWalls {w : World δ} {addr : Word} (size value : Word)
    (noted : Prot.isSystemControl addr = true → w.scs.lastAccessSec = .nonsecure) :
    w.SameWalls env (w.writeRamOrBus env .nonsecure addr size value).2 := by
  simp only [writeRamOrBus]
  split
  · rename_i m h
    exact ⟨Memmap.writeRam_sameLayout h, rfl, rfl⟩
  · have active : w.SameWalls env { w with activeSec := .nonsecure } := ⟨⟨rfl, rfl, rfl⟩, rfl, rfl⟩
    exact active.trans env (busWrite_sameWalls contained size value rfl noted)

theorem write_veil {w : World δ} (walled : ∀ off ∈ H, w.Walled env off)
    (addr size value : Word) : (w.veil H S).write env .nonsecure addr size value =
      ((w.write env .nonsecure addr size value).1,
        (w.write env .nonsecure addr size value).2.veil H S) := by
  have apart := fun off mem => not_reaches_of_granted (walled off mem) .write addr size
  have map := interceptOk_map env w .write .nonsecure addr size
  simp only [write, interceptOk_veil]
  generalize w.interceptOk env .write .nonsecure addr size = o at apart map ⊢
  obtain ⟨ok, w'⟩ := o
  cases ok with
  | false => rfl
  | true =>
    have plain := writeRamOrBus_veil contained (H := H) (S := S) (w := w') addr size value
      (map ▸ fun off mem => apart off mem rfl)
    simp only [Bool.not_true, Bool.false_eq_true, if_false]
    split
    · rename_i f flash
      have present : (w'.veil H S).map.flash = w'.map.flash := rfl
      have offsets : (w'.veil H S).map.flashOffsets addr size =
          w'.map.flashOffsets addr size := rfl
      rw [present, offsets]
      split
      · exact (contained.flash_free f flash addr size value).veil w'
      · exact plain
    · exact plain

theorem write_sameWalls {w : World δ} (prot : w.map.prot.isSome = true) (addr size value : Word) :
    w.SameWalls env (w.write env .nonsecure addr size value).2 := by
  have granted := interceptOk_sameWalls env w .write .nonsecure addr size
  have noted := interceptOk_notes env prot .write .nonsecure addr size
  simp only [write]
  generalize w.interceptOk env .write .nonsecure addr size = o at granted noted ⊢
  obtain ⟨ok, w'⟩ := o
  cases ok with
  | false => exact granted
  | true =>
    have plain := granted.trans env (writeRamOrBus_sameWalls contained size value noted)
    simp only [Bool.not_true, Bool.false_eq_true, if_false]
    split
    · rename_i f flash
      split
      · exact granted.trans env (contained.flash_walls f flash w' addr size value)
      · exact plain
    · exact plain

open scoped Classical in
theorem read8_veil {w : World δ} (walled : ∀ off ∈ H, w.Walled env off) (addr : Word) :
    (w.veil H S).read8 env .nonsecure addr =
      ((w.read8 env .nonsecure addr).1, (w.read8 env .nonsecure addr).2.veil H S) := by
  have apart := fun off mem => not_reaches_of_granted (walled off mem) .read addr 1
  have map := interceptOk_map env w .read .nonsecure addr 1
  simp only [read8, interceptOk_veil]
  generalize w.interceptOk env .read .nonsecure addr 1 = o at apart map ⊢
  obtain ⟨ok, w'⟩ := o
  cases ok with
  | false => rfl
  | true =>
    have bus := busRead_veil contained (H := H) (S := S) w' addr 1
    have ram : ((w'.veil H S).map.ram.bind fun buf =>
        (w'.map.ramOffsetForAddr addr 1).map buf) =
          w'.map.ram.bind fun buf => (w'.map.ramOffsetForAddr addr 1).map buf := by
      change (w'.map.ram.map _).bind _ = _
      rw [Option.bind_map]
      refine Option.bind_congr fun buf _ => Option.map_congr fun o reached => ?_
      refine Set.piecewise_eq_of_notMem _ _ _ fun mem => ?_
      refine apart o mem rfl ⟨by decide, o, map ▸ reached, ?_⟩
      rw [BitVec.sub_self]
      decide
    have flash : (w'.veil H S).map.flash = w'.map.flash := rfl
    have windows : (w'.veil H S).map.flashWindows = w'.map.flashWindows := rfl
    have offset : (w'.veil H S).map.ramOffsetForAddr = w'.map.ramOffsetForAddr := rfl
    simp only [flash, windows, offset, ram, bus, Bool.not_true, Bool.false_eq_true, if_false]
    split <;> rfl

theorem read8_sameWalls (w : World δ) (sec : SecState) (addr : Word) :
    w.SameWalls env (w.read8 env sec addr).2 := by
  have granted := interceptOk_sameWalls env w .read sec addr 1
  simp only [read8]
  generalize w.interceptOk env .read sec addr 1 = o at granted ⊢
  obtain ⟨ok, w'⟩ := o
  cases ok with
  | false => exact granted
  | true =>
    simp only [Bool.not_true, Bool.false_eq_true, if_false]
    split
    · exact granted
    · exact granted.trans env (busRead_sameWalls contained w' addr 1)

end Access

section Fetch

variable {δ : Type u} {env : Env δ} {H : Set Word} {S : Word → Byte}

theorem fetchRead16_veil {w : World δ} (walled : ∀ off ∈ H, w.Walled env off) (addr : Word) :
    (w.veil H S).fetchRead16 env .nonsecure addr =
      ((w.fetchRead16 env .nonsecure addr).1,
        (w.fetchRead16 env .nonsecure addr).2.veil H S) := by
  have apart := fun off mem => not_reaches_of_granted (walled off mem) .exec addr 2
  have map := interceptOk_map env w .exec .nonsecure addr 2
  simp only [fetchRead16, interceptOk_veil]
  generalize w.interceptOk env .exec .nonsecure addr 2 = o at apart map ⊢
  obtain ⟨ok, w'⟩ := o
  cases ok with
  | false => rfl
  | true =>
    have flash : (w'.veil H S).map.readFlash addr 2 = w'.map.readFlash addr 2 := rfl
    have ram : (w'.veil H S).map.readRam addr 2 = w'.map.readRam addr 2 :=
      Memmap.readRam_veil (map ▸ fun off mem => apart off mem rfl)
    simp only [Memmap.fetchHalf, flash, ram]
    rfl

variable (env) in
theorem fetchRead16_sameWalls (w : World δ) (sec : SecState) (addr : Word) :
    w.SameWalls env (w.fetchRead16 env sec addr).2 := by
  have granted := interceptOk_sameWalls env w .exec sec addr 2
  simp only [fetchRead16]
  generalize w.interceptOk env .exec sec addr 2 = o at granted ⊢
  obtain ⟨ok, w'⟩ := o
  cases ok <;> exact granted

end Fetch

end World

end M33mu
