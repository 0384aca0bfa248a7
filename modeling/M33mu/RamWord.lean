import M33mu.Memmap

namespace M33mu

namespace Memmap

theorem writeBufLe_apply {buf buf' : Word → Byte} {off v : Word}
    (stored : writeBufLe buf off 4 v = some buf') (i : Nat) (low : i < 4) :
    buf' (off + BitVec.ofNat 32 i) = (v >>> (8 * i)).setWidth 8 := by
  have inj (j : Nat) (low' : j < 4) :
      off + BitVec.ofNat 32 i = off + BitVec.ofNat 32 j ↔ i = j := by
    rw [BitVec.add_right_inj]
    constructor
    · intro eq
      have nat := congrArg BitVec.toNat eq
      simp only [BitVec.toNat_ofNat] at nat
      omega
    · exact fun eq => by rw [eq]
  rw [writeBufLe, if_pos rfl, Option.some.injEq] at stored
  rw [← stored]
  simp only [Function.update_apply, inj 0 (by decide), inj 1 (by decide), inj 2 (by decide),
    inj 3 (by decide)]
  have cases : i = 0 ∨ i = 1 ∨ i = 2 ∨ i = 3 := by omega
  rcases cases with rfl | rfl | rfl | rfl <;> rfl

theorem readBufLe_of_writeBufLe {buf buf' : Word → Byte} {off v : Word}
    (stored : writeBufLe buf off 4 v = some buf') : readBufLe buf' off 4 = some v := by
  have byte (i : Nat) (low : i < 4) := writeBufLe_apply stored i low
  have read : readBufLe buf' off 4 = some (buf' (off + BitVec.ofNat 32 3) ++
      buf' (off + BitVec.ofNat 32 2) ++ buf' (off + BitVec.ofNat 32 1) ++
      buf' (off + BitVec.ofNat 32 0)) := by
    simp [readBufLe]
  rw [read, byte 3 (by decide), byte 2 (by decide), byte 1 (by decide), byte 0 (by decide)]
  refine congrArg some (BitVec.eq_of_getLsbD_eq fun i hi => ?_)
  simp only [BitVec.getLsbD_append, BitVec.getLsbD_setWidth, BitVec.getLsbD_ushiftRight]
  grind

theorem readRam_of_writeRam {m m' : Memmap} {addr v : Word} (stored : m.writeRam addr 4 v = some m') :
    m'.readRam addr 4 = some v ∧ m'.readFlash addr 4 = m.readFlash addr 4 := by
  simp only [writeRam, Option.bind_eq_some_iff, Option.map_eq_some_iff] at stored
  obtain ⟨buf, ram, off, offset, buf', write, rfl⟩ := stored
  refine ⟨?_, rfl⟩
  have offset : ({ m with ram := some buf' } : Memmap).ramOffsetForAddr addr 4 = some off := offset
  simp only [readRam, offset, Option.bind_some]
  exact readBufLe_of_writeBufLe write

theorem exists_writeRam {m : Memmap} {addr x : Word} (holds : m.readRam addr 4 = some x)
    (v : Word) : ∃ m', m.writeRam addr 4 v = some m' := by
  simp only [readRam, Option.bind_eq_some_iff] at holds
  obtain ⟨buf, ram, off, offset, -⟩ := holds
  rw [writeRam, ram, Option.bind_some, offset, Option.bind_some, writeBufLe, if_pos rfl]
  exact ⟨_, rfl⟩

theorem flash_of_readFlash {m : Memmap} {addr : Word} (none : m.readFlash addr 4 = none) :
    ¬ (m.flash.isSome ∧ m.flashOffsets addr 4 ≠ []) := by
  rintro ⟨some, any⟩
  obtain ⟨buf, flash⟩ := Option.isSome_iff_exists.mp some
  obtain ⟨off, offs, offsets⟩ := List.exists_cons_of_ne_nil any
  rw [readFlash, flash, Option.bind_some, offsets, List.findSome?_cons] at none
  simp [readBufLe] at none

end Memmap

namespace World

variable {δ : Type u} (env : Env δ)

def ramWord (w : World δ) (addr : Word) : Option Word :=
  match w.map.readFlash addr 4 with
  | none => w.map.readRam addr 4
  | some _ => none

theorem ramWord_eq_some {w : World δ} {addr v : Word} :
    w.ramWord addr = some v ↔ w.map.readFlash addr 4 = none ∧ w.map.readRam addr 4 = some v := by
  rw [ramWord]
  cases w.map.readFlash addr 4 with
  | none => exact ⟨fun holds => ⟨rfl, holds⟩, And.right⟩
  | some _ => exact ⟨nofun, nofun⟩

theorem ramWord_congr {w w' : World δ} (same : w'.map = w.map) (addr : Word) :
    w'.ramWord addr = w.ramWord addr := by
  rw [ramWord, same, ramWord]

theorem interceptOk_map (w : World δ) (type : AccessType) (sec : SecState) (addr size : Word) :
    (w.interceptOk env type sec addr size).2.map = w.map := by
  simp only [interceptOk]
  split <;> rfl

theorem read_of_ramWord {w w' : World δ} {sec : SecState} {addr v x : Word}
    (holds : w.ramWord addr = some x) (read : w.read env sec addr 4 = (some v, w')) :
    v = x ∧ w'.map = w.map := by
  obtain ⟨flash, ram⟩ := ramWord_eq_some.mp holds
  have map := interceptOk_map env w .read sec addr 4
  simp only [World.read] at read
  generalize w.interceptOk env .read sec addr 4 = r at map read
  obtain ⟨ok, w₁⟩ := r
  simp only at map read
  rw [map, flash, ram] at read
  cases ok with
  | false => simp at read
  | true =>
    have read : (some x, w₁) = (some v, w') := read
    simp only [Prod.mk.injEq, Option.some.injEq] at read
    exact ⟨read.1.symm, read.2 ▸ map⟩

theorem ramWord_of_write {w w' : World δ} {sec : SecState} {addr v x : Word}
    (holds : w.ramWord addr = some x) (write : w.write env sec addr 4 v = (true, w')) :
    w'.ramWord addr = some v := by
  obtain ⟨flash, inRam⟩ := ramWord_eq_some.mp holds
  obtain ⟨m', stored⟩ := Memmap.exists_writeRam inRam v
  obtain ⟨ram, kept⟩ := Memmap.readRam_of_writeRam stored
  have map := interceptOk_map env w .write sec addr 4
  simp only [World.write] at write
  generalize w.interceptOk env .write sec addr 4 = r at map write
  obtain ⟨ok, w₁⟩ := r
  have map : w₁.map = w.map := map
  have noFlash : ¬ (w₁.map.flash.isSome ∧ w₁.map.flashOffsets addr 4 ≠ []) := by
    rw [map]
    exact Memmap.flash_of_readFlash flash
  have direct : w₁.writeRamOrBus env sec addr 4 v = (true, { w₁ with map := m' }) := by
    simp only [writeRamOrBus, map, stored]
  cases ok with
  | false => simp at write
  | true =>
    have written : w' = { w₁ with map := m' } := by
      simp only [Bool.not_true, Bool.false_eq_true, if_false, noFlash, direct] at write
      split at write <;> exact (congrArg Prod.snd write).symm
    rw [written]
    exact ramWord_eq_some.mpr ⟨kept.trans flash, ram⟩

theorem fetchRead16_map (w : World δ) (sec : SecState) (addr : Word) :
    (w.fetchRead16 env sec addr).2.map = w.map := by
  have map := interceptOk_map env w .exec sec addr 2
  simp only [fetchRead16]
  split <;> exact map

end World

end M33mu
