import M33mu.MapBounds
import M33mu.ThumbMemory

namespace M33mu

open Lib

def MemAccess.within (lo : Word) (size : Nat) : MemAccess where
  reads a n := decide ((n = 1 ∨ n = 2 ∨ n = 4) ∧ ByteMem.dist lo a + n ≤ size)
  writes a n := decide ((n = 1 ∨ n = 2 ∨ n = 4) ∧ ByteMem.dist lo a + n ≤ size)

namespace MemAccess

variable {lo a : Word} {size n : Nat}

theorem within_iff : (within lo size).reads a n = true ↔
    (n = 1 ∨ n = 2 ∨ n = 4) ∧ ByteMem.dist lo a + n ≤ size :=
  decide_eq_true_iff

theorem sized_of_within (ok : (within lo size).reads a n = true) :
    Sized (BitVec.ofNat 32 n) ∧ n ≤ 4 := by
  rcases (within_iff.mp ok).1 with rfl | rfl | rfl
  · exact ⟨.inl rfl, by decide⟩
  · exact ⟨.inr (.inl rfl), by decide⟩
  · exact ⟨.inr (.inr rfl), by decide⟩

theorem inside_of_within (ok : (within lo size).reads a n = true) :
    ByteMem.dist lo a + (BitVec.ofNat 32 n).toNat ≤ size := by
  have low : n < 2 ^ 32 := Nat.lt_of_le_of_lt (sized_of_within ok).2 (by decide)
  rw [BitVec.toNat_ofNat, Nat.mod_eq_of_lt low]
  exact (within_iff.mp ok).2

end MemAccess

def Thumb.placed (base : Word) (code : List Thumb) (a : Word) : Option Thumb :=
  if ByteMem.dist base a % 2 = 0 then code[ByteMem.dist base a / 2]? else none

theorem Thumb.placed_eq_some {base a : Word} {code : List Thumb} {i : Thumb}
    (here : placed base code a = some i) :
    ∃ k, code[k]? = some i ∧ a = base + BitVec.ofNat 32 (2 * k) := by
  rw [placed] at here
  split at here
  · rename_i even
    refine ⟨_, here, ?_⟩
    rw [Nat.mul_div_cancel' (Nat.dvd_of_mod_eq_zero even), ByteMem.add_dist]
  · cases here

namespace Window

def place (v : Window) (lo : Word) (size : Nat) (a : Word) : Option (Buffer × Word) :=
  if ByteMem.dist lo a < size then some (.ram, v.offset a) else none

theorem offset_inj {v : Window} {a b : Word} (same : v.offset a = v.offset b) : a = b := by
  rw [offset, offset, BitVec.add_right_inj] at same
  rw [← BitVec.sub_add_cancel a v.base, same, BitVec.sub_add_cancel]

variable {lo a n : Word} {size : Nat}

theorem place_of_within {v : Window} (near : ByteMem.dist lo a < size) :
    v.place lo size a = some (.ram, v.offset a) :=
  if_pos near

theorem row_place (v : Window) (fits : size ≤ 2 ^ 32) (inside : ByteMem.dist lo a + n.toNat ≤ size) :
    World.Row (v.place lo size) a n (.ram, v.offset a) := by
  intro k below
  have past : ByteMem.dist lo (a + BitVec.ofNat 32 k) = ByteMem.dist lo a + k :=
    ByteMem.dist_add_right (by omega)
  rw [place_of_within (by omega), offset_add]

end Window

namespace World

variable {δ : Type u} {env : Env δ} {sec : SecState} {prog : Word → Option Thumb} {w : World δ}

structure Windowed (env : Env δ) (sec : SecState) (prog : Word → Option Thumb) (lo : Word)
    (size : Nat) (v : Window) (w : World δ) : Prop where
  fits : size ≤ 2 ^ 32
  data : ∀ a n, (MemAccess.within lo size).reads a n = true →
    w.map.readTaken a (BitVec.ofNat 32 n) = some (.ram, v) ∧
    w.map.ramTaken a (BitVec.ofNat 32 n) = some (.ram, v) ∧
    ¬ w.ProgramsFlash env a (BitVec.ofNat 32 n) ∧
    w.Granted env .read sec a (BitVec.ofNat 32 n) ∧ w.Granted env .write sec a (BitVec.ofNat 32 n)
  code : ∀ a i, prog a = some i → i.Proper ∧ w.Granted env .exec sec a 2 ∧
    (∃ u, w.map.readTaken a 2 = some (.flash, u)) ∧
    w.map.fetchHalf a = some (i.encode.setWidth 32)

theorem Windowed.serves {lo : Word} {size : Nat} {v : Window}
    (windowed : Windowed env sec prog lo size v w) :
    Serves env sec (.within lo size) prog (v.place lo size) w where
  once a b p here there := by
    rw [Window.place] at here there
    split at here
    · split at there
      · cases here
        exact Window.offset_inj (congrArg Prod.snd (Option.some.inj there)).symm
      · cases there
    · cases here
  sized a n ok := MemAccess.sized_of_within (ok.elim id id)
  mayRead a n ok := (windowed.data a n ok).2.2.2.1
  reads a n ok :=
    ⟨_, by rw [Memmap.loadPlace, (windowed.data a n ok).1]; rfl,
      Window.row_place v windowed.fits (MemAccess.inside_of_within ok)⟩
  mayWrite a n ok := (windowed.data a n ok).2.2.2.2
  writes a n ok :=
    ⟨(windowed.data a n ok).2.2.1, _, by rw [Memmap.storePlace, (windowed.data a n ok).2.1]; rfl,
      Window.row_place v windowed.fits (MemAccess.inside_of_within ok)⟩
  mayFetch a i here := ⟨(windowed.code a i here).1, (windowed.code a i here).2.1⟩
  code a i here := (windowed.code a i here).2.2.2
  apart a i p here found k low x n ok j below := by
    obtain ⟨u, taken⟩ := (windowed.code a i here).2.2.1
    rw [Memmap.loadPlace, taken] at found
    cases found
    rw [Window.place]
    split
    · intro same
      have first := congrArg Prod.fst (Option.some.inj same)
      cases first
    · intro same
      cases same

end World

namespace Board

def ramWindow : Window := ⟨0x20000000, 0x10000, 0⟩

def flashWindow : Window := ⟨0, 0x1000, 0⟩

variable {image : List (Word × Word)} {prog : Word → Option Thumb} {sec : SecState}

theorem flashViews_flashed : (flashed image).map.flashViews = [flashWindow, flashWindow] := rfl

theorem ramViews_flashed :
    (flashed image).map.ramViews = [ramWindow, ramWindow, ⟨0, 0x10000, 0⟩] := rfl

variable {a : Word} {n : Nat}

theorem admits_ram (inside : (MemAccess.within 0x20000000 0x10000).reads a n = true) :
    ramWindow.Admits a (BitVec.ofNat 32 n) ∧ ¬ flashWindow.Admits a (BitVec.ofNat 32 n) := by
  have low := (MemAccess.sized_of_within inside).2
  have room := (MemAccess.within_iff.mp inside).2
  rw [ByteMem.dist, BitVec.toNat_sub] at room
  have high := a.isLt
  have base : (0x20000000 : Word).toNat = 0x20000000 := rfl
  have limit : (0x10000 : Word).toNat = 0x10000 := rfl
  have flash : (0x1000 : Word).toNat = 0x1000 := rfl
  have zero : (0 : Word).toNat = 0 := rfl
  simp only [Window.Admits, ramWindow, flashWindow, BitVec.le_def, BitVec.toNat_add,
    BitVec.toNat_sub, BitVec.toNat_ofNat, base, limit, flash, zero] at room ⊢
  omega

theorem ramTaken_flashed (inside : (MemAccess.within 0x20000000 0x10000).reads a n = true) :
    (flashed image).map.ramTaken a (BitVec.ofNat 32 n) = some (.ram, ramWindow) := by
  rw [Memmap.ramTaken, ramViews_flashed, firstView_cons, if_pos (admits_ram inside).1]
  rfl

theorem flashTaken_flashed (inside : (MemAccess.within 0x20000000 0x10000).reads a n = true) :
    (flashed image).map.flashTaken a (BitVec.ofNat 32 n) = none := by
  have apart := (admits_ram inside).2
  rw [Memmap.flashTaken, flashViews_flashed, firstView_cons, if_neg apart, firstView_cons,
    if_neg apart]
  rfl

theorem windowed (code : ∀ a i, prog a = some i → i.Proper ∧ a < 0xFFF ∧
      (flashed image).map.fetchHalf a = some (i.encode.setWidth 32)) :
    World.Windowed env sec prog 0x20000000 0x10000 ramWindow (flashed image) where
  fits := by decide
  data a n ok := by
    refine ⟨?_, ramTaken_flashed ok, fun is => Bool.false_ne_true is.1, rfl, rfl⟩
    rw [Memmap.readTaken, flashTaken_flashed ok, ramTaken_flashed ok]
    rfl
  code a i here := by
    obtain ⟨proper, low, found⟩ := code a i here
    refine ⟨proper, rfl, ⟨flashWindow, ?_⟩, found⟩
    have admits : flashWindow.Admits a 2 := by
      have high := a.isLt
      rw [BitVec.lt_def] at low
      rw [Window.Admits, flashWindow]
      simp only [BitVec.le_def, BitVec.toNat_add, BitVec.toNat_sub]
      have flash : (0x1000 : Word).toNat = 0x1000 := rfl
      have last : (0xFFF : Word).toNat = 0xFFF := rfl
      have two : (2 : Word).toNat = 2 := rfl
      have zero : (0 : Word).toNat = 0 := rfl
      omega
    rw [Memmap.readTaken, Memmap.flashTaken, flashViews_flashed, firstView_cons, if_pos admits]
    rfl

theorem windowed_placed {code : List Thumb} (proper : ∀ i ∈ code, i.Proper)
    (short : code.length < 0x700) (found : ∀ k, (h : k < code.length) →
      (flashed image).map.fetchHalf (BitVec.ofNat 32 (2 * k)) =
        some (code[k].encode.setWidth 32)) :
    World.Windowed env sec (Thumb.placed 0 code) 0x20000000 0x10000 ramWindow (flashed image) := by
  refine windowed fun a i here => ?_
  obtain ⟨k, at', rfl⟩ := Thumb.placed_eq_some here
  obtain ⟨inside, rfl⟩ := List.getElem?_eq_some_iff.mp at'
  have here : (0 : Word) + BitVec.ofNat 32 (2 * k) = BitVec.ofNat 32 (2 * k) := BitVec.zero_add _
  rw [here]
  refine ⟨proper _ (List.getElem_mem inside), ?_, found k inside⟩
  rw [BitVec.lt_def, BitVec.toNat_ofNat, Nat.mod_eq_of_lt (by omega)]
  exact Nat.lt_of_lt_of_le (show 2 * k < 0xE00 by omega) (by decide)

end Board

end M33mu
