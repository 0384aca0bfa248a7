import Mathlib.Data.List.Nodup
import Mathlib.Logic.Function.Basic
import M33mu.Types

/-!
The image files of `--persist`: the range of the flash that each of them holds, and the flush after
a change. Files open and take what is written.
-/

namespace M33mu

/-- A file and the part of the flash that it holds; the path may be null. -/
structure PersistRange (π : Type u) where
  path : Option π
  offset : Word
  length : Word

namespace PersistRange

variable {π : Type u}

/-- The range ends where `offset + length` does, a sum of 32 bits. -/
def Has (r : PersistRange π) (addr : Word) : Prop :=
  r.offset ≤ addr ∧ addr < r.offset + r.length

def bytes (r : PersistRange π) (flash : Word → Byte) : List Byte :=
  (List.range r.length.toNat).map fun i => flash (r.offset + BitVec.ofNat 32 i)

end PersistRange

/-- `mm_flash_persist`, beside the flash that it is of. -/
structure FlashPersist (π : Type u) where
  enabled : Bool
  ranges : List (PersistRange π)

namespace FlashPersist

variable {π : Type u}

def select (key : α → Word) (x : α) : List α → α × List α
  | [] => (x, [])
  | y :: ys =>
    if key y < key x then
      let (least, others) := select key y ys
      (least, x :: others)
    else
      let (least, others) := select key x ys
      (least, y :: others)

/-- `sort_indices`, on the first `n` elements. -/
def sortBy (key : α → Word) : Nat → List α → List α
  | 0, xs => xs
  | _, [] => []
  | n + 1, x :: xs =>
    let (least, others) := select key x xs
    least :: sortBy key n others

def rangesOf (flashSize : Word) : List (Option π × Word) → List (PersistRange π)
  | [] => []
  | (path, start) :: rest =>
    let last := (rest.head?.map (·.2)).getD flashSize
    let last := if last < start then start else last
    let last := if flashSize < last then flashSize else last
    ⟨path, start, last - start⟩ :: rangesOf flashSize rest

/-- `mm_flash_persist_build`, of the paths with their offsets; there is room for sixteen. -/
def build (flashSize : Word) (images : List (Option π × Word)) : FlashPersist π :=
  if images = [] then ⟨false, []⟩
  else
    let images := images.take 16
    ⟨true, rangesOf flashSize (sortBy (·.2) images.length images)⟩

section

variable [DecidableEq π]

def flushRange (flash : Word → Byte) (addr size : Word) (files : π → List Byte)
    (r : PersistRange π) : π → List Byte :=
  if addr + size ≤ r.offset ∨ r.offset + r.length ≤ addr then files
  else
    match r.path with
    | some path => Function.update files path (r.bytes flash)
    | none => files

/-- `mm_flash_persist_flush`. -/
def flush (p : FlashPersist π) (flash : Word → Byte) (files : π → List Byte) (addr size : Word) :
    π → List Byte :=
  if p.enabled = false ∨ size = 0 then files
  else p.ranges.foldl (flushRange flash addr size) files

end

theorem perm_select (key : α → Word) (x : α) (xs : List α) :
    ((select key x xs).1 :: (select key x xs).2).Perm (x :: xs) := by
  induction xs generalizing x with
  | nil => exact .refl _
  | cons y ys ih =>
    rw [select]
    split
    · exact (List.Perm.swap ..).trans ((ih y).cons x)
    · exact (List.Perm.swap ..).trans (((ih x).cons y).trans (List.Perm.swap ..))

theorem perm_sortBy (key : α → Word) (n : Nat) (xs : List α) : (sortBy key n xs).Perm xs := by
  induction n generalizing xs with
  | zero => exact .refl _
  | succ n ih =>
    cases xs with
    | nil => exact .refl _
    | cons x xs => exact ((ih _).cons _).trans (perm_select key x xs)

theorem path_rangesOf (flashSize : Word) (images : List (Option π × Word)) :
    (rangesOf flashSize images).map (·.path) = images.map (·.1) := by
  induction images with
  | nil => rfl
  | cons image rest ih => rw [rangesOf, List.map_cons, List.map_cons, ih]

theorem nodup_build (flashSize : Word) {images : List (Option π × Word)}
    (apart : (images.map (·.1)).Nodup) : ((build flashSize images).ranges.map (·.path)).Nodup := by
  rw [build]
  split
  · exact List.nodup_nil
  · rw [path_rangesOf]
    refine ((perm_sortBy _ _ _).map _).nodup_iff.mpr ?_
    rw [List.map_take]
    exact apart.sublist (List.take_sublist ..)

end FlashPersist

end M33mu
