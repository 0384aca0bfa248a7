import M33mu.FlashPersist

namespace M33mu.FlashPersist

variable {π : Type u}

theorem select_least (key : α → Word) (x : α) (xs : List α) :
    ∀ y ∈ x :: xs, key (select key x xs).1 ≤ key y := by
  induction xs generalizing x with
  | nil =>
    intro y mem
    rw [List.mem_singleton.mp mem]
    exact BitVec.le_refl _
  | cons z zs ih =>
    intro y mem
    rw [select]
    split
    · rename_i below
      rcases List.mem_cons.mp mem with rfl | mem
      · exact BitVec.le_trans (ih z z List.mem_cons_self) (BitVec.le_of_lt below)
      · exact ih z y mem
    · rename_i above
      rcases List.mem_cons.mp mem with rfl | mem
      · exact ih y y List.mem_cons_self
      · rcases List.mem_cons.mp mem with rfl | mem
        · exact BitVec.le_trans (ih x x List.mem_cons_self) (BitVec.not_lt.mp above)
        · exact ih x y (List.mem_cons_of_mem x mem)

theorem sorted_sortBy (key : α → Word) {n : Nat} {xs : List α} (passes : xs.length ≤ n) :
    (sortBy key n xs).Pairwise fun x y => key x ≤ key y := by
  induction n generalizing xs with
  | zero =>
    rw [List.eq_nil_of_length_eq_zero (Nat.le_zero.mp passes)]
    exact .nil
  | succ n ih =>
    cases xs with
    | nil => exact .nil
    | cons x xs =>
      have moved := perm_select key x xs
      have length : (select key x xs).2.length = xs.length := Nat.succ.inj moved.length_eq
      refine .cons (fun y mem => ?_) (ih (length ▸ Nat.le_of_succ_le_succ passes))
      have rest : y ∈ (select key x xs).2 := (perm_sortBy key n _).mem_iff.mp mem
      exact select_least key x xs y (moved.mem_iff.mp (List.mem_cons_of_mem _ rest))

def firstStart (flashSize : Word) (images : List (Option π × Word)) : Word :=
  (images.head?.map (·.2)).getD flashSize

def Ascending (flashSize : Word) (images : List (Option π × Word)) : Prop :=
  images.Pairwise (fun x y => x.2 ≤ y.2) ∧ ∀ image ∈ images, image.2 ≤ flashSize

section

variable {flashSize : Word} {image : Option π × Word} {images : List (Option π × Word)}

theorem Ascending.tail (up : Ascending flashSize (image :: images)) : Ascending flashSize images :=
  ⟨up.1.of_cons, fun other mem => up.2 other (List.mem_cons_of_mem _ mem)⟩

theorem Ascending.start_le (up : Ascending flashSize (image :: images)) :
    image.2 ≤ firstStart flashSize images := by
  cases images with
  | nil => exact up.2 image List.mem_cons_self
  | cons next rest => exact List.rel_of_pairwise_cons up.1 List.mem_cons_self

theorem Ascending.le_end (up : Ascending flashSize images) :
    firstStart flashSize images ≤ flashSize := by
  cases images with
  | nil => exact BitVec.le_refl _
  | cons next rest => exact up.2 next List.mem_cons_self

theorem rangesOf_cons (up : Ascending flashSize (image :: images)) :
    rangesOf flashSize (image :: images) =
      ⟨image.1, image.2, firstStart flashSize images - image.2⟩ :: rangesOf flashSize images := by
  have start : ¬ firstStart flashSize images < image.2 := BitVec.not_lt.mpr up.start_le
  have inside : ¬ flashSize < firstStart flashSize images := BitVec.not_lt.mpr up.tail.le_end
  rw [rangesOf]
  rw [show (images.head?.map (·.2)).getD flashSize = firstStart flashSize images from rfl,
    if_neg start, if_neg inside]

theorem has_upTo {path : Option π} {start next addr : Word} :
    PersistRange.Has ⟨path, start, next - start⟩ addr ↔ start ≤ addr ∧ addr < next := by
  have ends : start + (next - start) = next := by rw [BitVec.add_comm, BitVec.sub_add_cancel]
  simp only [PersistRange.Has, ends]

theorem covers_rangesOf (up : Ascending flashSize images) (addr : Word) :
    (∃ r ∈ rangesOf flashSize images, r.Has addr) ↔
      firstStart flashSize images ≤ addr ∧ addr < flashSize := by
  induction images with
  | nil =>
    refine ⟨fun ⟨r, mem, _⟩ => absurd mem List.not_mem_nil, fun ⟨first, last⟩ => ?_⟩
    exact absurd last (BitVec.not_lt.mpr first)
  | cons image rest ih =>
    have first : firstStart flashSize (image :: rest) = image.2 := rfl
    rw [rangesOf_cons up, List.exists_mem_cons_iff, has_upTo, ih up.tail, first]
    refine ⟨?_, fun ⟨begun, within⟩ => ?_⟩
    · rintro (⟨begun, within⟩ | ⟨begun, within⟩)
      · exact ⟨begun, Nat.lt_of_lt_of_le within up.tail.le_end⟩
      · exact ⟨BitVec.le_trans up.start_le begun, within⟩
    · rcases Nat.lt_or_ge addr.toNat (firstStart flashSize rest).toNat with before | after
      · exact .inl ⟨begun, before⟩
      · exact .inr ⟨after, within⟩

theorem apart_rangesOf (up : Ascending flashSize images) :
    (rangesOf flashSize images).Pairwise fun r r' => ∀ addr, ¬ (r.Has addr ∧ r'.Has addr) := by
  induction images with
  | nil => exact .nil
  | cons image rest ih =>
    rw [rangesOf_cons up]
    refine .cons (fun r' mem addr ⟨has, has'⟩ => ?_) (ih up.tail)
    have later := ((covers_rangesOf up.tail addr).mp ⟨r', mem, has'⟩).1
    exact absurd (has_upTo.mp has).2 (BitVec.not_lt.mpr later)

theorem carried_rangesOf (flashSize : Word) (images : List (Option π × Word)) :
    (rangesOf flashSize images).map (fun r => (r.path, r.offset)) = images := by
  induction images with
  | nil => rfl
  | cons image rest ih => rw [rangesOf, List.map_cons, ih]

end

/-- The ranges are in order and share no address, they cover the flash from the least offset on, and
each of the images has one of them, at its offset. -/
structure Parts (flashSize : Word) (images : List (Option π × Word))
    (ranges : List (PersistRange π)) : Prop where
  sorted : ranges.Pairwise fun r r' => r.offset ≤ r'.offset
  apart : ranges.Pairwise fun r r' => ∀ addr, ¬ (r.Has addr ∧ r'.Has addr)
  covers : ∃ least ∈ images.map (·.2), (∀ image ∈ images, least ≤ image.2) ∧
    ∀ addr, (∃ r ∈ ranges, r.Has addr) ↔ least ≤ addr ∧ addr < flashSize
  carried : (ranges.map fun r => (r.path, r.offset)).Perm images

theorem parts_rangesOf {flashSize : Word} {images sorted : List (Option π × Word)}
    (up : Ascending flashSize sorted) (moved : sorted.Perm images) (some' : images ≠ []) :
    Parts flashSize images (rangesOf flashSize sorted) := by
  refine ⟨?_, apart_rangesOf up, ?_, ?_⟩
  · have offsets : (sorted.map (·.2)).Pairwise (· ≤ ·) := List.pairwise_map.mpr up.1
    rw [← carried_rangesOf flashSize sorted, List.map_map] at offsets
    exact List.pairwise_map.mp offsets
  · cases sorted with
    | nil => exact absurd moved.symm.eq_nil some'
    | cons first rest =>
      refine ⟨first.2, List.mem_map_of_mem (moved.mem_iff.mp List.mem_cons_self), ?_,
        covers_rangesOf up⟩
      intro image mem
      rcases List.mem_cons.mp (moved.mem_iff.mpr mem) with rfl | mem
      · exact BitVec.le_refl _
      · exact List.rel_of_pairwise_cons up.1 mem
  · rw [carried_rangesOf]
    exact moved

/-- Up to sixteen images inside of the flash part it. -/
theorem parts_build (flashSize : Word) {images : List (Option π × Word)} (some' : images ≠ [])
    (room : images.length ≤ 16) (within : ∀ image ∈ images, image.2 ≤ flashSize) :
    Parts flashSize images (build flashSize images).ranges := by
  have all : images.take 16 = images := List.take_of_length_le room
  have moved := perm_sortBy (fun image : Option π × Word => image.2) images.length images
  rw [build, if_neg some']
  dsimp only
  rw [all]
  refine parts_rangesOf ⟨sorted_sortBy _ (Nat.le_refl _), fun image mem => ?_⟩ moved some'
  exact within image (moved.mem_iff.mp mem)

theorem parts_build_three :
    ([(some 0, 0x800), (some 1, 0x200), (some 2, 0x800)] : List (Option Nat × Word)).length ≤ 16 ∧
      Parts 0x1000 [(some 0, 0x800), (some 1, 0x200), (some 2, 0x800)]
        (build 0x1000 [(some 0, 0x800), (some 1, 0x200), (some 2, 0x800)]).ranges ∧
      (build 0x1000 [(some 0, 0x800), (some 1, 0x200), (some 2, 0x800)]).ranges.map (·.length) =
        [0x600, 0, 0x800] :=
  ⟨by decide, parts_build 0x1000 (by decide) (by decide) (by decide), by decide⟩

end M33mu.FlashPersist
