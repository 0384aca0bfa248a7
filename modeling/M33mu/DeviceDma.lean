import M33mu.GdbAccess
import Mathlib.Data.List.Induction

namespace M33mu

open Memmap

namespace World

variable {δ : Type u} (env : Env δ)

def dmaSource (w : World δ) (sec : SecState) (a : Word) : Option (Buffer × Word) :=
  if (w.interceptOk env .read sec a 1).1 then w.map.bytePlace a else none

def dmaPlace (w : World δ) (sec : SecState) (a : Word) : Option (Buffer × Word) :=
  if (w.interceptOk env .write sec a 1).1 then w.map.ramPlace a else none

def dmaCells (w : World δ) (sec : SecState) (a : Word) : List Byte → List ((Buffer × Word) × Byte)
  | [] => []
  | b :: bs => ((w.dmaPlace env sec a).map (·, b)).toList ++ w.dmaCells sec (a + 1) bs

structure Stored (w w' : World δ) (sec : SecState) (a : Word) (bytes : List Byte) : Prop where
  touched : w.Touched env w'
  map : w'.map = w.map.pokeAll (w.dmaCells env sec a bytes)

variable {env} {w w' : World δ} {sec : SecState} {a : Word} {b : Byte} {bytes : List Byte}

theorem Touched.dmaSource (touched : w.Touched env w') (sec : SecState) (a : Word) :
    w'.dmaSource env sec a = w.dmaSource env sec a := by
  rw [World.dmaSource, touched.grants, touched.map.bytePlace, World.dmaSource]

theorem Touched.dmaPlace (touched : w.Touched env w') (sec : SecState) (a : Word) :
    w'.dmaPlace env sec a = w.dmaPlace env sec a := by
  rw [World.dmaPlace, touched.grants, touched.map.ramPlace, World.dmaPlace]

theorem dmaPlace_present {p : Buffer × Word} (place : w.dmaPlace env sec a = some p) :
    w.map.Present p.1 := by
  rw [World.dmaPlace, Option.ite_none_right_eq_some] at place
  obtain ⟨t, taken, rfl⟩ := Option.map_eq_some_iff.mp place.2
  exact present_of_ramTaken taken

theorem present_pokeAll (cells : List ((Buffer × Word) × Byte)) {m : Memmap} {b : Buffer}
    (present : m.Present b) : (m.pokeAll cells).Present b := by
  have same := rewritten_pokeAll m cells
  cases b with
  | flash => exact same.flash.trans present
  | ram => exact same.ram.trans present

theorem dma_read8 (w : World δ) (sec : SecState) (off : busFind env a = none) :
    (w.read8 env sec a).1 = (w.dmaSource env sec a).map w.map.bytes ∧
      w.Touched env (w.read8 env sec a).2 ∧ (w.read8 env sec a).2.map = w.map := by
  have map := interceptOk_map env w .read sec a 1
  have touched := touched_interceptOk env w .read sec a 1
  rw [read8_eq, World.dmaSource]
  generalize w.interceptOk env .read sec a 1 = r at map touched
  obtain ⟨ok, w₁⟩ := r
  cases ok with
  | false => exact ⟨rfl, touched, map⟩
  | true =>
    simp only [if_true, busRead, off, byte_eq]
    cases w.map.bytePlace a with
    | none => exact ⟨rfl, touched, map⟩
    | some p => exact ⟨rfl, touched, map⟩

theorem dma_write8 (w : World δ) (sec : SecState) (off : busFind env a = none) (b : Byte) :
    w.Touched env (w.write8 env sec a b).2 ∧ (w.write8 env sec a b).2.map =
      w.map.pokeAll ((w.dmaPlace env sec a).map (·, b)).toList := by
  have map := interceptOk_map env w .write sec a 1
  have touched := touched_interceptOk env w .write sec a 1
  rw [write8_eq, World.dmaPlace]
  generalize w.interceptOk env .write sec a 1 = r at map touched
  obtain ⟨ok, w₁⟩ := r
  cases ok with
  | false => exact ⟨touched, map⟩
  | true =>
    simp only [if_true]
    cases w.map.ramPlace a with
    | none =>
      simp only [busWrite, off]
      exact ⟨touched, map⟩
    | some p =>
      have same : w₁.map.Rewritten (w.map.poke p.1 p.2 b) := map ▸ rewritten_poke w.map p.1 p.2 b
      exact ⟨touched.trans (touched_map w₁ same), rfl⟩

theorem dmaCells_append (w : World δ) (sec : SecState) (a : Word) (bytes more : List Byte) :
    w.dmaCells env sec a (bytes ++ more) = w.dmaCells env sec a bytes ++
      w.dmaCells env sec (a + BitVec.ofNat 32 bytes.length) more := by
  induction bytes generalizing a with
  | nil =>
    have here : a + BitVec.ofNat 32 0 = a := BitVec.add_zero a
    rw [List.nil_append, dmaCells, List.nil_append, List.length_nil, here]
  | cons c bytes ih =>
    rw [List.cons_append, dmaCells, ih, dmaCells, List.append_assoc, List.length_cons,
      add_ofNat_succ]

theorem dmaCells_concat (w : World δ) (sec : SecState) (a : Word) (bytes : List Byte) (b : Byte) :
    w.dmaCells env sec a (bytes ++ [b]) = w.dmaCells env sec a bytes ++
      ((w.dmaPlace env sec (a + BitVec.ofNat 32 bytes.length)).map (·, b)).toList := by
  rw [dmaCells_append, dmaCells, dmaCells, List.append_nil]

theorem Touched.dmaCells (touched : w.Touched env w') (sec : SecState) (a : Word)
    (bytes : List Byte) : w'.dmaCells env sec a bytes = w.dmaCells env sec a bytes := by
  induction bytes generalizing a with
  | nil => rfl
  | cons c bytes ih => rw [World.dmaCells, touched.dmaPlace, ih, World.dmaCells]

theorem Stored.nil (touched : w.Touched env w') (map : w'.map = w.map) :
    w.Stored env w' sec a [] := ⟨touched, map⟩

theorem Stored.append (stored : w.Stored env w' sec a bytes) {w'' : World δ} {more : List Byte}
    (rest : w'.Stored env w'' sec (a + BitVec.ofNat 32 bytes.length) more) :
    w.Stored env w'' sec a (bytes ++ more) := by
  refine ⟨stored.touched.trans rest.touched, ?_⟩
  rw [rest.map, stored.map, stored.touched.dmaCells, dmaCells_append, pokeAll, pokeAll, pokeAll,
    List.foldl_append]

theorem stored_one (w : World δ) (sec : SecState) (off : busFind env a = none) (b : Byte) :
    w.Stored env (w.write8 env sec a b).2 sec a [b] := by
  obtain ⟨touched, map⟩ := dma_write8 w sec off b
  refine ⟨touched, ?_⟩
  rw [map, dmaCells, dmaCells, List.append_nil]

theorem Stored.write8 (stored : w.Stored env w' sec a bytes)
    (off : busFind env (a + BitVec.ofNat 32 bytes.length) = none) (b : Byte) :
    w.Stored env (w'.write8 env sec (a + BitVec.ofNat 32 bytes.length) b).2 sec a
      (bytes ++ [b]) :=
  stored.append (stored_one w' sec off b)

theorem Stored.with (stored : w.Stored env w' sec a bytes) {w'' : World δ}
    (touched : w'.Touched env w'') (map : w''.map = w'.map) : w.Stored env w'' sec a bytes :=
  ⟨stored.touched.trans touched, map.trans stored.map⟩

theorem mem_dmaCells {p : Buffer × Word} (found : (p, b) ∈ w.dmaCells env sec a bytes) :
    ∃ k < bytes.length, w.dmaPlace env sec (a + BitVec.ofNat 32 k) = some p := by
  induction bytes generalizing a with
  | nil => exact nomatch found
  | cons c bytes ih =>
    rw [dmaCells, List.mem_append, Option.mem_toList, Option.map_eq_some_iff] at found
    cases found with
    | inl here =>
      obtain ⟨q, place, ⟨⟩⟩ := here
      have first : a + BitVec.ofNat 32 0 = a := BitVec.add_zero a
      exact ⟨0, Nat.succ_pos _, by rw [first, place]⟩
    | inr later =>
      obtain ⟨k, low, place⟩ := ih later
      exact ⟨k + 1, Nat.succ_lt_succ low, by rwa [add_ofNat_succ]⟩

theorem Stored.kept (stored : w.Stored env w' sec a bytes) {p : Buffer × Word}
    (apart : ∀ k < bytes.length, w.dmaPlace env sec (a + BitVec.ofNat 32 k) ≠ some p) :
    w'.map.bytes p = w.map.bytes p := by
  rw [stored.map]
  apply bytes_pokeAll_of_not_mem
  intro found
  obtain ⟨⟨q, b⟩, member, rfl⟩ := List.mem_map.mp found
  obtain ⟨k, low, place⟩ := mem_dmaCells member
  exact apart k low place

theorem Stored.byte (stored : w.Stored env w' sec a bytes) {k : Nat} {p : Buffer × Word}
    (place : w.dmaPlace env sec (a + BitVec.ofNat 32 k) = some p) (here : bytes[k]? = some b)
    (last : ∀ j < bytes.length, k < j → w.dmaPlace env sec (a + BitVec.ofNat 32 j) ≠ some p) :
    w'.map.bytes p = b := by
  rw [stored.map]
  clear stored
  induction bytes using List.reverseRecOn with
  | nil => cases here
  | append_singleton bytes c ih =>
    rw [dmaCells_concat, pokeAll, List.foldl_append]
    rw [List.length_append, List.length_singleton] at last
    rcases Nat.lt_trichotomy k bytes.length with low | rfl | high
    · rw [List.getElem?_append_left low] at here
      rw [← ih here fun j below => last j (Nat.lt_succ_of_lt below)]
      cases next : w.dmaPlace env sec (a + BitVec.ofNat 32 bytes.length) with
      | none => rfl
      | some q =>
        have apart : q ≠ p := by
          rintro rfl
          exact last bytes.length (Nat.lt_succ_self _) low next
        exact bytes_poke_of_ne apart c
    · rw [List.getElem?_concat_length] at here
      rw [place, Option.some.inj here]
      exact bytes_poke_self (present_pokeAll _ (dmaPlace_present place)) p.2 b
    · rw [List.getElem?_eq_none (by rw [List.length_append]; exact high)] at here
      cases here

end World

end M33mu
