import M33mu.FaultStatus
import M33mu.GdbAccess
import M33mu.ThumbArch
import M33mu.WordAccess

namespace M33mu

open Lib

theorem Memmap.putBytes_eq_putValue (buf : Word → Byte) (off v : Word) {n : Nat} (low : n ≤ 4) :
    Memmap.putBytes buf off v n = ByteMem.putValue buf off v n := by
  funext x
  rw [ByteMem.putValue]
  split
  · rename_i near
    have put : putBytes buf off v n (off + BitVec.ofNat 32 (ByteMem.dist off x)) =
        (v >>> (8 * ByteMem.dist off x)).setWidth 8 := putBytes_at low near
    rw [ByteMem.add_dist] at put
    exact put
  · rename_i far
    apply Memmap.putBytes_apart
    intro k below here
    rw [← here, ByteMem.dist_add (Nat.lt_trans (Nat.lt_of_lt_of_le below low) (by decide))] at far
    exact far below

theorem Memmap.rewritten_store {m : Memmap} (ram : m.ram.isSome) (off v size : Word) :
    m.Rewritten (m.store off v size) :=
  ⟨rfl, rfl, ram.symm⟩

theorem Memmap.bytes_store (m : Memmap) {off size : Word} (sized : Sized size) (v : Word)
    (p : Buffer × Word) : (m.store off v size).bytes p =
      if p.1 = .ram then ByteMem.putValue (m.contents .ram) off v size.toNat p.2 else m.bytes p := by
  obtain ⟨b, o⟩ := p
  cases b with
  | flash => rfl
  | ram => exact congrFun (putBytes_eq_putValue _ _ _ sized.toNat_le.2) o

namespace World

variable {δ : Type u}

def view (place : Word → Option (Buffer × Word)) (w : World δ) : ByteMem 32 := fun a =>
  (place a).elim 0 w.map.bytes

def Row (place : Word → Option (Buffer × Word)) (a n : Word) (p : Buffer × Word) : Prop :=
  ∀ k < n.toNat, place (a + BitVec.ofNat 32 k) = some (p.1, p.2 + BitVec.ofNat 32 k)

/-- The map serves a program: its accesses are granted and go where its bytes are, and no store goes
to its code. -/
structure Serves (env : Env δ) (sec : SecState) (acc : MemAccess) (prog : Word → Option Thumb)
    (place : Word → Option (Buffer × Word)) (w : World δ) : Prop where
  once : ∀ a b p, place a = some p → place b = some p → a = b
  sized : ∀ a n, acc.reads a n = true ∨ acc.writes a n = true → Sized (BitVec.ofNat 32 n) ∧ n ≤ 4
  mayRead : ∀ a n, acc.reads a n = true → w.Granted env .read sec a (BitVec.ofNat 32 n)
  reads : ∀ a n, acc.reads a n = true → ∃ p, w.map.loadPlace a (BitVec.ofNat 32 n) = some p ∧
    Row place a (BitVec.ofNat 32 n) p
  mayWrite : ∀ a n, acc.writes a n = true → w.Granted env .write sec a (BitVec.ofNat 32 n)
  writes : ∀ a n, acc.writes a n = true → ¬ w.ProgramsFlash env a (BitVec.ofNat 32 n) ∧
    ∃ off, w.map.storePlace a (BitVec.ofNat 32 n) = some off ∧
      Row place a (BitVec.ofNat 32 n) (.ram, off)
  mayFetch : ∀ a i, prog a = some i → i.Proper ∧ w.Granted env .exec sec a 2
  code : ∀ a i, prog a = some i → w.map.fetchHalf a = some (i.encode.setWidth 32)
  apart : ∀ a i p, prog a = some i → w.map.loadPlace a 2 = some p → ∀ k < 2, ∀ x n,
    acc.writes x n = true → ∀ j < n,
      place (x + BitVec.ofNat 32 j) ≠ some (p.1, p.2 + BitVec.ofNat 32 k)

end World

namespace Memmap.Rewritten

variable {m m' : Memmap}

theorem loadPlace (same : m.Rewritten m') (a n : Word) : m'.loadPlace a n = m.loadPlace a n := by
  rw [Memmap.loadPlace, same.readTaken, Memmap.loadPlace]

theorem storePlace (same : m.Rewritten m') (a n : Word) : m'.storePlace a n = m.storePlace a n := by
  rw [Memmap.storePlace, same.ramTaken, Memmap.storePlace]

theorem fetchHalf (same : m.Rewritten m') {a : Word}
    (bytes : ∀ p, m.loadPlace a 2 = some p → ∀ k < 2,
      m'.bytes (p.1, p.2 + BitVec.ofNat 32 k) = m.bytes (p.1, p.2 + BitVec.ofNat 32 k)) :
    m'.fetchHalf a = m.fetchHalf a := by
  have load (m : Memmap) : m.fetchHalf a = m.load a 2 := rfl
  rw [load, load, load_eq_little (.inr (.inl rfl)), load_eq_little (.inr (.inl rfl)),
    same.loadPlace]
  cases place : m.loadPlace a 2 with
  | none => rfl
  | some p => exact congrArg some (little_congr (bytes p place))

end Memmap.Rewritten

namespace World

variable {δ : Type u} {env : Env δ} {sec : SecState} {acc : MemAccess} {prog : Word → Option Thumb}
  {place : Word → Option (Buffer × Word)} {w w' : World δ} {a : Word} {n : Nat}

theorem Touched.programsFlash (touched : w.Touched env w') :
    w'.ProgramsFlash env a (BitVec.ofNat 32 n) ↔ w.ProgramsFlash env a (BitVec.ofNat 32 n) := by
  have flash := touched.map.flash
  have offsets : w'.map.flashOffsets = w.map.flashOffsets := by
    rw [touched.map.eq]
    rfl
  rw [ProgramsFlash, ProgramsFlash, flash, offsets]

theorem Serves.touched (serves : Serves env sec acc prog place w) (touched : w.Touched env w')
    (code : ∀ a i p, prog a = some i → w.map.loadPlace a 2 = some p → ∀ k < 2,
      w'.map.bytes (p.1, p.2 + BitVec.ofNat 32 k) = w.map.bytes (p.1, p.2 + BitVec.ofNat 32 k)) :
    Serves env sec acc prog place w' where
  once := serves.once
  sized := serves.sized
  mayRead a n ok := (touched.grants ..).trans (serves.mayRead a n ok)
  reads a n ok := by
    rw [touched.map.loadPlace]
    exact serves.reads a n ok
  mayWrite a n ok := (touched.grants ..).trans (serves.mayWrite a n ok)
  writes a n ok := by
    rw [touched.map.storePlace, touched.programsFlash]
    exact serves.writes a n ok
  mayFetch a i here :=
    ⟨(serves.mayFetch a i here).1, (touched.grants ..).trans (serves.mayFetch a i here).2⟩
  code a i here := by
    rw [touched.map.fetchHalf fun p found => code a i p here found]
    exact serves.code a i here
  apart a i p here found := serves.apart a i p here (touched.map.loadPlace a 2 ▸ found)

theorem Serves.kept (serves : Serves env sec acc prog place w) (touched : w.Touched env w')
    (same : w'.map.bytes = w.map.bytes) : Serves env sec acc prog place w' :=
  serves.touched touched fun a i p here found k low => by rw [same]

theorem Serves.read (serves : Serves env sec acc prog place w) (ok : acc.reads a n = true) :
    ∃ w', w.read env sec a (BitVec.ofNat 32 n) = (some ((w.view place).value a n), w') ∧
      w.Touched env w' ∧ w'.map = w.map := by
  obtain ⟨sized, low⟩ := serves.sized a n (.inl ok)
  obtain ⟨p, found, row⟩ := serves.reads a n ok
  have toNat : (BitVec.ofNat 32 n).toNat = n :=
    Nat.mod_eq_of_lt (Nat.lt_of_le_of_lt low (by decide))
  have load : w.map.load a (BitVec.ofNat 32 n) = some ((w.view place).value a n) := by
    rw [Memmap.load_eq_little sized, found, Option.map_some, toNat]
    refine congrArg some (little_congr fun k below => ?_)
    rw [view, row k (toNat.symm ▸ below)]
    rfl
  have touched := touched_interceptOk env w .read sec a (BitVec.ofNat 32 n)
  have map := interceptOk_map env w .read sec a (BitVec.ofNat 32 n)
  have granted := serves.mayRead a n ok
  rw [Granted] at granted
  refine ⟨_, ?_, touched, map⟩
  rw [World.read]
  generalize w.interceptOk env .read sec a (BitVec.ofNat 32 n) = r at granted map
  obtain ⟨ok, w₁⟩ := r
  cases granted
  dsimp only at map ⊢
  rw [map, show (w.map.readFlash a _ <|> w.map.readRam a _) = _ from load]
  rfl

theorem Serves.write (serves : Serves env sec acc prog place w) (ok : acc.writes a n = true)
    (v : Word) :
    ∃ w', w.write env sec a (BitVec.ofNat 32 n) v = (true, w') ∧
      Serves env sec acc prog place w' ∧ w'.view place = (w.view place).putValue a v n := by
  obtain ⟨sized, low⟩ := serves.sized a n (.inr ok)
  obtain ⟨noFlash, off, found, row⟩ := serves.writes a n ok
  have toNat : (BitVec.ofNat 32 n).toNat = n :=
    Nat.mod_eq_of_lt (Nat.lt_of_le_of_lt low (by decide))
  rw [Row, toNat] at row
  obtain ⟨t, taken, rfl⟩ := Option.map_eq_some_iff.mp found
  have ram : w.map.ram.isSome := by
    have present := Memmap.present_of_ramTaken taken
    rwa [Memmap.ramTaken_buffer taken] at present
  have direct : w.Direct env sec a (BitVec.ofNat 32 n) := by
    refine ⟨serves.mayWrite a n ok, noFlash, ?_⟩
    rintro ⟨none, -⟩
    rw [none] at taken
    cases taken
  have asked := touched_interceptOk env w .write sec a (BitVec.ofNat 32 n)
  have map := interceptOk_map env w .write sec a (BitVec.ofNat 32 n)
  have written := write_to_ram sized direct taken v
  generalize (w.interceptOk env .write sec a (BitVec.ofNat 32 n)).2 = w₁ at asked map written
  have bytes (p : Buffer × Word) :
      (w.map.store (t.2.offset a) v (BitVec.ofNat 32 n)).bytes p =
        if p.1 = .ram then
          ByteMem.putValue (w.map.contents .ram) (t.2.offset a) v n p.2
        else w.map.bytes p := by
    rw [Memmap.bytes_store _ sized, toNat]
  refine ⟨_, written, ?_, ?_⟩
  · have stored : w₁.map.Rewritten (w.map.store (t.2.offset a) v (BitVec.ofNat 32 n)) :=
      map ▸ Memmap.rewritten_store ram ..
    refine serves.touched (asked.trans (touched_map w₁ stored)) fun b i p here found' k below => (bytes _).trans ?_
    split
    · rename_i inRam
      have far : n ≤ ByteMem.dist (t.2.offset a) (p.2 + BitVec.ofNat 32 k) := by
        by_contra near
        rw [Nat.not_le] at near
        apply serves.apart b i p here found' k below a n ok _ near
        rw [row _ near, ByteMem.add_dist, inRam]
      rw [ByteMem.putValue_apart far, ← inRam]
      rfl
    · rfl
  · funext x
    rw [ByteMem.putValue]
    split
    · rename_i near
      have here := row _ near
      rw [ByteMem.add_dist] at here
      rw [view, here, Option.elim_some]
      refine (bytes _).trans ((if_pos rfl).trans ?_)
      rw [ByteMem.putValue, ByteMem.dist_add (ByteMem.dist_lt a x), if_pos near]
    · rename_i far
      rw [view, view]
      cases here : place x with
      | none => rfl
      | some p =>
        refine (bytes p).trans ?_
        split
        · rename_i inRam
          have off : n ≤ ByteMem.dist (t.2.offset a) p.2 := by
            by_contra near
            rw [Nat.not_le] at near
            have same := row _ near
            rw [ByteMem.add_dist, ← inRam] at same
            have back := serves.once _ _ p same here
            rw [← back, ByteMem.dist_add (ByteMem.dist_lt _ _)] at far
            exact far near
          rw [ByteMem.putValue_apart off, ← inRam]
          rfl
        · rfl

end World

end M33mu
