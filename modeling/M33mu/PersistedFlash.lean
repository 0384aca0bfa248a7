import M33mu.FlashPersist
import M33mu.Lib.Run
import Mathlib.Data.List.Nodup

namespace M33mu

open Lib

namespace PersistRange

variable {π : Type u}

def Reached (r : PersistRange π) (addr size : Word) : Prop :=
  ¬ (addr + size ≤ r.offset ∨ r.offset + r.length ≤ addr)

instance (r : PersistRange π) (addr size : Word) : Decidable (r.Reached addr size) :=
  inferInstanceAs (Decidable (¬ _))

theorem toNat_end {r : PersistRange π} {addr : Word} (has : r.Has addr) :
    (r.offset + r.length).toNat = r.offset.toNat + r.length.toNat := by
  have first := BitVec.le_def.mp has.1
  have last := BitVec.lt_def.mp has.2
  rw [BitVec.toNat_add] at last ⊢
  omega

theorem reached_of_has {r : PersistRange π} {a addr size : Word} (has : r.Has a)
    (first : addr ≤ a) (last : a < addr + size) : r.Reached addr size := by
  have inside := has.1
  have before := has.2
  rw [BitVec.le_def] at first inside
  rw [BitVec.lt_def] at last before
  rintro (below | above)
  · have := BitVec.le_def.mp below
    omega
  · have := BitVec.le_def.mp above
    omega

theorem bytes_congr {r : PersistRange π} {a : Word} (has : r.Has a) {flash flash' : Word → Byte}
    (same : ∀ addr, r.Has addr → flash' addr = flash addr) : r.bytes flash' = r.bytes flash := by
  refine List.map_congr_left fun i mem => same _ ?_
  have low := List.mem_range.mp mem
  have ends := toNat_end has
  have bound := (r.offset + r.length).isLt
  have place : (r.offset + BitVec.ofNat 32 i).toNat = r.offset.toNat + i := by
    rw [BitVec.toNat_add, BitVec.toNat_ofNat]
    omega
  refine ⟨BitVec.le_def.mpr ?_, BitVec.lt_def.mpr ?_⟩
  · omega
  · omega

end PersistRange

namespace FlashPersist

variable {π : Type u} [DecidableEq π]

def lastFlushed (p : FlashPersist π) (addr size : Word) (path : π) : Option (PersistRange π) :=
  if p.enabled = false ∨ size = 0 then none
  else p.ranges.reverse.find? fun r => r.Reached addr size ∧ r.path = some path

theorem flush_apply (p : FlashPersist π) (flash : Word → Byte) (files : π → List Byte)
    (addr size : Word) (path : π) : p.flush flash files addr size path =
      match p.lastFlushed addr size path with
      | some r => r.bytes flash
      | none => files path := by
  rw [flush, lastFlushed]
  by_cases idle : p.enabled = false ∨ size = 0
  · rw [if_pos idle, if_pos idle]
  rw [if_neg idle, if_neg idle, List.foldl_eq_foldr_reverse]
  generalize p.ranges.reverse = ranges
  induction ranges with
  | nil => rfl
  | cons r rest ih =>
    rw [List.foldr_cons, List.find?_cons]
    by_cases reached : r.Reached addr size
    · rw [flushRange, if_neg reached]
      cases here : r.path with
      | none =>
        rw [decide_eq_false fun both => by cases both.2]
        exact ih
      | some other =>
        by_cases same : other = path
        · subst same
          rw [decide_eq_true ⟨reached, rfl⟩]
          exact Function.update_self ..
        · rw [decide_eq_false fun both => same (Option.some.inj both.2)]
          exact (Function.update_of_ne (fun this => same this.symm) ..).trans ih
    · rw [decide_eq_false fun both => reached both.1]
      refine Eq.trans (congrFun ?_ path) ih
      exact if_pos (not_not.mp reached)

end FlashPersist

def FlashPersist.flushed {π : Type u} [DecidableEq π] (p : FlashPersist π) (flash : Word → Byte)
    (files : π → List Byte) : Option (Word × Word) → π → List Byte
  | some (addr, size) => p.flush flash files addr size
  | none => files

/-- A flash controller: what an operation alters, the bytes that are not what it leaves them as, and
the addresses that it hands to the flush. -/
structure PersistedFlash (σ : Type u) (ι : Type v) (π : Type w) [DecidableEq π] where
  step : σ → ι → σ
  flash : σ → Word → Byte
  files : σ → π → List Byte
  persist : σ → FlashPersist π
  alters : σ → ι → Word → Prop
  flushes : σ → ι → Option (Word × Word)
  persist_step : ∀ s op, persist (step s op) = persist s
  flash_step : ∀ s op addr, flash (step s op) addr ≠ flash s addr → alters s op addr
  files_step : ∀ s op, files (step s op) =
    (persist s).flushed (flash (step s op)) (files s) (flushes s op)

namespace PersistedFlash

variable {σ : Type u} {ι : Type v} {π : Type w} [DecidableEq π] (c : PersistedFlash σ ι π)

structure Recorded (σ : Type u) where
  ctl : σ
  changed : Word → Prop

def record (m : Recorded σ) (op : ι) : Recorded σ where
  ctl := c.step m.ctl op
  changed addr := m.changed addr ∨ c.flash (c.step m.ctl op) addr ≠ c.flash m.ctl addr

def unchanged (s : σ) : Recorded σ := ⟨s, fun _ => False⟩

def Holds (m : Recorded σ) : Prop :=
  ∀ r ∈ (c.persist m.ctl).ranges, ∀ path, r.path = some path →
    (∃ addr, r.Has addr ∧ m.changed addr) → c.files m.ctl path = r.bytes (c.flash m.ctl)

def lastFlushed (s : σ) (op : ι) (path : π) : Option (PersistRange π) :=
  (c.flushes s op).bind fun (addr, size) => (c.persist s).lastFlushed addr size path

def Flushed (m : Recorded σ) (op : ι) : Prop :=
  ∀ r ∈ (c.persist m.ctl).ranges, ∀ path, r.path = some path →
    (∃ addr, r.Has addr ∧ c.alters m.ctl op addr) → c.lastFlushed m.ctl op path ≠ none

def Last (m : Recorded σ) (op : ι) : Prop :=
  ∀ r ∈ (c.persist m.ctl).ranges, ∀ path, r.path = some path →
    (∃ addr, r.Has addr ∧ (m.changed addr ∨ c.alters m.ctl op addr)) →
      ∀ other, c.lastFlushed m.ctl op path = some other → other = r

theorem holds_unchanged (s : σ) : c.Holds (unchanged s) :=
  fun _ _ _ _ ⟨_, _, changed⟩ => changed.elim

theorem files_record (m : Recorded σ) (op : ι) (path : π) :
    c.files (c.record m op).ctl path =
      match c.lastFlushed m.ctl op path with
      | some r => r.bytes (c.flash (c.record m op).ctl)
      | none => c.files m.ctl path := by
  rw [record, c.files_step, lastFlushed]
  cases c.flushes m.ctl op with
  | none => rfl
  | some x => exact (c.persist m.ctl).flush_apply _ _ x.1 x.2 path

theorem holds_record {m : Recorded σ} {op : ι} (holds : c.Holds m) (flushed : c.Flushed m op)
    (last : c.Last m op) : c.Holds (c.record m op) := by
  intro r mem path here
  rintro ⟨addr, has, changed⟩
  have mem : r ∈ (c.persist m.ctl).ranges := c.persist_step m.ctl op ▸ mem
  have altered : m.changed addr ∨ c.alters m.ctl op addr :=
    changed.imp id (c.flash_step m.ctl op addr)
  rw [files_record]
  cases written : c.lastFlushed m.ctl op path with
  | some other =>
    obtain rfl := last r mem path here ⟨addr, has, altered⟩ other written
    rfl
  | none =>
    -- What is not flushed is not altered, so the range has changed before.
    have still (a : Word) (inside : r.Has a) : ¬ c.alters m.ctl op a :=
      fun alters => flushed r mem path here ⟨a, inside, alters⟩ written
    have before : m.changed addr := altered.resolve_right (still addr has)
    have same (a : Word) (inside : r.Has a) :
        c.flash (c.record m op).ctl a = c.flash m.ctl a := by
      by_contra differs
      exact still a inside (c.flash_step m.ctl op a differs)
    exact (holds r mem path here ⟨addr, has, before⟩).trans
      (PersistRange.bytes_congr has same).symm

theorem throughout_holds {s : σ} {ops : List ι}
    (kept : Along c.record (fun m op => c.Flushed m op ∧ c.Last m op) (unchanged s) ops) :
    Throughout c.record c.Holds (unchanged s) ops :=
  throughout_of_along (fun _ _ holds kept => c.holds_record holds kept.1 kept.2)
    (c.holds_unchanged s) kept

theorem lastFlushed_ne_none {s : σ} {op : ι} {path : π} {r : PersistRange π} {a addr size : Word}
    (flushes : c.flushes s op = some (addr, size)) (enabled : (c.persist s).enabled = true)
    (mem : r ∈ (c.persist s).ranges) (here : r.path = some path) (has : r.Has a)
    (first : addr ≤ a) (last : a < addr + size) : c.lastFlushed s op path ≠ none := by
  have some' : size ≠ 0 := by
    rintro rfl
    exact absurd (BitVec.add_zero addr ▸ last) (BitVec.not_lt.mpr first)
  have on : ¬ ((c.persist s).enabled = false ∨ size = 0) := by
    rw [enabled]
    exact not_or.mpr ⟨nofun, some'⟩
  rw [lastFlushed, flushes]
  intro none'
  replace none' := (if_neg on).symm.trans none'
  have refused := List.find?_eq_none.mp none' r (List.mem_reverse.mpr mem)
  exact refused (decide_eq_true ⟨PersistRange.reached_of_has has first last, here⟩)

theorem last_of_nodup {m : Recorded σ} (apart : ((c.persist m.ctl).ranges.map (·.path)).Nodup)
    (op : ι) : c.Last m op := by
  intro r mem path here _ other written
  obtain ⟨⟨addr, size⟩, -, found⟩ := Option.bind_eq_some_iff.mp written
  change (c.persist m.ctl).lastFlushed addr size path = some other at found
  rw [FlashPersist.lastFlushed] at found
  split at found
  · cases found
  have both : other.Reached addr size ∧ other.path = some path := by
    simpa using List.find?_some found
  have mem' := List.mem_reverse.mp (List.mem_of_find?_eq_some found)
  exact List.inj_on_of_nodup_map apart mem' mem (both.2.trans here.symm)

theorem along_last_of_nodup {s : σ} (apart : ((c.persist s).ranges.map (·.path)).Nodup)
    (ops : List ι) : Along c.record c.Last (unchanged s) ops := by
  refine along_of_invariant (I := fun m => ((c.persist m.ctl).ranges.map (·.path)).Nodup)
    (P := fun _ _ => True) (fun m op apart => ?_) (fun _ op apart _ => c.last_of_nodup apart op)
    apart (along_of_forall fun _ _ => trivial)
  rwa [record, c.persist_step]

end PersistedFlash

end M33mu
