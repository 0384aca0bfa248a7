import Mathlib.Data.Set.BooleanAlgebra
import Mathlib.Order.CompletePartialOrder
import Mathlib.Data.Set.Disjoint
import M33mu.Lib.Run
import M33mu.Memmap

namespace M33mu

/-- A region with the callbacks it has, any of which may be null. -/
structure BusRegion (ρ : Type u) (ω : Type v) where
  base : Word
  size : Word
  read : Option ρ
  write : Option ω

namespace BusRegion

variable {ρ : Type u} {ω : Type v}

def addresses (r : BusRegion ρ ω) : Set Word :=
  {addr | r.base.toNat ≤ addr.toNat ∧ addr.toNat < r.base.toNat + r.size.toNat}

theorem mem_addresses {r : BusRegion ρ ω} {addr : Word} :
    addr ∈ r.addresses ↔ r.base.toNat ≤ addr.toNat ∧
      addr.toNat < r.base.toNat + r.size.toNat := Iff.rfl

/-- `a` reaches the end of the address space, and `b` has addresses above its base, none of them
below its end as it wraps. -/
def Misses (a b : BusRegion ρ ω) : Prop :=
  2 ^ 32 ≤ a.base.toNat + a.size.toNat ∧ 0 < b.size.toNat ∧
    a.base.toNat < b.base.toNat + b.size.toNat ∧
    a.base.toNat + a.size.toNat - 2 ^ 32 ≤ b.base.toNat

end BusRegion

structure BusCall (ρ : Type u) (ω : Type v) (α : Type w) where
  region : BusRegion ρ ω
  callback : α
  offset : Word
  size : Word

def BusCall.Inside {ρ : Type u} {ω : Type v} {α : Type w} (call : BusCall ρ ω α) : Prop :=
  call.offset.toNat + call.size.toNat ≤ call.region.size.toNat

structure MmioBus (ρ : Type u) (ω : Type v) where
  regions : List (BusRegion ρ ω)
  capacity : Nat

namespace MmioBus

variable {ρ : Type u} {ω : Type v}

def init (capacity : Nat) : MmioBus ρ ω := ⟨[], capacity⟩

def regionsOverlap (abase asize bbase bsize : Word) : Bool :=
  let aend := abase + asize
  let bend := bbase + bsize
  abase < bend && bbase < aend

def registerRegion (bus : MmioBus ρ ω) (region : BusRegion ρ ω) : Bool × MmioBus ρ ω :=
  if bus.capacity ≤ bus.regions.length then (false, bus)
  else if bus.regions.any fun existing =>
      regionsOverlap existing.base existing.size region.base region.size then (false, bus)
  else (true, { bus with regions := bus.regions ++ [region] })

def find (bus : MmioBus ρ ω) (addr : Word) : Option (BusRegion ρ ω) :=
  bus.regions.find? fun region => region.base ≤ addr ∧ addr - region.base < region.size

/-- What `mmio_bus_read` calls. -/
def readCall (bus : MmioBus ρ ω) (addr size : Word) : Option (BusCall ρ ω ρ) :=
  (bus.find addr).bind fun region =>
    region.read.map fun callback => ⟨region, callback, addr - region.base, size⟩

/-- What `mmio_bus_write` calls, beside the value. -/
def writeCall (bus : MmioBus ρ ω) (addr size : Word) : Option (BusCall ρ ω ω) :=
  (bus.find addr).bind fun region =>
    region.write.map fun callback => ⟨region, callback, addr - region.base, size⟩

inductive Op (ρ : Type u) (ω : Type v)
  | register (region : BusRegion ρ ω)
  | read (addr size : Word)
  | write (addr size value : Word)

def step (bus : MmioBus ρ ω) : Op ρ ω → MmioBus ρ ω
  | .register region => (bus.registerRegion region).2
  | _ => bus

structure Dispatches (bus : MmioBus ρ ω) : Prop where
  apart : bus.regions.Pairwise fun a b => Disjoint a.addresses b.addresses
  found : ∀ region ∈ bus.regions, ∀ addr ∈ region.addresses, bus.find addr = some region

def CallsInside (bus : MmioBus ρ ω) : Op ρ ω → Prop
  | .register _ => True
  | .read addr size => ∀ call ∈ bus.readCall addr size, call.Inside
  | .write addr size _ => ∀ call ∈ bus.writeCall addr size, call.Inside

/-- A region to register is refused for the room or for an overlap that is seen, or there is none;
an access ends inside the region that it begins in. -/
def Fits (bus : MmioBus ρ ω) : Op ρ ω → Prop
  | .register region => bus.capacity ≤ bus.regions.length ∨
      (∃ existing ∈ bus.regions,
        regionsOverlap existing.base existing.size region.base region.size) ∨
      ∀ existing ∈ bus.regions, ¬ existing.Misses region ∧ ¬ region.Misses existing
  | .read addr size => ∀ region ∈ bus.regions, region.read.isSome → addr ∈ region.addresses →
      addr.toNat + size.toNat ≤ region.base.toNat + region.size.toNat
  | .write addr size _ => ∀ region ∈ bus.regions, region.write.isSome → addr ∈ region.addresses →
      addr.toNat + size.toNat ≤ region.base.toNat + region.size.toNat

theorem admitted_iff {region : BusRegion ρ ω} {addr : Word} :
    decide (region.base ≤ addr ∧ addr - region.base < region.size) = true ↔
      addr ∈ region.addresses := by
  rw [decide_eq_true_iff, BusRegion.mem_addresses, BitVec.le_def, BitVec.lt_def, BitVec.toNat_sub]
  have := region.base.isLt
  omega

theorem find_eq_some {bus : MmioBus ρ ω} {addr : Word} {region : BusRegion ρ ω}
    (found : bus.find addr = some region) : region ∈ bus.regions ∧ addr ∈ region.addresses := by
  rw [find] at found
  have admitted := List.find?_some found
  exact ⟨List.mem_of_find?_eq_some found, admitted_iff.mp admitted⟩

theorem find_of_apart {bus : MmioBus ρ ω}
    (apart : bus.regions.Pairwise fun a b => Disjoint a.addresses b.addresses)
    {region : BusRegion ρ ω} (mem : region ∈ bus.regions) {addr : Word}
    (inside : addr ∈ region.addresses) : bus.find addr = some region := by
  rw [find]
  revert apart mem
  generalize bus.regions = regions
  intro apart mem
  induction regions with
  | nil => exact absurd mem List.not_mem_nil
  | cons first rest ih =>
    obtain ⟨clear, apart⟩ := List.pairwise_cons.mp apart
    rcases List.mem_cons.mp mem with rfl | later
    · exact List.find?_cons_of_pos (admitted_iff.mpr inside)
    · have skipped : ¬ addr ∈ first.addresses := by
        intro both
        exact Set.disjoint_left.mp (clear region later) both inside
      have refused := Bool.eq_false_iff.mpr (mt admitted_iff.mp skipped)
      rw [List.find?_cons, refused]
      exact ih apart later

theorem dispatches_iff {bus : MmioBus ρ ω} : bus.Dispatches ↔
    bus.regions.Pairwise fun a b => Disjoint a.addresses b.addresses :=
  ⟨fun dispatches => dispatches.apart,
    fun apart => ⟨apart, fun _ mem _ inside => find_of_apart apart mem inside⟩⟩

theorem not_overlap_iff {abase asize bbase bsize : Word} :
    ¬ regionsOverlap abase asize bbase bsize = true ↔
      (bbase.toNat + bsize.toNat) % 2 ^ 32 ≤ abase.toNat ∨
        (abase.toNat + asize.toNat) % 2 ^ 32 ≤ bbase.toNat := by
  rw [regionsOverlap, Bool.and_eq_true, decide_eq_true_iff, decide_eq_true_iff, BitVec.lt_def,
    BitVec.lt_def, BitVec.toNat_add, BitVec.toNat_add]
  omega

theorem shared_of_misses {a b : BusRegion ρ ω} (misses : a.Misses b) :
    ¬ Disjoint a.addresses b.addresses := by
  obtain ⟨reaches, nonempty, above, -⟩ := misses
  have := a.base.isLt
  have := b.base.isLt
  intro disjoint
  rcases Nat.le_total a.base.toNat b.base.toNat with le | le
  · have inA : b.base ∈ a.addresses := BusRegion.mem_addresses.mpr ⟨le, by omega⟩
    have inB : b.base ∈ b.addresses := BusRegion.mem_addresses.mpr ⟨Nat.le_refl _, by omega⟩
    exact Set.disjoint_left.mp disjoint inA inB
  · have inA : a.base ∈ a.addresses := BusRegion.mem_addresses.mpr ⟨Nat.le_refl _, by omega⟩
    exact Set.disjoint_left.mp disjoint inA (BusRegion.mem_addresses.mpr ⟨le, above⟩)

theorem disjoint_iff_of_not_overlap {a b : BusRegion ρ ω}
    (unseen : ¬ regionsOverlap a.base a.size b.base b.size = true) :
    Disjoint a.addresses b.addresses ↔ ¬ a.Misses b ∧ ¬ b.Misses a := by
  constructor
  · intro disjoint
    exact ⟨fun misses => shared_of_misses misses disjoint,
      fun misses => shared_of_misses misses disjoint.symm⟩
  · rintro ⟨seen, seen'⟩
    have bounds := not_overlap_iff.mp unseen
    apply Set.disjoint_left.mpr
    intro addr inA inB
    rw [BusRegion.mem_addresses] at inA inB
    rw [BusRegion.Misses] at seen seen'
    have := addr.isLt
    omega

theorem apart_concat {regions : List (BusRegion ρ ω)} {region : BusRegion ρ ω}
    (apart : regions.Pairwise fun a b => Disjoint a.addresses b.addresses) :
    (regions ++ [region]).Pairwise (fun a b => Disjoint a.addresses b.addresses) ↔
      ∀ existing ∈ regions, Disjoint existing.addresses region.addresses := by
  rw [List.pairwise_append]
  simp [apart]

theorem register_dispatches_iff {bus : MmioBus ρ ω} (dispatches : bus.Dispatches)
    (region : BusRegion ρ ω) :
    (bus.registerRegion region).2.Dispatches ↔ bus.Fits (.register region) := by
  rw [registerRegion, Fits]
  by_cases full : bus.capacity ≤ bus.regions.length
  · rw [if_pos full]
    exact iff_of_true dispatches (.inl full)
  · rw [if_neg full]
    by_cases seen : (bus.regions.any fun existing =>
        regionsOverlap existing.base existing.size region.base region.size) = true
    · rw [if_pos seen]
      exact iff_of_true dispatches (.inr (.inl (List.any_eq_true.mp seen)))
    · rw [if_neg seen, dispatches_iff, apart_concat dispatches.apart]
      have unseen := fun overlap => seen (List.any_eq_true.mpr overlap)
      constructor
      · intro clear
        refine .inr (.inr fun existing mem => ?_)
        exact (disjoint_iff_of_not_overlap fun one => unseen ⟨existing, mem, one⟩).mp
          (clear existing mem)
      · rintro (more | overlap | clear)
        · exact absurd more full
        · exact absurd overlap unseen
        · intro existing mem
          exact (disjoint_iff_of_not_overlap fun one => unseen ⟨existing, mem, one⟩).mpr
            (clear existing mem)

theorem inside_iff {region : BusRegion ρ ω} {addr : Word} (mem : addr ∈ region.addresses)
    (size : Word) :
    (addr - region.base).toNat + size.toNat ≤ region.size.toNat ↔
      addr.toNat + size.toNat ≤ region.base.toNat + region.size.toNat := by
  rw [BusRegion.mem_addresses] at mem
  have := addr.isLt
  rw [BitVec.toNat_sub]
  omega

theorem read_inside_iff {bus : MmioBus ρ ω} (dispatches : bus.Dispatches) (addr size : Word) :
    bus.CallsInside (.read addr size) ↔ bus.Fits (.read addr size) := by
  constructor
  · intro inside region mem callback within
    obtain ⟨read, has⟩ := Option.isSome_iff_exists.mp callback
    have call : bus.readCall addr size = some ⟨region, read, addr - region.base, size⟩ := by
      rw [readCall, dispatches.found region mem addr within, Option.bind_some, has, Option.map_some]
    exact (inside_iff within size).mp (inside _ call)
  · intro fits call called
    obtain ⟨region, found, called⟩ := Option.bind_eq_some_iff.mp called
    obtain ⟨read, has, rfl⟩ := Option.map_eq_some_iff.mp called
    obtain ⟨mem, within⟩ := find_eq_some found
    exact (inside_iff within size).mpr
      (fits region mem (Option.isSome_of_eq_some has) within)

theorem write_inside_iff {bus : MmioBus ρ ω} (dispatches : bus.Dispatches)
    (addr size value : Word) :
    bus.CallsInside (.write addr size value) ↔ bus.Fits (.write addr size value) := by
  constructor
  · intro inside region mem callback within
    obtain ⟨write, has⟩ := Option.isSome_iff_exists.mp callback
    have call : bus.writeCall addr size = some ⟨region, write, addr - region.base, size⟩ := by
      rw [writeCall, dispatches.found region mem addr within, Option.bind_some, has,
        Option.map_some]
    exact (inside_iff within size).mp (inside _ call)
  · intro fits call called
    obtain ⟨region, found, called⟩ := Option.bind_eq_some_iff.mp called
    obtain ⟨write, has, rfl⟩ := Option.map_eq_some_iff.mp called
    obtain ⟨mem, within⟩ := find_eq_some found
    exact (inside_iff within size).mpr
      (fits region mem (Option.isSome_of_eq_some has) within)

theorem step_iff (bus : MmioBus ρ ω) (op : Op ρ ω) (dispatches : bus.Dispatches) :
    (bus.step op).Dispatches ∧ bus.CallsInside op ↔ bus.Fits op := by
  cases op with
  | register region =>
    exact (and_iff_left trivial).trans (register_dispatches_iff dispatches region)
  | read addr size => exact (and_iff_right dispatches).trans (read_inside_iff dispatches addr size)
  | write addr size value =>
    exact (and_iff_right dispatches).trans (write_inside_iff dispatches addr size value)

theorem init_dispatches (capacity : Nat) : (init capacity : MmioBus ρ ω).Dispatches :=
  dispatches_iff.mpr .nil

/-- Whatever is registered and accessed, in any order: the regions stay apart, their addresses are
theirs, and no callback runs outside its region, exactly when every step fits. -/
theorem bus_kept_iff (capacity : Nat) (ops : List (Op ρ ω)) :
    Lib.Throughout step Dispatches (init capacity) ops ∧
        Lib.Along step CallsInside (init capacity) ops ↔
      Lib.Along step Fits (init capacity) ops :=
  Lib.throughout_along_iff step_iff (init_dispatches capacity)

theorem bus_overlap_accepted :
    ¬ ∀ (capacity : Nat) (ops : List (Op Unit Unit)),
      Lib.Throughout step Dispatches (init capacity) ops ∧
        Lib.Along step CallsInside (init capacity) ops := by
  intro always
  let outer : BusRegion Unit Unit := ⟨0xFFFFF000, 0x1000, none, none⟩
  let inner : BusRegion Unit Unit := ⟨0xFFFFF800, 0x400, none, none⟩
  have kept := (always 2 [.register outer, .register inner]).1.last
  have accepted : (init 2 |>.registerRegion outer).2.registerRegion inner =
      (true, ⟨[outer, inner], 2⟩) := by
    simp [registerRegion, init, regionsOverlap, outer, inner]
  rw [Lib.run_cons, Lib.run_cons, step, step, accepted] at kept
  have clear : Disjoint outer.addresses inner.addresses :=
    (List.pairwise_cons.mp kept.apart).1 inner (List.mem_singleton.mpr rfl)
  have inOuter : inner.base ∈ outer.addresses := BusRegion.mem_addresses.mpr (by decide)
  exact Set.disjoint_left.mp clear inOuter (BusRegion.mem_addresses.mpr (by decide))

end MmioBus

namespace World

variable {δ : Type u}

def ofBusRegion (region : BusRegion (Word → Word → World δ → Option Word × World δ)
    (Word → Word → Word → World δ → Bool × World δ)) : MmioRegion δ where
  base := region.base
  size := region.size
  read := region.read.getD fun _ _ w => (none, w)
  write := region.write.getD fun _ _ _ w => (false, w)

variable {env : Env δ} {bus : MmioBus (Word → Word → World δ → Option Word × World δ)
  (Word → Word → Word → World δ → Bool × World δ)} (registered : env.mmio =
    bus.regions.map ofBusRegion)

include registered

theorem busFind_eq (addr : Word) : busFind env addr = (bus.find addr).map ofBusRegion := by
  rw [busFind, registered, List.find?_map, MmioBus.find]
  congr 2
  funext region
  exact (Bool.decide_and ..).symm

theorem busRead_eq (w : World δ) (addr size : Word) :
    w.busRead env addr size =
      match bus.readCall addr size with
      | some call => call.callback call.offset call.size w
      | none => (none, w) := by
  rw [busRead, busFind_eq registered, MmioBus.readCall]
  cases bus.find addr with
  | none => rfl
  | some region =>
    obtain ⟨base, extent, read, write⟩ := region
    cases read <;> rfl

theorem busWrite_eq (w : World δ) (addr size value : Word) :
    w.busWrite env addr size value =
      match bus.writeCall addr size with
      | some call => call.callback call.offset call.size value w
      | none => (false, w) := by
  rw [busWrite, busFind_eq registered, MmioBus.writeCall]
  cases bus.find addr with
  | none => rfl
  | some region =>
    obtain ⟨base, extent, read, write⟩ := region
    cases write <;> rfl

end World

end M33mu
