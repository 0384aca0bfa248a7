import M33mu.ByteAccess

namespace M33mu

namespace Window

theorem offset_add (v : Window) (addr k : Word) : v.offset (addr + k) = v.offset addr + k := by
  simp only [offset]
  bv_omega

end Window

namespace Memmap

def bytes (m : Memmap) (p : Buffer × Word) : Byte := m.contents p.1 p.2

/-- The byte of a buffer that `mm_memmap_read8` finds. -/
def bytePlace (m : Memmap) (addr : Word) : Option (Buffer × Word) :=
  (m.read8Taken addr).map fun t => (t.1, t.2.offset addr)

/-- The byte of a buffer that `mm_memmap_write8` stores to. -/
def ramPlace (m : Memmap) (addr : Word) : Option (Buffer × Word) :=
  (m.ramTaken addr 1).map fun t => (t.1, t.2.offset addr)

def fetchPlace (m : Memmap) (addr : Word) : Option (Buffer × Word) :=
  (m.readTaken (addr &&& ~~~1#32) 2).map fun t => (t.1, t.2.offset addr)

/-- The part of `mm_memmap_read8` that the buffers answer. -/
def byte (m : Memmap) (addr : Word) : Option Byte := m.flashByte addr <|> m.ramByte addr

def halfByte (addr v : Word) : Byte := (if addr.getLsbD 0 then v >>> 8 else v).setWidth 8

def fetchByte (m : Memmap) (addr : Word) : Option Byte :=
  (m.fetchHalf (addr &&& ~~~1#32)).map (halfByte addr)

variable {m : Memmap} {addr : Word}

theorem flashByte_taken (m : Memmap) (addr : Word) : m.flashByte addr =
    ((if m.flash.isSome then
      (m.flashViews.find? fun v => v.base ≤ addr ∧ addr - v.base < v.limit).map (Buffer.flash, ·)
    else none).map fun t => (t.1, t.2.offset addr)).map m.bytes := by
  rw [flashByte]
  cases flash : m.flash with
  | none => rfl
  | some buf =>
    have bytes (i : Word) : m.bytes (.flash, i) = buf i := by
      simp only [Memmap.bytes, contents, flash]
      rfl
    rw [Option.bind_some, Option.isSome_some, if_pos rfl, flashViews]
    induction m.flashWindows with
    | nil => rfl
    | cons window windows ih =>
      obtain ⟨base, limit⟩ := window
      rw [List.findSome?_cons, List.map_cons, List.find?_cons]
      by_cases inside : base ≤ addr ∧ addr - base < limit
      · have index : 0 + (addr - base) = addr - base := BitVec.zero_add _
        simp only [inside, and_self, if_true, decide_true, Option.map_some, bytes, Window.offset]
        rw [index]
      · simp only [inside, if_false, decide_false]
        exact ih

theorem byte_eq (m : Memmap) (addr : Word) : m.byte addr = (m.bytePlace addr).map m.bytes := by
  have ram : m.ramByte addr =
      ((m.ramTaken addr 1).map fun t => (t.1, t.2.offset addr)).map m.bytes := by
    rw [ramByte, ramTaken, ramOffsetForAddr_eq]
    cases ram : m.ram with
    | none => rfl
    | some buf =>
      cases firstView m.ramViews addr 1 with
      | none => rfl
      | some v => simp [Memmap.bytes, contents, ram]
  rw [byte, flashByte_taken, ram, bytePlace, read8Taken]
  cases (if m.flash.isSome then
    (m.flashViews.find? fun v => v.base ≤ addr ∧ addr - v.base < v.limit).map (Buffer.flash, ·)
    else none) <;> rfl

end Memmap

theorem toNat_clear (addr : Word) : (addr &&& ~~~1#32).toNat = addr.toNat / 2 * 2 :=
  Lib.toNat_and_not_mask addr 1 (by decide)

theorem getLsbD_zero_eq (addr : Word) : addr.getLsbD 0 = decide (addr.toNat % 2 = 1) :=
  Nat.testBit_zero addr.toNat

theorem clear_of_even_word {addr : Word} (even : addr.getLsbD 0 = false) :
    addr &&& ~~~1#32 = addr := by
  rw [getLsbD_zero_eq, decide_eq_false_iff_not] at even
  apply BitVec.eq_of_toNat_eq
  rw [toNat_clear]
  omega

theorem clear_add_one {addr : Word} (odd : addr.getLsbD 0 = true) :
    (addr &&& ~~~1#32) + 1 = addr := by
  rw [getLsbD_zero_eq, decide_eq_true_eq] at odd
  have clear := toNat_clear addr
  apply BitVec.eq_of_toNat_eq
  have one : (1 : Word).toNat = 1 := rfl
  have := addr.isLt
  rw [BitVec.toNat_add, clear, one]
  omega

namespace Memmap

variable {m : Memmap} {addr : Word}

theorem fetchByte_eq (m : Memmap) (addr : Word) :
    m.fetchByte addr = (m.fetchPlace addr).map m.bytes := by
  have load : m.fetchHalf (addr &&& ~~~1#32) = m.load (addr &&& ~~~1#32) 2 := rfl
  rw [fetchByte, load, load_eq m _ (.inr (.inl rfl)), fetchPlace]
  cases taken : m.readTaken (addr &&& ~~~1#32) 2 with
  | none => rfl
  | some t =>
    have half : readBufLe (m.contents t.1) (t.2.offset (addr &&& ~~~1#32)) 2 =
        some ((m.contents t.1 (t.2.offset (addr &&& ~~~1#32) + 1) ++
          m.contents t.1 (t.2.offset (addr &&& ~~~1#32))).setWidth 32) := rfl
    rw [Option.bind_some, half, Option.map_some, Option.map_some, Option.map_some]
    refine congrArg some ?_
    cases low : addr.getLsbD 0 with
    | false =>
      rw [clear_of_even_word low, halfByte, low, bytes]
      refine BitVec.eq_of_getLsbD_eq fun i hi => ?_
      simp only [Bool.false_eq_true, if_false, BitVec.getLsbD_setWidth, BitVec.getLsbD_append]
      grind
    | true =>
      have next : t.2.offset (addr &&& ~~~1#32) + 1 = t.2.offset addr := by
        rw [← Window.offset_add]
        exact congrArg _ (clear_add_one low)
      rw [next, halfByte, low, bytes]
      refine BitVec.eq_of_getLsbD_eq fun i hi => ?_
      simp only [if_true, BitVec.getLsbD_setWidth, BitVec.getLsbD_ushiftRight,
        BitVec.getLsbD_append]
      grind

def placesFrom (at' : Word → Option (Buffer × Word)) (addr : Word) :
    Nat → Option (List (Buffer × Word))
  | 0 => some []
  | n + 1 => do
    let p ← at' addr
    let ps ← placesFrom at' (addr + 1) n
    some (p :: ps)

theorem add_ofNat_succ (addr : Word) (k : Nat) :
    addr + BitVec.ofNat 32 (k + 1) = addr + 1 + BitVec.ofNat 32 k := by
  apply BitVec.eq_of_toNat_eq
  have one : (1 : Word).toNat = 1 := rfl
  simp only [BitVec.toNat_add, BitVec.toNat_ofNat, one]
  omega

theorem placesFrom_succ {at' : Word → Option (Buffer × Word)} {addr : Word} {n : Nat}
    {ps : List (Buffer × Word)} (places : placesFrom at' addr (n + 1) = some ps) :
    ∃ p qs, at' addr = some p ∧ placesFrom at' (addr + 1) n = some qs ∧ ps = p :: qs := by
  obtain ⟨p, here, places⟩ := Option.bind_eq_some_iff.mp places
  obtain ⟨qs, there, places⟩ := Option.bind_eq_some_iff.mp places
  exact ⟨p, qs, here, there, (Option.some.inj places).symm⟩

theorem placesFrom_eq_some {at' : Word → Option (Buffer × Word)} {addr : Word} {n : Nat}
    {ps : List (Buffer × Word)} : placesFrom at' addr n = some ps ↔
      ps.length = n ∧ ∀ k < n, at' (addr + BitVec.ofNat 32 k) = ps[k]? := by
  induction n generalizing addr ps with
  | zero =>
    constructor
    · rintro ⟨⟩
      exact ⟨rfl, fun k none => absurd none (Nat.not_lt_zero k)⟩
    · rintro ⟨empty, -⟩
      rw [List.eq_nil_of_length_eq_zero empty]
      rfl
  | succ n ih =>
    have first : addr + BitVec.ofNat 32 0 = addr := BitVec.add_zero addr
    rw [placesFrom]
    constructor
    · intro found
      obtain ⟨p, rest, here, there, rfl⟩ := placesFrom_succ found
      obtain ⟨length, places⟩ := ih.mp there
      refine ⟨congrArg (· + 1) length, fun k below => ?_⟩
      cases k with
      | zero => rw [first, here, List.getElem?_cons_zero]
      | succ k =>
        rw [add_ofNat_succ, places k (Nat.lt_of_succ_lt_succ below), List.getElem?_cons_succ]
    · rintro ⟨length, places⟩
      cases ps with
      | nil => exact nomatch length
      | cons p ps =>
        have here := places 0 (Nat.succ_pos n)
        rw [first, List.getElem?_cons_zero] at here
        have there : placesFrom at' (addr + 1) n = some ps := by
          refine ih.mpr ⟨Nat.succ.inj length, fun k below => ?_⟩
          have next := places (k + 1) (Nat.succ_lt_succ below)
          rwa [add_ofNat_succ, List.getElem?_cons_succ] at next
        rw [here, there]
        rfl

theorem exists_placesFrom (at' : Word → Option (Buffer × Word)) (addr : Word) {n : Nat}
    (found : ∀ k < n, (at' (addr + BitVec.ofNat 32 k)).isSome) :
    ∃ ps, placesFrom at' addr n = some ps := by
  induction n generalizing addr with
  | zero => exact ⟨[], rfl⟩
  | succ n ih =>
    have here := found 0 (Nat.succ_pos n)
    have first : addr + BitVec.ofNat 32 0 = addr := BitVec.add_zero addr
    rw [first] at here
    obtain ⟨p, here⟩ := Option.isSome_iff_exists.mp here
    obtain ⟨ps, there⟩ := ih (addr + 1) fun k below => by
      rw [← add_ofNat_succ]
      exact found (k + 1) (Nat.succ_lt_succ below)
    exact ⟨p :: ps, by rw [placesFrom, here, there]; rfl⟩

def pokeAll (m : Memmap) (cells : List ((Buffer × Word) × Byte)) : Memmap :=
  cells.foldl (fun m c => m.poke c.1.1 c.1.2 c.2) m

def Present (m : Memmap) : Buffer → Prop
  | .flash => m.flash.isSome
  | .ram => m.ram.isSome

structure Rewritten (m m' : Memmap) : Prop where
  eq : m' = { m with flash := m'.flash, ram := m'.ram }
  flash : m'.flash.isSome = m.flash.isSome
  ram : m'.ram.isSome = m.ram.isSome

namespace Rewritten

variable {m₁ m₂ m₃ : Memmap}

theorem refl (m : Memmap) : m.Rewritten m := ⟨rfl, rfl, rfl⟩

theorem trans (first : m₁.Rewritten m₂) (second : m₂.Rewritten m₃) : m₁.Rewritten m₃ where
  eq := by
    have eq := second.eq
    rw [first.eq] at eq
    exact eq
  flash := second.flash.trans first.flash
  ram := second.ram.trans first.ram

theorem ramTaken (same : m₁.Rewritten m₂) (addr size : Word) :
    m₂.ramTaken addr size = m₁.ramTaken addr size := by
  rw [same.eq]
  exact ramTaken_buffers m₁ same.ram addr size

theorem readTaken (same : m₁.Rewritten m₂) (addr size : Word) :
    m₂.readTaken addr size = m₁.readTaken addr size := by
  rw [same.eq]
  exact readTaken_buffers m₁ same.flash same.ram addr size

theorem ramPlace (same : m₁.Rewritten m₂) (addr : Word) : m₂.ramPlace addr = m₁.ramPlace addr := by
  rw [Memmap.ramPlace, same.ramTaken, Memmap.ramPlace]

theorem fetchPlace (same : m₁.Rewritten m₂) (addr : Word) :
    m₂.fetchPlace addr = m₁.fetchPlace addr := by
  rw [Memmap.fetchPlace, same.readTaken, Memmap.fetchPlace]

theorem bytePlace (same : m₁.Rewritten m₂) (addr : Word) :
    m₂.bytePlace addr = m₁.bytePlace addr := by
  have views : m₂.flashViews = m₁.flashViews := by
    rw [same.eq]
    rfl
  rw [Memmap.bytePlace, read8Taken, same.flash, views, same.ramTaken, Memmap.bytePlace, read8Taken]

end Rewritten

theorem rewritten_poke (m : Memmap) (b : Buffer) (i : Word) (x : Byte) :
    m.Rewritten (m.poke b i x) := by
  cases b
  case flash => exact ⟨rfl, Option.isSome_map, rfl⟩
  case ram => exact ⟨rfl, rfl, Option.isSome_map⟩

theorem rewritten_pokeAll (m : Memmap) (cells : List ((Buffer × Word) × Byte)) :
    m.Rewritten (m.pokeAll cells) := by
  induction cells generalizing m with
  | nil => exact .refl m
  | cons c cells ih => exact (rewritten_poke m c.1.1 c.1.2 c.2).trans (ih _)

theorem poke_of_absent {b : Buffer} (absent : ¬ m.Present b) (i : Word) (x : Byte) :
    m.poke b i x = m := by
  cases b
  case flash => rw [poke, Option.not_isSome_iff_eq_none.mp absent, Option.map_none,
    ← Option.not_isSome_iff_eq_none.mp absent]
  case ram => rw [poke, Option.not_isSome_iff_eq_none.mp absent, Option.map_none,
    ← Option.not_isSome_iff_eq_none.mp absent]

theorem present_of_ramTaken {size : Word} {t : Buffer × Window}
    (taken : m.ramTaken addr size = some t) : m.Present t.1 := by
  rw [ramTaken_buffer taken]
  rw [ramTaken] at taken
  split at taken
  · assumption
  · cases taken

theorem present_of_bytePlace {p : Buffer × Word} (shown : m.bytePlace addr = some p) :
    m.Present p.1 := by
  rw [bytePlace, read8Taken] at shown
  obtain ⟨t, taken, rfl⟩ := Option.map_eq_some_iff.mp shown
  by_cases flash : m.flash.isSome
  · rw [if_pos flash] at taken
    cases first : m.flashViews.find? fun v => v.base ≤ addr ∧ addr - v.base < v.limit with
    | some v =>
      rw [first] at taken
      obtain rfl := Option.some.inj taken
      exact flash
    | none =>
      rw [first] at taken
      exact present_of_ramTaken taken
  · rw [if_neg flash] at taken
    exact present_of_ramTaken taken

theorem bytes_poke_self {b : Buffer} (present : m.Present b) (i : Word) (x : Byte) :
    (m.poke b i x).bytes (b, i) = x := by
  cases b
  case flash =>
    obtain ⟨buf, flash⟩ := Option.isSome_iff_exists.mp present
    simp [bytes, contents, poke, flash]
  case ram =>
    obtain ⟨buf, ram⟩ := Option.isSome_iff_exists.mp present
    simp [bytes, contents, poke, ram]

theorem bytes_poke_of_ne {p q : Buffer × Word} (apart : p ≠ q) (x : Byte) :
    (m.poke p.1 p.2 x).bytes q = m.bytes q :=
  contents_poke_of_ne m x apart

theorem present_poke {b b' : Buffer} (i : Word) (x : Byte) :
    (m.poke b' i x).Present b ↔ m.Present b := by
  cases b <;> cases b' <;> simp [Present, poke]

theorem bytes_pokeAll_of_not_mem {cells : List ((Buffer × Word) × Byte)} {p : Buffer × Word}
    (apart : p ∉ cells.map Prod.fst) : (m.pokeAll cells).bytes p = m.bytes p := by
  induction cells generalizing m with
  | nil => rfl
  | cons c cells ih =>
    rw [List.map_cons, List.mem_cons, not_or] at apart
    exact (ih apart.2).trans (bytes_poke_of_ne (Ne.symm apart.1) c.2)

theorem bytes_pokeAll_cases (cells : List ((Buffer × Word) × Byte)) (p : Buffer × Word) :
    (m.pokeAll cells).bytes p = m.bytes p ∨ (p, (m.pokeAll cells).bytes p) ∈ cells := by
  induction cells generalizing m with
  | nil => exact .inl rfl
  | cons c cells ih =>
    rcases ih (m := m.poke c.1.1 c.1.2 c.2) with same | written
    · by_cases here : c.1 = p
      · subst here
        by_cases present : m.Present c.1.1
        · have now := bytes_poke_self present c.1.2 c.2
          exact .inr (List.mem_cons.mpr (.inl (Prod.ext rfl (same.trans now))))
        · exact .inl (same.trans (by rw [poke_of_absent present]))
      · exact .inl (same.trans (bytes_poke_of_ne here c.2))
    · exact .inr (List.mem_cons_of_mem _ written)

theorem bytes_pokeAll_of_mem {cells : List ((Buffer × Word) × Byte)}
    (nodup : (cells.map Prod.fst).Nodup) {p : Buffer × Word} {x : Byte} (present : m.Present p.1)
    (written : (p, x) ∈ cells) : (m.pokeAll cells).bytes p = x := by
  induction cells generalizing m with
  | nil => exact nomatch written
  | cons c cells ih =>
    rw [List.map_cons, List.nodup_cons] at nodup
    rcases List.mem_cons.mp written with rfl | later
    · exact (bytes_pokeAll_of_not_mem nodup.1).trans (bytes_poke_self present p.2 x)
    · exact ih nodup.2 ((present_poke _ _).mpr present) later

theorem map_fst_zip {ps : List (Buffer × Word)} {src : List Byte}
    (length : ps.length = src.length) : (ps.zip src).map Prod.fst = ps :=
  List.map_fst_zip (Nat.le_of_eq length)

theorem bytes_pokeAll_zip {ps : List (Buffer × Word)} {src : List Byte} (nodup : ps.Nodup)
    (length : ps.length = src.length) {k : Nat} {p : Buffer × Word} {x : Byte}
    (place : ps[k]? = some p) (value : src[k]? = some x) (present : m.Present p.1) :
    (m.pokeAll (ps.zip src)).bytes p = x := by
  have member : (p, x) ∈ ps.zip src :=
    List.mem_of_getElem? (List.getElem?_zip_eq_some.mpr ⟨place, value⟩)
  exact bytes_pokeAll_of_mem ((map_fst_zip length).symm ▸ nodup) present member

end Memmap

end M33mu
