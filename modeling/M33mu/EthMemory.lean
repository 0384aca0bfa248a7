import M33mu.Stm32Eth
import M33mu.WordAccess

namespace M33mu

open Lib

/-- The memory behind a bus that can be read and written, by its bytes. No read changes it. -/
structure DmaRam {μ : Type u} (bus : DmaBus μ) where
  Valid : μ → Prop
  /-- A word at the address is in it. -/
  ram : Word → Prop
  byte : μ → ByteMem 32
  kept : ∀ m a, byte (bus.read32 m a).2 = byte m
  read : ∀ {m a}, Valid m → ram a →
    ∃ m', bus.read32 m a = (some ((byte m).word a), m') ∧ Valid m'
  write : ∀ {m a}, Valid m → ram a → ∀ v,
    ∃ m', bus.write32 m a v = (true, m') ∧ Valid m' ∧ byte m' = (byte m).putWord a v

namespace EthDesc

variable {m : ByteMem 32} {s x : Word}

def get (m : ByteMem 32) (s : Word) : EthDesc :=
  ⟨m.word s, m.word (s + 4), m.word (s + 8), m.word (s + 12)⟩

def put (m : ByteMem 32) (s : Word) (desc : EthDesc) : ByteMem 32 :=
  (((m.putWord s desc.des0).putWord (s + 4) desc.des1).putWord (s + 8) desc.des2).putWord (s + 12)
    desc.des3

def Owned (desc : EthDesc) : Prop := desc.des3 &&& Eth.desOwn ≠ 0

instance (desc : EthDesc) : Decidable desc.Owned := inferInstanceAs (Decidable (_ ≠ _))

theorem dist_word {k : Nat} (low : k < 2 ^ 32) (out : 16 ≤ ByteMem.dist s x) (inside : k ≤ 12) :
    4 ≤ ByteMem.dist (s + BitVec.ofNat 32 k) x := by
  rw [ByteMem.dist_skip low (by omega)]
  omega

def Apart (s t : Word) : Prop := 16 ≤ ByteMem.dist s t ∧ 16 ≤ ByteMem.dist t s

theorem Apart.far {s t : Word} (apart : Apart s t) {x : Word} (near : ByteMem.dist t x < 16) :
    16 ≤ ByteMem.dist s x :=
  ByteMem.dist_apart apart.2 apart.1 near

theorem apart_of_ne (base : Word) {a b : Nat} (low : a < 1024) (low' : b < 1024) (other : a ≠ b) :
    Apart (base + BitVec.ofNat 32 (16 * a)) (base + BitVec.ofNat 32 (16 * b)) := by
  have far (a b : Nat) (low : a < 1024) (low' : b < 1024) (other : a ≠ b) :
      16 ≤ ByteMem.dist (base + BitVec.ofNat 32 (16 * a)) (base + BitVec.ofNat 32 (16 * b)) := by
    rw [ByteMem.dist_from base, ByteMem.dist_add (by omega), ByteMem.dist_add (by omega)]
    omega
  exact ⟨far a b low low' other, far b a low' low other.symm⟩

theorem word_putWord_other {s t : Word} (behind : 4 ≤ (s - t).toNat) (ahead : 4 ≤ (t - s).toNat)
    (v : Word) : (m.putWord s v).word t = m.word t :=
  ByteMem.word_putWord_apart (by decide) behind ahead m v

theorem put_get (m : ByteMem 32) (s u v : Word) :
    ({ get m s with des1 := u, des3 := v } : EthDesc).put m s =
      (m.putWord (s + 4) u).putWord (s + 12) v := by
  have third : (m.putWord (s + 4) u).word (s + 8) = m.word (s + 8) :=
    word_putWord_other (by bv_omega) (by bv_omega) u
  rw [put, get, ByteMem.putWord_word, ← third, ByteMem.putWord_word]

theorem put_last (m : ByteMem 32) (s v : Word) :
    ({ get m s with des3 := v } : EthDesc).put m s = m.putWord (s + 12) v := by
  have second := put_get m s (m.word (s + 4)) v
  rwa [ByteMem.putWord_word] at second

theorem get_congr {m' : ByteMem 32} (same : ∀ x, ByteMem.dist s x < 16 → m' x = m x) :
    get m' s = get m s := by
  have word (k : Nat) (inside : k ≤ 12) :
      m'.word (s + BitVec.ofNat 32 k) = m.word (s + BitVec.ofNat 32 k) := by
    refine ByteMem.word_congr fun i low => same _ ?_
    rw [BitVec.add_assoc, ← BitVec.ofNat_add, ByteMem.dist_add (by omega)]
    omega
  have first := word 0 (by decide)
  rw [BitVec.add_zero] at first
  have second : m'.word (s + 4) = m.word (s + 4) := word 4 (by decide)
  have third : m'.word (s + 8) = m.word (s + 8) := word 8 (by decide)
  have fourth : m'.word (s + 12) = m.word (s + 12) := word 12 (by decide)
  rw [get, get, first, second, third, fourth]

end EthDesc

namespace DmaRam

variable {μ : Type u} {bus : DmaBus μ} (R : DmaRam bus) {m : μ} {s : Word}

def Slot (s : Word) : Prop := R.ram s ∧ R.ram (s + 4) ∧ R.ram (s + 8) ∧ R.ram (s + 12)

def Buffer (des0 : Word) (n : Nat) : Prop := ∀ j < n, R.ram (des0 + BitVec.ofNat 32 (4 * (j / 4)))

variable {R}

theorem kept_of {a : Word} {v : Option Word} {m' : μ} (read : bus.read32 m a = (v, m')) :
    R.byte m' = R.byte m := by
  have kept := R.kept m a
  rwa [read] at kept

theorem read32 (valid : R.Valid m) {a : Word} (inRam : R.ram a) :
    ∃ m', bus.read32 m a = (some ((R.byte m).word a), m') ∧ R.Valid m' ∧ R.byte m' = R.byte m := by
  obtain ⟨m', read, valid'⟩ := R.read valid inRam
  exact ⟨m', read, valid', kept_of read⟩

theorem readDesc (valid : R.Valid m) (slot : R.Slot s) :
    ∃ m', bus.readDesc m s = (some (EthDesc.get (R.byte m) s), m') ∧ R.Valid m' ∧
      R.byte m' = R.byte m := by
  obtain ⟨first, second, third, fourth⟩ := slot
  obtain ⟨m₁, read₁, valid₁, same₁⟩ := read32 valid first
  obtain ⟨m₂, read₂, valid₂, same₂⟩ := read32 valid₁ second
  obtain ⟨m₃, read₃, valid₃, same₃⟩ := read32 valid₂ third
  obtain ⟨m₄, read₄, valid₄, same₄⟩ := read32 valid₃ fourth
  refine ⟨m₄, ?_, valid₄, by rw [same₄, same₃, same₂, same₁]⟩
  simp only [DmaBus.readDesc, read₁, read₂, read₃, read₄]
  rw [same₃, same₂, same₁, EthDesc.get]

theorem readDesc_kept (R : DmaRam bus) (m : μ) (s : Word) :
    R.byte (bus.readDesc m s).2 = R.byte m := by
  rw [DmaBus.readDesc]
  split
  case h_1 read => exact kept_of read
  case h_2 m₁ read =>
    rw [← kept_of read]
    split
    case h_1 read => exact kept_of read
    case h_2 m₂ read =>
      rw [← kept_of read]
      split
      case h_1 read => exact kept_of read
      case h_2 m₃ read =>
        rw [← kept_of read]
        split <;> exact kept_of ‹_›

theorem writeDesc (valid : R.Valid m) (slot : R.Slot s) (desc : EthDesc) :
    ∃ m', bus.writeDesc m s desc = (true, m') ∧ R.Valid m' ∧
      R.byte m' = desc.put (R.byte m) s := by
  obtain ⟨first, second, third, fourth⟩ := slot
  obtain ⟨m₁, write₁, valid₁, same₁⟩ := R.write valid first desc.des0
  obtain ⟨m₂, write₂, valid₂, same₂⟩ := R.write valid₁ second desc.des1
  obtain ⟨m₃, write₃, valid₃, same₃⟩ := R.write valid₂ third desc.des2
  obtain ⟨m₄, write₄, valid₄, same₄⟩ := R.write valid₃ fourth desc.des3
  refine ⟨m₄, ?_, valid₄, by rw [same₄, same₃, same₂, same₁, EthDesc.put]⟩
  simp only [DmaBus.writeDesc, write₁, write₂, write₃, write₄]

end DmaRam

def flatBus : DmaBus (ByteMem 32) where
  read32 m a := (some (m.word a), m)
  write32 m a v := (true, m.putWord a v)

def flatRam : DmaRam flatBus where
  Valid _ := True
  ram _ := True
  byte m := m
  kept _ _ := rfl
  read _ _ := ⟨_, rfl, trivial⟩
  write _ _ _ := ⟨_, rfl, trivial, rfl⟩

namespace World

variable {δ : Type u} (env : Env δ) {w : World δ} {base off size a : Word}

/-- A window of `size` addresses shows the RAM from an offset on, with nothing before it and open to
a security state. -/
structure OpenTo (w : World δ) (sec : SecState) (base off size : Word) : Prop where
  ram : w.map.ram.isSome
  grant : ∀ a, ByteMem.dist base a + 4 ≤ size.toNat →
    w.interceptOk env .read sec a 4 = (true, w) ∧ w.interceptOk env .write sec a 4 = (true, w)
  noFlash : ∀ a, ByteMem.dist base a + 4 ≤ size.toNat → w.map.flashOffsets a 4 = []
  offset : ∀ a, ByteMem.dist base a + 4 ≤ size.toNat →
    w.map.ramOffsetForAddr a 4 = some (off + (a - base))

def windowByte (base off size : Word) (w : World δ) : ByteMem 32 := fun x =>
  if ByteMem.dist base x < size.toNat then w.map.ram.getD (fun _ => 0) (off + (x - base)) else 0

variable {env} {sec : SecState}

theorem OpenTo.readFlash (opened : OpenTo env w sec base off size)
    (inside : ByteMem.dist base a + 4 ≤ size.toNat) : w.map.readFlash a 4 = none := by
  rw [Memmap.readFlash, opened.noFlash a inside]
  cases w.map.flash <;> rfl

theorem dist_byte (inside : ByteMem.dist base a + 4 ≤ size.toNat) {k : Nat} (low : k < 4) :
    ByteMem.dist base (a + BitVec.ofNat 32 k) < size.toNat := by
  have room := size.isLt
  rw [ByteMem.dist_add_right (by omega)]
  omega

theorem offset_byte (base off a : Word) (k : Nat) :
    off + (a + BitVec.ofNat 32 k - base) = off + (a - base) + BitVec.ofNat 32 k := by
  grind

theorem windowByte_add (inside : ByteMem.dist base a + 4 ≤ size.toNat) {k : Nat} (low : k < 4) :
    windowByte base off size w (a + BitVec.ofNat 32 k) =
      w.map.ram.getD (fun _ => 0) (off + (a - base) + BitVec.ofNat 32 k) := by
  rw [windowByte, if_pos (dist_byte inside low), offset_byte]

theorem OpenTo.read (opened : OpenTo env w sec base off size)
    (inside : ByteMem.dist base a + 4 ≤ size.toNat) :
    w.read env sec a 4 = (some ((windowByte base off size w).word a), w) := by
  obtain ⟨buf, ram⟩ := Option.isSome_iff_exists.mp opened.ram
  have word : w.map.readRam a 4 = some ((windowByte base off size w).word a) := by
    rw [Memmap.readRam, ram, Option.bind_some, opened.offset a inside, Option.bind_some,
      Memmap.readBufLe_eq_little (by decide)]
    refine congrArg some (little_congr fun k low => ?_)
    rw [windowByte_add inside low, ram]
    rfl
  rw [World.read, (opened.grant a inside).1]
  dsimp only
  rw [opened.readFlash inside, word]
  rfl

theorem interceptOk_ram {type : AccessType} {sec : SecState} {n : Word}
    (granted : w.interceptOk env type sec a n = (true, w)) (ram : Option (Word → Byte)) :
    { w with map := { w.map with ram := ram } }.interceptOk env type sec a n =
      (true, { w with map := { w.map with ram := ram } }) := by
  rw [interceptOk] at granted ⊢
  dsimp only
  cases prot : w.map.prot with
  | none => rfl
  | some ctx =>
    rw [prot] at granted
    have ok := congrArg Prod.fst granted
    have scs := congrArg (·.2.scs) granted
    dsimp only at ok scs ⊢
    rw [ok, scs]

theorem windowByte_put {buf : Word → Byte} (ram : w.map.ram = some buf)
    (inside : ByteMem.dist base a + 4 ≤ size.toNat) (v : Word) :
    windowByte base off size
        { w with map := { w.map with ram := some (Memmap.putBytes buf (off + (a - base)) v 4) } } =
      (windowByte base off size w).putWord a v := by
  funext x
  rw [ByteMem.putWord]
  split
  · rename_i near
    have here := ByteMem.add_dist a x
    generalize ByteMem.dist a x = k at near here ⊢
    rw [← here, windowByte_add inside near]
    exact Memmap.putBytes_at (by decide) near
  · rename_i far
    rw [windowByte, windowByte, ram]
    split
    · refine Memmap.putBytes_apart fun k low same => far ?_
      rw [← offset_byte, BitVec.add_right_inj] at same
      have here : a + BitVec.ofNat 32 k = x := by grind
      rw [← here, ByteMem.dist_add (by omega)]
      exact low
    · rfl

theorem OpenTo.write (opened : OpenTo env w sec base off size)
    (inside : ByteMem.dist base a + 4 ≤ size.toNat) (v : Word) :
    ∃ w', w.write env sec a 4 v = (true, w') ∧ OpenTo env w' sec base off size ∧
      windowByte base off size w' = (windowByte base off size w).putWord a v := by
  obtain ⟨buf, ram⟩ := Option.isSome_iff_exists.mp opened.ram
  have stored : w.map.writeRam a 4 v =
      some { w.map with ram := some (Memmap.putBytes buf (off + (a - base)) v 4) } := by
    rw [Memmap.writeRam, ram, Option.bind_some, opened.offset a inside, Option.bind_some,
      Memmap.writeBufLe_of_sized (by decide)]
    rfl
  refine ⟨{ w with map := { w.map with ram := some (Memmap.putBytes buf (off + (a - base)) v 4) } },
    ?_, ⟨rfl, fun a inside => ⟨interceptOk_ram (opened.grant a inside).1 _,
      interceptOk_ram (opened.grant a inside).2 _⟩, opened.noFlash, opened.offset⟩,
    windowByte_put ram inside v⟩
  have direct : w.writeRamOrBus env sec a 4 v = (true, { w with
      map := { w.map with ram := some (Memmap.putBytes buf (off + (a - base)) v 4) } }) := by
    rw [writeRamOrBus, stored]
  rw [World.write, (opened.grant a inside).2]
  simp only [opened.noFlash a inside, ne_eq, not_true_eq_false, and_false, if_false, Bool.not_true,
    Bool.false_eq_true]
  split <;> exact direct

def QuietReads (env : Env δ) : Prop := ∀ r ∈ env.mmio, ∀ offset n w, (r.read offset n w).2.map = w.map

theorem read_map (quiet : QuietReads env) (w : World δ) (sec : SecState) (addr n : Word) :
    (w.read env sec addr n).2.map = w.map := by
  have map := interceptOk_map env w .read sec addr n
  rw [World.read]
  generalize w.interceptOk env .read sec addr n = r at map ⊢
  obtain ⟨ok, w₁⟩ := r
  dsimp only at map ⊢
  split
  · exact map
  · split
    · exact map
    · rw [busRead]
      split
      · rename_i found
        rw [quiet _ (List.mem_of_find?_eq_some found)]
        exact map
      · exact map

theorem ethDma_read_map (quiet : QuietReads env) (w : World δ) (a : Word) :
    ((ethDma env).read32 w a).2.map = w.map := by
  have first := read_map quiet w .nonsecure a 4
  simp only [ethDma]
  generalize w.read env .nonsecure a 4 = r at first ⊢
  obtain ⟨_ | _, w₁⟩ := r
  · exact (read_map quiet w₁ .secure a 4).trans first
  · exact first

def ethRam (quiet : QuietReads env) (base off size : Word) : DmaRam (ethDma env) where
  Valid w := OpenTo env w .nonsecure base off size
  ram a := ByteMem.dist base a + 4 ≤ size.toNat
  byte := windowByte base off size
  kept w a := by
    funext x
    rw [windowByte, windowByte, ethDma_read_map quiet w a]
  read := by
    intro w a opened inside
    exact ⟨w, by simp only [ethDma, opened.read inside], opened⟩
  write := by
    intro w a opened inside v
    obtain ⟨w', written, opened', same⟩ := opened.write inside v
    exact ⟨w', by simp only [ethDma, written], opened', same⟩

end World

end M33mu
