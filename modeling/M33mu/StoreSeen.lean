import M33mu.MapBounds
import M33mu.RamWord

namespace M33mu

namespace Memmap

def place (m : Memmap) (addr : Word) : Option (Buffer × Word) :=
  (m.readTaken addr 1).map fun t => (t.1, t.2.offset addr)

def SameByte (m : Memmap) (a b : Word) : Prop := ∃ p, m.place a = some p ∧ m.place b = some p

def store (m : Memmap) (off v size : Word) : Memmap :=
  { m with ram := some (putBytes (m.contents .ram) off v size.toNat) }

def holding (m : Memmap) (flash ram : Word → Byte) : Memmap :=
  { m with flash := some flash, ram := some ram }

theorem load_one (m : Memmap) (addr : Word) :
    m.load addr 1 = (m.place addr).map fun p => (m.contents p.1 p.2).setWidth 32 := by
  rw [load_eq m addr (.inl rfl), place]
  cases m.readTaken addr 1 <;> rfl

end Memmap

inductive TargetCfg.Views (cfg : TargetCfg) : Word → Word → Prop
  | region (r : RamRegion) (o : Word) (member : r ∈ cfg.ramRegions) (inside : o < r.size) :
    cfg.Views (r.baseS + o) (r.baseNs + o)
  | single (o : Word) (none : cfg.ramRegions = []) (insideS : o < cfg.ramSizeS)
    (insideNs : o < cfg.ramSizeNs) : cfg.Views (cfg.ramBaseS + o) (cfg.ramBaseNs + o)

namespace World

variable {δ : Type u} (env : Env δ)

def holding (w : World δ) (flash ram : Word → Byte) : World δ :=
  { w with map := w.map.holding flash ram }

def TakenByBus (w : World δ) (addr size : Word) : Prop :=
  w.map.ramTaken addr size = none ∧ (busFind env addr).isSome

instance (w : World δ) (addr size : Word) : Decidable (w.TakenByBus env addr size) :=
  inferInstanceAs (Decidable (_ ∧ _))

structure StoreSeen (w w' : World δ) (sec : SecState) (addr size v : Word) : Prop where
  back : (w'.read env sec addr size).1 = some (truncated v size)
  frame : ∀ b, (∀ j < size.toNat, ¬ w.map.SameByte b (addr + BitVec.ofNat 32 j)) →
    w'.map.load b 1 = w.map.load b 1
  flash : ∀ s, Sized s → (w.map.flashTaken addr s).isSome →
    w'.map.contents .ram = w.map.contents .ram

def Coherent (w : World δ) (cfg : TargetCfg) (sec : SecState) (addr size : Word) : Prop :=
  (∀ a a', cfg.Views a a' → w.map.load a 1 = w.map.load a' 1) ∧
  ∀ v w', w.write env sec addr size v = (true, w') → ¬ w.ProgramsFlash env addr size →
    ¬ w.TakenByBus env addr size → w.StoreSeen env w' sec addr size v

def Direct (w : World δ) (sec : SecState) (addr size : Word) : Prop :=
  (w.interceptOk env .write sec addr size).1 = true ∧ ¬ w.ProgramsFlash env addr size ∧
    ¬ w.TakenByBus env addr size

/-- Loads of no size find flash at the address, the load back is granted, and every byte of
RAM that the store reaches is one that its own addresses show, or that no address shows. -/
structure Plain (w : World δ) (v : Window) (sec : SecState) (addr size : Word) : Prop where
  noFlash : ∀ s, Sized s → w.map.flashTaken addr s = none
  granted : (w.interceptOk env .read sec addr size).1 = true
  shown : ∀ k < size.toNat,
    (∃ j < size.toNat, w.map.place (addr + BitVec.ofNat 32 j) =
      some (.ram, v.offset addr + BitVec.ofNat 32 k)) ∨
    ∀ b, w.map.place b ≠ some (.ram, v.offset addr + BitVec.ofNat 32 k)

/-- Where a direct store must go: to a window of RAM that is plain there, or else not to the
System Control Space, where it is ignored. -/
def StoresPlainly (w : World δ) (sec : SecState) (addr size : Word) : Prop :=
  match w.map.ramTaken addr size with
  | some (_, v) => w.Plain env v sec addr size
  | none => ¬ (0xE000E000 ≤ addr ∧ addr < 0xE0010000)

end World

theorem Prot.interceptor_of_granted {ctx : ProtCtx} {blockSecure : BlockSecure} {scs : Scs}
    {type : AccessType} {sec : SecState} {addr size : Word}
    (granted : (interceptor ctx blockSecure scs type sec addr size).1 = true) :
    (interceptor ctx blockSecure scs type sec addr size).2 =
      if isSystemControl addr then { scs with lastAccessSec := sec } else scs := by
  revert granted
  cases system : isSystemControl addr with
  | true => simp [interceptor, system]
  | false =>
    simp only [interceptor, system, Bool.false_eq_true, if_false]
    repeat' split
    all_goals
      intro granted
      first | rfl | exact nomatch granted

namespace Memmap

theorem holding_ramTaken {m : Memmap} (ram : m.ram.isSome) (f r : Word → Byte)
    (addr size : Word) : (m.holding f r).ramTaken addr size = m.ramTaken addr size :=
  ramTaken_buffers (f := some f) (r := some r) m ram.symm addr size

theorem holding_flashTaken {m : Memmap} (flash : m.flash.isSome) (f r : Word → Byte)
    (addr size : Word) : (m.holding f r).flashTaken addr size = m.flashTaken addr size := by
  rw [flashTaken, flashTaken, if_pos flash]
  rfl

theorem holding_place {m : Memmap} (flash : m.flash.isSome) (ram : m.ram.isSome)
    (f r : Word → Byte) (addr : Word) : (m.holding f r).place addr = m.place addr := by
  have taken : (m.holding f r).readTaken addr 1 = m.readTaken addr 1 :=
    readTaken_buffers (f := some f) (r := some r) m flash.symm ram.symm addr 1
  rw [place, taken, place]

end Memmap

namespace World

variable {δ : Type u} {env : Env δ}

theorem interceptOk_congr (w w' : World δ) (prot : w'.map.prot = w.map.prot)
    (scs : w'.scs = w.scs) (dev : w'.dev = w.dev) (type : AccessType) (sec : SecState)
    (addr size : Word) :
    (w'.interceptOk env type sec addr size).1 = (w.interceptOk env type sec addr size).1 := by
  simp only [interceptOk, prot, scs, dev]
  cases w.map.prot <;> rfl

theorem interceptOk_after {w : World δ} {sec : SecState} {addr size : Word}
    (granted : (w.interceptOk env .write sec addr size).1 = true) :
    ((w.interceptOk env .write sec addr size).2.interceptOk env .read sec addr size).1 =
      (w.interceptOk env .read sec addr size).1 := by
  cases prot : w.map.prot with
  | none => simp only [interceptOk, prot]
  | some ctx =>
    simp only [interceptOk, prot] at granted ⊢
    have kept := Prot.interceptor_of_granted granted
    rw [kept]
    cases system : Prot.isSystemControl addr with
    | true => simp [Prot.interceptor, system]
    | false => simp

theorem write_of_direct {w : World δ} {sec : SecState} {addr size : Word}
    (direct : w.Direct env sec addr size) (v : Word) :
    w.write env sec addr size v =
      let w₁ := (w.interceptOk env .write sec addr size).2
      match w.map.writeRam addr size v with
      | some m => (true, { w₁ with map := m })
      | none => w₁.writeRamOrBus env sec addr size v := by
  obtain ⟨granted, noFlash, -⟩ := direct
  have map := interceptOk_map env w .write sec addr size
  simp only [World.write, granted]
  generalize (w.interceptOk env .write sec addr size).2 = w₁ at map
  have ram : w₁.writeRamOrBus env sec addr size v =
      match w.map.writeRam addr size v with
      | some m => (true, { w₁ with map := m })
      | none => w₁.writeRamOrBus env sec addr size v := by
    rw [writeRamOrBus, map]
    cases w.map.writeRam addr size v <;> rfl
  have notFlash : env.flashWrite.isSome →
      ¬ (w₁.map.flash.isSome ∧ w₁.map.flashOffsets addr size ≠ []) :=
    fun writer both => noFlash ⟨writer, map ▸ both⟩
  cases writer : env.flashWrite with
  | none => simpa using ram
  | some f =>
    have skip := notFlash (by rw [writer]; rfl)
    simp only [Bool.not_true, Bool.false_eq_true, if_false, if_neg skip]
    exact ram

theorem write_to_ram {w : World δ} {sec : SecState} {addr size : Word} (sized : Sized size)
    (direct : w.Direct env sec addr size) {t : Buffer × Window}
    (taken : w.map.ramTaken addr size = some t) (v : Word) :
    w.write env sec addr size v =
      (true, { (w.interceptOk env .write sec addr size).2 with
        map := w.map.store (t.2.offset addr) v size }) := by
  rw [write_of_direct direct, Memmap.writeRam_eq _ _ _ sized, taken]
  rfl

theorem write_ignored {w : World δ} {sec : SecState} {addr size : Word} (sized : Sized size)
    (direct : w.Direct env sec addr size) (taken : w.map.ramTaken addr size = none) (v : Word) :
    w.write env sec addr size v = (0xE000E000 ≤ addr && addr < 0xE0010000,
      { (w.interceptOk env .write sec addr size).2 with activeSec := sec }) := by
  have map := interceptOk_map env w .write sec addr size
  have stores : w.map.writeRam addr size v = none := by
    rw [Memmap.writeRam_eq _ _ _ sized, taken]
    rfl
  have bus : busFind env addr = none := by
    cases found : busFind env addr with
    | none => rfl
    | some region => exact absurd ⟨taken, by rw [found]; rfl⟩ direct.2.2
  rw [write_of_direct direct]
  simp only [stores, writeRamOrBus, map]
  simp [busWrite, bus]

end World

namespace Memmap

theorem store_readTaken {m : Memmap} (ram : m.ram.isSome) (off v n addr size : Word) :
    (m.store off v n).readTaken addr size = m.readTaken addr size :=
  readTaken_buffers (f := m.flash) (r := some _) m rfl ram.symm addr size

theorem store_place {m : Memmap} (ram : m.ram.isSome) (off v n addr : Word) :
    (m.store off v n).place addr = m.place addr := by
  rw [place, store_readTaken ram, place]

def mark (p : Option (Buffer × Word)) (b : Buffer) (i : Word) : Byte :=
  if p = some (b, i) then 1 else 0

theorem contents_holding (m : Memmap) (c : Buffer → Word → Byte) (b : Buffer) :
    (m.holding (c .flash) (c .ram)).contents b = c b := by
  cases b <;> rfl

theorem place_eq_of_load {m : Memmap} (flash : m.flash.isSome) (ram : m.ram.isSome) {a a' : Word}
    (same : ∀ f r, (m.holding f r).load a 1 = (m.holding f r).load a' 1) :
    m.place a = m.place a' := by
  have marked (p : Option (Buffer × Word)) :
      (m.place a).map (fun q => (mark p q.1 q.2).setWidth 32) =
        (m.place a').map fun q => (mark p q.1 q.2).setWidth 32 := by
    have loads := same (mark p .flash) (mark p .ram)
    simpa only [load_one, holding_place flash ram, contents_holding] using loads
  cases place : m.place a with
  | none =>
    have other := marked none
    rw [place] at other
    cases place' : m.place a' with
    | none => rfl
    | some q' =>
      rw [place'] at other
      exact nomatch other
  | some q =>
    have other := marked (some q)
    rw [place] at other
    cases place' : m.place a' with
    | none =>
      rw [place'] at other
      exact nomatch other
    | some q' =>
      rw [place', Option.map_some, Option.map_some, Option.some.injEq] at other
      by_cases one : q = q'
      · rw [one]
      · have apart : some q ≠ some (q'.1, q'.2) := fun eq => one (Option.some.inj eq)
        simp [mark, apart] at other

end Memmap

namespace World

variable {δ : Type u} {env : Env δ}

section

variable {w : World δ} {sec : SecState} {addr size : Word}

theorem programsFlash_holding (flash : w.map.flash.isSome) (f r : Word → Byte) :
    (w.holding f r).ProgramsFlash env addr size ↔ w.ProgramsFlash env addr size := by
  have holds : (w.holding f r).map.flash.isSome := rfl
  rw [ProgramsFlash, ProgramsFlash, flash, holds]
  exact Iff.rfl

theorem takenByBus_holding (ram : w.map.ram.isSome) (f r : Word → Byte) :
    (w.holding f r).TakenByBus env addr size ↔ w.TakenByBus env addr size := by
  rw [TakenByBus, TakenByBus]
  exact and_congr_left' (by rw [← Memmap.holding_ramTaken ram f r]; rfl)

theorem direct_holding (flash : w.map.flash.isSome) (ram : w.map.ram.isSome) (f r : Word → Byte) :
    (w.holding f r).Direct env sec addr size ↔ w.Direct env sec addr size := by
  have granted : ((w.holding f r).interceptOk env .write sec addr size).1 =
      (w.interceptOk env .write sec addr size).1 :=
    interceptOk_congr w (w.holding f r) rfl rfl rfl .write sec addr size
  rw [Direct, Direct, granted, programsFlash_holding flash, takenByBus_holding ram]

theorem plain_holding (flash : w.map.flash.isSome) (ram : w.map.ram.isSome) (f r : Word → Byte)
    (v : Window) : (w.holding f r).Plain env v sec addr size ↔ w.Plain env v sec addr size := by
  have granted : ((w.holding f r).interceptOk env .read sec addr size).1 =
      (w.interceptOk env .read sec addr size).1 :=
    interceptOk_congr w (w.holding f r) rfl rfl rfl .read sec addr size
  have found (s : Word) : (w.holding f r).map.flashTaken addr s = w.map.flashTaken addr s :=
    Memmap.holding_flashTaken flash f r addr s
  have place (a : Word) : (w.holding f r).map.place a = w.map.place a :=
    Memmap.holding_place flash ram f r a
  constructor
  · intro plain
    exact ⟨fun s sized => found s ▸ plain.noFlash s sized, granted ▸ plain.granted,
      by simpa only [place] using plain.shown⟩
  · intro plain
    exact ⟨fun s sized => (found s).trans (plain.noFlash s sized), granted.trans plain.granted,
      by simpa only [place] using plain.shown⟩

theorem readTaken_of_noFlash {m : Memmap} (none : m.flashTaken addr size = none) :
    m.readTaken addr size = m.ramTaken addr size := by
  rw [Memmap.readTaken, none]
  rfl

theorem read_of_load {v : Word} (granted : (w.interceptOk env .read sec addr size).1 = true)
    (holds : w.map.load addr size = some v) : (w.read env sec addr size).1 = some v := by
  have map := interceptOk_map env w .read sec addr size
  simp only [World.read, granted, map, Memmap.load] at holds ⊢
  rw [holds]
  rfl

theorem storeSeen_of_plain {w₁ : World δ} (sized : Sized size) {t : Buffer × Window}
    (ram : w.map.ram.isSome)
    (taken : w.map.ramTaken addr size = some t) (plain : w.Plain env t.2 sec addr size)
    (granted : (w₁.interceptOk env .read sec addr size).1 = true) (v : Word)
    (stored : w₁.map = w.map.store (t.2.offset addr) v size) :
    w.StoreSeen env w₁ sec addr size v where
  back := by
    refine read_of_load granted ?_
    have same : w₁.map.readTaken addr size = some t := by
      rw [stored, Memmap.store_readTaken ram, readTaken_of_noFlash (plain.noFlash size sized), taken]
    rw [Memmap.load_eq _ _ sized, same, Option.bind_some, Memmap.ramTaken_buffer taken, stored]
    exact Memmap.readBufLe_of_sized sized fun k below =>
      Memmap.putBytes_at sized.toNat_le.2 below
  frame b apart := by
    have places : w₁.map.place b = w.map.place b := stored ▸ Memmap.store_place ram _ _ _ b
    rw [Memmap.load_one, Memmap.load_one, places]
    cases place : w.map.place b with
    | none => rfl
    | some p =>
      obtain ⟨buffer, i⟩ := p
      cases buffer with
      | flash => rw [stored]; rfl
      | ram =>
        refine congrArg some (congrArg _ ?_)
        rw [stored]
        refine Memmap.putBytes_apart fun k below same => ?_
        rcases plain.shown k below with ⟨j, inside, shows⟩ | hidden
        · exact apart j inside ⟨_, place, by rw [shows, same]⟩
        · exact hidden b (by rw [place, same])
  flash s other found := by
    rw [plain.noFlash s other] at found
    exact nomatch found

theorem granted_of_read_eq {x : Word} (read : (w.read env sec addr size).1 = some x) :
    (w.interceptOk env .read sec addr size).1 = true := by
  cases granted : (w.interceptOk env .read sec addr size).1 with
  | true => rfl
  | false =>
    simp only [World.read, granted] at read
    cases read

theorem load_of_read_eq {x : Word} (noBus : busFind env addr = none)
    (read : (w.read env sec addr size).1 = some x) : w.map.load addr size = some x := by
  have granted := granted_of_read_eq read
  have map := interceptOk_map env w .read sec addr size
  have load : w.map.load addr size = (w.map.readFlash addr size <|> w.map.readRam addr size) := rfl
  simp only [World.read, granted, map, ← load] at read
  cases holds : w.map.load addr size with
  | some y =>
    rw [holds] at read
    exact read
  | none =>
    rw [holds] at read
    simp [busRead, noBus] at read

theorem plain_of_storeSeen {w₁ : World δ} (sized : Sized size) {t : Buffer × Window}
    (ram : w.map.ram.isSome)
    (zero : ∀ i, w.map.contents .ram i = 0)
    (seen : w.StoreSeen env w₁ sec addr size (BitVec.allOnes 32))
    (stored : w₁.map = w.map.store (t.2.offset addr) (BitVec.allOnes 32) size)
    (granted : (w₁.interceptOk env .read sec addr size).1 =
      (w.interceptOk env .read sec addr size).1) :
    w.Plain env t.2 sec addr size := by
  have ones (k : Nat) (below : k < size.toNat) :
      w₁.map.contents .ram (t.2.offset addr + BitVec.ofNat 32 k) = 0xFF := by
    rw [stored]
    refine (Memmap.putBytes_at sized.toNat_le.2 below).trans ?_
    have low : k < 4 := Nat.lt_of_lt_of_le below sized.toNat_le.2
    have cases : k = 0 ∨ k = 1 ∨ k = 2 ∨ k = 3 := by omega
    rcases cases with rfl | rfl | rfl | rfl <;> decide
  refine ⟨fun s other => ?_, granted.symm.trans (granted_of_read_eq seen.back), fun k below => ?_⟩
  · cases found : w.map.flashTaken addr s with
    | none => rfl
    | some t' =>
      have kept := seen.flash s other (by rw [found]; rfl)
      have first := ones 0 sized.toNat_le.1
      rw [kept, zero] at first
      exact absurd first (by decide)
  · refine or_iff_not_imp_left.mpr fun apart b place => ?_
    have kept := seen.frame b fun j inside ⟨p, here, there⟩ => by
      rw [place] at here
      exact apart ⟨j, inside, there.trans here.symm⟩
    have places : w₁.map.place b = w.map.place b := stored ▸ Memmap.store_place ram _ _ _ b
    rw [Memmap.load_one, Memmap.load_one, places, place, Option.map_some, Option.map_some,
      ones k below, zero] at kept
    exact absurd kept (by decide)

theorem ignored_of_storeSeen {w₁ : World δ} (sized : Sized size)
    (zero : ∀ i, w.map.contents .flash i = 0) (noRam : w.map.ramTaken addr size = none)
    (noBus : busFind env addr = none)
    (seen : w.StoreSeen env w₁ sec addr size (BitVec.allOnes 32)) (same : w₁.map = w.map) :
    False := by
  have load := load_of_read_eq noBus seen.back
  have taken : w₁.map.readTaken addr size = w.map.flashTaken addr size := by
    rw [same, Memmap.readTaken, noRam]
    cases w.map.flashTaken addr size <;> rfl
  rw [Memmap.load_eq _ _ sized, taken] at load
  cases found : w.map.flashTaken addr size with
  | none =>
    rw [found] at load
    cases load
  | some t =>
    have erased : Memmap.readBufLe (w₁.map.contents t.1) (t.2.offset addr) size =
        some (truncated 0 size) := by
      refine Memmap.readBufLe_of_sized sized fun k _ => ?_
      rw [same, Memmap.flashTaken_buffer found, zero]
      simp
    rw [found, Option.bind_some, erased, Option.some.injEq] at load
    rcases sized with rfl | rfl | rfl <;> exact absurd load (by decide)

end

/-- Exactly when stores at an address are seen by later loads as they should be. -/
theorem coherent_iff {w : World δ} {m : Memmap} {cfg : TargetCfg} {f r : Word → Byte}
    {secureView : Bool}
    (configured : w.map = (m.configureFlash cfg f secureView).configureRam cfg r)
    (sec : SecState) (addr : Word) {size : Word} (sized : Sized size) :
    (∀ flash ram, (w.holding flash ram).Coherent env cfg sec addr size) ↔
      (∀ a a', cfg.Views a a' → w.map.place a = w.map.place a') ∧
        (w.Direct env sec addr size → w.StoresPlainly env sec addr size) := by
  have hasFlash : w.map.flash.isSome := by
    rw [configured]
    rfl
  have hasRam : w.map.ram.isSome := by
    rw [configured]
    rfl
  -- the load after a granted store is decided as it was before
  have after (z z₁ : World δ) (granted : (z.interceptOk env .write sec addr size).1 = true)
      (prot : z₁.map.prot = z.map.prot)
      (scs : z₁.scs = (z.interceptOk env .write sec addr size).2.scs)
      (dev : z₁.dev = (z.interceptOk env .write sec addr size).2.dev) :
      (z₁.interceptOk env .read sec addr size).1 = (z.interceptOk env .read sec addr size).1 := by
    have map := interceptOk_map env z .write sec addr size
    rw [← interceptOk_after granted]
    exact interceptOk_congr _ z₁ (by rw [map, prot]) scs dev .read sec addr size
  constructor
  · intro coherent
    refine ⟨fun a a' views => Memmap.place_eq_of_load hasFlash hasRam fun f r =>
      (coherent f r).1 a a' views, fun direct => ?_⟩
    let z := w.holding (fun _ => 0) fun _ => 0
    have directZ : z.Direct env sec addr size := (direct_holding hasFlash hasRam _ _).mpr direct
    have takenZ : z.map.ramTaken addr size = w.map.ramTaken addr size :=
      Memmap.holding_ramTaken hasRam _ _ addr size
    have seen := (coherent (fun _ => 0) fun _ => 0).2 (BitVec.allOnes 32)
    rw [StoresPlainly]
    cases taken : w.map.ramTaken addr size with
    | some t =>
      have write := write_to_ram sized directZ (takenZ.trans taken) (BitVec.allOnes 32)
      refine (plain_holding hasFlash hasRam _ _ t.2).mp
        (plain_of_storeSeen sized rfl (fun _ => rfl) (seen _ write directZ.2.1 directZ.2.2) rfl ?_)
      exact after z _ directZ.1 rfl rfl rfl
    | none =>
      intro system
      have noBus : busFind env addr = none := by
        cases found : busFind env addr with
        | none => rfl
        | some region => exact absurd ⟨taken, by rw [found]; rfl⟩ direct.2.2
      have write := write_ignored sized directZ (takenZ.trans taken) (BitVec.allOnes 32)
      have ignored : (decide (0xE000E000 ≤ addr) && decide (addr < 0xE0010000)) = true := by
        simpa using system
      rw [ignored] at write
      exact ignored_of_storeSeen sized (fun _ => rfl) (takenZ.trans taken) noBus
        (seen _ write directZ.2.1 directZ.2.2) (interceptOk_map env z .write sec addr size)
  · rintro ⟨views, plainly⟩ flash ram
    let z := w.holding flash ram
    refine ⟨fun a a' pair => ?_, fun v w' write noFlash noBus => ?_⟩
    · have same : z.map.place a = z.map.place a' := by
        have places (b : Word) : z.map.place b = w.map.place b :=
          Memmap.holding_place hasFlash hasRam flash ram b
        rw [places, places]
        exact views a a' pair
      rw [Memmap.load_one, Memmap.load_one]
      exact congrArg _ same
    · have granted : (z.interceptOk env .write sec addr size).1 = true := by
        cases ok : (z.interceptOk env .write sec addr size).1 with
        | true => rfl
        | false =>
          have refused : (z.write env sec addr size v).1 = false := by
            simp only [World.write, ok]
            rfl
          rw [write] at refused
          cases refused
      have directZ : z.Direct env sec addr size := ⟨granted, noFlash, noBus⟩
      have plain := plainly ((direct_holding hasFlash hasRam flash ram).mp directZ)
      have takenZ : z.map.ramTaken addr size = w.map.ramTaken addr size :=
        Memmap.holding_ramTaken hasRam _ _ addr size
      rw [StoresPlainly] at plain
      cases taken : w.map.ramTaken addr size with
      | some t =>
        rw [taken] at plain
        rw [write_to_ram sized directZ (takenZ.trans taken)] at write
        obtain rfl := (Prod.mk.inj write).2
        have plainZ := (plain_holding hasFlash hasRam flash ram t.2).mpr plain
        refine storeSeen_of_plain sized rfl (takenZ.trans taken) plainZ ?_ v rfl
        refine Eq.trans (after z _ granted ?_ ?_ ?_) plainZ.granted <;> rfl
      | none =>
        rw [taken] at plain
        rw [write_ignored sized directZ (takenZ.trans taken)] at write
        have ignored := (Prod.mk.inj write).1
        exact absurd (by simpa using ignored) plain

theorem store_behind_flash :
    ¬ (Board.configured Board.mcxw71c (fun _ => 0xFF) fun _ => 0).Coherent Board.env
      Board.mcxw71c .secure 0x100 4 := by
  intro coherent
  let w := Board.configured Board.mcxw71c (fun _ => 0xFF) fun _ => 0
  have back := (coherent.2 0x12345678 (w.write Board.env .secure 0x100 4 0x12345678).2 rfl
    (by decide) (by decide)).back
  exact absurd back (by decide)

theorem mcxw71c_place {a : Word} (low : 0x20000000 ≤ a) (high : a < 0x40000000) {v : Window}
    (first : firstView [⟨0x30000000, 0x0001C000, 0⟩, ⟨0x20000000, 0x0001C000, 0⟩,
      ⟨0, 0x0001C000, 0⟩] a 1 = some v) (flash ram : Word → Byte) :
    (Board.configured Board.mcxw71c flash ram).map.place a = some (.ram, v.offset a) := by
  have none : firstView [⟨0x10000000, 0x00100000, 0⟩, ⟨0, 0x00100000, 0⟩] a 1 = none := by
    rw [firstView_eq_none]
    intro v shown
    rw [List.mem_cons, List.mem_singleton] at shown
    rcases shown with rfl | rfl <;> rintro ⟨base, fits⟩ <;> simp only at base fits <;> bv_omega
  have flashViews : (Board.configured Board.mcxw71c flash ram).map.flashViews =
      [⟨0x10000000, 0x00100000, 0⟩, ⟨0, 0x00100000, 0⟩] := rfl
  have ramViews : (Board.configured Board.mcxw71c flash ram).map.ramViews =
      [⟨0x30000000, 0x0001C000, 0⟩, ⟨0x20000000, 0x0001C000, 0⟩, ⟨0, 0x0001C000, 0⟩] := rfl
  rw [Memmap.place, Memmap.readTaken, Memmap.flashTaken, Memmap.ramTaken, flashViews, ramViews,
    none, first]
  rfl

theorem coherent_ram :
    ((Board.configured Board.mcxw71c (fun _ => 0xFF) fun _ => 0).holding (fun _ => 0xFF)
      fun _ => 0).Coherent Board.env Board.mcxw71c .secure 0x20000000 4 := by
  let w := Board.configured Board.mcxw71c (fun _ => 0xFF) fun _ => 0
  let m : Memmap := { Memmap.init with prot := some (Prot.ofCfg Board.mcxw71c) }
  have configured : w.map = (m.configureFlash Board.mcxw71c (fun _ => 0xFF) true).configureRam
      Board.mcxw71c (fun _ => 0) := rfl
  refine (coherent_iff configured .secure 0x20000000 (.inr (.inr rfl))).mpr ⟨?_, ?_⟩ _ _
  · rintro _ _ (⟨r, o, member, -⟩ | ⟨o, -, insideS, -⟩)
    · exact nomatch member
    · have inside : o < 0x0001C000 := insideS
      have secure : w.map.place (0x30000000 + o) = some (.ram, o) := by
        rw [mcxw71c_place (by bv_omega) (by bv_omega) (v := ⟨0x30000000, 0x0001C000, 0⟩)]
        · exact congrArg (fun i => some (Buffer.ram, i)) (by simp only [Window.offset]; bv_omega)
        · rw [firstView_cons, if_pos ⟨by simp only; bv_omega, by simp only; bv_omega⟩]
      have nonsecure : w.map.place (0x20000000 + o) = some (.ram, o) := by
        rw [mcxw71c_place (by bv_omega) (by bv_omega) (v := ⟨0x20000000, 0x0001C000, 0⟩)]
        · exact congrArg (fun i => some (Buffer.ram, i)) (by simp only [Window.offset]; bv_omega)
        · rw [firstView_cons, if_neg fun admits => by
            have base := admits.1
            simp only at base
            bv_omega]
          rw [firstView_cons, if_pos ⟨by simp only; bv_omega, by simp only; bv_omega⟩]
      exact secure.trans nonsecure.symm
  · intro _
    have taken : w.map.ramTaken 0x20000000 4 = some (.ram, ⟨0x20000000, 0x0001C000, 0⟩) := by
      decide
    rw [StoresPlainly, taken]
    refine ⟨?_, by decide, ?_⟩
    · rintro s (rfl | rfl | rfl) <;> decide
    · intro k below
      refine .inl ⟨k, below, ?_⟩
      have cases : k = 0 ∨ k = 1 ∨ k = 2 ∨ k = 3 := by
        have : (4 : Word).toNat = 4 := rfl
        omega
      rcases cases with rfl | rfl | rfl | rfl <;> decide

end World

end M33mu
