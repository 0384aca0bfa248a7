import M33mu.Gdbstub
import M33mu.Places
import M33mu.SystemReset

/-!
What the debugger's accesses do to bytes that the buffers hold. Both security states are tried,
and the fault records that this leaves behind decide no later access.
-/

namespace M33mu

namespace Prot

variable (ctx : ProtCtx) (blockSecure : BlockSecure)

def grants (scs : Scs) (type : AccessType) (sec : SecState) (addr size : Word) : Bool :=
  if isSystemControl addr then true
  else
    let attr := attrForAddr ctx blockSecure scs addr
    if sec = .nonsecure ∧ admits type attr = false then false
    else if type = .exec ∧ Mpu.isXnExec scs sec addr = true then false
    else regionAllows ctx type (sec = .secure && type != .exec) (addrSec attr) addr size

theorem interceptor_fst (scs : Scs) (type : AccessType) (sec : SecState) (addr size : Word) :
    (interceptor ctx blockSecure scs type sec addr size).1 =
      grants ctx blockSecure scs type sec addr size := by
  simp only [interceptor, grants]
  repeat' split
  all_goals first | rfl | simp_all

theorem grants_after (scs : Scs) (type type' : AccessType) (sec sec' : SecState)
    (addr addr' size size' : Word) :
    grants ctx blockSecure (interceptor ctx blockSecure scs type sec addr size).2 type' sec' addr'
      size' = grants ctx blockSecure scs type' sec' addr' size' := by
  simp only [interceptor]
  repeat' split
  all_goals rfl

end Prot

namespace World

variable {δ : Type u} (env : Env δ)

structure Touched (w w' : World δ) : Prop where
  map : w.map.Rewritten w'.map
  grants : ∀ type sec addr size,
    (w'.interceptOk env type sec addr size).1 = (w.interceptOk env type sec addr size).1

namespace Touched

variable {env : Env δ} {w w₁ w₂ : World δ}

theorem refl (w : World δ) : w.Touched env w := ⟨.refl _, fun _ _ _ _ => rfl⟩

theorem trans (first : w.Touched env w₁) (second : w₁.Touched env w₂) : w.Touched env w₂ :=
  ⟨first.map.trans second.map, fun type sec addr size =>
    (second.grants type sec addr size).trans (first.grants type sec addr size)⟩

end Touched

variable {env}

variable (env) in
theorem touched_interceptOk (w : World δ) (type : AccessType) (sec : SecState) (addr size : Word) :
    w.Touched env (w.interceptOk env type sec addr size).2 where
  map := by
    rw [interceptOk_map]
    exact .refl _
  grants type' sec' addr' size' := by
    simp only [interceptOk_eq, verdict]
    cases w.map.prot with
    | none => rfl
    | some ctx => simp only [Prot.interceptor_fst, Prot.grants_after]

theorem touched_map (w : World δ) {m : Memmap} (same : w.map.Rewritten m) :
    w.Touched env { w with map := m } where
  map := same
  grants type sec addr size := by
    have prot : m.prot = w.map.prot := by rw [same.eq]
    exact interceptOk_congr w { w with map := m } prot rfl rfl type sec addr size

def gdbAsk (env : Env δ) (w : World δ) (sec : SecState) (addr : Word) : Bool × World δ :=
  match w.interceptOk env .write sec addr 1 with
  | (true, w) => (true, w)
  | (false, w) => w.interceptOk env .write sec.alt addr 1

variable (env) in
theorem touched_gdbAsk (w : World δ) (sec : SecState) (addr : Word) :
    w.Touched env (w.gdbAsk env sec addr).2 := by
  have first := touched_interceptOk env w .write sec addr 1
  rw [gdbAsk]
  generalize w.interceptOk env .write sec addr 1 = r at first
  obtain ⟨ok, w₁⟩ := r
  cases ok with
  | true => exact first
  | false => exact first.trans (touched_interceptOk _ w₁ .write sec.alt addr 1)

variable (env) in
theorem gdbAsk_map (w : World δ) (sec : SecState) (addr : Word) :
    (w.gdbAsk env sec addr).2.map = w.map := by
  have first := interceptOk_map env w .write sec addr 1
  rw [gdbAsk]
  generalize w.interceptOk env .write sec addr 1 = r at first
  obtain ⟨ok, w₁⟩ := r
  cases ok with
  | true => exact first
  | false => exact (interceptOk_map env w₁ .write sec.alt addr 1).trans first

theorem gdbAsk_fst (w : World δ) (sec : SecState) (addr : Word) :
    (w.gdbAsk env sec addr).1 = ((w.interceptOk env .write sec addr 1).1 ||
      (w.interceptOk env .write sec.alt addr 1).1) := by
  have first := touched_interceptOk env w .write sec addr 1
  have second := first.grants .write sec.alt addr 1
  rw [gdbAsk]
  generalize w.interceptOk env .write sec addr 1 = r at second
  obtain ⟨ok, w₁⟩ := r
  cases ok with
  | true => rfl
  | false => exact second

theorem Touched.gdbAsk {w w₁ : World δ} (touched : w.Touched env w₁) (sec : SecState)
    (addr : Word) : (w₁.gdbAsk env sec addr).1 = (w.gdbAsk env sec addr).1 := by
  rw [gdbAsk_fst, gdbAsk_fst, touched.grants, touched.grants]

end World

namespace Memmap

theorem writeRam_one (m : Memmap) (addr : Word) (b : Byte) :
    m.writeRam addr 1 (b.setWidth 32) = (m.ramPlace addr).map fun p => m.poke p.1 p.2 b := by
  rw [writeRam_eq m addr _ (.inl rfl), ramPlace]
  cases taken : m.ramTaken addr 1 with
  | none => rfl
  | some t =>
    have buffer := ramTaken_buffer taken
    have value : ((b.setWidth 32) >>> (8 * 0)).setWidth 8 = b := byte_back b
    have place : t.2.offset addr + BitVec.ofNat 32 0 = t.2.offset addr := BitVec.add_zero _
    have present : m.ram.isSome := by
      rw [ramTaken] at taken
      split at taken
      · assumption
      · cases taken
    obtain ⟨buf, ram⟩ := Option.isSome_iff_exists.mp present
    have one : (1 : Word).toNat = 1 := rfl
    rw [Option.map_some, Option.map_some, Option.map_some, buffer, one, putBytes, putBytes, value,
      place, poke, ram, contents, ram]
    rfl

end Memmap

namespace World

variable {δ : Type u} {env : Env δ}

theorem write8_eq (w : World δ) (sec : SecState) (addr : Word) (b : Byte) :
    w.write8 env sec addr b =
      match w.interceptOk env .write sec addr 1 with
      | (false, w') => (false, w')
      | (true, w') =>
        match w.map.ramPlace addr with
        | some p => (true, { w' with map := w.map.poke p.1 p.2 b })
        | none => w'.busWrite env addr 1 (b.setWidth 32) := by
  have map := interceptOk_map env w .write sec addr 1
  rw [write8]
  generalize w.interceptOk env .write sec addr 1 = r at map
  obtain ⟨ok, w'⟩ := r
  cases ok with
  | false => rfl
  | true =>
    have map : w'.map = w.map := map
    simp only [Bool.not_true, Bool.false_eq_true, if_false, map, Memmap.writeRam_one]
    cases w.map.ramPlace addr <;> rfl

variable (env) in
theorem gdbWrite8_of_ramPlace {w : World δ} {addr : Word} {p : Buffer × Word}
    (place : w.map.ramPlace addr = some p) (sec : SecState) (b : Byte) :
    w.gdbWrite8 env sec addr b =
      ((w.gdbAsk env sec addr).1, if (w.gdbAsk env sec addr).1 then
        { (w.gdbAsk env sec addr).2 with map := w.map.poke p.1 p.2 b }
      else (w.gdbAsk env sec addr).2) := by
  have map := interceptOk_map env w .write sec addr 1
  rw [gdbWrite8, write8_eq, gdbAsk, place]
  generalize w.interceptOk env .write sec addr 1 = r at map
  obtain ⟨ok, w₁⟩ := r
  cases ok with
  | true => rfl
  | false =>
    have map : w₁.map = w.map := map
    simp only [write8_eq, map, place]
    cases w₁.interceptOk env .write sec.alt addr 1 with
    | mk ok w₂ => cases ok <;> rfl

theorem gdbWrite8_of_refused {w : World δ} {sec : SecState} {addr : Word}
    (refused : (w.gdbAsk env sec addr).1 = false) (b : Byte) :
    (w.gdbWrite8 env sec addr b).1 = false ∧ (w.gdbWrite8 env sec addr b).2.map = w.map := by
  have map := interceptOk_map env w .write sec addr 1
  rw [gdbWrite8, write8_eq]
  rw [gdbAsk] at refused
  generalize w.interceptOk env .write sec addr 1 = r at map refused
  obtain ⟨ok, w₁⟩ := r
  cases ok with
  | true => exact nomatch refused
  | false =>
    have map' := interceptOk_map env w₁ .write sec.alt addr 1
    simp only [write8_eq] at refused ⊢
    generalize w₁.interceptOk env .write sec.alt addr 1 = r at map' refused
    obtain ⟨ok, w₂⟩ := r
    obtain rfl : ok = false := refused
    exact ⟨rfl, map'.trans map⟩

theorem gdbWrite8_of_nowhere {w : World δ} {addr : Word} (place : w.map.ramPlace addr = none)
    (bus : busFind env addr = none) (sec : SecState) (b : Byte) :
    (w.gdbWrite8 env sec addr b).1 = false ∧ (w.gdbWrite8 env sec addr b).2.map = w.map := by
  have refused (w : World δ) (place : w.map.ramPlace addr = none) (sec : SecState) :
      (w.write8 env sec addr b).1 = false ∧ (w.write8 env sec addr b).2.map = w.map := by
    have map := interceptOk_map env w .write sec addr 1
    rw [write8_eq, place]
    generalize w.interceptOk env .write sec addr 1 = r at map
    obtain ⟨ok, w₁⟩ := r
    cases ok with
    | false => exact ⟨rfl, map⟩
    | true =>
      simp only [busWrite, bus]
      exact ⟨trivial, map⟩
  obtain ⟨failed, map⟩ := refused w place sec
  rw [gdbWrite8]
  generalize w.write8 env sec addr b = r at failed map
  obtain ⟨ok, w₁⟩ := r
  obtain rfl : ok = false := failed
  have map : w₁.map = w.map := map
  obtain ⟨failed, kept⟩ := refused w₁ (map ▸ place) sec.alt
  exact ⟨failed, kept.trans map⟩

end World

namespace Memmap

def gdbTaken (m : Memmap) (dflt : RamDefault) (sec : SecState) (addr : Word) (len : Nat) :
    Option (Buffer × Window) :=
  let ram := m.gdbRamWindow dflt sec
  let flash := m.gdbFlashWindow sec
  if m.ram.isSome ∧ gdbInside ram addr len then some (.ram, ⟨ram.1, ram.2, 0⟩)
  else if m.flash.isSome ∧ gdbInside flash addr len then some (.flash, ⟨flash.1, flash.2, 0⟩)
  else none

def gdbPlace (m : Memmap) (dflt : RamDefault) (sec : SecState) (addr : Word) (len : Nat)
    (a : Word) : Option (Buffer × Word) :=
  match m.gdbTaken dflt sec addr len with
  | some t => some (t.1, t.2.offset a)
  | none => m.ramPlace a

theorem Rewritten.gdbTaken {m m' : Memmap} (same : m.Rewritten m') (dflt : RamDefault)
    (sec : SecState) (addr : Word) (len : Nat) :
    m'.gdbTaken dflt sec addr len = m.gdbTaken dflt sec addr len := by
  have ram : m'.gdbRamWindow dflt sec = m.gdbRamWindow dflt sec := by
    rw [same.eq]
    rfl
  have flash : m'.gdbFlashWindow sec = m.gdbFlashWindow sec := by
    rw [same.eq]
    rfl
  rw [Memmap.gdbTaken, ram, flash, same.ram, same.flash]
  rfl

theorem Rewritten.gdbPlace {m m' : Memmap} (same : m.Rewritten m') (dflt : RamDefault)
    (sec : SecState) (addr : Word) (len : Nat) (a : Word) :
    m'.gdbPlace dflt sec addr len a = m.gdbPlace dflt sec addr len a := by
  rw [Memmap.gdbPlace, same.gdbTaken, same.ramPlace, Memmap.gdbPlace]

def patchAt (m : Memmap) (b : Buffer) (off : Word) (src : List Byte) : Memmap :=
  match b with
  | .flash => { m with flash := m.flash.map fun buf => patchBuf buf off src }
  | .ram => { m with ram := m.ram.map fun buf => patchBuf buf off src }

theorem patchAt_eq (m : Memmap) (v : Window) (addr : Word) (src : List Byte) {b : Buffer}
    {ps : List (Buffer × Word)}
    (places : placesFrom (fun a => some (b, v.offset a)) addr src.length = some ps) :
    m.patchAt b (v.offset addr) src = m.pokeAll (ps.zip src) := by
  induction src generalizing m addr ps with
  | nil =>
    obtain rfl := Option.some.inj places
    cases b <;> simp [patchAt, pokeAll, patchBuf]
  | cons x src ih =>
    obtain ⟨p, rest, here, there, rfl⟩ := placesFrom_succ places
    obtain rfl := Option.some.inj here
    have step := ih (m.poke b (v.offset addr) x) (addr + 1) there
    have next : v.offset (addr + 1) = v.offset addr + 1 := v.offset_add addr 1
    rw [next] at step
    refine Eq.trans ?_ step
    cases b <;> simp [patchAt, poke, patchBuf, Function.comp_def]

end Memmap

namespace World

variable {δ : Type u} {env : Env δ}

def gdbAsked (env : Env δ) (w : World δ) (sec : SecState) (addr : Word) : Nat → World δ
  | 0 => w
  | n + 1 => gdbAsked env (w.gdbAsk env sec addr).2 sec (addr + 1) n

variable (env) in
theorem gdbAsked_map (w : World δ) (sec : SecState) (addr : Word) (n : Nat) :
    (w.gdbAsked env sec addr n).map = w.map := by
  induction n generalizing w addr with
  | zero => rfl
  | succ n ih => exact (ih _ (addr + 1)).trans (gdbAsk_map _ w sec addr)

theorem interceptOk_withMap (w : World δ) {m : Memmap} (prot : m.prot = w.map.prot)
    (type : AccessType) (sec : SecState) (addr size : Word) :
    ({ w with map := m } : World δ).interceptOk env type sec addr size =
      ((w.interceptOk env type sec addr size).1,
        { (w.interceptOk env type sec addr size).2 with map := m }) := by
  simp only [interceptOk_eq, verdict, prot]

theorem gdbAsk_withMap (w : World δ) {m : Memmap} (prot : m.prot = w.map.prot) (sec : SecState)
    (addr : Word) : ({ w with map := m } : World δ).gdbAsk env sec addr =
      ((w.gdbAsk env sec addr).1, { (w.gdbAsk env sec addr).2 with map := m }) := by
  have map := interceptOk_map env w .write sec addr 1
  rw [gdbAsk, gdbAsk, interceptOk_withMap w prot]
  generalize w.interceptOk env .write sec addr 1 = r at map
  obtain ⟨ok, w₁⟩ := r
  have map : w₁.map = w.map := map
  cases ok with
  | true => rfl
  | false => exact interceptOk_withMap w₁ (prot.trans (congrArg Memmap.prot map.symm)) _ _ _ _

theorem gdbAsked_withMap (w : World δ) {m : Memmap} (prot : m.prot = w.map.prot) (sec : SecState)
    (addr : Word) (n : Nat) : ({ w with map := m } : World δ).gdbAsked env sec addr n =
      { w.gdbAsked env sec addr n with map := m } := by
  induction n generalizing w addr with
  | zero => rfl
  | succ n ih =>
    rw [gdbAsked, gdbAsk_withMap w prot, gdbAsked]
    exact ih _ (prot.trans (congrArg Memmap.prot (gdbAsk_map _ w sec addr).symm)) (addr + 1)

variable (env) in
theorem touched_poked (w : World δ) (sec : SecState) (addr : Word) (p : Buffer × Word) (b : Byte) :
    w.Touched env { (w.gdbAsk env sec addr).2 with map := w.map.poke p.1 p.2 b } := by
  have map := gdbAsk_map env w sec addr
  have touched := touched_gdbAsk env w sec addr
  generalize (w.gdbAsk env sec addr).2 = w₁ at map touched
  exact touched.trans (touched_map w₁ (map ▸ Memmap.rewritten_poke w.map p.1 p.2 b))

variable (env) in
theorem gdbWriteEach_of_ram {w : World δ} {sec : SecState} {addr : Word} {src : List Byte}
    {ps : List (Buffer × Word)}
    (places : Memmap.placesFrom w.map.ramPlace addr src.length = some ps)
    (granted : ∀ k < src.length, (w.gdbAsk env sec (addr + BitVec.ofNat 32 k)).1 = true) :
    w.gdbWriteEach env sec addr src = (true,
      { w.gdbAsked env sec addr src.length with map := w.map.pokeAll (ps.zip src) }) := by
  induction src generalizing w addr ps with
  | nil =>
    obtain rfl := Option.some.inj places
    rfl
  | cons x src ih =>
    obtain ⟨p, rest, here, there, rfl⟩ := Memmap.placesFrom_succ places
    have first : addr + BitVec.ofNat 32 0 = addr := BitVec.add_zero addr
    have ok := granted 0 (Nat.succ_pos _)
    rw [first] at ok
    have map := gdbAsk_map env w sec addr
    have next := touched_poked env w sec addr p x
    have written := gdbWrite8_of_ramPlace env here sec x
    rw [ok, if_pos rfl] at written
    rw [gdbWriteEach, written, List.length_cons, gdbAsked]
    generalize (w.gdbAsk env sec addr).2 = w₁ at map next
    have stored := Memmap.rewritten_poke w.map p.1 p.2 x
    have places : ({ w₁ with map := w.map.poke p.1 p.2 x } : World δ).map.ramPlace =
        w.map.ramPlace := funext stored.ramPlace
    refine (ih (places.symm ▸ there) fun k below => ?_).trans (Prod.ext rfl ?_)
    · refine (next.gdbAsk sec _).trans ?_
      rw [← Memmap.add_ofNat_succ]
      exact granted (k + 1) (Nat.succ_lt_succ below)
    · have prot : (w.map.poke p.1 p.2 x).prot = w₁.map.prot := by
        rw [stored.eq, map]
      rw [gdbAsked_withMap w₁ prot]
      rfl

theorem read8_eq (w : World δ) (sec : SecState) (addr : Word) :
    w.read8 env sec addr =
      match w.interceptOk env .read sec addr 1 with
      | (false, w') => (none, w')
      | (true, w') =>
        match w.map.byte addr with
        | some b => (some b, w')
        | none =>
          let (v, w'') := w'.busRead env addr 1
          (v.map (·.setWidth 8), w'') := by
  have map := interceptOk_map env w .read sec addr 1
  generalize intercepted : w.interceptOk env .read sec addr 1 = r at map
  obtain ⟨ok, w'⟩ := r
  have map : w'.map = w.map := map
  cases ok with
  | false =>
    rw [read8, intercepted]
    rfl
  | true =>
    exact (read8_granted intercepted).trans (map ▸ rfl)

def gdbReadable (env : Env δ) (w : World δ) (sec : SecState) (addr : Word) : Bool :=
  (w.interceptOk env .read sec addr 1).1 || (w.interceptOk env .read sec.alt addr 1).1

def Dark (env : Env δ) (w : World δ) (sec : SecState) (addr : Word) : Prop :=
  w.gdbReadable env sec addr = false ∨ w.map.bytePlace addr = none ∧ busFind env addr = none

theorem Touched.dark {w w₁ : World δ} (touched : w.Touched env w₁) (sec : SecState) (addr : Word) :
    w₁.Dark env sec addr ↔ w.Dark env sec addr := by
  rw [Dark, Dark, gdbReadable, gdbReadable, touched.grants, touched.grants, touched.map.bytePlace]

theorem read8_of_place {w : World δ} {addr : Word} {p : Buffer × Word}
    (shown : w.map.bytePlace addr = some p) (sec : SecState) :
    w.read8 env sec addr =
      (if (w.interceptOk env .read sec addr 1).1 then some (w.map.bytes p) else none,
        (w.interceptOk env .read sec addr 1).2) := by
  rw [read8_eq, Memmap.byte_eq, shown]
  cases w.interceptOk env .read sec addr 1 with
  | mk ok w₁ => cases ok <;> rfl

variable (env) in
theorem gdbRead8_of_place {w : World δ} {addr : Word} {p : Buffer × Word}
    (shown : w.map.bytePlace addr = some p) (sec : SecState) :
    ∃ w₁, w.gdbRead8 env sec addr =
        (if w.gdbReadable env sec addr then some (w.map.bytes p) else none, w₁) ∧
      w₁.map = w.map ∧ w.Touched env w₁ := by
  have touched := touched_interceptOk env w .read sec addr 1
  have map := interceptOk_map env w .read sec addr 1
  rw [gdbRead8, read8_of_place shown, gdbReadable, ← touched.grants .read sec.alt]
  generalize w.interceptOk env .read sec addr 1 = r at touched map
  obtain ⟨ok, w₁⟩ := r
  have map : w₁.map = w.map := map
  cases ok with
  | true => exact ⟨w₁, rfl, map, touched⟩
  | false =>
    have second := touched_interceptOk env w₁ .read sec.alt addr 1
    refine ⟨(w₁.interceptOk env .read sec.alt addr 1).2, ?_,
      (interceptOk_map env w₁ .read sec.alt addr 1).trans map, touched.trans second⟩
    rw [← map] at shown ⊢
    exact read8_of_place shown sec.alt

theorem gdbRead8_of_dark {w : World δ} {sec : SecState} {addr : Word}
    (dark : w.Dark env sec addr) :
    ∃ w₁, w.gdbRead8 env sec addr = (none, w₁) ∧ w₁.map = w.map := by
  -- A single attempt that is refused, or finds neither buffer nor device.
  have fails (w : World δ) (sec : SecState) (dark : (w.interceptOk env .read sec addr 1).1 = false ∨
      w.map.bytePlace addr = none ∧ busFind env addr = none) :
      w.read8 env sec addr = (none, (w.interceptOk env .read sec addr 1).2) := by
    rw [read8_eq]
    generalize w.interceptOk env .read sec addr 1 = r at dark
    obtain ⟨ok, w₁⟩ := r
    cases ok with
    | false => rfl
    | true =>
      obtain ⟨shown, bus⟩ := dark.resolve_left (Bool.noConfusion ·)
      simp only [Memmap.byte_eq, shown, Option.map_none, busRead, bus]
  have touched := touched_interceptOk env w .read sec addr 1
  have map := interceptOk_map env w .read sec addr 1
  rw [Dark, gdbReadable, Bool.or_eq_false_iff] at dark
  have first := fails w sec (dark.imp_left And.left)
  rw [gdbRead8, first]
  refine ⟨((w.interceptOk env .read sec addr 1).2.interceptOk env .read sec.alt addr 1).2, ?_,
    (interceptOk_map env _ .read sec.alt addr 1).trans map⟩
  refine fails _ sec.alt ?_
  rw [touched.grants, touched.map.bytePlace]
  exact dark.imp_left And.right

theorem gdbReadBytes_succ (w : World δ) (sec : SecState) (addr : Word) (n : Nat) :
    w.gdbReadBytes env sec addr (n + 1) =
      match w.gdbRead8 env sec addr with
      | (none, w) => (none, w)
      | (some b, w) =>
        let (bs, w) := w.gdbReadBytes env sec (addr + 1) n
        (bs.map (b :: ·), w) := by
  rw [gdbReadBytes, gdbRead8]
  obtain ⟨first, w₁⟩ := w.read8 env sec addr
  cases first with
  | some b => rfl
  | none =>
    dsimp only
    obtain ⟨second, w₂⟩ := w₁.read8 env sec.alt addr
    cases second <;> rfl

variable (env) in
theorem gdbReadBytes_of_places {w : World δ} {addr : Word} {n : Nat} {ps : List (Buffer × Word)}
    (places : Memmap.placesFrom w.map.bytePlace addr n = some ps) (sec : SecState) :
    ∃ r w₁, w.gdbReadBytes env sec addr n = (r, w₁) ∧ w₁.map = w.map ∧ w.Touched env w₁ ∧
      (r = none ∨ r = some (ps.map w.map.bytes)) := by
  induction n generalizing w addr ps with
  | zero =>
    obtain rfl := Option.some.inj places
    exact ⟨_, w, rfl, rfl, .refl w, .inr rfl⟩
  | succ n ih =>
    obtain ⟨p, qs, here, there, rfl⟩ := Memmap.placesFrom_succ places
    obtain ⟨w₁, read, map, touched⟩ := gdbRead8_of_place env here sec
    rw [gdbReadBytes_succ, read]
    cases w.gdbReadable env sec addr with
    | false => exact ⟨none, w₁, rfl, map, touched, .inl rfl⟩
    | true =>
      obtain ⟨r, w₂, rest, map', touched', value⟩ := ih (map.symm ▸ there)
      simp only [if_true, rest]
      refine ⟨_, w₂, rfl, map'.trans map, touched.trans touched', ?_⟩
      rcases value with rfl | rfl
      · exact .inl rfl
      · exact .inr (by rw [map]; rfl)

def Unread (env : Env δ) (w : World δ) (sec : SecState) (addr : Word) (n : Nat) : Prop :=
  ∃ k < n, w.Dark env sec (addr + BitVec.ofNat 32 k) ∧
    ∀ j < k, (w.map.bytePlace (addr + BitVec.ofNat 32 j)).isSome

theorem Touched.unread {w w₁ : World δ} (touched : w.Touched env w₁) {sec : SecState} {addr : Word}
    {n : Nat} (unread : w.Unread env sec addr n) : w₁.Unread env sec addr n := by
  obtain ⟨k, inside, dark, before⟩ := unread
  exact ⟨k, inside, (touched.dark sec _).mpr dark, fun j below => by
    rw [touched.map.bytePlace]
    exact before j below⟩

theorem gdbReadBytes_of_unread {w : World δ} {sec : SecState} {addr : Word} {n : Nat}
    (unread : w.Unread env sec addr n) :
    ∃ w₁, w.gdbReadBytes env sec addr n = (none, w₁) ∧ w₁.map = w.map := by
  have first (addr : Word) : addr + BitVec.ofNat 32 0 = addr := BitVec.add_zero addr
  induction n generalizing w addr with
  | zero =>
    obtain ⟨k, inside, -⟩ := unread
    exact absurd inside (Nat.not_lt_zero k)
  | succ n ih =>
    obtain ⟨k, inside, dark, before⟩ := unread
    rw [gdbReadBytes_succ]
    cases k with
    | zero =>
      rw [first] at dark
      obtain ⟨w₁, read, map⟩ := gdbRead8_of_dark dark
      rw [read]
      exact ⟨w₁, rfl, map⟩
    | succ k =>
      have here := before 0 (Nat.succ_pos k)
      rw [first] at here
      obtain ⟨p, here⟩ := Option.isSome_iff_exists.mp here
      obtain ⟨w₁, read, map, touched⟩ := gdbRead8_of_place env here sec
      rw [read]
      cases w.gdbReadable env sec addr with
      | false => exact ⟨w₁, rfl, map⟩
      | true =>
        have later : w.Unread env sec (addr + 1) n := by
          refine ⟨k, Nat.lt_of_succ_lt_succ inside, ?_, fun j below => ?_⟩
          · rw [← Memmap.add_ofNat_succ]
            exact dark
          · rw [← Memmap.add_ofNat_succ]
            exact before (j + 1) (Nat.succ_lt_succ below)
        obtain ⟨w₂, rest, map'⟩ := ih (touched.unread later)
        simp only [if_true, rest]
        exact ⟨w₂, rfl, map'.trans map⟩

theorem gdbFetchHw1_eq (w : World δ) (sec : SecState) (addr : Word) :
    w.gdbFetchHw1 env sec addr =
      let (bs, w') := w.gdbReadBytes env sec addr 2
      (bs.bind fun bs => match bs with
        | [b0, b1] => some (b1 ++ b0)
        | _ => none, w') := by
  have two : w.gdbReadBytes env sec addr 2 = _ := gdbReadBytes_succ w sec addr 1
  have one (w : World δ) : w.gdbReadBytes env sec (addr + 1) 1 = _ :=
    gdbReadBytes_succ w sec (addr + 1) 0
  simp only [gdbFetchHw1, two, one, gdbReadBytes.eq_1]
  cases w.gdbRead8 env sec addr with
  | mk b0 w₁ =>
    cases b0 with
    | none => rfl
    | some b0 =>
      simp only
      cases w₁.gdbRead8 env sec (addr + 1) with
      | mk b1 w₂ => cases b1 <;> rfl

end World

end M33mu
