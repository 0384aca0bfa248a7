import M33mu.Exception
import M33mu.RamWord

namespace M33mu

structure FaultStatus where
  cfsr : Word
  mmfar : Word
  sfsr : Word
  sfar : Word
  pending : Bool
  deriving DecidableEq

def Scs.faultStatus (scs : Scs) : FaultStatus :=
  ⟨scs.cfsr, scs.mmfar, scs.sauSfsr, scs.sauSfar, scs.securefaultPending⟩

namespace AccessType

def cfsrBits : AccessType → Word
  | .exec => 0x81
  | _ => 0x82

def sfsrBits : AccessType → Word
  | .exec => Prot.sfsrSfarvalid ||| Prot.sfsrInvep
  | _ => Prot.sfsrSfarvalid ||| Prot.sfsrAuviol

end AccessType

namespace FaultStatus

def noteAccess (s : FaultStatus) (type : AccessType) (addr : Word) : FaultStatus :=
  { s with cfsr := (s.cfsr &&& ~~~0x00010000#32) ||| type.cfsrBits, mmfar := addr }

def noteAttribution (s : FaultStatus) (type : AccessType) (addr : Word) : FaultStatus :=
  { s with sfsr := s.sfsr ||| type.sfsrBits, sfar := addr, pending := true }

/-- What the fault of an access may do: it adds the bits of its kind, may clear UNDEFINSTR, and notes
its address, in SFSR and SFAR too if it `violates` the attribution. -/
structure Faults (type : AccessType) (addr : Word) (violates : Bool) (s s' : FaultStatus) : Prop where
  cfsr : s'.cfsr = s.cfsr ||| type.cfsrBits ∨
    s'.cfsr = (s.cfsr &&& ~~~0x00010000#32) ||| type.cfsrBits
  mmfar : s'.mmfar = addr
  sfsr : s'.sfsr = if violates then s.sfsr ||| type.sfsrBits else s.sfsr
  sfar : s'.sfar = if violates then addr else s.sfar
  pending : s'.pending = (s.pending || violates)

def addCfsr (s : FaultStatus) (bits : Word) : FaultStatus := { s with cfsr := s.cfsr ||| bits }

theorem faults_of_recorded (s : FaultStatus) (type : AccessType) (addr : Word) (violates : Bool) :
    s.Faults type addr violates
      { ((if violates then s.noteAttribution type addr else s).noteAccess type addr).addCfsr
        type.cfsrBits with mmfar := addr } := by
  have cfsr : (s.cfsr &&& ~~~0x00010000#32) ||| type.cfsrBits ||| type.cfsrBits =
      (s.cfsr &&& ~~~0x00010000#32) ||| type.cfsrBits := by
    rw [BitVec.or_assoc, BitVec.or_self]
  cases violates with
  | true => exact ⟨.inr cfsr, rfl, rfl, rfl, by simp [addCfsr, noteAccess, noteAttribution]⟩
  | false => exact ⟨.inr cfsr, rfl, rfl, rfl, by simp [addCfsr, noteAccess]⟩

theorem faults_of_granted (s : FaultStatus) (type : AccessType) (addr : Word) :
    s.Faults type addr false { s.addCfsr type.cfsrBits with mmfar := addr } :=
  ⟨.inl rfl, rfl, rfl, rfl, by simp [addCfsr]⟩

end FaultStatus

namespace World

variable {δ : Type u} (env : Env δ)

abbrev status (w : World δ) : FaultStatus := w.scs.faultStatus

def violates (w : World δ) (type : AccessType) (sec : SecState) (addr : Word) : Bool :=
  match w.map.prot with
  | none => false
  | some ctx =>
    !Prot.isSystemControl addr && sec == .nonsecure && !Prot.admits type
      (Prot.attrForAddr ctx (env.blockSecure.map fun f => f w.dev) w.scs addr)

def Granted (w : World δ) (type : AccessType) (sec : SecState) (addr size : Word) : Prop :=
  (w.interceptOk env type sec addr size).1 = true

instance (w : World δ) (type : AccessType) (sec : SecState) (addr size : Word) :
    Decidable (w.Granted env type sec addr size) := inferInstanceAs (Decidable (_ = _))

variable {env}

theorem status_of_granted {w w' : World δ} {type : AccessType} {sec : SecState} {addr size : Word}
    (granted : w.interceptOk env type sec addr size = (true, w')) :
    w'.status = w.status ∧ w.violates env type sec addr = false := by
  cases prot : w.map.prot with
  | none =>
    simp only [interceptOk, prot] at granted
    cases granted
    simp [violates, prot]
  | some ctx =>
    simp only [interceptOk, prot] at granted
    simp only [violates, prot]
    generalize r : Prot.interceptor _ _ _ _ _ _ _ = q at granted
    obtain ⟨ok, scs⟩ := q
    cases granted
    simp only [Prot.interceptor] at r
    split at r
    · rename_i control
      cases r
      simp [control, Scs.faultStatus]
    split at r
    · cases r
    rename_i admitted
    split at r
    · cases r
    split at r
    · cases r
      refine ⟨rfl, ?_⟩
      simp only [not_and, Bool.not_eq_false] at admitted
      cases sec with
      | secure => simp
      | nonsecure => simp [admitted rfl]
    · cases r

theorem status_of_refused {w w' : World δ} {type : AccessType} {sec : SecState} {addr size : Word}
    (refused : w.interceptOk env type sec addr size = (false, w')) :
    w'.status = (if w.violates env type sec addr then w.status.noteAttribution type addr
      else w.status).noteAccess type addr := by
  have access (scs : Scs) (sec : SecState) : (Prot.recordMemfault scs sec type addr).faultStatus =
      scs.faultStatus.noteAccess type addr := by
    cases type <;> rfl
  have attribution (scs : Scs) : (Prot.recordSecurefault scs type addr).faultStatus =
      scs.faultStatus.noteAttribution type addr := by
    cases type <;> rfl
  cases prot : w.map.prot with
  | none =>
    simp only [interceptOk, prot] at refused
    cases refused
  | some ctx =>
    simp only [interceptOk, prot] at refused
    simp only [violates, prot]
    generalize r : Prot.interceptor _ _ _ _ _ _ _ = q at refused
    obtain ⟨ok, scs⟩ := q
    cases refused
    simp only [Prot.interceptor] at r
    split at r
    · cases r
    rename_i control
    split at r
    · rename_i violates
      cases r
      rw [violates.1, violates.2]
      simp only [control, access, attribution]
      rfl
    rename_i admitted
    have kept : (sec == .nonsecure && !Prot.admits type
        (Prot.attrForAddr ctx (env.blockSecure.map fun f => f w.dev) w.scs addr)) = false := by
      cases sec with
      | secure => rfl
      | nonsecure => simpa using admitted
    rw [Bool.and_assoc, kept, Bool.and_false, if_neg Bool.false_ne_true]
    split at r
    · cases r
      exact access _ _
    split at r
    · cases r
    · cases r
      exact access _ _

end World

/-- What the devices owe: a read leaves the fault status alone, and so does a refused write. -/
structure Env.KeepsStatus {δ : Type u} (env : Env δ) : Prop where
  read : ∀ r ∈ env.mmio, ∀ offset size (w : World δ), (r.read offset size w).2.status = w.status
  refused : ∀ r ∈ env.mmio, ∀ offset size v (w : World δ),
    (r.write offset size v w).1 = false → (r.write offset size v w).2.status = w.status
  flash : ∀ f, env.flashWrite = some f → ∀ sec addr size v (w : World δ),
    (f sec addr size v w).1 = false → (f sec addr size v w).2.status = w.status

namespace ScsBlock

theorem scsRead_status (b : ScsBlock) (win : SecState) (offset size : Word) :
    (b.scsRead win offset size).2.scs.faultStatus = b.scs.faultStatus := by
  simp only [scsRead]
  split
  · rfl
  split
  · split
    · rename_i reg _
      cases reg <;> rfl
    · rfl
  · rfl

theorem scsWrite_refused {b : ScsBlock} {win : SecState} {offset size value : Word}
    (refused : (b.scsWrite win offset size value).1 = false) :
    (b.scsWrite win offset size value).2 = b := by
  simp only [scsWrite] at refused ⊢
  split
  · rfl
  rename_i inside
  rw [if_neg inside] at refused
  split
  · rename_i below
    rw [if_pos below] at refused
    split at refused <;> cases refused
  rename_i scb
  rw [if_neg scb] at refused
  split
  · rename_i sized
    rw [if_pos sized] at refused
    split
    · rename_i reg found
      rw [found] at refused
      -- AIRCR without its key is the only register to refuse a write
      cases reg <;> simp only [scbWrite, reduceCtorEq] at refused ⊢
      split at refused
      · cases refused
      · rename_i wrongKey
        rw [if_neg wrongKey]
    · rfl
  · rfl

end ScsBlock

theorem World.scsRegions_keepStatus {δ : Type u} (env : Env δ) (mmio : env.mmio = World.scsRegions)
    (flash : env.flashWrite = none) : env.KeepsStatus where
  read r mem offset size w := by
    simp only [mmio, World.scsRegions, List.mem_cons, List.not_mem_nil, or_false] at mem
    rcases mem with rfl | rfl <;> exact ScsBlock.scsRead_status _ _ _ _
  refused r mem offset size v w refused := by
    simp only [mmio, World.scsRegions, List.mem_cons, List.not_mem_nil, or_false] at mem
    rcases mem with rfl | rfl <;>
      exact congrArg (fun b : ScsBlock => b.scs.faultStatus) (ScsBlock.scsWrite_refused refused)
  flash f some := by
    rw [flash] at some
    cases some

namespace World

variable {δ : Type u} {env : Env δ}

def Refused (env : Env δ) (type : AccessType) (sec : SecState) (addr : Word) (w w' : World δ) :
    Prop :=
  w'.status = (if w.violates env type sec addr then w.status.noteAttribution type addr
      else w.status).noteAccess type addr ∨
    w'.status = w.status ∧ w.violates env type sec addr = false

theorem Refused.faults {w w' : World δ} {type : AccessType} {sec : SecState} {addr : Word}
    (refused : Refused env type sec addr w w') :
    w.status.Faults type addr (w.violates env type sec addr)
      { w'.status.addCfsr type.cfsrBits with mmfar := addr } := by
  rcases refused with recorded | ⟨same, admitted⟩
  · rw [recorded]
    exact FaultStatus.faults_of_recorded _ _ _ _
  · rw [same, admitted]
    exact FaultStatus.faults_of_granted _ _ _

theorem exists_region {addr : Word} {r : MmioRegion δ} (found : busFind env addr = some r) :
    r ∈ env.mmio := List.mem_of_find?_eq_some found

theorem busRead_status (keeps : env.KeepsStatus) (w : World δ) (addr size : Word) :
    (w.busRead env addr size).2.status = w.status := by
  simp only [busRead]
  split
  · rename_i r found
    exact keeps.read r (exists_region found) _ _ _
  · rfl

theorem busWrite_status (keeps : env.KeepsStatus) {w : World δ} {addr size v : Word}
    (refused : (w.busWrite env addr size v).1 = false) :
    (w.busWrite env addr size v).2.status = w.status := by
  simp only [busWrite] at refused ⊢
  split at refused
  · rename_i r found
    exact keeps.refused r (exists_region found) _ _ _ _ refused
  · rfl

theorem read_status (keeps : env.KeepsStatus) {w : World δ} {sec : SecState} {addr size : Word}
    (granted : w.Granted env .read sec addr size) :
    (w.read env sec addr size).2.status = w.status := by
  rcases eq : w.interceptOk env .read sec addr size with ⟨ok, w'⟩
  obtain rfl : ok = true := by simpa [Granted, eq] using granted
  rw [← (status_of_granted eq).1]
  simp only [World.read, eq, Bool.not_true, Bool.false_eq_true, if_false]
  split
  · rfl
  · exact busRead_status keeps _ _ _

theorem read8_status (keeps : env.KeepsStatus) {w : World δ} {sec : SecState} {addr : Word}
    (granted : w.Granted env .read sec addr 1) : (w.read8 env sec addr).2.status = w.status := by
  rcases eq : w.interceptOk env .read sec addr 1 with ⟨ok, w'⟩
  rw [Granted, eq] at granted
  obtain rfl : ok = true := granted
  rw [← (status_of_granted eq).1]
  simp only [read8, eq, Bool.not_true, Bool.false_eq_true, if_false]
  split
  · rfl
  · exact busRead_status keeps _ _ _

theorem granted_of_read {w : World δ} {sec : SecState} {addr size : Word}
    (some : (w.read env sec addr size).1.isSome = true) : w.Granted env .read sec addr size := by
  rcases eq : w.interceptOk env .read sec addr size with ⟨_ | _, w'⟩
  · simp [World.read, eq] at some
  · rw [Granted, eq]

theorem granted_of_read8 {w : World δ} {sec : SecState} {addr : Word}
    (some : (w.read8 env sec addr).1.isSome = true) : w.Granted env .read sec addr 1 := by
  rcases eq : w.interceptOk env .read sec addr 1 with ⟨_ | _, w'⟩
  · simp only [read8, eq, Bool.not_false, if_true] at some
    cases some
  · rw [Granted, eq]

theorem read_refused (keeps : env.KeepsStatus) {w w' : World δ} {sec : SecState} {addr size : Word}
    (read : w.read env sec addr size = (none, w')) : Refused env .read sec addr w w' := by
  rcases eq : w.interceptOk env .read sec addr size with ⟨_ | _, w₁⟩
  · simp only [World.read, eq, Bool.not_false, if_true, Prod.mk.injEq, true_and] at read
    exact .inl (read ▸ status_of_refused eq)
  · have granted : w.Granted env .read sec addr size := by rw [Granted, eq]
    have same := read_status keeps granted
    rw [read] at same
    exact .inr ⟨same, (status_of_granted eq).2⟩

theorem read8_refused (keeps : env.KeepsStatus) {w w' : World δ} {sec : SecState} {addr : Word}
    (read : w.read8 env sec addr = (none, w')) : Refused env .read sec addr w w' := by
  rcases eq : w.interceptOk env .read sec addr 1 with ⟨_ | _, w₁⟩
  · simp only [read8, eq, Bool.not_false, if_true, Prod.mk.injEq, true_and] at read
    exact .inl (read ▸ status_of_refused eq)
  · have granted : w.Granted env .read sec addr 1 := by rw [Granted, eq]
    have same := read8_status keeps granted
    rw [read] at same
    exact .inr ⟨same, (status_of_granted eq).2⟩

theorem fetchRead16_refused {w w' : World δ} {sec : SecState} {addr : Word}
    (fetch : w.fetchRead16 env sec addr = (none, w')) : Refused env .exec sec addr w w' := by
  rcases eq : w.interceptOk env .exec sec addr 2 with ⟨_ | _, w₁⟩
  · simp only [fetchRead16, eq, Bool.not_false, if_true, Prod.mk.injEq, true_and] at fetch
    exact .inl (fetch ▸ status_of_refused eq)
  · simp only [fetchRead16, eq, Bool.not_true, Bool.false_eq_true, if_false, Prod.mk.injEq] at fetch
    obtain ⟨same, admitted⟩ := status_of_granted eq
    exact .inr ⟨fetch.2 ▸ same, admitted⟩

theorem fetchRead16_status {w w' : World δ} {sec : SecState} {addr v : Word}
    (fetch : w.fetchRead16 env sec addr = (some v, w')) : w'.status = w.status := by
  rcases eq : w.interceptOk env .exec sec addr 2 with ⟨_ | _, w₁⟩
  · simp only [fetchRead16, eq, Bool.not_false, if_true] at fetch
    cases fetch
  · simp only [fetchRead16, eq, Bool.not_true, Bool.false_eq_true, if_false, Prod.mk.injEq] at fetch
    exact fetch.2 ▸ (status_of_granted eq).1

theorem interceptOk_violates (w : World δ) (by' : AccessType) (sec' : SecState) (at' size : Word)
    (type : AccessType) (sec : SecState) (addr : Word) :
    (w.interceptOk env by' sec' at' size).2.violates env type sec addr =
      w.violates env type sec addr := by
  have sau (scs : Scs) (h : scs.sauCtrl = w.scs.sauCtrl ∧ scs.sauRbar = w.scs.sauRbar ∧
      scs.sauRlar = w.scs.sauRlar) : Sau.attrForAddr scs addr = Sau.attrForAddr w.scs addr :=
    congrFun (Sau.attrForAddr_congr h.1 h.2.1 h.2.2) addr
  cases prot : w.map.prot with
  | none => simp only [interceptOk, prot]
  | some ctx =>
    simp only [interceptOk, violates, prot]
    rw [Prot.attrForAddr, sau, Prot.attrForAddr]
    simp only [Prot.interceptor]
    split
    · exact ⟨rfl, rfl, rfl⟩
    split
    · exact ⟨rfl, rfl, rfl⟩
    split
    · exact ⟨rfl, rfl, rfl⟩
    split <;> exact ⟨rfl, rfl, rfl⟩

variable (env) in
theorem fetchRead16_violates (w : World δ) (sec : SecState) (addr : Word) (type : AccessType)
    (next : Word) : (w.fetchRead16 env sec addr).2.violates env type sec next =
      w.violates env type sec next := by
  refine .trans ?_ (interceptOk_violates w .exec sec addr 2 type sec next)
  simp only [fetchRead16]
  split <;> rfl

theorem write_status (keeps : env.KeepsStatus) {w w' : World δ} {sec : SecState}
    {addr size v : Word} (granted : w.Granted env .write sec addr size)
    (write : w.write env sec addr size v = (false, w')) : w'.status = w.status := by
  rcases eq : w.interceptOk env .write sec addr size with ⟨ok, w₁⟩
  obtain rfl : ok = true := by rw [Granted, eq] at granted; exact granted
  rw [← (status_of_granted eq).1]
  simp only [World.write, eq, Bool.not_true, Bool.false_eq_true, if_false] at write
  have bus (write : w₁.writeRamOrBus env sec addr size v = (false, w')) : w'.status = w₁.status := by
    simp only [writeRamOrBus] at write
    split at write
    · cases write
    · simp only [Prod.mk.injEq, Bool.or_eq_false_iff] at write
      obtain ⟨⟨refused, -⟩, rfl⟩ := write
      exact busWrite_status keeps refused
  split at write
  · rename_i f flash
    split at write
    · have kept := keeps.flash f flash sec addr size v w₁
      rw [write] at kept
      exact kept rfl
    · exact bus write
  · exact bus write

theorem write_refused (keeps : env.KeepsStatus) {w w' : World δ} {sec : SecState}
    {addr size v : Word} (write : w.write env sec addr size v = (false, w')) :
    Refused env .write sec addr w w' := by
  rcases eq : w.interceptOk env .write sec addr size with ⟨_ | _, w₁⟩
  · simp only [World.write, eq, Bool.not_false, if_true, Prod.mk.injEq, true_and] at write
    exact .inl (write ▸ status_of_refused eq)
  · have granted : w.Granted env .write sec addr size := by rw [Granted, eq]
    exact .inr ⟨write_status keeps granted write, (status_of_granted eq).2⟩

variable (env) in
def Reads (w : World δ) (sec : SecState) : List (Word × Word) → Prop
  | [] => True
  | (addr, size) :: rest =>
    w.Granted env .read sec addr size ∧ (w.read env sec addr size).2.Reads sec rest

variable (env) in
def Pushes (w : World δ) (sec : SecState) (sp : Word) : List Word → Prop
  | [] => True
  | v :: rest =>
    w.Granted env .write sec (sp - 4) 4 ∧ w.map.flashOffsets (sp - 4) 4 = [] ∧
      (w.map.writeRam (sp - 4) 4 v).isSome = true ∧
        (w.write env sec (sp - 4) 4 v).2.Pushes sec (sp - 4) rest

instance instDecidableReads (sec : SecState) :
    ∀ (w : World δ) (reads : List (Word × Word)), Decidable (w.Reads env sec reads)
  | _, [] => isTrue trivial
  | w, (addr, size) :: rest =>
    have : Decidable ((w.read env sec addr size).2.Reads env sec rest) :=
      instDecidableReads sec _ rest
    inferInstanceAs (Decidable (_ ∧ _))

instance instDecidablePushes (sec : SecState) :
    ∀ (w : World δ) (sp : Word) (words : List Word), Decidable (w.Pushes env sec sp words)
  | _, _, [] => isTrue trivial
  | w, sp, v :: rest =>
    have : Decidable ((w.write env sec (sp - 4) 4 v).2.Pushes env sec (sp - 4) rest) :=
      instDecidablePushes sec _ _ rest
    inferInstanceAs (Decidable (_ ∧ _))

variable (env) in
def afterReads (w : World δ) (sec : SecState) (reads : List (Word × Word)) : World δ :=
  reads.foldl (fun w read => (w.read env sec read.1 read.2).2) w

theorem afterReads_status (keeps : env.KeepsStatus) {w : World δ} {sec : SecState}
    {reads : List (Word × Word)} (granted : w.Reads env sec reads) :
    (w.afterReads env sec reads).status = w.status := by
  induction reads generalizing w with
  | nil => rfl
  | cons read reads ih => exact (ih granted.2).trans (read_status keeps granted.1)

theorem write_ram_status {w : World δ} {sec : SecState} {addr v : Word}
    (granted : w.Granted env .write sec addr 4) (noFlash : w.map.flashOffsets addr 4 = [])
    (ram : (w.map.writeRam addr 4 v).isSome = true) :
    (w.write env sec addr 4 v).1 = true ∧ (w.write env sec addr 4 v).2.status = w.status := by
  have map := interceptOk_map env w .write sec addr 4
  rcases eq : w.interceptOk env .write sec addr 4 with ⟨ok, w₁⟩
  obtain rfl : ok = true := by rw [Granted, eq] at granted; exact granted
  rw [eq] at map
  obtain ⟨same, -⟩ := status_of_granted eq
  obtain ⟨m, stored⟩ := Option.isSome_iff_exists.mp ram
  have map : w₁.map = w.map := map
  have stored : w₁.writeRamOrBus env sec addr 4 v = (true, { w₁ with map := m }) := by
    simp only [writeRamOrBus, map, stored]
  have direct : w.write env sec addr 4 v = (true, { w₁ with map := m }) := by
    simp only [World.write, eq, Bool.not_true, Bool.false_eq_true, if_false, map, noFlash, ne_eq,
      not_true_eq_false, and_false, stored]
    split <;> rfl
  rw [direct]
  exact ⟨rfl, same⟩

theorem pushWords_status {w : World δ} {sec : SecState} {sp : Word} {words : List Word}
    (pushes : w.Pushes env sec sp words) :
    (w.pushWords env sec sp words).1.isSome = true ∧
      (w.pushWords env sec sp words).2.status = w.status := by
  induction words generalizing w sp with
  | nil => exact ⟨rfl, rfl⟩
  | cons v rest ih =>
    obtain ⟨granted, noFlash, ram, pushes⟩ := pushes
    obtain ⟨ok, same⟩ := write_ram_status granted noFlash ram
    rcases eq : w.write env sec (sp - 4) 4 v with ⟨ok', w'⟩
    rw [eq] at ok same pushes
    obtain rfl : ok' = true := ok
    simp only [pushWords, eq]
    exact ⟨(ih pushes).1, (ih pushes).2.trans same⟩

def wordReads (addr : Word) : Nat → List (Word × Word)
  | 0 => []
  | n + 1 => (addr, 4) :: wordReads (addr + 4) n

theorem readWords_status (keeps : env.KeepsStatus) {w : World δ} {sec : SecState} {addr : Word}
    {n : Nat} (granted : w.Reads env sec (wordReads addr n)) :
    (w.readWords env sec addr n).2.status = w.status := by
  induction n generalizing w addr with
  | zero => rfl
  | succ n ih =>
    have first := read_status keeps granted.1
    have rest := ih granted.2
    rcases eq : w.read env sec addr 4 with ⟨_ | v, w'⟩
    · simp only [readWords, eq]
      rw [eq] at first
      exact first
    · simp only [readWords, eq]
      rw [eq] at first rest
      exact rest.trans first

theorem readFrame_status (keeps : env.KeepsStatus) {w : World δ} {sec : SecState} {sp : Word}
    (granted : w.Reads env sec (wordReads sp 8)) :
    (w.readFrame env sec sp).2.status = w.status := by
  have words := readWords_status keeps granted
  simp only [readFrame]
  split
  · rename_i eq
    rw [eq] at words
    exact words
  · rename_i eq
    rw [eq] at words
    exact words

theorem exceptionReadHandler_snd (w : World δ) (sec : SecState) (index : Word) :
    (w.exceptionReadHandler env sec index).2 =
      (w.read env sec (w.scs.vtor.get sec + index * 4) 4).2 := by
  simp only [exceptionReadHandler]
  split
  · rename_i eq
    exact (congrArg Prod.snd eq).symm
  · rename_i eq
    have read := (congrArg Prod.snd eq).symm
    split
    · split <;> exact read
    · exact read

@[simp] theorem setShcsr_status (w : World δ) (sec : SecState) (i : Nat) :
    (w.setShcsr sec i).status = w.status := rfl

@[simp] theorem noteQuit_status (w : World δ) : (w.noteQuit env).status = w.status := by
  simp only [noteQuit]
  split <;> rfl

@[simp] theorem noteEntry_status (w : World δ) (sec : SecState) (num : Word) :
    (w.noteEntry sec num).status = w.status := by
  simp only [noteEntry]
  split
  · rfl
  split
  · rfl
  split <;> rfl

end World

namespace Sys

variable {δ : Type u} (env : Env δ)

def Pushes (s : Sys δ) (returnPc xpsrIn : Word) : Prop :=
  s.world.Pushes env s.cpu.secState (s.cpu.bankSp s.cpu.secState s.cpu.usePspEntry)
    (s.cpu.frame returnPc xpsrIn).words.reverse

instance (s : Sys δ) (returnPc xpsrIn : Word) : Decidable (s.Pushes env returnPc xpsrIn) :=
  inferInstanceAs (Decidable (World.Pushes ..))

/-- The vector fetch and the frame of `enter_exception_ex`. -/
def EntryGranted (s : Sys δ) (num returnPc xpsrIn : Word) (handlerSec : SecState) : Prop :=
  let vector := s.world.scs.vtor.get handlerSec + num * 4
  let w := (s.world.read env handlerSec vector 4).2
  s.world.Granted env .read handlerSec vector 4 ∧
    { s with world := w.noteEntry s.cpu.secState num }.Pushes env returnPc xpsrIn

instance (s : Sys δ) (num returnPc xpsrIn : Word) (handlerSec : SecState) :
    Decidable (s.EntryGranted env num returnPc xpsrIn handlerSec) :=
  inferInstanceAs (Decidable (_ ∧ _))

/-- The world in which `raise_hard_fault` fetches the vector. -/
def hardFaultWorld (s : Sys δ) : World δ :=
  { s.world with scs := { s.world.scs with hfsr := s.world.scs.hfsr ||| 1#32 <<< 30 } }.setShcsr
    s.cpu.secState 1

def hardFaultReads (s : Sys δ) (faultPc : Word) : List (Word × Word) :=
  let sec := s.cpu.secState
  let w := s.hardFaultWorld
  let handler := (w.exceptionReadHandler env sec Vect.hardfault).1
  [(w.scs.vtor.get sec + Vect.hardfault * 4, 4), (0xE000ED28, 4), (0xE000ED34, 4),
    (faultPc &&& ~~~1#32, 2), (handler &&& ~~~1#32, 2)]

/-- The world in which `raise_usage_fault` fetches the vector. -/
def usageFaultWorld (s : Sys δ) (ufsrBits : Word) : World δ :=
  let ufsrBits := if ufsrBits = 0 then ufsrUndefinstr else ufsrBits
  { s.world with scs := { s.world.scs with cfsr := s.world.scs.cfsr ||| ufsrBits } }.setShcsr
    s.cpu.secState 2

def usageFaultReads (s : Sys δ) (faultPc ufsrBits : Word) : List (Word × Word) :=
  let sec := s.cpu.secState
  let w := s.usageFaultWorld ufsrBits
  let first := [(w.scs.vtor.get sec + Vect.usagefault * 4, 4), (0xE000ED28, 4)]
  let hw := ((w.afterReads env sec first).read env sec (faultPc &&& ~~~1#32) 2).1
  first ++ (faultPc &&& ~~~1#32, 2) :: if hw.isSome then [(faultPc &&& ~~~3#32, 4)] else []

/-- The fetch, the reads for the debug output and the frame of `raise_hard_fault`. -/
def HardFaultGranted (s : Sys δ) (faultPc faultXpsr : Word) : Prop :=
  let sec := s.cpu.secState
  let reads := s.hardFaultReads env faultPc
  s.hardFaultWorld.Reads env sec reads ∧
    { s with world := (s.hardFaultWorld.afterReads env sec reads).noteQuit env }.Pushes env faultPc
      faultXpsr

instance (s : Sys δ) (faultPc faultXpsr : Word) :
    Decidable (s.HardFaultGranted env faultPc faultXpsr) := inferInstanceAs (Decidable (_ ∧ _))

/-- The fetch, the reads for the debug output and the frame of `raise_usage_fault`. -/
def UsageFaultGranted (s : Sys δ) (faultPc faultXpsr ufsrBits : Word) : Prop :=
  let sec := s.cpu.secState
  let w := s.usageFaultWorld ufsrBits
  let reads := s.usageFaultReads env faultPc ufsrBits
  w.Reads env sec reads ∧ (env.quitOnFaults = false →
    { s with world := w.afterReads env sec reads }.Pushes env faultPc faultXpsr)

instance (s : Sys δ) (faultPc faultXpsr ufsrBits : Word) :
    Decidable (s.UsageFaultGranted env faultPc faultXpsr ufsrBits) :=
  inferInstanceAs (Decidable (_ ∧ _))

/-- What `raise_mem_fault` does: no SecureFault is left over from Non-secure state, and its own
accesses are let through. -/
def MemFaultGranted (s : Sys δ) (faultPc faultXpsr addr : Word) (isExec : Bool) : Prop :=
  let sec := s.cpu.secState
  let w := s.world.noteQuit env
  let noted := { s with world := w.noteMemManage sec addr isExec }
  ¬ (sec = .secure ∧ w.scs.securefaultPending = true) ∧
    if (noted.world.scs.shcsr.get sec).getLsbD 16 then
      noted.EntryGranted env Vect.memmanage faultPc faultXpsr sec
    else noted.HardFaultGranted env faultPc faultXpsr

instance (s : Sys δ) (faultPc faultXpsr addr : Word) (isExec : Bool) :
    Decidable (s.MemFaultGranted env faultPc faultXpsr addr isExec) :=
  inferInstanceAs (Decidable (_ ∧ ite _ _ _))

/-- The reads of the frame by `exc_return_unstack`. -/
def UnstackGranted (s : Sys δ) (excRet : Word) : Prop :=
  ∀ info ∈ excReturnDecode excRet,
    s.world.Reads env info.targetSec (World.wordReads (s.cpu.unstackSp info) 8)

instance (s : Sys δ) (excRet : Word) : Decidable (s.UnstackGranted env excRet) :=
  inferInstanceAs (Decidable (∀ info ∈ excReturnDecode excRet, _))

variable {env}

theorem enter_status {s : Sys δ} {returnPc xpsrIn : Word} (pushes : s.Pushes env returnPc xpsrIn)
    (num xpsr handler : Word) (sec : SecState) :
    (s.enter env num returnPc xpsrIn xpsr handler sec).2.world.status = s.world.status ∧
      ∃ x, (s.enter env num returnPc xpsrIn xpsr handler sec).2.trace =
        .enter num s.cpu.secState sec x :: s.trace := by
  obtain ⟨ok, same⟩ := World.pushWords_status pushes
  simp only [enter, World.pushFrame]
  split
  · rename_i eq
    rw [eq] at same
    exact ⟨same, _, rfl⟩
  · rename_i eq
    rw [eq] at ok
    cases ok

variable (env) in
theorem exists_enterExceptionEx_eq (s : Sys δ) (num returnPc xpsrIn : Word) (sec : SecState) :
    ∃ handler, s.enterExceptionEx env num returnPc xpsrIn sec =
      let w := (s.world.read env sec (s.world.scs.vtor.get sec + num * 4) 4).2
      let r := { s with world := w.noteEntry s.cpu.secState num }.enter env num returnPc xpsrIn
        ((xpsrIn &&& 0xF8000000) ||| 0x01000000 ||| (num &&& 0x1FF)) handler sec
      (r.1, if r.1 then { r.2 with cpu := { r.2.cpu with sleeping := false, eventReg := false } }
        else r.2) := by
  simp only [enterExceptionEx]
  generalize fetched : (if 16 ≤ num then _ else _ : Word × World δ) = p
  have read : p.2 = (s.world.read env sec (s.world.scs.vtor.get sec + num * 4) 4).2 := by
    rw [← fetched]
    split
    · rfl
    · exact World.exceptionReadHandler_snd _ _ _
  rw [← read]
  exact ⟨p.1, rfl⟩

theorem enterExceptionEx_status (keeps : env.KeepsStatus) {s : Sys δ}
    {num returnPc xpsrIn : Word} {sec : SecState}
    (granted : s.EntryGranted env num returnPc xpsrIn sec) :
    (s.enterExceptionEx env num returnPc xpsrIn sec).2.world.status = s.world.status ∧
      ∃ x, (s.enterExceptionEx env num returnPc xpsrIn sec).2.trace =
        .enter num s.cpu.secState sec x :: s.trace := by
  obtain ⟨vector, pushes⟩ := granted
  obtain ⟨handler, eq⟩ := s.exists_enterExceptionEx_eq env num returnPc xpsrIn sec
  obtain ⟨same, x, entered⟩ := enter_status pushes num
    ((xpsrIn &&& 0xF8000000) ||| 0x01000000 ||| (num &&& 0x1FF)) handler sec
  have before := (World.noteEntry_status _ s.cpu.secState num).trans
    (World.read_status keeps vector)
  rw [eq]
  refine ⟨?_, x, ?_⟩
  · dsimp only
    split <;> exact same.trans before
  · dsimp only
    split <;> exact entered

theorem raiseHardFault_eq (s : Sys δ) (faultPc faultXpsr : Word) :
    s.raiseHardFault env faultPc faultXpsr =
      { s with world := (s.hardFaultWorld.afterReads env s.cpu.secState
          (s.hardFaultReads env faultPc)).noteQuit env }.enter env Vect.hardfault faultPc faultXpsr
        ((faultXpsr &&& 0xF8000000) ||| 0x01000003)
        (s.hardFaultWorld.exceptionReadHandler env s.cpu.secState Vect.hardfault).1
        s.cpu.secState := by
  simp only [hardFaultReads, World.afterReads, List.foldl_cons, List.foldl_nil,
    ← World.exceptionReadHandler_snd]
  rfl

theorem raiseUsageFault_eq (s : Sys δ) (faultPc faultXpsr ufsrBits : Word) :
    s.raiseUsageFault env faultPc faultXpsr ufsrBits =
      let w := (s.usageFaultWorld ufsrBits).afterReads env s.cpu.secState
        (s.usageFaultReads env faultPc ufsrBits)
      if env.quitOnFaults then (false, { s with world := w })
      else { s with world := w }.enter env Vect.usagefault faultPc faultXpsr
        ((faultXpsr &&& 0xF8000000) ||| 0x01000006)
        ((s.usageFaultWorld ufsrBits).exceptionReadHandler env s.cpu.secState Vect.usagefault).1
        s.cpu.secState := by
  have last (b : Bool) (w : World δ) (a n : Word) :
      List.foldl (fun w read => (w.read env s.cpu.secState read.1 read.2).2) w
        (if b = true then [(a, n)] else []) =
          if b = true then (w.read env s.cpu.secState a n).2 else w := by
    cases b <;> rfl
  simp only [usageFaultReads, World.afterReads, List.foldl_append, List.foldl_cons,
    List.foldl_nil, last, ← World.exceptionReadHandler_snd]
  rfl

theorem raiseHardFault_status (keeps : env.KeepsStatus) {s : Sys δ} {faultPc faultXpsr : Word}
    (granted : s.HardFaultGranted env faultPc faultXpsr) :
    (s.raiseHardFault env faultPc faultXpsr).2.world.status = s.world.status ∧
      ∃ x, (s.raiseHardFault env faultPc faultXpsr).2.trace =
        .enter Vect.hardfault s.cpu.secState s.cpu.secState x :: s.trace := by
  obtain ⟨reads, pushes⟩ := granted
  have read := World.afterReads_status keeps reads
  obtain ⟨same, x, entered⟩ := enter_status pushes Vect.hardfault
    ((faultXpsr &&& 0xF8000000) ||| 0x01000003)
    (s.hardFaultWorld.exceptionReadHandler env s.cpu.secState Vect.hardfault).1 s.cpu.secState
  rw [raiseHardFault_eq]
  exact ⟨same.trans ((World.noteQuit_status _).trans read), x, entered⟩

theorem raiseUsageFault_status (keeps : env.KeepsStatus) {s : Sys δ}
    {faultPc faultXpsr ufsrBits : Word}
    (granted : s.UsageFaultGranted env faultPc faultXpsr ufsrBits) :
    (s.raiseUsageFault env faultPc faultXpsr ufsrBits).2.world.status =
      s.world.status.addCfsr (if ufsrBits = 0 then ufsrUndefinstr else ufsrBits) := by
  obtain ⟨reads, pushes⟩ := granted
  have read := World.afterReads_status keeps reads
  rw [raiseUsageFault_eq]
  cases quit : env.quitOnFaults with
  | true => exact read
  | false => exact (enter_status (pushes quit) _ _ _ _).1.trans read

theorem raiseMemFault_status (keeps : env.KeepsStatus) {s : Sys δ}
    {faultPc faultXpsr addr : Word} {isExec : Bool}
    (granted : s.MemFaultGranted env faultPc faultXpsr addr isExec) :
    (s.raiseMemFault env faultPc faultXpsr addr isExec).2.world.status =
      { s.world.status.addCfsr (if isExec then 0x81 else 0x82) with mmfar := addr } ∧
      ∃ num x, (s.raiseMemFault env faultPc faultXpsr addr isExec).2.trace =
        .enter num s.cpu.secState s.cpu.secState x :: s.trace ∧ num ≠ Vect.securefault := by
  obtain ⟨none, granted⟩ := granted
  have noted : ((s.world.noteQuit env).noteMemManage s.cpu.secState addr isExec).status =
      { s.world.status.addCfsr (if isExec then 0x81 else 0x82) with mmfar := addr } := by
    have quit : (s.world.noteQuit env).status = s.world.status := World.noteQuit_status s.world
    rw [← quit]
    cases isExec <;> rfl
  simp only [raiseMemFault]
  rw [if_neg none]
  split at granted
  · rename_i enabled
    rw [if_pos enabled]
    obtain ⟨same, x, entered⟩ := enterExceptionEx_status keeps granted
    exact ⟨same.trans noted, _, x, entered, by decide⟩
  · rename_i disabled
    rw [if_neg disabled]
    obtain ⟨same, x, entered⟩ := raiseHardFault_status keeps granted
    exact ⟨same.trans noted, _, x, entered, by decide⟩

theorem excReturnUnstack_status (keeps : env.KeepsStatus) {s : Sys δ} {excRet : Word}
    (granted : s.UnstackGranted env excRet) :
    (s.excReturnUnstack env excRet).2.world.status = s.world.status := by
  simp only [excReturnUnstack]
  split
  · rfl
  · rename_i info decoded
    have frame := World.readFrame_status keeps (granted info decoded)
    split
    · rename_i eq
      rw [eq] at frame
      exact frame
    · rename_i eq
      rw [eq] at frame
      exact frame

end Sys

end M33mu
