import M33mu.Board
import M33mu.FaultRecords
import M33mu.Lib.Marks
import M33mu.Lib.Run

namespace M33mu

open Lib

def Vect.actBit (num : Word) : Option Nat :=
  if num = memmanage then some 0
  else if num = hardfault then some 1
  else if num = usagefault then some 2
  else if num = svcall then some 7
  else if num = pendsv then some 10
  else if num = systick then some 11
  else none

structure Activation where
  num : Word
  origin : SecState
  deriving DecidableEq

namespace Activation

def Tracked (k : Activation) : Prop := (Vect.actBit k.num).isSome = true

def Active (shcsr : Banked Word) (k : Activation) : Prop :=
  (Vect.actBit k.num).any (fun b => (shcsr.get k.origin).getLsbD b) = true

instance (k : Activation) : Decidable k.Tracked := inferInstanceAs (Decidable (_ = true))

instance (shcsr : Banked Word) (k : Activation) : Decidable (k.Active shcsr) :=
  inferInstanceAs (Decidable (_ = true))

theorem actBit_lt {num : Word} {b : Nat} (bit : Vect.actBit num = some b) : b < 32 := by
  simp only [Vect.actBit] at bit
  grind

theorem actBit_inj {num num' : Word} {b : Nat} (bit : Vect.actBit num = some b)
    (bit' : Vect.actBit num' = some b) : num = num' := by
  let number : Nat → Word
    | 0 => Vect.memmanage
    | 1 => Vect.hardfault
    | 2 => Vect.usagefault
    | 7 => Vect.svcall
    | 10 => Vect.pendsv
    | _ => Vect.systick
  have numbered {n : Word} (bit : Vect.actBit n = some b) : n = number b := by
    simp only [Vect.actBit] at bit
    repeat' split at bit
    all_goals
      cases bit
      try assumption
  exact (numbered bit).trans (numbered bit').symm

theorem active_zero (k : Activation) : ¬ Active (.both 0) k := by
  obtain ⟨num, sec⟩ := k
  cases bit : Vect.actBit num <;> cases sec <;> simp [Active, bit, Banked.both]

theorem active_set {num : Word} {b : Nat} (bit : Vect.actBit num = some b) (shcsr : Banked Word)
    (sec : SecState) :
    Active (shcsr.set sec (shcsr.get sec ||| 1#32 <<< b)) = mark (Active shcsr) ⟨num, sec⟩ := by
  funext ⟨num', sec'⟩
  cases bit' : Vect.actBit num' with
  | none =>
    have other : num' ≠ num := by
      rintro rfl
      rw [bit] at bit'
      cases bit'
    simp [mark, Active, bit', other]
  | some b' =>
    have same : b' = b ↔ num' = num := by
      constructor
      · rintro rfl
        exact actBit_inj bit' bit
      · rintro rfl
        exact Option.some.inj (bit'.symm.trans bit)
    have low := actBit_lt bit'
    have single : (b' < 32 ∧ b ≤ b') ∧ b' - b = 0 ↔ num' = num := by
      rw [← same]
      omega
    cases sec <;> cases sec' <;> simp [mark, Active, bit', single]

end Activation

def entered : List Event → List Activation
  | [] => []
  | .enter num origin _ _ :: trace => ⟨num, origin⟩ :: entered trace
  | .ret .. :: trace => (entered trace).tail
  | .sg _ :: trace | .call _ :: trace | .tzReturn _ :: trace => entered trace

def Env.KeepsShcsr {δ : Type u} (env : Env δ) : Prop :=
  ∀ r ∈ env.mmio, ∀ offset size (w : World δ), (r.read offset size w).2.scs.shcsr = w.scs.shcsr

theorem ScsBlock.scsRead_shcsr (b : ScsBlock) (win : SecState) (offset size : Word) :
    (b.scsRead win offset size).2.scs.shcsr = b.scs.shcsr := by
  simp only [scsRead]
  split
  · rfl
  split
  · split
    · rename_i reg _
      cases reg <;> rfl
    · rfl
  · rfl

theorem World.scsRegions_keepShcsr {δ : Type u} (env : Env δ)
    (mmio : env.mmio = World.scsRegions) : env.KeepsShcsr := by
  intro r mem offset size w
  simp only [mmio, World.scsRegions, List.mem_cons, List.not_mem_nil, or_false] at mem
  rcases mem with rfl | rfl <;> exact ScsBlock.scsRead_shcsr _ _ _ _

theorem Prot.interceptor_active (ctx : ProtCtx) (blockSecure : BlockSecure) (scs : Scs)
    (type : AccessType) (sec : SecState) (addr size : Word) :
    Activation.Active (interceptor ctx blockSecure scs type sec addr size).2.shcsr =
      if (interceptor ctx blockSecure scs type sec addr size).1 then Activation.Active scs.shcsr
      else mark (Activation.Active scs.shcsr) ⟨Vect.memmanage, sec⟩ := by
  have recorded (scs : Scs) : Activation.Active (recordMemfault scs sec type addr).shcsr =
      mark (Activation.Active scs.shcsr) ⟨Vect.memmanage, sec⟩ := by
    have bit : Vect.actBit Vect.memmanage = some 0 := by decide
    rw [← Activation.active_set bit scs.shcsr sec, BitVec.shiftLeft_zero]
    rfl
  simp only [interceptor]
  split
  · rfl
  split
  · exact recorded _
  split
  · exact recorded _
  split
  · rfl
  · exact recorded _

namespace World

variable {δ : Type u} (env : Env δ)

abbrev active (w : World δ) : Activation → Prop := Activation.Active w.scs.shcsr

def Spares (w : World δ) (type : AccessType) (sec : SecState) (addr size : Word) : Prop :=
  w.Granted env type sec addr size ∨ w.active ⟨Vect.memmanage, sec⟩

def WritesShcsr (w : World δ) (sec : SecState) (addr size v : Word) : Prop :=
  w.Granted env .write sec addr size ∧ (w.write env sec addr size v).2.scs.shcsr ≠ w.scs.shcsr

instance (w : World δ) (type : AccessType) (sec : SecState) (addr size : Word) :
    Decidable (w.Spares env type sec addr size) := inferInstanceAs (Decidable (_ ∨ _))

instance (w : World δ) (sec : SecState) (addr size v : Word) :
    Decidable (w.WritesShcsr env sec addr size v) := inferInstanceAs (Decidable (_ ∧ _))

variable {env}

theorem setShcsr_active {num : Word} {i : Nat} (bit : Vect.actBit num = some i) (w : World δ)
    (sec : SecState) : (w.setShcsr sec i).active = mark w.active ⟨num, sec⟩ :=
  Activation.active_set bit w.scs.shcsr sec

@[simp] theorem noteQuit_active (w : World δ) : (w.noteQuit env).active = w.active := by
  simp only [noteQuit]
  split <;> rfl

theorem noteMemManage_active (w : World δ) (sec : SecState) (addr : Word) (isExec : Bool) :
    (w.noteMemManage sec addr isExec).active = mark w.active ⟨Vect.memmanage, sec⟩ :=
  setShcsr_active (by decide) _ _

theorem noteEntry_active (w : World δ) (sec : SecState) (num : Word) :
    (w.noteEntry sec num).active =
      if num = Vect.svcall ∨ num = Vect.pendsv ∨ num = Vect.systick then mark w.active ⟨num, sec⟩
      else w.active := by
  simp only [noteEntry]
  split
  · rename_i svcall
    rw [if_pos (.inl svcall), svcall]
    exact setShcsr_active (by decide) _ _
  split
  · rename_i pendsv
    rw [if_pos (.inr (.inl pendsv)), pendsv]
    exact setShcsr_active (by decide) _ _
  split
  · rename_i systick
    rw [if_pos (.inr (.inr systick)), systick]
    exact setShcsr_active (by decide) _ _
  · rename_i svcall pendsv systick
    rw [if_neg (by tauto)]

theorem noteEntry_mark {num : Word}
    (other : num ≠ Vect.memmanage ∧ num ≠ Vect.hardfault ∧ num ≠ Vect.usagefault) (w : World δ)
    (sec : SecState) (k : Activation) (track : k.Tracked) :
    (w.noteEntry sec num).active k ↔ mark w.active ⟨num, sec⟩ k := by
  rw [noteEntry_active]
  split
  · rfl
  · rename_i bare
    refine ⟨.inl, fun marks => ?_⟩
    rcases marks with marks | rfl
    · exact marks
    · simp only [not_or] at bare
      simp only [Activation.Tracked, Vect.actBit, other, bare, if_false] at track
      cases track

theorem interceptOk_active (w : World δ) (type : AccessType) (sec : SecState) (addr size : Word) :
    (w.interceptOk env type sec addr size).2.active =
      if w.Granted env type sec addr size then w.active
      else mark w.active ⟨Vect.memmanage, sec⟩ := by
  cases prot : w.map.prot with
  | none => simp only [Granted, interceptOk, prot, if_true]
  | some ctx =>
    simp only [Granted, interceptOk, prot]
    exact Prot.interceptor_active _ _ _ _ _ _ _

theorem interceptOk_spared {w : World δ} {type : AccessType} {sec : SecState} {addr size : Word}
    (spares : w.Spares env type sec addr size) :
    (w.interceptOk env type sec addr size).2.active = w.active := by
  rw [interceptOk_active]
  rcases spares with granted | already
  · rw [if_pos granted]
  · rw [mark_eq already, ite_self]

theorem busRead_active (keeps : env.KeepsShcsr) (w : World δ) (addr size : Word) :
    (w.busRead env addr size).2.active = w.active := by
  simp only [busRead]
  split
  · rename_i r found
    exact congrArg Activation.Active (keeps r (exists_region found) _ _ _)
  · rfl

theorem read_active (keeps : env.KeepsShcsr) (w : World δ) (sec : SecState) (addr size : Word) :
    (w.read env sec addr size).2.active = (w.interceptOk env .read sec addr size).2.active := by
  simp only [World.read]
  split
  · rfl
  split
  · rfl
  · exact busRead_active keeps _ _ _

theorem read8_active (keeps : env.KeepsShcsr) (w : World δ) (sec : SecState) (addr : Word) :
    (w.read8 env sec addr).2.active = (w.interceptOk env .read sec addr 1).2.active := by
  simp only [read8]
  split
  · rfl
  split
  · rfl
  · exact busRead_active keeps _ _ _

theorem write_active {w : World δ} {sec : SecState} {addr size v : Word}
    (leaves : ¬ w.WritesShcsr env sec addr size v) :
    (w.write env sec addr size v).2.active = (w.interceptOk env .write sec addr size).2.active := by
  by_cases granted : w.Granted env .write sec addr size
  · rw [interceptOk_active, if_pos granted]
    exact congrArg Activation.Active (not_not.mp fun other => leaves ⟨granted, other⟩)
  · have refused : (w.interceptOk env .write sec addr size).1 = false := by
      simpa only [Granted, Bool.not_eq_true] using granted
    simp only [World.write, refused, Bool.not_false, if_true]

theorem granted_of_write {w : World δ} {sec : SecState} {addr size v : Word}
    (done : (w.write env sec addr size v).1 = true) : w.Granted env .write sec addr size := by
  rcases eq : w.interceptOk env .write sec addr size with ⟨_ | _, w'⟩
  · simp only [World.write, eq, Bool.not_false, if_true] at done
    cases done
  · rw [Granted, eq]

theorem granted_of_fetchRead16 {w w' : World δ} {sec : SecState} {addr v : Word}
    (fetch : w.fetchRead16 env sec addr = (some v, w')) : w.Granted env .exec sec addr 2 := by
  rcases eq : w.interceptOk env .exec sec addr 2 with ⟨_ | _, w₁⟩
  · simp only [fetchRead16, eq, Bool.not_false, if_true] at fetch
    cases fetch
  · rw [Granted, eq]

theorem fetchRead16_active (w : World δ) (sec : SecState) (addr : Word) :
    (w.fetchRead16 env sec addr).2.active = (w.interceptOk env .exec sec addr 2).2.active := by
  simp only [fetchRead16]
  split <;> rfl

variable (env) in
def ReadsSpare (w : World δ) (sec : SecState) : List (Word × Word) → Prop
  | [] => True
  | (addr, size) :: rest =>
    w.Spares env .read sec addr size ∧ (w.read env sec addr size).2.ReadsSpare sec rest

variable (env) in
def WordsSpare (w : World δ) (sec : SecState) (addr : Word) : Nat → Prop
  | 0 => True
  | n + 1 =>
    w.Spares env .read sec addr 4 ∧ ((w.read env sec addr 4).1.isSome = true →
      (w.read env sec addr 4).2.WordsSpare sec (addr + 4) n)

variable (env) in
def PushesSpare (w : World δ) (sec : SecState) (sp : Word) : List Word → Prop
  | [] => True
  | v :: rest =>
    w.Spares env .write sec (sp - 4) 4 ∧ ¬ w.WritesShcsr env sec (sp - 4) 4 v ∧
      ((w.write env sec (sp - 4) 4 v).1 = true →
        (w.write env sec (sp - 4) 4 v).2.PushesSpare sec (sp - 4) rest)

instance instDecidableReadsSpare (sec : SecState) :
    ∀ (w : World δ) (reads : List (Word × Word)), Decidable (w.ReadsSpare env sec reads)
  | _, [] => isTrue trivial
  | w, (addr, size) :: rest =>
    have : Decidable ((w.read env sec addr size).2.ReadsSpare env sec rest) :=
      instDecidableReadsSpare sec _ rest
    inferInstanceAs (Decidable (_ ∧ _))

instance instDecidableWordsSpare (sec : SecState) :
    ∀ (w : World δ) (addr : Word) (n : Nat), Decidable (w.WordsSpare env sec addr n)
  | _, _, 0 => isTrue trivial
  | w, addr, n + 1 =>
    have : Decidable ((w.read env sec addr 4).2.WordsSpare env sec (addr + 4) n) :=
      instDecidableWordsSpare sec _ (addr + 4) n
    inferInstanceAs (Decidable (_ ∧ (_ → _)))

instance instDecidablePushesSpare (sec : SecState) :
    ∀ (w : World δ) (sp : Word) (words : List Word), Decidable (w.PushesSpare env sec sp words)
  | _, _, [] => isTrue trivial
  | w, sp, v :: rest =>
    have : Decidable ((w.write env sec (sp - 4) 4 v).2.PushesSpare env sec (sp - 4) rest) :=
      instDecidablePushesSpare sec _ _ rest
    inferInstanceAs (Decidable (_ ∧ ¬ _ ∧ (_ → _)))

theorem read_spared (keeps : env.KeepsShcsr) {w : World δ} {sec : SecState} {addr size : Word}
    (spares : w.Spares env .read sec addr size) :
    (w.read env sec addr size).2.active = w.active :=
  (read_active keeps w sec addr size).trans (interceptOk_spared spares)

theorem afterReads_active (keeps : env.KeepsShcsr) {w : World δ} {sec : SecState}
    {reads : List (Word × Word)} (spare : w.ReadsSpare env sec reads) :
    (w.afterReads env sec reads).active = w.active := by
  induction reads generalizing w with
  | nil => rfl
  | cons read reads ih => exact (ih spare.2).trans (read_spared keeps spare.1)

theorem readWords_active (keeps : env.KeepsShcsr) {w : World δ} {sec : SecState} {addr : Word}
    {n : Nat} (spare : w.WordsSpare env sec addr n) :
    (w.readWords env sec addr n).2.active = w.active := by
  induction n generalizing w addr with
  | zero => rfl
  | succ n ih =>
    obtain ⟨first, rest⟩ := spare
    have first := read_spared keeps first
    rcases eq : w.read env sec addr 4 with ⟨_ | v, w'⟩
    · rw [eq] at first
      simp only [readWords, eq]
      exact first
    · rw [eq] at first rest
      simp only [readWords, eq]
      exact (ih (rest rfl)).trans first

theorem readFrame_active (keeps : env.KeepsShcsr) {w : World δ} {sec : SecState} {sp : Word}
    (spare : w.WordsSpare env sec sp 8) : (w.readFrame env sec sp).2.active = w.active := by
  have words := readWords_active keeps spare
  simp only [readFrame]
  split
  · rename_i eq
    rw [eq] at words
    exact words
  · rename_i eq
    rw [eq] at words
    exact words

theorem pushWords_active {w : World δ} {sec : SecState} {sp : Word} {words : List Word}
    (spare : w.PushesSpare env sec sp words) :
    (w.pushWords env sec sp words).2.active = w.active := by
  induction words generalizing w sp with
  | nil => rfl
  | cons v rest ih =>
    obtain ⟨spares, leaves, rest⟩ := spare
    have first := (write_active leaves).trans (interceptOk_spared spares)
    rcases eq : w.write env sec (sp - 4) 4 v with ⟨_ | _, w'⟩
    · rw [eq] at first
      simp only [pushWords, eq]
      exact first
    · rw [eq] at first rest
      simp only [pushWords, eq]
      exact (ih (rest rfl)).trans first

end World

def Sys.ActiveMarked {δ : Type u} (s : Sys δ) : Prop :=
  Marks Activation.Tracked s.world.active (entered s.trace)

namespace Sys

variable {δ : Type u} (env : Env δ)

def FrameMatched (s : Sys δ) (before : Banked Word) (num returnPc xpsrIn : Word) : Prop :=
  let sec := s.cpu.secState
  let sp := s.cpu.bankSp sec s.cpu.usePspEntry
  let f := s.cpu.frame returnPc xpsrIn
  s.world.PushesSpare env sec sp f.words.reverse ∧
    ((s.world.pushFrame env sec sp f).1.isSome = true ∨
      (Activation.Tracked ⟨num, sec⟩ → Activation.Active before ⟨num, sec⟩))

instance (s : Sys δ) (before : Banked Word) (num returnPc xpsrIn : Word) :
    Decidable (s.FrameMatched env before num returnPc xpsrIn) :=
  inferInstanceAs (Decidable (_ ∧ (_ ∨ (_ → _))))

/-- The vector fetch and the frame of `enter_exception_ex`. -/
def EntryMatched (s : Sys δ) (before : Banked Word) (num returnPc xpsrIn : Word)
    (handlerSec : SecState) : Prop :=
  let vector := s.world.scs.vtor.get handlerSec + num * 4
  let w := (s.world.read env handlerSec vector 4).2
  s.world.Spares env .read handlerSec vector 4 ∧
    { s with world := w.noteEntry s.cpu.secState num }.FrameMatched env before num returnPc xpsrIn

instance (s : Sys δ) (before : Banked Word) (num returnPc xpsrIn : Word) (handlerSec : SecState) :
    Decidable (s.EntryMatched env before num returnPc xpsrIn handlerSec) :=
  inferInstanceAs (Decidable (_ ∧ _))

/-- The reads and the frame of `raise_hard_fault`. -/
def HardFaultMatched (s : Sys δ) (faultPc faultXpsr : Word) : Prop :=
  let reads := s.hardFaultReads env faultPc
  let w := s.hardFaultWorld.afterReads env s.cpu.secState reads
  s.hardFaultWorld.ReadsSpare env s.cpu.secState reads ∧
    { s with world := w.noteQuit env }.FrameMatched env s.world.scs.shcsr Vect.hardfault faultPc
      faultXpsr

instance (s : Sys δ) (faultPc faultXpsr : Word) :
    Decidable (s.HardFaultMatched env faultPc faultXpsr) := inferInstanceAs (Decidable (_ ∧ _))

/-- The same of `raise_usage_fault`, which enters nothing where faults end the program. -/
def UsageFaultMatched (s : Sys δ) (faultPc faultXpsr ufsrBits : Word) : Prop :=
  let sec := s.cpu.secState
  let reads := s.usageFaultReads env faultPc ufsrBits
  let w := (s.usageFaultWorld ufsrBits).afterReads env sec reads
  (s.usageFaultWorld ufsrBits).ReadsSpare env sec reads ∧
    if env.quitOnFaults then s.world.active ⟨Vect.usagefault, sec⟩
    else { s with world := w }.FrameMatched env s.world.scs.shcsr Vect.usagefault faultPc faultXpsr

instance (s : Sys δ) (faultPc faultXpsr ufsrBits : Word) :
    Decidable (s.UsageFaultMatched env faultPc faultXpsr ufsrBits) :=
  inferInstanceAs (Decidable (_ ∧ ite _ _ _))

/-- What `raise_mem_fault` does after an access that was `granted` or not: MEMFAULTACT was set
before, or goes with an entry to MemManage. -/
def MemFaultMatched (s : Sys δ) (before : Banked Word) (granted : Prop)
    (faultPc faultXpsr addr : Word) (isExec : Bool) : Prop :=
  let sec := s.cpu.secState
  let w := s.world.noteQuit env
  let noted := { s with world := w.noteMemManage sec addr isExec }
  if sec = .secure ∧ w.scs.securefaultPending = true then
    (granted ∨ Activation.Active before ⟨Vect.memmanage, sec⟩) ∧
      { s with world := { w with scs := { w.scs with securefaultPending := false } } }.EntryMatched
        env before Vect.securefault faultPc faultXpsr .secure
  else if (noted.world.scs.shcsr.get sec).getLsbD 16 then
    noted.EntryMatched env before Vect.memmanage faultPc faultXpsr sec
  else
    Activation.Active before ⟨Vect.memmanage, sec⟩ ∧ noted.HardFaultMatched env faultPc faultXpsr

instance (s : Sys δ) (before : Banked Word) (granted : Prop) [Decidable granted]
    (faultPc faultXpsr addr : Word) (isExec : Bool) :
    Decidable (s.MemFaultMatched env before granted faultPc faultXpsr addr isExec) :=
  inferInstanceAs (Decidable (ite _ (_ ∧ _) (ite _ _ (_ ∧ _))))

/-- The reads of the frame by `exc_return_unstack`; the exception that ends has no active bit, or
has been entered once more further out. -/
def UnstackMatched (s : Sys δ) (excRet : Word) : Prop :=
  ∀ info ∈ excReturnDecode excRet,
    s.world.WordsSpare env info.targetSec (s.cpu.unstackSp info) 8 ∧
      ((s.world.readFrame env info.targetSec (s.cpu.unstackSp info)).1.isSome = true →
        ∀ k ∈ (entered s.trace).head?, k.Tracked → k ∈ (entered s.trace).tail)

instance (s : Sys δ) (excRet : Word) : Decidable (s.UnstackMatched env excRet) :=
  inferInstanceAs (Decidable (∀ info ∈ excReturnDecode excRet,
    s.world.WordsSpare env info.targetSec (s.cpu.unstackSp info) 8 ∧ (_ → _)))

variable {env}

theorem enter_marked {s : Sys δ} {w : World δ} {before : Banked Word} {num returnPc xpsrIn : Word}
    (marks : Marks Activation.Tracked (Activation.Active before) (entered s.trace))
    (noted : ∀ k : Activation, k.Tracked →
      (w.active k ↔ mark (Activation.Active before) ⟨num, s.cpu.secState⟩ k))
    (matched : { s with world := w }.FrameMatched env before num returnPc xpsrIn)
    (xpsr handler : Word) (sec : SecState) :
    ({ s with world := w }.enter env num returnPc xpsrIn xpsr handler sec).2.ActiveMarked := by
  obtain ⟨spare, pushed⟩ := matched
  have same := World.pushWords_active spare
  simp only [enter]
  split
  · rename_i sp w' eq
    have same : w'.active = w.active := (congrArg (·.2.active) eq).symm.trans same
    refine (marks.push ⟨num, s.cpu.secState⟩).congr fun k track => ?_
    exact same ▸ noted k track
  · rename_i w' eq
    have same : w'.active = w.active := (congrArg (·.2.active) eq).symm.trans same
    rw [eq] at pushed
    refine (marks.again (pushed.resolve_left (fun is => by cases is))).congr fun k track => ?_
    exact same ▸ noted k track

theorem enterExceptionEx_marked (keeps : env.KeepsShcsr) {s : Sys δ} {w : World δ}
    {before : Banked Word} {num returnPc xpsrIn : Word} {sec : SecState}
    (marks : Marks Activation.Tracked (Activation.Active before) (entered s.trace))
    (noted : ∀ k : Activation, k.Tracked → ((w.noteEntry s.cpu.secState num).active k ↔
      mark (Activation.Active before) ⟨num, s.cpu.secState⟩ k))
    (matched : { s with world := w }.EntryMatched env before num returnPc xpsrIn sec) :
    ({ s with world := w }.enterExceptionEx env num returnPc xpsrIn sec).2.ActiveMarked := by
  obtain ⟨vector, frame⟩ := matched
  have fetch := World.read_spared keeps vector
  obtain ⟨handler, eq⟩ := exists_enterExceptionEx_eq env { s with world := w } num returnPc xpsrIn
    sec
  have marked := enter_marked marks (fun k track => ?_) frame
    ((xpsrIn &&& 0xF8000000) ||| 0x01000000 ||| (num &&& 0x1FF)) handler sec
  · rw [eq]
    dsimp only
    split <;> exact marked
  · rw [World.noteEntry_active, fetch, ← World.noteEntry_active]
    exact noted k track

theorem hardFaultWorld_active (s : Sys δ) :
    s.hardFaultWorld.active = mark s.world.active ⟨Vect.hardfault, s.cpu.secState⟩ :=
  World.setShcsr_active (by decide) _ _

theorem usageFaultWorld_active (s : Sys δ) (ufsrBits : Word) :
    (s.usageFaultWorld ufsrBits).active =
      mark s.world.active ⟨Vect.usagefault, s.cpu.secState⟩ :=
  World.setShcsr_active (by decide) _ _

theorem raiseHardFault_marked (keeps : env.KeepsShcsr) {s : Sys δ} {faultPc faultXpsr : Word}
    (marked : s.ActiveMarked) (matched : s.HardFaultMatched env faultPc faultXpsr) :
    (s.raiseHardFault env faultPc faultXpsr).2.ActiveMarked := by
  obtain ⟨reads, frame⟩ := matched
  have noted := (World.afterReads_active keeps reads).trans (hardFaultWorld_active s)
  rw [raiseHardFault_eq]
  refine enter_marked marked (fun k _ => ?_) frame _ _ _
  rw [World.noteQuit_active, noted]

theorem raiseUsageFault_marked (keeps : env.KeepsShcsr) {s : Sys δ}
    {faultPc faultXpsr ufsrBits : Word} (marked : s.ActiveMarked)
    (matched : s.UsageFaultMatched env faultPc faultXpsr ufsrBits) :
    (s.raiseUsageFault env faultPc faultXpsr ufsrBits).2.ActiveMarked := by
  obtain ⟨reads, frame⟩ := matched
  have noted := (World.afterReads_active keeps reads).trans (usageFaultWorld_active s ufsrBits)
  rw [raiseUsageFault_eq]
  cases quit : env.quitOnFaults with
  | true =>
    rw [quit, if_pos rfl] at frame
    simp only [if_true]
    exact (marked.again fun _ => frame).congr fun k _ => Iff.of_eq (congrFun noted k)
  | false =>
    rw [quit, if_neg Bool.false_ne_true] at frame
    simp only [Bool.false_eq_true, if_false]
    exact enter_marked marked (fun k _ => Iff.of_eq (congrFun noted k)) frame _ _ _

theorem raiseMemFault_marked (keeps : env.KeepsShcsr) {s : Sys δ} {before : Banked Word}
    {granted : Prop} {faultPc faultXpsr addr : Word} {isExec : Bool}
    (marks : Marks Activation.Tracked (Activation.Active before) (entered s.trace))
    (let_through : granted → s.world.active = Activation.Active before)
    (refused : ¬ granted →
      s.world.active = mark (Activation.Active before) ⟨Vect.memmanage, s.cpu.secState⟩)
    (matched : s.MemFaultMatched env before granted faultPc faultXpsr addr isExec) :
    (s.raiseMemFault env faultPc faultXpsr addr isExec).2.ActiveMarked := by
  -- with the bit that `raise_mem_fault` itself sets, it is the same whoever refused
  have noted : ((s.world.noteQuit env).noteMemManage s.cpu.secState addr isExec).active =
      mark (Activation.Active before) ⟨Vect.memmanage, s.cpu.secState⟩ := by
    rw [World.noteMemManage_active, World.noteQuit_active]
    by_cases through : granted
    · rw [let_through through]
    · rw [refused through]
      exact mark_eq (.inr rfl)
  simp only [MemFaultMatched] at matched
  simp only [raiseMemFault]
  split at matched
  · rename_i secureFault
    rw [if_pos secureFault]
    obtain ⟨spares, entry⟩ := matched
    have same : (s.world.noteQuit env).active = Activation.Active before := by
      rw [World.noteQuit_active]
      by_cases through : granted
      · exact let_through through
      · rw [refused through, mark_eq (spares.resolve_left through)]
    refine enterExceptionEx_marked keeps marks (fun k track => ?_) entry
    rw [World.noteEntry_mark (by decide) _ _ _ track, ← same]
  rename_i none
  rw [if_neg none]
  split at matched
  · rename_i enabled
    rw [if_pos enabled]
    refine enterExceptionEx_marked keeps marks (fun k _ => ?_) matched
    rw [World.noteEntry_active, if_neg (by decide), noted]
  · rename_i disabled
    rw [if_neg disabled]
    obtain ⟨already, hardFault⟩ := matched
    refine raiseHardFault_marked keeps (marks.congr fun k _ => ?_) hardFault
    rw [noted, mark_eq already]

theorem excReturnUnstack_marked (keeps : env.KeepsShcsr) {s : Sys δ} {excRet : Word}
    (marked : s.ActiveMarked) (matched : s.UnstackMatched env excRet) :
    (s.excReturnUnstack env excRet).2.ActiveMarked := by
  simp only [excReturnUnstack]
  split
  · exact marked
  rename_i info decoded
  obtain ⟨spare, returns⟩ := matched info decoded
  have frame := World.readFrame_active keeps spare
  split
  · rename_i f w eq
    rw [eq] at frame returns
    refine Marks.congr ?_ fun k _ => Iff.of_eq (congrFun frame k)
    simp only [entered]
    cases stack : entered s.trace with
    | nil =>
      rw [ActiveMarked, stack] at marked
      exact marked
    | cons k outer =>
      rw [ActiveMarked, stack] at marked
      rw [stack] at returns
      exact marked.tail_iff.mpr (returns rfl k rfl)
  · rename_i w eq
    rw [eq] at frame
    exact marked.congr fun k _ => Iff.of_eq (congrFun frame k)

end Sys

end M33mu
