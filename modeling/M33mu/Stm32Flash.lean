import M33mu.FlashPersist
import M33mu.Lib.Bits
import M33mu.Lib.RegFile
import M33mu.Memmap

namespace M33mu

open Lib

/-- `flash_state`. Both control registers have the same fields, at the offsets that their state has;
a null buffer is one of size zero, and a null `persist` one that is not enabled. -/
structure Stm32Flash (π : Type u) where
  regs : RegFile
  flash : Word → Byte
  flashSize : Word
  baseS : Word
  baseNs : Word
  persist : FlashPersist π
  /-- `MM_TARGET_FLAG_NVM_WRITEONCE` of `flags`. -/
  writeOnce : Bool
  /-- `ns_key_stage` and `sec_key_stage`, each zero or one. -/
  keyStage : Banked Bool
  files : π → List Byte

namespace Stm32Flash

def base : Word := 0x40022000

def secBase : Word := 0x50022000

def size : Word := 0x400

def acr : Word := 0x000

def keyr : SecState → Word
  | .nonsecure => 0x004
  | .secure => 0x008

def sr : SecState → Word
  | .nonsecure => 0x020
  | .secure => 0x024

def cr : SecState → Word
  | .nonsecure => 0x028
  | .secure => 0x02c

def ccr : SecState → Word
  | .nonsecure => 0x030
  | .secure => 0x034

def key1 : Word := 0x45670123

def key2 : Word := 0xCDEF89AB

def flagBsy : Word := 0x1

def flagEop : Word := 0x10000

def crLock : Word := 0x1

def crPg : Word := 0x2

def crSer : Word := 0x4

def crBer : Word := 0x8

def crStrt : Word := 0x20

def crSnbMask : Word := 0x1fc0

def crBksel : Word := 0x80000000

def start {π : Type u} (flash : Word → Byte) (flashSize baseS baseNs : Word)
    (persist : FlashPersist π) (writeOnce : Bool) (files : π → List Byte) : Stm32Flash π where
  regs := ((RegFile.zero.setWord acr.toNat 0x13).setWord (cr .nonsecure).toNat 1).setWord
    (cr .secure).toNat 1
  flash := flash
  flashSize := flashSize
  baseS := baseS
  baseNs := baseNs
  persist := persist
  writeOnce := writeOnce
  keyStage := .both false
  files := files

variable {π : Type u}

def reg (s : Stm32Flash π) (off : Word) : Word := s.regs.word off.toNat

def setReg (s : Stm32Flash π) (off v : Word) : Stm32Flash π :=
  { s with regs := s.regs.setWord off.toNat v }

/-- `flash_sector_size`. -/
def sectorSize (s : Stm32Flash π) : Word :=
  if s.flashSize = 0 then 0
  else
    let banks : Word := if s.flashSize % 2 ≠ 0 then 1 else 2
    s.flashSize / banks / 128

def setBusy (s : Stm32Flash π) (off : Word) (busy : Bool) : Stm32Flash π :=
  s.setReg off (if busy then s.reg off ||| flagBsy else s.reg off &&& ~~~flagBsy)

def setEop (s : Stm32Flash π) (off : Word) : Stm32Flash π :=
  s.setReg off (s.reg off ||| flagEop)

def clearEop (s : Stm32Flash π) (off : Word) : Stm32Flash π :=
  s.setReg off (s.reg off &&& ~~~flagEop)

def isUnlocked (s : Stm32Flash π) (c : SecState) : Bool := s.reg (cr c) &&& crLock = 0

/-- `flash_handle_key`. -/
def handleKey (s : Stm32Flash π) (c : SecState) (value : Word) : Stm32Flash π :=
  if s.keyStage.get c = false then { s with keyStage := s.keyStage.set c (value = key1) }
  else
    let s := if value = key2 then s.setReg (cr c) (s.reg (cr c) &&& ~~~crLock) else s
    { s with keyStage := s.keyStage.set c false }

section

variable [DecidableEq π]

def persistFlush (s : Stm32Flash π) (addr n : Word) : Stm32Flash π :=
  { s with files := s.persist.flush s.flash s.files addr n }

def eraseRange (s : Stm32Flash π) (cr : Word) : Option (Word × Word) :=
  if cr &&& crBer ≠ 0 then some (0, s.flashSize)
  else if cr &&& crSer ≠ 0 then
    let snb := (cr &&& crSnbMask) >>> 6
    let first := snb * s.sectorSize
    let bankSize := s.flashSize / 2
    let first := if bankSize ≠ 0 ∧ cr &&& crBksel ≠ 0 then first + bankSize else first
    if s.flashSize ≤ first then none
    else if s.flashSize < first + s.sectorSize then some (first, s.flashSize - first)
    else some (first, s.sectorSize)
  else none

/-- `memset(flash + first, 0xFF, n)`. -/
def fill (flash : Word → Byte) (first n : Word) : Word → Byte := fun addr =>
  if first ≤ addr ∧ addr.toNat < first.toNat + n.toNat then 0xFF else flash addr

/-- `flash_apply_erase`. -/
def applyErase (s : Stm32Flash π) (c : SecState) : Stm32Flash π :=
  if s.flashSize = 0 ∨ s.sectorSize = 0 then s
  else
    match s.eraseRange (s.reg (cr c)) with
    | none => s
    | some (first, n) =>
      let s := s.setBusy (sr c) true
      let s := { s with flash := fill s.flash first n }
      let s := (s.setBusy (sr c) false).setEop (sr c)
      s.persistFlush first n

def offsetOf (s : Stm32Flash π) (addr : Word) : Option Word :=
  if s.baseS ≤ addr ∧ addr < s.baseS + s.flashSize then some (addr - s.baseS)
  else if s.baseNs ≤ addr ∧ addr < s.baseNs + s.flashSize then some (addr - s.baseNs)
  else none

def sectorWritten (s : Stm32Flash π) (offset : Word) : Bool :=
  let first := offset / s.sectorSize * s.sectorSize
  (List.range s.sectorSize.toNat).any fun i =>
    first + BitVec.ofNat 32 i < s.flashSize && s.flash (first + BitVec.ofNat 32 i) ≠ 0xFF

/-- `flash_write_cb`. -/
def writeCb (s : Stm32Flash π) (sec : SecState) (addr n value : Word) : Bool × Stm32Flash π :=
  if s.flashSize = 0 then (false, s)
  else
    match s.offsetOf addr with
    | none => (false, s)
    | some offset =>
      if s.flashSize < offset + n then (false, s)
      else if s.isUnlocked sec = false then (true, s)
      else if s.reg (cr sec) &&& crPg = 0 then (true, s)
      else if s.writeOnce = true ∧ s.sectorSize ≠ 0 ∧ s.sectorWritten offset = true then (true, s)
      else
        match Memmap.writeBufLe s.flash offset n value with
        | none => (false, s)
        | some flash => (true, ({ s with flash := flash }.setEop (sr sec)).persistFlush offset n)

def which (regs : SecState → Word) (offset : Word) : Option SecState :=
  if offset = regs .nonsecure then some .nonsecure
  else if offset = regs .secure then some .secure
  else none

def writeControl (s : Stm32Flash π) (c : SecState) (n value : Word) : Stm32Flash π :=
  if s.isUnlocked c = false ∧ value &&& crLock = 0 then s
  else
    let s := { s with regs := s.regs.copy (cr c).toNat n.toNat value }
    let s := if value &&& crLock ≠ 0 then s.setReg (cr c) (s.reg (cr c) ||| crLock) else s
    if value &&& crStrt ≠ 0 then
      let s := s.applyErase c
      s.setReg (cr c) (s.reg (cr c) &&& ~~~crStrt)
    else s

/-- `flash_write`. -/
def write (s : Stm32Flash π) (offset n value : Word) : Bool × Stm32Flash π :=
  if n = 0 ∨ 4 < n then (false, s)
  else if size < offset + n then (false, s)
  else
    match which keyr offset with
    | some c => (true, s.handleKey c value)
    | none =>
      match which ccr offset with
      | some c => (true, if value &&& flagEop ≠ 0 then s.clearEop (sr c) else s)
      | none =>
        match which cr offset with
        | some c => (true, s.writeControl c n value)
        | none => (true, { s with regs := s.regs.copy offset.toNat n.toNat value })

def regOffset (addr : Word) : Option Word :=
  if base ≤ addr ∧ addr - base < size then some (addr - base)
  else if secBase ≤ addr ∧ addr - secBase < size then some (addr - secBase)
  else none

inductive Op
  | write (addr n value : Word)
  | store (sec : SecState) (addr n value : Word)
  deriving DecidableEq, Repr

def step (s : Stm32Flash π) : Op → Stm32Flash π
  | .write addr n value =>
    match regOffset addr with
    | some offset => (s.write offset n value).2
    | none => s
  | .store sec addr n value => (s.writeCb sec addr n value).2

end

theorem isUnlocked_congr {s t : Stm32Flash π} {c : SecState} (same : t.reg (cr c) = s.reg (cr c)) :
    t.isUnlocked c = s.isUnlocked c := by
  rw [isUnlocked, isUnlocked, same]

theorem reg_setReg_self (s : Stm32Flash π) (off v : Word) : (s.setReg off v).reg off = v :=
  s.regs.word_setWord off.toNat v

theorem reg_setReg_of_apart (s : Stm32Flash π) {off off' : Word} (v : Word)
    (apart : off'.toNat + 4 ≤ off.toNat ∨ off.toNat + 4 ≤ off'.toNat) :
    (s.setReg off v).reg off' = s.reg off' :=
  s.regs.word_setWord_of_apart v apart

theorem cr_apart_sr (c d : SecState) : (cr c).toNat + 4 ≤ (sr d).toNat ∨
    (sr d).toNat + 4 ≤ (cr c).toNat := by
  cases c <;> cases d <;> decide

theorem cr_apart {c d : SecState} (ne : c ≠ d) : (cr c).toNat + 4 ≤ (cr d).toNat ∨
    (cr d).toNat + 4 ≤ (cr c).toNat := by
  cases c <;> cases d <;> first | exact absurd rfl ne | decide

theorem reg_cr_setReg_sr (s : Stm32Flash π) (c d : SecState) (v : Word) :
    (s.setReg (sr d) v).reg (cr c) = s.reg (cr c) :=
  s.reg_setReg_of_apart v (cr_apart_sr c d)

theorem reg_cr_setReg_cr (s : Stm32Flash π) {c d : SecState} (ne : c ≠ d) (v : Word) :
    (s.setReg (cr d) v).reg (cr c) = s.reg (cr c) :=
  s.reg_setReg_of_apart v (cr_apart ne)

theorem reg_cr_start (flash : Word → Byte) (flashSize baseS baseNs : Word)
    (persist : FlashPersist π) (writeOnce : Bool) (files : π → List Byte) (c : SecState) :
    (start flash flashSize baseS baseNs persist writeOnce files).reg (cr c) = crLock := by
  cases c with
  | secure => exact RegFile.word_setWord ..
  | nonsecure =>
    refine (RegFile.word_setWord_of_apart _ _ ?_).trans (RegFile.word_setWord ..)
    decide

theorem isUnlocked_start (flash : Word → Byte) (flashSize baseS baseNs : Word)
    (persist : FlashPersist π) (writeOnce : Bool) (files : π → List Byte) (c : SecState) :
    (start flash flashSize baseS baseNs persist writeOnce files).isUnlocked c = false := by
  rw [isUnlocked, reg_cr_start]
  decide

theorem isUnlocked_of_reg {s : Stm32Flash π} {c : SecState} {v : Word}
    (clear : s.reg (cr c) = v &&& ~~~crLock) : s.isUnlocked c = true := by
  have none' : v &&& ~~~crLock &&& crLock = 0 := by
    rw [BitVec.and_assoc]
    exact BitVec.and_zero
  rw [isUnlocked, clear, none']
  rfl

theorem or_crLock_of_locked {s : Stm32Flash π} {c : SecState} (set : s.isUnlocked c = false) :
    s.reg (cr c) ||| crLock = s.reg (cr c) := by
  have bit : (s.reg (cr c)).getLsbD 0 = true := by
    by_contra clear
    refine of_decide_eq_false set ?_
    have mask := BitVec.and_twoPow (s.reg (cr c)) 0
    rwa [if_neg clear] at mask
  exact or_twoPow_of_getLsbD bit

theorem cr_inj {c d : SecState} (same : cr c = cr d) : c = d := by
  cases c <;> cases d <;> first | rfl | exact absurd same (by decide)

theorem which_cr (c : SecState) : which cr (cr c) = some c := by
  cases c <;> rfl

theorem which_eq_some {regs : SecState → Word} {off : Word} {c : SecState}
    (here : which regs off = some c) : off = regs c := by
  rw [which] at here
  split at here
  · cases here
    assumption
  split at here
  · cases here
    assumption
  · cases here

theorem flash_handleKey (s : Stm32Flash π) (c : SecState) (value : Word) :
    (s.handleKey c value).flash = s.flash := by
  rw [handleKey]
  split
  · rfl
  · dsimp only
    split <;> rfl

theorem reg_handleKey_unlocks (s : Stm32Flash π) {d : SecState} {value : Word}
    (staged : s.keyStage.get d = true) (second : value = key2) :
    (s.handleKey d value).reg (cr d) = s.reg (cr d) &&& ~~~crLock ∧
      ∀ c, c ≠ d → (s.handleKey d value).reg (cr c) = s.reg (cr c) := by
  have eq : s.handleKey d value = { s.setReg (cr d) (s.reg (cr d) &&& ~~~crLock) with
      keyStage := s.keyStage.set d false } := by
    rw [handleKey, staged, if_neg nofun, if_pos second]
    rfl
  rw [eq]
  exact ⟨reg_setReg_self .., fun c other => s.reg_cr_setReg_cr other _⟩

theorem reg_handleKey_keeps (s : Stm32Flash π) {d : SecState} {value : Word}
    (keeps : ¬ (s.keyStage.get d = true ∧ value = key2)) (off : Word) :
    (s.handleKey d value).reg off = s.reg off := by
  rw [handleKey]
  split
  · rfl
  · rename_i staged
    dsimp only
    rw [if_neg fun second => keeps ⟨eq_true_of_ne_false staged, second⟩]
    rfl

section

variable [DecidableEq π]

theorem reg_cr_applyErase (s : Stm32Flash π) (c d : SecState) :
    (s.applyErase d).reg (cr c) = s.reg (cr c) := by
  rw [applyErase]
  split
  · rfl
  split
  · rfl
  · rename_i first n _
    dsimp only
    have busy := s.reg_cr_setReg_sr c d (s.reg (sr d) ||| flagBsy)
    generalize hs : s.setBusy (sr d) true = t
    rw [setBusy, if_pos rfl] at hs
    rw [hs] at busy
    have idle := reg_cr_setReg_sr { t with flash := fill t.flash first n } c d
    exact (reg_cr_setReg_sr _ c d _).trans ((idle _).trans busy)

theorem reg_cr_writeCb (s : Stm32Flash π) (c sec : SecState) (addr n value : Word) :
    (s.writeCb sec addr n value).2.reg (cr c) = s.reg (cr c) := by
  rw [writeCb]
  split
  · rfl
  split
  · rfl
  split
  · rfl
  split
  · rfl
  split
  · rfl
  split
  · rfl
  split
  · rfl
  · exact reg_cr_setReg_sr _ c sec _

theorem reg_writeControl_of_ne (s : Stm32Flash π) {c d : SecState} {n value : Word} (small : n ≤ 4)
    (other : c ≠ d) : (s.writeControl d n value).reg (cr c) = s.reg (cr c) := by
  have apart := cr_apart other
  have bound := BitVec.le_def.mp small
  have copied : ({ s with regs := s.regs.copy (cr d).toNat n.toNat value }).reg (cr c) =
      s.reg (cr c) := by
    refine RegFile.word_copy_of_apart _ _ ?_
    change n.toNat ≤ 4 at bound
    omega
  rw [writeControl]
  split
  · rfl
  dsimp only
  have locked (t : Stm32Flash π) : (if value &&& crLock ≠ 0 then
      t.setReg (cr d) (t.reg (cr d) ||| crLock) else t).reg (cr c) = t.reg (cr c) := by
    split
    · exact t.reg_cr_setReg_cr other _
    · rfl
  split
  · rw [reg_cr_setReg_cr _ other, reg_cr_applyErase, locked, copied]
  · rw [locked, copied]

theorem isUnlocked_of_writeCb {s : Stm32Flash π} {sec : SecState} {addr n value : Word}
    (changes : (s.writeCb sec addr n value).2.flash ≠ s.flash) : s.isUnlocked sec = true := by
  by_contra locked
  refine changes ?_
  rw [writeCb, eq_false_of_ne_true locked]
  split
  · rfl
  split
  · rfl
  split
  · rfl
  · rw [if_pos rfl]

end

end Stm32Flash

end M33mu
