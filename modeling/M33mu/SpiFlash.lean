import Mathlib.Data.List.Basic
import M33mu.Lib.Bits
import M33mu.Lib.Run
import M33mu.Types

/-!
The SPI flash device, `mm_spiflash_xfer` and `mm_spiflash_cs_deassert`: a state machine that gets
its commands byte by byte.
-/

namespace M33mu

inductive SpiFlashState
  | idle
  | addr
  | read
  | pp
  | statusRead
  | statusWrite
  deriving DecidableEq, Repr

structure SpiFlash where
  size : Word
  data : Word → Byte
  locked : Bool
  writeEnable : Bool
  /-- Block protection bits (BP2..BP0). -/
  statusBp : Byte
  cmd : Byte
  addr : Word
  pageBase : Word
  dummyLeft : Nat
  addrBytes : Nat → Byte
  addrNeed : Nat
  addrHave : Nat
  state : SpiFlashState

namespace SpiFlash

/-- The device as `mm_spiflash_register_cfg` attaches it, over the image in its file. -/
def attach (size : Word) (image : Word → Byte) : SpiFlash where
  size := size
  data := image
  locked := false
  writeEnable := false
  statusBp := 0
  cmd := 0
  addr := 0
  pageBase := 0
  dummyLeft := 0
  addrBytes _ := 0
  addrNeed := 0
  addrHave := 0
  state := .idle

def setLocked (s : SpiFlash) (locked : Bool) : SpiFlash := { s with locked := locked }

def setBp (s : SpiFlash) (bp : Byte) : SpiFlash :=
  let s := { s with statusBp := bp &&& 0x1C }
  s.setLocked (s.statusBp ≠ 0)

def status (s : SpiFlash) : Byte := (if s.writeEnable then 0x02 else 0) ||| s.statusBp

/-- The range is cut off at the end of the flash, not wrapped. -/
def eraseRange (s : SpiFlash) (addr size : Word) : SpiFlash :=
  let stop := addr + size
  if size = 0 ∨ stop < addr ∨ s.size ≤ addr then s
  else
    let stop := if s.size < stop then s.size else stop
    { s with data := fun i => if addr ≤ i ∧ i < stop then 0xFF else s.data i }

def readByte (s : SpiFlash) (addr : Word) : Byte :=
  if s.size = 0 then 0xFF else s.data (addr % s.size)

def erase (s : SpiFlash) (addr size : Word) : SpiFlash :=
  if s.writeEnable then { s.eraseRange addr size with writeEnable := false } else s

def command (s : SpiFlash) (out : Byte) : Byte × SpiFlash :=
  let s := { s with cmd := out, addr := 0, addrHave := 0, addrNeed := 0 }
  if out = 0x06 then (0xFF, { s with writeEnable := true })
  else if out = 0x04 then (0xFF, { s with writeEnable := false })
  else if out = 0x05 then (s.status, { s with state := .statusRead })
  else if out = 0x01 then (0xFF, { s with state := .statusWrite })
  else if out = 0x9F then (0xC2, { s with state := .read })
  else if out = 0x03 ∨ out = 0x0B then (0xFF, { s with addrNeed := 3, state := .addr })
  else if out = 0x02 then (0xFF, { s with addrNeed := 3, state := .addr })
  else if out = 0x20 ∨ out = 0xD8 then (0xFF, { s with addrNeed := 3, state := .addr })
  else if out = 0xC7 ∨ out = 0x60 then (0xFF, s.erase 0 s.size)
  else (0xFF, s)

def addressOf (a b c : Byte) : Word :=
  (a.setWidth 32 <<< 16) ||| (b.setWidth 32 <<< 8) ||| c.setWidth 32

def addressed (s : SpiFlash) : SpiFlash :=
  if s.cmd = 0x03 ∨ s.cmd = 0x0B then
    { s with dummyLeft := if s.cmd = 0x0B then 1 else 0, state := .read }
  else if s.cmd = 0x02 then { s with state := .pp }
  else if s.cmd = 0x20 then { s.erase (s.addr &&& ~~~0xFFF) 0x1000 with state := .idle }
  else if s.cmd = 0xD8 then { s.erase (s.addr &&& ~~~0xFFFF) 0x10000 with state := .idle }
  else { s with state := .idle }

def addressByte (s : SpiFlash) (out : Byte) : SpiFlash :=
  let s := { s with
    addrBytes := Function.update s.addrBytes s.addrHave out
    addrHave := s.addrHave + 1 }
  if s.addrNeed ≤ s.addrHave then
    let addr := addressOf (s.addrBytes 0) (s.addrBytes 1) (s.addrBytes 2)
    addressed { s with addr := addr, pageBase := addr &&& ~~~0xFF }
  else s

def readNext (s : SpiFlash) : Byte × SpiFlash :=
  if s.cmd = 0x9F then
    (if s.addr = 0 then 0xC2 else if s.addr = 1 then 0x20 else 0x18, { s with addr := s.addr + 1 })
  else if 0 < s.dummyLeft then (0xFF, { s with dummyLeft := s.dummyLeft - 1 })
  else (s.readByte s.addr, { s with addr := s.addr + 1 })

def programByte (s : SpiFlash) (out : Byte) : SpiFlash :=
  let idx := s.addr % s.size
  let next := s.addr + 1
  { s with
    data := if s.writeEnable then Function.update s.data idx (s.data idx &&& out) else s.data
    addr := if next &&& ~~~0xFF ≠ s.pageBase then s.pageBase else next }

/-- `mm_spiflash_xfer`. -/
def xfer (s : SpiFlash) (out : Byte) : Byte × SpiFlash :=
  match s.state with
  | .idle => s.command out
  | .addr => (0xFF, s.addressByte out)
  | .read => s.readNext
  | .pp => (0xFF, s.programByte out)
  | .statusRead => (s.status, s)
  | .statusWrite =>
    let s := if s.writeEnable then { s.setBp (out &&& 0x1C) with writeEnable := false } else s
    (0xFF, { s with state := .idle })

/-- `mm_spiflash_cs_deassert`. -/
def csDeassert (s : SpiFlash) : SpiFlash :=
  { s with
    writeEnable := if s.cmd = 0x02 then false else s.writeEnable
    state := .idle
    cmd := 0
    addr := 0
    addrHave := 0
    addrNeed := 0
    dummyLeft := 0 }

inductive Event
  | byte (out : Byte)
  | deassert
  deriving DecidableEq, Repr

def step (s : SpiFlash) : Event → SpiFlash
  | .byte out => (s.xfer out).2
  | .deassert => s.csDeassert

/-- How many bytes follow the first byte of a command; the commands without a count go on until
chip select is deasserted. -/
def argCount (op : Byte) : Option Nat :=
  if op = 0x05 ∨ op = 0x9F ∨ op = 0x03 ∨ op = 0x0B ∨ op = 0x02 then none
  else if op = 0x01 then some 1
  else if op = 0x20 ∨ op = 0xD8 then some 3
  else some 0

def advance (bytes : List Byte) : Event → List Byte
  | .byte out =>
    if (bytes ++ [out]).head?.bind argCount = some bytes.length then [] else bytes ++ [out]
  | .deassert => []

def pageAddress (start : Word) (k : Nat) : Word :=
  (start &&& ~~~0xFF) + ((start + BitVec.ofNat 32 k) &&& 0xFF)

inductive Selects (size : Word) : List Byte → Word → Prop
  | program (a b c : Byte) (sent : List Byte) :
    Selects size (0x02 :: a :: b :: c :: sent) (pageAddress (addressOf a b c) sent.length % size)

inductive Erases : List Byte → Word → Prop
  | sector {a b c : Byte} {i : Word} (inside : i &&& ~~~0xFFF = addressOf a b c &&& ~~~0xFFF) :
    Erases [0x20, a, b, c] i
  | block {a b c : Byte} {i : Word} (inside : i &&& ~~~0xFFFF = addressOf a b c &&& ~~~0xFFFF) :
    Erases [0xD8, a, b, c] i
  | chip {op : Byte} (all : op = 0xC7 ∨ op = 0x60) (i : Word) : Erases [op] i

inductive CompletesErase : List Byte → Prop
  | sector (a b c : Byte) : CompletesErase [0x20, a, b, c]
  | block (a b c : Byte) : CompletesErase [0xD8, a, b, c]
  | chip {op : Byte} (all : op = 0xC7 ∨ op = 0x60) : CompletesErase [op]

inductive Changes (s : SpiFlash) (bytes : List Byte) (i : Word) : Event → Byte → Prop
  | program (latch : s.writeEnable = true) {d : Byte} (selects : Selects s.size bytes i) :
    Changes s bytes i (.byte d) (s.data i &&& d)
  | erase (latch : s.writeEnable = true) {last : Byte} (erases : Erases (bytes ++ [last]) i) :
    Changes s bytes i (.byte last) 0xFF

/-- What a step does to the contents and the latch, by the bytes of the command under way. -/
structure Lawful (s : SpiFlash) (bytes : List Byte) (e : Event) : Prop where
  contents : ∀ i < s.size, (s.step e).data i = s.data i ∨ s.Changes bytes i e ((s.step e).data i)
  erased : ∀ last, e = .byte last → CompletesErase (bytes ++ [last]) →
    (s.step e).writeEnable = false
  ended : e = .deassert → bytes.head? = some 0x02 → (s.step e).writeEnable = false

inductive Framed (s : SpiFlash) : List Byte → Prop
  | idle (state : s.state = .idle) : Framed s []
  | address {args : List Byte} (state : s.state = .addr)
      (op : s.cmd = 0x03 ∨ s.cmd = 0x0B ∨ s.cmd = 0x02 ∨ s.cmd = 0x20 ∨ s.cmd = 0xD8)
      (need : s.addrNeed = 3) (have' : s.addrHave = args.length) (short : args.length < 3)
      (kept : ∀ i, (h : i < args.length) → s.addrBytes i = args[i]) : Framed s (s.cmd :: args)
  | read {args : List Byte} (state : s.state = .read)
      (op : s.cmd = 0x03 ∨ s.cmd = 0x0B ∨ s.cmd = 0x9F) : Framed s (s.cmd :: args)
  | program {a b c : Byte} {sent : List Byte} (state : s.state = .pp) (op : s.cmd = 0x02)
      (page : s.pageBase = addressOf a b c &&& ~~~0xFF)
      (next : s.addr = pageAddress (addressOf a b c) sent.length) :
    Framed s (0x02 :: a :: b :: c :: sent)
  | statusRead {args : List Byte} (state : s.state = .statusRead) : Framed s (0x05 :: args)
  | statusWrite (state : s.state = .statusWrite) : Framed s [0x01]

theorem exists_erase_eq (s : SpiFlash) (addr size : Word) :
    ∃ data, s.erase addr size = { s with data := data, writeEnable := false } := by
  rw [erase]
  split
  · rw [eraseRange]
    split <;> exact ⟨_, rfl⟩
  · rename_i set
    rw [← eq_false_of_ne_true set]
    exact ⟨s.data, rfl⟩

theorem erase_state (s : SpiFlash) (addr size : Word) : (s.erase addr size).state = s.state := by
  obtain ⟨data, eq⟩ := s.exists_erase_eq addr size
  rw [eq]

theorem erase_writeEnable (s : SpiFlash) (addr size : Word) :
    (s.erase addr size).writeEnable = false := by
  obtain ⟨data, eq⟩ := s.exists_erase_eq addr size
  rw [eq]

theorem framed_command {s : SpiFlash} (idle : s.state = .idle) (out : Byte) :
    (s.command out).2.Framed (advance [] (.byte out)) := by
  simp only [command]
  split
  · subst out
    exact .idle idle
  split
  · subst out
    exact .idle idle
  split
  · subst out
    exact .statusRead rfl
  split
  · subst out
    exact .statusWrite rfl
  split
  · subst out
    exact .read rfl (.inr (.inr rfl))
  split
  · rename_i op
    rcases op with rfl | rfl
    · exact .address rfl (.inl rfl) rfl rfl (by decide) nofun
    · exact .address rfl (.inr (.inl rfl)) rfl rfl (by decide) nofun
  split
  · subst out
    exact .address rfl (.inr (.inr (.inl rfl))) rfl rfl (by decide) nofun
  split
  · rename_i op
    rcases op with rfl | rfl
    · exact .address rfl (.inr (.inr (.inr (.inl rfl)))) rfl rfl (by decide) nofun
    · exact .address rfl (.inr (.inr (.inr (.inr rfl)))) rfl rfl (by decide) nofun
  split
  · rename_i op
    rcases op with rfl | rfl
    · exact .idle ((erase_state ..).trans idle)
    · exact .idle ((erase_state ..).trans idle)
  · have none : argCount out = some 0 := by
      grind [argCount]
    have done : advance [] (.byte out) = [] := if_pos none
    rw [done]
    exact .idle idle

theorem advance_address {op : Byte} {args : List Byte} (out : Byte)
    (takes : op = 0x03 ∨ op = 0x0B ∨ op = 0x02 ∨ op = 0x20 ∨ op = 0xD8) (more : args.length < 2) :
    advance (op :: args) (.byte out) = op :: (args ++ [out]) := by
  have open' : argCount op ≠ some (args.length + 1) := by
    rcases takes with rfl | rfl | rfl | rfl | rfl <;> simp [argCount] <;> omega
  rw [advance, List.cons_append, List.head?_cons, Option.bind_some, List.length_cons,
    if_neg open']

theorem toNat_page (v : Word) : (v &&& ~~~0xFF).toNat = v.toNat / 256 * 256 :=
  Lib.toNat_and_not_mask v 8 (by decide)

theorem toNat_pageAddress (start : Word) (k : Nat) :
    (pageAddress start k).toNat = start.toNat / 256 * 256 + (start.toNat + k) % 256 := by
  have low : ((start + BitVec.ofNat 32 k) &&& 0xFF).toNat = (start.toNat + k) % 256 := by
    rw [show (0xFF : Word) = BitVec.ofNat 32 (2 ^ 8 - 1) from rfl,
      Lib.toNat_and_mask _ 8 (by decide), BitVec.toNat_add, BitVec.toNat_ofNat]
    omega
  rw [pageAddress, BitVec.toNat_add, toNat_page, low]
  have := start.isLt
  omega

theorem pageAddress_zero (start : Word) : pageAddress start 0 = start := by
  apply BitVec.eq_of_toNat_eq
  rw [toNat_pageAddress]
  omega

theorem page_eq_iff {v w : Word} :
    v &&& ~~~0xFF = w &&& ~~~0xFF ↔ v.toNat / 256 = w.toNat / 256 := by
  rw [← BitVec.toNat_inj, toNat_page, toNat_page]
  exact Nat.mul_left_inj (by decide)

theorem pageAddress_succ (start : Word) (k : Nat) :
    pageAddress start (k + 1) =
      (if (pageAddress start k + 1) &&& ~~~0xFF ≠ start &&& ~~~0xFF then start &&& ~~~0xFF
        else pageAddress start k + 1) := by
  have turn : (start.toNat + (k + 1)) % 256 = ((start.toNat + k) % 256 + 1) % 256 := by omega
  have next : (pageAddress start k + 1).toNat =
      (start.toNat / 256 * 256 + (start.toNat + k) % 256 + 1) % 2 ^ 32 := by
    rw [BitVec.toNat_add, toNat_pageAddress]
    rfl
  apply BitVec.eq_of_toNat_eq
  rw [toNat_pageAddress, turn]
  by_cases leaves : (pageAddress start k + 1) &&& ~~~0xFF ≠ start &&& ~~~0xFF
  · rw [if_pos leaves, toNat_page]
    rw [Ne, page_eq_iff, next] at leaves
    omega
  · rw [if_neg leaves, next]
    rw [Ne, Decidable.not_not, page_eq_iff, next] at leaves
    omega

theorem framed_addressed {s : SpiFlash} {a b c : Byte}
    (op : s.cmd = 0x03 ∨ s.cmd = 0x0B ∨ s.cmd = 0x02 ∨ s.cmd = 0x20 ∨ s.cmd = 0xD8)
    (addr : s.addr = addressOf a b c) (page : s.pageBase = s.addr &&& ~~~0xFF) :
    s.addressed.Framed (advance [s.cmd, a, b] (.byte c)) := by
  rw [addressed]
  rcases op with op | op | op | op | op <;> rw [op]
  · exact .read rfl (.inl rfl)
  · exact .read rfl (.inr (.inl rfl))
  · exact .program rfl rfl (page.trans (by rw [addr])) (addr.trans (pageAddress_zero _).symm)
  · exact .idle rfl
  · exact .idle rfl

theorem addressByte_last {s : SpiFlash} {a b : Byte} (need : s.addrNeed = 3)
    (have' : s.addrHave = 2) (first : s.addrBytes 0 = a) (second : s.addrBytes 1 = b) (out : Byte) :
    s.addressByte out = addressed { s with
      addrBytes := Function.update s.addrBytes 2 out
      addrHave := 3
      addr := addressOf a b out
      pageBase := addressOf a b out &&& ~~~0xFF } := by
  have made : addressOf (Function.update s.addrBytes 2 out 0) (Function.update s.addrBytes 2 out 1)
      (Function.update s.addrBytes 2 out 2) = addressOf a b out := by
    rw [Function.update_self, Function.update_of_ne (by decide), Function.update_of_ne (by decide),
      first, second]
  rw [addressByte, have', need, if_pos (Nat.le_refl 3)]
  simp only [made]

theorem addressByte_more {s : SpiFlash} (need : s.addrNeed = 3) (more : s.addrHave < 2)
    (out : Byte) :
    s.addressByte out = { s with
      addrBytes := Function.update s.addrBytes s.addrHave out
      addrHave := s.addrHave + 1 } := by
  rw [addressByte, need]
  exact if_neg (Nat.not_le.mpr (Nat.succ_lt_succ more))

theorem framed_address {s : SpiFlash} {args : List Byte} (state : s.state = .addr)
    (op : s.cmd = 0x03 ∨ s.cmd = 0x0B ∨ s.cmd = 0x02 ∨ s.cmd = 0x20 ∨ s.cmd = 0xD8)
    (need : s.addrNeed = 3) (have' : s.addrHave = args.length) (short : args.length < 3)
    (kept : ∀ i, (h : i < args.length) → s.addrBytes i = args[i]) (out : Byte) :
    (s.addressByte out).Framed (advance (s.cmd :: args) (.byte out)) := by
  by_cases more : args.length < 2
  · rw [advance_address out op more, addressByte_more need (by omega)]
    refine .address (s := { s with addrBytes := _, addrHave := _ }) state op need ?_ ?_ ?_
    · rw [List.length_append, have']
      rfl
    · rw [List.length_append, List.length_singleton]
      omega
    · intro i h
      rw [List.length_append, List.length_singleton] at h
      rw [have', List.getElem_append]
      by_cases earlier : i < args.length
      · rw [dif_pos earlier]
        exact (Function.update_of_ne (by omega) ..).trans (kept i earlier)
      · have here : i = args.length := by omega
        subst here
        rw [dif_neg earlier]
        simp
  · obtain ⟨a, b, rfl⟩ := List.length_eq_two.mp (show args.length = 2 by omega)
    rw [addressByte_last need have' (kept 0 Nat.two_pos) (kept 1 Nat.one_lt_two)]
    exact framed_addressed op rfl rfl

theorem advance_open {op : Byte} (args : List Byte) (out : Byte) (open' : argCount op = none) :
    advance (op :: args) (.byte out) = op :: (args ++ [out]) := by
  rw [advance, List.cons_append, List.head?_cons, Option.bind_some, open', if_neg nofun]

theorem framed_program {s : SpiFlash} {a b c : Byte} {sent : List Byte} (state : s.state = .pp)
    (op : s.cmd = 0x02) (page : s.pageBase = addressOf a b c &&& ~~~0xFF)
    (next : s.addr = pageAddress (addressOf a b c) sent.length) (out : Byte) :
    (s.programByte out).Framed (advance (0x02 :: a :: b :: c :: sent) (.byte out)) := by
  rw [advance_open _ _ (by decide)]
  have next' : (s.programByte out).addr =
      pageAddress (addressOf a b c) (sent ++ [out]).length := by
    rw [List.length_append, List.length_singleton, pageAddress_succ, ← page, ← next]
    rfl
  exact .program state op page next'

theorem readNext_kept (s : SpiFlash) :
    s.readNext.2.state = s.state ∧ s.readNext.2.cmd = s.cmd ∧ s.readNext.2.data = s.data ∧
      s.readNext.2.writeEnable = s.writeEnable := by
  rw [readNext]
  split
  · exact ⟨rfl, rfl, rfl, rfl⟩
  split <;> exact ⟨rfl, rfl, rfl, rfl⟩

theorem framed_read {s : SpiFlash} {args : List Byte} (state : s.state = .read)
    (op : s.cmd = 0x03 ∨ s.cmd = 0x0B ∨ s.cmd = 0x9F) (out : Byte) :
    s.readNext.2.Framed (advance (s.cmd :: args) (.byte out)) := by
  have open' : argCount s.cmd = none := by
    rcases op with op | op | op <;> rw [op] <;> decide
  obtain ⟨sameState, sameCmd, -⟩ := readNext_kept s
  rw [advance_open _ _ open', ← sameCmd]
  rw [← sameCmd] at op
  exact .read (sameState.trans state) op

theorem framed_step {s : SpiFlash} {bytes : List Byte} (framed : s.Framed bytes) (e : Event) :
    (s.step e).Framed (advance bytes e) := by
  cases e with
  | deassert => exact .idle rfl
  | byte out =>
    rw [step, xfer]
    cases framed with
    | idle state =>
      rw [state]
      exact framed_command state out
    | address state op need have' short kept =>
      rw [state]
      exact framed_address state op need have' short kept out
    | read state op =>
      rw [state]
      exact framed_read state op out
    | program state op page next =>
      rw [state]
      exact framed_program state op page next out
    | statusRead state =>
      rw [state, advance_open _ _ (by decide)]
      exact .statusRead state
    | statusWrite state =>
      rw [state]
      exact .idle rfl

theorem eraseRange_data (s : SpiFlash) (addr size i : Word) :
    (s.eraseRange addr size).data i = s.data i ∨
      addr ≤ i ∧ i < addr + size ∧ (s.eraseRange addr size).data i = 0xFF := by
  rw [eraseRange]
  split
  · exact .inl rfl
  · by_cases inside : addr ≤ i ∧ i < if s.size < addr + size then s.size else addr + size
    · refine .inr ⟨inside.1, ?_, if_pos inside⟩
      have below := inside.2
      split at below
      · exact BitVec.lt_trans below ‹_›
      · exact below
    · exact .inl (if_neg inside)

theorem erase_data (s : SpiFlash) (addr size i : Word) :
    (s.erase addr size).data i = s.data i ∨
      s.writeEnable = true ∧ addr ≤ i ∧ i < addr + size ∧ (s.erase addr size).data i = 0xFF := by
  rw [erase]
  by_cases latch : s.writeEnable = true
  · rw [if_pos latch]
    exact (eraseRange_data s addr size i).imp_right fun erased => ⟨latch, erased⟩
  · rw [if_neg latch]
    exact .inl rfl

theorem aligned_inside {v i : Word} (k : Nat) (fits : k ≤ 32)
    (above : v &&& ~~~BitVec.ofNat 32 (2 ^ k - 1) ≤ i)
    (below : i < (v &&& ~~~BitVec.ofNat 32 (2 ^ k - 1)) + BitVec.ofNat 32 (2 ^ k)) :
    i &&& ~~~BitVec.ofNat 32 (2 ^ k - 1) = v &&& ~~~BitVec.ofNat 32 (2 ^ k - 1) := by
  rw [BitVec.le_def, Lib.toNat_and_not_mask v k fits] at above
  rw [BitVec.lt_def, BitVec.toNat_add, Lib.toNat_and_not_mask v k fits, BitVec.toNat_ofNat] at below
  rw [← BitVec.toNat_inj, Lib.toNat_and_not_mask i k fits, Lib.toNat_and_not_mask v k fits]
  have bound : i.toNat < v.toNat / 2 ^ k * 2 ^ k + 2 ^ k :=
    Nat.lt_of_lt_of_le below (Nat.le_trans (Nat.mod_le ..)
      (Nat.add_le_add_left (Nat.mod_le ..) _))
  have quotient : i.toNat / 2 ^ k = v.toNat / 2 ^ k := by
    apply Nat.div_eq_of_lt_le above
    rw [Nat.succ_mul]
    exact bound
  rw [quotient]

theorem addressed_data {s : SpiFlash} {a b c : Byte} (addr : s.addr = addressOf a b c) (i : Word) :
    s.addressed.data i = s.data i ∨
      s.writeEnable = true ∧ Erases [s.cmd, a, b, c] i ∧ s.addressed.data i = 0xFF := by
  rw [addressed]
  split
  · exact .inl rfl
  split
  · exact .inl rfl
  split
  · rename_i sector
    refine (erase_data s (s.addr &&& ~~~0xFFF) 0x1000 i).imp_right ?_
    rintro ⟨latch, above, below, erased⟩
    rw [addr] at above below
    have inside := aligned_inside (v := addressOf a b c) 12 (by decide) above below
    refine ⟨latch, ?_, erased⟩
    rw [sector]
    exact .sector inside
  split
  · rename_i block
    refine (erase_data s (s.addr &&& ~~~0xFFFF) 0x10000 i).imp_right ?_
    rintro ⟨latch, above, below, erased⟩
    rw [addr] at above below
    have inside := aligned_inside (v := addressOf a b c) 16 (by decide) above below
    refine ⟨latch, ?_, erased⟩
    rw [block]
    exact .block inside
  · exact .inl rfl

theorem completesErase_cons {op : Byte} {args : List Byte} (erase : CompletesErase (op :: args)) :
    args.length = 3 ∧ (op = 0x20 ∨ op = 0xD8) ∨ args = [] ∧ (op = 0xC7 ∨ op = 0x60) := by
  cases erase with
  | sector => exact .inl ⟨rfl, .inl rfl⟩
  | block => exact .inl ⟨rfl, .inr rfl⟩
  | chip all => exact .inr ⟨rfl, all⟩

theorem not_completesErase {op out : Byte} {args : List Byte}
    (other : op ≠ 0x20 ∧ op ≠ 0xD8 ∨ args.length < 2) : ¬ CompletesErase (op :: args ++ [out]) := by
  intro erase
  rcases completesErase_cons erase with ⟨length, which⟩ | ⟨empty, -⟩
  · have length : (args ++ [out]).length = 3 := length
    rw [List.length_append, List.length_singleton] at length
    rcases other with ⟨sector, block⟩ | short
    · exact which.elim sector block
    · omega
  · exact List.append_ne_nil_of_right_ne_nil args (List.cons_ne_nil out []) empty

theorem addressed_writeEnable {s : SpiFlash} {a b c : Byte}
    (erase : CompletesErase [s.cmd, a, b, c]) : s.addressed.writeEnable = false := by
  rw [addressed]
  rcases completesErase_cons erase with ⟨-, op | op⟩ | ⟨empty, -⟩
  · rw [op]
    exact erase_writeEnable ..
  · rw [op]
    exact erase_writeEnable ..
  · exact nomatch empty

theorem command_data (s : SpiFlash) (out : Byte) (i : Word) :
    (s.command out).2.data i = s.data i ∨
      s.writeEnable = true ∧ Erases [out] i ∧ (s.command out).2.data i = 0xFF := by
  by_cases chip : out = 0xC7 ∨ out = 0x60
  · have erases : (s.command out).2 =
        { s with cmd := out, addr := 0, addrHave := 0, addrNeed := 0 }.erase 0 s.size := by
      rcases chip with rfl | rfl <;> rfl
    rw [erases]
    refine (erase_data _ 0 s.size i).imp_right ?_
    rintro ⟨latch, -, -, erased⟩
    exact ⟨latch, .chip chip i, erased⟩
  · left
    simp only [command, if_neg chip]
    repeat' split
    all_goals rfl

theorem command_writeEnable {s : SpiFlash} {out : Byte} (erase : CompletesErase [out]) :
    (s.command out).2.writeEnable = false := by
  rcases completesErase_cons erase with ⟨length, -⟩ | ⟨-, rfl | rfl⟩
  · exact nomatch length
  · exact erase_writeEnable ..
  · exact erase_writeEnable ..

theorem programByte_data (s : SpiFlash) (out : Byte) (i : Word) :
    (s.programByte out).data i = s.data i ∨
      s.writeEnable = true ∧ i = s.addr % s.size ∧
        (s.programByte out).data i = s.data i &&& out := by
  by_cases latch : s.writeEnable = true
  · by_cases here : i = s.addr % s.size
    · refine .inr ⟨latch, here, ?_⟩
      rw [programByte, if_pos latch, here]
      exact Function.update_self ..
    · left
      rw [programByte, if_pos latch]
      exact Function.update_of_ne here ..
  · left
    rw [programByte, if_neg latch]

theorem lawful_address {s : SpiFlash} {args : List Byte} (state : s.state = .addr)
    (need : s.addrNeed = 3) (have' : s.addrHave = args.length) (short : args.length < 3)
    (kept : ∀ i, (h : i < args.length) → s.addrBytes i = args[i]) (out : Byte) :
    s.Lawful (s.cmd :: args) (.byte out) := by
  have next : s.step (.byte out) = s.addressByte out := by
    rw [step, xfer, state]
  by_cases more : args.length < 2
  · refine ⟨fun i _ => .inl ?_, ?_, nofun⟩
    · rw [next, addressByte_more need (by omega)]
    · rintro _ ⟨⟩ erase
      exact absurd erase (not_completesErase (.inr more))
  · obtain ⟨a, b, rfl⟩ := List.length_eq_two.mp (show args.length = 2 by omega)
    rw [addressByte_last need have' (kept 0 Nat.two_pos) (kept 1 Nat.one_lt_two)] at next
    refine ⟨fun i _ => ?_, ?_, nofun⟩
    · rw [next]
      refine (addressed_data rfl i).imp_right ?_
      rintro ⟨latch, erases, erased⟩
      have latch : s.writeEnable = true := latch
      have erases : Erases ([s.cmd, a, b] ++ [out]) i := erases
      rw [erased]
      exact .erase latch erases
    · rintro _ ⟨⟩ erase
      rw [next]
      exact addressed_writeEnable erase

theorem lawful_of_kept {s : SpiFlash} {bytes : List Byte} {out : Byte}
    (kept : (s.step (.byte out)).data = s.data) (other : ¬ CompletesErase (bytes ++ [out])) :
    s.Lawful bytes (.byte out) := by
  refine ⟨fun i _ => .inl (congrFun kept i), ?_, nofun⟩
  rintro _ ⟨⟩ erase
  exact absurd erase other

theorem lawful_deassert {s : SpiFlash} {bytes : List Byte} (framed : s.Framed bytes) :
    s.Lawful bytes .deassert := by
  refine ⟨fun i _ => .inl rfl, nofun, fun _ program => ?_⟩
  have op : s.cmd = 0x02 := by
    cases framed with
    | idle => exact nomatch program
    | address => exact Option.some_inj.mp program
    | read state op =>
      have op' := Option.some_inj.mp program
      rcases op with op | op | op <;> exact absurd (op.symm.trans op') (by decide)
    | program state op => exact op
    | statusRead => exact absurd (Option.some_inj.mp program) (by decide)
    | statusWrite => exact absurd (Option.some_inj.mp program) (by decide)
  exact if_pos op

theorem lawful_command {s : SpiFlash} (state : s.state = .idle) (out : Byte) :
    s.Lawful [] (.byte out) := by
  have next : s.step (.byte out) = (s.command out).2 := by
    rw [step, xfer, state]
  refine ⟨fun i _ => ?_, ?_, nofun⟩
  · rw [next]
    refine (command_data s out i).imp_right ?_
    rintro ⟨latch, erases, erased⟩
    have erases : Erases ([] ++ [out]) i := erases
    rw [erased]
    exact .erase latch erases
  · rintro _ ⟨⟩ erase
    rw [next]
    exact command_writeEnable erase

theorem lawful_program {s : SpiFlash} {a b c : Byte} {sent : List Byte} (state : s.state = .pp)
    (next : s.addr = pageAddress (addressOf a b c) sent.length) (out : Byte) :
    s.Lawful (0x02 :: a :: b :: c :: sent) (.byte out) := by
  have step' : s.step (.byte out) = s.programByte out := by
    rw [step, xfer, state]
  refine ⟨fun i _ => ?_, ?_, nofun⟩
  · rw [step']
    refine (programByte_data s out i).imp_right ?_
    rintro ⟨latch, here, programmed⟩
    rw [programmed, here, next]
    exact .program latch (.program a b c sent)
  · rintro _ ⟨⟩ erase
    exact absurd erase (not_completesErase (.inl ⟨by decide, by decide⟩))

theorem lawful_step {s : SpiFlash} {bytes : List Byte} (framed : s.Framed bytes) (e : Event) :
    s.Lawful bytes e := by
  cases e with
  | deassert => exact lawful_deassert framed
  | byte out =>
    cases framed with
    | idle state => exact lawful_command state out
    | address state op need have' short kept =>
      exact lawful_address state need have' short kept out
    | read state op =>
      apply lawful_of_kept
      · rw [step, xfer, state]
        exact (readNext_kept s).2.2.1
      · apply not_completesErase
        rcases op with op | op | op <;> rw [op] <;> exact .inl ⟨by decide, by decide⟩
    | program state op page next => exact lawful_program state next out
    | statusRead state =>
      apply lawful_of_kept
      · rw [step, xfer, state]
      · exact not_completesErase (.inl ⟨by decide, by decide⟩)
    | statusWrite state =>
      apply lawful_of_kept
      · rw [step, xfer, state]
        cases s.writeEnable <;> rfl
      · exact not_completesErase (.inl ⟨by decide, by decide⟩)

def stepFramed (at' : SpiFlash × List Byte) (e : Event) : SpiFlash × List Byte :=
  (at'.1.step e, advance at'.2 e)

/-- Every byte of the contents changes by a page program that selects it or an erase that covers it,
under the latch, whatever bytes and deassertions the device gets. -/
theorem spi_run_lawful {s : SpiFlash} {bytes : List Byte} (framed : s.Framed bytes)
    (events : List Event) :
    Lib.Along stepFramed (fun at' e => at'.1.Lawful at'.2 e) (s, bytes) events := by
  have invariant (at' : SpiFlash × List Byte) (e : Event) (framed : at'.1.Framed at'.2) :
      (stepFramed at' e).1.Framed (stepFramed at' e).2 := framed_step framed e
  exact Lib.along_of_invariant (P := fun _ _ => True) (I := fun at' => at'.1.Framed at'.2) invariant
    (fun at' e framed _ => lawful_step framed e) framed (Lib.along_of_forall fun _ _ => trivial)

/-- An enabled page program that starts at the last byte of a page, and an erase of its sector. -/
theorem spi_program_erase_lawful :
    Lib.Along stepFramed (fun at' e => at'.1.Lawful at'.2 e) (attach 0x100000 fun _ => 0xFF, [])
      [.byte 0x06, .deassert, .byte 0x02, .byte 0x00, .byte 0x12, .byte 0xFF, .byte 0x5A,
        .byte 0xA5, .deassert, .byte 0x06, .byte 0x20, .byte 0x00, .byte 0x12, .byte 0x34] :=
  spi_run_lawful (.idle rfl) _

end SpiFlash

end M33mu
