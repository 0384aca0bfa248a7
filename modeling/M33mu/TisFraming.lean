import M33mu.TpmTis

namespace M33mu

structure Transfer where
  isRead : Bool
  addr : Half
  left : Nat
  deriving DecidableEq, Repr

inductive TisFrame
  | header (got : List Byte)
  | waiting (t : Transfer)
  | data (t : Transfer)
  deriving DecidableEq, Repr

structure Tis (σ : Type u) where
  frame : TisFrame
  /-- What was written to the FIFO since the last COMMAND_READY. -/
  written : List Byte
  /-- What of the response was not read yet. -/
  response : List Byte
  /-- A response was read to its end since the last COMMAND_READY. -/
  readOut : Bool
  lib : σ

namespace Transfer

def parse (b0 b2 b3 : Byte) : Transfer where
  isRead := b0 &&& 0x80 ≠ 0
  addr := b2 ++ b3
  left := (b0 &&& 0x7F).toNat + 1

def next (t : Transfer) : TisFrame :=
  if t.left ≤ 1 then .header []
  else .data { t with addr := if Tpm.InFifo t.addr then t.addr else t.addr + 1, left := t.left - 1 }

end Transfer

namespace Tis

open Tpm (Process InFifo commandReady go)

variable {σ : Type u}

def init (lib : σ) : Tis σ := ⟨.header [], [], [], false, lib⟩

def hand (process : Process σ) (g : Tis σ) : Tis σ :=
  if g.written = [] then g
  else
    let (reply, lib) := process g.lib (g.written.take Tpm.cmdMax)
    { g with response := Tpm.response reply, lib := lib }

def ready (g : Tis σ) : Tis σ := { g with written := [], response := [], readOut := false }

def writeReg (process : Process σ) (g : Tis σ) (addr : Half) (value : Byte) : Tis σ :=
  if addr = Tpm.sts then
    let g := if commandReady value then g.ready else g
    if go value then g.hand process else g
  else if InFifo addr then { g with written := g.written ++ [value] }
  else g

def readReg (g : Tis σ) (addr : Half) : Tis σ :=
  if InFifo addr then
    match g.response with
    | [] => g
    | _ :: rest => { g with response := rest, readOut := g.readOut || rest = [] }
  else g

def byte (process : Process σ) (g : Tis σ) (out : Byte) : Tis σ :=
  match g.frame with
  | .header [b0, _, b2] => { g with frame := .waiting (Transfer.parse b0 b2 out) }
  | .header got => { g with frame := .header (got ++ [out]) }
  | .waiting t =>
    if t.isRead ∧ t.addr = Tpm.dataFifo ∧ g.response = [] then g else { g with frame := .data t }
  | .data t =>
    { (if t.isRead then g.readReg t.addr else g.writeReg process t.addr out) with frame := t.next }

def step (process : Process σ) (g : Tis σ) : Tpm.Event → Tis σ
  | .byte out => g.byte process out
  | .deassert => { g with frame := .header [] }

def Goes (g : Tis σ) (out : Byte) : Bool :=
  match g.frame with
  | .data t => !t.isRead && t.addr = Tpm.sts && go out
  | _ => false

/-- Chip select goes high at the end of a transfer, and GO comes before the response that there was
since COMMAND_READY is read to its end. -/
def Orderly (g : Tis σ) : Tpm.Event → Prop
  | .deassert => g.frame = .header []
  | .byte out => g.Goes out = true → commandReady out = true ∨ g.readOut = false

instance (g : Tis σ) : (e : Tpm.Event) → Decidable (g.Orderly e)
  | .deassert => inferInstanceAs (Decidable (_ = _))
  | .byte _ => inferInstanceAs (Decidable (_ → _))

def Answers (g : Tis σ) (v : Byte) : Prop :=
  match g.frame with
  | .data t =>
    t.isRead = true →
      (InFifo t.addr → v = g.response.headD 0xFF) ∧
      (t.addr = Tpm.sts → (v.getLsbD 4 = true ↔ g.response ≠ []))
  | _ => True

end Tis

namespace Tpm

variable {σ : Type u}

def TookHeader (s : Tpm σ) (b0 b1 b2 b3 : Byte) : Prop :=
  s.header = [b0, b1, b2, b3] ∧ s.waitPhase = true ∧ s.isRead = (b0 &&& 0x80 ≠ 0 : Bool) ∧
    s.addr = b2 ++ b3 ∧ s.len = (b0 &&& 0x7F) + 1

/-- The device keeps to the interface in one step: the header, the byte that comes back, and what
the library gets. -/
structure Obeys (process : Process σ) (s : Tpm σ) (g : Tis σ) (e : Tpm.Event) : Prop where
  header : ∀ b0 b1 b2 out, g.frame = .header [b0, b1, b2] → e = .byte out →
    (s.step process e).TookHeader b0 b1 b2 out
  answer : ∀ out, e = .byte out → g.Answers (s.spiXfer process out).1
  handed : (s.step process e).lib = (g.step process e).lib

def Framed (s : Tpm σ) : TisFrame → Prop
  | .header got => s.header = got ∧ got.length < 4
  | .waiting t => s.header.length = 4 ∧ s.waitPhase = true ∧ s.isRead = t.isRead ∧
      s.addr = t.addr ∧ s.len.toNat = t.left ∧ 0 < t.left
  | .data t => s.header.length = 4 ∧ s.waitPhase = false ∧ s.isRead = t.isRead ∧
      s.addr = t.addr ∧ s.len.toNat = t.left ∧ 0 < t.left

structure Holds (s : Tpm σ) (g : Tis σ) : Prop where
  command : g.readOut = false → s.cmdBuf = g.written.take cmdMax
  rest : s.rspBuf.drop s.rspRead = g.response
  live : s.rspBuf = [] ∨ s.rspRead < s.rspBuf.length
  lib : s.lib = g.lib

structure SameFrame (s s' : Tpm σ) : Prop where
  header : s'.header = s.header
  waitPhase : s'.waitPhase = s.waitPhase
  isRead : s'.isRead = s.isRead
  addr : s'.addr = s.addr
  len : s'.len = s.len

theorem SameFrame.framed {s s' : Tpm σ} (same : SameFrame s s') {f : TisFrame}
    (framed : s.Framed f) : s'.Framed f := by
  cases f <;> simpa only [Framed, same.header, same.waitPhase, same.isRead, same.addr, same.len]
    using framed

theorem readFifo_sameFrame (s : Tpm σ) : SameFrame s s.readFifo.2 := by
  rw [readFifo]
  split
  · split <;> exact ⟨rfl, rfl, rfl, rfl, rfl⟩
  · exact ⟨rfl, rfl, rfl, rfl, rfl⟩

theorem holds_readFifo {s : Tpm σ} {g : Tis σ} (holds : s.Holds g) {addr : Half}
    (fifo : InFifo addr) :
    s.readFifo.1 = g.response.headD 0xFF ∧ s.readFifo.2.Holds (g.readReg addr) := by
  rw [Tis.readReg, if_pos fifo]
  cases response : g.response with
  | nil =>
    have none : s.rspBuf[s.rspRead]? = none := by
      rw [List.getElem?_eq_none_iff]
      exact List.drop_eq_nil_iff.mp (holds.rest.trans response)
    rw [readFifo, none]
    exact ⟨rfl, holds⟩
  | cons v rest =>
    have here : s.rspBuf[s.rspRead]? = some v := by
      rw [← List.head?_drop, holds.rest, response]
      rfl
    have later : s.rspBuf.drop (s.rspRead + 1) = rest := by
      rw [← List.tail_drop, holds.rest, response]
      rfl
    by_cases last : s.rspBuf.length ≤ s.rspRead + 1
    · have read : s.readFifo =
          (v, { s with cmdBuf := [], cmdExpected := 0, rspBuf := [], rspRead := 0 }) := by
        rw [readFifo, here]
        exact if_pos last
      have done : rest = [] := by
        rw [← later]
        exact List.drop_eq_nil_iff.mpr last
      rw [read]
      refine ⟨rfl, fun unread => ?_, done.symm, .inl rfl, holds.lib⟩
      simp [done] at unread
    · have read : s.readFifo = (v, { s with rspRead := s.rspRead + 1 }) := by
        rw [readFifo, here]
        exact if_neg last
      have more : rest ≠ [] := by
        rw [← later]
        exact mt List.drop_eq_nil_iff.mp last
      rw [read]
      refine ⟨rfl, fun unread => ?_, later, .inr (Nat.lt_of_not_le last), holds.lib⟩
      apply holds.command
      simpa [more] using unread

theorem readReg_sameFrame (s : Tpm σ) (addr : Half) : SameFrame s (s.readReg addr).2 := by
  rw [readReg]
  repeat' split
  all_goals first
    | exact readFifo_sameFrame s
    | exact ⟨rfl, rfl, rfl, rfl, rfl⟩

theorem readReg_of_not_fifo (s : Tpm σ) {addr : Half} (outside : ¬ InFifo addr) :
    (s.readReg addr).2 = s := by
  rw [readReg, if_neg outside]
  repeat' split
  all_goals rfl

theorem readReg_of_fifo (s : Tpm σ) {addr : Half} (fifo : InFifo addr) :
    s.readReg addr = s.readFifo := by
  have apart (c : Half) (outside : ¬ InFifo c) : addr ≠ c := fun eq => outside (eq ▸ fifo)
  rw [readReg, if_neg (apart _ (by decide)), if_neg (apart _ (by decide)),
    if_neg (apart _ (by decide)), if_neg (apart _ (by decide)), if_neg (apart _ (by decide)),
    if_neg (apart _ (by decide)), if_neg (apart _ (by decide)), if_neg (apart _ (by decide)),
    if_neg (apart _ (by decide)), if_pos fifo]

theorem status_dataAvail {s : Tpm σ} {g : Tis σ} (holds : s.Holds g) :
    s.status.getLsbD 4 = true ↔ g.response ≠ [] := by
  have some_left : s.rspRead < s.rspBuf.length ↔ g.response ≠ [] := by
    rw [← holds.rest, Ne, List.drop_eq_nil_iff, Nat.not_le]
  rw [← some_left, status]
  by_cases left : s.rspRead < s.rspBuf.length
  · rw [if_pos left]
    split <;> simp [left]
  · rw [if_neg left]
    split <;> simp [left]

theorem holds_readReg {s : Tpm σ} {g : Tis σ} (holds : s.Holds g) (addr : Half) :
    (s.readReg addr).2.Holds (g.readReg addr) := by
  by_cases fifo : InFifo addr
  · rw [readReg_of_fifo s fifo]
    exact (holds_readFifo holds fifo).2
  · rw [readReg_of_not_fifo s fifo, Tis.readReg, if_neg fifo]
    exact holds

theorem answers_readReg {s : Tpm σ} {g : Tis σ} (holds : s.Holds g) (addr : Half) :
    (InFifo addr → (s.readReg addr).1 = g.response.headD 0xFF) ∧
      (addr = sts → ((s.readReg addr).1.getLsbD 4 = true ↔ g.response ≠ [])) := by
  constructor
  · intro fifo
    rw [readReg_of_fifo s fifo]
    exact (holds_readFifo holds fifo).1
  · rintro rfl
    exact status_dataAvail holds

theorem backendProcess_sameFrame (process : Process σ) (s : Tpm σ) :
    SameFrame s (s.backendProcess process) := by
  rw [backendProcess]
  split <;> exact ⟨rfl, rfl, rfl, rfl, rfl⟩

theorem writeReg_sameFrame (process : Process σ) (s : Tpm σ) (addr : Half) (value : Byte) :
    SameFrame s (s.writeReg process addr value) := by
  rw [writeReg]
  split
  · repeat' split
    all_goals exact ⟨rfl, rfl, rfl, rfl, rfl⟩
  split
  · have same (t : Tpm σ) (cleared : SameFrame s t) : SameFrame s (t.backendProcess process) := by
      have kept := backendProcess_sameFrame process t
      exact ⟨kept.header.trans cleared.header, kept.waitPhase.trans cleared.waitPhase,
        kept.isRead.trans cleared.isRead, kept.addr.trans cleared.addr, kept.len.trans cleared.len⟩
    cases commandReady value <;> cases go value
    · exact ⟨rfl, rfl, rfl, rfl, rfl⟩
    · exact same s ⟨rfl, rfl, rfl, rfl, rfl⟩
    · exact ⟨rfl, rfl, rfl, rfl, rfl⟩
    · exact same { s with cmdBuf := [], cmdExpected := 0, rspBuf := [], rspRead := 0 }
        ⟨rfl, rfl, rfl, rfl, rfl⟩
  split
  · rw [writeFifo]
    split <;> exact ⟨rfl, rfl, rfl, rfl, rfl⟩
  · exact ⟨rfl, rfl, rfl, rfl, rfl⟩

theorem response_ne_nil (reply : Option (List Byte)) : response reply ≠ [] := by
  rcases reply with _ | _ | ⟨first, rest⟩ <;> nofun

theorem holds_backendProcess (process : Process σ) {s : Tpm σ} {g : Tis σ} (holds : s.Holds g)
    (unread : g.readOut = false) : (s.backendProcess process).Holds (g.hand process) := by
  have command := holds.command unread
  rw [backendProcess, Tis.hand]
  by_cases empty : g.written = []
  · have nothing : s.cmdBuf = [] := by rw [command, empty]; rfl
    rw [if_pos empty, if_pos nothing]
    exact holds
  · have something : s.cmdBuf ≠ [] := by
      rw [command, Ne, List.take_eq_nil_iff]
      exact fun none => none.elim (by decide) empty
    rw [if_neg empty, if_neg something, command, holds.lib]
    refine ⟨fun _ => rfl, rfl, .inr ?_, rfl⟩
    exact List.length_pos_iff.mpr (response_ne_nil _)

theorem holds_writeFifo {s : Tpm σ} {g : Tis σ} (holds : s.Holds g) (value : Byte) :
    (s.writeFifo value).Holds { g with written := g.written ++ [value] } := by
  rw [writeFifo]
  by_cases room : s.cmdBuf.length < cmdMax
  · rw [if_pos room]
    refine ⟨fun unread => ?_, holds.rest, holds.live, holds.lib⟩
    have command := holds.command unread
    rw [command, List.length_take] at room
    have short : g.written.length < cmdMax := by omega
    have whole : s.cmdBuf = g.written := by rw [command, List.take_of_length_le (by omega)]
    have fits : (g.written ++ [value]).length ≤ cmdMax := by
      rw [List.length_append, List.length_singleton]
      omega
    rw [List.take_of_length_le fits]
    exact congrArg (· ++ [value]) whole
  · rw [if_neg room]
    refine ⟨fun unread => ?_, holds.rest, holds.live, holds.lib⟩
    have command := holds.command unread
    rw [command, List.length_take] at room
    exact command.trans (List.take_append_of_le_length (by omega)).symm

theorem holds_ready {s : Tpm σ} {g : Tis σ} (holds : s.Holds g) :
    { s with cmdBuf := [], cmdExpected := 0, rspBuf := [], rspRead := 0 : Tpm σ }.Holds g.ready :=
  ⟨fun _ => rfl, rfl, .inl rfl, holds.lib⟩

theorem holds_writeReg (process : Process σ) {s : Tpm σ} {g : Tis σ} (holds : s.Holds g)
    {addr : Half} {value : Byte}
    (orderly : addr = sts → go value = true → commandReady value = true ∨ g.readOut = false) :
    (s.writeReg process addr value).Holds (g.writeReg process addr value) := by
  rw [writeReg, Tis.writeReg]
  by_cases isAccess : addr = access
  · subst isAccess
    have other : access ≠ sts := by decide
    have outside : ¬ InFifo access := by decide
    rw [if_pos rfl, if_neg other, if_neg outside]
    repeat' split
    all_goals exact ⟨holds.command, holds.rest, holds.live, holds.lib⟩
  rw [if_neg isAccess]
  by_cases isSts : addr = sts
  · rw [if_pos isSts, if_pos isSts]
    have orderly := orderly isSts
    revert orderly
    cases commandReady value <;> cases go value <;> intro orderly
    · exact holds
    · exact holds_backendProcess process holds ((orderly rfl).resolve_left nofun)
    · exact holds_ready holds
    · exact holds_backendProcess process (holds_ready holds) rfl
  rw [if_neg isSts, if_neg isSts]
  by_cases fifo : InFifo addr
  · rw [if_pos fifo, if_pos fifo]
    exact holds_writeFifo holds value
  · rw [if_neg fifo, if_neg fifo]
    exact holds

theorem framed_advance {s : Tpm σ} {t : Transfer} (framed : s.Framed (.data t)) :
    s.advance.Framed t.next := by
  obtain ⟨header, waitPhase, isRead, addr, left, any⟩ := framed
  have one : (1 : Byte).toNat = 1 := rfl
  have some_left : 0 < s.len := by
    rw [BitVec.lt_def, left]
    exact any
  have minus : (s.len - 1).toNat = t.left - 1 := by
    rw [BitVec.toNat_sub, one, left]
    have := s.len.isLt
    omega
  rw [advance, Transfer.next]
  by_cases last : t.left ≤ 1
  · have done : s.len - 1 = 0 := by
      apply BitVec.eq_of_toNat_eq
      rw [minus]
      exact Nat.sub_eq_zero_of_le last
    rw [if_pos last]
    by_cases fifo : InFifo s.addr
    · simp only [if_pos fifo, if_pos some_left, if_pos done]
      exact ⟨rfl, by decide⟩
    · simp only [if_neg fifo, if_pos some_left, if_pos done]
      exact ⟨rfl, by decide⟩
  · have more : s.len - 1 ≠ 0 := by
      intro done
      rw [done] at minus
      have : (0 : Byte).toNat = 0 := rfl
      omega
    rw [if_neg last, ← addr]
    by_cases fifo : InFifo s.addr
    · simp only [if_pos fifo, if_pos some_left, if_neg more]
      exact ⟨header, waitPhase, isRead, rfl, minus, Nat.sub_pos_of_lt (Nat.lt_of_not_le last)⟩
    · simp only [if_neg fifo, if_pos some_left, if_neg more]
      exact ⟨header, waitPhase, isRead, rfl, minus, Nat.sub_pos_of_lt (Nat.lt_of_not_le last)⟩

theorem advance_kept (s : Tpm σ) : s.advance.cmdBuf = s.cmdBuf ∧ s.advance.rspBuf = s.rspBuf ∧
    s.advance.rspRead = s.rspRead ∧ s.advance.lib = s.lib := by
  rw [advance]
  by_cases fifo : InFifo s.addr
  · simp only [if_pos fifo]
    repeat' split
    all_goals exact ⟨rfl, rfl, rfl, rfl⟩
  · simp only [if_neg fifo]
    repeat' split
    all_goals exact ⟨rfl, rfl, rfl, rfl⟩

theorem holds_advance {s : Tpm σ} {g : Tis σ} (holds : s.Holds g) (f : TisFrame) :
    s.advance.Holds { g with frame := f } := by
  obtain ⟨cmdBuf, rspBuf, rspRead, lib⟩ := advance_kept s
  refine ⟨fun unread => cmdBuf.trans (holds.command unread), ?_, ?_, lib.trans holds.lib⟩
  · rw [rspBuf, rspRead]
    exact holds.rest
  · rw [rspBuf, rspRead]
    exact holds.live

theorem holds_frame {s : Tpm σ} {g : Tis σ} (holds : s.Holds g) (f : TisFrame) :
    s.Holds { g with frame := f } :=
  ⟨holds.command, holds.rest, holds.live, holds.lib⟩

theorem holds_low {s : Tpm σ} {g : Tis σ} (holds : s.Holds g) (low : Bool) :
    { s with csLevel := low : Tpm σ }.Holds g :=
  ⟨holds.command, holds.rest, holds.live, holds.lib⟩

theorem spiXfer_header (process : Process σ) {s : Tpm σ} {got : List Byte} (header : s.header = got)
    (short : got.length < 4) (out : Byte) :
    s.spiXfer process out =
      (0xFF, takeHeader { s with header := got ++ [out], csLevel := false }) := by
  subst header
  exact if_pos short

theorem tookHeader (process : Process σ) {s : Tpm σ} {b0 b1 b2 : Byte}
    (header : s.header = [b0, b1, b2]) (out : Byte) :
    (s.spiXfer process out).2.TookHeader b0 b1 b2 out := by
  rw [spiXfer_header process header (Nat.lt_succ_self 3)]
  exact ⟨rfl, rfl, rfl, rfl, rfl⟩

theorem takeHeader_kept (s : Tpm σ) : s.takeHeader.cmdBuf = s.cmdBuf ∧
    s.takeHeader.rspBuf = s.rspBuf ∧ s.takeHeader.rspRead = s.rspRead ∧
    s.takeHeader.lib = s.lib := by
  rw [takeHeader]
  split <;> exact ⟨rfl, rfl, rfl, rfl⟩

theorem headerLength (b0 : Byte) : ((b0 &&& 0x7F) + 1).toNat = (b0 &&& 0x7F).toNat + 1 := by
  revert b0
  decide

theorem follows_header (process : Process σ) {s : Tpm σ} {g : Tis σ} {got : List Byte}
    (frame : g.frame = .header got) (header : s.header = got) (short : got.length < 4)
    (holds : s.Holds g) (out : Byte) :
    (s.spiXfer process out).2.Framed (g.byte process out).frame ∧
      (s.spiXfer process out).2.Holds (g.byte process out) := by
  rw [spiXfer_header process header short, Tis.byte, frame]
  obtain ⟨cmdBuf, rspBuf, rspRead, lib⟩ :=
    takeHeader_kept { s with header := got ++ [out], csLevel := false : Tpm σ }
  have kept (f : TisFrame) :
      (takeHeader { s with header := got ++ [out], csLevel := false }).Holds
        { g with frame := f } := by
    refine ⟨fun unread => cmdBuf.trans (holds.command unread), ?_, ?_, lib.trans holds.lib⟩
    · rw [rspBuf, rspRead]
      exact holds.rest
    · rw [rspBuf, rspRead]
      exact holds.live
  match got, short, kept with
  | [], _, kept => exact ⟨⟨rfl, Nat.lt_of_sub_eq_succ rfl⟩, kept _⟩
  | [_], _, kept => exact ⟨⟨rfl, Nat.lt_of_sub_eq_succ rfl⟩, kept _⟩
  | [_, _], _, kept => exact ⟨⟨rfl, Nat.lt_of_sub_eq_succ rfl⟩, kept _⟩
  | [b0, _, _], _, kept =>
    exact ⟨⟨rfl, rfl, rfl, rfl, headerLength b0, Nat.succ_pos _⟩, kept _⟩

theorem response_nil_iff {s : Tpm σ} {g : Tis σ} (holds : s.Holds g) :
    s.rspBuf = [] ↔ g.response = [] := by
  rw [← holds.rest, List.drop_eq_nil_iff]
  constructor
  · rintro empty
    rw [empty]
    exact Nat.zero_le _
  · intro done
    exact holds.live.resolve_right (Nat.not_lt.mpr done)

theorem follows_waiting (process : Process σ) {s : Tpm σ} {g : Tis σ} {t : Transfer}
    (frame : g.frame = .waiting t) (framed : s.Framed (.waiting t)) (holds : s.Holds g)
    (out : Byte) :
    (s.spiXfer process out).2.Framed (g.byte process out).frame ∧
      (s.spiXfer process out).2.Holds (g.byte process out) := by
  obtain ⟨header, waitPhase, isRead, addr, left, any⟩ := framed
  have whole : ¬ s.header.length < 4 := by omega
  have waits : s.spiXfer process out =
      if s.isRead ∧ s.addr = dataFifo ∧ s.rspBuf = [] then (0x00, { s with csLevel := false })
      else (0x01, { s with csLevel := false, waitPhase := false }) := by
    rw [spiXfer]
    simp only [if_neg whole, if_pos waitPhase]
  have same : (s.isRead ∧ s.addr = dataFifo ∧ s.rspBuf = []) ↔
      (t.isRead ∧ t.addr = dataFifo ∧ g.response = []) := by
    rw [isRead, addr, response_nil_iff holds]
  rw [waits, Tis.byte, frame]
  by_cases stays : t.isRead ∧ t.addr = dataFifo ∧ g.response = []
  · rw [if_pos (same.mpr stays)]
    simp only [if_pos stays, frame]
    exact ⟨⟨header, waitPhase, isRead, addr, left, any⟩, holds_low holds false⟩
  · rw [if_neg (mt same.mp stays)]
    simp only [if_neg stays]
    exact ⟨⟨header, rfl, isRead, addr, left, any⟩,
      holds.command, holds.rest, holds.live, holds.lib⟩

theorem spiXfer_data (process : Process σ) {s : Tpm σ} {t : Transfer}
    (framed : s.Framed (.data t)) (out : Byte) :
    s.spiXfer process out =
      let s := { s with csLevel := false }
      if t.isRead then ((s.readReg t.addr).1, (s.readReg t.addr).2.advance)
      else (0xFF, (s.writeReg process t.addr out).advance) := by
  obtain ⟨header, waitPhase, isRead, addr, -, -⟩ := framed
  have whole : ¬ s.header.length < 4 := by omega
  rw [spiXfer]
  simp only [if_neg whole, waitPhase, isRead, addr, Bool.false_eq_true, if_false]

theorem follows_data (process : Process σ) {s : Tpm σ} {g : Tis σ} {t : Transfer}
    (frame : g.frame = .data t) (framed : s.Framed (.data t)) (holds : s.Holds g) {out : Byte}
    (orderly : g.Orderly (.byte out)) :
    (s.spiXfer process out).2.Framed (g.byte process out).frame ∧
      (s.spiXfer process out).2.Holds (g.byte process out) := by
  have low : Framed { s with csLevel := false } (.data t) := framed
  have held := holds_low holds false
  rw [spiXfer_data process framed, Tis.byte, frame]
  cases isRead : t.isRead with
  | true =>
    have same := readReg_sameFrame { s with csLevel := false } t.addr
    simp only [isRead, if_true]
    exact ⟨framed_advance (same.framed low), holds_advance (holds_readReg held t.addr) t.next⟩
  | false =>
    have same := writeReg_sameFrame process { s with csLevel := false } t.addr out
    have goes (isSts : t.addr = sts) (isGo : go out = true) :
        commandReady out = true ∨ g.readOut = false := by
      apply orderly
      rw [Tis.Goes, frame]
      simp [isRead, isSts, isGo]
    simp only [isRead, Bool.false_eq_true, if_false]
    exact ⟨framed_advance (same.framed low),
      holds_advance (holds_writeReg process held goes) t.next⟩

theorem follows_step (process : Process σ) {s : Tpm σ} {g : Tis σ} (framed : s.Framed g.frame)
    (holds : s.Holds g) {e : Tpm.Event} (orderly : g.Orderly e) :
    (s.step process e).Framed (g.step process e).frame ∧
      (s.step process e).Holds (g.step process e) := by
  cases e with
  | deassert =>
    refine ⟨?_, holds_low (holds_frame holds (.header [])) true⟩
    rw [orderly] at framed
    exact framed
  | byte out =>
    cases frame : g.frame with
    | header got =>
      rw [frame] at framed
      exact follows_header process frame framed.1 framed.2 holds out
    | waiting t =>
      rw [frame] at framed
      exact follows_waiting process frame framed holds out
    | data t =>
      rw [frame] at framed
      exact follows_data process frame framed holds orderly

theorem answers_spiXfer (process : Process σ) {s : Tpm σ} {g : Tis σ} (framed : s.Framed g.frame)
    (holds : s.Holds g) (out : Byte) : g.Answers (s.spiXfer process out).1 := by
  rw [Tis.Answers]
  cases frame : g.frame with
  | header => trivial
  | waiting => trivial
  | data t =>
    intro isRead
    rw [frame] at framed
    rw [spiXfer_data process framed]
    simp only [isRead, if_true]
    exact answers_readReg (holds_low holds false) t.addr

theorem obeys_step (process : Process σ) {s : Tpm σ} {g : Tis σ} (framed : s.Framed g.frame)
    (holds : s.Holds g) {e : Tpm.Event} (orderly : g.Orderly e) : s.Obeys process g e := by
  refine ⟨?_, ?_, (follows_step process framed holds orderly).2.lib⟩
  · rintro b0 b1 b2 out frame rfl
    rw [frame] at framed
    exact tookHeader process framed.1 out
  · rintro out rfl
    exact answers_spiXfer process framed holds out

def stepBoth (process : Process σ) (at' : Tpm σ × Tis σ) (e : Tpm.Event) : Tpm σ × Tis σ :=
  (at'.1.step process e, at'.2.step process e)

theorem run_obeys (process : Process σ) {s : Tpm σ} {g : Tis σ} (framed : s.Framed g.frame)
    (holds : s.Holds g) {events : List Tpm.Event}
    (orderly : Lib.Along (Tis.step process) Tis.Orderly g events) :
    Lib.Along (stepBoth process) (fun at' e => at'.1.Obeys process at'.2 e) (s, g) events := by
  induction events generalizing s g with
  | nil => trivial
  | cons e events ih =>
    obtain ⟨framed', holds'⟩ := follows_step process framed holds orderly.1
    exact ⟨obeys_step process framed holds orderly.1, ih framed' holds' orderly.2⟩

/-- Runs from a reset keep to the interface, whatever the library does, as long as chip select goes
high between transfers and GO comes before a response is read to its end. -/
theorem tpm_run_obeys (process : Process σ) (s : Tpm σ) (events : List Tpm.Event)
    (orderly : Lib.Along (Tis.step process) Tis.Orderly (Tis.init s.lib) events) :
    Lib.Along (stepBoth process) (fun at' e => at'.1.Obeys process at'.2 e)
      (s.reset, Tis.init s.lib) events := by
  have framed : s.reset.Framed (Tis.init s.lib).frame := ⟨rfl, Nat.succ_pos 3⟩
  exact run_obeys process framed ⟨fun _ => rfl, rfl, .inl rfl, rfl⟩ orderly

def succeeds : Process (List (List Byte)) := fun log cmd =>
  (some [0x80, 0x01, 0x00, 0x00, 0x00, 0x0A, 0x00, 0x00, 0x00, 0x00], log ++ [cmd])

def idle : Tpm (List (List Byte)) :=
  ⟨[], 0, 0, false, false, 64, false, [], 0, [], 0, true, []⟩

theorem tpm_startup_obeys :
    Lib.Along (stepBoth succeeds) (fun at' e => at'.1.Obeys succeeds at'.2 e)
      (idle.reset, Tis.init idle.lib)
      [.byte 0x07, .byte 0xD4, .byte 0x00, .byte 0x24, .byte 0x00,
        .byte 0x80, .byte 0x01, .byte 0x00, .byte 0x00, .byte 0x00, .byte 0x0C, .byte 0x00,
        .byte 0x00, .deassert,
        .byte 0x03, .byte 0xD4, .byte 0x00, .byte 0x24, .byte 0x00,
        .byte 0x01, .byte 0x44, .byte 0x00, .byte 0x00, .deassert,
        .byte 0x00, .byte 0xD4, .byte 0x00, .byte 0x18, .byte 0x00, .byte 0x20, .deassert,
        .byte 0x81, .byte 0xD4, .byte 0x00, .byte 0x24, .byte 0x00, .byte 0x00, .byte 0x00,
        .deassert] :=
  tpm_run_obeys succeeds idle _ (by decide)

theorem aborted_header_shifts :
    ¬ ∀ (process : Process Unit) (s : Tpm Unit) (events : List Tpm.Event),
      Lib.Along (stepBoth process) (fun at' e => at'.1.Obeys process at'.2 e)
        (s.reset, Tis.init s.lib) events := by
  intro always
  let process : Process Unit := fun _ _ => (none, ())
  let s : Tpm Unit := ⟨[], 0, 0, false, false, 64, false, [], 0, [], 0, true, ()⟩
  have obeys := always process s
    [.byte 0x80, .deassert, .byte 0x00, .byte 0xD4, .byte 0x00, .byte 0x24]
  have header := obeys.2.2.2.2.2.1.header 0x00 0xD4 0x00 0x24 rfl rfl
  have first : ([0x80, 0x00, 0xD4, 0x00] : List Byte) = [0x00, 0xD4, 0x00, 0x24] := header.1
  exact absurd first (by decide)

end Tpm

end M33mu
