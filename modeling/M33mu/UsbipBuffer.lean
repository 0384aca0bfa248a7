import M33mu.UsbipLoop

namespace M33mu

def UsbipEvent.Inside : UsbipEvent → Prop
  | .read off n held => off + n ≤ held.toNat
  | .consume n held => n ≤ held
  | _ => True

instance : DecidablePred UsbipEvent.Inside
  | .read .. => inferInstanceAs (Decidable (_ ≤ _))
  | .consume .. => inferInstanceAs (Decidable (_ ≤ _))
  | .accepted | .submit _ | .retSubmit .. | .retUnlink .. => isTrue trivial

namespace Usbip

variable {σ : Type u}

structure BufferSafe (s : Usbip σ) : Prop where
  bounded : s.rxLen.toNat ≤ rxSize
  inside : ∀ e ∈ s.trace, e.Inside

variable (device : UsbDevice σ)

def outReply (dev : σ) (u : Submit) : Option Nat :=
  if u.isControl = true ∧ u.transferLen = 0 ∧ (device.epOut dev 0 (fun _ => 0) 0 false).1 = false
  then none
  else some 48

def inReply (dev : σ) (u : Submit) : Option Nat :=
  match (device.epIn dev u.ep
    (if pendingDataMax < u.transferLen.toNat then 4096 else u.transferLen)).1 with
  | some payload =>
    if u.isControl ∧ payload.length = 64 ∧ payload.length < u.transferLen.toNat then none
    else some (48 + payload.length)
  | none => none

def setUp (s : Usbip σ) (u : Submit) : σ :=
  if u.isControl then (device.epOut s.dev 0 u.setup 8 true).2 else s.dev

/-- The size of the answer without which a submission drops the client, as the device makes it; a
submission that waits has none. -/
def promptReply (s : Usbip σ) : Option Nat :=
  let u := submitOf s.rxBuf
  if u.direction = 0 then outReply device (s.setUp device u) u
  else if u.direction = 1 then inReply device (s.setUp device u) u
  else none

theorem sendSetup_eq (s : Usbip σ) (u : Submit) :
    s.sendSetup device u = { s with dev := s.setUp device u } := by
  rw [sendSetup, setUp]
  split <;> rfl

def PacketFits (s : Usbip σ) : Prop :=
  if s.imported = true then
    field s.rxBuf 0 = cmdSubmit → 48 ≤ s.rxLen → needed s.rxBuf ≤ s.rxLen →
      (hasPayload s.rxBuf = true → 48 + (field s.rxBuf 24).toNat < 2 ^ 32) ∧
        ∀ n ∈ s.promptReply device, s.Fits n
  else
    half s.rxBuf 0 = version → half s.rxBuf 2 = opReqImport → 40 ≤ s.rxLen → s.Fits 320

theorem Fits.congr {s s' : Usbip σ} (same : s'.txBuf = s.txBuf) {n : Nat} :
    s'.Fits n ↔ s.Fits n := by
  rw [Fits, Fits, same]

structure AnswerFits (s t : Usbip σ) (reply : Option Nat) : Prop where
  kept : (∀ n ∈ reply, s.Fits n) → s.Kept t
  dropped : ¬ (∀ n ∈ reply, s.Fits n) → s.Dropped t

theorem answerFits_none {s t : Usbip σ} (kept : s.Kept t) : s.AnswerFits t none :=
  ⟨fun _ => kept, fun full => absurd nofun full⟩

theorem answerFits_answer {s t : Usbip σ} (kept : s.Kept t) (queue : t.txBuf = s.txBuf)
    (u : Submit) (payload : List Byte) :
    s.AnswerFits (orReset (u.answer t 0 payload)) (some (replySize u.direction payload)) := by
  refine ⟨fun fits => (kept_of_fits 0 kept ?_).1, fun full => dropped_of_not_fits 0 kept ?_⟩
  · exact (Fits.congr queue).mpr (fits _ rfl)
  · refine fun fits => full fun n member => ?_
    obtain rfl := Option.mem_some_iff.mp member
    exact (Fits.congr queue).mp fits

theorem AnswerFits.congr {s t t' : Usbip σ} {reply : Option Nat} (answer : s.AnswerFits t reply)
    (trace : t'.trace = t.trace) (connected : t'.connected = t.connected)
    (imported : t'.imported = t.imported) (rxBuf : t'.rxBuf = t.rxBuf) (rxLen : t'.rxLen = t.rxLen)
    (waitMore : t'.waitMore = t.waitMore) (txBuf : t'.txBuf = t.txBuf) : s.AnswerFits t' reply :=
  ⟨fun fits => (answer.kept fits).congr trace connected imported rxBuf rxLen waitMore txBuf,
    fun full => (answer.dropped full).congr trace connected rxLen waitMore⟩

theorem answerFits_out {s t : Usbip σ} (kept : s.Kept t) (queue : t.txBuf = s.txBuf) {u : Submit}
    (out : u.direction = 0) : s.AnswerFits (orReset (u.answer t 0 [])) (some 48) := by
  have answer := answerFits_answer kept queue u []
  rwa [replySize, out, if_neg (by decide)] at answer

theorem answerFits_in {s t : Usbip σ} (kept : s.Kept t) (queue : t.txBuf = s.txBuf) {u : Submit}
    (in' : u.direction = 1) (payload : List Byte) :
    s.AnswerFits (orReset (u.answer t 0 payload)) (some (48 + payload.length)) := by
  have answer := answerFits_answer kept queue u payload
  rwa [replySize, if_pos in'] at answer

theorem answerFits_handleOut {s t : Usbip σ} (kept : s.Kept t) (queue : t.txBuf = s.txBuf)
    {u : Submit} (out : u.direction = 0) (payload : Nat → Byte)
    (asks : 0 < u.transferLen → s.Asks (.read 48 u.transferLen.toNat s.rxLen)) :
    s.AnswerFits (t.handleOut device u payload (0 < u.transferLen)) (outReply device t.dev u) := by
  rw [handleOut, outReply]
  split
  · rename_i sends
    rw [if_neg fun refused => absurd (refused.2.1 ▸ sends.1) (BitVec.lt_irrefl _)]
    have noted : s.Kept (t.note 48 u.transferLen.toNat) := by
      refine kept.trans (kept_record ?_)
      have asked := asks sends.1
      rw [Asks, ← kept.rxBuf, ← kept.rxLen] at asked
      exact asked
    exact answerFits_out (noted.trans (kept_epOut device _ ..)) queue out
  rename_i empty
  split
  · rename_i status
    rw [epOut_eq]
    generalize device.epOut t.dev 0 (fun _ => 0) 0 false = r
    obtain ⟨accepted, dev⟩ := r
    cases accepted with
    | true =>
      rw [if_neg fun refused => by cases refused.2.2]
      have held : s.Kept { t with dev := dev } := kept.congr rfl rfl rfl rfl rfl rfl rfl
      exact (answerFits_out held queue out).congr rfl rfl rfl rfl rfl rfl rfl
    | false =>
      rw [if_pos ⟨status.1, status.2, rfl⟩]
      exact answerFits_none (kept.congr rfl rfl rfl rfl rfl rfl rfl)
  · rename_i other
    rw [if_neg fun refused => other ⟨refused.1, refused.2.1⟩]
    exact answerFits_out kept queue out

theorem answerFits_handleIn {s t : Usbip σ} (kept : s.Kept t) (queue : t.txBuf = s.txBuf)
    {u : Submit} (in' : u.direction = 1) :
    s.AnswerFits (t.handleIn device u) (inReply device t.dev u) := by
  rw [handleIn, inReply]
  dsimp only
  rw [epIn_eq]
  generalize device.epIn t.dev u.ep _ = r
  obtain ⟨payload, dev⟩ := r
  have held : s.Kept { t with dev := dev } := kept.congr rfl rfl rfl rfl rfl rfl rfl
  cases payload with
  | none => exact answerFits_none (held.trans (kept_waitFor ..))
  | some payload =>
    dsimp only
    split
    · exact answerFits_none (held.trans (kept_waitFor ..))
    · exact (answerFits_in held queue in' payload).congr rfl rfl rfl rfl rfl rfl rfl

def begun (s : Usbip σ) : Usbip σ :=
  (s.record (.submit (submitOf s.rxBuf).seqnum)).sendSetup device (submitOf s.rxBuf)

theorem begun_eq (s : Usbip σ) : s.begun device =
    { s.record (.submit (submitOf s.rxBuf).seqnum) with dev := s.setUp device (submitOf s.rxBuf) } :=
  sendSetup_eq device _ _

theorem handleSubmit_eq {s : Usbip σ} (imported : s.imported = true)
    (command : field s.rxBuf 0 = cmdSubmit) (hasPayload : Bool) :
    s.handleSubmit device hasPayload =
      if (submitOf s.rxBuf).direction = 0 then
        (s.begun device).handleOut device (submitOf s.rxBuf) (fun i => s.rxBuf (48 + i)) hasPayload
      else if (submitOf s.rxBuf).direction = 1 then
        (s.begun device).handleIn device (submitOf s.rxBuf)
      else s.begun device := by
  rw [handleSubmit, if_neg (not_not.mpr command), imported, if_neg (fun is => by cases is)]
  rfl

theorem answerFits_handleSubmit {s : Usbip σ} (imported : s.imported = true)
    (command : field s.rxBuf 0 = cmdSubmit) :
    s.AnswerFits (s.handleSubmit device (hasPayload s.rxBuf)) (s.promptReply device) := by
  have before : s.Kept (s.begun device) := kept_submitted device s
  have queue : (s.begun device).txBuf = s.txBuf := by
    rw [begun_eq]
    rfl
  have same : (s.begun device).dev = s.setUp device (submitOf s.rxBuf) := by rw [begun_eq]
  rw [handleSubmit_eq device imported command, promptReply, ← same]
  generalize s.begun device = t at before queue
  split
  · rename_i out
    have size : hasPayload s.rxBuf = decide (0 < (submitOf s.rxBuf).transferLen) := by
      rw [hasPayload]
      exact decide_eq_decide.mpr
        ⟨fun payload => payload.2.2, fun sends => ⟨command, out, sends⟩⟩
    rw [size]
    refine answerFits_handleOut device before queue out _ fun sends => ?_
    exact ⟨size.trans (decide_eq_true sends), rfl, rfl, rfl⟩
  split
  · rename_i in'
    exact answerFits_handleIn device before queue in'
  · exact answerFits_none before

theorem inside_of_notes {s s' : Usbip σ} (safe : s.BufferSafe) (notes : s.Notes s')
    (reads : hasPayload s.rxBuf = true → 48 + (field s.rxBuf 24).toNat ≤ s.rxLen.toNat) :
    ∀ e ∈ s'.trace, e.Inside := by
  obtain ⟨es, trace, asks⟩ := notes
  intro e member
  rw [trace] at member
  rcases List.mem_append.mp member with new | old
  · have asked := asks e new
    cases e with
    | read off n held =>
      obtain ⟨payload, rfl, rfl, rfl⟩ := asked
      exact reads payload
    | consume | accepted => exact asked.elim
    | submit | retSubmit | retUnlink => trivial
  · exact safe.inside e old

theorem toNat_needed {buf : Nat → Byte}
    (small : hasPayload buf = true → 48 + (field buf 24).toNat < 2 ^ 32) :
    (needed buf).toNat = 48 + if hasPayload buf then (field buf 24).toNat else 0 := by
  rw [needed]
  split
  · rename_i payload
    have less := small payload
    rw [BitVec.toNat_setWidth, BitVec.toNat_add]
    change (48 + _) % _ % _ = _
    omega
  · rfl

theorem trace_takePacket (s : Usbip σ) (n : Size) :
    (s.takePacket n).trace = .consume n s.rxLen :: s.trace := by
  rw [takePacket]
  split <;> rfl

theorem bufferSafe_record {s : Usbip σ} (safe : s.BufferSafe) {e : UsbipEvent} (inside : e.Inside) :
    (s.record e).BufferSafe :=
  ⟨safe.bounded, fun _ member => (List.mem_cons.mp member).elim (· ▸ inside) (safe.inside _)⟩

theorem bufferSafe_of_le {s t : Usbip σ} (safe : s.BufferSafe) (trace : t.trace = s.trace)
    (rxLen : t.rxLen = s.rxLen ∨ t.rxLen = 0) : t.BufferSafe := by
  refine ⟨?_, trace ▸ safe.inside⟩
  rcases rxLen with same | none
  · exact same ▸ safe.bounded
  · rw [none]
    exact Nat.zero_le _

theorem bufferSafe_handled {s t : Usbip σ} (safe : s.BufferSafe) (handled : s.Handled t)
    (reads : hasPayload s.rxBuf = true → 48 + (field s.rxBuf 24).toNat ≤ s.rxLen.toNat) :
    t.BufferSafe := by
  rcases handled with kept | dropped
  · exact ⟨kept.rxLen ▸ safe.bounded, inside_of_notes safe kept.notes reads⟩
  · refine ⟨?_, inside_of_notes safe dropped.notes reads⟩
    rw [dropped.rxLen]
    exact Nat.zero_le _

theorem bufferSafe_consume_iff {s : Usbip σ} (safe : s.BufferSafe) (n : Size) :
    (s.consume n).BufferSafe ↔ n ≤ s.rxLen := by
  constructor
  · exact fun after => after.inside _ List.mem_cons_self
  · intro le
    have noted : (s.record (.consume n s.rxLen)).BufferSafe := bufferSafe_record safe le
    refine ⟨?_, noted.inside⟩
    change (s.rxLen - n).toNat ≤ _
    rw [BitVec.toNat_sub_of_le le]
    exact Nat.le_trans (Nat.sub_le ..) safe.bounded

theorem bufferSafe_takePacket_iff {s : Usbip σ} (safe : s.BufferSafe) (n : Size) :
    (s.takePacket n).BufferSafe ↔ n ≤ s.rxLen := by
  rw [takePacket]
  split
  · exact bufferSafe_consume_iff (s := s.moveDown n) ⟨safe.bounded, safe.inside⟩ n
  · exact bufferSafe_consume_iff safe n

theorem not_bufferSafe_of_wraps {s : Usbip σ} (safe : s.BufferSafe) (imported : s.imported = true)
    (payload : hasPayload s.rxBuf = true) (wraps : 2 ^ 32 ≤ 48 + (field s.rxBuf 24).toNat)
    (n : Size) : ¬ ((s.handleCommand device).takePacket n).BufferSafe := by
  obtain ⟨s₁, kept, -, read, eq⟩ := handleSubmit_payload device imported payload
  have command := payload
  rw [hasPayload, decide_eq_true_eq] at command
  rw [handleCommand, if_pos command.1, eq]
  have answered : s₁.Handled (orReset ((submitOf s.rxBuf).answer s₁ 0 [])) :=
    handled_orReset (kept_sendRetSubmit ..)
  have notes : s₁.Notes (orReset ((submitOf s.rxBuf).answer s₁ 0 [])) :=
    answered.elim Kept.notes Dropped.notes
  generalize orReset ((submitOf s.rxBuf).answer s₁ 0 []) = t at notes
  obtain ⟨es, trace, -⟩ := notes
  intro after
  have member : .read 48 (field s.rxBuf 24).toNat s.rxLen ∈ (t.takePacket n).trace := by
    rw [trace_takePacket, trace]
    exact List.mem_cons_of_mem _ (List.mem_append_right _ read)
  have inside : 48 + (field s.rxBuf 24).toNat ≤ s.rxLen.toNat := after.inside _ member
  have bounded := Nat.le_trans (Nat.le_trans wraps inside) safe.bounded
  exact absurd bounded (by decide)

theorem bufferSafe_handleUrb_iff {s : Usbip σ} (safe : s.BufferSafe) (imported : s.imported = true) :
    (s.handleUrb device).BufferSafe ↔ s.PacketFits device := by
  rw [PacketFits, if_pos imported]
  by_cases short : s.rxLen < 48
  · rw [handleUrb, if_pos short]
    exact iff_of_true safe fun _ header => absurd short (BitVec.not_lt.mpr header)
  have header : 48 ≤ s.rxLen := BitVec.not_lt.mp short
  have noted : (s.note 0 48).BufferSafe := bufferSafe_record safe (BitVec.le_def.mp header)
  by_cases part : s.rxLen < needed s.rxBuf
  · rw [handleUrb, if_neg short]
    dsimp only
    rw [if_pos]
    · exact iff_of_true noted fun _ _ whole => absurd part (BitVec.not_lt.mpr whole)
    · exact part
  have whole : needed s.rxBuf ≤ s.rxLen := BitVec.not_lt.mp part
  rw [handleUrb_whole device header whole]
  by_cases command : field s.rxBuf 0 = cmdSubmit
  · by_cases small : hasPayload s.rxBuf = true → 48 + (field s.rxBuf 24).toNat < 2 ^ 32
    · have size := toNat_needed small
      have reads : hasPayload s.rxBuf = true →
          48 + (field s.rxBuf 24).toNat ≤ s.rxLen.toNat := by
        intro payload
        rw [if_pos payload] at size
        exact size ▸ BitVec.le_def.mp whole
      have answer := answerFits_handleSubmit device (s := s.note 0 48) imported command
      have handled := handled_handleSubmit device (s.note 0 48)
      have eq : (s.note 0 48).handleCommand device =
          (s.note 0 48).handleSubmit device (hasPayload (s.note 0 48).rxBuf) := if_pos command
      have reply : (s.note 0 48).promptReply device = s.promptReply device := rfl
      rw [reply] at answer
      rw [eq]
      generalize (s.note 0 48).handleSubmit device _ = t at answer handled
      have after := bufferSafe_handled noted handled reads
      rw [bufferSafe_takePacket_iff after]
      by_cases fits : ∀ n ∈ s.promptReply device, s.Fits n
      · have kept := answer.kept fits
        refine iff_of_true ?_ fun _ _ _ => ⟨small, fits⟩
        rw [kept.rxLen]
        exact whole
      · have dropped := answer.dropped fits
        refine iff_of_false ?_ fun free => fits (free command header whole).2
        rw [dropped.rxLen]
        intro le
        rw [BitVec.le_def, size] at le
        exact absurd (Nat.le_trans (Nat.le_add_right 48 _) le) (by decide)
    · obtain ⟨payload, wraps⟩ := Classical.not_imp.mp small
      refine iff_of_false ?_ fun free => small (free command header whole).1
      exact not_bufferSafe_of_wraps device (s := s.note 0 48) noted imported payload
        (Nat.not_lt.mp wraps) _
  · have none : ¬ hasPayload s.rxBuf = true := by
      intro payload
      rw [hasPayload, decide_eq_true_eq] at payload
      exact command payload.1
    have kept : (s.note 0 48).Kept ((s.note 0 48).handleCommand device) := by
      have eq : (s.note 0 48).handleCommand device =
          if field s.rxBuf 0 = cmdUnlink then (s.note 0 48).handleUnlink else s.note 0 48 :=
        if_neg command
      rw [eq]
      split
      · exact kept_handleUnlink _
      · exact .refl _
    have after := bufferSafe_handled noted (.inl kept) fun payload => absurd payload none
    refine iff_of_true ((bufferSafe_takePacket_iff after _).mpr ?_) fun here => absurd here command
    rw [kept.rxLen]
    exact whole

theorem bufferSafe_import {s : Usbip σ} (safe : s.BufferSafe) (whole : 40 ≤ s.rxLen)
    (fits : s.Fits 320) : (((s.handleImport device).moveDown 40).consume 40).BufferSafe := by
  obtain ⟨bytes, eq⟩ := handleImport_of_fits device fits
  have imported : (s.handleImport device).BufferSafe :=
    bufferSafe_of_le safe (eq ▸ rfl) (.inl (eq ▸ rfl))
  have held : (s.handleImport device).rxLen = s.rxLen := eq ▸ rfl
  generalize s.handleImport device = t at imported held
  exact (bufferSafe_consume_iff (s := t.moveDown 40) ⟨imported.bounded, imported.inside⟩ 40).mpr
    (held ▸ whole)

theorem bufferSafe_handleMgmt_iff {s : Usbip σ} (safe : s.BufferSafe) (fresh : s.imported = false) :
    (s.handleMgmt device).BufferSafe ↔ s.PacketFits device := by
  rw [PacketFits, fresh, if_neg nofun, handleMgmt]
  split
  · rename_i short
    refine iff_of_true safe fun _ _ whole => ?_
    bv_omega
  rename_i long
  have header : 8 ≤ s.rxLen := BitVec.not_lt.mp long
  have noted : (s.note 0 4).BufferSafe := bufferSafe_record safe (by
    change 0 + 4 ≤ s.rxLen.toNat
    bv_omega)
  dsimp only
  split
  · rename_i other
    exact iff_of_true (bufferSafe_of_le noted rfl (.inr rfl)) fun this => absurd this other
  rename_i this
  split
  · rename_i devlist
    refine iff_of_true ?_ fun _ import' => absurd (devlist.symm.trans import') (by decide)
    have taken : (((s.note 0 4).moveDown 8).consume 8).BufferSafe :=
      (bufferSafe_consume_iff (s := (s.note 0 4).moveDown 8) ⟨noted.bounded, noted.inside⟩ 8).mpr
        header
    obtain ⟨bytes, eq | eq⟩ := handleDevlist_eq (((s.note 0 4).moveDown 8).consume 8)
    · exact bufferSafe_of_le taken (eq ▸ rfl) (.inl (eq ▸ rfl))
    · exact bufferSafe_of_le taken (eq ▸ rfl) (.inr (eq ▸ rfl))
  split
  · rename_i import'
    split
    · rename_i part
      refine iff_of_true (bufferSafe_of_le noted rfl (.inl rfl)) fun _ _ whole => ?_
      exact absurd part (BitVec.not_lt.mpr whole)
    · rename_i long
      have whole : 40 ≤ s.rxLen := BitVec.not_lt.mp long
      have read : ((s.note 0 4).note 8 32).BufferSafe := bufferSafe_record noted (by
        change 8 + 32 ≤ s.rxLen.toNat
        bv_omega)
      by_cases fits : s.Fits 320
      · refine iff_of_true ?_ fun _ _ _ => fits
        exact bufferSafe_of_le (bufferSafe_import device read whole fits) rfl (.inl rfl)
      · refine iff_of_false ?_ fun free => fits (free (not_not.mp this) import' whole)
        rw [handleImport_of_not_fits device (s := (s.note 0 4).note 8 32) fits]
        intro after
        have le : (40 : Size) ≤ 0 := after.inside (.consume 40 0) List.mem_cons_self
        exact absurd le (by decide)
  · rename_i other
    exact iff_of_true (bufferSafe_of_le noted rfl (.inr rfl)) fun _ import' => absurd import' other

theorem bufferSafe_append {s : Usbip σ} (safe : s.BufferSafe) {data : List Byte}
    (room : data.length ≤ rxSize - s.rxLen.toNat) : (s.append data).BufferSafe := by
  have bounded := safe.bounded
  refine ⟨?_, safe.inside⟩
  rw [append, BitVec.toNat_add, BitVec.toNat_ofNat]
  unfold rxSize at *
  omega

theorem length_take_space {s : Usbip σ} (safe : s.BufferSafe) (data : List Byte) :
    (data.take (BitVec.ofNat 64 rxSize - s.rxLen).toNat).length ≤ rxSize - s.rxLen.toNat := by
  have size : (BitVec.ofNat 64 rxSize).toNat = rxSize := by decide
  generalize BitVec.ofNat 64 rxSize = space at size
  have bounded : s.rxLen ≤ space := by
    rw [BitVec.le_def, size]
    exact safe.bounded
  rw [List.length_take, BitVec.toNat_sub_of_le bounded, size]
  exact Nat.min_le_left _ _

theorem bufferSafe_receive {s : Usbip σ} (safe : s.BufferSafe) (r : RecvResult) :
    (s.receive r).BufferSafe := by
  have room := length_take_space safe
  unfold receive
  generalize BitVec.ofNat 64 rxSize - s.rxLen = space at room
  dsimp only
  split
  · exact safe
  split
  · exact bufferSafe_of_le safe rfl (.inr rfl)
  · exact bufferSafe_append safe (room _)
  · exact safe
  · exact bufferSafe_of_le safe rfl (.inr rfl)

theorem bufferSafe_pollOpen {s : Usbip σ} (safe : s.BufferSafe) (accept : Bool) (r : RecvResult) :
    (s.pollOpen accept r).BufferSafe := by
  have accepted : s.acceptClient.BufferSafe :=
    bufferSafe_of_le (bufferSafe_record safe (e := .accepted) trivial) rfl (.inr rfl)
  rw [pollOpen]
  split
  all_goals split
  · exact bufferSafe_receive accepted r
  · exact accepted
  · exact bufferSafe_receive safe r
  · exact safe

theorem bufferSafe_sendRetSubmit {s : Usbip σ} (safe : s.BufferSafe)
    (seqnum devid direction ep status : Word) (payload : List Byte) :
    (s.sendRetSubmit seqnum devid direction ep status payload).2.BufferSafe := by
  obtain ⟨bytes, sent | failed⟩ := sendRetSubmit_cases s seqnum devid direction ep status payload
  · rw [sent]
    exact bufferSafe_of_le (bufferSafe_record safe (e := .retSubmit seqnum status) trivial) rfl
      (.inl rfl)
  · rw [failed]
    exact bufferSafe_of_le safe rfl (.inl rfl)

theorem bufferSafe_tryStatusOut {s : Usbip σ} (safe : s.BufferSafe) :
    (s.tryStatusOut device).BufferSafe := by
  rw [tryStatusOut]
  split
  · rw [epOut_eq]
    have held : BufferSafe { s with dev := (device.epOut s.dev 0 (fun _ => 0) 0 false).2 } :=
      bufferSafe_of_le safe rfl (.inl rfl)
    generalize device.epOut s.dev 0 (fun _ => 0) 0 false = r at held
    obtain ⟨accepted, dev⟩ := r
    cases accepted with
    | false => exact held
    | true =>
      have answered := bufferSafe_sendRetSubmit held s.statusOutSeqnum s.statusOutDevid 0 0 0 []
      dsimp only at answered ⊢
      generalize sendRetSubmit _ _ _ _ _ _ _ = r at answered
      obtain ⟨sent, t⟩ := r
      cases sent with
      | true => exact bufferSafe_of_le answered rfl (.inl rfl)
      | false => exact bufferSafe_of_le answered rfl (.inr rfl)
  · exact safe

theorem bufferSafe_completeOne {s : Usbip σ} (safe : s.BufferSafe) (i : Fin 16) :
    (s.completeOne device i).BufferSafe := by
  have completes := completes_completeOne device s i
  generalize s.completeOne device i = t at completes
  cases completes with
  | idle => exact safe
  | cancelled | waits | overflows | grows => exact bufferSafe_of_le safe rfl (.inl rfl)
  | answered =>
    exact bufferSafe_of_le (bufferSafe_record safe (e := .retSubmit (s.pending i).seqnum 0) trivial)
      rfl (.inl rfl)
  | dropped => exact bufferSafe_of_le safe rfl (.inr rfl)

theorem bufferSafe_txFlushLoop {s : Usbip σ} (safe : s.BufferSafe) (sends : List SendResult) :
    (s.txFlushLoop sends).BufferSafe := by
  induction sends generalizing s with
  | nil => exact safe
  | cons r sends ih =>
    cases r
    all_goals
      rw [txFlushLoop]
      split
    · exact ih (bufferSafe_of_le safe rfl (.inl rfl))
    · exact safe
    · exact safe
    · exact safe
    · exact bufferSafe_of_le safe rfl (.inr rfl)
    · exact safe

theorem bufferSafe_txFlush {s : Usbip σ} (safe : s.BufferSafe) (sends : List SendResult) :
    (s.txFlush sends).BufferSafe := by
  have sent := bufferSafe_txFlushLoop safe sends
  rw [txFlush]
  split
  · exact bufferSafe_of_le safe rfl (.inl rfl)
  dsimp only
  split
  · exact bufferSafe_of_le sent rfl (.inl rfl)
  · exact sent

theorem bufferSafe_start (dev : σ) : (start dev).BufferSafe := ⟨Nat.zero_le _, nofun⟩

def PartFits (s : Usbip σ) : Part → Prop
  | .pass => s.LoopGoes → s.PacketFits device
  | _ => True

theorem bufferSafe_step_iff {s : Usbip σ} (safe : s.BufferSafe) (part : Part) :
    (step device s part).BufferSafe ↔ s.PartFits device part := by
  cases part with
  | opens accept r => exact iff_of_true (bufferSafe_pollOpen safe accept r) trivial
  | statusOut => exact iff_of_true (bufferSafe_tryStatusOut device safe) trivial
  | complete i => exact iff_of_true (bufferSafe_completeOne device safe i) trivial
  | flush sends => exact iff_of_true (bufferSafe_txFlush safe sends) trivial
  | pass =>
    rw [step, PartFits]
    split
    · rename_i goes
      rw [handlePacket]
      refine Iff.trans ?_ (forall_prop_of_true goes).symm
      cases imported : s.imported with
      | true => exact bufferSafe_handleUrb_iff device safe imported
      | false => exact bufferSafe_handleMgmt_iff device safe imported
    · rename_i ends
      exact iff_of_true safe fun goes => absurd goes ends

/-- The buffer is kept to in every state of a session exactly where no packet that the loop takes
up has a size that wraps, or an answer that does not fit. -/
theorem buffer_kept_iff (dev : σ) (parts : List Part) :
    Lib.Throughout (step device) BufferSafe (start dev) parts ↔
      Lib.Along (step device) (fun s part => s.PartFits device part) (start dev) parts := by
  have steps (s : Usbip σ) (part : Part) (safe : s.BufferSafe) :
      (step device s part).BufferSafe ↔ s.PartFits device part :=
    bufferSafe_step_iff device safe part
  exact Lib.throughout_iff_along steps (bufferSafe_start dev)

def wrappingSession : List Part :=
  [.opens true (.bytes importRequest), .pass, .opens false (.bytes (submitHeader 1 0 1 0xFFFFFFF0)),
    .pass]

theorem wrapping_submission_reads_outside :
    ¬ Lib.Throughout (step sink) BufferSafe (start ()) wrappingSession := by
  have outside : ¬ ∀ e ∈ (Lib.run (step sink) (start ()) wrappingSession).trace, e.Inside := by
    decide +kernel
  exact fun kept => outside kept.last.inside

end Usbip

end M33mu
