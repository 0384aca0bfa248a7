import M33mu.Usbip

namespace M33mu.Usbip

variable {σ : Type u}

def Asks (s : Usbip σ) : UsbipEvent → Prop
  | .read off n held => hasPayload s.rxBuf = true ∧ off = 48 ∧ n = (field s.rxBuf 24).toNat ∧
      held = s.rxLen
  | .consume .. | .accepted => False
  | .submit _ | .retSubmit .. | .retUnlink .. => True

def Notes (s s' : Usbip σ) : Prop := ∃ es, s'.trace = es ++ s.trace ∧ ∀ e ∈ es, s.Asks e

structure Kept (s s' : Usbip σ) : Prop where
  notes : s.Notes s'
  connected : s'.connected = s.connected
  imported : s'.imported = s.imported
  rxBuf : s'.rxBuf = s.rxBuf
  rxLen : s'.rxLen = s.rxLen
  waitMore : s'.waitMore = s.waitMore
  queued : s.txBuf.length ≤ s'.txBuf.length

structure Dropped (s s' : Usbip σ) : Prop where
  notes : s.Notes s'
  connected : s'.connected = false
  rxLen : s'.rxLen = 0
  waitMore : s'.waitMore = s.waitMore

theorem notes_of_same {s s' : Usbip σ} (trace : s'.trace = s.trace) : s.Notes s' :=
  ⟨[], trace, nofun⟩

theorem Notes.trans {s₁ s₂ s₃ : Usbip σ} (first : s₁.Notes s₂) (second : s₂.Notes s₃)
    (rxBuf : s₂.rxBuf = s₁.rxBuf) (rxLen : s₂.rxLen = s₁.rxLen) : s₁.Notes s₃ := by
  obtain ⟨es, trace, asks⟩ := first
  obtain ⟨fs, trace', asks'⟩ := second
  refine ⟨fs ++ es, by rw [trace', trace, List.append_assoc], fun e member => ?_⟩
  rcases List.mem_append.mp member with member | member
  · have here := asks' e member
    cases e with
    | read =>
      rw [Asks, rxBuf, rxLen] at here
      exact here
    | consume | accepted => exact here
    | submit | retSubmit | retUnlink => trivial
  · exact asks e member

theorem Kept.refl (s : Usbip σ) : s.Kept s :=
  ⟨notes_of_same rfl, rfl, rfl, rfl, rfl, rfl, Nat.le_refl _⟩

theorem Kept.trans {s₁ s₂ s₃ : Usbip σ} (first : s₁.Kept s₂) (second : s₂.Kept s₃) : s₁.Kept s₃ where
  notes := first.notes.trans second.notes first.rxBuf first.rxLen
  connected := second.connected.trans first.connected
  imported := second.imported.trans first.imported
  rxBuf := second.rxBuf.trans first.rxBuf
  rxLen := second.rxLen.trans first.rxLen
  waitMore := second.waitMore.trans first.waitMore
  queued := Nat.le_trans first.queued second.queued

theorem Kept.dropped {s₁ s₂ s₃ : Usbip σ} (first : s₁.Kept s₂) (second : s₂.Dropped s₃) :
    s₁.Dropped s₃ where
  notes := first.notes.trans second.notes first.rxBuf first.rxLen
  connected := second.connected
  rxLen := second.rxLen
  waitMore := second.waitMore.trans first.waitMore

theorem kept_record {s : Usbip σ} {e : UsbipEvent} (asks : s.Asks e) : s.Kept (s.record e) :=
  ⟨⟨[e], rfl, fun _ member => List.mem_singleton.mp member ▸ asks⟩, rfl, rfl, rfl, rfl, rfl,
    Nat.le_refl _⟩

theorem dropped_resetClient (s : Usbip σ) : s.Dropped s.resetClient :=
  ⟨notes_of_same rfl, rfl, rfl, rfl⟩

theorem kept_setPending (s : Usbip σ) (i : Fin 16) (p : UsbipPending) : s.Kept (s.setPending i p) :=
  ⟨notes_of_same rfl, rfl, rfl, rfl, rfl, rfl, Nat.le_refl _⟩

theorem kept_queued (s : Usbip σ) (bytes : List Byte) :
    s.Kept { s with txBuf := s.txBuf ++ bytes } :=
  ⟨notes_of_same rfl, rfl, rfl, rfl, rfl, rfl, by simp⟩

theorem txQueue_eq (s : Usbip σ) (data : List Byte) :
    ∃ sent bytes, s.txQueue data = (sent, { s with txBuf := s.txBuf ++ bytes }) := by
  rw [txQueue]
  split
  · exact ⟨true, [], by rw [List.append_nil]⟩
  split
  · exact ⟨false, [], by rw [List.append_nil]⟩
  · exact ⟨true, data, rfl⟩

theorem txQueueAll_eq (s : Usbip σ) (pieces : List (List Byte)) :
    ∃ sent bytes, s.txQueueAll pieces = (sent, { s with txBuf := s.txBuf ++ bytes }) := by
  induction pieces generalizing s with
  | nil => exact ⟨true, [], by rw [txQueueAll, List.append_nil]⟩
  | cons data rest ih =>
    obtain ⟨sent, bytes, first⟩ := txQueue_eq s data
    rw [txQueueAll, first]
    cases sent with
    | true =>
      obtain ⟨sent, later, eq⟩ := ih { s with txBuf := s.txBuf ++ bytes }
      exact ⟨sent, bytes ++ later, by rw [← List.append_assoc]; exact eq⟩
    | false => exact ⟨false, bytes, rfl⟩

theorem sendRetSubmit_cases (s : Usbip σ) (seqnum devid direction ep status : Word)
    (payload : List Byte) : ∃ bytes,
    s.sendRetSubmit seqnum devid direction ep status payload =
        (true, { s with txBuf := s.txBuf ++ bytes }.record (.retSubmit seqnum status)) ∨
      s.sendRetSubmit seqnum devid direction ep status payload =
        (false, { s with txBuf := s.txBuf ++ bytes }) := by
  rw [sendRetSubmit]
  generalize (_ :: _ : List (List Byte)) = pieces
  obtain ⟨sent, bytes, eq⟩ := txQueueAll_eq s pieces
  refine ⟨bytes, ?_⟩
  rw [eq]
  cases sent with
  | true => exact .inl rfl
  | false => exact .inr rfl

theorem sendRetUnlink_cases (s : Usbip σ) (seqnum devid direction ep unlinked status : Word) :
    ∃ bytes,
    s.sendRetUnlink seqnum devid direction ep unlinked status =
        (true, { s with txBuf := s.txBuf ++ bytes }.record (.retUnlink seqnum unlinked status)) ∨
      s.sendRetUnlink seqnum devid direction ep unlinked status =
        (false, { s with txBuf := s.txBuf ++ bytes }) := by
  obtain ⟨sent, bytes, eq⟩ := txQueue_eq s (retUnlinkHeader seqnum devid direction ep status)
  rw [sendRetUnlink, eq]
  refine ⟨bytes, ?_⟩
  cases sent with
  | true => exact .inl rfl
  | false => exact .inr rfl

theorem kept_sendRetSubmit (s : Usbip σ) (seqnum devid direction ep status : Word)
    (payload : List Byte) :
    s.Kept (s.sendRetSubmit seqnum devid direction ep status payload).2 := by
  obtain ⟨bytes, sent | failed⟩ := sendRetSubmit_cases s seqnum devid direction ep status payload
  · rw [sent]
    exact (kept_queued s bytes).trans (kept_record trivial)
  · rw [failed]
    exact kept_queued s bytes

theorem kept_sendRetUnlink (s : Usbip σ) (seqnum devid direction ep unlinked status : Word) :
    s.Kept (s.sendRetUnlink seqnum devid direction ep unlinked status).2 := by
  obtain ⟨bytes, sent | failed⟩ := sendRetUnlink_cases s seqnum devid direction ep unlinked status
  · rw [sent]
    exact (kept_queued s bytes).trans (kept_record trivial)
  · rw [failed]
    exact kept_queued s bytes

def Fits (s : Usbip σ) (n : Nat) : Prop := n = 0 ∨ s.txBuf.length + n ≤ txSize

instance (s : Usbip σ) (n : Nat) : Decidable (s.Fits n) := inferInstanceAs (Decidable (_ ∨ _))

theorem txQueue_of_fits {s : Usbip σ} {data : List Byte} (fits : s.Fits data.length) :
    s.txQueue data = (true, { s with txBuf := s.txBuf ++ data }) := by
  rw [txQueue]
  split
  · rename_i empty
    rw [empty, List.append_nil]
  · rename_i some
    rw [if_neg (Nat.not_lt.mpr (fits.resolve_left (mt List.eq_nil_of_length_eq_zero some)))]

theorem txQueue_of_not_fits {s : Usbip σ} {data : List Byte} (full : ¬ s.Fits data.length) :
    s.txQueue data = (false, s) := by
  obtain ⟨some, over'⟩ := not_or.mp full
  rw [txQueue, if_neg (mt (congrArg List.length) some), if_pos (Nat.not_le.mp over')]

theorem txQueueAll_of_fits {s : Usbip σ} {pieces : List (List Byte)}
    (fits : s.Fits pieces.flatten.length) :
    s.txQueueAll pieces = (true, { s with txBuf := s.txBuf ++ pieces.flatten }) := by
  induction pieces generalizing s with
  | nil => rw [txQueueAll, List.flatten_nil, List.append_nil]
  | cons data rest ih =>
    rw [List.flatten_cons, List.length_append] at fits
    have first : s.Fits data.length := by
      rcases fits with none | room
      · exact .inl (Nat.eq_zero_of_add_eq_zero_right none)
      · exact .inr (by omega)
    rw [txQueueAll, txQueue_of_fits first]
    have later : Fits { s with txBuf := s.txBuf ++ data } rest.flatten.length := by
      rcases fits with none | room
      · exact .inl (Nat.eq_zero_of_add_eq_zero_left none)
      · exact .inr (by rw [List.length_append]; omega)
    dsimp only
    rw [ih later, List.flatten_cons, List.append_assoc]

theorem txQueueAll_of_not_fits {s : Usbip σ} {pieces : List (List Byte)}
    (full : ¬ s.Fits pieces.flatten.length) : (s.txQueueAll pieces).1 = false := by
  induction pieces generalizing s with
  | nil => exact absurd (.inl rfl) full
  | cons data rest ih =>
    rw [List.flatten_cons, List.length_append] at full
    rw [txQueueAll]
    by_cases first : s.Fits data.length
    · rw [txQueue_of_fits first]
      refine ih fun later => full ?_
      rcases later with none | room
      · rw [none, Nat.add_zero]
        exact first
      · rw [List.length_append] at room
        exact .inr (by omega)
    · rw [txQueue_of_not_fits first]

theorem length_flatMap_htonl (fields : List Word) :
    (fields.flatMap htonl).length = 4 * fields.length := by
  induction fields with
  | nil => rfl
  | cons field fields ih =>
    rw [List.flatMap_cons, List.length_append, ih, List.length_cons]
    change 4 + _ = _
    omega

/-- The bytes of a `RET_SUBMIT`. -/
def replySize (direction : Word) (payload : List Byte) : Nat :=
  48 + if direction = 1 then payload.length else 0

theorem replySize_nil (direction : Word) : replySize direction [] = 48 := by
  rw [replySize]
  split <;> rfl

theorem length_reply (seqnum devid direction ep status : Word) (payload : List Byte) :
    (retSubmitHeader seqnum devid direction ep status (BitVec.ofNat 32 payload.length) ::
      if direction = 1 then [payload] else []).flatten.length = replySize direction payload := by
  rw [List.flatten_cons, List.length_append, retSubmitHeader, length_flatMap_htonl, replySize]
  split
  · rw [List.flatten_singleton]
    rfl
  · rfl

theorem sendRetSubmit_of_fits (seqnum devid ep status : Word) {s : Usbip σ} {direction : Word}
    {payload : List Byte} (fits : s.Fits (replySize direction payload)) :
    ∃ bytes, bytes.length = replySize direction payload ∧
      s.sendRetSubmit seqnum devid direction ep status payload =
        (true, { s with txBuf := s.txBuf ++ bytes }.record (.retSubmit seqnum status)) := by
  have length := length_reply seqnum devid direction ep status payload
  rw [sendRetSubmit, txQueueAll_of_fits (length.symm ▸ fits)]
  exact ⟨_, length, rfl⟩

theorem sendRetSubmit_of_not_fits (seqnum devid ep status : Word) {s : Usbip σ}
    {direction : Word} {payload : List Byte} (full : ¬ s.Fits (replySize direction payload)) :
    (s.sendRetSubmit seqnum devid direction ep status payload).1 = false := by
  rw [← length_reply seqnum devid direction ep status payload] at full
  have failed := txQueueAll_of_not_fits full
  rw [sendRetSubmit]
  generalize s.txQueueAll _ = r at failed
  obtain ⟨sent, s₁⟩ := r
  obtain rfl : sent = false := failed
  rfl

theorem length_padded (n : Nat) (bytes : List Byte) : (padded n bytes).length = n := by
  rw [padded, List.length_take, List.length_append, List.length_replicate]
  exact Nat.min_eq_left (Nat.le_add_left ..)

theorem length_deviceDesc (s : Usbip σ) (speed : Word) :
    (s.deviceDesc speed).flatten.length = 312 := by
  simp only [deviceDesc, List.flatten_cons, List.flatten_nil, List.length_append, length_padded]
  rfl

def Handled (s s' : Usbip σ) : Prop := s.Kept s' ∨ s.Dropped s'

theorem Kept.handled {s₁ s₂ s₃ : Usbip σ} (first : s₁.Kept s₂) (second : s₂.Handled s₃) :
    s₁.Handled s₃ :=
  second.imp first.trans first.dropped

theorem Handled.up {s t : Usbip σ} (handled : s.Handled t) (up : t.connected = true) :
    s.connected = true := by
  rcases handled with kept | dropped
  · exact kept.connected.symm.trans up
  · exact nomatch dropped.connected.symm.trans up

theorem handled_orReset {s : Usbip σ} {sent : Bool × Usbip σ} (kept : s.Kept sent.2) :
    s.Handled (orReset sent) := by
  obtain ⟨done, s₁⟩ := sent
  cases done with
  | true => exact .inl kept
  | false => exact .inr (kept.dropped (dropped_resetClient s₁))

theorem kept_waitFor (s : Usbip σ) (u : Submit) (data : List Byte) : s.Kept (s.waitFor u data) := by
  rw [waitFor]
  split
  · exact kept_setPending ..
  · exact kept_sendRetSubmit ..

theorem kept_handleUnlink (s : Usbip σ) : s.Kept s.handleUnlink := by
  rw [handleUnlink]
  dsimp only
  split
  · exact (kept_setPending s ..).trans (kept_sendRetUnlink ..)
  · exact kept_sendRetUnlink ..

section

variable (device : UsbDevice σ)

theorem kept_epOut (s : Usbip σ) (ep : Word) (data : Nat → Byte) (len : Word) (setup : Bool) :
    s.Kept (s.epOut device ep data len setup).2 :=
  ⟨notes_of_same rfl, rfl, rfl, rfl, rfl, rfl, Nat.le_refl _⟩

theorem kept_epIn (s : Usbip σ) (ep len : Word) : s.Kept (s.epIn device ep len).2 :=
  ⟨notes_of_same rfl, rfl, rfl, rfl, rfl, rfl, Nat.le_refl _⟩

theorem epOut_eq (s : Usbip σ) (ep : Word) (data : Nat → Byte) (len : Word) (setup : Bool) :
    s.epOut device ep data len setup = ((device.epOut s.dev ep data len setup).1,
      { s with dev := (device.epOut s.dev ep data len setup).2 }) :=
  rfl

theorem epIn_eq (s : Usbip σ) (ep len : Word) :
    s.epIn device ep len =
      ((device.epIn s.dev ep len).1, { s with dev := (device.epIn s.dev ep len).2 }) :=
  rfl

theorem Kept.congr {s s₁ s₂ : Usbip σ} (kept : s.Kept s₁) (trace : s₂.trace = s₁.trace)
    (connected : s₂.connected = s₁.connected) (imported : s₂.imported = s₁.imported)
    (rxBuf : s₂.rxBuf = s₁.rxBuf) (rxLen : s₂.rxLen = s₁.rxLen)
    (waitMore : s₂.waitMore = s₁.waitMore) (txBuf : s₂.txBuf = s₁.txBuf) : s.Kept s₂ :=
  kept.trans ⟨notes_of_same trace, connected, imported, rxBuf, rxLen, waitMore,
    Nat.le_of_eq (congrArg List.length txBuf.symm)⟩

theorem Dropped.congr {s s₁ s₂ : Usbip σ} (dropped : s.Dropped s₁) (trace : s₂.trace = s₁.trace)
    (connected : s₂.connected = s₁.connected) (rxLen : s₂.rxLen = s₁.rxLen)
    (waitMore : s₂.waitMore = s₁.waitMore) : s.Dropped s₂ := by
  obtain ⟨es, noted, asks⟩ := dropped.notes
  exact ⟨⟨es, trace.trans noted, asks⟩, connected.trans dropped.connected,
    rxLen.trans dropped.rxLen, waitMore.trans dropped.waitMore⟩

theorem Handled.congr {s s₁ s₂ : Usbip σ} (handled : s.Handled s₁)
    (trace : s₂.trace = s₁.trace) (connected : s₂.connected = s₁.connected)
    (imported : s₂.imported = s₁.imported) (rxBuf : s₂.rxBuf = s₁.rxBuf)
    (rxLen : s₂.rxLen = s₁.rxLen) (waitMore : s₂.waitMore = s₁.waitMore)
    (txBuf : s₂.txBuf = s₁.txBuf) : s.Handled s₂ :=
  handled.imp (fun kept => kept.congr trace connected imported rxBuf rxLen waitMore txBuf)
    fun dropped => dropped.congr trace connected rxLen waitMore

theorem handled_handleOut {s : Usbip σ} {u : Submit} (payload : Nat → Byte) (hasPayload : Bool)
    (asks : hasPayload = true → s.Asks (.read 48 u.transferLen.toNat s.rxLen)) :
    s.Handled (s.handleOut device u payload hasPayload) := by
  rw [handleOut]
  split
  · rename_i sends
    exact ((kept_record (asks sends.2)).trans (kept_epOut device _ ..)).handled
      (handled_orReset (kept_sendRetSubmit ..))
  split
  · have done := kept_epOut device s 0 (fun _ => 0) 0 false
    generalize s.epOut device 0 (fun _ => 0) 0 false = r at done
    obtain ⟨accepted, s₁⟩ := r
    cases accepted with
    | true =>
      exact (done.handled (handled_orReset (kept_sendRetSubmit s₁ ..))).congr
        rfl rfl rfl rfl rfl rfl rfl
    | false =>
      exact .inl (done.trans ⟨notes_of_same rfl, rfl, rfl, rfl, rfl, rfl, Nat.le_refl _⟩)
  · exact handled_orReset (kept_sendRetSubmit ..)

theorem handled_handleIn (s : Usbip σ) (u : Submit) : s.Handled (s.handleIn device u) := by
  rw [handleIn]
  dsimp only
  have done := kept_epIn device s u.ep
    (if pendingDataMax < u.transferLen.toNat then 4096 else u.transferLen)
  generalize s.epIn device u.ep _ = r at done
  obtain ⟨payload, s₁⟩ := r
  cases payload with
  | none => exact .inl (done.trans (kept_waitFor ..))
  | some payload =>
    dsimp only
    split
    · exact .inl (done.trans (kept_waitFor ..))
    · exact (done.handled (handled_orReset (kept_sendRetSubmit s₁ ..))).congr
        rfl rfl rfl rfl rfl rfl rfl

theorem kept_sendSetup (s : Usbip σ) (u : Submit) : s.Kept (s.sendSetup device u) := by
  rw [sendSetup]
  split
  · exact kept_epOut ..
  · exact .refl s

theorem kept_submitted (s : Usbip σ) :
    s.Kept ((s.record (.submit (submitOf s.rxBuf).seqnum)).sendSetup device (submitOf s.rxBuf)) := by
  have noted : s.Kept (s.record (.submit (submitOf s.rxBuf).seqnum)) := kept_record trivial
  exact noted.trans (kept_sendSetup ..)

theorem handled_handleSubmit (s : Usbip σ) :
    s.Handled (s.handleSubmit device (hasPayload s.rxBuf)) := by
  rw [handleSubmit]
  dsimp only
  split
  · exact .inl (.refl s)
  split
  · exact .inl (kept_sendRetSubmit ..)
  have before := kept_submitted device s
  refine before.handled ?_
  split
  · refine handled_handleOut device _ _ fun payload => ?_
    rw [Asks, before.rxBuf]
    exact ⟨payload, rfl, rfl, rfl⟩
  split
  · exact handled_handleIn ..
  · exact .inl (.refl _)

theorem handled_handleCommand (s : Usbip σ) : s.Handled (s.handleCommand device) := by
  rw [handleCommand]
  split
  · exact handled_handleSubmit ..
  split
  · exact .inl (kept_handleUnlink s)
  · exact .inl (.refl s)

theorem takePacket_connected (s : Usbip σ) (n : Size) :
    (s.takePacket n).connected = s.connected := by
  rw [takePacket]
  split <;> rfl

theorem takePacket_imported (s : Usbip σ) (n : Size) : (s.takePacket n).imported = s.imported := by
  rw [takePacket]
  split <;> rfl

theorem takePacket_waitMore (s : Usbip σ) (n : Size) : (s.takePacket n).waitMore = s.waitMore := by
  rw [takePacket]
  split <;> rfl

theorem takePacket_rxLen (s : Usbip σ) (n : Size) : (s.takePacket n).rxLen = s.rxLen - n := by
  rw [takePacket]
  split <;> rfl

theorem takePacket_txBuf (s : Usbip σ) (n : Size) : (s.takePacket n).txBuf = s.txBuf := by
  rw [takePacket]
  split <;> rfl

theorem handleUrb_whole {s : Usbip σ} (header : 48 ≤ s.rxLen) (whole : needed s.rxBuf ≤ s.rxLen) :
    s.handleUrb device = ((s.note 0 48).handleCommand device).takePacket (needed s.rxBuf) := by
  rw [handleUrb, if_neg (BitVec.not_lt.mpr header)]
  exact if_neg (BitVec.not_lt.mpr whole)

theorem dropped_of_not_fits (status : Word) {s s₁ : Usbip σ} (kept : s.Kept s₁) {u : Submit}
    {payload : List Byte} (full : ¬ s₁.Fits (replySize u.direction payload)) :
    s.Dropped (orReset (u.answer s₁ status payload)) := by
  have failed := sendRetSubmit_of_not_fits u.seqnum u.devid u.ep status full
  have queued := kept_sendRetSubmit s₁ u.seqnum u.devid u.direction u.ep status payload
  rw [Submit.answer]
  generalize s₁.sendRetSubmit _ _ _ _ _ _ = r at failed queued
  obtain ⟨sent, s₂⟩ := r
  obtain rfl : sent = false := failed
  exact (kept.trans queued).dropped (dropped_resetClient s₂)

theorem kept_of_fits (status : Word) {s s₁ : Usbip σ} (kept : s.Kept s₁) {u : Submit}
    {payload : List Byte} (fits : s₁.Fits (replySize u.direction payload)) :
    s.Kept (orReset (u.answer s₁ status payload)) ∧
      (orReset (u.answer s₁ status payload)).txBuf.length =
        s₁.txBuf.length + replySize u.direction payload := by
  obtain ⟨bytes, length, sent⟩ := sendRetSubmit_of_fits u.seqnum u.devid u.ep status fits
  have queued := kept_sendRetSubmit s₁ u.seqnum u.devid u.direction u.ep status payload
  rw [sent] at queued
  rw [Submit.answer, sent]
  refine ⟨kept.trans queued, ?_⟩
  rw [← length]
  exact List.length_append

theorem handleSubmit_payload {s : Usbip σ} (imported : s.imported = true)
    (payload : hasPayload s.rxBuf = true) :
    ∃ s₁, s.Kept s₁ ∧ s₁.txBuf = s.txBuf ∧
      .read 48 (field s.rxBuf 24).toNat s.rxLen ∈ s₁.trace ∧
      s.handleSubmit device (hasPayload s.rxBuf) =
        orReset ((submitOf s.rxBuf).answer s₁ 0 []) := by
  have all := payload
  rw [hasPayload, decide_eq_true_eq] at all
  obtain ⟨command, direction, some⟩ := all
  have here : (submitOf s.rxBuf).direction = 0 := direction
  have before := kept_submitted device s
  rw [payload, handleSubmit, if_neg (not_not.mpr command), imported, if_neg nofun, if_pos here,
    handleOut, if_pos ⟨some, rfl⟩]
  refine ⟨_, (before.trans (kept_record ?_)).trans (kept_epOut ..), ?_, ?_, rfl⟩
  · rw [Asks, before.rxBuf]
    exact ⟨payload, rfl, rfl, rfl⟩
  · rw [sendSetup]
    split <;> rfl
  · rw [sendSetup]
    split <;> exact List.mem_cons_self

theorem handleCommand_payload {s : Usbip σ} (imported : s.imported = true)
    (payload : hasPayload s.rxBuf = true) :
    (s.Fits 48 → s.Kept (s.handleCommand device) ∧
      (s.handleCommand device).txBuf.length = s.txBuf.length + 48) ∧
      (¬ s.Fits 48 → s.Dropped (s.handleCommand device)) := by
  obtain ⟨s₁, kept, queue, -, eq⟩ := handleSubmit_payload device imported payload
  rw [hasPayload, decide_eq_true_eq] at payload
  have size := replySize_nil (submitOf s.rxBuf).direction
  rw [handleCommand, if_pos payload.1, eq]
  constructor
  · intro fits
    have fits : s₁.Fits (replySize (submitOf s.rxBuf).direction []) := by
      rw [size, Fits, queue]
      exact fits
    obtain ⟨kept, length⟩ := kept_of_fits 0 kept fits
    exact ⟨kept, by rw [length, size, queue]⟩
  · intro full
    refine dropped_of_not_fits 0 kept ?_
    rw [size, Fits, queue]
    exact full

theorem handleImport_of_fits {s : Usbip σ} (fits : s.Fits 320) :
    ∃ bytes, s.handleImport device =
      { s with txBuf := s.txBuf ++ bytes, imported := true, dev := device.busReset s.dev } := by
  have first : s.Fits (opCommon opRepImport 0).flatten.length := .inr (by
    have room := fits.resolve_left nofun
    change _ + 8 ≤ _
    omega)
  have second : Fits { s with txBuf := s.txBuf ++ (opCommon opRepImport 0).flatten }
      (s.deviceDesc 2).flatten.length := .inr (by
    have room := fits.resolve_left nofun
    rw [length_deviceDesc, List.length_append]
    change _ + 8 + 312 ≤ _
    omega)
  rw [handleImport, txQueueAll_of_fits first]
  dsimp only [deviceDesc] at second ⊢
  rw [txQueueAll_of_fits second]
  exact ⟨_, by rw [List.append_assoc]⟩

theorem handleImport_of_not_fits {s : Usbip σ} (full : ¬ s.Fits 320) :
    s.handleImport device = s.resetClient := by
  obtain ⟨sent, bytes, first⟩ := txQueueAll_eq s (opCommon opRepImport 0)
  rw [handleImport, first]
  cases sent with
  | false => rfl
  | true =>
    by_cases fits : s.Fits (opCommon opRepImport 0).flatten.length
    · have queued := (txQueueAll_of_fits fits).symm.trans first
      have second : ¬ Fits { s with txBuf := s.txBuf ++ (opCommon opRepImport 0).flatten }
          (s.deviceDesc 2).flatten.length := by
        rw [length_deviceDesc]
        rintro (none | room)
        · cases none
        · rw [List.length_append] at room
          exact full (.inr room)
      have failed := txQueueAll_of_not_fits second
      rw [(Prod.mk.inj queued).2] at failed
      obtain ⟨sent, bytes', eq⟩ := txQueueAll_eq { s with txBuf := s.txBuf ++ bytes }
        (deviceDesc { s with txBuf := s.txBuf ++ bytes } 2)
      obtain rfl : sent = false := (congrArg Prod.fst eq).symm.trans failed
      dsimp only
      rw [eq]
      rfl
    · have failed := txQueueAll_of_not_fits fits
      rw [first] at failed
      cases failed

theorem handleDevlist_eq (s : Usbip σ) :
    ∃ bytes, s.handleDevlist = { s with txBuf := s.txBuf ++ bytes } ∨
      s.handleDevlist = s.resetClient := by
  obtain ⟨sent, bytes₁, first⟩ := txQueueAll_eq s (opCommon opRepDevlist 0)
  rw [handleDevlist, first]
  cases sent with
  | false => exact ⟨[], .inr rfl⟩
  | true =>
    obtain ⟨sent, bytes₂, second⟩ := txQueue_eq { s with txBuf := s.txBuf ++ bytes₁ } (htonl 1)
    dsimp only
    rw [second]
    cases sent with
    | false => exact ⟨[], .inr rfl⟩
    | true =>
      generalize eq : { s with txBuf := s.txBuf ++ bytes₁ ++ bytes₂ } = t
      obtain ⟨sent, bytes₃, third⟩ := txQueueAll_eq t (t.deviceDesc 2)
      change ∃ bytes, orReset (t.txQueueAll (t.deviceDesc 2)) = _ ∨ orReset _ = _
      rw [third, ← eq]
      cases sent with
      | false => exact ⟨[], .inr rfl⟩
      | true =>
        refine ⟨bytes₁ ++ (bytes₂ ++ bytes₃), .inl ?_⟩
        rw [← List.append_assoc, ← List.append_assoc]
        rfl

theorem handled_handleDevlist (s : Usbip σ) : s.Handled s.handleDevlist := by
  obtain ⟨bytes, eq | eq⟩ := handleDevlist_eq s
  · exact .inl (eq ▸ kept_queued s bytes)
  · exact .inr (eq ▸ dropped_resetClient s)

def Overflows (s : Usbip σ) (i : Fin 16) : Prop :=
  let p := s.pending i
  let chunk := p.expectedLen - BitVec.ofNat 32 p.data.length
  (p.isControl = true ∧ p.ep = 0 ∧ p.direction = 1) ∧
    ∃ bytes ∈ (device.epIn s.dev 0 (if pendingDataMax < chunk.toNat then 4096 else chunk)).1,
      pendingDataMax < p.data.length + bytes.length

inductive Completes (s : Usbip σ) (i : Fin 16) : Usbip σ → Prop
  | idle (inactive : (s.pending i).active = false) : Completes s i s
  | cancelled (active : (s.pending i).active = true) (gone : (s.pending i).cancelled = true) :
    Completes s i (s.setPending i { s.pending i with active := false })
  | waits (dev : σ) (fits : ¬ s.Overflows device i) : Completes s i { s with dev := dev }
  | overflows (dev : σ) (active : (s.pending i).active = true) (full : s.Overflows device i) :
    Completes s i (setPending { s with dev := dev } i { s.pending i with active := false })
  | grows (dev : σ) (data : List Byte) (fits : ¬ s.Overflows device i) :
    Completes s i (setPending { s with dev := dev } i { s.pending i with data := data })
  | answered (dev : σ) (bytes data : List Byte) (statusOut : Bool)
    (active : (s.pending i).active = true) (fits : ¬ s.Overflows device i) :
    Completes s i { s.record (.retSubmit (s.pending i).seqnum 0) with
      dev := dev
      txBuf := s.txBuf ++ bytes
      pending := Function.update s.pending i { s.pending i with data := data, active := false }
      pendingStatusOut := statusOut }
  | dropped (dev : σ) (fits : ¬ s.Overflows device i) : Completes s i { s.resetClient with dev := dev }

theorem completes_completeOne (s : Usbip σ) (i : Fin 16) :
    s.Completes device i (s.completeOne device i) := by
  rw [completeOne]
  dsimp only
  split
  · rename_i inactive
    exact .idle inactive
  rename_i active
  have active : (s.pending i).active = true := eq_true_of_ne_false active
  split
  · rename_i gone
    exact .cancelled active gone
  split
  · rename_i control
    rw [epIn_eq]
    have overflows : s.Overflows device i ↔ _ := and_iff_right control
    generalize device.epIn s.dev 0 _ = r at overflows
    obtain ⟨bytes, dev⟩ := r
    cases bytes with
    | none => exact .waits dev fun full => nomatch overflows.mp full
    | some bytes =>
      dsimp only
      split
      · rename_i full
        exact .overflows dev active (overflows.mpr ⟨bytes, rfl, full⟩)
      rename_i small
      have fits : ¬ s.Overflows device i := by
        intro full
        obtain ⟨bytes', member, full⟩ := overflows.mp full
        obtain rfl := Option.some.inj member
        exact small full
      split
      · generalize completedData _ = data
        obtain ⟨bytes, sent | failed⟩ := sendRetSubmit_cases
          (setPending { s with dev := dev } i { s.pending i with data := data })
          (s.pending i).seqnum (s.pending i).devid (s.pending i).direction (s.pending i).ep 0 data
        · rw [sent]
          have answered : s.Completes device i _ := .answered dev bytes data true active fits
          rw [← Function.update_idem] at answered
          exact answered
        · rw [failed]
          exact .dropped dev fits
      · exact .grows dev _ fits
  · rename_i other
    have fits : ¬ s.Overflows device i := fun full => other full.1
    rw [epIn_eq]
    generalize device.epIn s.dev _ _ = r
    obtain ⟨bytes, dev⟩ := r
    cases bytes with
    | none => exact .waits dev fits
    | some bytes =>
      obtain ⟨queued, sent | failed⟩ := sendRetSubmit_cases { s with dev := dev }
        (s.pending i).seqnum (s.pending i).devid (s.pending i).direction (s.pending i).ep 0 bytes
      · dsimp only
        rw [sent]
        exact .answered dev queued (s.pending i).data _ active fits
      · dsimp only
        rw [failed]
        exact .dropped dev fits

end

end M33mu.Usbip
