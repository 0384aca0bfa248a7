import M33mu.UsbipSteps

namespace M33mu.Usbip

variable {σ : Type u}

section

variable (device : UsbDevice σ)

/-- The end of the buffer stands in the middle of the bytes of a submission, and the loop does not
wait for the rest. -/
def Stalled (s : Usbip σ) : Prop :=
  s.imported = true ∧ s.waitMore = false ∧ 48 ≤ s.rxLen ∧ s.rxLen < needed s.rxBuf

instance (s : Usbip σ) : Decidable s.Stalled := inferInstanceAs (Decidable (_ ∧ _ ∧ _ ∧ _))

def Sizeless (s : Usbip σ) : Prop :=
  s.imported = true ∧ s.waitMore = false ∧ 48 ≤ s.rxLen ∧ needed s.rxBuf = 0 ∧ s.Fits 48

def Progresses (s : Usbip σ) : Prop :=
  (s.handlePacket device).rxLen < s.rxLen ∨ (s.handlePacket device).connected = false ∨
    (s.handlePacket device).Leaves

theorem hasPayload_of_needed {buf : Nat → Byte} (sizeless : needed buf = 0) :
    hasPayload buf = true := by
  by_contra none
  rw [needed, if_neg none] at sizeless
  exact absurd sizeless (by decide)

theorem sub_lt_self {a n : Size} (some : 0 < n) (le : n ≤ a) : a - n < a := by
  bv_omega

theorem progresses_mgmt {s : Usbip σ} (fresh : s.imported = false) : s.Progresses device := by
  rw [Progresses, handlePacket, fresh, if_neg nofun, handleMgmt]
  dsimp only
  split
  · rename_i short
    exact .inr (.inr (.inr (.inr (.inl ⟨fresh, short⟩))))
  rename_i long
  split
  · exact .inr (.inl rfl)
  split
  · have less : ((s.note 0 4).moveDown 8 |>.consume 8).rxLen < s.rxLen :=
      sub_lt_self (by decide) (BitVec.not_lt.mp long)
    rcases handled_handleDevlist (((s.note 0 4).moveDown 8).consume 8) with kept | dropped
    · exact .inl (kept.rxLen ▸ less)
    · exact .inr (.inl dropped.connected)
  split
  · split
    · exact .inr (.inr (.inr (.inl rfl)))
    · rename_i whole
      have size : ((s.note 0 4).note 8 32).rxLen = s.rxLen := rfl
      generalize (s.note 0 4).note 8 32 = t at size
      by_cases fits : t.Fits 320
      · obtain ⟨bytes, eq⟩ := handleImport_of_fits device fits
        rw [eq]
        refine .inl ?_
        change t.rxLen - 40 < s.rxLen
        rw [size]
        exact sub_lt_self (by decide) (BitVec.not_lt.mp whole)
      · rw [handleImport_of_not_fits device fits]
        exact .inr (.inl rfl)
  · exact .inr (.inl rfl)

theorem progresses_urb_iff {s : Usbip σ} (connected : s.connected = true) (imported : s.imported = true) :
    s.Progresses device ↔ ¬ s.Stalled ∧ ¬ s.Sizeless := by
  rw [Progresses, handlePacket, imported, if_pos rfl]
  by_cases short : s.rxLen < 48
  · have same : s.handleUrb device = s := by rw [handleUrb, if_pos short]
    rw [same]
    refine iff_of_true (.inr (.inr (.inr (.inr (.inr ⟨imported, short⟩))))) ⟨?_, ?_⟩
    · exact fun stalled => BitVec.not_lt.mpr stalled.2.2.1 short
    · exact fun sizeless => BitVec.not_lt.mpr sizeless.2.2.1 short
  have header : 48 ≤ s.rxLen := BitVec.not_lt.mp short
  by_cases part : s.rxLen < needed s.rxBuf
  · have same : s.handleUrb device = s.note 0 48 := by
      rw [handleUrb, if_neg short]
      exact if_pos part
    rw [same]
    by_cases waits : s.waitMore = true
    · refine iff_of_true (.inr (.inr (.inr (.inl waits)))) ⟨?_, ?_⟩
      · exact fun stalled => by cases waits.symm.trans stalled.2.1
      · exact fun sizeless => by cases waits.symm.trans sizeless.2.1
    · refine iff_of_false ?_ fun free =>
        free.1 ⟨imported, eq_false_of_ne_true waits, header, part⟩
      rintro (less | gone | none | wait | ⟨fresh, -⟩ | ⟨-, few⟩)
      · exact absurd less (BitVec.lt_irrefl _)
      · cases connected.symm.trans gone
      · exact short (none.symm ▸ by decide)
      · exact waits wait
      · cases imported.symm.trans fresh
      · exact short few
  have whole : needed s.rxBuf ≤ s.rxLen := BitVec.not_lt.mp part
  rw [handleUrb_whole device header whole]
  have handled := handled_handleCommand device (s.note 0 48)
  have command := handleCommand_payload device (s := s.note 0 48) imported
  generalize (s.note 0 48).handleCommand device = s₁ at handled command
  simp only [Leaves, takePacket_connected, takePacket_imported, takePacket_waitMore,
    takePacket_rxLen]
  rcases handled with kept | dropped
  · have up : s₁.connected = true := kept.connected.trans connected
    have size : s₁.rxLen = s.rxLen := kept.rxLen
    by_cases waits : s.waitMore = true
    · refine iff_of_true (.inr (.inr (.inr (.inl (kept.waitMore.trans waits))))) ⟨?_, ?_⟩
      · exact fun stalled => by cases waits.symm.trans stalled.2.1
      · exact fun sizeless => by cases waits.symm.trans sizeless.2.1
    have goesOn : s.waitMore = false := eq_false_of_ne_true waits
    by_cases sizeless : needed s.rxBuf = 0
    · -- the connection has held, so the answer has fitted
      have fits : s.Fits 48 := by
        by_contra full
        have dropped := (command (hasPayload_of_needed sizeless)).2 full
        cases up.symm.trans dropped.connected
      refine iff_of_false ?_ fun free => free.2 ⟨imported, goesOn, header, sizeless, fits⟩
      have zero : s.rxLen - 0 = s.rxLen := BitVec.sub_zero _
      rw [sizeless, size, zero]
      rintro (less | gone | none | wait | ⟨fresh, -⟩ | ⟨-, few⟩)
      · exact absurd less (BitVec.lt_irrefl _)
      · cases up.symm.trans gone
      · exact short (none.symm ▸ by decide)
      · exact waits (kept.waitMore.symm.trans wait)
      · cases (kept.imported.trans imported).symm.trans fresh
      · exact short few
    · refine iff_of_true (.inl ?_) ⟨?_, ?_⟩
      · rw [size]
        exact sub_lt_self (by bv_omega) whole
      · exact fun stalled => BitVec.not_lt.mpr whole stalled.2.2.2
      · exact fun empty => sizeless empty.2.2.2.1
  · refine iff_of_true (.inr (.inl dropped.connected)) ⟨?_, ?_⟩
    · exact fun stalled => BitVec.not_lt.mpr whole stalled.2.2.2
    · rintro ⟨-, -, -, sizeless, fits⟩
      have kept := ((command (hasPayload_of_needed sizeless)).1 fits).1
      cases (kept.connected.trans connected).symm.trans dropped.connected

theorem progresses_iff {s : Usbip σ} (goes : s.LoopGoes) :
    s.Progresses device ↔ ¬ s.Stalled ∧ ¬ s.Sizeless := by
  cases imported : s.imported with
  | true => exact progresses_urb_iff device goes.1 imported
  | false =>
    refine iff_of_true (progresses_mgmt device imported) ⟨?_, ?_⟩
    · exact fun stalled => nomatch imported.symm.trans stalled.1
    · exact fun sizeless => nomatch imported.symm.trans sizeless.1

inductive Reaches (s : Usbip σ) : Usbip σ → Prop
  | start (goes : s.LoopGoes) : Reaches s s
  | next {t : Usbip σ} (reached : Reaches s t) (stays : ¬ (t.handlePacket device).Leaves)
    (goes : (t.handlePacket device).LoopGoes) : Reaches s (t.handlePacket device)

theorem handlePacket_stalled {s : Usbip σ} (stalled : s.Stalled) :
    s.handlePacket device = s.note 0 48 := by
  obtain ⟨imported, -, header, part⟩ := stalled
  rw [handlePacket, imported, if_pos rfl, handleUrb, if_neg (BitVec.not_lt.mpr header)]
  exact if_pos part

theorem handlePacket_sizeless {s : Usbip σ} (sizeless : s.Sizeless) :
    (s.handlePacket device).rxLen = s.rxLen ∧
      (s.handlePacket device).txBuf.length = s.txBuf.length + 48 := by
  obtain ⟨imported, -, header, empty, fits⟩ := sizeless
  obtain ⟨kept, length⟩ := (handleCommand_payload device (s := s.note 0 48) imported
    (hasPayload_of_needed empty)).1 fits
  rw [handlePacket, imported, if_pos rfl, handleUrb_whole device header (by rw [empty]; bv_omega),
    takePacket_rxLen, takePacket_txBuf, empty, length, kept.rxLen]
  exact ⟨BitVec.sub_zero _, rfl⟩

theorem rank_lt {s : Usbip σ} (goes : s.LoopGoes) (free : ¬ s.Stalled)
    (stays : ¬ (s.handlePacket device).Leaves) (goes' : (s.handlePacket device).LoopGoes) :
    (s.handlePacket device).rank < s.rank := by
  by_cases sizeless : s.Sizeless
  · obtain ⟨same, length⟩ := handlePacket_sizeless device sizeless
    have fits := sizeless.2.2.2.2.resolve_left nofun
    rw [rank, rank, same, length]
    omega
  · rcases (progresses_iff device goes).mpr ⟨free, sizeless⟩ with less | gone | leaves
    · rw [BitVec.lt_def] at less
      have step := Nat.mul_le_mul_right (txSize + 1) (Nat.succ_le_of_lt less)
      rw [rank, rank]
      rw [Nat.succ_mul] at step
      omega
    · exact nomatch gone.symm.trans goes'.1
    · exact absurd leaves stays

theorem packetLoop_of_free {n : Nat} {s : Usbip σ} (enough : s.rank + 1 < n)
    (free : ∀ t, s.Reaches device t → ¬ t.Stalled) : (s.packetLoop device n).isSome := by
  induction n generalizing s with
  | zero => exact absurd enough (Nat.not_lt_zero _)
  | succ n ih =>
    rw [packetLoop]
    split
    · rename_i goes
      dsimp only
      split
      · rfl
      rename_i stays
      by_cases goes' : (s.handlePacket device).LoopGoes
      · have less := rank_lt device goes (free s (.start goes)) stays goes'
        refine ih (by omega) fun t reached => free t ?_
        induction reached with
        | start => exact .next (.start goes) stays goes'
        | next _ stays goes ih => exact .next ih stays goes
      · cases n with
        | zero => omega
        | succ n =>
          rw [packetLoop, if_neg goes']
          rfl
    · rfl

theorem packetLoop_stalled {s : Usbip σ} (goes : s.LoopGoes) (stalled : s.Stalled) (n : Nat) :
    s.packetLoop device n = none := by
  induction n generalizing s with
  | zero => rfl
  | succ n ih =>
    rw [packetLoop, if_pos goes]
    dsimp only
    rw [handlePacket_stalled device stalled, if_neg]
    · exact ih (s := s.note 0 48) goes stalled
    · rintro (none | waits | ⟨fresh, -⟩ | ⟨-, few⟩)
      · exact absurd (none ▸ goes.2) (BitVec.lt_irrefl _)
      · cases stalled.2.1.symm.trans waits
      · cases stalled.1.symm.trans fresh
      · exact BitVec.not_lt.mpr stalled.2.2.1 few

theorem packetLoop_reached {s t : Usbip σ} (reached : s.Reaches device t)
    (ends : ∃ n, (s.packetLoop device n).isSome) : ∃ n, (t.packetLoop device n).isSome := by
  induction reached with
  | start => exact ends
  | @next t reached stays goes' ih =>
    obtain ⟨n, ends⟩ := ih
    have goes : t.LoopGoes := by
      cases reached with
      | start goes => exact goes
      | next _ _ goes => exact goes
    cases n with
    | zero => exact nomatch ends
    | succ n =>
      rw [packetLoop, if_pos goes] at ends
      dsimp only at ends
      rw [if_neg stays] at ends
      exact ⟨n, ends⟩

/-- The packet loop ends, each pass on the way to there with a byte less, without the client, or
out of the loop. -/
def EndsByProgress (s : Usbip σ) : Prop :=
  (∃ n, (s.packetLoop device n).isSome) ∧ ∀ t, s.Reaches device t → t.Progresses device

/-- The loop ends exactly where no pass begins at a submission whose bytes are not all there, or
whose size wraps to zero. -/
theorem packet_loop_ends_iff (s : Usbip σ) :
    s.EndsByProgress device ↔ ∀ t, s.Reaches device t → ¬ t.Stalled ∧ ¬ t.Sizeless := by
  have goes {t : Usbip σ} (reached : s.Reaches device t) : t.LoopGoes := by
    cases reached with
    | start goes => exact goes
    | next _ _ goes => exact goes
  constructor
  · exact fun ends t reached => (progresses_iff device (goes reached)).mp (ends.2 t reached)
  · intro free
    refine ⟨⟨s.rank + 2, packetLoop_of_free device (Nat.lt_succ_self _) fun t reached =>
      (free t reached).1⟩, fun t reached => (progresses_iff device (goes reached)).mpr (free t reached)⟩

theorem packetLoop_isSome_iff (s : Usbip σ) : (s.packetLoop device (s.rank + 2)).isSome ↔
    ∀ t, s.Reaches device t → ¬ t.Stalled := by
  refine ⟨fun ends t reached stalled => ?_, packetLoop_of_free device (Nat.lt_succ_self _)⟩
  have goes : t.LoopGoes := by
    cases reached with
    | start goes => exact goes
    | next _ _ goes => exact goes
  obtain ⟨n, some⟩ := packetLoop_reached device reached ⟨_, ends⟩
  rw [packetLoop_stalled device goes stalled n] at some
  cases some

end

def sink : UsbDevice Unit where
  epOut _ _ _ _ _ := (true, ())
  epIn _ _ _ := (none, ())
  busReset _ := ()

def session (data : List Byte) : Usbip Unit :=
  (((start ()).acceptClient.receive (.bytes importRequest)).handlePacket sink).receive (.bytes data)

theorem partial_submission_spins :
    ¬ (session (submitHeader 1 0 1 64)).EndsByProgress sink := by
  have goes : (session (submitHeader 1 0 1 64)).LoopGoes := by decide +kernel
  have stalled : (session (submitHeader 1 0 1 64)).Stalled := by decide +kernel
  rintro ⟨⟨n, ends⟩, -⟩
  rw [packetLoop_stalled sink goes stalled n] at ends
  cases ends

end M33mu.Usbip
