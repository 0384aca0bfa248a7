import M33mu.UsbipBuffer
import Mathlib.Algebra.BigOperators.Fin
import Mathlib.Algebra.Order.BigOperators.Group.Finset

namespace M33mu

namespace UsbipEvent

def submits (q : Word) : UsbipEvent → Bool
  | .submit seqnum => seqnum = q
  | _ => false

def answers (q : Word) : UsbipEvent → Bool
  | .retSubmit seqnum _ => seqnum = q
  | _ => false

def cancels (q : Word) : UsbipEvent → Bool
  | .retUnlink _ unlinked status => unlinked = q ∧ status = Usbip.econnreset
  | _ => false

end UsbipEvent

def UsbipPending.waits (p : UsbipPending) (q : Word) : Nat :=
  if p.active = true ∧ p.seqnum = q then 1 else 0

namespace Usbip

variable {σ : Type u}

def noted (s : Usbip σ) (f : UsbipEvent → Bool) : Nat :=
  (s.trace.takeWhile (· ≠ .accepted)).countP f

def submitted (s : Usbip σ) (q : Word) : Nat := s.noted (UsbipEvent.submits q)
def answered (s : Usbip σ) (q : Word) : Nat := s.noted (UsbipEvent.answers q)
def cancelled (s : Usbip σ) (q : Word) : Nat := s.noted (UsbipEvent.cancels q)

def slot (s : Usbip σ) (q : Word) : Nat :=
  if s.statusOutHostPending = true ∧ s.statusOutSeqnum = q then 1 else 0

def outstanding (s : Usbip σ) (q : Word) : Nat := ∑ i, (s.pending i).waits q + s.slot q

def Balanced (s : Usbip σ) : Prop :=
  ∀ q, s.submitted q = s.answered q + s.cancelled q + s.outstanding q

def Live (s : Usbip σ) : Prop :=
  ∀ i, (s.pending i).active = true → (s.pending i).cancelled = false

def Taken (s : Usbip σ) : Prop := ∀ n held, .consume n held ∈ s.trace → 0 < n

structure Accounted (s : Usbip σ) : Prop where
  balanced : s.connected = true → s.Balanced
  live : s.Live
  taken : s.Taken

def owed (s : Usbip σ) (q : Word) : Int := s.submitted q - s.answered q - s.outstanding q

theorem balanced_iff {s : Usbip σ} : s.Balanced ↔ ∀ q, s.owed q = s.cancelled q := by
  refine forall_congr' fun q => ?_
  rw [owed]
  omega

theorem noted_record (s : Usbip σ) {e : UsbipEvent} (here : e ≠ .accepted) (f : UsbipEvent → Bool) :
    (s.record e).noted f = s.noted f + if f e then 1 else 0 := by
  have later : (s.record e).trace.takeWhile (· ≠ .accepted) =
      e :: s.trace.takeWhile (· ≠ .accepted) :=
    List.takeWhile_cons_of_pos (decide_eq_true here)
  rw [noted, later, List.countP_cons, noted]

def one (n q : Word) : Int := if n = q then 1 else 0

/-- The account of a step that cancels nothing: `d` is what it adds to what is owed, unless it drops
the client. -/
structure Moves (s t : Usbip σ) (d : Word → Int) : Prop where
  cancelled : ∀ q, t.cancelled q = s.cancelled q
  owed : t.connected = true → ∀ q, t.owed q = s.owed q + d q
  live : s.Live → t.Live

theorem Moves.trans {s t u : Usbip σ} {d e : Word → Int} (first : s.Moves t d)
    (second : t.Moves u e) (up : u.connected = true → t.connected = true) :
    s.Moves u (fun q => d q + e q) where
  cancelled q := (second.cancelled q).trans (first.cancelled q)
  owed connected q := by rw [second.owed connected, first.owed (up connected), Int.add_assoc]
  live live := second.live (first.live live)

theorem Moves.eq {s t : Usbip σ} {d e : Word → Int} (moves : s.Moves t d) (same : ∀ q, d q = e q) :
    s.Moves t e :=
  funext same ▸ moves

theorem moves_slot {s t : Usbip σ} (trace : t.trace = s.trace) (pending : t.pending = s.pending) :
    s.Moves t fun q => s.slot q - t.slot q where
  cancelled q := by rw [cancelled, noted, trace, cancelled, noted]
  owed _ q := by
    simp only [Usbip.owed, submitted, answered, outstanding, noted, trace, pending]
    omega
  live live := by
    rw [Live, pending]
    exact live

theorem moves_same {s t : Usbip σ} (trace : t.trace = s.trace) (pending : t.pending = s.pending)
    (host : t.statusOutHostPending = s.statusOutHostPending)
    (seqnum : t.statusOutSeqnum = s.statusOutSeqnum) : s.Moves t fun _ => 0 := by
  refine (moves_slot trace pending).eq fun q => ?_
  rw [slot, slot, host, seqnum]
  exact Int.sub_self _

theorem moves_drop {s t : Usbip σ} (d : Word → Int) (trace : t.trace = s.trace)
    (pending : t.pending = fun _ => .empty) (gone : t.connected = false) : s.Moves t d where
  cancelled q := by rw [cancelled, noted, trace, cancelled, noted]
  owed connected := nomatch gone.symm.trans connected
  live _ i active := by
    rw [pending] at active
    cases active

theorem moves_record (s : Usbip σ) {e : UsbipEvent} (here : e ≠ .accepted)
    (keeps : ∀ q, e.cancels q = false) :
    s.Moves (s.record e) fun q => (if e.submits q then 1 else 0) - if e.answers q then 1 else 0 where
  cancelled q := by
    rw [cancelled, noted_record s here, keeps]
    rfl
  owed _ q := by
    have same : (s.record e).outstanding q = s.outstanding q := rfl
    rw [Usbip.owed, submitted, answered, noted_record s here, noted_record s here, same, Usbip.owed,
      submitted, answered]
    push_cast
    omega
  live live := live

theorem moves_submit (s : Usbip σ) (n : Word) : s.Moves (s.record (.submit n)) (one n) := by
  refine (moves_record s (e := .submit n) nofun fun _ => rfl).eq fun q => ?_
  simp only [UsbipEvent.submits, UsbipEvent.answers, one, decide_eq_true_eq]
  exact Int.sub_zero _

theorem moves_retSubmit (s : Usbip σ) (n status : Word) :
    s.Moves (s.record (.retSubmit n status)) fun q => -one n q := by
  refine (moves_record s (e := .retSubmit n status) nofun fun _ => rfl).eq fun q => ?_
  simp only [UsbipEvent.submits, UsbipEvent.answers, one, decide_eq_true_eq]
  exact Int.zero_sub _

theorem moves_note (s : Usbip σ) (off n : Nat) : s.Moves (s.note off n) fun _ => 0 :=
  moves_record s (e := .read off n s.rxLen) nofun fun _ => rfl

theorem moves_consume (s : Usbip σ) (n : Size) : s.Moves (s.consume n) fun _ => 0 := by
  have noted := moves_record s (e := .consume n s.rxLen) nofun fun _ => rfl
  exact noted.trans (moves_same (t := s.consume n) rfl rfl rfl rfl) id

theorem moves_takePacket (s : Usbip σ) (n : Size) : s.Moves (s.takePacket n) fun _ => 0 := by
  rw [takePacket]
  split
  · have down : s.Moves (s.moveDown n) fun _ => 0 := moves_same rfl rfl rfl rfl
    exact down.trans (moves_consume (s.moveDown n) n) id
  · exact moves_consume s n

theorem sum_waits_update (pending : Fin 16 → UsbipPending) (i : Fin 16) (p : UsbipPending)
    (q : Word) :
    ∑ j, (Function.update pending i p j).waits q + (pending i).waits q =
      ∑ j, (pending j).waits q + p.waits q := by
  have inside (j : Fin 16) : (Function.update pending i p j).waits q =
      Function.update (fun j => (pending j).waits q) i (p.waits q) j :=
    Function.apply_update (fun _ p => p.waits q) pending i p j
  rw [Finset.sum_congr rfl fun j _ => inside j, Finset.sum_update_of_mem (Finset.mem_univ i),
    Finset.sum_eq_add_sum_sdiff_singleton_of_mem (Finset.mem_univ i) fun j => (pending j).waits q]
  omega

theorem moves_setPending (s : Usbip σ) (i : Fin 16) {p : UsbipPending}
    (live : p.active = true → p.cancelled = false) :
    s.Moves (s.setPending i p) fun q => (s.pending i).waits q - p.waits q where
  cancelled _ := rfl
  owed _ q := by
    have submitted : (s.setPending i p).submitted q = s.submitted q := rfl
    have answered : (s.setPending i p).answered q = s.answered q := rfl
    have slot : (s.setPending i p).slot q = s.slot q := rfl
    have update := sum_waits_update s.pending i p q
    rw [Usbip.owed, Usbip.owed, submitted, answered, outstanding, outstanding, slot, setPending]
    dsimp only
    omega
  live here j active := by
    have table : (s.setPending i p).pending = Function.update s.pending i p := rfl
    rw [table] at active ⊢
    by_cases same : j = i
    · subst same
      rw [Function.update_self] at active ⊢
      exact live active
    · rw [Function.update_of_ne same] at active ⊢
      exact here j active

theorem slot_free {s : Usbip σ} (free : s.statusOutHostPending = false) (q : Word) :
    s.slot q = 0 := by
  rw [slot, free]
  exact if_neg fun waits => nomatch waits.1

theorem moves_answered {s t : Usbip σ} {n status : Word}
    (trace : t.trace = .retSubmit n status :: s.trace) (pending : t.pending = s.pending)
    (connected : t.connected = s.connected) :
    s.Moves t fun q => s.slot q - t.slot q - one n q := by
  have settled : (s.record (.retSubmit n status)).Moves t fun q => s.slot q - t.slot q :=
    moves_slot trace pending
  exact ((moves_retSubmit s n status).trans settled connected.symm.trans).eq fun q => by omega

theorem moves_answered_same {s t : Usbip σ} {n status : Word}
    (trace : t.trace = .retSubmit n status :: s.trace) (pending : t.pending = s.pending)
    (connected : t.connected = s.connected) (host : t.statusOutHostPending = s.statusOutHostPending)
    (seqnum : t.statusOutSeqnum = s.statusOutSeqnum) : s.Moves t fun q => -one n q := by
  refine (moves_answered trace pending connected).eq fun q => ?_
  rw [slot, slot, host, seqnum, Int.sub_self, Int.zero_sub]

theorem moves_answered_free {s t : Usbip σ} {n status : Word}
    (trace : t.trace = .retSubmit n status :: s.trace) (pending : t.pending = s.pending)
    (connected : t.connected = s.connected) (free : t.statusOutHostPending = false) :
    s.Moves t fun q => s.slot q - one n q := by
  refine (moves_answered trace pending connected).eq fun q => ?_
  rw [slot_free free]
  exact congrArg (· - one n q) (Int.sub_zero _)

theorem moves_answer (s : Usbip σ) (u : Submit) (status : Word) (payload : List Byte) :
    s.Moves (orReset (u.answer s status payload)) fun q => -one u.seqnum q := by
  rw [Submit.answer]
  obtain ⟨bytes, sent | failed⟩ :=
    sendRetSubmit_cases s u.seqnum u.devid u.direction u.ep status payload
  · rw [sent]
    exact moves_answered_same rfl rfl rfl rfl rfl
  · rw [failed]
    exact moves_drop _ rfl rfl rfl

theorem connected_orReset {s : Usbip σ} {u : Submit} {status : Word} {payload : List Byte}
    (up : (orReset (u.answer s status payload)).connected = true) : s.connected = true :=
  (handled_orReset (kept_sendRetSubmit ..)).up up

section

variable (device : UsbDevice σ)

theorem moves_handleOut (s : Usbip σ) (u : Submit) (payload : Nat → Byte) (hasPayload : Bool) :
    s.Moves (s.handleOut device u payload hasPayload) fun q =>
      (if u.isControl = true ∧ u.transferLen = 0 then (s.slot q : Int) else 0) - one u.seqnum q := by
  rw [handleOut]
  split
  · rename_i sends
    have some : ¬ (u.isControl = true ∧ u.transferLen = 0) :=
      fun status => BitVec.lt_irrefl _ (status.2 ▸ sends.1)
    have taken : (s.note 48 u.transferLen.toNat).Moves
        ((s.note 48 u.transferLen.toNat).epOut device u.ep payload u.transferLen false).2
        fun _ => 0 := moves_same rfl rfl rfl rfl
    have answer := moves_answer
      ((s.note 48 u.transferLen.toNat).epOut device u.ep payload u.transferLen false).2 u 0 []
    have all := (moves_note s 48 u.transferLen.toNat).trans (taken.trans answer connected_orReset)
      connected_orReset
    refine all.eq fun q => ?_
    rw [if_neg some]
    omega
  split
  · rename_i status
    rw [epOut_eq]
    generalize device.epOut s.dev 0 (fun _ => 0) 0 false = r
    obtain ⟨accepted, dev⟩ := r
    cases accepted with
    | true =>
      dsimp only
      rw [Submit.answer]
      obtain ⟨bytes, sent | failed⟩ := sendRetSubmit_cases { s with dev := dev }
        u.seqnum u.devid u.direction u.ep 0 []
      · rw [sent]
        exact Moves.eq (moves_answered_free rfl rfl rfl rfl) fun q => rfl
      · rw [failed]
        exact moves_drop _ rfl rfl rfl
    | false =>
      have waits : s.Moves { s with
          dev := dev
          pendingStatusOut := true
          statusOutHostPending := true
          statusOutSeqnum := u.seqnum
          statusOutDevid := u.devid } fun q => s.slot q - slot _ q := moves_slot rfl rfl
      refine waits.eq fun q => ?_
      simp only [slot, one, true_and]
      push_cast
      rfl
  · rename_i other
    exact (moves_answer s u 0 []).eq fun q => (Int.zero_sub _).symm

theorem inactive_of_allocPending {s : Usbip σ} {i : Fin 16} (free : s.allocPending = some i) :
    (s.pending i).active = false := by
  have found := List.find?_some free
  rwa [Bool.not_eq_true'] at found

theorem moves_waitFor (s : Usbip σ) (u : Submit) (data : List Byte) :
    s.Moves (s.waitFor u data) fun q =>
      if s.allocPending = none ∧ ¬ s.Fits 48 then 0 else -one u.seqnum q := by
  rw [waitFor]
  split
  · rename_i i free
    have room : ¬ (s.allocPending = none ∧ ¬ s.Fits 48) := fun full => by cases free.symm.trans full.1
    have unused (q : Word) : (s.pending i).waits q = 0 :=
      if_neg fun waits => Bool.false_ne_true ((inactive_of_allocPending free).symm.trans waits.1)
    refine (moves_setPending s i fun _ => rfl).eq fun q => ?_
    rw [if_neg room, unused]
    simp only [UsbipPending.waits, Submit.pending, one, true_and]
    push_cast
    exact Int.zero_sub _
  · rename_i none'
    have size := replySize_nil u.direction
    by_cases fits : s.Fits 48
    · obtain ⟨bytes, -, sent⟩ := sendRetSubmit_of_fits u.seqnum u.devid u.ep eagain (size ▸ fits)
      rw [Submit.answer, sent]
      exact Moves.eq (moves_answered_same rfl rfl rfl rfl rfl) fun q =>
        (if_neg fun full => full.2 fits).symm
    · have failed := sendRetSubmit_of_not_fits u.seqnum u.devid u.ep eagain (size ▸ fits)
      obtain ⟨bytes, sent | eq⟩ :=
        sendRetSubmit_cases s u.seqnum u.devid u.direction u.ep eagain []
      · cases failed.symm.trans (congrArg Prod.fst sent)
      · rw [Submit.answer, eq]
        exact Moves.eq (moves_same rfl rfl rfl rfl) fun q => (if_pos ⟨none', fits⟩).symm

theorem moves_handleIn (s : Usbip σ) (u : Submit) :
    s.Moves (s.handleIn device u) fun q =>
      if inReply device s.dev u = none ∧ s.allocPending = none ∧ ¬ s.Fits 48 then 0
      else -one u.seqnum q := by
  rw [handleIn, inReply]
  dsimp only
  rw [epIn_eq]
  generalize device.epIn s.dev u.ep _ = r
  obtain ⟨payload, dev⟩ := r
  have waits (data : List Byte) := moves_waitFor { s with dev := dev } u data
  have taken : s.Moves { s with dev := dev } fun _ => 0 := moves_same rfl rfl rfl rfl
  cases payload with
  | none =>
    refine (taken.trans (waits []) ?_).eq fun q => ?_
    · exact (kept_waitFor ..).connected.symm.trans
    · simp only [true_and]
      exact Int.zero_add _
  | some payload =>
    dsimp only
    split
    · refine (taken.trans (waits payload) ?_).eq fun q => ?_
      · exact (kept_waitFor ..).connected.symm.trans
      · simp only [true_and]
        exact Int.zero_add _
    · have answered := taken.trans (moves_answer { s with dev := dev } u 0 payload) connected_orReset
      generalize orReset (Submit.answer { s with dev := dev } u 0 payload) = t at answered
      have status : t.Moves { t with pendingStatusOut := t.pendingStatusOut || u.isControl }
        fun _ => 0 := moves_same rfl rfl rfl rfl
      refine (answered.trans status id).eq fun q => ?_
      simp only [reduceCtorEq, false_and, if_false]
      omega

theorem moves_begun (s : Usbip σ) : s.Moves (s.begun device) (one (submitOf s.rxBuf).seqnum) := by
  rw [begun_eq]
  have dev : (s.record (.submit (submitOf s.rxBuf).seqnum)).Moves { s.record (.submit
      (submitOf s.rxBuf).seqnum) with dev := s.setUp device (submitOf s.rxBuf) } fun _ => 0 :=
    moves_same rfl rfl rfl rfl
  exact ((moves_submit s (submitOf s.rxBuf).seqnum).trans dev id).eq fun q => Int.add_zero _

/-- What a submission leaves unsettled: the status stage that it displaces, itself where it can
neither wait nor be told so, and itself where its direction is neither to nor from the device. -/
def loss (s : Usbip σ) (q : Word) : Int :=
  let u := submitOf s.rxBuf
  if u.direction = 0 then if u.isControl = true ∧ u.transferLen = 0 then s.slot q else 0
  else if u.direction = 1 then
    if s.promptReply device = none ∧ s.allocPending = none ∧ ¬ s.Fits 48 then one u.seqnum q else 0
  else one u.seqnum q

theorem moves_handleSubmit {s : Usbip σ} (imported : s.imported = true)
    (command : field s.rxBuf 0 = cmdSubmit) :
    s.Moves (s.handleSubmit device (hasPayload s.rxBuf)) (s.loss device) := by
  have begins := moves_begun device s
  rw [handleSubmit_eq device imported command]
  split
  · rename_i out
    have handles := moves_handleOut device (s.begun device) (submitOf s.rxBuf)
      (fun i => s.rxBuf (48 + i)) (hasPayload s.rxBuf)
    have same : (s.begun device).rxBuf = s.rxBuf := by
      rw [begun_eq]
      rfl
    refine (begins.trans handles (handled_handleOut device _ _ fun payload => ?_).up).eq fun q => ?_
    · rw [Asks, same]
      exact ⟨payload, rfl, rfl, rfl⟩
    · have slot : (s.begun device).slot q = s.slot q := by
        rw [begun_eq]
        rfl
      rw [slot, loss, if_pos out]
      omega
  split
  · rename_i other in'
    have handles := moves_handleIn device (s.begun device) (submitOf s.rxBuf)
    have reply : inReply device (s.begun device).dev (submitOf s.rxBuf) = s.promptReply device := by
      rw [begun_eq, promptReply, if_neg other, if_pos in']
    have free : (s.begun device).allocPending = s.allocPending := by
      rw [begun_eq]
      rfl
    have queue : (s.begun device).txBuf = s.txBuf := by
      rw [begun_eq]
      rfl
    refine (begins.trans handles (handled_handleIn ..).up).eq fun q => ?_
    simp only [reply, free, Fits.congr queue, loss, if_neg other, if_pos in']
    split <;> omega
  · rename_i other other'
    refine begins.eq fun q => ?_
    rw [loss, if_neg other, if_neg other']

theorem taken_of_notes {s t : Usbip σ} (taken : s.Taken) (notes : s.Notes t) : t.Taken := by
  obtain ⟨es, trace, asks⟩ := notes
  intro n held member
  rw [trace] at member
  rcases List.mem_append.mp member with new | old
  · exact (asks _ new).elim
  · exact taken n held old

theorem taken_of_record {s t : Usbip σ} (taken : s.Taken) {e : UsbipEvent}
    (trace : t.trace = e :: s.trace) (other : ∀ n held, e ≠ .consume n held) : t.Taken := by
  intro n held member
  rw [trace] at member
  rcases List.mem_cons.mp member with new | old
  · exact absurd new.symm (other n held)
  · exact taken n held old

theorem taken_takePacket_iff {s : Usbip σ} (taken : s.Taken) (n : Size) :
    (s.takePacket n).Taken ↔ 0 < n := by
  constructor
  · intro after
    refine after n s.rxLen ?_
    rw [trace_takePacket]
    exact List.mem_cons_self
  · intro some m held member
    rw [trace_takePacket] at member
    rcases List.mem_cons.mp member with new | old
    · cases new
      exact some
    · exact taken m held old

theorem Moves.balanced {s t : Usbip σ} (moves : s.Moves t fun _ => 0) (up : t.connected = true) :
    t.Balanced ↔ s.Balanced := by
  rw [balanced_iff, balanced_iff]
  refine forall_congr' fun q => ?_
  rw [moves.owed up, moves.cancelled, Int.add_zero]

theorem Moves.accounted {s t : Usbip σ} (moves : s.Moves t fun _ => 0) (account : s.Accounted)
    (up : t.connected = true → s.connected = true) (taken : t.Taken) : t.Accounted :=
  ⟨fun here => (moves.balanced here).mpr (account.balanced (up here)), moves.live account.live, taken⟩

theorem accounted_iff {s t : Usbip σ} {d : Word → Int} (account : s.Accounted)
    (connected : s.connected = true) (moves : s.Moves t d) (taken : t.Taken) :
    t.Accounted ↔ (t.connected = true → ∀ q, d q = 0) := by
  have before := balanced_iff.mp (account.balanced connected)
  constructor
  · intro after up q
    have now := balanced_iff.mp (after.balanced up) q
    rw [moves.owed up, before, moves.cancelled] at now
    omega
  · intro none'
    refine ⟨fun up => balanced_iff.mpr fun q => ?_, moves.live account.live, taken⟩
    rw [moves.owed up, before, moves.cancelled, none' up, Int.add_zero]

theorem sendRetUnlink_of_fits {s : Usbip σ} (fits : s.Fits 48)
    (seqnum devid direction ep unlinked status : Word) :
    ∃ bytes, s.sendRetUnlink seqnum devid direction ep unlinked status =
      (true, { s with txBuf := s.txBuf ++ bytes }.record (.retUnlink seqnum unlinked status)) := by
  rw [sendRetUnlink, txQueue_of_fits]
  · exact ⟨_, rfl⟩
  · rw [retUnlinkHeader, length_flatMap_htonl]
    exact fits

theorem sendRetUnlink_of_not_fits {s : Usbip σ} (full : ¬ s.Fits 48)
    (seqnum devid direction ep unlinked status : Word) :
    s.sendRetUnlink seqnum devid direction ep unlinked status = (false, s) := by
  rw [sendRetUnlink, txQueue_of_not_fits]
  rw [retUnlinkHeader, length_flatMap_htonl]
  exact full

theorem noted_congr {s t : Usbip σ} (trace : t.trace = s.trace) (f : UsbipEvent → Bool) :
    t.noted f = s.noted f := by
  rw [noted, noted, trace]

theorem unlinked_iff {s t : Usbip σ} {seqnum n : Word}
    (trace : t.trace = .retUnlink seqnum n econnreset :: s.trace) (pending : t.pending = s.pending)
    (host : t.statusOutHostPending = s.statusOutHostPending)
    (slot' : t.statusOutSeqnum = s.statusOutSeqnum) (q : Word) :
    t.cancelled q = s.cancelled q + (if n = q then 1 else 0) ∧ t.owed q = s.owed q := by
  have later := noted_congr (s := s.record (.retUnlink seqnum n econnreset)) trace
  have noted (f : UsbipEvent → Bool) :=
    (later f).trans (noted_record s (e := .retUnlink seqnum n econnreset) nofun f)
  have waits : t.outstanding q = s.outstanding q := by
    rw [outstanding, outstanding, slot, slot, pending, host, slot']
  constructor
  · rw [cancelled, noted, cancelled]
    simp only [UsbipEvent.cancels, and_true, decide_eq_true_eq]
  · rw [Usbip.owed, submitted, answered, noted, noted, waits]
    rfl

theorem findPending_eq_some {s : Usbip σ} {q : Word} {i : Fin 16} (found : s.findPending q = some i) :
    (s.pending i).waits q = 1 := by
  have here := List.find?_some found
  rw [Bool.and_eq_true, decide_eq_true_eq] at here
  exact if_pos here

theorem waits_alone {p : UsbipPending} {n : Word} (waited : p.waits n = 1) (q : Word) :
    p.waits q = if n = q then 1 else 0 := by
  rw [UsbipPending.waits] at waited ⊢
  have here : p.active = true ∧ p.seqnum = n := by
    by_contra other
    rw [if_neg other] at waited
    cases waited
  rw [here.1, here.2]
  simp only [true_and]

theorem waits_le_outstanding (s : Usbip σ) (i : Fin 16) (q : Word) :
    (s.pending i).waits q ≤ s.outstanding q := by
  have le := Finset.single_le_sum (f := fun j => (s.pending j).waits q)
    (fun j _ => Nat.zero_le _) (Finset.mem_univ i)
  exact Nat.le_trans le (Nat.le_add_right ..)

/-- An unlink of a submission that waits has its place in the accounts where its answer fits, and
cancels no more than waits. -/
theorem accounted_handleUnlink_iff {s : Usbip σ} (account : s.Accounted)
    (connected : s.connected = true) :
    (s.handleUnlink.Accounted ↔ (s.findPending (field s.rxBuf 20) ≠ none → s.Fits 48)) ∧
      ∀ q, s.handleUnlink.cancelled q ≤ s.cancelled q + s.outstanding q := by
  have before := balanced_iff.mp (account.balanced connected)
  rw [handleUnlink]
  dsimp only
  split
  · rename_i i found
    have waited := findPending_eq_some found
    have alone (q : Word) : (s.pending i).waits q = if field s.rxBuf 20 = q then 1 else 0 :=
      waits_alone waited q
    have off := moves_setPending s i
      (p := { s.pending i with cancelled := true, active := false }) fun is => by cases is
    generalize eq : s.setPending i { s.pending i with cancelled := true, active := false } = t at off
    have up : t.connected = true := eq ▸ connected
    have queue : t.txBuf = s.txBuf := eq ▸ rfl
    have taken : t.Taken := eq ▸ account.taken
    have nothing (q : Word) :
        UsbipPending.waits { s.pending i with cancelled := true, active := false } q = 0 :=
      if_neg fun waits => Bool.false_ne_true waits.1
    by_cases fits : s.Fits 48
    · obtain ⟨bytes, sent⟩ := sendRetUnlink_of_fits ((Fits.congr queue).mpr fits) (field s.rxBuf 4)
        (field s.rxBuf 8) (field s.rxBuf 12) (field s.rxBuf 16) (field s.rxBuf 20) econnreset
      rw [sent]
      have named := unlinked_iff (s := t) (t := { t with txBuf := t.txBuf ++ bytes }.record
        (.retUnlink (field s.rxBuf 4) (field s.rxBuf 20) econnreset)) rfl rfl rfl rfl
      generalize hr : { t with txBuf := t.txBuf ++ bytes }.record
        (.retUnlink (field s.rxBuf 4) (field s.rxBuf 20) econnreset) = r at named
      constructor
      · refine iff_of_true ⟨fun _ => balanced_iff.mpr fun q => ?_, ?_, ?_⟩ fun _ => fits
        · rw [(named q).1, (named q).2, off.owed up, off.cancelled, alone, nothing, before]
          push_cast
          exact congrArg _ (Int.sub_zero _)
        · exact hr ▸ off.live account.live
        · exact hr ▸ taken_of_record taken rfl fun _ _ is => by cases is
      · intro q
        rw [(named q).1, off.cancelled, ← alone]
        exact Nat.add_le_add_left (waits_le_outstanding s i q) _
    · rw [sendRetUnlink_of_not_fits fun here => fits ((Fits.congr queue).mp here)]
      constructor
      · rw [accounted_iff account connected off taken]
        refine iff_of_false (fun none' => ?_) fun room =>
          fits (room fun none' => by cases none'.symm.trans found)
        have lost := none' up (field s.rxBuf 20)
        rw [waited, nothing] at lost
        cases lost
      · intro q
        rw [off.cancelled]
        exact Nat.le_add_right ..
  · rename_i none'
    have same : s.Moves (s.sendRetUnlink (field s.rxBuf 4) (field s.rxBuf 8) (field s.rxBuf 12)
        (field s.rxBuf 16) (field s.rxBuf 20) 0).2 fun _ => 0 := by
      obtain ⟨bytes, sent | failed⟩ := sendRetUnlink_cases s (field s.rxBuf 4) (field s.rxBuf 8)
        (field s.rxBuf 12) (field s.rxBuf 16) (field s.rxBuf 20) 0
      · rw [sent]
        have queued : s.Moves { s with txBuf := s.txBuf ++ bytes } fun _ => 0 :=
          moves_same rfl rfl rfl rfl
        have noted := moves_record { s with txBuf := s.txBuf ++ bytes }
          (e := .retUnlink (field s.rxBuf 4) (field s.rxBuf 20) 0) (fun is => by cases is) fun q =>
            decide_eq_false fun cancels => absurd cancels.2 (by decide)
        exact queued.trans noted id
      · rw [failed]
        exact moves_same rfl rfl rfl rfl
    have kept := kept_sendRetUnlink s (field s.rxBuf 4) (field s.rxBuf 8) (field s.rxBuf 12)
      (field s.rxBuf 16) (field s.rxBuf 20) 0
    generalize (s.sendRetUnlink _ _ _ _ _ _).2 = t at same kept
    constructor
    · rw [accounted_iff account connected same (taken_of_notes account.taken kept.notes)]
      exact iff_of_true (fun _ _ => rfl) fun found => absurd none' found
    · intro q
      rw [same.cancelled]
      exact Nat.le_add_right ..

theorem accounted_takePacket_iff {s : Usbip σ} (taken : s.Taken) (n : Size) :
    (s.takePacket n).Accounted ↔ 0 < n ∧ s.Accounted := by
  have moves := moves_takePacket s n
  have connected := takePacket_connected s n
  have pending : (s.takePacket n).pending = s.pending := by
    rw [takePacket]
    split <;> rfl
  have balanced (up : s.connected = true) : (s.takePacket n).Balanced ↔ s.Balanced :=
    moves.balanced (connected.trans up)
  constructor
  · intro account
    refine ⟨(taken_takePacket_iff taken n).mp account.taken, fun up => ?_, ?_, taken⟩
    · exact (balanced up).mp (account.balanced (connected.trans up))
    · have live := account.live
      rwa [Live, pending] at live
  · rintro ⟨some, account⟩
    refine ⟨fun up => ?_, moves.live account.live, (taken_takePacket_iff taken n).mpr some⟩
    rw [connected] at up
    exact (balanced up).mpr (account.balanced up)

theorem accounted_note {s : Usbip σ} (account : s.Accounted) (off n : Nat) :
    (s.note off n).Accounted :=
   (moves_note s off n).accounted account id (taken_of_record account.taken rfl nofun)

def SubmissionKept (s : Usbip σ) : Prop :=
  let u := submitOf s.rxBuf
  if u.direction = 0 then
    u.isControl = true → u.transferLen = 0 → (∀ n ∈ s.promptReply device, s.Fits n) →
      s.statusOutHostPending = false
  else if u.direction = 1 then s.promptReply device = none → s.allocPending = none → s.Fits 48
  else False

def PacketKept (s : Usbip σ) : Prop :=
  s.imported = true → 48 ≤ s.rxLen → needed s.rxBuf ≤ s.rxLen →
    0 < needed s.rxBuf ∧ (field s.rxBuf 0 = cmdSubmit → s.SubmissionKept device) ∧
      (field s.rxBuf 0 = cmdUnlink → s.findPending (field s.rxBuf 20) ≠ none → s.Fits 48)

theorem one_self (n : Word) : one n n = 1 := if_pos rfl

theorem slot_free_iff {s : Usbip σ} : (∀ q, s.slot q = 0) ↔ s.statusOutHostPending = false := by
  refine ⟨fun none' => ?_, slot_free⟩
  by_contra waits
  have here := none' s.statusOutSeqnum
  rw [slot, if_pos ⟨eq_true_of_ne_false waits, rfl⟩] at here
  cases here

theorem loss_free_iff {s : Usbip σ} :
    ((∀ n ∈ s.promptReply device, s.Fits n) → ∀ q, s.loss device q = 0) ↔
      s.SubmissionKept device := by
  simp only [loss, SubmissionKept]
  split
  · split
    · rename_i status
      simp only [Nat.cast_eq_zero, slot_free_iff, status, forall_const]
    · rename_i other
      exact iff_of_true (fun _ _ => rfl) fun control empty => absurd ⟨control, empty⟩ other
  split
  · constructor
    · intro free reply full
      by_contra room
      have lost := free (by rw [reply]; nofun) (submitOf s.rxBuf).seqnum
      rw [if_pos ⟨reply, full, room⟩, one_self] at lost
      cases lost
    · exact fun free _ q => if_neg fun all => all.2.2 (free all.1 all.2.1)
  · rename_i out in'
    refine iff_of_false (fun free => ?_) id
    have reply : s.promptReply device = none := by rw [promptReply, if_neg out, if_neg in']
    have lost := free (by rw [reply]; nofun) (submitOf s.rxBuf).seqnum
    rw [one_self] at lost
    cases lost

def CancelsWaiting (s t : Usbip σ) : Prop := ∀ q, t.cancelled q ≤ s.cancelled q + s.outstanding q

theorem Moves.cancelsWaiting {s t : Usbip σ} {d : Word → Int} (moves : s.Moves t d) :
    s.CancelsWaiting t := fun q => by
  rw [moves.cancelled]
  exact Nat.le_add_right ..

theorem accounted_handleCommand_iff {s : Usbip σ} (account : s.Accounted)
    (connected : s.connected = true) (imported : s.imported = true) :
    ((s.handleCommand device).Accounted ↔
        (field s.rxBuf 0 = cmdSubmit → s.SubmissionKept device) ∧
          (field s.rxBuf 0 = cmdUnlink → s.findPending (field s.rxBuf 20) ≠ none → s.Fits 48)) ∧
      s.CancelsWaiting (s.handleCommand device) := by
  by_cases command : field s.rxBuf 0 = cmdSubmit
  · have other : field s.rxBuf 0 ≠ cmdUnlink := fun unlink =>
      absurd (command.symm.trans unlink) (by decide)
    have moves := moves_handleSubmit device imported command
    have answer := answerFits_handleSubmit device imported command
    have handled := handled_handleSubmit device s
    rw [handleCommand, if_pos command]
    generalize s.handleSubmit device (hasPayload s.rxBuf) = t at moves answer handled
    have taken := taken_of_notes account.taken (handled.elim Kept.notes Dropped.notes)
    have up : t.connected = true ↔ ∀ n ∈ s.promptReply device, s.Fits n := by
      constructor
      · intro up
        by_contra full
        cases (answer.dropped full).connected.symm.trans up
      · exact fun fits => (answer.kept fits).connected.trans connected
    refine ⟨?_, moves.cancelsWaiting⟩
    rw [accounted_iff account connected moves taken, up, loss_free_iff]
    exact ⟨fun kept => ⟨fun _ => kept, fun unlink => absurd unlink other⟩, fun kept => kept.1 command⟩
  · rw [handleCommand, if_neg command]
    split
    · rename_i unlink
      obtain ⟨kept, cancels⟩ := accounted_handleUnlink_iff account connected
      refine ⟨?_, cancels⟩
      rw [kept]
      exact ⟨fun fits => ⟨fun submit => absurd submit command, fun _ => fits⟩, fun all => all.2 unlink⟩
    · rename_i other
      refine ⟨iff_of_true account ⟨fun submit => absurd submit command, fun unlink => absurd unlink other⟩,
        fun q => Nat.le_add_right ..⟩

theorem accounted_handleUrb_iff {s : Usbip σ} (account : s.Accounted)
    (connected : s.connected = true) (imported : s.imported = true) :
    ((s.handleUrb device).Accounted ↔ s.PacketKept device) ∧
      s.CancelsWaiting (s.handleUrb device) := by
  by_cases short : s.rxLen < 48
  · rw [handleUrb, if_pos short]
    exact ⟨iff_of_true account fun _ header => absurd short (BitVec.not_lt.mpr header),
      fun q => Nat.le_add_right ..⟩
  have header : 48 ≤ s.rxLen := BitVec.not_lt.mp short
  have noted := accounted_note account 0 48
  have waits : (s.note 0 48).outstanding = s.outstanding := rfl
  have cancelled := (moves_note s 0 48).cancelled
  by_cases part : s.rxLen < needed s.rxBuf
  · have same : s.handleUrb device = s.note 0 48 := by
      rw [handleUrb, if_neg short]
      exact if_pos part
    rw [same]
    exact ⟨iff_of_true noted fun _ _ whole => absurd part (BitVec.not_lt.mpr whole),
      (moves_note s 0 48).cancelsWaiting⟩
  have whole : needed s.rxBuf ≤ s.rxLen := BitVec.not_lt.mp part
  rw [handleUrb_whole device header whole]
  obtain ⟨kept, cancels⟩ := accounted_handleCommand_iff device noted connected imported
  have handled := handled_handleCommand device (s.note 0 48)
  have taken := taken_of_notes noted.taken (handled.elim Kept.notes Dropped.notes)
  refine ⟨?_, fun q => ?_⟩
  · rw [accounted_takePacket_iff taken, kept]
    exact ⟨fun all _ _ _ => all, fun all => all imported header whole⟩
  · have now := cancels q
    rw [cancelled, waits] at now
    rw [(moves_takePacket ((s.note 0 48).handleCommand device) (needed s.rxBuf)).cancelled]
    exact now

theorem taken_consume {s : Usbip σ} (taken : s.Taken) {n : Size} (some : 0 < n) :
    (s.consume n).Taken := by
  intro m held member
  rcases List.mem_cons.mp member with new | old
  · cases new
    exact some
  · exact taken m held old

structure Quiet (s t : Usbip σ) : Prop where
  moves : s.Moves t fun _ => 0
  up : t.connected = true → s.connected = true
  taken : s.Taken → t.Taken

theorem Quiet.trans {s t u : Usbip σ} (first : s.Quiet t) (second : t.Quiet u) : s.Quiet u :=
  ⟨first.moves.trans second.moves second.up, fun up => first.up (second.up up),
    fun taken => second.taken (first.taken taken)⟩

theorem Quiet.accounted {s t : Usbip σ} (quiet : s.Quiet t) (account : s.Accounted) : t.Accounted :=
  quiet.moves.accounted account quiet.up (quiet.taken account.taken)

theorem quiet_same {s t : Usbip σ} (trace : t.trace = s.trace) (pending : t.pending = s.pending)
    (host : t.statusOutHostPending = s.statusOutHostPending)
    (seqnum : t.statusOutSeqnum = s.statusOutSeqnum) (connected : t.connected = s.connected) :
    s.Quiet t :=
  ⟨moves_same trace pending host seqnum, connected.symm.trans, fun taken => by rwa [Taken, trace]⟩

theorem quiet_drop {s t : Usbip σ} (trace : t.trace = s.trace)
    (pending : t.pending = fun _ => .empty) (gone : t.connected = false) : s.Quiet t :=
  ⟨moves_drop _ trace pending gone, fun up => absurd (gone.symm.trans up) Bool.false_ne_true,
    fun taken => by rwa [Taken, trace]⟩

theorem quiet_note (s : Usbip σ) (off n : Nat) : s.Quiet (s.note off n) :=
  ⟨moves_note s off n, id, fun taken => taken_of_record taken rfl nofun⟩

theorem quiet_taken (s : Usbip σ) {n : Size} (some : 0 < n) :
    s.Quiet ((s.moveDown n).consume n) := by
  have down : s.Quiet (s.moveDown n) := quiet_same rfl rfl rfl rfl rfl
  exact down.trans ⟨moves_consume _ n, id, fun taken => taken_consume taken some⟩

theorem quiet_handleDevlist (s : Usbip σ) : s.Quiet s.handleDevlist := by
  obtain ⟨bytes, eq | eq⟩ := handleDevlist_eq s
  · rw [eq]
    exact quiet_same rfl rfl rfl rfl rfl
  · rw [eq]
    exact quiet_drop rfl rfl rfl

theorem quiet_handleImport (s : Usbip σ) : s.Quiet (s.handleImport device) := by
  by_cases fits : s.Fits 320
  · obtain ⟨bytes, eq⟩ := handleImport_of_fits device fits
    rw [eq]
    exact quiet_same rfl rfl rfl rfl rfl
  · rw [handleImport_of_not_fits device fits]
    exact quiet_drop rfl rfl rfl

theorem quiet_handleMgmt (s : Usbip σ) : s.Quiet (s.handleMgmt device) := by
  have same : s.Quiet s := quiet_same rfl rfl rfl rfl rfl
  have read := quiet_note s 0 4
  rw [handleMgmt]
  split
  · exact same
  dsimp only
  split
  · exact read.trans (quiet_drop rfl rfl rfl)
  split
  · exact (read.trans (quiet_taken _ (by decide))).trans (quiet_handleDevlist _)
  split
  · split
    · exact read.trans (quiet_same rfl rfl rfl rfl rfl)
    · have imported := (read.trans (quiet_note _ 8 32)).trans (quiet_handleImport device _)
      have all := imported.trans (quiet_taken _ (n := 40) (by decide))
      generalize ((((s.note 0 4).note 8 32).handleImport device).moveDown 40).consume 40 = t at all
      exact all.trans (quiet_same rfl rfl rfl rfl rfl)
  · exact read.trans (quiet_drop rfl rfl rfl)

theorem quiet_receive (s : Usbip σ) (r : RecvResult) : s.Quiet (s.receive r) := by
  have same : s.Quiet s := quiet_same rfl rfl rfl rfl rfl
  unfold receive
  generalize BitVec.ofNat 64 rxSize - s.rxLen = space
  dsimp only
  split
  · exact same
  split
  · exact quiet_drop rfl rfl rfl
  · exact quiet_same rfl rfl rfl rfl rfl
  · exact same
  · exact quiet_drop rfl rfl rfl

theorem quiet_txFlushLoop (s : Usbip σ) (sends : List SendResult) :
    s.Quiet (s.txFlushLoop sends) := by
  induction sends generalizing s with
  | nil => exact quiet_same rfl rfl rfl rfl rfl
  | cons r sends ih =>
    have same : s.Quiet s := quiet_same rfl rfl rfl rfl rfl
    cases r
    all_goals
      rw [txFlushLoop]
      split
    · rename_i n _
      have moved : s.Quiet { s with txOff := s.txOff + n } := quiet_same rfl rfl rfl rfl rfl
      exact moved.trans (ih _)
    · exact same
    · exact same
    · exact same
    · exact quiet_drop rfl rfl rfl
    · exact same

theorem quiet_txFlush (s : Usbip σ) (sends : List SendResult) : s.Quiet (s.txFlush sends) := by
  rw [txFlush]
  split
  · exact quiet_same rfl rfl rfl rfl rfl
  dsimp only
  split
  · exact (quiet_txFlushLoop s sends).trans (quiet_same rfl rfl rfl rfl rfl)
  · exact quiet_txFlushLoop s sends

theorem slot_waits {s : Usbip σ} (waits : s.statusOutHostPending = true) (q : Word) :
    (s.slot q : Int) = one s.statusOutSeqnum q := by
  rw [slot, waits, one]
  simp only [true_and]
  push_cast
  rfl

theorem quiet_tryStatusOut (s : Usbip σ) : s.Quiet (s.tryStatusOut device) := by
  have same : s.Quiet s := quiet_same rfl rfl rfl rfl rfl
  rw [tryStatusOut]
  split
  · rename_i waits
    rw [Bool.and_eq_true] at waits
    rw [epOut_eq]
    generalize device.epOut s.dev 0 (fun _ => 0) 0 false = r
    obtain ⟨accepted, dev⟩ := r
    cases accepted with
    | false => exact quiet_same rfl rfl rfl rfl rfl
    | true =>
      dsimp only
      obtain ⟨bytes, sent | failed⟩ := sendRetSubmit_cases { s with dev := dev }
        s.statusOutSeqnum s.statusOutDevid 0 0 0 []
      · rw [sent]
        refine ⟨Moves.eq (moves_answered_free rfl rfl rfl rfl) fun q => ?_, id,
          fun taken => taken_of_record taken rfl fun _ _ is => by cases is⟩
        exact Int.sub_eq_zero.mpr (slot_waits waits.2 q)
      · rw [failed]
        exact quiet_drop rfl rfl rfl
  · exact same

theorem moves_entry {s t : Usbip σ} (i : Fin 16) {p : UsbipPending} (trace : t.trace = s.trace)
    (pending : t.pending = Function.update s.pending i p)
    (host : t.statusOutHostPending = s.statusOutHostPending)
    (seqnum : t.statusOutSeqnum = s.statusOutSeqnum) (connected : t.connected = s.connected)
    (live : p.active = true → p.cancelled = false) :
    s.Moves t fun q => (s.pending i).waits q - p.waits q := by
  have same : (s.setPending i p).Moves t fun _ => 0 := moves_same trace pending host seqnum
  exact ((moves_setPending s i live).trans same connected.symm.trans).eq fun q => Int.add_zero _

theorem waits_inactive {p : UsbipPending} (inactive : p.active = false) (q : Word) :
    p.waits q = 0 :=
  if_neg fun waits => Bool.false_ne_true (inactive.symm.trans waits.1)

theorem waits_active {p : UsbipPending} (active : p.active = true) (q : Word) :
    (p.waits q : Int) = one p.seqnum q := by
  rw [UsbipPending.waits, active, one]
  simp only [true_and]
  push_cast
  rfl

theorem accounted_completeOne_iff {s : Usbip σ} (account : s.Accounted) (i : Fin 16) :
    ((s.completeOne device i).Accounted ↔ (s.connected = true → (s.pending i).active = true →
        ¬ s.Overflows device i)) ∧
      s.CancelsWaiting (s.completeOne device i) := by
  have completes := completes_completeOne device s i
  generalize s.completeOne device i = t at completes
  have kept (quiet : s.Quiet t) (fits : (s.pending i).active = true → ¬ s.Overflows device i) :
      (t.Accounted ↔ (s.connected = true → (s.pending i).active = true →
        ¬ s.Overflows device i)) ∧ s.CancelsWaiting t :=
    ⟨iff_of_true (quiet.accounted account) fun _ => fits, quiet.moves.cancelsWaiting⟩
  cases completes with
  | idle inactive =>
    exact kept (quiet_same rfl rfl rfl rfl rfl) fun active => nomatch inactive.symm.trans active
  | cancelled active gone => exact nomatch gone.symm.trans (account.live i active)
  | waits dev fits => exact kept (quiet_same rfl rfl rfl rfl rfl) fun _ => fits
  | dropped dev fits => exact kept (quiet_drop rfl rfl rfl) fun _ => fits
  | grows dev data fits =>
    refine kept ⟨?_, id, fun taken => taken⟩ fun _ => fits
    exact Moves.eq (moves_entry i rfl rfl rfl rfl rfl (account.live i)) fun q => Int.sub_self _
  | answered dev bytes data statusOut active fits =>
    refine kept ⟨?_, id, fun taken => taken_of_record taken rfl nofun⟩ fun _ => fits
    have off := moves_entry (s := s) (t := s.setPending i { s.pending i with
      data := data, active := false }) i rfl rfl rfl rfl rfl nofun
    refine Moves.eq (off.trans (moves_answered_same rfl rfl rfl rfl rfl) id) fun q => ?_
    rw [waits_inactive (p := { s.pending i with data := data, active := false }) rfl,
      waits_active active]
    omega
  | overflows dev active full =>
    have off := moves_entry (s := s) (t := setPending { s with dev := dev } i
      { s.pending i with active := false }) i rfl rfl rfl rfl rfl nofun
    refine ⟨?_, off.cancelsWaiting⟩
    by_cases connected : s.connected = true
    · rw [accounted_iff account connected off account.taken]
      refine iff_of_false (fun free => ?_) fun fits => fits connected active full
      have lost := free connected (s.pending i).seqnum
      rw [waits_inactive (p := { s.pending i with active := false }) rfl, waits_active active,
        one_self] at lost
      cases lost
    · exact iff_of_true ⟨fun up => absurd up connected, off.live account.live, account.taken⟩
        fun up => absurd up connected

theorem noted_acceptClient (s : Usbip σ) (f : UsbipEvent → Bool) : s.acceptClient.noted f = 0 :=
  rfl

theorem outstanding_acceptClient (s : Usbip σ) (q : Word) :
    s.acceptClient.outstanding q = s.slot q := by
  have empty : ∑ i, (s.acceptClient.pending i).waits q = 0 :=
    Finset.sum_eq_zero fun i _ => waits_inactive (p := .empty) rfl q
  rw [outstanding, empty]
  exact Nat.zero_add _

theorem balanced_acceptClient_iff {s : Usbip σ} :
    s.acceptClient.Balanced ↔ s.statusOutHostPending = false := by
  rw [← slot_free_iff]
  refine forall_congr' fun q => ?_
  rw [submitted, answered, cancelled, noted_acceptClient, noted_acceptClient, noted_acceptClient,
    outstanding_acceptClient]
  omega

theorem accounted_acceptClient {s : Usbip σ} (account : s.Accounted)
    (free : s.statusOutHostPending = false) : s.acceptClient.Accounted where
  balanced _ := balanced_acceptClient_iff.mpr free
  live i active := by cases active
  taken := taken_of_record account.taken rfl nofun

theorem receive_gone {s : Usbip σ} {r : RecvResult} (gone : r = .bytes [] ∨ r = .failed) :
    (s.acceptClient.receive r).connected = false := by
  unfold receive
  dsimp only
  rw [if_neg]
  · rcases gone with rfl | rfl <;> rfl
  · change ¬ BitVec.ofNat 64 rxSize - 0 = 0
    decide

theorem receive_cases (s : Usbip σ) {r : RecvResult} (some : r ≠ .bytes []) (good : r ≠ .failed) :
    s.receive r = s ∨ ∃ data, s.receive r = s.append data := by
  unfold receive
  dsimp only
  split
  · exact .inl rfl
  split
  · exact absurd rfl some
  · exact .inr ⟨_, rfl⟩
  · exact .inl rfl
  · exact absurd rfl good

theorem receive_stays {s : Usbip σ} {r : RecvResult} (some : r ≠ .bytes []) (good : r ≠ .failed) :
    (s.receive r).connected = s.connected := by
  rcases receive_cases s some good with same | ⟨data, took⟩
  · rw [same]
  · rw [took, append]

/-- The polls that accept a client find the slot of the status stage free, but for a client that is
gone at once. -/
def OpensKept (s : Usbip σ) (accept : Bool) (r : RecvResult) : Prop :=
  s.connected = false → accept = true → r ≠ .bytes [] → r ≠ .failed →
    s.statusOutHostPending = false

theorem accounted_pollOpen_iff {s : Usbip σ} (account : s.Accounted) (accept : Bool)
    (r : RecvResult) :
    ((s.pollOpen accept r).Accounted ↔ s.OpensKept accept r) ∧
      s.CancelsWaiting (s.pollOpen accept r) := by
  have received := quiet_receive s r
  have accepted := quiet_receive s.acceptClient r
  rw [pollOpen]
  split
  · rename_i opens
    rw [if_pos (by rfl)]
    refine ⟨?_, fun q => ?_⟩
    · by_cases gone : r = .bytes [] ∨ r = .failed
      · refine iff_of_true ⟨fun up => absurd (receive_gone gone) (ne_false_of_eq_true up), ?_, ?_⟩
          fun _ _ some good => absurd gone (not_or.mpr ⟨some, good⟩)
        · exact accepted.moves.live fun i active => by cases active
        · exact accepted.taken (taken_of_record account.taken rfl fun _ _ is => by cases is)
      · obtain ⟨some, good⟩ := not_or.mp gone
        have up : (s.acceptClient.receive r).connected = true := receive_stays some good
        constructor
        · exact fun after _ _ _ _ =>
            balanced_acceptClient_iff.mp ((accepted.moves.balanced up).mp (after.balanced up))
        · exact fun kept => accepted.accounted
            (accounted_acceptClient account (kept opens.1 opens.2 some good))
    · rw [accepted.moves.cancelled, cancelled, noted_acceptClient]
      exact Nat.zero_le _
  · rename_i other
    have kept : s.OpensKept accept r := fun gone accept => absurd ⟨gone, accept⟩ other
    split
    · exact ⟨iff_of_true (received.accounted account) kept, received.moves.cancelsWaiting⟩
    · exact ⟨iff_of_true account kept, fun q => Nat.le_add_right ..⟩

theorem accounted_start (dev : σ) : (start dev).Accounted where
  balanced up := nomatch up
  live i active := by cases active
  taken _ _ member := nomatch member

def PartKept (s : Usbip σ) : Part → Prop
  | .opens accept r => s.OpensKept accept r
  | .pass => s.LoopGoes → s.PacketKept device
  | .complete i => s.connected = true → (s.pending i).active = true → ¬ s.Overflows device i
  | .statusOut | .flush _ => True

theorem accounted_step_iff {s : Usbip σ} (account : s.Accounted) (part : Part) :
    ((step device s part).Accounted ↔ s.PartKept device part) ∧
      s.CancelsWaiting (step device s part) := by
  have quiet {t : Usbip σ} (quiet : s.Quiet t) : (t.Accounted ↔ True) ∧ s.CancelsWaiting t :=
    ⟨iff_of_true (quiet.accounted account) trivial, quiet.moves.cancelsWaiting⟩
  cases part with
  | opens accept r => exact accounted_pollOpen_iff account accept r
  | statusOut => exact quiet (quiet_tryStatusOut device s)
  | complete i => exact accounted_completeOne_iff device account i
  | flush sends => exact quiet (quiet_txFlush s sends)
  | pass =>
    rw [step, PartKept]
    split
    · rename_i goes
      rw [forall_prop_of_true goes, handlePacket]
      cases imported : s.imported with
      | true => exact accounted_handleUrb_iff device account goes.1 imported
      | false =>
        have managed := quiet_handleMgmt device s
        have kept : s.PacketKept device := fun this => by cases imported.symm.trans this
        exact ⟨iff_of_true (managed.accounted account) kept, managed.moves.cancelsWaiting⟩
    · rename_i ends
      exact ⟨iff_of_true account fun goes => absurd goes ends, fun q => Nat.le_add_right ..⟩

/-- In every state of a session each submission of the client has had one answer, has been cancelled
or still waits, and only what waits is cancelled, exactly where no step loses one. -/
theorem accounts_kept_iff (dev : σ) (parts : List Part) :
    Lib.Throughout (step device) Accounted (start dev) parts ∧
        Lib.Along (step device) (fun s part => s.CancelsWaiting (step device s part))
          (start dev) parts ↔
      Lib.Along (step device) (fun s part => s.PartKept device part) (start dev) parts :=
  Lib.throughout_along_iff (fun _ part account =>
    (and_iff_left (accounted_step_iff device account part).2).trans
      (accounted_step_iff device account part).1) (accounted_start dev)

end

def busy : UsbDevice Unit where
  epOut _ _ _ _ _ := (false, ())
  epIn _ _ _ := (none, ())
  busReset _ := ()

def overlappingSession : List Part :=
  [.opens true (.bytes importRequest), .pass, .opens false (.bytes (submitHeader 1 0 0 0)), .pass,
    .opens false (.bytes (submitHeader 2 0 0 0)), .pass]

theorem overlapping_status_lost :
    ¬ Lib.Throughout (step busy) Accounted (start ()) overlappingSession := by
  have lost : ¬ (Lib.run (step busy) (start ()) overlappingSession).submitted 1 =
      (Lib.run (step busy) (start ()) overlappingSession).answered 1 +
        (Lib.run (step busy) (start ()) overlappingSession).cancelled 1 +
        (Lib.run (step busy) (start ()) overlappingSession).outstanding 1 := by
    decide +kernel
  have up : (Lib.run (step busy) (start ()) overlappingSession).connected = true := by decide +kernel
  exact fun kept => lost (kept.last.balanced up 1)

end Usbip

end M33mu
