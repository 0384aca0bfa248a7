import Mathlib.Data.List.ReduceOption
import M33mu.UsbipAnswers

namespace M33mu

namespace Usbip

def Unended (max need : Nat) : (got : Nat) → List (List Byte) → Prop
  | _, [] => True
  | got, q :: qs => max ≤ q.length ∧ got + q.length < need ∧ Unended max need (got + q.length) qs

def Submit.need (u : Submit) : Nat :=
  if u.isControl ∧ setupLength u.setup ≠ 0 ∧ (setupLength u.setup).toNat < u.transferLen.toNat then
    (setupLength u.setup).toNat
  else u.transferLen.toNat

def Submit.Truncated (u : Submit) (data : List Byte) : Prop :=
  (u.setup 0 = 0x80 ∧ u.setup 1 = 0x06 ∧ u.setup 3 = 0x02 ∧ 9 < setupLength u.setup) ∧
    4 ≤ data.length ∧ data.length < (data.getD 3 0 ++ data.getD 2 0).toNat

instance (u : Submit) (data : List Byte) : Decidable (u.Truncated data) :=
  inferInstanceAs (Decidable (_ ∧ _))

def Submit.maxPacket (u : Submit) (bulk : Nat) : Nat := if u.isControl then 64 else bulk

def inserted (data : List Byte) : Nat :=
  if (cdcIndex data).isSome ∧ data.length + 9 ≤ pendingDataMax then 9 else 0

variable {σ : Type u}

section

variable (device : UsbDevice σ)

def first (s : Usbip σ) (u : Submit) : Option (List Byte) :=
  (s.epIn device u.ep (if pendingDataMax < u.transferLen.toNat then 4096 else u.transferLen)).1

def asked (p : UsbipPending) : Word × Word :=
  if p.isControl ∧ p.ep = 0 ∧ p.direction = 1 then
    let chunk := p.expectedLen - BitVec.ofNat 32 p.data.length
    (0, if pendingDataMax < chunk.toNat then 4096 else chunk)
  else (p.ep, if pendingDataMax < p.transferLen.toNat then 4096 else p.transferLen)

def supplied (s : Usbip σ) (i : Fin 16) : Option (List Byte) :=
  (s.epIn device (asked (s.pending i)).1 (asked (s.pending i)).2).1

/-- The entry of a submission after what the device has had for it. Between the polls of an entry
the server may do anything else. -/
inductive Waits (u : Submit) (i : Fin 16) : UsbipPending → List (Option (List Byte)) → Prop
  | submitted (s : Usbip σ) (free : (s.pending i).active = false)
    (taken : ((s.handleIn device u).pending i).active = true) :
    Waits u i ((s.handleIn device u).pending i) [s.first device u]
  | polled (s : Usbip σ) {had : List (Option (List Byte))} (waits : Waits u i (s.pending i) had)
    (still : ((s.completeOne device i).pending i).active = true) :
    Waits u i ((s.completeOne device i).pending i) (had ++ [s.supplied device i])

inductive Replied (u : Submit) : List (Option (List Byte)) → List Byte → List Byte → Prop
  | atOnce (s : Usbip σ) {q : List Byte} (packet : s.first device u = some q)
    (done : (s.handleIn device u).trace = .retSubmit u.seqnum 0 :: s.trace) :
    Replied u [] q ((s.handleIn device u).txBuf.drop s.txBuf.length)
  | later (s : Usbip σ) (i : Fin 16) {had : List (Option (List Byte))} {q : List Byte}
    (waits : Waits device u i (s.pending i) had) (packet : s.supplied device i = some q)
    (done : (s.completeOne device i).trace = .retSubmit u.seqnum 0 :: s.trace) :
    Replied u had q ((s.completeOne device i).txBuf.drop s.txBuf.length)

end

/-- The answer announces its bytes. They are those of the packets up to the first that ends the
transfer, with a truncated configuration descriptor repaired, and no more than were asked for. -/
structure Right (max : Nat) (u : Submit) (had : List (Option (List Byte))) (q reply : List Byte) :
    Prop where
  announced : (field (fun i => reply.getD i 0) 24).toNat = (reply.drop 48).length
  unended : Unended max u.need 0 had.reduceOption
  ended : q.length < max ∨ u.need ≤ (had.reduceOption.flatten ++ q).length
  payload : reply.drop 48 = had.reduceOption.flatten ++ q ∨
    u.Truncated (had.reduceOption.flatten ++ q) ∧
      reply.drop 48 = patchConfig (had.reduceOption.flatten ++ q)
  bounded : (reply.drop 48).length ≤ u.transferLen.toNat

/-- The packets are no more than was asked for, with the endpoints that are put in. The one packet
of a transfer answered at once, or of another endpoint, ends it; a longer transfer fits its entry or
ends with a short packet, and does not end with a packet that came with the submission. -/
structure Meets (max : Nat) (u : Submit) (had : List (Option (List Byte))) (q : List Byte) :
    Prop where
  bounded : (had.reduceOption.flatten ++ q).length +
    (if u.isControl ∧ had ≠ [] ∧ u.Truncated (had.reduceOption.flatten ++ q) then
      inserted (had.reduceOption.flatten ++ q) else 0) ≤ u.transferLen.toNat
  ended : if u.isControl ∧ had ≠ [] then
      (q.length < max ∨ u.need ≤ pendingDataMax) ∧ (had.head? = some none ∨ max < u.need)
    else q.length < max ∨ u.need ≤ q.length

def Submit.reply (u : Submit) (payload : List Byte) : List Byte :=
  retSubmitHeader u.seqnum u.devid u.direction u.ep 0 (BitVec.ofNat 32 payload.length) ++ payload

theorem length_retSubmitHeader (seqnum devid direction ep status payloadLen : Word) :
    (retSubmitHeader seqnum devid direction ep status payloadLen).length = 48 :=
  length_flatMap_htonl _

theorem drop_reply (u : Submit) (payload : List Byte) : (u.reply payload).drop 48 = payload := by
  rw [Submit.reply, ← length_retSubmitHeader u.seqnum u.devid u.direction u.ep 0
    (BitVec.ofNat 32 payload.length)]
  exact List.drop_left

theorem bytes_htonl (v : Word) : (v.extractLsb' 24 8 ++ v.extractLsb' 16 8 ++ v.extractLsb' 8 8 ++
    v.extractLsb' 0 8 : Word) = v := by
  refine BitVec.eq_of_getLsbD_eq fun i low => ?_
  rw [BitVec.getLsbD_append, BitVec.getLsbD_append, BitVec.getLsbD_append,
    BitVec.getLsbD_extractLsb', BitVec.getLsbD_extractLsb', BitVec.getLsbD_extractLsb',
    BitVec.getLsbD_extractLsb']
  grind

theorem field_reply (u : Submit) (payload : List Byte) :
    field (fun i => (u.reply payload).getD i 0) 24 = BitVec.ofNat 32 payload.length :=
  bytes_htonl _

variable {u : Submit}

theorem answer_cases (isIn : u.direction = 1) (s : Usbip σ) (payload : List Byte) :
    (payload.length ≤ txSize ∧ u.answer s 0 payload =
      (true, { s with txBuf := s.txBuf ++ u.reply payload }.record (.retSubmit u.seqnum 0))) ∨
    ∃ t : Usbip σ, u.answer s 0 payload = (false, t) ∧ t.trace = s.trace := by
  have size := length_reply u.seqnum u.devid u.direction u.ep 0 payload
  by_cases fits : s.Fits (replySize u.direction payload)
  · refine .inl ⟨?_, ?_⟩
    · rw [replySize, if_pos isIn] at fits
      rcases fits with none' | room <;> omega
    · rw [Submit.answer, sendRetSubmit, txQueueAll_of_fits (size.symm ▸ fits), if_pos isIn,
        List.flatten_cons, List.flatten_singleton]
      rfl
  · have failed := sendRetSubmit_of_not_fits u.seqnum u.devid u.ep 0 fits
    obtain ⟨bytes, sent | eq⟩ := sendRetSubmit_cases s u.seqnum u.devid u.direction u.ep 0 payload
    · cases failed.symm.trans (congrArg Prod.fst sent)
    · exact .inr ⟨_, eq, rfl⟩

theorem pending_waitFor {s : Usbip σ} {i : Fin 16} {data : List Byte}
    (free : (s.pending i).active = false)
    (taken : ((s.waitFor u data).pending i).active = true) :
    (s.waitFor u data).pending i = u.pending data := by
  rw [waitFor] at taken ⊢
  split at taken
  · rename_i j _
    by_cases here : i = j
    · rw [here]
      exact Function.update_self _ _ _
    · have other : (s.setPending j (u.pending data)).pending i = s.pending i :=
        Function.update_of_ne here _ _
      rw [other, free] at taken
      cases taken
  · obtain ⟨bytes, sent | eq⟩ :=
      sendRetSubmit_cases s u.seqnum u.devid u.direction u.ep eagain []
    · rw [Submit.answer, sent] at taken
      cases free.symm.trans taken
    · rw [Submit.answer, eq] at taken
      cases free.symm.trans taken

theorem trace_waitFor (s : Usbip σ) (data : List Byte) :
    (s.waitFor u data).trace ≠ .retSubmit u.seqnum 0 :: s.trace := by
  rw [waitFor]
  split
  · exact fun noted => List.cons_ne_self _ _ noted.symm
  · obtain ⟨bytes, sent | eq⟩ :=
      sendRetSubmit_cases s u.seqnum u.devid u.direction u.ep eagain []
    · rw [Submit.answer, sent]
      intro noted
      cases (List.cons.inj noted).1
    · rw [Submit.answer, eq]
      exact fun noted => List.cons_ne_self _ _ noted.symm

theorem free_setPending (s : Usbip σ) (i : Fin 16) {p : UsbipPending} (free : p.active = false) :
    ((s.setPending i p).pending i).active = false := by
  rw [setPending]
  dsimp only
  rwa [Function.update_self]

section

variable {device : UsbDevice σ} {s : Usbip σ} {i : Fin 16}

theorem handleIn_cases (isIn : u.direction = 1) (s : Usbip σ) :
    ((∃ t : Usbip σ, t.trace = s.trace ∧ t.pending = s.pending ∧
        s.handleIn device u = t.waitFor u ((s.first device u).getD [])) ∧
      ∀ q ∈ s.first device u, u.isControl = true ∧ q.length = 64 ∧ 64 < u.transferLen.toNat) ∨
    ∃ q ∈ s.first device u, ¬ (u.isControl = true ∧ q.length = 64 ∧ 64 < u.transferLen.toNat) ∧
      ((q.length ≤ txSize ∧ (s.handleIn device u).txBuf = s.txBuf ++ u.reply q ∧
          (s.handleIn device u).pending = s.pending) ∨
        (s.handleIn device u).trace = s.trace ∧
          ∀ i, ((s.handleIn device u).pending i).active = false) := by
  rw [handleIn, first]
  dsimp only
  rw [epIn_eq]
  generalize device.epIn s.dev u.ep _ = r
  obtain ⟨packet, dev⟩ := r
  cases packet with
  | none => exact .inl ⟨⟨{ s with dev := dev }, rfl, rfl, rfl⟩, fun _ is => by cases is⟩
  | some q =>
    dsimp only
    split
    · rename_i full
      refine .inl ⟨⟨{ s with dev := dev }, rfl, rfl, rfl⟩, ?_⟩
      rintro _ ⟨⟩
      exact ⟨full.1, full.2.1, full.2.1 ▸ full.2.2⟩
    · rename_i ends
      refine .inr ⟨q, rfl, fun full => ends ⟨full.1, full.2.1, full.2.1 ▸ full.2.2⟩, ?_⟩
      rcases answer_cases isIn { s with dev := dev } q with ⟨small, sent⟩ | ⟨t, failed, same⟩
      · rw [sent]
        exact .inl ⟨small, rfl, rfl⟩
      · rw [failed]
        exact .inr ⟨same, fun _ => rfl⟩

def Submit.Ends (u : Submit) (data q payload : List Byte) : Prop :=
  if u.isControl then
    (data ++ q).length ≤ pendingDataMax ∧
      ((u.pending []).expectedLen.toNat ≤ (data ++ q).length ∨ q.length < 64) ∧
      payload = completedData (u.pending (data ++ q))
  else payload = q

inductive Polled (s : Usbip σ) (i : Fin 16) (u : Submit) (data : List Byte) :
    Option (List Byte) → Usbip σ → Prop
  | waits {t : Usbip σ} (trace : t.trace = s.trace) (entry : t.pending i = u.pending data) :
    Polled s i u data none t
  | grows {t : Usbip σ} {q : List Byte} (trace : t.trace = s.trace) (control : u.isControl = true)
    (more : (data ++ q).length < (u.pending []).expectedLen.toNat) (full : 64 ≤ q.length)
    (entry : t.pending i = u.pending (data ++ q)) : Polled s i u data (some q) t
  | gone {t : Usbip σ} {q : List Byte} (trace : t.trace = s.trace)
    (free : (t.pending i).active = false) : Polled s i u data (some q) t
  | replied {t : Usbip σ} {q payload : List Byte} (ends : u.Ends data q payload)
    (small : payload.length ≤ txSize) (reply : t.txBuf = s.txBuf ++ u.reply payload)
    (free : (t.pending i).active = false) : Polled s i u data (some q) t

theorem polled_completeOne (device : UsbDevice σ) (isIn : u.direction = 1) {data : List Byte}
    (entry : s.pending i = u.pending data) :
    s.Polled i u data (s.supplied device i) (s.completeOne device i) := by
  rw [completeOne, supplied, entry, asked]
  dsimp only
  rw [if_neg (show ¬ (u.pending data).active = false from Bool.noConfusion),
    if_neg (show ¬ (u.pending data).cancelled = true from Bool.noConfusion)]
  by_cases control : u.isControl = true
  · have ep : u.ep = 0 := of_decide_eq_true control
    have here : (u.pending data).isControl = true ∧ (u.pending data).ep = 0 ∧
      (u.pending data).direction = 1 := ⟨control, ep, isIn⟩
    rw [if_pos here, if_pos here]
    dsimp only
    rw [epIn_eq]
    generalize device.epIn s.dev 0 _ = r
    obtain ⟨packet, dev⟩ := r
    cases packet with
    | none => exact .waits rfl entry
    | some q =>
      dsimp only
      split
      · exact .gone rfl (free_setPending _ i rfl)
      rename_i fits
      have fits : (data ++ q).length ≤ pendingDataMax := by
        rw [List.length_append]
        exact Nat.not_lt.mp fits
      split
      · rename_i ends
        let payload := completedData (u.pending (data ++ q))
        have ends : u.Ends data q payload := by
          rw [Submit.Ends, if_pos control]
          exact ⟨fits, ends, rfl⟩
        rcases answer_cases isIn (setPending { s with dev := dev } i
          { u.pending (data ++ q) with data := payload }) payload with ⟨small, sent⟩ | ⟨t, failed, same⟩
        · generalize replied : sendRetSubmit _ _ _ _ _ _ _ = r
          obtain rfl := replied.symm.trans sent
          refine .replied ends small rfl ?_
          exact free_setPending _ i rfl
        · generalize replied : sendRetSubmit _ _ _ _ _ _ _ = r
          obtain rfl := replied.symm.trans failed
          exact .gone same rfl
      · rename_i more
        obtain ⟨more, full⟩ := not_or.mp more
        exact .grows rfl control (Nat.not_le.mp more) (Nat.not_lt.mp full) (Function.update_self ..)
  · have other : ¬ ((u.pending data).isControl = true ∧ (u.pending data).ep = 0 ∧
      (u.pending data).direction = 1) := fun here => control here.1
    rw [if_neg other, if_neg other]
    dsimp only
    rw [epIn_eq]
    generalize device.epIn s.dev _ _ = r
    obtain ⟨packet, dev⟩ := r
    cases packet with
    | none => exact .waits rfl entry
    | some q =>
      have ends : u.Ends data q q := by rw [Submit.Ends, if_neg control]
      dsimp only
      rcases answer_cases isIn { s with dev := dev } q with ⟨small, sent⟩ | ⟨t, failed, same⟩
      · generalize replied : sendRetSubmit _ _ _ _ _ _ _ = r
        obtain rfl := replied.symm.trans sent
        refine .replied ends small rfl ?_
        exact free_setPending _ i rfl
      · generalize replied : sendRetSubmit _ _ _ _ _ _ _ = r
        obtain rfl := replied.symm.trans failed
        exact .gone same rfl

theorem unended_append {max need got : Nat} {qs : List (List Byte)} {q : List Byte} :
    Unended max need got (qs ++ [q]) ↔
      Unended max need got qs ∧ max ≤ q.length ∧ got + (qs.flatten ++ q).length < need := by
  induction qs generalizing got with
  | nil => simp [Unended]
  | cons p qs ih =>
    simp only [List.cons_append, Unended, ih, List.flatten_cons, List.length_append, and_assoc,
      Nat.add_assoc]

theorem Unended.mono {max need need' got : Nat} {qs : List (List Byte)} (le : need ≤ need')
    (unended : Unended max need got qs) : Unended max need' got qs := by
  induction qs generalizing got with
  | nil => trivial
  | cons p qs ih => exact ⟨unended.1, Nat.lt_of_lt_of_le unended.2.1 le, ih unended.2.2⟩

theorem flatten_reduceOption_cons (a : Option (List Byte)) (had : List (Option (List Byte))) :
    (a :: had).reduceOption.flatten = a.getD [] ++ had.reduceOption.flatten := by
  cases a with
  | none => rfl
  | some q => rfl

/-- What a submission has had that waits: a full packet as it came, or none, and then full packets
that do not fill its entry. -/
def Submit.Collects (u : Submit) : List (Option (List Byte)) → Prop
  | [] => False
  | a :: had =>
    (∀ q ∈ a, u.isControl = true ∧ q.length = 64 ∧ 64 < u.transferLen.toNat) ∧
      Unended 64 (u.pending []).expectedLen.toNat (a.getD []).length had.reduceOption ∧
      (u.isControl = false → had.reduceOption = [])

theorem waits_entry (isIn : u.direction = 1) {p : UsbipPending} {had : List (Option (List Byte))}
    (waits : Waits device u i p had) :
    p = u.pending had.reduceOption.flatten ∧ u.Collects had := by
  induction waits with
  | submitted s free taken =>
    rcases handleIn_cases isIn s with ⟨⟨t, -, pending, waits⟩, full⟩ | ⟨q, packet, -, ends⟩
    · rw [waits] at taken ⊢
      rw [← pending] at free
      refine ⟨?_, full, trivial, fun _ => rfl⟩
      rw [pending_waitFor free taken, flatten_reduceOption_cons, List.reduceOption_nil,
        List.flatten_nil, List.append_nil]
    · rcases ends with ⟨-, -, pending⟩ | ⟨-, gone⟩
      · rw [pending, free] at taken
        cases taken
      · rw [gone] at taken
        cases taken
  | polled s waits still ih =>
    rename_i had
    obtain ⟨entry, collects⟩ := ih
    obtain ⟨a, had, rfl⟩ : ∃ a had', had = a :: had' := by
      cases had with
      | nil => exact collects.elim
      | cons a had => exact ⟨a, had, rfl⟩
    obtain ⟨first, later, bulk⟩ := collects
    have polled := polled_completeOne device isIn entry
    generalize s.supplied device i = packet at polled
    generalize s.completeOne device i = t at polled still
    rw [List.cons_append, Submit.Collects, flatten_reduceOption_cons, List.reduceOption_append,
      List.reduceOption_singleton]
    rw [flatten_reduceOption_cons] at polled
    cases polled with
    | waits _ entry =>
      rw [Option.toList_none, List.append_nil]
      exact ⟨entry, first, later, bulk⟩
    | grows _ control more full entry =>
      rw [Option.toList_some, List.flatten_append, List.flatten_singleton, ← List.append_assoc]
      refine ⟨entry, first, unended_append.mpr ⟨later, full, ?_⟩, fun other => ?_⟩
      · rwa [List.append_assoc, List.length_append] at more
      · exact nomatch control.symm.trans other
    | gone _ free =>
      rw [free] at still
      cases still
    | replied _ _ _ free =>
      rw [free] at still
      cases still

theorem expectedLen_pending (control : u.isControl = true) (data : List Byte) :
    (u.pending data).expectedLen.toNat =
      if pendingDataMax < u.need then pendingDataMax else u.need := by
  have wide : ((setupLength u.setup).setWidth 32).toNat = (setupLength u.setup).toNat :=
    BitVec.toNat_setWidth_of_le (by decide)
  have capped (w : Word) : (if pendingDataMax < w.toNat then (4096 : Word) else w).toNat =
      if pendingDataMax < w.toNat then pendingDataMax else w.toNat := apply_ite _ _ _ _
  rw [Submit.need, Submit.pending]
  dsimp only
  rw [capped]
  by_cases short : setupLength u.setup ≠ 0 ∧ (setupLength u.setup).toNat < u.transferLen.toNat
  · have asked := And.intro control short
    rw [if_pos short, if_pos asked, wide]
  · have asked : ¬ (u.isControl = true ∧ setupLength u.setup ≠ 0 ∧
      (setupLength u.setup).toNat < u.transferLen.toNat) := fun asked => short asked.2
    rw [if_neg short, if_neg asked]

theorem length_withTotalLen (data : List Byte) : (withTotalLen data).length = data.length := by
  rw [withTotalLen, List.length_set, List.length_set]

theorem length_patchConfig (data : List Byte) :
    (patchConfig data).length = data.length + inserted data := by
  rw [patchConfig, inserted]
  cases found : cdcIndex data with
  | none =>
    have put : ¬ ((none : Option Nat).isSome = true ∧ data.length + 9 ≤ pendingDataMax) :=
      fun put => Bool.false_ne_true put.1
    dsimp only
    rw [length_withTotalLen, if_neg put, Nat.add_zero]
  | some idx =>
    have inside : idx + 20 < data.length := by
      have here := List.find?_some found
      exact (of_decide_eq_true (Bool.and_eq_true_iff.mp here).1)
    have longer : (data.take (idx + 9) ++ cdcEndpoints ++ data.drop (idx + 14)).length =
        data.length + 9 := by
      rw [List.length_append, List.length_append, List.length_take, List.length_drop]
      change _ + 14 + _ = _
      omega
    dsimp only
    rw [longer]
    by_cases fits : data.length + 9 ≤ pendingDataMax
    · rw [if_neg (Nat.not_lt.mpr fits), length_withTotalLen, longer, if_pos ⟨rfl, fits⟩]
    · rw [if_pos (Nat.not_le.mp fits), length_withTotalLen, if_neg fun put => fits put.2,
        Nat.add_zero]

theorem completedData_pending (u : Submit) (data : List Byte) :
    completedData (u.pending data) = if u.Truncated data then patchConfig data else data := by
  rw [completedData]
  change (if 4 ≤ data.length ∧ u.setup 0 = 0x80 ∧ u.setup 1 = 0x06 ∧ u.setup 3 = 0x02 then
    if 9 < setupLength u.setup ∧ data.length < (data.getD 3 0 ++ data.getD 2 0).toNat then
      patchConfig data else data else data) = _
  by_cases truncated : u.Truncated data
  · obtain ⟨⟨type, request, index, more⟩, read, short⟩ := truncated
    rw [if_pos ⟨read, type, request, index⟩, if_pos ⟨more, short⟩,
      if_pos (show u.Truncated data from ⟨⟨type, request, index, more⟩, read, short⟩)]
  · rw [if_neg truncated]
    split
    · rename_i config
      obtain ⟨read, type, request, index⟩ := config
      exact if_neg fun short => truncated ⟨⟨type, request, index, short.1⟩, read, short.2⟩
    · rfl

theorem right_iff_of_replied (u : Submit) {max : Nat} {had : List (Option (List Byte))}
    {q payload : List Byte} (small : payload.length ≤ txSize)
    (from' : payload = had.reduceOption.flatten ++ q ∨
      u.Truncated (had.reduceOption.flatten ++ q) ∧
        payload = patchConfig (had.reduceOption.flatten ++ q)) :
    Right max u had q (u.reply payload) ↔ (Unended max u.need 0 had.reduceOption ∧
      (q.length < max ∨ u.need ≤ (had.reduceOption.flatten ++ q).length)) ∧
        payload.length ≤ u.transferLen.toNat := by
  have announced : (field (fun i => (u.reply payload).getD i 0) 24).toNat =
      ((u.reply payload).drop 48).length := by
    rw [field_reply, drop_reply, BitVec.toNat_ofNat]
    exact Nat.mod_eq_of_lt (Nat.lt_of_le_of_lt small (by decide))
  constructor
  · rintro ⟨-, unended, ended, -, bounded⟩
    rw [drop_reply] at bounded
    exact ⟨⟨unended, ended⟩, bounded⟩
  · rintro ⟨⟨unended, ended⟩, bounded⟩
    refine ⟨announced, unended, ended, ?_, ?_⟩
    · rwa [drop_reply]
    · rwa [drop_reply]

/-- Of a transfer that was collected, only a packet that came with the submission and a cut at the
size of its entry can end it at another place. -/
theorem ended_iff {a : Option (List Byte)} {had : List (Option (List Byte))} {q : List Byte}
    (control : u.isControl = true) (collects : u.Collects (a :: had))
    (small : ((a :: had).reduceOption.flatten ++ q).length ≤ pendingDataMax)
    (ends : (u.pending []).expectedLen.toNat ≤ ((a :: had).reduceOption.flatten ++ q).length ∨
      q.length < 64) :
    (Unended 64 u.need 0 (a :: had).reduceOption ∧
      (q.length < 64 ∨ u.need ≤ ((a :: had).reduceOption.flatten ++ q).length)) ↔
    (q.length < 64 ∨ u.need ≤ pendingDataMax) ∧ ((a :: had).head? = some none ∨ 64 < u.need) := by
  obtain ⟨first, later, -⟩ := collects
  have expected := expectedLen_pending control []
  have least : (u.pending []).expectedLen.toNat ≤ u.need := by
    rw [expected]
    split
    · exact Nat.le_of_lt ‹_›
    · exact Nat.le_refl _
  have more := later.mono least
  have unended : Unended 64 u.need 0 (a :: had).reduceOption ↔
      (a :: had).head? = some none ∨ 64 < u.need := by
    cases a with
    | none => exact iff_of_true more (.inl rfl)
    | some p =>
      obtain ⟨-, full, -⟩ := first p rfl
      have other : (some p :: had).head? ≠ some none := nofun
      have more : Unended 64 u.need p.length had.reduceOption := more
      rw [List.reduceOption_cons_of_some, Unended, Nat.zero_add, or_iff_right other]
      rw [full] at more ⊢
      exact ⟨fun some' => some'.2.1, fun some' => ⟨Nat.le_refl _, some', more⟩⟩
  rw [unended, and_comm (b := _ ∨ 64 < u.need)]
  refine and_congr_right fun _ => ?_
  refine ⟨Or.imp_right fun whole => Nat.le_trans whole small, ?_⟩
  rintro (short | fits)
  · exact .inl short
  · rw [expected, if_neg (Nat.not_lt.mpr fits)] at ends
    exact ends.symm

theorem right_iff_single {max : Nat} {had : List (Option (List Byte))} {q : List Byte}
    (single : ¬ (u.isControl = true ∧ had ≠ [])) (none' : had.reduceOption = [])
    (small : q.length ≤ txSize) : Right max u had q (u.reply q) ↔ Meets max u had q := by
  have whole : had.reduceOption.flatten ++ q = q := by
    rw [none']
    rfl
  rw [right_iff_of_replied u small (.inl whole.symm), whole, none']
  constructor
  · rintro ⟨⟨-, ended⟩, bounded⟩
    refine ⟨?_, ?_⟩
    · rw [if_neg fun put => single ⟨put.1, put.2.1⟩, whole]
      exact bounded
    · rw [if_neg single]
      exact ended
  · rintro ⟨bounded, ended⟩
    rw [if_neg fun put => single ⟨put.1, put.2.1⟩, whole] at bounded
    rw [if_neg single] at ended
    exact ⟨⟨trivial, ended⟩, bounded⟩

theorem right_iff_collected {a : Option (List Byte)} {had : List (Option (List Byte))}
    {q payload : List Byte} (control : u.isControl = true) (collects : u.Collects (a :: had))
    (small : payload.length ≤ txSize)
    (ends : u.Ends (a :: had).reduceOption.flatten q payload) :
    Right 64 u (a :: had) q (u.reply payload) ↔ Meets 64 u (a :: had) q := by
  rw [Submit.Ends, if_pos control] at ends
  obtain ⟨fits, ends, repaired⟩ := ends
  rw [completedData_pending] at repaired
  have from' : payload = (a :: had).reduceOption.flatten ++ q ∨
      u.Truncated ((a :: had).reduceOption.flatten ++ q) ∧
        payload = patchConfig ((a :: had).reduceOption.flatten ++ q) := by
    split at repaired
    · exact .inr ⟨‹_›, repaired⟩
    · exact .inl repaired
  have length : payload.length = ((a :: had).reduceOption.flatten ++ q).length +
      if u.isControl ∧ a :: had ≠ [] ∧ u.Truncated ((a :: had).reduceOption.flatten ++ q) then
        inserted ((a :: had).reduceOption.flatten ++ q) else 0 := by
    split at repaired
    · rename_i truncated
      rw [if_pos ⟨control, List.cons_ne_nil a had, truncated⟩, repaired, length_patchConfig]
    · rename_i whole
      rw [if_neg fun put => whole put.2.2, repaired, Nat.add_zero]
  have collected : u.isControl = true ∧ a :: had ≠ [] := ⟨control, List.cons_ne_nil a had⟩
  rw [right_iff_of_replied u small from', ended_iff control collects fits ends, length]
  constructor
  · rintro ⟨ended, bounded⟩
    exact ⟨bounded, by rwa [if_pos collected]⟩
  · rintro ⟨bounded, ended⟩
    rw [if_pos collected] at ended
    exact ⟨ended, bounded⟩

/-- An answer is right exactly where its packets, with what is put into them, are no more than was
asked for, and end the transfer: of another endpoint, or at once, the one packet that is waited
for; and of a control transfer all that is asked for, unless it does not fit the entry or came with
the submission. -/
theorem reply_right_iff {device : UsbDevice σ} {u : Submit} (isIn : u.direction = 1) (bulk : Nat)
    {had : List (Option (List Byte))} {q reply : List Byte}
    (replied : Replied device u had q reply) :
    Right (u.maxPacket bulk) u had q reply ↔ Meets (u.maxPacket bulk) u had q := by
  cases replied with
  | atOnce s packet done =>
    rcases handleIn_cases isIn s with ⟨⟨t, trace, -, waits⟩, -⟩ | ⟨q', packet', -, sent | gone⟩
    · rw [waits, ← trace] at done
      exact absurd done (trace_waitFor t _)
    · obtain rfl := Option.some.inj (packet.symm.trans packet')
      rw [sent.2.1, List.drop_left]
      exact right_iff_single (fun more => more.2 rfl) rfl sent.1
    · rw [gone.1] at done
      exact absurd done.symm (List.cons_ne_self _ _)
  | later s i waits packet done =>
    obtain ⟨entry, collects⟩ := waits_entry isIn waits
    have polled := polled_completeOne device isIn entry
    rw [packet] at polled
    generalize s.completeOne device i = t at polled done
    cases polled with
    | grows trace =>
      rw [trace] at done
      exact absurd done.symm (List.cons_ne_self _ _)
    | gone trace =>
      rw [trace] at done
      exact absurd done.symm (List.cons_ne_self _ _)
    | replied ends small reply _ =>
      rw [reply, List.drop_left]
      cases had with
      | nil => exact collects.elim
      | cons a had =>
        by_cases control : u.isControl = true
        · rw [Submit.maxPacket, if_pos control]
          exact right_iff_collected control collects small ends
        · have none' : (a :: had).reduceOption = [] := by
            obtain ⟨first, -, bulk⟩ := collects
            cases a with
            | none => exact bulk (eq_false_of_ne_true control)
            | some p => exact absurd (first p rfl).1 control
          rw [Submit.Ends, if_neg control] at ends
          subst ends
          exact right_iff_single (fun more => control more.1) none' small

end

def scripted : UsbDevice (List (Option (List Byte))) where
  epOut left _ _ _ _ := (false, left)
  epIn left _ _ := (left.head?.join, left.tail)
  busReset left := left

def attached (left : List (Option (List Byte))) : Usbip (List (Option (List Byte))) :=
  { (start left).acceptClient with imported := true }

def inSubmit (ep transferLen : Word) (setup : List Byte) : Submit :=
  ⟨1, 0x10002, 1, ep, transferLen, fun i => setup.getD i 0⟩

theorem Waits.poll {device : UsbDevice σ} {u : Submit} {i : Fin 16} {s : Usbip σ}
    {had : List (Option (List Byte))} {q : Option (List Byte)}
    (waits : Waits device u i (s.pending i) had) (supplies : s.supplied device i = q)
    (still : ((s.completeOne device i).pending i).active = true) :
    Waits device u i ((s.completeOne device i).pending i) (had ++ [q]) :=
  supplies ▸ .polled s waits still

def stringRequest : Submit := inSubmit 0 150 [0x80, 0x06, 0, 0x03, 0, 0, 150, 0]

def stringPackets : List (Option (List Byte)) :=
  [none, some (List.replicate 64 1), none, some (List.replicate 64 2), some (List.replicate 22 3)]

def stringPolled : Nat → Usbip (List (Option (List Byte)))
  | 0 => (attached stringPackets).handleIn scripted stringRequest
  | n + 1 => (stringPolled n).completeOne scripted 0

theorem waits_stringRequest :
    Waits scripted stringRequest 0 ((stringPolled 3).pending 0) (stringPackets.take 4) := by
  have sent : Waits scripted stringRequest 0 ((stringPolled 0).pending 0) [none] :=
    .submitted (attached stringPackets) rfl rfl
  have first := sent.poll (q := some (List.replicate 64 1)) (by decide +kernel) (by decide +kernel)
  have second : Waits scripted stringRequest 0 ((stringPolled 2).pending 0) _ :=
    Waits.poll (s := stringPolled 1) (q := none) first (by decide +kernel) (by decide +kernel)
  exact Waits.poll (s := stringPolled 2) (q := some (List.replicate 64 2)) second
    (by decide +kernel) (by decide +kernel)

theorem reply_right_descriptor :
    Right 64 stringRequest (stringPackets.take 4) (List.replicate 22 3)
      (stringRequest.reply (List.replicate 64 1 ++ List.replicate 64 2 ++ List.replicate 22 3)) := by
  have packet : (stringPolled 3).supplied scripted 0 = some (List.replicate 22 3) := by
    decide +kernel
  have replied := Replied.later (stringPolled 3) 0 waits_stringRequest packet (by decide +kernel)
  have reply : ((stringPolled 3).completeOne scripted 0).txBuf.drop (stringPolled 3).txBuf.length =
      stringRequest.reply (List.replicate 64 1 ++ List.replicate 64 2 ++ List.replicate 22 3) := by
    decide +kernel
  rw [reply] at replied
  exact (reply_right_iff rfl 64 replied).mpr ⟨by decide +kernel, by decide +kernel⟩

/-- The request for 30 bytes of a configuration that tells 75, of an interface with empty endpoints
among them. -/
def configRequest : Submit := inSubmit 0 30 [0x80, 0x06, 0, 0x02, 0, 0, 30, 0]

def configReply : List Byte := [9, 2, 75, 0, 2, 1, 0, 0x80, 0x32] ++ cdcBroken ++ [0, 8, 6, 0x50]

theorem waits_configRequest : Waits scripted configRequest 0
    (((attached [none, some configReply]).handleIn scripted configRequest).pending 0) [none] :=
  .submitted (attached [none, some configReply]) rfl rfl

/-- The repaired configuration is longer than what was asked for, and of two full packets of
another endpoint the first is the answer. -/
theorem replies_wrong :
    ¬ (∀ (u : Submit) (had : List (Option (List Byte))) (q reply : List Byte),
      u.direction = 1 → u.isControl = true → Replied scripted u had q reply →
        Right (u.maxPacket 64) u had q reply) ∧
    ¬ ∀ (u : Submit) (had : List (Option (List Byte))) (q reply : List Byte),
      u.direction = 1 → u.isControl = false → Replied scripted u had q reply →
        Right (u.maxPacket 64) u had q reply := by
  constructor
  · intro all
    have right := all configRequest [none] configReply _ rfl rfl
      (.later _ 0 waits_configRequest rfl rfl)
    exact absurd right.bounded (by decide +kernel)
  · intro all
    have right := all (inSubmit 1 128 []) [] (List.replicate 64 0) _ rfl rfl
      (.atOnce (attached [some (List.replicate 64 0), some (List.replicate 64 0)]) rfl rfl)
    exact absurd right.ended (by decide +kernel)

end Usbip

end M33mu
