import M33mu.Lib.RegFile
import M33mu.Lib.Run
import M33mu.Types

namespace M33mu

open Lib

/-- `stm32h563_usb`: `regs` is by offset, and `irq` is whether the interrupt has been pended. -/
structure Stm32Usb where
  regs : Word → Word
  ep : Fin 8 → Word
  pma : RegFile
  irq : Bool

namespace Stm32Usb

def size : Word := 0x400

def pmaSize : Word := 0x800

def cntrOffset : Word := 0x40

def istrOffset : Word := 0x44

def daddrOffset : Word := 0x4C

def btableOffset : Word := 0x50

def epCtrRx : Word := 0x8000

def epDtogRx : Word := 0x4000

def epStatRx : Word := 0x3000

def epSetup : Word := 0x0800

def epType : Word := 0x0600

def epKind : Word := 0x0100

def epCtrTx : Word := 0x0080

def epDtogTx : Word := 0x0040

def epStatTx : Word := 0x0030

def epEa : Word := 0x000F

def statNak : Word := 2

def statValid : Word := 3

def cntrCtrm : Word := 0x8000

def istrCtr : Word := 0x8000

def istrReset : Word := 0x0400

def istrDir : Word := 0x0010

def istrIdMask : Word := 0x000F

def daddrEf : Word := 0x0080

/-- `mm_stm32h563_usb_reset`. -/
def reset : Stm32Usb := ⟨fun _ => 0, fun _ => 0, .zero, false⟩

def reg (s : Stm32Usb) (offset : Word) : Word := s.regs offset

def setReg (s : Stm32Usb) (offset v : Word) : Stm32Usb :=
  { s with regs := Function.update s.regs offset v }

def istr (s : Stm32Usb) : Word := s.reg istrOffset

def setEp (s : Stm32Usb) (ep : Fin 8) (v : Word) : Stm32Usb :=
  { s with ep := Function.update s.ep ep v }

def raiseIrq (s : Stm32Usb) : Stm32Usb :=
  if s.reg cntrOffset &&& cntrCtrm ≠ 0 then { s with irq := true } else s

/-- `usb_set_istr`. -/
def setIstr (s : Stm32Usb) (ep : Word) (dirOut : Bool) : Stm32Usb :=
  let istr := s.istr ||| istrCtr
  let istr := istr &&& ~~~istrIdMask
  let istr := istr ||| ep &&& istrIdMask
  let istr := if dirOut then istr ||| istrDir else istr &&& ~~~istrDir
  (s.setReg istrOffset istr).raiseIrq

/-- `usb_bus_reset`. -/
def busReset (s : Stm32Usb) : Stm32Usb :=
  (s.setReg istrOffset (s.istr ||| istrReset)).raiseIrq

/-- What `usb_ep_write` makes of an endpoint register: the completion bits are cleared by zeros, and
the data toggles and states turned by ones. -/
def epValue (old value : Word) : Word :=
  let reg := if value &&& epCtrRx = 0 then old &&& ~~~epCtrRx &&& ~~~epSetup else old
  let reg := if value &&& epCtrTx = 0 then reg &&& ~~~epCtrTx else reg
  let reg := if value &&& epDtogRx ≠ 0 then reg ^^^ epDtogRx else reg
  let reg := if value &&& epDtogTx ≠ 0 then reg ^^^ epDtogTx else reg
  let reg := if value &&& epStatRx ≠ 0 then reg ^^^ (value &&& epStatRx) else reg
  let reg := if value &&& epStatTx ≠ 0 then reg ^^^ (value &&& epStatTx) else reg
  reg &&& ~~~(epEa ||| epKind ||| epType) ||| value &&& (epEa ||| epKind ||| epType)

/-- `usb_ep_write`. -/
def epWrite (s : Stm32Usb) (ep : Fin 8) (value : Word) : Stm32Usb :=
  let s := s.setEp ep (epValue (s.ep ep) value)
  if ∀ i, s.ep i &&& (epCtrRx ||| epCtrTx) = 0 then s.setReg istrOffset (s.istr &&& ~~~istrCtr)
  else s

def pmaRead32 (s : Stm32Usb) (addr : Word) : Word :=
  if pmaSize ≤ addr + 3 then 0 else s.pma.word addr.toNat

def pmaWrite32 (s : Stm32Usb) (addr v : Word) : Stm32Usb :=
  if pmaSize ≤ addr + 3 then s else { s with pma := s.pma.setWord addr.toNat v }

def btableBase (s : Stm32Usb) : Word := s.reg btableOffset &&& 0xFFF8

/-- The receive address of `usb_get_ep_btable`. -/
def rxAddr (s : Stm32Usb) (ep : Fin 8) : Word :=
  s.pmaRead32 (s.btableBase + BitVec.ofNat 32 ep * 8 + 4) &&& 0xFFFC

/-- `usb_set_rx_count`. -/
def setRxCount (s : Stm32Usb) (ep : Fin 8) (count : Word) : Stm32Usb :=
  let base := s.btableBase + BitVec.ofNat 32 ep * 8
  let current := s.pmaRead32 (base + 4)
  s.pmaWrite32 (base + 4) (current &&& ~~~(0x03FF0000 : Word) ||| (count &&& 0x03FF) <<< 16)

def fill (pma : RegFile) (addr len : Nat) (data : Nat → Byte) : RegFile := fun i =>
  if addr ≤ i ∧ i < addr + len ∧ i < pmaSize.toNat then data (i - addr) else pma i

/-- The device takes a packet for the endpoint: it is enabled, and receives there, or the packet is
a SETUP for endpoint 0. -/
def Takes (s : Stm32Usb) (ep : Fin 8) (setup : Bool) : Prop :=
  s.reg daddrOffset &&& daddrEf ≠ 0 ∧
    (s.ep ep >>> 12 &&& 0x3 = statValid ∨ setup = true ∧ ep = 0)

instance (s : Stm32Usb) (ep : Fin 8) (setup : Bool) : Decidable (s.Takes ep setup) :=
  inferInstanceAs (Decidable (_ ∧ _))

def Gives (s : Stm32Usb) (ep : Fin 8) : Prop :=
  s.reg daddrOffset &&& daddrEf ≠ 0 ∧ s.ep ep >>> 4 &&& 0x3 = statValid

instance (s : Stm32Usb) (ep : Fin 8) : Decidable (s.Gives ep) :=
  inferInstanceAs (Decidable (_ ∧ _))

/-- `usb_ep_out`, once the endpoint is known to exist. -/
def takePacket (s : Stm32Usb) (ep : Fin 8) (data : Nat → Byte) (len : Word) (setup : Bool) :
    Stm32Usb :=
  let reg := s.ep ep
  let s := { s with pma := fill s.pma (s.rxAddr ep).toNat len.toNat data }.setRxCount ep len
  let reg := reg ||| epCtrRx
  let reg := if setup then reg ||| epSetup else reg
  let reg := reg &&& ~~~epStatRx ||| statNak <<< 12
  (s.setEp ep reg).setIstr (BitVec.ofNat 32 ep) true

/-- The state after `usb_ep_in`, once the endpoint is known to exist. -/
def givePacket (s : Stm32Usb) (ep : Fin 8) : Stm32Usb :=
  let reg := s.ep ep ||| epCtrTx
  let reg := reg &&& ~~~epStatTx ||| statNak <<< 4
  (s.setEp ep reg).setIstr (BitVec.ofNat 32 ep) false

def endpoint (ep : Word) : Option (Fin 8) :=
  if inside : ep.toNat < 8 then some ⟨ep.toNat, inside⟩ else none

/-- `usb_ep_out`. -/
def epOut (s : Stm32Usb) (ep : Word) (data : Nat → Byte) (len : Word) (setup : Bool) :
    Bool × Stm32Usb :=
  match endpoint ep with
  | some ep => if s.Takes ep setup then (true, s.takePacket ep data len setup) else (false, s)
  | none => (false, s)

/-- `usb_ep_in`, beside the bytes that it gives. -/
def epIn (s : Stm32Usb) (ep : Word) : Bool × Stm32Usb :=
  match endpoint ep with
  | some ep => if s.Gives ep then (true, s.givePacket ep) else (false, s)
  | none => (false, s)

def regValue (offset n old value : Word) : Word :=
  if n = 2 then
    let lo := value &&& 0xFFFF
    old &&& 0xFFFF0000 ||| if offset = istrOffset then old &&& 0xFFFF &&& lo else lo
  else if offset = istrOffset then old &&& value
  else value

/-- `usb_write`. -/
def write (s : Stm32Usb) (offset n value : Word) : Bool × Stm32Usb :=
  if n = 0 ∨ 4 < n then (false, s)
  else if offset % 4 ≠ 0 then (false, s)
  else
    match endpoint (offset / 4) with
    | some ep => (true, s.epWrite ep (if n = 2 then value &&& 0xFFFF else value))
    | none =>
      if offset < size then
        (true, s.setReg offset (regValue offset n (s.reg offset) value))
      else (false, s)

/-- `usb_pma_write`. -/
def pmaWrite (s : Stm32Usb) (offset n value : Word) : Bool × Stm32Usb :=
  if n = 0 ∨ 4 < n then (false, s)
  else if pmaSize < offset + n then (false, s)
  else (true, { s with pma := s.pma.copy offset.toNat n.toNat value })

inductive Op
  | epOut (ep : Word) (data : Nat → Byte) (len : Word) (setup : Bool)
  | epIn (ep : Word)
  | busReset
  | write (offset n value : Word)
  | pmaWrite (offset n value : Word)

def step (s : Stm32Usb) : Op → Stm32Usb
  | .epOut ep data len setup => (s.epOut ep data len setup).2
  | .epIn ep => (s.epIn ep).2
  | .busReset => s.busReset
  | .write offset n value => (s.write offset n value).2
  | .pmaWrite offset n value => (s.pmaWrite offset n value).2

abbrev Transfer := Fin 8 × Bool

def completion (out : Bool) : Nat := if out then 15 else 7

def Pending (s : Stm32Usb) (t : Transfer) : Prop :=
  (s.ep t.1).getLsbD (completion t.2) = true

def Ctr (s : Stm32Usb) : Prop := s.istr.getLsbD 15 = true

instance (s : Stm32Usb) : Decidable s.Ctr := inferInstanceAs (Decidable (_ = _))

def named (s : Stm32Usb) : Option Transfer :=
  (endpoint (s.istr &&& istrIdMask)).map fun ep => (ep, s.istr.getLsbD 4)

structure Truthful (s : Stm32Usb) : Prop where
  ctr : s.Ctr ↔ ∃ t, s.Pending t
  named : s.Ctr → ∃ t, s.named = some t ∧ s.Pending t

/-- The driver's write to the register of an endpoint that clears one of its completion bits and
nothing else. -/
def clearing (reg : Word) (out : Bool) : Word :=
  reg &&& (epEa ||| epKind ||| epType) ||| if out then epCtrTx else epCtrRx

def serve (s : Stm32Usb) : Stm32Usb :=
  match s.named with
  | some (ep, out) => (s.write (BitVec.ofNat 32 (4 * ep)) 4 (clearing (s.ep ep) out)).2
  | none => s

def drain : Nat → Stm32Usb → Stm32Usb
  | 0, s => s
  | n + 1, s => if s.Ctr then drain n s.serve else s

def Drains (s : Stm32Usb) : Prop := ∃ n, ¬ (drain n s).Ctr ∧ ∀ t, ¬ (drain n s).Pending t

def told : Word := istrCtr ||| istrDir ||| istrIdMask

/-- The host completes a transfer when no other is pending, and a write to ISTR has ones where ISTR
tells a transfer. -/
def Fits (s : Stm32Usb) : Op → Prop
  | .epOut ep _ _ setup => ∀ ep' ∈ endpoint ep, s.Takes ep' setup →
      ∀ t, s.Pending t → t = (ep', true)
  | .epIn ep => ∀ ep' ∈ endpoint ep, s.Gives ep' → ∀ t, s.Pending t → t = (ep', false)
  | .write offset n value =>
      offset = istrOffset → n ≠ 0 → n ≤ 4 → s.Ctr → s.istr &&& told &&& ~~~value = 0
  | .busReset => True
  | .pmaWrite .. => True

theorem endpoint_eq_some {ep : Word} {i : Fin 8} : endpoint ep = some i ↔ ep.toNat = i.val := by
  rw [endpoint]
  by_cases inside : ep.toNat < 8
  · rw [dif_pos inside, Option.some.injEq, Fin.ext_iff]
  · rw [dif_neg inside]
    have := i.isLt
    exact ⟨nofun, fun same => absurd (same ▸ this) inside⟩

theorem getLsbD_twoPow_mask {v : Word} (k : Nat) (low : k < 32) :
    v &&& BitVec.twoPow 32 k = 0 ↔ v.getLsbD k = false := by
  rw [BitVec.and_twoPow]
  cases bit : v.getLsbD k with
  | false => exact iff_of_true rfl rfl
  | true =>
    refine iff_of_false (fun same => ?_) nofun
    have bits := congrArg (fun w : Word => w.getLsbD k) same
    simp [low] at bits

theorem getLsbD_ite_xor {c : Prop} [Decidable c] {r m : Word} {k : Nat}
    (clear : m.getLsbD k = false) : (if c then r ^^^ m else r).getLsbD k = r.getLsbD k := by
  split
  · rw [BitVec.getLsbD_xor, clear, Bool.xor_false]
  · rfl

theorem getLsbD_epValue (old value : Word) (out : Bool) :
    (epValue old value).getLsbD (completion out) =
      (old.getLsbD (completion out) && value.getLsbD (completion out)) := by
  have fields : (epEa ||| epKind ||| epType).getLsbD (completion out) = false := by
    cases out <;> decide
  have low : completion out < 32 := by cases out <;> decide
  have clear (m : Word) (here : m.getLsbD (completion out) = false) :
      (value &&& m).getLsbD (completion out) = false := by
    rw [BitVec.getLsbD_and, here, Bool.and_false]
  rw [epValue, BitVec.getLsbD_or, BitVec.getLsbD_and, BitVec.getLsbD_not, fields, clear _ fields,
    decide_eq_true low, Bool.not_false, Bool.and_true, Bool.and_true, Bool.or_false,
    getLsbD_ite_xor (clear _ (by cases out <;> decide)),
    getLsbD_ite_xor (clear _ (by cases out <;> decide)),
    getLsbD_ite_xor (by cases out <;> decide), getLsbD_ite_xor (by cases out <;> decide)]
  have rx : epCtrRx = BitVec.twoPow 32 15 := by decide
  have tx : epCtrTx = BitVec.twoPow 32 7 := by decide
  cases out with
  | true =>
    have other (r : Word) : (if value &&& epCtrTx = 0 then r &&& ~~~epCtrTx else r).getLsbD 15 =
        r.getLsbD 15 := by
      split
      · rw [BitVec.getLsbD_and, BitVec.getLsbD_not, show epCtrTx.getLsbD 15 = false by decide]
        exact Bool.and_true _
      · rfl
    refine (other _).trans ?_
    rw [rx]
    change _ = (old.getLsbD 15 && value.getLsbD 15)
    cases bit : value.getLsbD 15 with
    | false =>
      rw [if_pos ((getLsbD_twoPow_mask 15 (by decide)).mpr bit), BitVec.getLsbD_and,
        BitVec.getLsbD_and, BitVec.getLsbD_not,
        show (BitVec.twoPow 32 15).getLsbD 15 = true by decide]
      simp
    | true =>
      rw [if_neg fun zero => Bool.false_ne_true
        (((getLsbD_twoPow_mask 15 (by decide)).mp zero).symm.trans bit), Bool.and_true]
  | false =>
    have other (r : Word) : (if value &&& epCtrRx = 0 then r &&& ~~~epCtrRx &&& ~~~epSetup
        else r).getLsbD 7 = r.getLsbD 7 := by
      split
      · rw [BitVec.getLsbD_and, BitVec.getLsbD_and, BitVec.getLsbD_not, BitVec.getLsbD_not,
          show epCtrRx.getLsbD 7 = false by decide, show epSetup.getLsbD 7 = false by decide]
        simp
      · rfl
    rw [tx]
    change _ = (old.getLsbD 7 && value.getLsbD 7)
    cases bit : value.getLsbD 7 with
    | false =>
      rw [if_pos ((getLsbD_twoPow_mask 7 (by decide)).mpr bit)]
      change (_ &&& ~~~BitVec.twoPow 32 7).getLsbD 7 = _
      rw [BitVec.getLsbD_and, BitVec.getLsbD_not,
        show (BitVec.twoPow 32 7).getLsbD 7 = true by decide]
      simp
    | true =>
      rw [if_neg fun zero => Bool.false_ne_true
        (((getLsbD_twoPow_mask 7 (by decide)).mp zero).symm.trans bit), Bool.and_true]
      exact other old

@[simp] theorem ep_setEp_self (s : Stm32Usb) (ep : Fin 8) (v : Word) : (s.setEp ep v).ep ep = v :=
  Function.update_self ..

theorem ep_setEp_of_ne (s : Stm32Usb) {ep other : Fin 8} (ne : other ≠ ep) (v : Word) :
    (s.setEp ep v).ep other = s.ep other :=
  Function.update_of_ne ne ..

theorem pending_congr {s s' : Stm32Usb} (same : s'.ep = s.ep) (t : Transfer) :
    s'.Pending t ↔ s.Pending t := by
  rw [Pending, Pending, same]

theorem pending_setEp (s : Stm32Usb) (ep : Fin 8) (v : Word) (t : Transfer) :
    (s.setEp ep v).Pending t ↔ if t.1 = ep then v.getLsbD (completion t.2) = true
      else s.Pending t := by
  rw [Pending]
  split
  · rename_i same
    rw [same, ep_setEp_self]
  · rename_i other
    rw [ep_setEp_of_ne s other, Pending]

theorem none_pending_iff (s : Stm32Usb) :
    (∀ i, s.ep i &&& (epCtrRx ||| epCtrTx) = 0) ↔ ∀ t, ¬ s.Pending t := by
  have bits (i : Fin 8) : s.ep i &&& (epCtrRx ||| epCtrTx) = 0 ↔
      ∀ out, ¬ s.Pending (i, out) := by
    constructor
    · intro zero out pending
      have bit := congrArg (fun v : Word => v.getLsbD (completion out)) zero
      simp only [BitVec.getLsbD_and] at bit
      rw [show (s.ep i).getLsbD (completion out) = true from pending] at bit
      revert bit
      cases out <;> decide
    · intro clear
      have masks : epCtrRx ||| epCtrTx = BitVec.twoPow 32 15 ||| BitVec.twoPow 32 7 := by decide
      have rx := (getLsbD_twoPow_mask (v := s.ep i) 15 (by decide)).mpr
        (eq_false_of_ne_true (clear true))
      have tx := (getLsbD_twoPow_mask (v := s.ep i) 7 (by decide)).mpr
        (eq_false_of_ne_true (clear false))
      rw [masks, BitVec.and_or_distrib_left, rx, tx]
      rfl
  constructor
  · exact fun all t => (bits t.1).mp (all t.1) t.2
  · exact fun clear i => (bits i).mpr fun out => clear (i, out)

theorem istr_setReg_self (s : Stm32Usb) (v : Word) : (s.setReg istrOffset v).istr = v := by
  rw [istr, reg, setReg]
  exact Function.update_self istrOffset v s.regs

theorem istr_setReg_of_ne (s : Stm32Usb) {offset : Word} (ne : offset ≠ istrOffset) (v : Word) :
    (s.setReg offset v).istr = s.istr := by
  rw [istr, reg, setReg]
  exact Function.update_of_ne ne.symm ..

theorem istr_raiseIrq (s : Stm32Usb) : s.raiseIrq.istr = s.istr := by
  rw [raiseIrq]
  split <;> rfl

theorem ep_raiseIrq (s : Stm32Usb) : s.raiseIrq.ep = s.ep := by
  rw [raiseIrq]
  split <;> rfl

theorem ep_epWrite (s : Stm32Usb) (ep : Fin 8) (value : Word) :
    (s.epWrite ep value).ep = (s.setEp ep (epValue (s.ep ep) value)).ep := by
  rw [epWrite]
  split <;> rfl

theorem pending_epWrite (s : Stm32Usb) (ep : Fin 8) (value : Word) (t : Transfer) :
    (s.epWrite ep value).Pending t ↔
      s.Pending t ∧ (t.1 = ep → value.getLsbD (completion t.2) = true) := by
  rw [pending_congr (ep_epWrite s ep value), pending_setEp]
  by_cases same : t.1 = ep
  · rw [if_pos same, getLsbD_epValue, Bool.and_eq_true, Pending, same]
    exact and_congr_right fun _ => ⟨fun kept _ => kept, fun kept => kept rfl⟩
  · rw [if_neg same]
    exact ⟨fun pending => ⟨pending, fun here => absurd here same⟩, And.left⟩

theorem istr_epWrite_of_pending {s : Stm32Usb} {ep : Fin 8} {value : Word} {t : Transfer}
    (pending : (s.epWrite ep value).Pending t) : (s.epWrite ep value).istr = s.istr := by
  rw [pending_congr (ep_epWrite s ep value)] at pending
  have some' : ¬ ∀ i, (s.setEp ep (epValue (s.ep ep) value)).ep i &&& (epCtrRx ||| epCtrTx) = 0 :=
    fun zero => (none_pending_iff _).mp zero t pending
  rw [epWrite, if_neg some']
  rfl

theorem not_ctr_epWrite {s : Stm32Usb} {ep : Fin 8} {value : Word}
    (none' : ∀ t, ¬ (s.epWrite ep value).Pending t) : ¬ (s.epWrite ep value).Ctr := by
  have clear : ∀ t, ¬ (s.setEp ep (epValue (s.ep ep) value)).Pending t := fun t pending =>
    none' t ((pending_congr (ep_epWrite s ep value) t).mpr pending)
  rw [epWrite, Ctr, if_pos ((none_pending_iff _).mpr clear), istr_setReg_self, BitVec.getLsbD_and,
    BitVec.getLsbD_not, show istrCtr.getLsbD 15 = true by decide]
  simp

theorem ctr_congr {s s' : Stm32Usb} (same : s'.istr = s.istr) : s'.Ctr ↔ s.Ctr := by
  rw [Ctr, Ctr, same]

theorem named_congr {s s' : Stm32Usb} (same : s'.istr = s.istr) : s'.named = s.named := by
  rw [named, named, same]

def Only (s : Stm32Usb) (t : Transfer) : Prop :=
  s.Ctr ∧ s.named = some t ∧ ∀ u, s.Pending u ↔ u = t

def Single (s : Stm32Usb) : Prop := (¬ s.Ctr ∧ ∀ t, ¬ s.Pending t) ∨ ∃ t, s.Only t

theorem clearing_keeps (reg : Word) (out out' : Bool) :
    (clearing reg out).getLsbD (completion out') = true ↔ out' ≠ out := by
  have fields : (epEa ||| epKind ||| epType).getLsbD (completion out') = false := by
    cases out' <;> decide
  rw [clearing, BitVec.getLsbD_or, BitVec.getLsbD_and, fields, Bool.and_false, Bool.false_or]
  cases out <;> cases out' <;> decide

theorem serve_eq {s : Stm32Usb} {ep : Fin 8} {out : Bool} (here : s.named = some (ep, out)) :
    s.serve = s.epWrite ep (clearing (s.ep ep) out) := by
  have low := ep.isLt
  have offset : (BitVec.ofNat 32 (4 * ep)).toNat = 4 * ep.val := by
    rw [BitVec.toNat_ofNat]
    omega
  have aligned : ¬ BitVec.ofNat 32 (4 * ep) % 4 ≠ 0 := by
    refine not_not.mpr (BitVec.eq_of_toNat_eq ?_)
    rw [BitVec.toNat_umod, offset]
    exact Nat.mul_mod_right 4 ep.val
  have place : endpoint (BitVec.ofNat 32 (4 * ep) / 4) = some ep := by
    rw [endpoint_eq_some, BitVec.toNat_udiv, offset]
    exact Nat.mul_div_cancel_left ep.val (by decide)
  rw [serve, here]
  dsimp only
  rw [write, if_neg (show ¬ ((4 : Word) = 0 ∨ (4 : Word) < 4) by decide), if_neg aligned, place]
  rfl

theorem pending_serve {s : Stm32Usb} {t : Transfer} (here : s.named = some t) (u : Transfer) :
    s.serve.Pending u ↔ s.Pending u ∧ u ≠ t := by
  obtain ⟨ep, out⟩ := t
  rw [serve_eq here, pending_epWrite, clearing_keeps]
  refine and_congr_right fun _ => ?_
  rw [Ne, Ne, Prod.ext_iff, not_and]

def Stale (s : Stm32Usb) (t : Transfer) : Prop :=
  s.Ctr ∧ s.named = some t ∧ ∃ u, u ≠ t ∧ s.Pending u

theorem stale_serve {s : Stm32Usb} {t : Transfer} (stale : s.Stale t) : s.serve.Stale t := by
  obtain ⟨ctr, here, u, other, pending⟩ := stale
  have still := (pending_serve here u).mpr ⟨pending, other⟩
  have same : s.serve.istr = s.istr := by
    rw [serve_eq here] at still ⊢
    exact istr_epWrite_of_pending still
  exact ⟨(ctr_congr same).mpr ctr, (named_congr same).trans here, u, other, still⟩

theorem stale_drain {s : Stm32Usb} {t : Transfer} (stale : s.Stale t) (n : Nat) :
    (drain n s).Stale t := by
  induction n generalizing s with
  | zero => exact stale
  | succ n ih =>
    rw [drain, if_pos stale.1]
    exact ih (stale_serve stale)

theorem drains_of_single {s : Stm32Usb} (single : s.Single) : s.Drains := by
  rcases single with ⟨clear, none'⟩ | ⟨t, ctr, here, only⟩
  · exact ⟨0, clear, none'⟩
  · have none' (u : Transfer) : ¬ s.serve.Pending u := fun pending =>
      have both := (pending_serve here u).mp pending
      both.2 ((only u).mp both.1)
    have clear : ¬ s.serve.Ctr := by
      rw [serve_eq here] at none' ⊢
      exact not_ctr_epWrite none'
    refine ⟨1, ?_⟩
    rw [drain, if_pos ctr, drain]
    exact ⟨clear, none'⟩

theorem truthful_and_drains_iff (s : Stm32Usb) : s.Truthful ∧ s.Drains ↔ s.Single := by
  constructor
  · rintro ⟨truthful, n, clear, -⟩
    by_cases ctr : s.Ctr
    · obtain ⟨t, here, pending⟩ := truthful.named ctr
      refine .inr ⟨t, ctr, here, fun u => ⟨fun also => ?_, fun same => same ▸ pending⟩⟩
      by_contra other
      exact clear (stale_drain ⟨ctr, here, u, other, also⟩ n).1
    · exact .inl ⟨ctr, fun t pending => ctr (truthful.ctr.mpr ⟨t, pending⟩)⟩
  · intro single
    refine ⟨?_, drains_of_single single⟩
    rcases single with ⟨clear, none'⟩ | ⟨t, ctr, here, only⟩
    · exact ⟨⟨fun ctr => absurd ctr clear, fun ⟨t, pending⟩ => absurd pending (none' t)⟩,
        fun ctr => absurd ctr clear⟩
    · have pending := (only t).mpr rfl
      exact ⟨⟨fun _ => ⟨t, pending⟩, fun _ => ctr⟩, fun _ => ⟨t, here, pending⟩⟩

theorem and_insert {w m d : Word} (apart : d &&& m = 0) (c e : Word) (out : Bool) :
    (if out then (w ||| c) &&& ~~~m ||| e &&& m ||| d
      else ((w ||| c) &&& ~~~m ||| e &&& m) &&& ~~~d) &&& m = e &&& m := by
  have bits (i : Nat) : (d.getLsbD i && m.getLsbD i) = false := by
    have bit := congrArg (fun v : Word => v.getLsbD i) apart
    simpa using bit
  refine BitVec.eq_of_getLsbD_eq fun i inside => ?_
  have bit := bits i
  have either (w c m e d : Bool) (apart : (d && m) = false) : ∀ out : Bool,
      ((if out then (w || c) && !m || e && m || d else ((w || c) && !m || e && m) && !d) && m) =
        (e && m) := by
    revert w c m e d
    decide
  rw [show (e &&& m).getLsbD i = (e.getLsbD i && m.getLsbD i) from BitVec.getLsbD_and]
  refine (?_ : _ = _).trans (either (w.getLsbD i) (c.getLsbD i) _ (e.getLsbD i) _ bit out)
  cases out <;> simp [inside]

theorem ep_setIstr (s : Stm32Usb) (ep : Word) (out : Bool) : (s.setIstr ep out).ep = s.ep := by
  rw [setIstr, ep_raiseIrq]
  rfl

theorem istr_setIstr (s : Stm32Usb) (ep : Word) (out : Bool) :
    (s.setIstr ep out).istr =
      if out then (s.istr ||| istrCtr) &&& ~~~istrIdMask ||| ep &&& istrIdMask ||| istrDir
      else ((s.istr ||| istrCtr) &&& ~~~istrIdMask ||| ep &&& istrIdMask) &&& ~~~istrDir := by
  rw [setIstr, istr_raiseIrq, istr_setReg_self]

theorem ctr_setIstr (s : Stm32Usb) (ep : Word) (out : Bool) : (s.setIstr ep out).Ctr := by
  rw [Ctr, istr_setIstr]
  have ctr : istrCtr[15] = true := by decide
  have mask : istrIdMask[15] = false := by decide
  have dir : istrDir[15] = false := by decide
  cases out <;> simp [ctr, mask, dir]

theorem named_setIstr (s : Stm32Usb) (ep : Fin 8) (out : Bool) :
    (s.setIstr (BitVec.ofNat 32 ep) out).named = some (ep, out) := by
  have direction : istrDir[4] = true := by decide
  have number : endpoint ((s.setIstr (BitVec.ofNat 32 ep) out).istr &&& istrIdMask) = some ep := by
    rw [istr_setIstr, and_insert (by decide), endpoint_eq_some]
    revert ep
    decide
  have dir : (s.setIstr (BitVec.ofNat 32 ep) out).istr.getLsbD 4 = out := by
    rw [istr_setIstr]
    cases out <;> simp [direction]
  rw [named, number, dir]
  rfl

theorem ep_setRxCount (s : Stm32Usb) (ep : Fin 8) (count : Word) :
    (s.setRxCount ep count).ep = s.ep := by
  rw [setRxCount, pmaWrite32]
  split <;> rfl

theorem pending_setEp_of_completed {s : Stm32Usb} {ep : Fin 8} {out : Bool} {v : Word}
    (bits : ∀ out', v.getLsbD (completion out') =
      (decide (out' = out) || (s.ep ep).getLsbD (completion out'))) (t : Transfer) :
    (s.setEp ep v).Pending t ↔ s.Pending t ∨ t = (ep, out) := by
  obtain ⟨i, out'⟩ := t
  rw [pending_setEp]
  by_cases same : i = ep
  · rw [if_pos same, bits, Pending, same, Bool.or_eq_true, decide_eq_true_iff, Prod.ext_iff]
    exact or_comm.trans (or_congr_right ⟨fun here => ⟨rfl, here⟩, And.right⟩)
  · rw [if_neg same, Prod.ext_iff]
    exact ⟨.inl, Or.rec id fun here => absurd here.1 same⟩

theorem getLsbD_completed {old keep nak : Word} {out' out : Bool}
    (kept : keep.getLsbD (completion out') = false) (apart : nak.getLsbD (completion out') = false)
    (set' : Word) (bit : set'.getLsbD (completion out') = decide (out' = out)) :
    ((old ||| set') &&& ~~~keep ||| nak).getLsbD (completion out') =
      (decide (out' = out) || old.getLsbD (completion out')) := by
  have low : completion out' < 32 := by cases out' <;> decide
  rw [BitVec.getLsbD_or, BitVec.getLsbD_and, BitVec.getLsbD_or, BitVec.getLsbD_not, kept, apart,
    bit, decide_eq_true low, Bool.or_false, Bool.not_false, Bool.and_true, Bool.and_true, Bool.or_comm]

theorem pending_takePacket (s : Stm32Usb) (ep : Fin 8) (data : Nat → Byte) (len : Word)
    (setup : Bool) (t : Transfer) :
    (s.takePacket ep data len setup).Pending t ↔ s.Pending t ∨ t = (ep, true) := by
  rw [takePacket, pending_congr (ep_setIstr _ _ _), pending_setEp_of_completed]
  · exact or_congr_left (pending_congr (ep_setRxCount _ _ _) t)
  · intro out'
    rw [ep_setRxCount]
    cases setup with
    | false =>
      exact getLsbD_completed (by cases out' <;> decide) (by cases out' <;> decide) epCtrRx
        (by cases out' <;> decide)
    | true =>
      rw [if_pos rfl, BitVec.or_assoc]
      exact getLsbD_completed (by cases out' <;> decide) (by cases out' <;> decide)
        (epCtrRx ||| epSetup) (by cases out' <;> decide)

theorem pending_givePacket (s : Stm32Usb) (ep : Fin 8) (t : Transfer) :
    (s.givePacket ep).Pending t ↔ s.Pending t ∨ t = (ep, false) := by
  rw [givePacket, pending_congr (ep_setIstr _ _ _), pending_setEp_of_completed]
  intro out'
  exact getLsbD_completed (by cases out' <;> decide) (by cases out' <;> decide) epCtrTx
    (by cases out' <;> decide)

theorem single_completed_iff {s s' : Stm32Usb} {t : Transfer} (ctr : s'.Ctr)
    (here : s'.named = some t) (pending : ∀ u, s'.Pending u ↔ s.Pending u ∨ u = t) :
    s'.Single ↔ ∀ u, s.Pending u → u = t := by
  constructor
  · rintro (⟨clear, -⟩ | ⟨u, -, here', only⟩) v before
    · exact absurd ctr clear
    · rw [(only v).mp ((pending v).mpr (.inl before))]
      exact Option.some.inj (here'.symm.trans here)
  · intro none'
    refine .inr ⟨t, ctr, here, fun u => (pending u).trans ?_⟩
    exact ⟨Or.rec (none' u) id, .inr⟩

theorem single_epOut_iff {s : Stm32Usb} (single : s.Single) (ep : Word) (data : Nat → Byte)
    (len : Word) (setup : Bool) :
    (s.epOut ep data len setup).2.Single ↔ s.Fits (.epOut ep data len setup) := by
  rw [epOut, Fits]
  cases endpoint ep with
  | none => exact iff_of_true single nofun
  | some ep =>
    dsimp only
    by_cases takes : s.Takes ep setup
    · rw [if_pos takes]
      refine (single_completed_iff (ctr_setIstr _ _ _) (named_setIstr _ ep true)
        (pending_takePacket s ep data len setup)).trans ?_
      refine ⟨fun none' ep' same _ => ?_, fun fits => fits ep rfl takes⟩
      rwa [← Option.some.inj same]
    · rw [if_neg takes]
      refine iff_of_true single fun ep' same takes' => absurd takes' ?_
      rwa [← Option.some.inj same]

theorem single_epIn_iff {s : Stm32Usb} (single : s.Single) (ep : Word) :
    (s.epIn ep).2.Single ↔ s.Fits (.epIn ep) := by
  rw [epIn, Fits]
  cases endpoint ep with
  | none => exact iff_of_true single nofun
  | some ep =>
    dsimp only
    by_cases gives : s.Gives ep
    · rw [if_pos gives]
      refine (single_completed_iff (ctr_setIstr _ _ _) (named_setIstr _ ep false)
        (pending_givePacket s ep)).trans ?_
      refine ⟨fun none' ep' same _ => ?_, fun fits => fits ep rfl gives⟩
      rwa [← Option.some.inj same]
    · rw [if_neg gives]
      refine iff_of_true single fun ep' same gives' => absurd gives' ?_
      rwa [← Option.some.inj same]

theorem Single.kept {s s' : Stm32Usb} (single : s.Single) (ctr : s'.Ctr ↔ s.Ctr)
    (names : s.Ctr → s'.named = s.named) (pending : ∀ t, s'.Pending t ↔ s.Pending t) :
    s'.Single := by
  rcases single with ⟨clear, none'⟩ | ⟨t, set', here, only⟩
  · exact .inl ⟨mt ctr.mp clear, fun t => mt (pending t).mp (none' t)⟩
  · exact .inr ⟨t, ctr.mpr set', (names set').trans here, fun u => (pending u).trans (only u)⟩

theorem single_epWrite {s : Stm32Usb} (single : s.Single) (ep : Fin 8) (value : Word) :
    (s.epWrite ep value).Single := by
  by_cases some' : ∃ t, (s.epWrite ep value).Pending t
  · obtain ⟨t, pending⟩ := some'
    have same := istr_epWrite_of_pending pending
    have before := ((pending_epWrite s ep value t).mp pending).1
    rcases single with ⟨-, none'⟩ | ⟨u, ctr, here, only⟩
    · exact absurd before (none' t)
    · obtain rfl := (only t).mp before
      refine .inr ⟨t, (ctr_congr same).mpr ctr, (named_congr same).trans here, fun v => ?_⟩
      exact ⟨fun also => (only v).mp ((pending_epWrite s ep value v).mp also).1,
        fun equal => equal ▸ pending⟩
  · have none' : ∀ t, ¬ (s.epWrite ep value).Pending t := fun t pending => some' ⟨t, pending⟩
    exact .inl ⟨not_ctr_epWrite none', none'⟩

theorem getLsbD_regValue_istr (n old value : Word) {k : Nat} (low : k < 16) :
    (regValue istrOffset n old value).getLsbD k = (old.getLsbD k && value.getLsbD k) := by
  have upper : ∀ k < 16, (0xFFFF0000 : Word).getLsbD k = false := by decide
  have lower : ∀ k < 16, (0xFFFF : Word).getLsbD k = true := by decide
  rw [regValue]
  dsimp only
  rw [if_pos rfl, if_pos rfl]
  split
  · rw [BitVec.getLsbD_or, BitVec.getLsbD_and, BitVec.getLsbD_and, BitVec.getLsbD_and,
      BitVec.getLsbD_and, upper k low, lower k low, Bool.and_false, Bool.false_or, Bool.and_true,
      Bool.and_true]
  · exact BitVec.getLsbD_and

theorem told_kept_iff (n old value : Word) :
    regValue istrOffset n old value &&& told = old &&& told ↔ old &&& told &&& ~~~value = 0 := by
  have inside : ∀ k < 32, 16 ≤ k → told.getLsbD k = false := by decide
  have either (o m v : Bool) : ((o && v) && m) = (o && m) ↔ (o && m && !v) = false := by
    revert o m v
    decide
  have bits (k : Nat) (small : k < 32) :
      (regValue istrOffset n old value &&& told).getLsbD k = (old &&& told).getLsbD k ↔
        (old &&& told &&& ~~~value).getLsbD k = (0 : Word).getLsbD k := by
    rw [show (0 : Word).getLsbD k = false from BitVec.getLsbD_zero, BitVec.getLsbD_and,
      BitVec.getLsbD_and, BitVec.getLsbD_and, BitVec.getLsbD_and,
      BitVec.getLsbD_not, decide_eq_true small, Bool.true_and]
    by_cases low : k < 16
    · rw [getLsbD_regValue_istr n old value low]
      exact either (old.getLsbD k) (told.getLsbD k) (value.getLsbD k)
    · rw [inside k small (Nat.le_of_not_lt low), Bool.and_false, Bool.and_false, Bool.false_and]
  constructor
  · intro same
    exact BitVec.eq_of_getLsbD_eq fun k small => (bits k small).mp (by rw [same])
  · intro zero
    exact BitVec.eq_of_getLsbD_eq fun k small => (bits k small).mpr (by rw [zero])

theorem named_eq_some {s : Stm32Usb} {t : Transfer} :
    s.named = some t ↔ (s.istr &&& istrIdMask).toNat = t.1.val ∧ s.istr.getLsbD 4 = t.2 := by
  rw [named, Option.map_eq_some_iff]
  constructor
  · rintro ⟨ep, number, rfl⟩
    exact ⟨endpoint_eq_some.mp number, rfl⟩
  · rintro ⟨number, dir⟩
    exact ⟨t.1, endpoint_eq_some.mpr number, Prod.ext rfl dir⟩

theorem tells_iff {s s' : Stm32Usb} {t : Transfer} (ctr : s.Ctr) (here : s.named = some t) :
    s'.Ctr ∧ s'.named = some t ↔ s'.istr &&& told = s.istr &&& told := by
  have parts : (told &&& istrIdMask = istrIdMask) ∧ told.getLsbD 4 = true ∧
      told.getLsbD 15 = true := by decide
  obtain ⟨number, dir⟩ := named_eq_some.mp here
  constructor
  · rintro ⟨ctr', here'⟩
    obtain ⟨number', dir'⟩ := named_eq_some.mp here'
    have ids := BitVec.eq_of_toNat_eq (number'.trans number.symm)
    have rest : ∀ k < 32, ¬ k < 4 → k ≠ 4 → k ≠ 15 → told.getLsbD k = false := by decide
    have low : ∀ k < 4, told.getLsbD k = true ∧ istrIdMask.getLsbD k = true := by decide
    refine BitVec.eq_of_getLsbD_eq fun k small => ?_
    rw [BitVec.getLsbD_and, BitVec.getLsbD_and]
    by_cases inId : k < 4
    · have bit := congrArg (fun v : Word => v.getLsbD k) ids
      rwa [BitVec.getLsbD_and, BitVec.getLsbD_and, (low k inId).2, Bool.and_true, Bool.and_true,
        ← Bool.and_true (s'.istr.getLsbD k), ← Bool.and_true (s.istr.getLsbD k),
        ← (low k inId).1] at bit
    by_cases inDir : k = 4
    · rw [inDir, dir', dir]
    by_cases inCtr : k = 15
    · rw [inCtr, show s'.istr.getLsbD 15 = true from ctr', show s.istr.getLsbD 15 = true from ctr]
    · rw [rest k small inId inDir inCtr, Bool.and_false, Bool.and_false]
  · intro same
    have bit (k : Nat) (inside : told.getLsbD k = true) :
        s'.istr.getLsbD k = s.istr.getLsbD k := by
      have bit := congrArg (fun v : Word => v.getLsbD k) same
      rwa [BitVec.getLsbD_and, BitVec.getLsbD_and, inside, Bool.and_true, Bool.and_true] at bit
    refine ⟨(bit 15 parts.2.2).trans ctr, named_eq_some.mpr ⟨?_, (bit 4 parts.2.1).trans dir⟩⟩
    rw [← number, ← parts.1, ← BitVec.and_assoc, same, BitVec.and_assoc]

theorem single_istrWrite_iff {s s' : Stm32Usb} (single : s.Single) {n value : Word}
    (ep : s'.ep = s.ep) (istr' : s'.istr = regValue istrOffset n s.istr value) :
    s'.Single ↔ (s.Ctr → s.istr &&& told &&& ~~~value = 0) := by
  have ctr' : s'.Ctr → s.Ctr := by
    rw [Ctr, istr', getLsbD_regValue_istr n _ _ (by decide), Bool.and_eq_true]
    exact And.left
  rcases single with ⟨clear, none'⟩ | ⟨t, ctr, here, only⟩
  · refine iff_of_true (.inl ⟨mt ctr' clear, fun t => mt (pending_congr ep t).mp (none' t)⟩) ?_
    exact fun ctr => absurd ctr clear
  · rw [forall_prop_of_true ctr, ← told_kept_iff n, ← istr', ← tells_iff ctr here]
    have pending (u : Transfer) : s'.Pending u ↔ u = t := (pending_congr ep u).trans (only u)
    constructor
    · rintro (⟨-, none'⟩ | ⟨u, ctr', here', only'⟩)
      · exact absurd ((pending t).mpr rfl) (none' t)
      · rw [(only' t).mp ((pending t).mpr rfl)]
        exact ⟨ctr', here'⟩
    · exact fun ⟨ctr', here'⟩ => .inr ⟨t, ctr', here', pending⟩

theorem single_write_iff {s : Stm32Usb} (single : s.Single) (offset n value : Word) :
    (s.write offset n value).2.Single ↔ s.Fits (.write offset n value) := by
  rw [write, Fits]
  by_cases sized : n = 0 ∨ 4 < n
  · rw [if_pos sized]
    refine iff_of_true single fun _ some' few => ?_
    exact absurd sized (not_or.mpr ⟨some', BitVec.not_lt.mpr few⟩)
  obtain ⟨some', few⟩ := not_or.mp sized
  rw [if_neg sized]
  by_cases istr' : offset = istrOffset
  · subst istr'
    rw [if_neg (by decide), show endpoint (istrOffset / 4) = none by decide]
    dsimp only
    rw [if_pos (by decide)]
    let s' := s.setReg istrOffset (regValue istrOffset n s.istr value)
    have same : s'.ep = s.ep := rfl
    refine (single_istrWrite_iff single same (istr_setReg_self s _)).trans ?_
    exact ⟨fun kept _ _ _ => kept, fun fits => fits rfl some' (BitVec.not_lt.mp few)⟩
  · refine iff_of_true ?_ fun here => absurd here istr'
    split
    · exact single
    · cases endpoint (offset / 4) with
      | some ep => exact single_epWrite single ep _
      | none =>
        dsimp only
        split
        · have same := istr_setReg_of_ne s istr' (regValue offset n (s.reg offset) value)
          exact single.kept (ctr_congr same) (fun _ => named_congr same) (pending_congr rfl)
        · exact single

theorem single_busReset {s : Stm32Usb} (single : s.Single) : s.busReset.Single := by
  have istr' : s.busReset.istr = s.istr ||| istrReset := by
    rw [busReset, istr_raiseIrq, istr_setReg_self]
  have bit (k : Nat) (other : istrReset.getLsbD k = false) :
      s.busReset.istr.getLsbD k = s.istr.getLsbD k := by
    rw [istr', BitVec.getLsbD_or, other, Bool.or_false]
  have id : s.busReset.istr &&& istrIdMask = s.istr &&& istrIdMask := by
    rw [istr', BitVec.and_or_distrib_right, show istrReset &&& istrIdMask = 0 by decide]
    exact BitVec.or_zero
  refine single.kept ?_ (fun _ => ?_) (pending_congr (ep_raiseIrq _))
  · rw [Ctr, Ctr, bit 15 (by decide)]
  · rw [named, named, id, bit 4 (by decide)]

theorem single_step_iff {s : Stm32Usb} (single : s.Single) (op : Op) :
    (s.step op).Single ↔ s.Fits op := by
  cases op with
  | epOut ep data len setup => exact single_epOut_iff single ep data len setup
  | epIn ep => exact single_epIn_iff single ep
  | busReset => exact iff_of_true (single_busReset single) trivial
  | write offset n value => exact single_write_iff single offset n value
  | pmaWrite offset n value =>
    refine iff_of_true ?_ trivial
    rw [step, pmaWrite]
    split
    · exact single
    split
    · exact single
    · exact single.kept (ctr_congr rfl) (fun _ => named_congr rfl) (pending_congr rfl)

theorem single_reset : reset.Single :=
  .inl ⟨by decide, (none_pending_iff reset).mp (by decide)⟩

/-- ISTR tells a transfer that is pending, and the loop of the driver ends with all of them served,
in every state of exactly the runs that fit. -/
theorem told_and_drained_iff (ops : List Op) :
    Throughout step (fun s => s.Truthful ∧ s.Drains) reset ops ↔ Along step Fits reset ops := by
  have steps (s : Stm32Usb) (op : Op) (single : s.Single) : (s.step op).Single ↔ s.Fits op :=
    single_step_iff single op
  rw [throughout_congr truthful_and_drains_iff]
  exact throughout_iff_along steps single_reset

def twoPackets : List Op :=
  [.write daddrOffset 4 daddrEf, .write 0 4 0x3000, .write 4 4 0x3001,
    .epOut 0 (fun _ => 0) 8 false, .epOut 1 (fun _ => 0) 8 false]

theorem second_packet_not_drained :
    ¬ ∀ ops, Throughout step (fun s => s.Truthful ∧ s.Drains) reset ops := by
  intro all
  have both (ep : Fin 2) : (run step reset twoPackets).Pending (⟨ep, by omega⟩, true) := by
    revert ep
    unfold Pending
    decide
  rcases (truthful_and_drains_iff _).mp (all twoPackets).last with ⟨-, none'⟩ | ⟨t, -, -, only⟩
  · exact none' _ (both 0)
  · exact absurd (((only _).mp (both 0)).trans ((only _).mp (both 1)).symm) (by decide)

end Stm32Usb

end M33mu
