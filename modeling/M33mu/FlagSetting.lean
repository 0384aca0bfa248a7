import M33mu.DataEncodings
import M33mu.DataFlags
import M33mu.ItAgreement
import M33mu.Pass

namespace M33mu

open Lib Decode Decode32 DataProc ExecHelpers Execute

def dataKinds : List OpKind := wideKinds ++ [.rorReg, .neg, .mul]

/-- Whether a 32-bit instruction treats the flags as its S bit says; `last` is a position outside or
at the end of an IT block. -/
def WideConforms (kind : OpKind) (s last : Bool) : Bool :=
  if s then kind ∉ shiftKinds && (last || kind ∈ compareKinds ++ steadyKinds)
  else kind ∉ compareKinds

/-- Whether a 16-bit instruction treats the flags as its position says, with `k` instructions of an
IT block left, its own included. -/
def NarrowConforms (kind : OpKind) (k : Fin 5) : Bool :=
  if k = 0 then
    kind ∉ [OpKind.movImm, .lslImm, .lsrImm, .asrImm, .lslReg, .lsrReg, .asrReg]
  else if k = 1 then kind ∈ [OpKind.movImm, .addImm, .lsrImm, .asrImm, .lslReg, .lsrReg, .asrReg]
  else kind ∉ [OpKind.neg, .mul]

def wideWrites (kind : OpKind) (s last : Bool) : Bool :=
  if kind ∈ compareKinds then true
  else if kind ∈ steadyKinds then s
  else if kind ∈ silentKinds ++ [.movReg, .asrReg, .rorRegNf] then false
  else s && last

def narrowWrites (kind : OpKind) (k : Fin 5) : Bool :=
  if kind ∈ [OpKind.neg, .mul] then true
  else if kind = .movImm then false
  else if kind ∈ [OpKind.addImm, .lsrImm, .asrImm, .lslReg, .lsrReg, .asrReg] then k = 0
  else k ≤ 1

theorem wideConforms_iff : ∀ kind ∈ wideKinds, ∀ s last : Bool, (kind ∈ silentKinds → s = false) →
    (WideConforms kind s last = true ↔
      wideWrites kind s last = s ∧ (s = true → clearsV kind = false)) := by
  decide

theorem narrowConforms_iff : ∀ kind ∈ narrowKinds, ∀ k : Fin 5,
    (NarrowConforms kind k = true ↔
      narrowWrites kind k = decide (k = 0) ∧ (decide (k = 0) = true → clearsV kind = false)) := by
  decide

section

variable {d : Decoded} {k : Fin 5}

theorem remaining_le_one (k : Fin 5) :
    (decide (BitVec.ofNat 8 k ≤ 1) = decide (k ≤ 1)) ∧
      decide (BitVec.ofNat 8 k = 0) = decide (k = 0) := by
  revert k
  decide

theorem writes_wide {insn : Word} {s : Bool} (form : WideForm insn s d) (len : d.len = 4)
    (raw : d.raw = insn) :
    writes d (BitVec.ofNat 8 k) = wideWrites d.kind s (decide (k ≤ 1)) := by
  obtain ⟨last, -⟩ := remaining_le_one k
  obtain ⟨wide, silent, bit, always, shifted, product⟩ := form
  have sbit : insn.getLsbD 20 = s → sBit d = s := (congrArg (·.getLsbD 20) raw).trans
  have form : insn &&& 0xfe000000 = 0xea000000 → regForm d = true := fun head => by
    rw [regForm, raw, head]
    rfl
  have two : (d.len = 2) = False := by
    rw [len]
    decide
  have four : (d.len = 4) = True := eq_true len
  cases kind : d.kind
  all_goals first
    | exact absurd wide (by rw [kind]; decide)
    | rw [kind] at bit always shifted product
  all_goals
    simp only [writes, kind, two, four, setFlagsLast, setFlagsOutside, last, if_false, decide_true,
      Bool.true_and]
    try rfl
  case mulW => exact product rfl
  case cmnImm => exact (always (.inl rfl)).symm
  case sbcImm => exact (always (.inr rfl)).symm
  case addReg =>
    rw [if_pos (form (shifted (.inl rfl)))]
    exact sbit (bit (by decide))
  case subReg =>
    rw [if_pos (form (shifted (.inr (.inl rfl))))]
    exact sbit (bit (by decide))
  case sbcsReg =>
    rw [if_pos (form (shifted (.inr (.inr rfl)))), sbit (bit (by decide))]
    rfl
  all_goals
    rw [sbit (bit (by decide))]
    rfl

theorem writes_narrow (len : d.len = 2) (raw : d.raw < 0x10000)
    (low : d.kind = .addReg → d.raw &&& 0xfc00 ≠ 0x4400) (narrow : d.kind ∈ narrowKinds) :
    writes d (BitVec.ofNat 8 k) = narrowWrites d.kind k := by
  obtain ⟨last, outside⟩ := remaining_le_one k
  have plain : (regForm d = true) = False := by
    rw [regForm, eq_iff_iff, iff_false]
    intro head
    have field := and_field d.raw 25 7
    have none : d.raw.extractLsb' 25 7 = 0 := by
      apply BitVec.eq_of_toNat_eq
      rw [BitVec.extractLsb'_toNat, Nat.shiftRight_eq_div_pow,
        Nat.div_eq_of_lt (Nat.lt_trans raw (by decide))]
      rfl
    rw [none, show (BitVec.allOnes 7).setWidth 32 <<< 25 = (0xfe000000 : Word) by decide,
      beq_iff_eq.mp head] at field
    exact absurd field (by decide)
  have two : (d.len = 2) = True := eq_true len
  cases kind : d.kind
  all_goals first
    | exact absurd narrow (by rw [kind]; decide)
    | skip
  all_goals
    simp only [writes, kind, two, plain, setFlagsLast, setFlagsOutside, last, outside, if_false,
      if_true, decide_true, Bool.true_and]
    try rfl
  case addReg =>
    rw [bne_iff_ne.mpr (low kind), Bool.true_and]
    rfl

end

theorem Cpu.setActiveSp_xpsr (c : Cpu) (v : Word) : (c.setActiveSp v).xpsr = c.xpsr := by
  simp only [setActiveSp, setReg]
  split
  · rfl
  · simp only [updateMspMin, initMspTop]
    repeat' split
    all_goals rfl

namespace Machine

variable {δ : Type u} {env : Env δ} {f : FetchResult} {d : Decoded} {m : Machine δ}

def flags (m : Machine δ) : Flags := .ofXpsr m.cpu.xpsr

theorem ofXpsr_entry (xpsr num : Word) :
    Flags.ofXpsr ((xpsr &&& 0xF8000000) ||| 0x01000000 ||| (num &&& 0x1FF)) = .ofXpsr xpsr := by
  simp [Flags.ofXpsr]

theorem ofXpsr_itState (xpsr : Word) (itstate : Byte) :
    Flags.ofXpsr (ItState.set xpsr itstate) = .ofXpsr xpsr := by
  simp [Flags.ofXpsr, ItState.set]

theorem flags_afterCall {sec : SecState} {r : Bool × Sys δ}
    (raised : m.toSys.Raised m.cpu.xpsr sec r) : (m.afterCall r).flags = m.flags := by
  cases raised with
  | entered num w entered =>
    obtain ⟨handler, sleeping, eventReg, rfl⟩ := entered
    exact ofXpsr_entry ..
  | refused w => rfl

theorem flags_usageFault (bits : Word) : (m.usageFault env f bits).flags = m.flags :=
  flags_afterCall (Sys.raiseUsageFault_raised env _ _ _ _)

theorem flags_setSp (v : Word) : (m.setSp env f v).2.flags = m.flags := by
  rw [setSp]
  split
  · exact flags_usageFault ufsrStkof
  · exact congrArg Flags.ofXpsr (m.cpu.setActiveSp_xpsr v)

theorem flags_setRegOrSp (i : Reg) (v : Word) : (m.setRegOrSp env f i v).2.flags = m.flags := by
  rw [setRegOrSp]
  split
  · exact flags_setSp v
  · rfl

theorem flags_bitField (bad : Bool) (res : Word) :
    (bitField env m f d bad res).2.flags = m.flags := by
  cases bad with
  | true => exact flags_usageFault _
  | false => rfl

theorem flags_execDiv (div : Word → Word → Word) : (execDiv env m f d div).2.flags = m.flags := by
  simp only [execDiv]
  split
  · split
    · exact flags_usageFault _
    · rfl
  · rfl

theorem flags_afterExecute (h : Host δ) (o : Outcome δ) :
    (afterExecute h d o).flags = o.2.flags := by
  obtain ⟨status, m⟩ := o
  cases status with
  | cont => rfl
  | ok =>
    rw [flags, afterExecute, endPass_cpu]
    split
    · exact ofXpsr_itState ..
    · rfl

theorem flags_executeDecoded (data : d.kind ∈ dataKinds)
    (stays : ¬ (d.kind = .movReg ∧ d.rd = 15)) :
    (executeDecoded env f d m).2.flags = written d m.it.remaining m.cpu.r m.cpu.xpsr := by
  rw [← flagsAfter_dataProc _ _ _ _ f.pcFetch]
  cases kind : d.kind
  all_goals first
    | exact absurd data (by rw [kind]; decide)
    | skip
  all_goals simp only [executeDecoded, kind]
  case addImm | subImm | subImmNf =>
    rw [dataOrSp]
    split
    · exact flags_setSp _
    · rfl
  case movReg =>
    simp only [dataProc, kind]
    rw [if_neg fun pc => stays ⟨kind, pc⟩]
    exact flags_setRegOrSp _ _
  case ubfx | sbfx | bfi | bfc =>
    simp only [dataProc, kind]
    refine (flags_bitField ..).trans rfl
  case udiv | sdiv =>
    simp only [dataProc, kind]
    exact flags_execDiv ..
  case mrs =>
    simp only [dataProc, kind, execMrs]
    split <;> rfl
  all_goals rfl

end Machine

/-- A data-processing instruction that the decoder knows; of 16 bits, none of `CMP`, `TST` and
`CMN`. -/
inductive DataInsn
  | narrow (hw1 : Half) (data : NarrowData hw1)
  | wide (insn : Word) (data : WideData insn) (defined : (decode32 insn).undefined = false)

namespace DataInsn

def fetchedAt (p : Word) : DataInsn → FetchResult
  | .narrow hw1 _ => ⟨hw1.setWidth 32, 2, false, 0, p⟩
  | .wide insn _ _ => ⟨insn, 4, false, 0, p⟩

def decoded : DataInsn → Decoded
  | .narrow hw1 _ => decode16 hw1
  | .wide insn _ _ => decode32 insn

def SetsFlags (k : Fin 5) : DataInsn → Bool
  | .narrow _ _ => k = 0
  | .wide insn _ _ => sBitOf insn

def writes (k : Fin 5) : DataInsn → Bool
  | .narrow hw1 _ => narrowWrites (decode16 hw1).kind k
  | .wide insn _ _ => wideWrites (decode32 insn).kind (sBitOf insn) (k ≤ 1)

/-- Whether the executor treats the flags as it has to, with `k` instructions of an IT block left.
`MOV` of 32 bits may return from an exception. -/
def Conforms (k : Fin 5) : DataInsn → Bool
  | .narrow hw1 _ => NarrowConforms (decode16 hw1).kind k
  | .wide insn _ _ =>
    WideConforms (decode32 insn).kind (sBitOf insn) (k ≤ 1) &&
      !((decode32 insn).kind = .movReg && (decode32 insn).rd = 15)

def flagsAfter {δ : Type u} (i : DataInsn) (k : Fin 5) (m : Machine δ) : Flags :=
  if i.SetsFlags k then (alu i.decoded m.cpu.r m.cpu.xpsr).flags m.flags else m.flags

def FlagsRight (δ : Type u) (i : DataInsn) (k : Fin 5) : Prop :=
  ∀ (env : Env δ) (h : Host δ) (m a : Machine δ) (p : Word),
    m.executed env decode32 h = some (i.fetchedAt p, i.decoded, a) → a.Agree →
      a.it.remaining = BitVec.ofNat 8 k → (m.mainPass env decode32 h).flags = i.flagsAfter k a

theorem decodeT32_fetchedAt (i : DataInsn) (p : Word) :
    decodeT32 decode32 (i.fetchedAt p) = i.decoded := by
  cases i with
  | narrow hw1 data =>
    have same : (hw1.setWidth 32).setWidth 16 = hw1 := by simp
    show decode16 ((hw1.setWidth 32).setWidth 16) = decode16 hw1
    rw [same]
  | wide insn data defined => rfl

theorem decoded_undefined (i : DataInsn) : i.decoded.undefined = false := by
  cases i with
  | narrow hw1 data => exact (decode16_narrow data).1
  | wide insn data defined => exact defined

theorem decoded_kind (i : DataInsn) : i.decoded.kind ∈ dataKinds := by
  cases i with
  | narrow hw1 data =>
    have among : ∀ kind ∈ narrowKinds, kind ∈ dataKinds := by decide
    exact among _ (decode16_narrow data).2
  | wide insn data defined => exact List.mem_append_left _ (wideForm data defined).kind

theorem raw_ne_high {hw1 : Half} (data : NarrowData hw1) : hw1.setWidth 32 &&& 0xfc00 ≠ 0x4400 := by
  intro high
  have low : hw1 &&& 0xfc00 = 0x4400 := by
    have cut := congrArg (BitVec.setWidth 16) high
    simpa using cut
  rcases data with ⟨zero, -⟩ | ⟨alu, -⟩
  · exact Pattern.Apart.not_matches (p := ⟨0xc000, 0⟩) (q := ⟨0xfc00, 0x4400⟩) (by decide) zero low
  · exact absurd (alu.symm.trans low) (by decide)

theorem writes_decoded (i : DataInsn) (k : Fin 5) :
    DataProc.writes i.decoded (BitVec.ofNat 8 k) = i.writes k := by
  cases i with
  | narrow hw1 data =>
    obtain ⟨len, raw⟩ := decode16_sameFetch hw1
    refine writes_narrow len ?_ (fun _ => ?_) (decode16_narrow data).2
    · have lt := hw1.isLt
      show (decode16 hw1).raw < 0x10000
      rw [raw, BitVec.lt_def]
      show (hw1.setWidth 32).toNat < 0x10000
      rw [BitVec.toNat_setWidth_of_le (by decide)]
      exact lt
    · show (decode16 hw1).raw &&& 0xfc00 ≠ 0x4400
      rw [raw]
      exact raw_ne_high data
  | wide insn data defined =>
    obtain ⟨len, raw⟩ := firstRule_sameFetch rules_keepFetch insn (.default 4 insn)
    exact writes_wide (wideForm data defined) len raw

theorem conforms_iff (i : DataInsn) (k : Fin 5) : i.Conforms k = true ↔
    (i.writes k = i.SetsFlags k ∧ (i.SetsFlags k = true → clearsV i.decoded.kind = false)) ∧
      ¬ (i.decoded.kind = .movReg ∧ i.decoded.rd = 15) := by
  cases i with
  | narrow hw1 data =>
    have narrow := (decode16_narrow data).2
    have stays : (decode16 hw1).kind ≠ .movReg := fun is => by
      rw [is] at narrow
      exact absurd narrow (by decide)
    exact (narrowConforms_iff _ narrow k).trans (and_iff_left fun is => stays is.1).symm
  | wide insn data defined =>
    have form := wideForm data defined
    have table := wideConforms_iff _ form.kind (sBitOf insn) (decide (k ≤ 1)) form.silent
    simp only [Conforms, Bool.and_eq_true, table, Bool.not_eq_true', Bool.and_eq_false_iff,
      decide_eq_false_iff_not, decoded, writes, SetsFlags, not_and_or]

theorem flagsRight_of_conforms {δ : Type u} {i : DataInsn} {k : Fin 5}
    (conforms : i.Conforms k = true) : FlagsRight δ i k := by
  intro env h m a p executed agree remaining
  obtain ⟨⟨writes, keeps⟩, stays⟩ := (conforms_iff i k).mp conforms
  rw [Machine.mainPass_of_executed executed, Machine.flags_afterExecute,
    Machine.flags_executeDecoded i.decoded_kind stays, remaining, written, writes_decoded, writes,
    flagsAfter]
  cases sets : i.SetsFlags k with
  | false => rfl
  | true =>
    rw [keeps sets]
    rfl

end DataInsn

end M33mu
