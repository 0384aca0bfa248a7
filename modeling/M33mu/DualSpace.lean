import M33mu.Encodings
import M33mu.PcOperand

namespace M33mu

open Lib

/-- What the architecture has in the space; the other exclusive accesses and the accesses with
acquire or release are one case. -/
inductive Dual
  | sg | ldrd | strd | tt | strex | ldrex | tbb | tbh | other
  deriving DecidableEq, Repr

namespace Dual

/-- The architecture's table; bits that should be 0 or should be 1 are not looked at. -/
def ofWord (insn : Word) : Dual :=
  if insn = 0xe97fe97f then .sg
  else if insn &&& 0x01200000 ≠ 0 then if insn.getLsbD 20 then .ldrd else .strd
  else if insn &&& 0x00900000 = 0x00000000 then if insn &&& 0xf03f = 0xf000 then .tt else .strex
  else if insn &&& 0x00900000 = 0x00100000 then .ldrex
  else if insn &&& 0x009000f0 = 0x00900000 then .tbb
  else if insn &&& 0x009000f0 = 0x00900010 then .tbh
  else .other

def offset (insn : Word) : Word := Decode32.bits insn 0 8 <<< 2

variable {δ : Type u}

def loadExclusive (env : Env δ) (m : Machine δ) (f : FetchResult) (rt : Reg) (addr : Word) :
    Outcome δ :=
  m.load env f addr 4 false fun val m =>
    let m := if rt = 15 then m else m.setReg rt val
    (.ok, { m with cpu := m.cpu.exclSet m.cpu.secState addr 4 })

def storeExclusive (env : Env δ) (m : Machine δ) (f : FetchResult) (rd rt : Reg) (addr : Word) :
    Outcome δ :=
  let (ok, c) := m.cpu.exclCheckAndClear m.cpu.secState addr 4
  let m := { m with cpu := c }
  let result (m : Machine δ) : Outcome δ :=
    (.ok, if rd = 15 then m else m.setReg rd (if ok then 0 else 1))
  if ok then m.store env f addr 4 (m.cpu.r rt) result else result m

/-- What an instruction of the space has to become; an instruction of the last case may be left
undefined or have an operation of its own. -/
def Respected (δ : Type u) (insn : Word) (d : Decoded) : Prop :=
  match ofWord insn with
  | .sg => d.kind = .sg ∧ d.undefined = false
  | .ldrd => d.kind = .ldrd ∧ d.undefined = false
  | .strd => d.kind = .strd ∧ d.undefined = false
  | .tt => d.undefined = true ∨ d.kind = match (Decode32.bits insn 6 2).toNat with
    | 0 => .tt
    | 1 => .ttt
    | 2 => .tta
    | _ => .ttat
  | .strex => d.kind = .strex ∧ d.undefined = false ∧
    ∀ (env : Env δ) (f : FetchResult) (m : Machine δ), executeDecoded env f d m =
      storeExclusive env m f (Decode32.reg insn 8) (Decode32.reg insn 12)
        (m.cpu.r (Decode32.reg insn 16) + offset insn)
  | .ldrex => d.kind = .ldrex ∧ d.undefined = false ∧
    ∀ (env : Env δ) (f : FetchResult) (m : Machine δ), executeDecoded env f d m =
      loadExclusive env m f (Decode32.reg insn 12)
        (m.cpu.r (Decode32.reg insn 16) + offset insn)
  | .tbb => d.kind = .tbb ∧ d.undefined = false
  | .tbh => d.kind = .tbh ∧ d.undefined = false
  | .other => d.undefined = true ∨ d.kind ∉ [OpKind.ldrd, .strd, .ldm, .stm]

/-- The words of the space that the decoder and the executor treat as the architecture does. -/
def Handled (insn : Word) : Prop :=
  insn &&& 0x01200000 ≠ 0 ∨ insn &&& 0xfff0f03f = 0xe840f000 ∨ insn &&& 0xfff000ff = 0xe8400000 ∨
    insn &&& 0xfff00fff = 0xe8500f00 ∨ insn &&& 0xfff0ffe0 = 0xe8d0f000

end Dual

namespace Decode32

variable {insn : Word} {d : Decoded}

theorem candidates_strex : candidates ⟨0xfff00000, 0xe8400000⟩ = [testTarget, strex, dual] := rfl
theorem candidates_ldrex : candidates ⟨0xfff00000, 0xe8500000⟩ = [ldrex, dual] := rfl
theorem candidates_release : candidates ⟨0xfff00000, 0xe8c00000⟩ = [dual] := rfl
theorem candidates_table : candidates ⟨0xfff00000, 0xe8d00000⟩ = [tableBranch, dual] := rfl

theorem space_and {mask value : Word} (space : insn &&& 0xfe400000 = 0xe8400000)
    (here : insn &&& mask = value) : insn &&& (0xfe400000 ||| mask) = 0xe8400000 ||| value := by
  rw [BitVec.and_or_distrib_left, space, here]

theorem dual_accepts (space : insn &&& 0xfe400000 = 0xe8400000) (d : Decoded) :
    ∃ d', dual insn d = (true, d') ∧ d'.undefined = false ∧
      d'.kind = if insn.getLsbD 20 then .ldrd else .strd := by
  have here : insn &&& 0xfe000000 = 0xe8000000 :=
    Pattern.Within.matches (p := ⟨0xfe400000, 0xe8400000⟩) (q := ⟨0xfe000000, 0xe8000000⟩)
      (by decide) space
  rw [dual, if_pos here]
  exact ⟨_, rfl, rfl, rfl⟩

theorem firstRule_indexed (space : insn &&& 0xfe400000 = 0xe8400000)
    (indexed : insn &&& 0x01200000 ≠ 0) (d : Decoded) :
    firstRule insn rules d = firstRule insn [sg, dual] d := by
  have bits : insn &&& 0x01200000 = _ := and_pair insn 24 21
  cases p : insn.getLsbD 24
  · cases w : insn.getLsbD 21
    · rw [p, w] at bits
      exact absurd bits indexed
    · have here : insn &&& 0x00200000 = 0x00200000 := by
        have one := BitVec.and_twoPow insn 21
        rw [if_pos w] at one
        exact one
      exact firstRule_candidates (p := ⟨0xfe600000, 0xe8600000⟩) (space_and space here) d
  · have here : insn &&& 0x01000000 = 0x01000000 := by
      have one := BitVec.and_twoPow insn 24
      rw [if_pos p] at one
      exact one
    exact firstRule_candidates (p := ⟨0xff400000, 0xe9400000⟩) (space_and space here) d

theorem plain_cases (space : insn &&& 0xfe400000 = 0xe8400000)
    (plain : insn &&& 0x01200000 = 0) :
    insn &&& 0xfff00000 = 0xe8400000 ∨ insn &&& 0xfff00000 = 0xe8500000 ∨
      insn &&& 0xfff00000 = 0xe8c00000 ∨ insn &&& 0xfff00000 = 0xe8d00000 := by
  have fixed : insn &&& 0xff600000 = 0xe8400000 := space_and space plain
  have bits : insn &&& 0x00900000 = _ := and_pair insn 23 20
  have head : insn &&& 0xfff00000 = 0xe8400000 ||| (insn &&& 0x00900000) := by
    rw [← fixed, ← BitVec.and_or_distrib_left]
    rfl
  rw [head, bits]
  cases insn.getLsbD 23 <;> cases insn.getLsbD 20 <;> decide

theorem dual_result {p : Pattern 32} (before : List Rule) (head : p.Matches insn)
    (order : candidates p = before ++ [dual])
    (refused : ∀ rule ∈ before, rule insn (.default 4 insn) = (false, .default 4 insn))
    (space : insn &&& 0xfe400000 = 0xe8400000) :
    (Decode.decode32 insn).undefined = false ∧
      ((Decode.decode32 insn).kind = .ldrd ∨ (Decode.decode32 insn).kind = .strd) := by
  obtain ⟨d', accepted, undefined, kind⟩ := dual_accepts space (.default 4 insn)
  have transfers : d'.kind = .ldrd ∨ d'.kind = .strd := by
    rw [kind]
    cases insn.getLsbD 20
    · exact .inr rfl
    · exact .inl rfl
  have passed : firstRule insn (before ++ [dual]) (.default 4 insn) = d' := by
    clear order
    induction before with
    | nil => exact firstRule_accepted _ accepted
    | cons rule before ih =>
      rw [List.cons_append, firstRule_refused _ (refused rule (List.mem_cons_self ..))]
      exact ih fun x mem => refused x (List.mem_cons_of_mem _ mem)
  rw [Decode.decode32, firstRule_candidates head, order, passed]
  exact ⟨undefined, transfers⟩

end Decode32

namespace Dual

open Decode32

variable {insn : Word}

theorem respected_indexed (δ : Type u) (space : insn &&& 0xfe400000 = 0xe8400000)
    (indexed : insn &&& 0x01200000 ≠ 0) : Respected δ insn (Decode.decode32 insn) := by
  have start := firstRule_indexed space indexed (.default 4 insn)
  rw [Respected, ofWord, Decode.decode32, start]
  by_cases isSg : insn = 0xe97fe97f
  · rw [if_pos isSg, firstRule_accepted Decode32.sg (if_pos isSg)]
    exact ⟨rfl, rfl⟩
  · obtain ⟨d', accepted, undefined, kind⟩ := dual_accepts space (.default 4 insn)
    rw [if_neg isSg, if_pos indexed, firstRule_refused Decode32.sg (if_neg isSg),
      firstRule_accepted _ accepted]
    cases load : insn.getLsbD 20 <;> rw [load] at kind <;> exact ⟨kind, undefined⟩

theorem ofWord_plain (plain : insn &&& 0x01200000 = 0) :
    ofWord insn =
      if insn &&& 0x00900000 = 0x00000000 then if insn &&& 0xf03f = 0xf000 then .tt else .strex
      else if insn &&& 0x00900000 = 0x00100000 then .ldrex
      else if insn &&& 0x009000f0 = 0x00900000 then .tbb
      else if insn &&& 0x009000f0 = 0x00900010 then .tbh
      else .other := by
  have notSg : insn ≠ 0xe97fe97f := by
    rintro rfl
    exact absurd plain (by decide)
  rw [ofWord, if_neg notSg, if_neg (not_not_intro plain)]

theorem field_of_head {hw q v : Word} (head : insn &&& 0xfff00000 = hw)
    (within : 0xfff00000 &&& q = q) (value : hw &&& q = v) : insn &&& q = v := by
  rw [← value, ← head, BitVec.and_assoc, within]

theorem bits_low (insn : Word) : bits insn 0 8 = insn &&& 0xff := by
  apply BitVec.eq_of_toNat_eq
  rw [bits, BitVec.toNat_ofNat, Nat.shiftRight_zero,
    Nat.mod_eq_of_lt (Nat.lt_of_lt_of_le (Nat.mod_lt _ (by decide)) (by decide))]
  exact (toNat_and_mask insn 8 (by decide)).symm

theorem offset_eq_zero (low : insn &&& 0xff = 0) : offset insn = 0 := by
  rw [offset, bits_low, low]
  rfl

theorem testTarget_accepts (here : insn &&& 0xfff0f03f = 0xe840f000) (d : Decoded) :
    ∃ d', testTarget insn d = (true, d') ∧ (d'.undefined = d.undefined ∨
      d'.kind = match (bits insn 6 2).toNat with
        | 0 => .tt
        | 1 => .ttt
        | 2 => .tta
        | _ => .ttat) := by
  rw [testTarget, if_pos here]
  by_cases pc : reg insn 8 = 15 ∨ reg insn 16 = 15
  · exact ⟨d, if_pos pc, .inl rfl⟩
  · exact ⟨_, if_neg pc, .inr rfl⟩

theorem respected_strex (δ : Type u) (head : insn &&& 0xfff00000 = 0xe8400000) :
    Respected δ insn (Decode.decode32 insn) ↔
      insn &&& 0xfff0f03f = 0xe840f000 ∨ insn &&& 0xfff000ff = 0xe8400000 := by
  have plain : insn &&& 0x01200000 = 0 := field_of_head head (by decide) (by decide)
  have class_ : insn &&& 0x00900000 = 0 := field_of_head head (by decide) (by decide)
  have start := firstRule_candidates (p := ⟨0xfff00000, 0xe8400000⟩) head (.default 4 insn)
  rw [candidates_strex] at start
  rw [Respected, ofWord_plain plain, if_pos class_]
  by_cases isTt : insn &&& 0xfff0f03f = 0xe840f000
  · have low : insn &&& 0xf03f = 0xf000 :=
      Pattern.Within.matches (p := ⟨0xfff0f03f, 0xe840f000⟩) (q := ⟨0xf03f, 0xf000⟩)
        (by decide) isTt
    obtain ⟨d', accepted, result⟩ := testTarget_accepts isTt (.default 4 insn)
    rw [if_pos low, Decode.decode32, start, firstRule_accepted _ accepted]
    exact iff_of_true result (.inl isTt)
  have low : insn &&& 0xf03f ≠ 0xf000 := by
    intro low
    have both := Pattern.Matches.both (p := ⟨0xfff00000, 0xe8400000⟩) (q := ⟨0xf03f, 0xf000⟩) head low
    exact isTt both
  rw [if_neg low, or_iff_right isTt]
  by_cases isStrex : insn &&& 0xfff000ff = 0xe8400000
  · refine iff_of_true ?_ isStrex
    have none : offset insn = 0 := offset_eq_zero (Pattern.Within.matches
      (p := ⟨0xfff000ff, 0xe8400000⟩) (q := ⟨0xff, 0⟩) (by decide) isStrex)
    rw [Decode.decode32, start, firstRule_refused testTarget (if_neg isTt),
      firstRule_accepted Decode32.strex (if_pos isStrex), none]
    exact ⟨rfl, rfl, fun env f m =>
      congrArg (storeExclusive env m f _ _) (BitVec.add_zero (m.cpu.r _)).symm⟩
  · refine iff_of_false ?_ isStrex
    obtain ⟨-, kind⟩ := dual_result (p := ⟨0xfff00000, 0xe8400000⟩) [testTarget, Decode32.strex] head
      candidates_strex (by
        intro rule mem
        simp only [List.mem_cons, List.not_mem_nil, or_false] at mem
        rcases mem with rfl | rfl
        · exact if_neg isTt
        · exact if_neg isStrex)
      (Pattern.Within.matches (p := ⟨0xfff00000, 0xe8400000⟩) (q := ⟨0xfe400000, 0xe8400000⟩)
        (by decide) head)
    intro respected
    rw [respected.1] at kind
    exact absurd kind (by decide)

theorem offset_ne_zero (some : insn &&& 0xff ≠ 0) : offset insn ≠ 0 := by
  rw [offset, bits_low]
  have small : insn &&& 0xff ≤ 0xff := by
    rw [BitVec.le_def, BitVec.toNat_and]
    exact Nat.and_le_right
  revert some small
  generalize insn &&& 0xff = low
  intro some small
  bv_omega

theorem ldrex_address {δ : Type u} [Inhabited δ] {f : FetchResult} {d : Decoded} {off : Word}
    (kind : d.kind = .ldrex) (same : ∀ (env : Env δ) (m : Machine δ), executeDecoded env f d m =
      loadExclusive env m f d.rd (m.cpu.r d.rn + off)) : off = 0 := by
  obtain ⟨m, blank, -, -⟩ := exists_uniform (δ := δ) 0
  have monitored (addr : Word) :
      (loadExclusive (answering fun _ => some 0) m f d.rd addr).2.cpu.exclAddr = addr := by
    rw [loadExclusive, Machine.load, read_answering _ blank]
    rfl
  have executed : executeDecoded (answering fun _ => some 0) f d m =
      loadExclusive (answering fun _ => some 0) m f d.rd (m.cpu.r d.rn) := by
    rw [executeDecoded, kind]
    rfl
  have addresses := congrArg (·.2.cpu.exclAddr)
    (executed.symm.trans (same (answering fun _ => some 0) m))
  simp only [monitored] at addresses
  bv_omega

theorem respected_ldrex (δ : Type u) [Inhabited δ] (head : insn &&& 0xfff00000 = 0xe8500000) :
    Respected δ insn (Decode.decode32 insn) ↔ insn &&& 0xfff00fff = 0xe8500f00 := by
  have plain : insn &&& 0x01200000 = 0 := field_of_head head (by decide) (by decide)
  have first : insn &&& 0x00900000 = 0x00100000 := field_of_head head (by decide) (by decide)
  have start := firstRule_candidates (p := ⟨0xfff00000, 0xe8500000⟩) head (.default 4 insn)
  rw [candidates_ldrex] at start
  rw [Respected, ofWord_plain plain, first, if_neg (by decide), if_pos rfl]
  by_cases isLdrex : insn &&& 0xfff00f00 = 0xe8500f00
  · rw [Decode.decode32, start, firstRule_accepted Decode32.ldrex (if_pos isLdrex)]
    constructor
    · rintro ⟨kind, -, executed⟩
      have none := ldrex_address (f := ⟨insn, 4, false, 0, 0⟩) kind fun env m => executed env _ m
      have low : insn &&& 0xff = 0 := Decidable.byContradiction fun some => offset_ne_zero some none
      exact Pattern.Matches.both (p := ⟨0xfff00f00, 0xe8500f00⟩) (q := ⟨0xff, 0⟩) isLdrex low
    · intro noImm
      have none : offset insn = 0 := offset_eq_zero (Pattern.Within.matches
        (p := ⟨0xfff00fff, 0xe8500f00⟩) (q := ⟨0xff, 0⟩) (by decide) noImm)
      rw [none]
      exact ⟨rfl, rfl, fun env f m =>
        congrArg (loadExclusive env m f _) (BitVec.add_zero (m.cpu.r _)).symm⟩
  · refine iff_of_false ?_ fun both => isLdrex (Pattern.Within.matches
      (p := ⟨0xfff00fff, 0xe8500f00⟩) (q := ⟨0xfff00f00, 0xe8500f00⟩) (by decide) both)
    obtain ⟨-, kind⟩ := dual_result (p := ⟨0xfff00000, 0xe8500000⟩) [Decode32.ldrex] head
      candidates_ldrex (fun rule mem => by
        obtain rfl := List.mem_singleton.mp mem
        exact if_neg isLdrex)
      (Pattern.Within.matches (p := ⟨0xfff00000, 0xe8500000⟩) (q := ⟨0xfe400000, 0xe8400000⟩)
        (by decide) head)
    intro respected
    rw [respected.1] at kind
    exact absurd kind (by decide)

theorem respected_release (δ : Type u) (head : insn &&& 0xfff00000 = 0xe8c00000) :
    ¬ Respected δ insn (Decode.decode32 insn) := by
  have plain : insn &&& 0x01200000 = 0 := field_of_head head (by decide) (by decide)
  have first : insn &&& 0x00900000 = 0x00800000 := field_of_head head (by decide) (by decide)
  have op (op : Word) (within : (0x009000f0 : Word) &&& 0x00900000 = 0x00900000)
      (other : op &&& 0x00900000 = 0x00900000) : insn &&& 0x009000f0 ≠ op := by
    rintro rfl
    rw [BitVec.and_assoc, within, first] at other
    exact absurd other (by decide)
  obtain ⟨undefined, kind⟩ := dual_result (p := ⟨0xfff00000, 0xe8c00000⟩) [] head
    candidates_release nofun
    (Pattern.Within.matches (p := ⟨0xfff00000, 0xe8c00000⟩) (q := ⟨0xfe400000, 0xe8400000⟩)
      (by decide) head)
  rw [Respected, ofWord_plain plain, first, if_neg (by decide), if_neg (by decide),
    if_neg (op _ (by decide) (by decide)), if_neg (op _ (by decide) (by decide))]
  rintro (none | own)
  · rw [undefined] at none
    exact absurd none (by decide)
  · rcases kind with kind | kind <;> rw [kind] at own <;> exact absurd own (by decide)

theorem respected_table (δ : Type u) (head : insn &&& 0xfff00000 = 0xe8d00000) :
    Respected δ insn (Decode.decode32 insn) ↔ insn &&& 0xfff0ffe0 = 0xe8d0f000 := by
  have plain : insn &&& 0x01200000 = 0 := field_of_head head (by decide) (by decide)
  have first : insn &&& 0x00900000 = 0x00900000 := field_of_head head (by decide) (by decide)
  have start := firstRule_candidates (p := ⟨0xfff00000, 0xe8d00000⟩) head (.default 4 insn)
  rw [candidates_table] at start
  rw [Respected, ofWord_plain plain, first, if_neg (by decide), if_neg (by decide)]
  by_cases isTable : insn &&& 0xfff0ffe0 = 0xe8d0f000
  · refine iff_of_true ?_ isTable
    rw [Decode.decode32, start, firstRule_accepted tableBranch (if_pos isTable)]
    have h : insn &&& 0x009000e0 = 0x00900000 :=
      Pattern.Within.matches (p := ⟨0xfff0ffe0, 0xe8d0f000⟩) (q := ⟨0x009000e0, 0x00900000⟩)
        (by decide) isTable
    have bit := BitVec.and_twoPow insn 4
    have op : insn &&& 0x009000f0 = 0x00900000 ||| (insn &&& BitVec.twoPow 32 4) := by
      rw [← h, ← BitVec.and_or_distrib_left]
      rfl
    rw [op, bit]
    cases half : insn.getLsbD 4
    · exact ⟨rfl, rfl⟩
    · exact ⟨rfl, rfl⟩
  · refine iff_of_false ?_ isTable
    obtain ⟨undefined, kind⟩ := dual_result (p := ⟨0xfff00000, 0xe8d00000⟩) [tableBranch] head
      candidates_table (fun rule mem => by
        obtain rfl := List.mem_singleton.mp mem
        exact if_neg isTable)
      (Pattern.Within.matches (p := ⟨0xfff00000, 0xe8d00000⟩) (q := ⟨0xfe400000, 0xe8400000⟩)
        (by decide) head)
    by_cases byte : insn &&& 0x009000f0 = 0x00900000
    · rw [if_pos byte]
      rintro ⟨is, -⟩
      rw [is] at kind
      exact absurd kind (by decide)
    rw [if_neg byte]
    by_cases half : insn &&& 0x009000f0 = 0x00900010
    · rw [if_pos half]
      rintro ⟨is, -⟩
      rw [is] at kind
      exact absurd kind (by decide)
    rw [if_neg half]
    rintro (none | own)
    · exact absurd (undefined.symm.trans none) (by decide)
    · rcases kind with kind | kind <;> rw [kind] at own <;> exact absurd own (by decide)

theorem decode32_respected (δ : Type u) [Inhabited δ] (space : insn &&& 0xfe400000 = 0xe8400000) :
    Respected δ insn (Decode.decode32 insn) ↔ Handled insn := by
  by_cases indexed : insn &&& 0x01200000 ≠ 0
  · exact iff_of_true (respected_indexed δ space indexed) (.inl indexed)
  rw [Handled, or_iff_right indexed]
  have not {hw : Word} (head : insn &&& 0xfff00000 = hw) (q : Pattern 32)
      (apart : Pattern.Apart ⟨0xfff00000, hw⟩ q) : ¬ insn &&& q.mask = q.value :=
    apart.not_matches head
  rcases plain_cases space (not_not.mp indexed) with head | head | head | head
  · rw [respected_strex δ head]
    simp only [not head ⟨0xfff00fff, 0xe8500f00⟩ (by decide),
      not head ⟨0xfff0ffe0, 0xe8d0f000⟩ (by decide), or_false]
  · rw [respected_ldrex δ head]
    simp only [not head ⟨0xfff0f03f, 0xe840f000⟩ (by decide),
      not head ⟨0xfff000ff, 0xe8400000⟩ (by decide),
      not head ⟨0xfff0ffe0, 0xe8d0f000⟩ (by decide), or_false, false_or]
  · refine iff_of_false (respected_release δ head) ?_
    simp only [not head ⟨0xfff0f03f, 0xe840f000⟩ (by decide),
      not head ⟨0xfff000ff, 0xe8400000⟩ (by decide), not head ⟨0xfff00fff, 0xe8500f00⟩ (by decide),
      not head ⟨0xfff0ffe0, 0xe8d0f000⟩ (by decide), or_self, not_false_iff]
  · rw [respected_table δ head]
    simp only [not head ⟨0xfff0f03f, 0xe840f000⟩ (by decide),
      not head ⟨0xfff000ff, 0xe8400000⟩ (by decide),
      not head ⟨0xfff00fff, 0xe8500f00⟩ (by decide), false_or]

/-- A word of the space is handled as the architecture specifies exactly if it is indexed, or one of
the few others that the decoder tells from the dual accesses. -/
theorem dual_respected_iff (δ : Type u) [Inhabited δ] {f : FetchResult} (clean : f.fault = false)
    (wide : f.len = 4) (space : f.insn &&& 0xfe400000 = 0xe8400000) :
    Respected δ f.insn (Decode.decodeT32 Decode.decode32 f) ↔ Handled f.insn := by
  rw [Decode.decodeT32_wide clean wide]
  exact decode32_respected δ space

theorem respected_ldrex_plain : Respected Unit 0xe8510f00
    (Decode.decodeT32 Decode.decode32 ⟨0xe8510f00, 4, false, 0, 0x100⟩) :=
  (dual_respected_iff Unit (f := ⟨0xe8510f00, 4, false, 0, 0x100⟩) rfl rfl (by decide)).mpr
    (.inr (.inr (.inr (.inl (by decide)))))

theorem ldrexb_not_respected : ¬ Respected Unit 0xe8d10f4f
    (Decode.decodeT32 Decode.decode32 ⟨0xe8d10f4f, 4, false, 0, 0x100⟩) := by
  rintro (none | own)
  · exact absurd none (by decide)
  · exact absurd own (by decide)

end Dual

end M33mu
