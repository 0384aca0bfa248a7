import M33mu.Encodings

namespace M33mu

open Lib

inductive Control
  | bCond | bUncond | bl | msr | hint | clrex | dsb | dmb | isb | mrs | unallocated
  deriving DecidableEq, Repr

namespace Control

/-- The architecture's table; bits that should be 0 or should be 1 are not looked at. -/
def ofWord (insn : Word) : Control :=
  if insn &&& 0x5000 = 0x1000 then .bUncond
  else if insn &&& 0x5000 = 0x5000 then .bl
  else if insn &&& 0x5000 = 0x4000 then .unallocated
  else if insn &&& 0x03800000 ≠ 0x03800000 then .bCond
  else if insn &&& 0x07e00000 = 0x03800000 then .msr
  else if insn &&& 0x07f00700 = 0x03a00000 then .hint
  else if insn &&& 0x07f000f0 = 0x03b00020 then .clrex
  else if insn &&& 0x07f000f0 = 0x03b00040 then .dsb
  else if insn &&& 0x07f000f0 = 0x03b00050 then .dmb
  else if insn &&& 0x07f000f0 = 0x03b00060 then .isb
  else if insn &&& 0x07e00000 = 0x03e00000 then .mrs
  else .unallocated

def system : Control → Bool
  | msr | hint | clrex | dsb | dmb | isb | mrs => true
  | bCond | bUncond | bl | unallocated => false

end Control

def OpKind.isBranch : OpKind → Bool
  | .bCond | .bUncond | .bl | .bx | .blx | .cbz | .cbnz | .bUncondWide | .bCondWide | .tbb | .tbh
  | .bxns | .blxns => true
  | _ => false

structure Control.Respected (insn : Word) (d : Decoded) : Prop where
  bCond : d.kind = .bCondWide ∧ d.undefined = false ↔ Control.ofWord insn = .bCond
  system : (Control.ofWord insn).system = true → d.kind.isBranch = false
  unallocated : Control.ofWord insn = .unallocated → d.undefined = true

namespace Decode32

def Diverted (insn : Word) : Prop :=
  insn = 0xf3bf8f2f ∨ insn &&& 0xffff0000 = 0xf3ef0000 ∨ insn &&& 0xfffffff0 = 0xf3bf8f40 ∨
    insn &&& 0xfffffff0 = 0xf3bf8f50 ∨ insn &&& 0xfffffff0 = 0xf3bf8f60 ∨
    insn &&& 0xfff08000 = 0xf3808000

/-- The rules that accept words of the space because they do not look at bit 15. -/
def Spilled (insn : Word) : Prop :=
  insn &&& 0xffff0000 = 0xf3ef0000 ∧ reg insn 8 ≠ 15 ∨
    insn &&& 0xfff08000 = 0xf3808000 ∨
    insn &&& 0xff700000 = 0xf0400000 ∨
    (insn &&& 0xfa000000 = 0xf0000000 ∧ (modifiedKind insn).isSome) ∨
    ((insn &&& 0xff700000 = 0xf2200000 ∨ insn &&& 0xff700000 = 0xf6200000) ∧
      insn.getLsbD 20 = false) ∨
    (insn &&& 0xfff00000 = 0xf3c00000 ∧ reg insn 16 ≠ 15 ∧ reg insn 8 ≠ 15) ∨
    insn &&& 0xfff00000 = 0xf3400000

/-- The words of the space that the chain of rules sorts as the architecture does. -/
def Sorted (insn : Word) : Prop :=
  if insn &&& 0x5000 = 0x0000 then insn &&& 0x03800000 ≠ 0x03800000 ∨ Diverted insn
  else if insn &&& 0x5000 = 0x4000 then ¬ Spilled insn
  else True

section

variable {insn : Word} {d : Decoded}

theorem Diverted.high (own : Diverted insn) : insn &&& 0x03800000 = 0x03800000 := by
  have within (p : Pattern 32) (matched : p.Matches insn)
      (within : p.Within ⟨0x03800000, 0x03800000⟩) : insn &&& 0x03800000 = 0x03800000 :=
    within.matches matched
  rcases own with rfl | mrs | dsb | dmb | isb | msr
  · decide
  · exact within ⟨_, _⟩ mrs (by decide)
  · exact within ⟨_, _⟩ dsb (by decide)
  · exact within ⟨_, _⟩ dmb (by decide)
  · exact within ⟨_, _⟩ isb (by decide)
  · exact within ⟨_, _⟩ msr (by decide)

theorem candidates_near : candidates ⟨0xf800d000, 0xf0008000⟩ =
    [clrex, mrs, barrier, msr, bCondWide, orrImm, modifiedImm, subw, ubfx, sbfx] := rfl

theorem candidates_far : candidates ⟨0xf800d000, 0xf0009000⟩ =
    [mrs, msr, bUncondWide, orrImm, modifiedImm, subw, ubfx, sbfx] := rfl

theorem candidates_link : candidates ⟨0xf800d000, 0xf000d000⟩ =
    [mrs, msr, bl, orrImm, modifiedImm, subw, ubfx, sbfx] := rfl

theorem candidates_unallocated : candidates ⟨0xf800d000, 0xf000c000⟩ =
    [mrs, msr, orrImm, modifiedImm, subw, ubfx, sbfx] := rfl

theorem mrs_accepts (here : insn &&& 0xffff0000 = 0xf3ef0000) :
    ∃ d', mrs insn d = (true, d') ∧ d'.kind = .mrs ∧
      d'.undefined = if reg insn 8 = 15 then d.undefined else false := by
  rw [mrs, if_pos here]
  by_cases pc : reg insn 8 = 15
  · exact ⟨_, if_pos pc, rfl, (if_pos pc).symm⟩
  · exact ⟨_, if_neg pc, rfl, (if_neg pc).symm⟩

theorem msr_accepts (here : insn &&& 0xfff08000 = 0xf3808000) :
    ∃ d', msr insn d = (true, d') ∧ d'.kind = .msr ∧ d'.undefined = false := by
  rw [msr, if_pos here]
  exact ⟨_, rfl, rfl, rfl⟩

theorem decode32_mrs {p : Pattern 32} (head : p.Matches insn) {rest : List Rule}
    (first : candidates p = mrs :: rest) (here : insn &&& 0xffff0000 = 0xf3ef0000) :
    (Decode.decode32 insn).kind = .mrs := by
  obtain ⟨d', accepted, kind, -⟩ := mrs_accepts (d := .default 4 insn) here
  rw [Decode.decode32, firstRule_candidates head, first, firstRule_accepted _ accepted, kind]

theorem decode32_msr {p : Pattern 32} (head : p.Matches insn) {rest : List Rule}
    (first : candidates p = mrs :: msr :: rest) (here : insn &&& 0xfff08000 = 0xf3808000) :
    (Decode.decode32 insn).kind = .msr := by
  have other : insn &&& 0xffff0000 ≠ 0xf3ef0000 :=
    Pattern.Apart.not_matches (p := ⟨0xfff08000, 0xf3808000⟩) (q := ⟨0xffff0000, 0xf3ef0000⟩)
      (by decide) here
  obtain ⟨d', accepted, kind, -⟩ := msr_accepts (d := .default 4 insn) here
  rw [Decode.decode32, firstRule_candidates head, first, firstRule_refused mrs (if_neg other),
    firstRule_accepted _ accepted, kind]

theorem decode32_far (head : insn &&& 0xf800d000 = 0xf0009000)
    (mrs' : insn &&& 0xffff0000 ≠ 0xf3ef0000) (msr' : insn &&& 0xfff08000 ≠ 0xf3808000) :
    Decode.decode32 insn =
      { Decoded.default 4 insn with
        kind := .bUncondWide, imm := farOffset insn, undefined := false } := by
  rw [Decode.decode32, firstRule_candidates (p := ⟨0xf800d000, 0xf0009000⟩) head, candidates_far,
    firstRule_refused mrs (if_neg mrs'), firstRule_refused msr (if_neg msr'),
    firstRule_accepted bUncondWide (if_pos head)]

theorem decode32_link (head : insn &&& 0xf800d000 = 0xf000d000)
    (mrs' : insn &&& 0xffff0000 ≠ 0xf3ef0000) (msr' : insn &&& 0xfff08000 ≠ 0xf3808000) :
    Decode.decode32 insn =
      { Decoded.default 4 insn with kind := .bl, imm := farOffset insn, undefined := false } := by
  rw [Decode.decode32, firstRule_candidates (p := ⟨0xf800d000, 0xf000d000⟩) head, candidates_link,
    firstRule_refused mrs (if_neg mrs'), firstRule_refused msr (if_neg msr'),
    firstRule_accepted bl (if_pos head)]

theorem decode32_near (head : insn &&& 0xf800d000 = 0xf0008000) (own : ¬ Diverted insn) :
    Decode.decode32 insn =
      { Decoded.default 4 insn with
        kind := .bCondWide, cond := (bits insn 22 4).setWidth 8, imm := condOffset insn
        undefined := false } := by
  simp only [Diverted, not_or] at own
  obtain ⟨clrex', mrs', dsb, dmb, isb, msr'⟩ := own
  have barrier' (d : Decoded) : barrier insn d = (false, d) := by
    rw [barrier, if_neg dsb, if_neg dmb, if_neg isb]
  rw [Decode.decode32, firstRule_candidates (p := ⟨0xf800d000, 0xf0008000⟩) head, candidates_near,
    firstRule_refused clrex (if_neg clrex'), firstRule_refused mrs (if_neg mrs'),
    firstRule_refused barrier (barrier' _), firstRule_refused msr (if_neg msr'),
    firstRule_accepted bCondWide (if_pos head)]

theorem class_cases (insn : Word) : insn &&& 0x5000 = 0x0000 ∨ insn &&& 0x5000 = 0x1000 ∨
    insn &&& 0x5000 = 0x4000 ∨ insn &&& 0x5000 = 0x5000 := by
  have bits : insn &&& 0x5000 = _ := and_pair insn 14 12
  rw [bits]
  cases insn.getLsbD 14 <;> cases insn.getLsbD 12 <;> decide

theorem space_class {c : Word} (space : insn &&& 0xf8008000 = 0xf0008000)
    (here : insn &&& 0x5000 = c) : insn &&& 0xf800d000 = 0xf0008000 ||| c := by
  have masks : (0xf800d000 : Word) = 0xf8008000 ||| 0x5000 := by decide
  rw [masks, BitVec.and_or_distrib_left, space, here]

theorem unallocated_rest (fresh : d.undefined = true) :
    (firstRule insn [subw, ubfx, sbfx] d).undefined = true ↔
      ¬ (((insn &&& 0xff700000 = 0xf2200000 ∨ insn &&& 0xff700000 = 0xf6200000) ∧
          insn.getLsbD 20 = false) ∨
        (insn &&& 0xfff00000 = 0xf3c00000 ∧ reg insn 16 ≠ 15 ∧ reg insn 8 ≠ 15) ∨
        insn &&& 0xfff00000 = 0xf3400000) := by
  by_cases isSubw : (insn &&& 0xff700000 = 0xf2200000 ∨ insn &&& 0xff700000 = 0xf6200000) ∧
      insn.getLsbD 20 = false
  · rw [firstRule_accepted subw (if_pos isSubw)]
    exact iff_of_false nofun (not_not_intro (.inl isSubw))
  rw [firstRule_refused subw (if_neg isSubw)]
  by_cases isUbfx : insn &&& 0xfff00000 = 0xf3c00000 ∧ reg insn 16 ≠ 15 ∧ reg insn 8 ≠ 15
  · rw [firstRule_accepted ubfx (if_pos isUbfx)]
    exact iff_of_false nofun (not_not_intro (.inr (.inl isUbfx)))
  rw [firstRule_refused ubfx (if_neg isUbfx)]
  by_cases isSbfx : insn &&& 0xfff00000 = 0xf3400000
  · rw [firstRule_accepted sbfx (if_pos isSbfx)]
    exact iff_of_false nofun (not_not_intro (.inr (.inr isSbfx)))
  rw [firstRule_refused sbfx (if_neg isSbfx), firstRule]
  exact iff_of_true fresh (not_or.mpr ⟨isSubw, not_or.mpr ⟨isUbfx, isSbfx⟩⟩)

theorem modifiedImm_refused (here : insn &&& 0xfa000000 = 0xf0000000 → modifiedKind insn = none)
    (fresh : d.undefined = true) :
    ∃ d', modifiedImm insn d = (false, d') ∧ d'.undefined = true := by
  by_cases within : insn &&& 0xfa000000 = 0xf0000000
  · rw [modifiedImm, if_pos within, here within]
    exact ⟨_, rfl, fresh⟩
  · exact ⟨d, if_neg within, fresh⟩

theorem unallocated_iff (head : insn &&& 0xf800d000 = 0xf000c000) :
    (Decode.decode32 insn).undefined = true ↔ ¬ Spilled insn := by
  rw [Decode.decode32, firstRule_candidates (p := ⟨0xf800d000, 0xf000c000⟩) head,
    candidates_unallocated]
  by_cases isMrs : insn &&& 0xffff0000 = 0xf3ef0000
  · have not (q : Pattern 32) (apart : Pattern.Apart ⟨0xffff0000, 0xf3ef0000⟩ q) :
        ¬ insn &&& q.mask = q.value := apart.not_matches isMrs
    have only : Spilled insn ↔ reg insn 8 ≠ 15 := by
      simp only [Spilled, isMrs, true_and, not ⟨0xfff08000, 0xf3808000⟩ (by decide),
        not ⟨0xff700000, 0xf0400000⟩ (by decide), not ⟨0xfa000000, 0xf0000000⟩ (by decide),
        not ⟨0xff700000, 0xf2200000⟩ (by decide), not ⟨0xff700000, 0xf6200000⟩ (by decide),
        not ⟨0xfff00000, 0xf3c00000⟩ (by decide), not ⟨0xfff00000, 0xf3400000⟩ (by decide),
        or_self, false_and, or_false]
    obtain ⟨d', accepted, -, undefined⟩ := mrs_accepts (d := .default 4 insn) isMrs
    rw [firstRule_accepted _ accepted, undefined, only, not_not]
    by_cases pc : reg insn 8 = 15 <;> simp [pc, Decoded.default]
  rw [firstRule_refused mrs (if_neg isMrs)]
  by_cases isMsr : insn &&& 0xfff08000 = 0xf3808000
  · rw [firstRule_accepted msr (if_pos isMsr)]
    exact iff_of_false (fun is => by cases is) (not_not_intro (.inr (.inl isMsr)))
  rw [firstRule_refused msr (if_neg isMsr)]
  by_cases isOrr : insn &&& 0xff700000 = 0xf0400000
  · rw [firstRule_accepted orrImm (if_pos isOrr)]
    exact iff_of_false (fun is => by cases is) (not_not_intro (.inr (.inr (.inl isOrr))))
  rw [firstRule_refused orrImm (if_neg isOrr)]
  by_cases isModified : insn &&& 0xfa000000 = 0xf0000000 ∧ (modifiedKind insn).isSome
  · obtain ⟨kind, some⟩ := Option.isSome_iff_exists.mp isModified.2
    have accepted (d : Decoded) : ∃ d', modifiedImm insn d = (true, d') ∧ d'.undefined = false := by
      rw [modifiedImm, if_pos isModified.1, some]
      exact ⟨_, rfl, rfl⟩
    obtain ⟨d', accepted, defined⟩ := accepted (.default 4 insn)
    rw [firstRule_accepted _ accepted, defined]
    exact iff_of_false (fun is => by cases is) (not_not_intro (.inr (.inr (.inr (.inl isModified)))))
  have none (within : insn &&& 0xfa000000 = 0xf0000000) : modifiedKind insn = none :=
    Option.not_isSome_iff_eq_none.mp fun some => isModified ⟨within, some⟩
  obtain ⟨d', refused, fresh⟩ := modifiedImm_refused (d := .default 4 insn) none rfl
  rw [firstRule_refused _ refused, unallocated_rest fresh]
  simp only [Spilled, isMrs, isMsr, isOrr, isModified, false_and, false_or]

theorem ofWord_of_value {v : Word} (here : insn &&& 0xfffffff0 = v) :
    Control.ofWord insn = Control.ofWord v := by
  have agree (mask : Word) (within : 0xfffffff0 &&& mask = mask) : insn &&& mask = v &&& mask := by
    rw [← here, BitVec.and_assoc, within]
  simp only [Control.ofWord, agree 0x5000 (by decide), agree 0x03800000 (by decide),
    agree 0x07e00000 (by decide), agree 0x07f00700 (by decide), agree 0x07f000f0 (by decide)]

theorem ofWord_mrs (near : insn &&& 0x5000 = 0x0000) (here : insn &&& 0xffff0000 = 0xf3ef0000) :
    Control.ofWord insn = .mrs := by
  have is (q : Pattern 32) (within : Pattern.Within ⟨0xffff0000, 0xf3ef0000⟩ q) :
      insn &&& q.mask = q.value := within.matches here
  have not (q : Pattern 32) (apart : Pattern.Apart ⟨0xffff0000, 0xf3ef0000⟩ q) :
      ¬ insn &&& q.mask = q.value := apart.not_matches here
  rw [Control.ofWord, near, if_neg (by decide), if_neg (by decide), if_neg (by decide),
    if_neg (not_not_intro (is ⟨0x03800000, 0x03800000⟩ (by decide))),
    if_neg (not ⟨0x07e00000, 0x03800000⟩ (by decide)),
    if_neg (not ⟨0x07f00700, 0x03a00000⟩ (by decide)),
    if_neg (not ⟨0x07f000f0, 0x03b00020⟩ (by decide)),
    if_neg (not ⟨0x07f000f0, 0x03b00040⟩ (by decide)),
    if_neg (not ⟨0x07f000f0, 0x03b00050⟩ (by decide)),
    if_neg (not ⟨0x07f000f0, 0x03b00060⟩ (by decide)),
    if_pos (is ⟨0x07e00000, 0x03e00000⟩ (by decide))]

theorem ofWord_msr (near : insn &&& 0x5000 = 0x0000) (here : insn &&& 0xfff08000 = 0xf3808000) :
    Control.ofWord insn = .msr := by
  have is (q : Pattern 32) (within : Pattern.Within ⟨0xfff08000, 0xf3808000⟩ q) :
      insn &&& q.mask = q.value := within.matches here
  rw [Control.ofWord, near, if_neg (by decide), if_neg (by decide), if_neg (by decide),
    if_neg (not_not_intro (is ⟨0x03800000, 0x03800000⟩ (by decide))),
    if_pos (is ⟨0x07e00000, 0x03800000⟩ (by decide))]

theorem ofWord_near (near : insn &&& 0x5000 = 0x0000) :
    Control.ofWord insn = .bCond ↔ insn &&& 0x03800000 ≠ 0x03800000 := by
  rw [Control.ofWord, near, if_neg (by decide), if_neg (by decide), if_neg (by decide)]
  by_cases high : insn &&& 0x03800000 ≠ 0x03800000
  · exact iff_of_true (if_pos high) high
  · rw [if_neg high]
    refine iff_of_false ?_ high
    repeat' split
    all_goals nofun

theorem decode32_diverted (head : insn &&& 0xf800d000 = 0xf0008000) (own : Diverted insn) :
    (Decode.decode32 insn).kind.isBranch = false := by
  have start := firstRule_candidates (p := ⟨0xf800d000, 0xf0008000⟩) head (.default 4 insn)
  rw [candidates_near] at start
  rw [Decode.decode32, start]
  by_cases isClrex : insn = 0xf3bf8f2f
  · rw [firstRule_accepted clrex (if_pos isClrex)]
    rfl
  rw [firstRule_refused clrex (if_neg isClrex)]
  by_cases isMrs : insn &&& 0xffff0000 = 0xf3ef0000
  · obtain ⟨d', accepted, kind, -⟩ := mrs_accepts (d := .default 4 insn) isMrs
    rw [firstRule_accepted _ accepted, kind]
    rfl
  rw [firstRule_refused mrs (if_neg isMrs)]
  by_cases isDsb : insn &&& 0xfffffff0 = 0xf3bf8f40
  · rw [firstRule_accepted barrier (if_pos isDsb)]
    rfl
  by_cases isDmb : insn &&& 0xfffffff0 = 0xf3bf8f50
  · rw [firstRule_accepted barrier (by rw [barrier, if_neg isDsb, if_pos isDmb]; rfl)]
    rfl
  by_cases isIsb : insn &&& 0xfffffff0 = 0xf3bf8f60
  · rw [firstRule_accepted barrier (by rw [barrier, if_neg isDsb, if_neg isDmb, if_pos isIsb]; rfl)]
    rfl
  have isMsr : insn &&& 0xfff08000 = 0xf3808000 := by
    simpa only [Diverted, isClrex, isMrs, isDsb, isDmb, isIsb, false_or] using own
  rw [firstRule_refused barrier (by rw [barrier, if_neg isDsb, if_neg isDmb, if_neg isIsb])]
  rw [firstRule_accepted msr (if_pos isMsr)]
  rfl

theorem Diverted.system (own : Diverted insn) (near : insn &&& 0x5000 = 0x0000) :
    (Control.ofWord insn).system = true := by
  rcases own with rfl | mrs | dsb | dmb | isb | msr
  · decide
  · rw [ofWord_mrs near mrs]
    rfl
  · rw [ofWord_of_value dsb]
    decide
  · rw [ofWord_of_value dmb]
    decide
  · rw [ofWord_of_value isb]
    decide
  · rw [ofWord_msr near msr]
    rfl

theorem respected_near (head : insn &&& 0xf800d000 = 0xf0008000) (near : insn &&& 0x5000 = 0x0000) :
    Control.Respected insn (Decode.decode32 insn) ↔
      insn &&& 0x03800000 ≠ 0x03800000 ∨ Diverted insn := by
  by_cases own : Diverted insn
  · refine iff_of_true ?_ (.inr own)
    have system := own.system near
    have branch := decode32_diverted head own
    refine ⟨iff_of_false ?_ ?_, fun _ => branch, fun none => ?_⟩
    · rintro ⟨kind, -⟩
      rw [kind] at branch
      exact absurd branch (by decide)
    · intro is
      rw [is] at system
      exact absurd system (by decide)
    · rw [none] at system
      exact absurd system (by decide)
  · rw [decode32_near head own, or_iff_left own, ← ofWord_near near]
    constructor
    · exact fun respected => respected.bCond.mp ⟨rfl, rfl⟩
    · intro is
      refine ⟨iff_of_true ⟨rfl, rfl⟩ is, fun system => ?_, fun none => ?_⟩
      · rw [is] at system
        exact absurd system (by decide)
      · rw [is] at none
        exact absurd none (by decide)

theorem respected_of_far (op : Control.ofWord insn = .bUncond ∨ Control.ofWord insn = .bl)
    (kind : (Decode.decode32 insn).kind ≠ .bCondWide) :
    Control.Respected insn (Decode.decode32 insn) := by
  refine ⟨iff_of_false (fun both => kind both.1) ?_, fun system => ?_, fun none => ?_⟩
  · rcases op with is | is <;> rw [is] <;> decide
  · rcases op with is | is <;> rw [is] at system <;> exact absurd system (by decide)
  · rcases op with is | is <;> rw [is] at none <;> exact absurd none (by decide)

theorem far_kind {p : Pattern 32} {rest : List Rule} {rule : Rule} (head : p.Matches insn)
    (first : candidates p = mrs :: msr :: rule :: rest) {d' : Decoded}
    (accepted : rule insn (.default 4 insn) = (true, d')) (other : d'.kind ≠ .bCondWide) :
    (Decode.decode32 insn).kind ≠ .bCondWide := by
  by_cases isMrs : insn &&& 0xffff0000 = 0xf3ef0000
  · rw [decode32_mrs head first isMrs]
    decide
  by_cases isMsr : insn &&& 0xfff08000 = 0xf3808000
  · rw [decode32_msr head first isMsr]
    decide
  rw [Decode.decode32, firstRule_candidates head, first, firstRule_refused mrs (if_neg isMrs),
    firstRule_refused msr (if_neg isMsr), firstRule_accepted _ accepted]
  exact other

theorem decode32_respected (space : insn &&& 0xf8008000 = 0xf0008000) :
    Control.Respected insn (Decode.decode32 insn) ↔ Sorted insn := by
  have head {c : Word} (here : insn &&& 0x5000 = c) : insn &&& 0xf800d000 = 0xf0008000 ||| c :=
    space_class space here
  rcases class_cases insn with near | far | unallocated | link
  · rw [Sorted, if_pos near]
    exact respected_near (head near) near
  · rw [Sorted, far, if_neg (by decide), if_neg (by decide), iff_true]
    exact respected_of_far (.inl (if_pos far))
      (far_kind (p := ⟨0xf800d000, 0xf0009000⟩) (head far) candidates_far (if_pos (head far)) nofun)
  · rw [Sorted, unallocated, if_neg (by decide), if_pos rfl, ← unallocated_iff (head unallocated)]
    have op : Control.ofWord insn = .unallocated := by
      rw [Control.ofWord, unallocated]
      rfl
    constructor
    · exact fun respected => respected.unallocated op
    · intro undefined
      refine ⟨iff_of_false (fun both => ?_) ?_, fun system => ?_, fun _ => undefined⟩
      · rw [undefined] at both
        exact absurd both.2 (by decide)
      · rw [op]
        decide
      · rw [op] at system
        exact absurd system (by decide)
  · have op : Control.ofWord insn = .bl := by
      rw [Control.ofWord, link]
      rfl
    rw [Sorted, link, if_neg (by decide), if_neg (by decide), iff_true]
    exact respected_of_far (.inr op)
      (far_kind (p := ⟨0xf800d000, 0xf000d000⟩) (head link) candidates_link (if_pos (head link)) nofun)

end

/-- The decoder sorts a word of the space as the architecture does exactly where `Sorted` says. -/
theorem control_respected_iff {f : FetchResult} (clean : f.fault = false) (wide : f.len = 4)
    (space : f.insn &&& 0xf8008000 = 0xf0008000) :
    Control.Respected f.insn (Decode.decodeT32 Decode.decode32 f) ↔ Sorted f.insn := by
  rw [Decode.decodeT32_wide clean wide]
  exact decode32_respected space

theorem respected_beqW : Control.Respected 0xf43faffe
    (Decode.decodeT32 Decode.decode32 ⟨0xf43faffe, 4, false, 0, 0x100⟩) :=
  (control_respected_iff (f := ⟨0xf43faffe, 4, false, 0, 0x100⟩) rfl rfl (by decide)).mpr
    ((if_pos (by decide)).mpr (.inl (by decide)))

theorem nopW_not_respected : ¬ Control.Respected 0xf3af8000
    (Decode.decodeT32 Decode.decode32 ⟨0xf3af8000, 4, false, 0, 0x100⟩) :=
  fun respected => absurd (respected.bCond.mp (by decide)) (by decide)

end Decode32

end M33mu
