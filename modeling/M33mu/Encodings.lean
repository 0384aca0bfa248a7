import M33mu.DecodeFacts
import M33mu.Lib.Bits
import M33mu.Lib.Pattern

namespace M33mu

open Lib

namespace Decode

theorem imm_eq (hw1 : Half) (lo n : Nat) : imm hw1 lo n = (hw1.extractLsb' lo n).setWidth 32 := by
  apply BitVec.eq_of_toNat_eq
  simp [imm]

theorem reg_eq (hw1 : Half) (lo n : Nat) :
    reg hw1 lo n = Fin.ofNat 16 (hw1.extractLsb' lo n).toNat := by
  simp [reg]

theorem row_eq (hw1 : Half) : hw1.toNat >>> 12 = (hw1.extractLsb' 12 4).toNat := by
  rw [BitVec.extractLsb'_toNat, Nat.shiftRight_eq_div_pow, Nat.mod_eq_of_lt]
  have lt := hw1.isLt
  omega

theorem nibble_eq (hw1 : Half) : hw1 >>> 8 &&& 0x0f = (hw1.extractLsb' 8 4).setWidth 16 := by
  apply BitVec.eq_of_toNat_eq
  have mask := toNat_and_mask (hw1 >>> 8) 4 (by decide)
  rw [BitVec.toNat_setWidth_of_le (by decide), BitVec.extractLsb'_toNat]
  exact mask

def controlHeads : List (Pattern 16) :=
  [⟨0xff00, 0xde00⟩, ⟨0xff00, 0xbe00⟩, ⟨0xff00, 0xdf00⟩, ⟨0xffe0, 0xb660⟩, ⟨0xff00, 0xbf00⟩]

theorem control_refuse {p : Pattern 16} {hw1 : Half} (here : p.Matches hw1)
    (apart : ∀ q ∈ controlHeads, p.Apart q) (d : Decoded) : control hw1 d = (false, d) := by
  have none : ∀ q ∈ controlHeads, ¬ q.Matches hw1 := fun q mem => (apart q mem).not_matches here
  simp only [controlHeads, List.forall_mem_cons, Pattern.Matches] at none
  obtain ⟨udf, bkpt, svc, cps, hint, -⟩ := none
  have other (x : Half) (is : x &&& 0xff00 = 0xbf00) : hw1 ≠ x := by
    rintro rfl
    exact hint is
  rw [control, if_neg udf, if_neg bkpt, if_neg svc, if_neg (other _ (by decide)),
    if_neg (other _ (by decide)), if_neg (other _ (by decide)), if_neg (other _ (by decide)),
    if_neg (other _ (by decide)), if_neg cps, if_neg hint]

def stackMiscHeads : List (Pattern 16) :=
  [⟨0xf800, 0xa000⟩, ⟨0xf800, 0xa800⟩, ⟨0xff80, 0xb000⟩, ⟨0xff80, 0xb080⟩, ⟨0xf600, 0xb400⟩]

theorem stackMisc_refuse {p : Pattern 16} {hw1 : Half} (here : p.Matches hw1)
    (apart : ∀ q ∈ stackMiscHeads, p.Apart q) (d : Decoded) : stackMisc hw1 d = (false, d) := by
  have none : ∀ q ∈ stackMiscHeads, ¬ q.Matches hw1 := fun q mem => (apart q mem).not_matches here
  simp only [stackMiscHeads, List.forall_mem_cons, Pattern.Matches] at none
  obtain ⟨adr, addSp, plus, minus, push, -⟩ := none
  rw [stackMisc, if_neg adr, if_neg addSp, if_neg plus, if_neg minus, if_neg push]

theorem decodeT32_wide {f : FetchResult} (clean : f.fault = false) (wide : f.len = 4) :
    decodeT32 decode32 f = decode32 f.insn := by
  rw [decodeT32, clean, wide]
  rfl

end Decode

namespace Decode32

theorem bits_eq (insn : Word) (lo n : Nat) :
    bits insn lo n = (insn.extractLsb' lo n).setWidth 32 := by
  apply BitVec.eq_of_toNat_eq
  simp [bits]

def heads : List (Rule × List (Pattern 32)) :=
  [(ldrLiteral, [⟨0xff7f0000, 0xf85f0000⟩]),
    (sg, [⟨0xffffffff, 0xe97fe97f⟩]),
    (clrex, [⟨0xffffffff, 0xf3bf8f2f⟩]),
    (reverse, [⟨0xfff00000, 0xfa900000⟩]),
    (rbit, [⟨0xfff0f0f0, 0xfa90f0a0⟩]),
    (testTarget, [⟨0xfff0f03f, 0xe840f000⟩]),
    (divide, [⟨0xfff00000, 0xfbb00000⟩, ⟨0xfff00000, 0xfb900000⟩]),
    (mulW, [⟨0xfff0f0f0, 0xfb00f000⟩]),
    (umaal, [⟨0xfff000f0, 0xfbe00060⟩]),
    (mulLong, [⟨0xfff00000, 0xfba00000⟩, ⟨0xfff00000, 0xfbe00000⟩, ⟨0xfff00000, 0xfb800000⟩,
      ⟨0xfff00000, 0xfbc00000⟩]),
    (smla, [⟨0xfff000c0, 0xfb100000⟩]),
    (mla, [⟨0xfff00000, 0xfb000000⟩]),
    (clz, [⟨0xfff0f0f0, 0xfab0f080⟩]),
    (ldrshImm, [⟨0xfff00000, 0xf9b00000⟩, ⟨0xfff00000, 0xf9300000⟩]),
    (ldrex, [⟨0xfff00f00, 0xe8500f00⟩]),
    (strex, [⟨0xfff000ff, 0xe8400000⟩]),
    (multiple, [⟨0xfe400000, 0xe8000000⟩]),
    (mrs, [⟨0xffff0000, 0xf3ef0000⟩]),
    (barrier, [⟨0xfffffff0, 0xf3bf8f40⟩, ⟨0xfffffff0, 0xf3bf8f50⟩, ⟨0xfffffff0, 0xf3bf8f60⟩]),
    (mvnReg, [⟨0xffef8000, 0xea6f0000⟩]),
    (mvnImm, [⟨0xfbef8000, 0xf06f0000⟩]),
    (msr, [⟨0xfff08000, 0xf3808000⟩]),
    (bl, [⟨0xf800d000, 0xf000d000⟩]),
    (bCondWide, [⟨0xf800d000, 0xf0008000⟩]),
    (bUncondWide, [⟨0xf800d000, 0xf0009000⟩]),
    (shiftReg, [⟨0xffe0f0f0, 0xfa00f000⟩, ⟨0xffe0f0f0, 0xfa20f000⟩, ⟨0xffe0f0f0, 0xfa40f000⟩,
      ⟨0xffe0f0f0, 0xfa60f000⟩]),
    (rsbImm, [⟨0xfbe08000, 0xf1c00000⟩]),
    (addw, [⟨0xfbf08000, 0xf2000000⟩]),
    (movImm, [⟨0xfbf08000, 0xf0400000⟩]),
    (orrImm, [⟨0xff700000, 0xf0400000⟩]),
    (dataReg, [⟨0xfe000000, 0xea000000⟩]),
    (extend, [⟨0xfff0f000, 0xfa50f000⟩, ⟨0xfff0f000, 0xfa40f000⟩, ⟨0xfff0f000, 0xfa10f000⟩,
      ⟨0xfff0f000, 0xfa00f000⟩]),
    (ldrsbImm, [⟨0xfff00000, 0xf9900000⟩, ⟨0xfff00000, 0xf9100000⟩]),
    (movw, [⟨0xfbf08000, 0xf2400000⟩]),
    (movt, [⟨0xfbf08000, 0xf2c00000⟩]),
    (modifiedImm, [⟨0xfa000000, 0xf0000000⟩]),
    (subw, [⟨0xff700000, 0xf2200000⟩, ⟨0xff700000, 0xf6200000⟩]),
    (offset12, [⟨0xfff00000, 0xf8a00000⟩, ⟨0xfff00000, 0xf8b00000⟩, ⟨0xfff00000, 0xf8c00000⟩,
      ⟨0xfff00000, 0xf8d00000⟩]),
    (wordReg, [⟨0xffc00f00, 0xf8400000⟩]),
    (word8, [⟨0xfff00f00, 0xf8400b00⟩, ⟨0xfff00f00, 0xf8400900⟩, ⟨0xfff00f00, 0xf8500b00⟩,
      ⟨0xfff00f00, 0xf8500900⟩, ⟨0xfff00f00, 0xf8400c00⟩, ⟨0xfff00f00, 0xf8500c00⟩,
      ⟨0xfff00f00, 0xf8400f00⟩, ⟨0xfff00f00, 0xf8400d00⟩, ⟨0xfff00f00, 0xf8500f00⟩,
      ⟨0xfff00f00, 0xf8500d00⟩]),
    (byteReg, [⟨0xfff00fc0, 0xf8000000⟩, ⟨0xfff00fc0, 0xf8100000⟩]),
    (ldrshReg, [⟨0xfff00fc0, 0xf9300000⟩]),
    (byte12, [⟨0xfff00000, 0xf8800000⟩, ⟨0xfff00000, 0xf8900000⟩]),
    (byte8, [⟨0xff000000, 0xf8000000⟩]),
    (ldrh8, [⟨0xfff00800, 0xf8300800⟩]),
    (strh8, [⟨0xfff00800, 0xf8200800⟩]),
    (halfReg, [⟨0xfff00fc0, 0xf8200000⟩, ⟨0xfff00fc0, 0xf8300000⟩]),
    (ubfx, [⟨0xfff00000, 0xf3c00000⟩]),
    (sbfx, [⟨0xfff00000, 0xf3400000⟩]),
    (bitFieldInsert, [⟨0xfff08020, 0xf3600000⟩]),
    (tableBranch, [⟨0xfff0ffe0, 0xe8d0f000⟩]),
    (dual, [⟨0xfe000000, 0xe8000000⟩])]

theorem heads_rules : heads.map Prod.fst = rules := rfl

theorem heads_refuse : ∀ head ∈ heads, ∀ (insn : Word) (d : Decoded),
    (∀ p ∈ head.2, ¬ p.Matches insn) → head.1 insn d = (false, d) := by
  simp only [heads, List.forall_mem_cons, Pattern.Matches]
  refine ⟨?_, ?_, ?_, ?_, ?_, ?_, ?_, ?_, ?_, ?_, ?_, ?_, ?_, ?_, ?_, ?_, ?_, ?_, ?_, ?_, ?_, ?_, ?_,
    ?_, ?_, ?_, ?_, ?_, ?_, ?_, ?_, ?_, ?_, ?_, ?_, ?_, ?_, ?_, ?_, ?_, ?_, ?_, ?_, ?_, ?_, ?_, ?_,
    ?_, ?_, ?_, ?_, ?_, nofun⟩
  all_goals
    intro insn d none
    simp only [ldrLiteral, sg, clrex, reverse, rbit, testTarget, divide, mulW, umaal, mulLong, smla,
      mla, clz, ldrshImm, ldrex, strex, multiple, mrs, barrier, mvnReg, mvnImm, msr, bl, bCondWide,
      bUncondWide, shiftReg, rsbImm, addw, movImm, orrImm, dataReg, extend, ldrsbImm, movw, movt,
      modifiedImm, subw, offset12, wordReg, word8, byteReg, ldrshReg, byte12, byte8, ldrh8, strh8,
      halfReg, ubfx, sbfx, bitFieldInsert, tableBranch, dual, loadSigned, half8]
    try simp only [none, false_and, or_self, if_false]
  case refine_2 | refine_3 =>
    have whole : insn &&& 0xffffffff = insn := BitVec.and_allOnes
    rw [whole] at none
    rw [if_neg none.1]
  case refine_7 | refine_10 => exact ite_self _
  case refine_45 =>
    have both : (0xf8300000 : Word) ||| 0x800 = 0xf8300800 := by decide
    rw [both, if_neg fun accepted => none.1 accepted.1]
  case refine_46 =>
    have both : (0xf8200000 : Word) ||| 0x800 = 0xf8200800 := by decide
    rw [both, if_neg fun accepted => none.1 accepted.1]

theorem firstRule_accepted (rule : Rule) {rest : List Rule} {insn : Word} {d d' : Decoded}
    (accepted : rule insn d = (true, d')) : firstRule insn (rule :: rest) d = d' := by
  rw [firstRule, accepted]

theorem firstRule_refused (rule : Rule) {rest : List Rule} {insn : Word} {d d' : Decoded}
    (refused : rule insn d = (false, d')) :
    firstRule insn (rule :: rest) d = firstRule insn rest d' := by
  rw [firstRule, refused]

def mayAccept (p : Pattern 32) (head : Rule × List (Pattern 32)) : Bool :=
  head.2.any fun q => decide (¬ p.Apart q)

def candidates (p : Pattern 32) : List Rule := (heads.filter (mayAccept p)).map Prod.fst

theorem firstRule_candidates {p : Pattern 32} {insn : Word} (here : p.Matches insn) (d : Decoded) :
    firstRule insn rules d = firstRule insn (candidates p) d := by
  have among : ∀ hs : List (Rule × List (Pattern 32)), (∀ head ∈ hs, head ∈ heads) → ∀ d,
      firstRule insn (hs.map Prod.fst) d =
        firstRule insn ((hs.filter (mayAccept p)).map Prod.fst) d := by
    intro hs member
    induction hs with
    | nil => intro d; rfl
    | cons head hs ih =>
      intro d
      have rest := ih fun x mem => member x (List.mem_cons_of_mem _ mem)
      by_cases may : mayAccept p head = true
      · rw [List.filter_cons_of_pos may, List.map_cons, List.map_cons, firstRule, firstRule]
        rcases head.1 insn d with ⟨accepted, d'⟩
        cases accepted
        · exact rest d'
        · rfl
      · have refused := heads_refuse head (member head (List.mem_cons_self ..)) insn d
          fun q mem there => may (List.any_eq_true.mpr
            ⟨q, mem, decide_eq_true fun apart => apart.not_matches here there⟩)
        rw [List.filter_cons_of_neg may, List.map_cons, firstRule_refused _ refused]
        exact rest d
  rw [← heads_rules]
  exact among heads (fun _ mem => mem) d

def Refuses (rule : Rule) : Prop :=
  ∀ (insn : Word) (d : Decoded), (rule insn d).1 = false → (rule insn d).2 = d

theorem rules_refuse : ∀ rule ∈ rules.take 35 ++ rules.drop 36, Refuses rule := by
  simp only [rules, List.take_succ_cons, List.take_zero, List.drop_succ_cons, List.drop_zero,
    List.cons_append, List.nil_append, List.forall_mem_cons]
  refine ⟨?_, ?_, ?_, ?_, ?_, ?_, ?_, ?_, ?_, ?_, ?_, ?_, ?_, ?_, ?_, ?_, ?_, ?_, ?_, ?_, ?_, ?_, ?_,
    ?_, ?_, ?_, ?_, ?_, ?_, ?_, ?_, ?_, ?_, ?_, ?_, ?_, ?_, ?_, ?_, ?_, ?_, ?_, ?_, ?_, ?_, ?_, ?_,
    ?_, ?_, ?_, ?_, List.forall_mem_nil _⟩
  all_goals
    intro insn d
    simp only [ldrLiteral, sg, clrex, reverse, rbit, testTarget, divide, mulW, umaal, mulLong, smla,
      mla, clz, ldrshImm, ldrex, strex, multiple, mrs, barrier, mvnReg, mvnImm, msr, bl, bCondWide,
      bUncondWide, shiftReg, rsbImm, addw, movImm, orrImm, dataReg, extend, ldrsbImm, movw, movt,
      subw, offset12, wordReg, word8, byteReg, ldrshReg, byte12, byte8, ldrh8, strh8,
      halfReg, ubfx, sbfx, bitFieldInsert, tableBranch, dual, loadSigned, half8]
    repeat' split
    all_goals first
      | exact fun _ => rfl
      | intro accepted
        cases accepted

theorem exists_accepted (hs : List Rule) (last : Rule) {insn : Word} {d : Decoded}
    (refuse : ∀ rule ∈ hs, (rule insn d).1 = false → (rule insn d).2 = d)
    (ends : (last insn d).1 = false → (last insn d).2.undefined = true)
    (defined : (firstRule insn (hs ++ [last]) d).undefined = false) :
    ∃ rule ∈ hs ++ [last], rule insn d = (true, firstRule insn (hs ++ [last]) d) := by
  induction hs with
  | nil =>
    rcases result : last insn d with ⟨accepted, d'⟩
    rw [result] at ends
    cases accepted with
    | true =>
      refine ⟨last, List.mem_singleton.mpr rfl, result.trans ?_⟩
      rw [List.nil_append, firstRule_accepted last result]
    | false =>
      rw [List.nil_append, firstRule_refused last result] at defined
      exact nomatch (ends rfl).symm.trans defined
  | cons rule hs ih =>
    have here := refuse rule (List.mem_cons_self ..)
    rcases result : rule insn d with ⟨accepted, d'⟩
    rw [result] at here
    rw [List.cons_append] at defined ⊢
    cases accepted with
    | true => exact ⟨rule, List.mem_cons_self .., by rw [result, firstRule_accepted rule result]⟩
    | false =>
      obtain rfl : d' = d := here rfl
      rw [firstRule_refused rule result] at defined ⊢
      obtain ⟨other, mem, accepts⟩ :=
        ih (fun x mem => refuse x (List.mem_cons_of_mem _ mem)) defined
      exact ⟨other, List.mem_cons_of_mem _ mem, accepts⟩

theorem candidates_modified : candidates ⟨0xfa000000, 0xf0000000⟩ =
    [mvnImm, bl, bCondWide, bUncondWide, rsbImm, movImm, orrImm, modifiedImm] := rfl

theorem mem_candidates {p : Pattern 32} {insn : Word} (here : p.Matches insn) {rule : Rule}
    (mem : rule ∈ rules) {d d' : Decoded} (accepted : rule insn d = (true, d')) :
    rule ∈ candidates p := by
  rw [← heads_rules] at mem
  obtain ⟨head, among, rfl⟩ := List.mem_map.mp mem
  refine List.mem_map.mpr ⟨head, List.mem_filter.mpr ⟨among, ?_⟩, rfl⟩
  by_contra apart
  have refused := heads_refuse head among insn d fun q mem there => apart
    (List.any_eq_true.mpr ⟨q, mem, decide_eq_true fun apart => apart.not_matches here there⟩)
  exact nomatch (congrArg Prod.fst accepted).symm.trans (congrArg Prod.fst refused)

theorem modified_plain : ∀ rule ∈ [mvnImm, bl, bCondWide, bUncondWide, rsbImm, movImm, orrImm],
    rule ∈ rules.take 35 ++ rules.drop 36 := by
  simp [rules]

theorem modifiedImm_undefined {insn : Word}
    (refused : (modifiedImm insn (.default 4 insn)).1 = false) :
    (modifiedImm insn (.default 4 insn)).2.undefined = true := by
  revert refused
  rw [modifiedImm]
  split
  · dsimp only
    split
    · intro accepted
      cases accepted
    · exact fun _ => rfl
  · exact fun _ => rfl

theorem exists_candidate {p : Pattern 32} {insn : Word} (here : p.Matches insn)
    (defined : (Decode.decode32 insn).undefined = false) :
    ∃ rule ∈ candidates p, rule insn (.default 4 insn) = (true, Decode.decode32 insn) := by
  suffices found : ∃ rule ∈ rules, rule insn (.default 4 insn) = (true, Decode.decode32 insn) by
    obtain ⟨rule, mem, accepted⟩ := found
    exact ⟨rule, mem_candidates here mem accepted, accepted⟩
  rw [Decode.decode32] at defined ⊢
  by_cases modified : insn &&& 0xfa000000 = 0xf0000000
  · have only := firstRule_candidates (p := ⟨0xfa000000, 0xf0000000⟩) modified (.default 4 insn)
    rw [only, candidates_modified] at defined ⊢
    obtain ⟨rule, mem, accepted⟩ := exists_accepted
      [mvnImm, bl, bCondWide, bUncondWide, rsbImm, movImm, orrImm] modifiedImm (d := .default 4 insn)
      (fun rule mem => rules_refuse rule (modified_plain rule mem) insn _) modifiedImm_undefined
      defined
    have among : rule ∈ candidates ⟨0xfa000000, 0xf0000000⟩ := mem
    obtain ⟨head, filtered, rfl⟩ := List.mem_map.mp among
    exact ⟨head.1, List.mem_map_of_mem (List.mem_filter.mp filtered).1, accepted⟩
  · refine exists_accepted (rules.take 51) dual (fun rule mem refused => ?_) ?_ defined
    · have order : rules.take 51 = rules.take 35 ++ modifiedImm :: (rules.drop 36).take 15 := rfl
      rw [order, List.mem_append, List.mem_cons] at mem
      rcases mem with before | rfl | after
      · exact rules_refuse rule (List.mem_append_left _ before) insn _ refused
      · rw [modifiedImm, if_neg modified]
      · have among := List.mem_append_right (rules.take 35) (List.mem_of_mem_take after)
        exact rules_refuse rule among insn _ refused
    · exact fun refused => (rules_refuse dual (by simp [rules]) insn _ refused).symm ▸ rfl

end Decode32

end M33mu
