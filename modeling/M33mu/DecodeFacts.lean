import M33mu.Decode32
import M33mu.MainLoop

namespace M33mu

/-- An instruction as the fetch returns it: the halfwords that were read, at an even address. -/
structure FetchResult.Fetched (f : FetchResult) : Prop where
  valid : f.fault = false
  sized : f.len = 2 ∨ f.len = 4
  narrow : f.len = 2 → f.insn < 0x10000
  even : f.pcFetch.getLsbD 0 = false

theorem Memmap.readBufLe_half {buf : Word → Byte} {off v : Word}
    (read : readBufLe buf off 2 = some v) : v < 0x10000 := by
  have eq : (buf (off + 1) ++ buf off).setWidth 32 = v := Option.some.inj read
  have lt := (buf (off + 1) ++ buf off).isLt
  rw [← eq, BitVec.lt_def, BitVec.toNat_setWidth]
  exact Nat.lt_of_le_of_lt (Nat.mod_le ..) lt

theorem Memmap.fetchHalf_half {m : Memmap} {addr v : Word} (read : m.fetchHalf addr = some v) :
    v < 0x10000 := by
  rw [fetchHalf] at read
  cases flash : m.readFlash addr 2 with
  | some w =>
    rw [flash] at read
    obtain rfl : w = v := Option.some.inj read
    obtain ⟨buf, -, found⟩ := Option.bind_eq_some_iff.mp flash
    obtain ⟨off, -, here⟩ := List.exists_of_findSome?_eq_some found
    exact readBufLe_half here
  | none =>
    rw [flash] at read
    obtain ⟨buf, -, found⟩ := Option.bind_eq_some_iff.mp read
    obtain ⟨off, -, here⟩ := Option.bind_eq_some_iff.mp found
    exact readBufLe_half here

theorem World.fetchRead16_half {δ : Type u} {env : Env δ} {w : World δ} {sec : SecState}
    {addr v : Word} (read : (w.fetchRead16 env sec addr).1 = some v) : v < 0x10000 := by
  simp only [fetchRead16] at read
  split at read
  · cases read
  · exact Memmap.fetchHalf_half read

theorem Machine.fetch_fetched {δ : Type u} {env : Env δ} {m : Machine δ}
    (valid : (m.fetch env).1.fault = false) : (m.fetch env).1.Fetched := by
  have even : (m.cpu.r 15 &&& ~~~1#32).getLsbD 0 = false := by
    have clear : (~~~1#32).getLsbD 0 = false := by decide
    rw [BitVec.getLsbD_and, clear, Bool.and_false]
  revert valid
  rw [fetch]
  split
  · intro is
    cases is
  · rename_i hw1 w read
    dsimp only
    split
    · split
      · intro is
        cases is
      · exact fun valid => ⟨valid, .inr rfl, (fun is => by cases is), even⟩
    · exact fun valid => ⟨valid, .inl rfl,
        fun _ => World.fetchRead16_half (congrArg Prod.fst read), even⟩

def Decoded.SameFetch (d d' : Decoded) : Prop := d'.len = d.len ∧ d'.raw = d.raw

theorem Decoded.sameFetch_ite {p : Prop} [Decidable p] {d : Decoded} {a b : Bool × Decoded}
    (left : d.SameFetch a.2) (right : d.SameFetch b.2) : d.SameFetch (if p then a else b).2 := by
  split
  · exact left
  · exact right

namespace Decode32

def KeepsFetch (rule : Rule) : Prop := ∀ (insn : Word) (d : Decoded), d.SameFetch (rule insn d).2

theorem firstRule_sameFetch {rules : List Rule} (keeps : ∀ rule ∈ rules, KeepsFetch rule)
    (insn : Word) (d : Decoded) : d.SameFetch (firstRule insn rules d) := by
  induction rules generalizing d with
  | nil => exact ⟨rfl, rfl⟩
  | cons rule rules ih =>
    have here := keeps rule (List.mem_cons_self ..) insn d
    rw [firstRule]
    split
    · rename_i accepted
      rw [accepted] at here
      exact here
    · rename_i d' refused
      rw [refused] at here
      have rest := ih (fun rule member => keeps rule (List.mem_cons_of_mem _ member)) d'
      exact ⟨rest.1.trans here.1, rest.2.trans here.2⟩

theorem rules_keepFetch : ∀ rule ∈ rules, KeepsFetch rule := by
  simp only [rules, List.forall_mem_cons]
  refine ⟨?_, ?_, ?_, ?_, ?_, ?_, ?_, ?_, ?_, ?_, ?_, ?_, ?_, ?_, ?_, ?_, ?_, ?_, ?_, ?_, ?_, ?_, ?_,
    ?_, ?_, ?_, ?_, ?_, ?_, ?_, ?_, ?_, ?_, ?_, ?_, ?_, ?_, ?_, ?_, ?_, ?_, ?_, ?_, ?_, ?_, ?_, ?_,
    ?_, ?_, ?_, ?_, ?_, nofun⟩
  all_goals
    intro insn d
    simp only [ldrLiteral, sg, clrex, reverse, rbit, testTarget, divide, mulW, umaal, mulLong, smla,
      mla, clz, ldrshImm, ldrex, strex, multiple, mrs, barrier, mvnReg, mvnImm, msr, bl, bCondWide,
      bUncondWide, shiftReg, rsbImm, addw, movImm, orrImm, dataReg, extend, ldrsbImm, movw, movt,
      modifiedImm, subw, offset12, wordReg, word8, byteReg, ldrshReg, byte12, byte8, ldrh8, strh8,
      halfReg, ubfx, sbfx, bitFieldInsert, tableBranch, dual, loadSigned, half8]
    repeat' split
    all_goals exact ⟨rfl, rfl⟩

end Decode32

namespace Decode

def KeepsFetch (f : Half → Decoded → Bool × Decoded) : Prop :=
  ∀ (hw1 : Half) (d : Decoded), d.SameFetch (f hw1 d).2

theorem firstOf_sameFetch {fs : List (Half → Decoded → Bool × Decoded)}
    (keeps : ∀ f ∈ fs, KeepsFetch f) (hw1 : Half) (d : Decoded) :
    d.SameFetch (firstOf fs hw1 d) := by
  induction fs generalizing d with
  | nil => exact ⟨rfl, rfl⟩
  | cons f fs ih =>
    have here := keeps f (List.mem_cons_self ..) hw1 d
    rw [firstOf]
    split
    · rename_i accepted
      rw [accepted] at here
      exact here
    · rename_i d' refused
      rw [refused] at here
      have rest := ih (fun f member => keeps f (List.mem_cons_of_mem _ member)) d'
      exact ⟨rest.1.trans here.1, rest.2.trans here.2⟩

theorem decoders_keepFetch : ∀ f ∈ [control, branchCond, branchUncond, branchMisc, extRev, highReg,
    lowReg, loadstore, stackMisc, stmLdm], KeepsFetch f := by
  simp only [List.forall_mem_cons]
  refine ⟨?_, ?_, ?_, ?_, ?_, ?_, ?_, ?_, ?_, ?_, nofun⟩
  all_goals
    intro hw1 d
    simp only [control, branchCond, branchUncond, branchMisc, extRev, highReg, lowReg, loadstore,
      stackMisc, stmLdm]
    repeat' refine Decoded.sameFetch_ite ?_ ?_
    all_goals try exact ⟨rfl, rfl⟩
  split <;> exact ⟨rfl, rfl⟩

theorem decode16_sameFetch (hw1 : Half) :
    (Decoded.default 2 (hw1.setWidth 32)).SameFetch (decode16 hw1) := by
  refine firstOf_sameFetch (fun f member => decoders_keepFetch f ?_) hw1 _
  rw [List.mem_cons] at member
  rcases member with rfl | member
  · exact List.mem_cons_self ..
  · revert member
    split <;> intro member <;> simp only [List.mem_cons, List.not_mem_nil, or_false] at member ⊢ <;>
      grind

theorem decodeT32_sameFetch {f : FetchResult} (wide : f.len = 2 → f.insn < 0x10000)
    (sized : f.len = 2 ∨ f.len = 4) :
    (decodeT32 decode32 f).len = f.len ∧ (decodeT32 decode32 f).raw = f.insn := by
  rw [decodeT32]
  split
  · exact ⟨rfl, rfl⟩
  · split
    · rename_i half
      have same := decode16_sameFetch (f.insn.setWidth 16)
      have narrow := wide half
      refine ⟨same.1.trans half.symm, same.2.trans ?_⟩
      show (f.insn.setWidth 16).setWidth 32 = f.insn
      bv_omega
    · rename_i whole
      have same := Decode32.firstRule_sameFetch Decode32.rules_keepFetch f.insn (.default 4 f.insn)
      exact ⟨same.1.trans (sized.resolve_left whole).symm, same.2⟩

end Decode

end M33mu
