import M33mu.FlagSetting
import M33mu.NvicSelect

/-!
A machine that tells whether an instruction treats the flags as it has to: every flag is set, every
register is a value that returns from an exception, and the instruction lies where the next PC is
such a value too.
-/

namespace M33mu

open Lib Decode Decode32 DataProc ExecHelpers Execute

namespace DataInsn

def halves : DataInsn → Half × Half
  | .narrow hw1 _ => (hw1, 0)
  | .wide insn _ _ => ((insn >>> 16).setWidth 16, insn.setWidth 16)

def image (hw1 hw2 : Half) (off : Word) : Byte :=
  (if off < 2 then hw1 else hw2).extractLsb' (8 * (off.toNat % 2)) 8

theorem readBufLe_image (hw1 hw2 : Half) :
    Memmap.readBufLe (image hw1 hw2) 0 2 = some (hw1.setWidth 32) ∧
      Memmap.readBufLe (image hw1 hw2) 2 2 = some (hw2.setWidth 32) := by
  have joined (x : Half) : x.extractLsb' 8 8 ++ x.extractLsb' 0 8 = x := by
    rw [BitVec.extractLsb'_append_extractLsb'_eq_extractLsb' (by decide)]
    exact BitVec.extractLsb'_eq_self
  constructor
  · show some ((hw1.extractLsb' 8 8 ++ hw1.extractLsb' 0 8).setWidth 32) = _
    rw [joined]
  · show some ((hw2.extractLsb' 8 8 ++ hw2.extractLsb' 0 8).setWidth 32) = _
    rw [joined]

def probePc : Word := 0xFFFFFFF8

def probeReturn : Word := 0xFFFFFFFD

def probeMap (i : DataInsn) : Memmap :=
  { Board.map with
    flash := some (image i.halves.1 i.halves.2)
    flashLength := 8
    flashBase := probePc
    flashBaseS := probePc
    flashSizeS := 8
    flashBaseNs := probePc
    flashSizeNs := 8 }

/-- `ITSTATE` with `k` instructions left under the condition that always passes. -/
def probeIt (k : Fin 5) : Byte := if k = 0 then 0 else 0xE0 ||| 0x10#8 >>> k.val

def probeCpu (k : Fin 5) : Cpu :=
  { Board.cpu with
    r := fun j => if j = 15 then probePc ||| 1 else probeReturn
    xpsr := ItState.set 0xF1000000 (probeIt k)
    msp := .both probeReturn
    psp := .both 0x20004000 }

def probe {δ : Type u} (dev : δ) (i : DataInsn) (k : Fin 5) : Machine δ where
  cpu := probeCpu k
  world :=
    { toScsBlock := Board.world.toScsBlock
      map := probeMap i
      activeSec := .secure
      faultPending := false
      dev := dev }
  trace := []
  it := ItState.decode (probeIt k)
  done := false
  resetAgain := false
  transfers := []

def probeEnv (δ : Type u) : Env δ := ⟨[], none, none, false, false⟩

def quietHost (δ : Type u) : Host δ := ⟨id, id⟩

theorem fetchRead16_probe {δ : Type u} (env : Env δ) {w : World δ} (i : DataInsn) (sec : SecState)
    (map : w.map = probeMap i) :
    w.fetchRead16 env sec probePc = (some (i.halves.1.setWidth 32), w) ∧
      w.fetchRead16 env sec (probePc + 2) = (some (i.halves.2.setWidth 32), w) := by
  obtain ⟨first, second⟩ := readBufLe_image i.halves.1 i.halves.2
  have fetched (addr off : Word) (v : Word)
      (offsets : (probeMap i).flashOffsets addr 2 = [off, off])
      (read : Memmap.readBufLe (image i.halves.1 i.halves.2) off 2 = some v) :
      w.fetchRead16 env sec addr = (some v, w) := by
    have half : (probeMap i).fetchHalf addr = some v := by
      rw [Memmap.fetchHalf, Memmap.readFlash, offsets]
      simp only [probeMap, Option.bind_some, List.findSome?_cons, read]
      rfl
    have granted : w.interceptOk env .exec sec addr 2 = (true, w) := by
      rw [World.interceptOk, map]
      rfl
    rw [World.fetchRead16, granted]
    dsimp only
    rw [map, half]
    rfl
  have windows : (probeMap i).flashWindows = [(probePc, 8), (probePc, 8)] := rfl
  have offsets (addr off : Word) (here : [(probePc, (8 : Word)), (probePc, 8)].filterMap
      (fun p => Memmap.offsetIn p.1 p.2 addr 2) = [off, off]) :
      (probeMap i).flashOffsets addr 2 = [off, off] := by
    rw [Memmap.flashOffsets, windows]
    exact here
  exact ⟨fetched _ 0 _ (offsets _ _ (by decide)) first,
    fetched _ 2 _ (offsets _ _ (by decide)) second⟩

theorem row_setWidth (hw1 : Half) : hw1.setWidth 32 &&& (0xF800 : Word) =
    (hw1 &&& 0xF800).setWidth 32 := by
  rw [BitVec.setWidth_and]
  rfl

theorem prefix_narrow {hw1 : Half} (data : NarrowData hw1) :
    Machine.t32Is32bitPrefix (hw1.setWidth 32) = false := by
  have low : hw1.getLsbD 15 = false := by
    rcases data with ⟨low, -⟩ | ⟨alu, -⟩
    · exact clear_of_masked low (by decide) (by decide)
    · exact clear_of_masked alu (by decide) (by decide)
  have small : 2 * hw1.toNat < 2 ^ 16 := BitVec.msb_eq_false_iff_two_mul_lt.mp
    ((BitVec.msb_eq_getLsbD_last hw1).trans low)
  have masked : (hw1 &&& 0xF800).toNat ≤ hw1.toNat := by
    rw [BitVec.toNat_and]
    exact Nat.and_le_left
  rw [Machine.t32Is32bitPrefix, row_setWidth, decide_eq_false_iff_not, BitVec.le_def,
    BitVec.toNat_setWidth_of_le (by decide)]
  have limit : (0xE800 : Word).toNat = 0xE800 := rfl
  omega

theorem upper_half (insn : Word) : ((insn >>> 16).setWidth 16).setWidth 32 = insn >>> 16 := by
  apply BitVec.eq_of_toNat_eq
  have lt := insn.isLt
  rw [BitVec.toNat_setWidth_of_le (by decide), BitVec.toNat_setWidth, BitVec.toNat_ushiftRight,
    Nat.shiftRight_eq_div_pow]
  omega

theorem prefix_wide {insn : Word} (data : WideData insn) :
    Machine.t32Is32bitPrefix (((insn >>> 16).setWidth 16).setWidth 32) = true := by
  have row {mask value : Word} (head : insn &&& mask = value)
      (covers : mask &&& 0xf8000000 = 0xf8000000) :
      insn >>> 16 &&& (0xF800 : Word) = (value &&& 0xf8000000) >>> 16 := by
    rw [← head, BitVec.and_assoc, covers, BitVec.ushiftRight_and_distrib]
    rfl
  rw [upper_half]
  rw [Machine.t32Is32bitPrefix, decide_eq_true_eq]
  rcases data with immediate | shifted | register
  · rw [row immediate (by decide)]
    decide
  · rw [row shifted (by decide)]
    decide
  · rw [row register (by decide)]
    decide

theorem joined_halves (insn : Word) :
    ((insn >>> 16).setWidth 16).setWidth 32 <<< 16 ||| (insn.setWidth 16).setWidth 32 = insn := by
  apply BitVec.eq_of_getLsbD_eq
  intro i hi
  by_cases low : i < 16
  · simp [low, hi]
  · have back : 16 + (i - 16) = i := by omega
    have inside : i - 16 < 16 := by omega
    simp [low, hi, back, inside]

theorem fetch_probe {δ : Type u} (i : DataInsn) {m : Machine δ} (map : m.world.map = probeMap i)
    (pc : m.cpu.r 15 = probePc ||| 1) :
    m.fetch (probeEnv δ) = (i.fetchedAt probePc,
      m.setReg 15 ((probePc + (i.fetchedAt probePc).len.setWidth 32) ||| 1)) := by
  have even : (probePc ||| 1) &&& ~~~1#32 = probePc := by decide
  obtain ⟨first, second⟩ := fetchRead16_probe (probeEnv δ) i m.cpu.secState map
  rw [Machine.fetch, pc, even]
  dsimp only
  rw [first]
  dsimp only
  cases i with
  | narrow hw1 data =>
    rw [halves, prefix_narrow data]
    rfl
  | wide insn data defined =>
    rw [halves, prefix_wide data, if_pos rfl]
    have again : (m.withWorld m.world).world = m.world := rfl
    rw [again, show (m.withWorld m.world).cpu = m.cpu from rfl, second]
    dsimp only [halves]
    rw [joined_halves]
    rfl

def probed {δ : Type u} (dev : δ) (i : DataInsn) (k : Fin 5) : Machine δ :=
  let m := probe dev i k
  let m := m.withWorld { m.world with scs := m.world.scs.systickAdvance 1 }
  (m.setReg 13 m.cpu.getActiveSp).setReg 15
    ((probePc + (i.fetchedAt probePc).len.setWidth 32) ||| 1)

theorem probed_it : ∀ k : Fin 5, (ItState.decode (probeIt k)).remaining = BitVec.ofNat 8 k ∧
    ((ItState.decode (probeIt k)).remaining = 0 ∨
      (ItState.decode (probeIt k)).takes ⟨true, true, true, true⟩ = true) := by
  decide

theorem probed_flags {δ : Type u} (dev : δ) (i : DataInsn) (k : Fin 5) :
    (probed dev i k).flags = ⟨true, true, true, true⟩ :=
  Machine.ofXpsr_itState ..

theorem probed_agree {δ : Type u} (dev : δ) (i : DataInsn) (k : Fin 5) :
    (probed dev i k).Agree := by
  have same : ItState.syncFromXpsr (probed dev i k).cpu.xpsr = (probed dev i k).it :=
    congrArg ItState.decode (ItState.get_set ..)
  rw [Machine.Agree, same]
  exact .refl _

theorem executed_probe {δ : Type u} (dev : δ) (i : DataInsn) (k : Fin 5) :
    (probe dev i k).executed (probeEnv δ) decode32 (quietHost δ) =
      some (i.fetchedAt probePc, i.decoded, probed dev i k) := by
  refine Machine.executed_eq_some.mpr ⟨rfl, ?_, ?_, (decodeT32_fetchedAt i probePc).symm, ?_,
    i.decoded_undefined, ?_⟩
  · have quiet : (probe dev i k).world.nvic.selectRouted (probe dev i k).cpu = none :=
      Nvic.selectRouted_eq_none_iff.mpr fun irq => by
        have off : Nvic.testBit Nvic.init.enableMask irq = false := BitVec.getLsbD_zero
        show Nvic.init.candidate _ irq = false
        rw [Nvic.candidate, off]
        rfl
    show (probe dev i k).pending = none
    rw [Machine.pending, quiet]
    rfl
  · exact fetch_probe i rfl rfl
  · cases i <;> rfl
  · obtain ⟨remaining, takes⟩ := probed_it k
    have it : (probed dev i k).it = ItState.decode (probeIt k) := rfl
    have flags : Flags.ofXpsr (probed dev i k).cpu.xpsr = ⟨true, true, true, true⟩ :=
      probed_flags dev i k
    rw [Machine.inBlock, it, flags]
    rcases takes with outside | takes
    · rw [outside]
      rfl
    · rw [takes, Bool.not_true, Bool.and_false]

theorem read_probe {δ : Type u} {w : World δ} {i : DataInsn} (map : w.map = probeMap i)
    {addr : Word} (above : 0x20000000 ≤ addr.toNat) (below : addr.toNat + 4 ≤ 0x20010000) :
    w.read (probeEnv δ) .secure addr 4 = (some 0, w) := by
  have outside : Memmap.offsetIn probePc 8 addr 4 = none := by
    rw [Memmap.offsetIn, if_neg fun inside => ?_]
    have high : probePc.toNat ≤ addr.toNat := inside.1
    have value : probePc.toNat = 0xFFFFFFF8 := rfl
    omega
  have inside : Memmap.offsetIn 0x20000000 0x10000 addr 4 = some (addr - 0x20000000) := by
    rw [Memmap.offsetIn, if_pos]
    bv_omega
  have granted : w.interceptOk (probeEnv δ) .read .secure addr 4 = (true, w) := by
    rw [World.interceptOk, map]
    rfl
  have flash : (probeMap i).readFlash addr 4 = none := by
    have offsets : (probeMap i).flashOffsets addr 4 =
        [(probePc, (8 : Word)), (probePc, 8)].filterMap
          fun p => Memmap.offsetIn p.1 p.2 addr 4 := rfl
    rw [Memmap.readFlash, offsets]
    simp only [List.filterMap_cons, outside, List.filterMap_nil]
    rfl
  have ram : (probeMap i).readRam addr 4 = some 0 := by
    have offset : (probeMap i).ramOffsetForAddr addr 4 = some (addr - 0x20000000) := by
      simp only [Memmap.ramOffsetForAddr, probeMap, Board.map, inside]
      rfl
    rw [Memmap.readRam, offset]
    show Memmap.readBufLe (fun _ => 0) (addr - 0x20000000) 4 = some 0
    simp [Memmap.readBufLe]
  rw [World.read, granted]
  dsimp only
  rw [map, flash, ram]
  rfl

theorem readWords_probe {δ : Type u} {w : World δ} {i : DataInsn} (map : w.map = probeMap i)
    (n : Nat) {addr : Word} (above : 0x20000000 ≤ addr.toNat)
    (below : addr.toNat + 4 * n ≤ 0x20010000) :
    w.readWords (probeEnv δ) .secure addr n = (some (List.replicate n 0), w) := by
  induction n generalizing addr with
  | zero => rfl
  | succ n ih =>
    have next : (addr + 4).toNat = addr.toNat + 4 := by bv_omega
    rw [World.readWords, read_probe map above (by omega)]
    dsimp only
    rw [ih (by omega) (by omega)]
    rfl

theorem flags_return {δ : Type u} (dev : δ) (i : DataInsn) (k : Fin 5) :
    ((probed dev i k).handlePcWrite (probeEnv δ) probeReturn).flags =
      ⟨false, false, false, false⟩ := by
  have decode : excReturnDecode probeReturn = some ⟨true, true, true, .secure⟩ := by decide
  have read : (probed dev i k).world.readFrame (probeEnv δ) .secure
      ((probed dev i k).cpu.unstackSp ⟨true, true, true, .secure⟩) =
      (some ⟨0, 0, 0, 0, 0, 0, 0, 0⟩, (probed dev i k).world) := by
    have sp : (probed dev i k).cpu.unstackSp ⟨true, true, true, .secure⟩ = 0x20004000 := rfl
    rw [sp, World.readFrame, readWords_probe (i := i) rfl 8 (by decide) (by decide)]
    rfl
  rw [Machine.handlePcWrite, if_pos (by decide), Machine.excReturn_of_frame _ decode read]
  show Flags.ofXpsr (0 &&& ~~~0x1FF#32) = _
  decide

theorem probed_r {δ : Type u} (dev : δ) {insn : Word} (data : WideData insn)
    (defined : (decode32 insn).undefined = false) (k : Fin 5) (j : Reg) :
    (probed dev (.wide insn data defined) k).cpu.r j = probeReturn := by
  have sp : (probeCpu k).getActiveSp = probeReturn := by
    revert k
    decide
  have regs : (probed dev (.wide insn data defined) k).cpu.r =
      Function.update (Function.update (probeCpu k).r 13 (probeCpu k).getActiveSp) 15
        ((probePc + (4 : Byte).setWidth 32) ||| 1) := rfl
  have next : (probePc + (4 : Byte).setWidth 32) ||| 1 = probeReturn := by decide
  rw [regs, sp, next, Function.update_apply, Function.update_apply]
  split
  · rfl
  · rename_i other
    split
    · rfl
    · exact if_neg other

theorem not_right_of_return {δ : Type u} (dev : δ) (i : DataInsn) (k : Fin 5)
    (kind : i.decoded.kind = .movReg) (pc : i.decoded.rd = 15) :
    ((probe dev i k).mainPass (probeEnv δ) decode32 (quietHost δ)).flags ≠
      i.flagsAfter k (probed dev i k) := by
  cases i with
  | narrow hw1 data =>
    have narrow := (decode16_narrow data).2
    rw [show (decode16 hw1).kind = .movReg from kind] at narrow
    exact absurd narrow (by decide)
  | wide insn data defined =>
    have all := probed_r dev data defined k
    generalize same : DataInsn.wide insn data defined = i at kind pc all ⊢
    rw [Machine.mainPass_of_executed (executed_probe dev i k), Machine.flags_afterExecute]
    simp only [executeDecoded, kind, pc, if_true, all, flags_return]
    intro lost
    have negative : (i.flagsAfter k (probed dev i k)).n = true := by
      rw [flagsAfter, probed_flags]
      cases i.SetsFlags k with
      | false => rfl
      | true =>
        simp only [if_true, alu, kind, all]
        rfl
    rw [← lost] at negative
    cases negative

theorem conforms_of_flagsRight {δ : Type u} (dev : δ) {i : DataInsn} {k : Fin 5}
    (right : FlagsRight δ i k) : i.Conforms k = true := by
  have remaining : (probed dev i k).it.remaining = BitVec.ofNat 8 k := (probed_it k).1
  have after := right _ _ _ _ probePc (executed_probe dev i k) (probed_agree dev i k) remaining
  have stays : ¬ (i.decoded.kind = .movReg ∧ i.decoded.rd = 15) := fun is =>
    not_right_of_return dev i k is.1 is.2 after
  rw [Machine.mainPass_of_executed (executed_probe dev i k), Machine.flags_afterExecute,
    Machine.flags_executeDecoded i.decoded_kind stays, remaining] at after
  have table := (written_eq_iff (i.SetsFlags k) (probed_flags dev i k)).mp after
  rw [writes_decoded] at table
  exact (conforms_iff i k).mpr ⟨table, stays⟩

/-- In every machine an instruction leaves the flags as they have to be, exactly if its encoding and
its position say so. -/
theorem flagsRight_iff (δ : Type u) [Inhabited δ] (i : DataInsn) (k : Fin 5) :
    FlagsRight δ i k ↔ i.Conforms k = true :=
  ⟨conforms_of_flagsRight default, flagsRight_of_conforms⟩

theorem not_flagsRight_movs : ¬ ∀ (i : DataInsn) (k : Fin 5), FlagsRight Unit i k := fun right =>
  absurd (conforms_of_flagsRight () (right (.narrow 0x2001 (by decide)) 0)) (by decide)

end DataInsn

end M33mu
