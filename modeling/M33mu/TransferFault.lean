import M33mu.Board
import M33mu.Effects

namespace M33mu

open Execute

variable {δ : Type u} {env : Env δ} {f : FetchResult}

namespace Machine

def Reaches (loaded : List Reg) (m p : Machine δ) : Prop :=
  ∃ r w ts, (∀ i ∉ loaded, r i = m.cpu.r i) ∧
    p = { m with cpu := { m.cpu with r := r }, world := w, transfers := ts }

theorem Reaches.of_setReg {regs : List Reg} {reg : Reg} {v addr : Word} {w : World δ}
    {m p : Machine δ} (h : Reaches regs (((m.offer addr).withWorld w).setReg reg v) p) :
    Reaches (reg :: regs) m p := by
  obtain ⟨r, w', ts, keeps, rfl⟩ := h
  refine ⟨r, w', ts, fun i mem => ?_, rfl⟩
  rw [List.mem_cons, not_or] at mem
  exact (keeps i mem.2).trans (m.cpu.setReg_r_of_ne mem.1 v)

theorem loadRegs_refused {regs : List Reg} {m p : Machine δ} {addr a : Word}
    (h : (m.loadRegs env f regs addr).refused = some (a, p)) :
    m.loadRegs env f regs addr = ⟨a, false, p.memFault env f a false, some (a, p)⟩ ∧
      Reaches regs m p := by
  induction regs generalizing m addr with
  | nil => cases h
  | cons reg regs ih =>
    rcases read : m.world.read env m.cpu.secState addr 4 with ⟨_ | v, w⟩
    · simp only [loadRegs, offer, read] at h ⊢
      cases h
      exact ⟨rfl, m.cpu.r, w, a :: m.transfers, fun _ _ => rfl, rfl⟩
    · by_cases pc : reg = 15
      · by_cases exc : isExcReturn v = true
        · simp only [loadRegs, offer, read, pc, exc, if_true] at h
          cases h
        · simp only [loadRegs, offer, read, pc, exc, if_true, if_false, handlePcWrite,
            Bool.false_eq_true] at h ⊢
          exact ⟨(ih h).1, (ih h).2.of_setReg⟩
      · simp only [loadRegs, offer, read, pc, if_false] at h ⊢
        exact ⟨(ih h).1, (ih h).2.of_setReg⟩

theorem storeRegs_refused {regs : List Reg} {m p : Machine δ} {addr a : Word}
    (h : (m.storeRegs env f regs addr).refused = some (a, p)) :
    m.storeRegs env f regs addr = ⟨a, false, p.memFault env f a false, some (a, p)⟩ ∧
      Reaches [] m p := by
  induction regs generalizing m addr with
  | nil => cases h
  | cons reg regs ih =>
    simp only [storeRegs] at h ⊢
    split at h
    · rename_i w write
      cases h
      exact ⟨rfl, m.cpu.r, w, a :: m.transfers, fun _ _ => rfl, rfl⟩
    · rename_i w write
      obtain ⟨eq, r, w', ts, keeps, rfl⟩ := ih h
      exact ⟨eq, r, w', ts, keeps, rfl⟩

theorem storeRegs_of_not_refused {regs : List Reg} {m : Machine δ} {addr : Word}
    (h : (m.storeRegs env f regs addr).refused = none) :
    Reaches [] m (m.storeRegs env f regs addr).machine := by
  induction regs generalizing m addr with
  | nil => exact ⟨m.cpu.r, m.world, m.transfers, fun _ _ => rfl, rfl⟩
  | cons reg regs ih =>
    simp only [storeRegs] at h ⊢
    split at h
    · cases h
    · rename_i w write
      obtain ⟨r, w', ts, keeps, eq⟩ := ih h
      exact ⟨r, w', ts, keeps, eq⟩

theorem Reaches.trans {m p q : Machine δ} (h : Reaches [] m p) (h' : Reaches [] p q) :
    Reaches [] m q := by
  obtain ⟨r, w, ts, keeps, rfl⟩ := h
  obtain ⟨r', w', ts', keeps', rfl⟩ := h'
  exact ⟨r', w', ts', fun i mem => (keeps' i mem).trans (keeps i mem), rfl⟩

theorem regs_ne_nil_of_load {regs : List Reg} {m p : Machine δ} {addr a : Word}
    (h : (m.loadRegs env f regs addr).refused = some (a, p)) : regs ≠ [] := by
  rintro rfl
  cases h

theorem regs_ne_nil_of_store {regs : List Reg} {m p : Machine δ} {addr a : Word}
    (h : (m.storeRegs env f regs addr).refused = some (a, p)) : regs ≠ [] := by
  rintro rfl
  cases h

end Machine

def Cpu.entrySp (c : Cpu) : Word :=
  if c.usePspEntry then c.msp.get c.secState else c.msp.get c.secState - 32

theorem Cpu.msp_entry (c : Cpu) :
    (c.setBankSp c.secState c.usePspEntry (c.bankSp c.secState c.usePspEntry - 32)).msp.get
      c.secState = c.entrySp := by
  simp only [setBankSp, bankSp, entrySp]
  cases c.usePspEntry <;> simp

namespace TransferFault

variable (env f)

def Transfers (d : Decoded) : Prop :=
  d.kind = .push ∨ d.kind = .pop ∨ d.kind = .ldm ∨ d.kind = .stm

def transferred (d : Decoded) (m : Machine δ) : Machine.Transferred δ :=
  match d.kind with
  | .push => pushRegs env m f d
  | .pop => m.loadRegs env f (popList d) m.cpu.getActiveSp
  | .ldm => m.loadRegs env f (multiple m d).regs (multiple m d).start
  | _ => m.storeRegs env f (multiple m d).regs (multiple m d).start

def baseReg (d : Decoded) : Reg :=
  match d.kind with
  | .push | .pop => 13
  | _ => d.rn

structure Faults (d : Decoded) (m : Machine δ) (addr : Word) (p : Machine δ) : Prop where
  transfers : Transfers d
  running : m.done = false
  refused : (transferred env f d m).refused = some (addr, p)
  delivered : (p.toSys.raiseMemFault env f.pcFetch p.cpu.xpsr addr false).1 = true

variable {env f}

structure AsLeft (base : Reg) (left m : Machine δ) : Prop where
  pc : m.cpu.r 15 = left.cpu.r 15
  lr : m.cpu.r 14 = left.cpu.r 14
  sp : m.cpu.r 13 = left.cpu.r 13
  mode : m.cpu.mode = left.cpu.mode
  xpsr : m.cpu.xpsr = left.cpu.xpsr
  msp : m.cpu.msp = left.cpu.msp
  psp : m.cpu.psp = left.cpu.psp
  base : m.cpu.r base = left.cpu.r base
  transfers : m.transfers = left.transfers

theorem AsLeft.refl (base : Reg) (left : Machine δ) : AsLeft base left left :=
  ⟨rfl, rfl, rfl, rfl, rfl, rfl, rfl, rfl, rfl⟩

structure Left (m p left : Machine δ) : Prop where
  handler : left.cpu.mode = .handler
  secState : left.cpu.secState = m.cpu.secState
  msplim : left.cpu.msplim = m.cpu.msplim
  main : left.cpu.msp.get m.cpu.secState = m.cpu.entrySp
  sp : left.cpu.r 13 = m.cpu.entrySp
  lr : left.cpu.r 14 =
    excReturnEncode m.cpu.secState m.cpu.usePspEntry (m.cpu.mode == .thread)
  other : ∀ i, i ≠ 13 → i ≠ 14 → i ≠ 15 → left.cpu.r i = p.cpu.r i
  running : left.done = false

theorem left_of_delivered {loaded : List Reg} {m p : Machine δ} {addr : Word}
    (running : m.done = false) (h : Machine.Reaches loaded m p)
    (delivered : (p.toSys.raiseMemFault env f.pcFetch p.cpu.xpsr addr false).1 = true) :
    Left m p (p.memFault env f addr false) := by
  obtain ⟨r, w, ts, -, rfl⟩ := h
  simp only [Machine.memFault]
  generalize hr : Sys.raiseMemFault env _ _ _ _ _ = res at delivered ⊢
  have raised := hr ▸ Sys.raiseMemFault_raised env _ f.pcFetch _ addr false
  cases raised with
  | refused w' => cases delivered
  | entered num w' h =>
    obtain ⟨handler, sleeping, eventReg, rfl⟩ := h
    exact
      { handler := rfl
        secState := rfl
        msplim := rfl
        main := m.cpu.msp_entry
        sp := m.cpu.msp_entry
        lr := rfl
        other := fun i ne_sp ne_lr ne_pc => by
          simp [Machine.afterCall, Cpu.enterHandler, ne_sp, ne_lr, ne_pc]
        running := by simp [Machine.afterCall, running] }

def StackFaultRefused (env : Env δ) (f : FetchResult) (left : Machine δ) : Prop :=
  (left.toSys.raiseUsageFault env f.pcFetch left.cpu.xpsr Machine.ufsrStkof).1 = false

def Idle (env : Env δ) (f : FetchResult) (left : Machine δ) (value : Word) : Prop :=
  if Machine.spLimited left.cpu value then StackFaultRefused env f left
  else value = left.cpu.r 13

theorem transfers_setSp (x : Machine δ) (value : Word) :
    (x.setSp env f value).2.transfers = x.transfers := by
  simp only [Machine.setSp]
  split <;> rfl

theorem cpu_usageFault_of_refused {x : Machine δ} (refused : StackFaultRefused env f x) :
    (x.usageFault env f Machine.ufsrStkof).cpu = x.cpu := by
  have raised := Sys.raiseUsageFault_raised env x.toSys f.pcFetch x.cpu.xpsr Machine.ufsrStkof
  rw [StackFaultRefused] at refused
  simp only [Machine.usageFault]
  generalize Sys.raiseUsageFault env _ _ _ _ = res at raised refused ⊢
  cases raised with
  | refused w => rfl
  | entered num w h => cases refused

theorem refused_of_msp_usageFault {x : Machine δ} (handler : x.cpu.mode = .handler)
    (msp : (x.usageFault env f Machine.ufsrStkof).cpu.msp = x.cpu.msp) :
    StackFaultRefused env f x := by
  have raised := Sys.raiseUsageFault_raised env x.toSys f.pcFetch x.cpu.xpsr Machine.ufsrStkof
  simp only [Machine.usageFault, StackFaultRefused] at msp ⊢
  generalize Sys.raiseUsageFault env _ _ _ _ = res at raised msp ⊢
  cases raised with
  | refused w => rfl
  | entered num w h =>
    obtain ⟨start, sleeping, eventReg, rfl⟩ := h
    have main : x.cpu.entrySp = x.cpu.msp.get x.cpu.secState :=
      x.cpu.msp_entry.symm.trans (congrArg (·.get x.cpu.secState) msp)
    simp only [Cpu.entrySp, Cpu.usePspEntry, handler] at main
    grind

theorem setSp_asLeft_iff {x : Machine δ} (handler : x.cpu.mode = .handler)
    (sp : x.cpu.r 13 = x.cpu.msp.get x.cpu.secState) (value : Word) :
    AsLeft 13 x (x.setSp env f value).2 ↔ Idle env f x value := by
  simp only [Machine.setSp, Idle]
  split
  · constructor
    · exact fun same => refused_of_msp_usageFault handler same.msp
    · intro refused
      have cpu := cpu_usageFault_of_refused refused
      constructor
      case transfers => rfl
      all_goals rw [cpu]
  · constructor
    · intro same
      exact (Cpu.setActiveSp_r_13 x.cpu value).symm.trans same.sp
    · rintro rfl
      obtain ⟨top, low, valid, eq⟩ := x.cpu.exists_setActiveSp_eq (x.cpu.r 13)
      rw [eq, Cpu.usesPsp_of_handler handler, Function.update_eq_self]
      have msp : x.cpu.msp.set x.cpu.secState (x.cpu.r 13) = x.cpu.msp := by
        rw [sp, Banked.set_get_self]
      exact ⟨rfl, rfl, rfl, rfl, rfl, msp, rfl, rfl, rfl⟩

theorem sp_setSp_self {x : Machine δ} (handler : x.cpu.mode = .handler)
    (msp : (x.setSp env f (x.cpu.r 13)).2.cpu.msp = x.cpu.msp) :
    (x.setSp env f (x.cpu.r 13)).2.cpu.r 13 = x.cpu.r 13 := by
  simp only [Machine.setSp] at msp ⊢
  split at msp
  · rename_i limited
    rw [if_pos limited]
    exact congrArg (·.r 13) (cpu_usageFault_of_refused (refused_of_msp_usageFault handler msp))
  · rename_i unlimited
    rw [if_neg unlimited]
    exact Cpu.setActiveSp_r_13 _ _

theorem writeBack_asLeft_iff {x : Machine δ} (handler : x.cpu.mode = .handler)
    (sp : x.cpu.r 13 = x.cpu.msp.get x.cpu.secState) (base : Reg) (value : Word) :
    AsLeft base x (if base = 13 then (x.setReg base value).setSp env f ((x.setReg base value).cpu.r 13)
        else (.ok, x.setReg base value)).2 ↔
      value = x.cpu.r base ∧ (base = 13 → Idle env f x value) := by
  have written : (x.setReg base value).cpu.r base = value := Cpu.setReg_r_self _ _ _
  by_cases left : value = x.cpu.r base
  · have same : x.setReg base value = x := by
      rw [left]
      simp [Machine.setReg, Cpu.setReg]
    rw [same]
    split
    · rename_i eq
      rw [eq] at left ⊢
      rw [setSp_asLeft_iff handler sp, left]
      simp
    · rename_i ne
      exact iff_of_true (.refl _ _) ⟨left, fun eq => absurd eq ne⟩
  · refine iff_of_false (fun same => left ?_) (fun h => left h.1)
    split at same
    · rename_i eq
      subst eq
      have unmoved : ((x.setReg 13 value).setSp env f ((x.setReg 13 value).cpu.r 13)).2.cpu.r 13 = _ :=
        sp_setSp_self handler same.msp
      exact written.symm.trans (unmoved.symm.trans same.base)
    · exact written.symm.trans same.base

/-- The low registers of a `PUSH` are refused a word. -/
def LowRefused (env : Env δ) (f : FetchResult) (d : Decoded) (m : Machine δ) : Prop :=
  (m.storeRegs env f (lowRegList d.imm) (pushSp m d)).refused ≠ none

def WritesBack (d : Decoded) (m : Machine δ) : Prop :=
  d.imm.getLsbD 16 = true ∧ ¬ (d.kind = .ldm ∧ d.rn ∈ (multiple m d).regs)

theorem Left.active {m p left : Machine δ} (h : Left m p left) :
    left.cpu.r 13 = left.cpu.msp.get left.cpu.secState := by
  rw [h.sp, h.secState, h.main]

theorem transfers_storeRegs_singleton (x : Machine δ) (reg : Reg) (addr : Word) :
    (x.storeRegs env f [reg] addr).machine.transfers = addr :: x.transfers := by
  simp only [Machine.storeRegs]
  split <;> rfl

theorem transfers_execPush (m : Machine δ) (d : Decoded) :
    (execPush env m f d).2.transfers = (pushRegs env m f d).machine.transfers := by
  simp only [execPush]
  split
  · rfl
  · exact transfers_setSp _ _

theorem pushRegs_refused {d : Decoded} {m p : Machine δ} {addr : Word}
    (left : (p.memFault env f addr false).done = false)
    (h : (pushRegs env m f d).refused = some (addr, p)) :
    (LowRefused env f d m ∧ d.imm.getLsbD 8 = true ∧
      (pushRegs env m f d).machine.transfers = addr :: (p.memFault env f addr false).transfers) ∨
    (¬ (LowRefused env f d m ∧ d.imm.getLsbD 8 = true) ∧
      (pushRegs env m f d).machine = p.memFault env f addr false) := by
  simp only [LowRefused]
  cases low : (m.storeRegs env f (lowRegList d.imm) (pushSp m d)).refused with
  | none =>
    refine .inr ⟨by simp, ?_⟩
    simp only [pushRegs, low, Option.none_or] at h ⊢
    split at h
    · rename_i slot
      simp only [slot, if_true, (Machine.storeRegs_refused h).1]
    · rw [low] at h
      cases h
  | some at_low =>
    obtain ⟨a, q⟩ := at_low
    have eq := (Machine.storeRegs_refused low).1
    cases lr : d.imm.getLsbD 8 with
    | false =>
      simp only [pushRegs, eq, lr, Bool.and_false, Bool.false_eq_true, if_false] at h ⊢
      cases h
      exact .inr ⟨by simp, rfl⟩
    | true =>
      simp only [pushRegs, eq, lr, Bool.and_true, Option.some_or] at h ⊢
      have same : (a, q) = (addr, p) := by split at h <;> exact Option.some.inj h
      cases same
      exact .inl ⟨by simp, trivial, by simp [left, transfers_storeRegs_singleton]⟩

theorem reaches_of_pushRegs {d : Decoded} {m p : Machine δ} {addr : Word}
    (h : (pushRegs env m f d).refused = some (addr, p)) : Machine.Reaches [] m p := by
  cases low : (m.storeRegs env f (lowRegList d.imm) (pushSp m d)).refused with
  | none =>
    have first := Machine.storeRegs_of_not_refused low
    simp only [pushRegs, low, Option.none_or] at h
    split at h
    · exact first.trans (Machine.storeRegs_refused h).2
    · rw [low] at h
      cases h
  | some at_low =>
    obtain ⟨a, q⟩ := at_low
    have same : (a, q) = (addr, p) := by
      simp only [pushRegs, low, Option.some_or] at h
      split at h
      · exact Option.some.inj h
      · rw [low] at h
        exact Option.some.inj h
    cases same
    exact (Machine.storeRegs_refused low).2

theorem asLeft_push_iff {d : Decoded} {m p : Machine δ} {addr : Word}
    (left : Left m p (p.memFault env f addr false))
    (refused : (pushRegs env m f d).refused = some (addr, p)) :
    AsLeft 13 (p.memFault env f addr false) (execPush env m f d).2 ↔
      ¬ (LowRefused env f d m ∧ d.imm.getLsbD 8 = true) ∧
        Idle env f (p.memFault env f addr false) (pushSp m d) := by
  obtain ⟨low, slot, goesOn⟩ | ⟨last, stops⟩ := pushRegs_refused left.running refused
  · refine iff_of_false (fun same => ?_) (fun h => h.1 ⟨low, slot⟩)
    have length := congrArg List.length (same.transfers.symm.trans (transfers_execPush m d))
    rw [goesOn, List.length_cons] at length
    omega
  · simp only [execPush, stops, left.running, Bool.false_eq_true, if_false, last]
    rw [setSp_asLeft_iff left.handler left.active]
    simp

theorem asLeft_multiple_iff {d : Decoded} {m p : Machine δ} {addr : Word}
    (left : Left m p (p.memFault env f addr false)) (some_regs : (multiple m d).regs ≠ [])
    (loop : (if d.kind = .ldm
        then m.loadRegs env f (multiple m d).regs (multiple m d).start
        else m.storeRegs env f (multiple m d).regs (multiple m d).start) =
      ⟨addr, false, p.memFault env f addr false, some (addr, p)⟩) :
    AsLeft d.rn (p.memFault env f addr false) (execMultiple env m f d).2 ↔
      (WritesBack d m → (multiple m d).written = (p.memFault env f addr false).cpu.r d.rn ∧
        (d.rn = 13 → Idle env f (p.memFault env f addr false) (multiple m d).written)) := by
  have wbit : (multiple m d).wbit = d.imm.getLsbD 16 := rfl
  simp only [execMultiple, some_regs, loop, left.running, if_false, Bool.not_false, Bool.and_true,
    WritesBack, wbit]
  have writeBack : AsLeft d.rn _ (if d.rn = 13 then Machine.setSp env _ f _ else _).2 ↔ _ :=
    writeBack_asLeft_iff left.handler left.active d.rn (multiple m d).written
  cases d.imm.getLsbD 16 with
  | false => simpa using AsLeft.refl _ _
  | true =>
    by_cases loaded : d.kind = .ldm ∧ d.rn ∈ (multiple m d).regs
    · simpa [loaded] using AsLeft.refl _ _
    · simp only [loaded, if_true, if_false, not_false_eq_true, true_and, forall_const]
      exact writeBack

theorem written_ne_base {m : Machine δ} {d : Decoded} (some_regs : (multiple m d).regs ≠ []) :
    (multiple m d).written ≠ m.cpu.r d.rn := by
  have pos := List.length_pos_iff.mpr some_regs
  have bound : (multiple m d).regs.length ≤ 16 := List.length_filter_le _ _
  have bytes : 4 * BitVec.ofNat 32 (multiple m d).regs.length ≠ 0 := by
    intro zero
    have nat := congrArg BitVec.toNat zero
    simp [BitVec.toNat_mul] at nat
    omega
  have cases : (multiple m d).written =
        m.cpu.r d.rn - 4 * BitVec.ofNat 32 (multiple m d).regs.length ∨
      (multiple m d).written = m.cpu.r d.rn + 4 * BitVec.ofNat 32 (multiple m d).regs.length := by
    simp only [multiple]
    split
    · exact .inl rfl
    · exact .inr rfl
  intro same
  grind

def Settles (env : Env δ) (f : FetchResult) (m left : Machine δ) (value : Word) : Prop :=
  if m.cpu.msplim.get m.cpu.secState ≠ 0 ∧ value < m.cpu.msplim.get m.cpu.secState
  then StackFaultRefused env f left
  else value = m.cpu.entrySp

def baseLeft (m left : Machine δ) (base : Reg) : Option Word :=
  if base = 13 then some m.cpu.entrySp
  else if base = 14 then
    some (excReturnEncode m.cpu.secState m.cpu.usePspEntry (m.cpu.mode == .thread))
  else if base = 15 then some (left.cpu.r 15)
  else none

def Harmless (env : Env δ) (f : FetchResult) (d : Decoded) (m : Machine δ) (addr : Word)
    (left : Machine δ) : Prop :=
  match d.kind with
  | .push => ¬ (LowRefused env f d m ∧ d.imm.getLsbD 8 = true) ∧ Settles env f m left (pushSp m d)
  | .pop => Settles env f m left addr
  | _ => WritesBack d m → (multiple m d).written ∈ baseLeft m left d.rn ∧
      (d.rn = 13 → Settles env f m left (multiple m d).written)

theorem Left.idle_iff {m p left : Machine δ} (h : Left m p left) (value : Word) :
    Idle env f left value ↔ Settles env f m left value := by
  have limit : left.cpu.getActiveSplim = m.cpu.msplim.get m.cpu.secState := by
    simp [Cpu.getActiveSplim, Cpu.usesPsp_of_handler h.handler, h.msplim, h.secState]
  simp only [Idle, Settles, Machine.spLimited, limit, h.sp, Bool.and_eq_true, bne_iff_ne,
    decide_eq_true_eq]

theorem mem_baseLeft_iff {loaded : List Reg} {d : Decoded} {m p left : Machine δ}
    (h : Left m p left) (reaches : Machine.Reaches loaded m p) (spared : d.rn ∉ loaded)
    (some_regs : (multiple m d).regs ≠ []) :
    (multiple m d).written ∈ baseLeft m left d.rn ↔ (multiple m d).written = left.cpu.r d.rn := by
  simp only [baseLeft]
  split
  · rename_i sp
    rw [sp, h.sp, Option.mem_some_iff, eq_comm]
  split
  · rename_i lr
    rw [lr, h.lr, Option.mem_some_iff, eq_comm]
  split
  · rename_i pc
    rw [pc, Option.mem_some_iff, eq_comm]
  · rename_i ne_sp ne_lr ne_pc
    obtain ⟨r, w, ts, keeps, rfl⟩ := reaches
    rw [h.other _ ne_sp ne_lr ne_pc]
    refine iff_of_false nofun fun same => written_ne_base some_regs ?_
    exact same.trans (keeps d.rn spared)

theorem harmless_multiple_iff {loaded : List Reg} {d : Decoded} {m p left : Machine δ}
    (h : Left m p left) (reaches : Machine.Reaches loaded m p)
    (spared : WritesBack d m → d.rn ∉ loaded) (some_regs : (multiple m d).regs ≠ []) :
    (WritesBack d m → (multiple m d).written = left.cpu.r d.rn ∧
      (d.rn = 13 → Idle env f left (multiple m d).written)) ↔
    (WritesBack d m → (multiple m d).written ∈ baseLeft m left d.rn ∧
      (d.rn = 13 → Settles env f m left (multiple m d).written)) := by
  refine forall_congr' fun writes => ?_
  rw [mem_baseLeft_iff h reaches (spared writes) some_regs, h.idle_iff]

/-- After a delivered fault of a `PUSH`, `POP`, `LDM` or `STM`, what the fault entry left is still
there exactly where the steps after the transfer loop happen to change nothing. -/
theorem fault_entry_survives_iff {d : Decoded} {m p : Machine δ} {addr : Word}
    (h : Faults env f d m addr p) :
    AsLeft (baseReg d) (p.memFault env f addr false) (executeDecoded env f d m).2 ↔
      Harmless env f d m addr (p.memFault env f addr false) := by
  obtain ⟨transfers, running, refused, delivered⟩ := h
  obtain kind | kind | kind | kind := transfers
  · simp only [transferred, kind] at refused
    have left := left_of_delivered running (reaches_of_pushRegs refused) delivered
    simp only [baseReg, Harmless, kind, executeDecoded]
    rw [asLeft_push_iff left refused, left.idle_iff]
  · simp only [transferred, kind] at refused
    obtain ⟨loop, reaches⟩ := Machine.loadRegs_refused refused
    have left := left_of_delivered running reaches delivered
    simp only [baseReg, Harmless, kind, executeDecoded, execPop, loop, Bool.false_eq_true, if_false]
    rw [setSp_asLeft_iff left.handler left.active, left.idle_iff]
  · simp only [transferred, kind] at refused
    obtain ⟨loop, reaches⟩ := Machine.loadRegs_refused refused
    have left := left_of_delivered running reaches delivered
    simp only [baseReg, Harmless, kind, executeDecoded]
    have some_regs := Machine.regs_ne_nil_of_load refused
    rw [asLeft_multiple_iff left some_regs (by rw [if_pos kind]; exact loop)]
    exact harmless_multiple_iff left reaches (fun writes mem => writes.2 ⟨kind, mem⟩) some_regs
  · simp only [transferred, kind] at refused
    obtain ⟨loop, reaches⟩ := Machine.storeRegs_refused refused
    have left := left_of_delivered running reaches delivered
    simp only [baseReg, Harmless, kind, executeDecoded]
    have some_regs := Machine.regs_ne_nil_of_store refused
    rw [asLeft_multiple_iff left some_regs (by rw [if_neg (by simp [kind])]; exact loop)]
    exact harmless_multiple_iff left reaches (fun _ => List.not_mem_nil) some_regs

def atEndOfRam : Machine Unit where
  cpu := ((Board.cpu.setMsp .secure 0x20010000).setReg 13 0x20010000).setReg 0 0x20010000
  world := Board.world
  trace := []
  it := ⟨0, 0, 0⟩
  done := false
  resetAgain := false
  transfers := []

def refusedThere : Machine Unit :=
  (atEndOfRam.offer 0x20010000).withWorld
    (atEndOfRam.world.read Board.env .secure 0x20010000 4).2

/-- `LDM r0, {r1}`. -/
def ldmR1 : Decoded := { Decoded.default 4 0xE8900002 with kind := .ldm, imm := 0x01000002 }

def popR0 : Decoded := { Decoded.default 2 0xBC01 with kind := .pop, imm := 0x1 }

theorem fault_entry_survives_ldm :
    AsLeft (baseReg ldmR1)
        (refusedThere.memFault Board.env ⟨0xE8900002, 4, false, 0, 0x100⟩ 0x20010000 false)
        (executeDecoded Board.env ⟨0xE8900002, 4, false, 0, 0x100⟩ ldmR1 atEndOfRam).2 ↔
      Harmless Board.env ⟨0xE8900002, 4, false, 0, 0x100⟩ ldmR1 atEndOfRam 0x20010000
        (refusedThere.memFault Board.env ⟨0xE8900002, 4, false, 0, 0x100⟩ 0x20010000 false) :=
  fault_entry_survives_iff
    { transfers := .inr (.inr (.inl rfl))
      running := rfl
      refused := rfl
      delivered := by decide +kernel }

theorem pop_moves_the_handler_stack :
    ¬ ∀ (f : FetchResult) (d : Decoded) (m p : Machine Unit) (addr : Word),
      Faults Board.env f d m addr p →
        AsLeft (baseReg d) (p.memFault Board.env f addr false)
          (executeDecoded Board.env f d m).2 := by
  intro h
  have same := h ⟨0xBC01, 2, false, 0, 0x100⟩ popR0 atEndOfRam refusedThere 0x20010000
    { transfers := .inr (.inl rfl)
      running := rfl
      refused := rfl
      delivered := by decide +kernel }
  have sp := same.sp
  revert sp
  decide +kernel

end TransferFault

end M33mu
