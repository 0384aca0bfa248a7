import M33mu.Board
import M33mu.Effects

namespace M33mu

open Execute

namespace Cpu

theorem resume_r_congr {c c' : Cpu} (h : ∀ i, i ≠ 13 → i ≠ 14 → c'.r i = c.r i)
    (info : ExcReturnInfo) (f : Frame) (sp : Word) :
    (c'.resume info f sp).r = (c.resume info f sp).r := by
  funext i
  simp only [resume]
  split <;> first | rfl | exact h _ ‹_› ‹_›

theorem msp_resume_of_other (c : Cpu) {info : ExcReturnInfo} {sec : SecState}
    (other : ¬ (info.usePsp = false ∧ info.targetSec = sec)) (f : Frame) (sp : Word) :
    (c.resume info f sp).msp.get sec = c.msp.get sec := by
  simp only [resume, setBankSp]
  split
  · rfl
  · rename_i main
    exact Banked.get_set_of_ne _ (fun eq => other ⟨by simpa using main, eq.symm⟩) _

end Cpu

variable {δ : Type u} {env : Env δ} {f : FetchResult}

namespace Machine

theorem loadRegs_append {low : List Reg} (pc : 15 ∉ low) {m : Machine δ} {addr : Word}
    {vs : List Word} {w : World δ}
    (reads : m.world.readWords env m.cpu.secState addr low.length = (some vs, w)) :
    ∃ r ts, ∀ rest, m.loadRegs env f (low ++ rest) addr =
      { m with cpu := { m.cpu with r := r }, world := w, transfers := ts }.loadRegs env f rest
        (addr + 4 * BitVec.ofNat 32 low.length) := by
  induction low generalizing m addr vs with
  | nil =>
    simp only [List.length_nil, World.readWords] at reads
    cases reads
    exact ⟨m.cpu.r, m.transfers, fun rest => by simp⟩
  | cons reg low ih =>
    rw [List.length_cons, World.readWords] at reads
    split at reads
    · cases reads
    · rename_i v w1 read
      rcases tail : w1.readWords env m.cpu.secState (addr + 4) low.length with ⟨_ | vs', w2⟩
      · rw [tail] at reads
        cases reads
      · rw [tail] at reads
        cases reads
        have ne : reg ≠ 15 := fun eq => pc (eq ▸ .head _)
        obtain ⟨r, ts, eq⟩ := ih (m := ((m.offer addr).withWorld w1).setReg reg v)
          (fun mem => pc (.tail _ mem)) tail
        refine ⟨r, ts, fun rest => ?_⟩
        have next : addr + 4 * BitVec.ofNat 32 (low.length + 1) =
            addr + 4 + 4 * BitVec.ofNat 32 low.length := by
          rw [BitVec.ofNat_add]
          grind
        simp only [List.cons_append, loadRegs, offer, read, ne, if_false, List.length_cons, next]
        exact eq rest

end Machine

namespace HandlerReturn

/-- The instructions that load from the stack of a handler and take what they load off it. -/
inductive Exit (d : Decoded) : Prop
  | pop (kind : d.kind = .pop)
  | ldm (kind : d.kind = .ldm) (sp : d.rn = 13) (writeBack : d.imm.getLsbD 16 = true)
    (increment : d.imm >>> 24 &&& 0x3 ≠ 2)
  | ldr (kind : d.kind = .ldrPostImm) (sp : d.rn = 13) (pc : d.rd = 15)

def loaded (d : Decoded) : List Reg :=
  match d.kind with
  | .pop => popList d
  | .ldm => regList (d.imm &&& 0xffff)
  | _ => [15]

def below (d : Decoded) : List Reg := (loaded d).filter (· ≠ 15)

def bytes (d : Decoded) : Word :=
  match d.kind with
  | .ldrPostImm => d.imm
  | _ => 4 * BitVec.ofNat 32 (loaded d).length

variable (env f)

def loadedLr (d : Decoded) (m : Machine δ) : Machine δ :=
  let t := m.loadRegs env f (below d ++ [14]) m.cpu.getActiveSp
  { t.machine with cpu := t.machine.cpu.setActiveSp (m.cpu.getActiveSp + bytes d) }

/-- The load into LR and `BX LR`. -/
def viaLr (d : Decoded) (m : Machine δ) : Machine δ :=
  (execBx env (loadedLr env f d m) f { d with rm := 14 }).2

/-- A handler that ends by loading an `EXC_RETURN` value which, through LR, returns. -/
structure Returns (d : Decoded) (m : Machine δ) (excRet : Word) : Prop where
  handler : m.cpu.mode = .handler
  sp : m.cpu.r 13 = m.cpu.getActiveSp
  running : m.done = false
  exit : Exit d
  pc : 15 ∈ loaded d
  loads : ∃ vs u, m.world.readWords env m.cpu.secState m.cpu.getActiveSp (below d).length =
      (some vs, u) ∧
    (u.read env m.cpu.secState (m.cpu.getActiveSp + 4 * BitVec.ofNat 32 (below d).length) 4).1 =
      some excRet
  returns : ((loadedLr env f d m).toSys.excReturnUnstack env excRet).1 = true

/-- The same registers, mode, security state and stack pointers, and whether the emulation goes
on. -/
structure SameContext (m m' : Machine δ) : Prop where
  r : m.cpu.r = m'.cpu.r
  mode : m.cpu.mode = m'.cpu.mode
  secState : m.cpu.secState = m'.cpu.secState
  msp : m.cpu.msp = m'.cpu.msp
  psp : m.cpu.psp = m'.cpu.psp
  done : m.done = m'.done

variable {env f}

theorem filter_append_pc {regs : List Reg} (sorted : regs.Pairwise (· < ·)) (pc : 15 ∈ regs) :
    regs.filter (· ≠ 15) ++ [15] = regs := by
  induction regs with
  | nil => cases pc
  | cons reg regs ih =>
    rw [List.pairwise_cons] at sorted
    by_cases eq : reg = 15
    · have last : regs = [] := by
        refine List.eq_nil_iff_forall_not_mem.mpr fun next mem => ?_
        have above : reg < next := sorted.1 next mem
        rw [eq] at above
        exact absurd above (Fin.not_lt.mpr (Fin.le_last next))
      simp [last, eq]
    · have pc' : 15 ∈ regs := (List.mem_cons.mp pc).resolve_left (Ne.symm eq)
      rw [List.filter_cons_of_pos (by simpa using eq), List.cons_append, ih sorted.2 pc']

theorem below_append {d : Decoded} (pc : 15 ∈ loaded d) : below d ++ [15] = loaded d := by
  refine filter_append_pc ?_ pc
  have sorted := List.pairwise_lt_finRange 16
  simp only [loaded]
  split
  · refine List.pairwise_append.mpr ⟨sorted.filter _, by split <;> simp, fun low mem last mem' => ?_⟩
    have bound : low < 8 ∧ d.imm.getLsbD low = true := by
      simpa [lowRegList] using (List.mem_filter.mp mem).2
    split at mem' <;> simp at mem'
    exact mem' ▸ Fin.lt_trans bound.1 (by decide)
  · exact sorted.filter _
  · simp

/-- The machine before an exception return by the PC, and by LR: they differ in LR, the stack
pointer and what it was raised by. -/
structure Raised (sp n : Word) (m m' : Machine δ) : Prop where
  r : ∀ i, i ≠ 13 → i ≠ 14 → m'.cpu.r i = m.cpu.r i
  msp : m'.cpu.msp = m.cpu.msp.set m.cpu.secState (sp + n)
  sp : m.cpu.msp.get m.cpu.secState = sp
  psp : m'.cpu.psp = m.cpu.psp
  exc : m'.cpu.exc = m.cpu.exc
  control : m'.cpu.control = m.cpu.control
  secState : m'.cpu.secState = m.cpu.secState
  mode : m'.cpu.mode = m.cpu.mode
  world : m'.world = m.world
  done : m'.done = false
  running : m.done = false

def Recorded (c : Cpu) (info : ExcReturnInfo) : Prop :=
  ∃ rec ∈ c.exc.pop.1, rec.sec = info.targetSec

def SameStack (c : Cpu) (info : ExcReturnInfo) : Prop :=
  info.usePsp = false ∧ info.targetSec = c.secState

theorem Raised.bankSp {sp n : Word} {m m' : Machine δ} (h : Raised sp n m m')
    {info : ExcReturnInfo} (other : ¬ SameStack m.cpu info) :
    m'.cpu.bankSp info.targetSec info.usePsp = m.cpu.bankSp info.targetSec info.usePsp := by
  simp only [Cpu.bankSp, h.psp, h.msp]
  split
  · rfl
  · rename_i msp
    exact Banked.get_set_of_ne _ (fun eq => other ⟨by simpa using msp, eq⟩) _

theorem Raised.unstackSp {sp n : Word} {m m' : Machine δ} (h : Raised sp n m m')
    {info : ExcReturnInfo} (own : SameStack m.cpu info → Recorded m.cpu info) :
    m'.cpu.unstackSp info = m.cpu.unstackSp info := by
  by_cases stack : SameStack m.cpu info
  · obtain ⟨rec, top, sec⟩ := own stack
    simp [Cpu.unstackSp, h.exc, show m.cpu.exc.pop.1 = some rec from top, sec]
  · simp only [Cpu.unstackSp, h.exc, h.bankSp stack]

theorem Raised.unstackSp_own {sp n : Word} {m m' : Machine δ} (h : Raised sp n m m')
    {info : ExcReturnInfo} (own : SameStack m.cpu info) (unrecorded : ¬ Recorded m.cpu info) :
    m.cpu.unstackSp info = sp ∧ m'.cpu.unstackSp info = sp + n := by
  have bank (c : Cpu) (exc : c.exc = m.cpu.exc) :
      c.unstackSp info = c.bankSp info.targetSec info.usePsp := by
    simp only [Cpu.unstackSp, exc]
    split
    · rename_i rec top
      exact if_neg fun sec => unrecorded ⟨rec, top, sec⟩
    · rfl
  rw [bank _ rfl, bank _ h.exc]
  simp [Cpu.bankSp, own.1, own.2, h.msp, h.sp]

theorem excReturn_of_running {m : Machine δ} {excRet : Word} {info : ExcReturnInfo}
    (hd : excReturnDecode excRet = some info) (running : (m.excReturn env excRet).done = false) :
    ∃ frame w, m.world.readFrame env info.targetSec (m.cpu.unstackSp info) = (some frame, w) := by
  cases ok : (m.toSys.excReturnUnstack env excRet).1 with
  | false => simp [Machine.done_excReturn_of_failed env ok] at running
  | true =>
    obtain ⟨info', frame, w, hd', read⟩ := Sys.exists_frame_of_excReturnUnstack env ok
    cases hd.symm.trans hd'
    exact ⟨frame, w, read⟩

theorem sameContext_excReturn_iff {sp n excRet : Word} {m m' : Machine δ} (h : Raised sp n m m')
    (raised : n ≠ 0) {info : ExcReturnInfo} (hd : excReturnDecode excRet = some info)
    (ok : (m'.toSys.excReturnUnstack env excRet).1 = true) :
    SameContext (m.excReturn env excRet) (m'.excReturn env excRet) ↔
      SameStack m.cpu info ∧ Recorded m.cpu info := by
  obtain ⟨info', frame, w, hd', read⟩ := Sys.exists_frame_of_excReturnUnstack env ok
  cases hd.symm.trans hd'
  have eq' := Machine.excReturn_of_frame env hd read
  constructor
  · intro same
    obtain ⟨frame₀, w₀, read₀⟩ := excReturn_of_running hd (same.done.trans (by rw [eq']; exact h.done))
    rw [Machine.excReturn_of_frame env hd read₀, eq'] at same
    have active : m.cpu.unstackSp info + 32 = m'.cpu.unstackSp info + 32 := congrFun same.r 13
    by_cases own : SameStack m.cpu info
    · refine ⟨own, Classical.byContradiction fun unrecorded => raised ?_⟩
      obtain ⟨at_sp, at_raised⟩ := h.unstackSp_own own unrecorded
      rw [at_sp, at_raised] at active
      grind
    · have main : m.cpu.msp.get m.cpu.secState = m'.cpu.msp.get m.cpu.secState := by
        have msp := congrArg (·.get m.cpu.secState) same.msp
        rw [← Cpu.msp_resume_of_other { m.cpu with exc := m.cpu.exc.pop.2 } own frame₀ _,
          ← Cpu.msp_resume_of_other { m'.cpu with exc := m'.cpu.exc.pop.2 } own frame _]
        exact msp
      rw [h.msp, Banked.get_set_self, h.sp] at main
      exact absurd (by grind) raised
  · rintro ⟨own, recorded⟩
    rw [h.unstackSp fun _ => recorded] at read eq'
    rw [h.world] at read
    rw [Machine.excReturn_of_frame env hd read, eq']
    exact
      { r := (Cpu.resume_r_congr h.r info frame _).symm
        mode := rfl
        secState := rfl
        msp := by simp [Machine.syncIt, Cpu.resume, Cpu.setBankSp, own.1, own.2, h.msp]
        psp := by simp [Machine.syncIt, Cpu.resume, Cpu.setBankSp, own.1, h.psp]
        done := h.running.trans h.done.symm }

def backOnPsp (c : Cpu) (info : ExcReturnInfo) : Bool :=
  info.toThread && (c.control.get info.targetSec).getLsbD 1

def BackOnHandlerStack (c : Cpu) (info : ExcReturnInfo) : Prop :=
  backOnPsp c info = false ∧ info.targetSec = c.secState

def limitBack (c : Cpu) (info : ExcReturnInfo) : Word :=
  if backOnPsp c info then c.psplim.get info.targetSec else c.msplim.get info.targetSec

/-- What the write-back of an `LDR` changes after the return is as the return left it. -/
structure Harmless (c : Cpu) (info : ExcReturnInfo) (value : Word) : Prop where
  recorded : SameStack c info → Recorded c info
  limit : limitBack c info = 0 ∨ limitBack c info ≤ value
  top : value = c.unstackSp info + 32
  own : SameStack c info ∨ BackOnHandlerStack c info ∨ c.msp.get c.secState = value
  active : backOnPsp c info = info.usePsp ∨ BackOnHandlerStack c info ∨
    c.bankSp info.targetSec (backOnPsp c info) = value

/-- Writing the unstacked and then the active stack pointer, against the handler's and then the
unstacked one. -/
theorem setBankSp_iff (c : Cpu) (sec cur : SecState) (unstacked active : Bool) (v : Word) :
    (((c.setBankSp sec unstacked v).setBankSp sec active v).msp =
        ((c.setBankSp cur false v).setBankSp sec unstacked v).msp ∧
      ((c.setBankSp sec unstacked v).setBankSp sec active v).psp =
        ((c.setBankSp cur false v).setBankSp sec unstacked v).psp) ↔
      ((unstacked = false ∧ sec = cur) ∨ (active = false ∧ sec = cur) ∨ c.msp.get cur = v) ∧
        (active = unstacked ∨ (active = false ∧ sec = cur) ∨ c.bankSp sec active = v) := by
  obtain ⟨_, _, _, _, _, ⟨mns, ms⟩, ⟨pns, ps⟩⟩ := c
  cases sec <;> cases cur <;> cases unstacked <;> cases active <;>
    simp [Cpu.setBankSp, Cpu.bankSp, Banked.set, eq_comm, and_comm]

theorem usesPsp_resume (c : Cpu) (info : ExcReturnInfo) (frame : Frame) (sp : Word) :
    (c.resume info frame sp).usesPsp = backOnPsp c info := by
  simp only [Cpu.usesPsp, Cpu.controlSpSel, Cpu.resume, Cpu.setBankSp, backOnPsp]
  cases info.toThread <;> rfl

theorem spLimited_resume (c : Cpu) (info : ExcReturnInfo) (frame : Frame) (sp value : Word) :
    Machine.spLimited (c.resume info frame sp) value = false ↔
      limitBack c info = 0 ∨ limitBack c info ≤ value := by
  have limited (limit : Word) : (limit != 0 && value < limit) = false ↔
      limit = 0 ∨ limit ≤ value := by
    rw [Bool.and_eq_false_iff, bne_eq_false_iff_eq, decide_eq_false_iff_not, BitVec.not_lt]
  rw [← limited, limitBack, ← usesPsp_resume c info frame sp]
  rfl

theorem setRegOrSp_excReturn {excRet value : Word} {m : Machine δ} {info : ExcReturnInfo}
    {frame : Frame} {w : World δ} (hd : excReturnDecode excRet = some info)
    (read : m.world.readFrame env info.targetSec (m.cpu.unstackSp info) = (some frame, w))
    (limit : limitBack m.cpu info = 0 ∨ limitBack m.cpu info ≤ value) :
    ((m.excReturn env excRet).setRegOrSp env f 13 value).2 =
      { m.excReturn env excRet with cpu := (m.excReturn env excRet).cpu.setActiveSp value } := by
  have limit' : Machine.spLimited (m.excReturn env excRet).cpu value = false := by
    rw [Machine.excReturn_of_frame env hd read]
    exact (spLimited_resume _ info frame _ value).mpr limit
  simp [Machine.setRegOrSp, Machine.setSp, limit']

theorem setActiveSp_resume_iff {c b : Cpu} {info : ExcReturnInfo} {v : Word}
    (r : ∀ i, i ≠ 13 → i ≠ 14 → b.r i = c.r i) (msp : b.msp = c.msp.set c.secState v)
    (psp : b.psp = c.psp) (frame : Frame) (s : Word) :
    (((c.resume info frame s).setActiveSp v).r = (b.resume info frame s).r ∧
      ((c.resume info frame s).setActiveSp v).msp = (b.resume info frame s).msp ∧
      ((c.resume info frame s).setActiveSp v).psp = (b.resume info frame s).psp) ↔
      v = s + 32 ∧ (SameStack c info ∨ BackOnHandlerStack c info ∨ c.msp.get c.secState = v) ∧
        (backOnPsp c info = info.usePsp ∨ BackOnHandlerStack c info ∨
          c.bankSp info.targetSec (backOnPsp c info) = v) := by
  obtain ⟨top, low, valid, eq⟩ := (c.resume info frame s).exists_setActiveSp_eq v
  rw [usesPsp_resume] at eq
  have loaded : Function.update (c.resume info frame s).r 13 v = (b.resume info frame s).r ↔
      v = s + 32 := by
    rw [Cpu.resume_r_congr r, Function.update_eq_iff]
    exact ⟨fun h => h.1, fun h => ⟨h, fun _ _ => rfl⟩⟩
  have banks := setBankSp_iff c info.targetSec c.secState info.usePsp (backOnPsp c info) v
  simp only [eq, loaded, and_congr_right_iff]
  rintro rfl
  simp only [SameStack, BackOnHandlerStack, Cpu.resume, Cpu.setBankSp, msp, psp] at banks ⊢
  exact banks

theorem running_of_setRegOrSp {m : Machine δ} {value : Word}
    (running : (m.setRegOrSp env f 13 value).2.done = false) :
    m.done = false ∧ Machine.spLimited m.cpu value = false := by
  simp only [Machine.setRegOrSp, if_true, Machine.setSp] at running
  split at running
  · cases running
  · rename_i unlimited
    exact ⟨running, by simpa using unlimited⟩

theorem sameContext_writeBack_iff {sp n excRet : Word} {m m' : Machine δ} (h : Raised sp n m m')
    {info : ExcReturnInfo} (hd : excReturnDecode excRet = some info)
    (ok : (m'.toSys.excReturnUnstack env excRet).1 = true) :
    SameContext ((m.excReturn env excRet).setRegOrSp env f 13 (sp + n)).2
      (m'.excReturn env excRet) ↔ Harmless m.cpu info (sp + n) := by
  obtain ⟨info', frame, w, hd', read⟩ := Sys.exists_frame_of_excReturnUnstack env ok
  cases hd.symm.trans hd'
  have eq' := Machine.excReturn_of_frame env hd read
  constructor
  · intro same
    have running : ((m.excReturn env excRet).setRegOrSp env f 13 (sp + n)).2.done = false :=
      same.done.trans (by rw [eq']; exact h.done)
    obtain ⟨returned, unlimited⟩ := running_of_setRegOrSp running
    obtain ⟨frame₀, w₀, read₀⟩ := excReturn_of_running hd returned
    have limit : limitBack m.cpu info = 0 ∨ limitBack m.cpu info ≤ sp + n := by
      rw [Machine.excReturn_of_frame env hd read₀] at unlimited
      exact (spLimited_resume _ info frame₀ (m.cpu.unstackSp info) _).mp unlimited
    rw [setRegOrSp_excReturn hd read₀ limit, eq'] at same
    have top : sp + n = m'.cpu.unstackSp info + 32 := by
      rw [← Cpu.setActiveSp_r_13 (m.excReturn env excRet).cpu (sp + n)]
      exact congrFun same.r 13
    have recorded (own : SameStack m.cpu info) : Recorded m.cpu info := by
      by_contra unrecorded
      rw [(h.unstackSp_own own unrecorded).2] at top
      grind
    have sp_eq := h.unstackSp recorded
    rw [h.world, sp_eq, read₀] at read
    cases read
    rw [Machine.excReturn_of_frame env hd read₀, sp_eq] at same
    obtain ⟨-, own, active⟩ := (setActiveSp_resume_iff
      (c := { m.cpu with exc := m.cpu.exc.pop.2 }) (b := { m'.cpu with exc := m'.cpu.exc.pop.2 })
      h.r h.msp h.psp frame (m.cpu.unstackSp info)).mp ⟨same.r, same.msp, same.psp⟩
    exact ⟨recorded, limit, sp_eq ▸ top, own, active⟩
  · intro harmless
    have same := (setActiveSp_resume_iff (c := { m.cpu with exc := m.cpu.exc.pop.2 })
      (b := { m'.cpu with exc := m'.cpu.exc.pop.2 }) h.r h.msp h.psp frame
      (m.cpu.unstackSp info)).mpr ⟨harmless.top, harmless.own, harmless.active⟩
    rw [h.unstackSp harmless.recorded] at read eq'
    rw [h.world] at read
    rw [setRegOrSp_excReturn hd read harmless.limit, Machine.excReturn_of_frame env hd read, eq']
    exact
      { r := same.1
        mode := (Cpu.setActiveSp_quiet _ _).mode
        secState := (Cpu.setActiveSp_quiet _ _).secState
        msp := same.2.1
        psp := same.2.2
        done := h.running.trans h.done.symm }

theorem pc_notMem_below (d : Decoded) : 15 ∉ below d := fun mem => by
  simpa using (List.mem_filter.mp mem).2

theorem bytes_ne_zero {d : Decoded} (pc : 15 ∈ loaded d) (ldr : d.kind ≠ .ldrPostImm) :
    bytes d ≠ 0 := by
  have pos : 0 < (loaded d).length := List.length_pos_of_mem pc
  have bound : (loaded d).length ≤ 17 := by
    simp only [loaded]
    split
    · have low : (lowRegList d.imm).length ≤ 16 := List.length_filter_le _ _
      rw [popList, List.length_append]
      split <;> simp only [List.length_singleton, List.length_nil] <;> omega
    · exact Nat.le_trans (List.length_filter_le _ _) (by decide)
    · simp
  intro zero
  have nat := congrArg BitVec.toNat zero
  simp [bytes, BitVec.toNat_mul] at nat
  omega

theorem loadRegs_pc {m : Machine δ} {addr excRet : Word} {w : World δ}
    (exc : isExcReturn excRet = true)
    (read : m.world.read env m.cpu.secState addr 4 = (some excRet, w)) :
    m.loadRegs env f [15] addr =
      ⟨addr + 4, true, ((m.offer addr).withWorld w).excReturn env excRet, none⟩ := by
  simp only [Machine.loadRegs, Machine.offer, Machine.handlePcWrite, read, exc, if_true]

theorem loadRegs_lr {m : Machine δ} {addr v : Word} {w : World δ}
    (read : m.world.read env m.cpu.secState addr 4 = (some v, w)) :
    m.loadRegs env f [14] addr =
      ⟨addr + 4, false, ((m.offer addr).withWorld w).setReg 14 v, none⟩ := by
  have lr : (14 : Reg) ≠ 15 := by decide
  simp only [Machine.loadRegs, Machine.offer, read, lr, if_false]

theorem raised_of_load {m m' : Machine δ} {sp n lr : Word} (handler : m.cpu.mode = .handler)
    (running : m.done = false) (active : m.cpu.msp.get m.cpu.secState = sp)
    (cpu : m'.cpu = (m.cpu.setReg 14 lr).setActiveSp (sp + n)) (world : m'.world = m.world)
    (done : m'.done = m.done) : Raised sp n m m' := by
  obtain ⟨top, low, valid, eq⟩ := (m.cpu.setReg 14 lr).exists_setActiveSp_eq (sp + n)
  rw [Cpu.usesPsp_of_handler (c := m.cpu.setReg 14 lr) handler, ← cpu] at eq
  constructor
  case r =>
    intro i ne_sp ne_lr
    simp [eq, Cpu.setReg, ne_sp, ne_lr]
  case world => exact world
  case done => exact done.trans running
  case running => exact running
  case sp => exact active
  all_goals
    rw [eq]
    rfl

/-- Where the instruction returns to what `BX LR` after the load would have returned to. -/
def Faithful (d : Decoded) (m : Machine δ) (excRet : Word) : Prop :=
  ∃ info ∈ excReturnDecode excRet,
    match d.kind with
    | .ldrPostImm => Harmless m.cpu info (m.cpu.getActiveSp + d.imm)
    | _ => SameStack m.cpu info ∧ Recorded m.cpu info

theorem exists_decode {m : Machine δ} {excRet : Word}
    (ok : (m.toSys.excReturnUnstack env excRet).1 = true) :
    ∃ info, excReturnDecode excRet = some info := by
  obtain ⟨info, _, _, hd, _⟩ := Sys.exists_frame_of_excReturnUnstack env ok
  exact ⟨info, hd⟩

theorem isExcReturn_of_decode {excRet : Word} {info : ExcReturnInfo}
    (hd : excReturnDecode excRet = some info) : isExcReturn excRet = true := by
  simp only [excReturnDecode] at hd
  split at hd
  · assumption
  · cases hd

theorem viaLr_eq {d : Decoded} {m : Machine δ} {excRet : Word}
    (lr : (loadedLr env f d m).cpu.r 14 = excRet) (exc : isExcReturn excRet = true) :
    viaLr env f d m = (loadedLr env f d m).excReturn env excRet := by
  simp [viaLr, execBx, lr, exc]

theorem loadedLr_of_loadRegs {d : Decoded} {m : Machine δ} (m' : Machine δ) {lr addr : Word}
    {r : Reg → Word} {ts : List Word} (handler : m.cpu.mode = .handler) (running : m.done = false)
    (cpu : m'.cpu = { m.cpu with r := r }) (done : m'.done = m.done)
    (loop : m.loadRegs env f (below d ++ [14]) m.cpu.getActiveSp =
      ⟨addr, false, { m'.setReg 14 lr with transfers := ts }, none⟩) :
    Raised m.cpu.getActiveSp (bytes d) m' (loadedLr env f d m) ∧
      (loadedLr env f d m).cpu.r 14 = lr := by
  have active : m'.cpu.msp.get m'.cpu.secState = m.cpu.getActiveSp := by
    rw [cpu, Cpu.getActiveSp_of_handler handler]
  have eq : loadedLr env f d m = { m'.setReg 14 lr with
      cpu := (m'.cpu.setReg 14 lr).setActiveSp (m.cpu.getActiveSp + bytes d)
      transfers := ts } := by
    simp only [loadedLr, loop]
    rfl
  constructor
  · exact raised_of_load (by rw [cpu]; exact handler) (done.trans running) active
      (congrArg (·.cpu) eq) (congrArg (·.world) eq) (congrArg (·.done) eq)
  · rw [eq]
    exact (Cpu.setActiveSp_r_of_ne _ _ (by decide)).trans (Cpu.setReg_r_self _ _ _)

theorem sameContext_multiple_iff {d : Decoded} {m : Machine δ} {excRet : Word}
    (h : Returns env f d m excRet) (ldr : d.kind ≠ .ldrPostImm)
    (code : ∀ m' addr, m.loadRegs env f (loaded d) m.cpu.getActiveSp = ⟨addr, true, m', none⟩ →
      (executeDecoded env f d m).2 = m') {info : ExcReturnInfo}
    (hd : excReturnDecode excRet = some info) :
    SameContext (executeDecoded env f d m).2 (viaLr env f d m) ↔
      SameStack m.cpu info ∧ Recorded m.cpu info := by
  have exc := isExcReturn_of_decode hd
  obtain ⟨vs, u, reads, last⟩ := h.loads
  obtain ⟨r, ts, loop⟩ := Machine.loadRegs_append (f := f) (pc_notMem_below d) reads
  rcases read : u.read env m.cpu.secState
    (m.cpu.getActiveSp + 4 * BitVec.ofNat 32 (below d).length) 4 with ⟨v, w⟩
  rw [read] at last
  cases last
  have byPc := (loop [15]).trans (loadRegs_pc exc read)
  have byLr := (loop [14]).trans (loadRegs_lr read)
  obtain ⟨raised, lr⟩ := loadedLr_of_loadRegs
    { m with
      cpu := { m.cpu with r := r }
      world := w
      transfers := (m.cpu.getActiveSp + 4 * BitVec.ofNat 32 (below d).length) :: ts }
    h.handler h.running rfl rfl byLr
  rw [below_append h.pc] at byPc
  rw [code _ _ byPc, viaLr_eq lr exc]
  exact sameContext_excReturn_iff raised (bytes_ne_zero h.pc ldr) hd h.returns

theorem sameContext_ldr_iff {d : Decoded} {m : Machine δ} {excRet : Word}
    (h : Returns env f d m excRet) (kind : d.kind = .ldrPostImm) (sp : d.rn = 13) (pc : d.rd = 15)
    {info : ExcReturnInfo} (hd : excReturnDecode excRet = some info) :
    SameContext (executeDecoded env f d m).2 (viaLr env f d m) ↔
      Harmless m.cpu info (m.cpu.getActiveSp + d.imm) := by
  have exc := isExcReturn_of_decode hd
  have below_nil : below d = [] := by simp [below, loaded, kind]
  obtain ⟨vs, u, reads, last⟩ := h.loads
  rw [below_nil, List.length_nil, World.readWords] at reads
  cases reads
  rcases read : m.world.read env m.cpu.secState m.cpu.getActiveSp 4 with ⟨v, w⟩
  have slot : m.cpu.getActiveSp + 4 * BitVec.ofNat 32 (below d).length = m.cpu.getActiveSp := by
    simp [below_nil]
  rw [slot, read] at last
  cases last
  have byLr := loadRegs_lr (f := f) read
  rw [show [14] = below d ++ [14] by rw [below_nil, List.nil_append]] at byLr
  obtain ⟨raised, lr⟩ := loadedLr_of_loadRegs (m.withWorld w) h.handler h.running rfl rfl byLr
  have code : (executeDecoded env f d m).2 = (((m.withWorld w).excReturn env excRet).setRegOrSp
      env f 13 (m.cpu.getActiveSp + bytes d)).2 := by
    simp only [executeDecoded, kind, loadWriteBack, Machine.load, sp, h.sp, read, pc, if_true,
      Machine.handlePcWrite, exc, bytes]
  rw [code, viaLr_eq lr exc, sameContext_writeBack_iff raised hd h.returns]
  simp only [bytes, kind]
  rfl

/-- A handler that loads its `EXC_RETURN` value into the PC returns as it would through LR exactly
where the return is faithful: a `POP` or `LDM` where the interrupted context is on the handler's
own stack, an `LDR` where the write-back happens to hit. -/
theorem returns_as_viaLr_iff {d : Decoded} {m : Machine δ} {excRet : Word}
    (h : Returns env f d m excRet) :
    SameContext (executeDecoded env f d m).2 (viaLr env f d m) ↔ Faithful d m excRet := by
  obtain ⟨info, hd⟩ := exists_decode h.returns
  simp only [Faithful, hd, Option.mem_def, Option.some.injEq, exists_eq_left']
  cases h.exit with
  | pop kind =>
    rw [kind, sameContext_multiple_iff h (by simp [kind]) (fun m' addr loop => ?_) hd]
    have regs : popList d = loaded d := by simp [loaded, kind]
    simp only [executeDecoded, kind, execPop, regs, loop, if_true]
  | ldm kind sp writeBack increment =>
    rw [kind, sameContext_multiple_iff h (by simp [kind]) (fun m' addr loop => ?_) hd]
    have regs : regList (d.imm &&& 0xffff) = loaded d := by simp [loaded, kind]
    have any : loaded d ≠ [] := List.ne_nil_of_mem h.pc
    simp only [executeDecoded, kind, execMultiple, multiple, regs, any, sp, h.sp, increment,
      loop, if_true, if_false, Bool.not_true, Bool.and_false, Bool.false_eq_true]
  | ldr kind sp pc =>
    rw [kind]
    exact sameContext_ldr_iff h kind sp pc hd

/-- A Secure `SVC` handler, entered from Thread mode with the given `CONTROL`, that has pushed its
LR. -/
def svcHandler (control : Word) : Machine Unit :=
  let s := { Board.sys with cpu := { Board.cpu with control := .both control } }
  let entered := (s.enterException Board.env Vect.svcall 0x100 s.cpu.xpsr).2
  let m : Machine Unit := ⟨entered, ⟨0, 0, 0⟩, false, false, []⟩
  (executeDecoded Board.env ⟨0xB500, 2, false, 0, 0x200⟩
    { Decoded.default 2 0xB500 with kind := .push, imm := 0x100 } m).2

/-- `POP {PC}`. -/
def popPc : Decoded := { Decoded.default 2 0xBD00 with kind := .pop, imm := 0x100 }

def popPcFetched : FetchResult := ⟨0xBD00, 2, false, 0, 0x202⟩

theorem returns_as_viaLr_sameStack :
    SameContext (executeDecoded Board.env popPcFetched popPc (svcHandler 0)).2
        (viaLr Board.env popPcFetched popPc (svcHandler 0)) ↔
      Faithful popPc (svcHandler 0) 0xFFFFFFF9 :=
  returns_as_viaLr_iff
    { handler := by decide +kernel
      sp := by decide +kernel
      running := by decide +kernel
      exit := .pop rfl
      pc := by decide
      loads := ⟨[], (svcHandler 0).world, rfl, by decide +kernel⟩
      returns := by decide +kernel }

theorem popPc_leaks_main_stack :
    ¬ ∀ (d : Decoded) (m : Machine Unit) (excRet : Word),
      Returns Board.env popPcFetched d m excRet →
        SameContext (executeDecoded Board.env popPcFetched d m).2
          (viaLr Board.env popPcFetched d m) := by
  intro h
  have same := h popPc (svcHandler 2) 0xFFFFFFFD
    { handler := by decide +kernel
      sp := by decide +kernel
      running := by decide +kernel
      exit := .pop rfl
      pc := by decide
      loads := ⟨[], (svcHandler 2).world, rfl, by decide +kernel⟩
      returns := by decide +kernel }
  have main := congrArg Banked.s same.msp
  revert main
  decide +kernel

end HandlerReturn

end M33mu
