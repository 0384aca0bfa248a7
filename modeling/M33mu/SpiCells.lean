import M33mu.BlockProtect
import M33mu.SpiBus
import Mathlib.Data.Nat.ModEq

namespace M33mu

open Lib

namespace SpiFlash

def sectorErase (s : SpiFlash) (a b c : Byte) : SpiFlash :=
  (s.transact [0x06]).transact [0x20, a, b, c]

def pageProgram (s : SpiFlash) (a b c : Byte) (data : List Byte) : SpiFlash :=
  (s.transact [0x06]).transact ([0x02, a, b, c] ++ data)

def readFrom (s : SpiFlash) (a b c : Byte) (n : Nat) : List Byte :=
  outputs xfer (s.send [0x03, a, b, c]) (List.replicate n 0)

structure ReadsBack (s : SpiFlash) (a b c : Byte) (data : List Byte) : Prop where
  erased : (s.sectorErase a b c).readFrom a b c 1 = [0xFF]
  programmed : ((s.sectorErase a b c).pageProgram a b c data).readFrom a b c data.length = data

variable {s : SpiFlash}

theorem xfer_idle (idle : s.state = .idle) (out : Byte) : s.xfer out = s.command out := by
  rw [xfer, idle]

theorem transact_wren (idle : s.state = .idle) :
    s.transact [0x06] = { s with
      writeEnable := true, state := .idle, cmd := 0, addr := 0, addrHave := 0, addrNeed := 0
      dummyLeft := 0 } := by
  rw [transact, send, List.foldl_cons, List.foldl_nil, xfer_idle idle]
  rfl

theorem send_address (idle : s.state = .idle) {op : Byte}
    (takes : op = 0x03 ∨ op = 0x02 ∨ op = 0x20) (a b c : Byte) :
    ∃ t : SpiFlash, s.send [op, a, b, c] = t.addressed ∧ t.cmd = op ∧ t.addr = addressOf a b c ∧
      t.pageBase = addressOf a b c &&& ~~~0xFF ∧ t.size = s.size ∧ t.data = s.data ∧
      t.writeEnable = s.writeEnable := by
  have begun : (s.command op).2 =
      { s with cmd := op, addr := 0, addrHave := 0, addrNeed := 3, state := .addr } := by
    rcases takes with rfl | rfl | rfl <;> rfl
  rw [send, List.foldl_cons, xfer_idle idle, begun, List.foldl_cons, List.foldl_cons]
  have last := addressByte_last (s := { s with
    cmd := op, addr := 0, addrHave := 2, addrNeed := 3, state := .addr
    addrBytes := Function.update (Function.update s.addrBytes 0 a) 1 b }) (a := a) (b := b) rfl rfl
    rfl rfl c
  exact ⟨_, last, rfl, rfl, rfl, rfl, rfl, rfl⟩

theorem erase_size (s : SpiFlash) (addr size : Word) : (s.erase addr size).size = s.size := by
  obtain ⟨data, eq⟩ := s.exists_erase_eq addr size
  rw [eq]

theorem idle_sectorErase (s : SpiFlash) (a b c : Byte) : (s.sectorErase a b c).state = .idle := rfl

theorem idle_pageProgram (s : SpiFlash) (a b c : Byte) (data : List Byte) :
    (s.pageProgram a b c data).state = .idle := rfl

theorem sectorErase_eq (idle : s.state = .idle) (a b c : Byte) :
    ∃ t : SpiFlash, t.data = s.data ∧ t.size = s.size ∧ t.writeEnable = true ∧
      (s.sectorErase a b c).size = s.size ∧
      (s.sectorErase a b c).data = (t.erase (addressOf a b c &&& ~~~0xFFF) 0x1000).data := by
  rw [sectorErase, transact_wren idle, transact]
  generalize ready : ({ s with
    writeEnable := true, state := .idle, cmd := 0, addr := 0, addrHave := 0, addrNeed := 0
    dummyLeft := 0 } : SpiFlash) = r
  have state : r.state = .idle := ready ▸ rfl
  obtain ⟨t, sent, op, addr, -, size, data, latch⟩ := send_address state (.inr (.inr rfl)) a b c
  have erased : t.addressed = { t.erase (addressOf a b c &&& ~~~0xFFF) 0x1000 with
      state := .idle } := by
    rw [addressed, op, addr]
    rfl
  rw [← ready] at data size latch
  refine ⟨t, data, size, latch, ?_, ?_⟩
  · rw [sent, erased]
    exact (erase_size ..).trans size
  · rw [sent, erased]
    rfl

theorem sectorErase_inside (idle : s.state = .idle) {a b c : Byte} {i : Word}
    (low : addressOf a b c &&& ~~~0xFFF ≤ i)
    (below : i.toNat < (addressOf a b c &&& ~~~0xFFF).toNat + 0x1000) (inside : i < s.size) :
    (s.sectorErase a b c).data i = 0xFF := by
  obtain ⟨t, -, size, latch, -, data⟩ := sectorErase_eq idle a b c
  have start : (addressOf a b c &&& ~~~0xFFF).toNat < 2 ^ 24 := by
    rw [BitVec.toNat_and]
    exact Nat.lt_of_le_of_lt Nat.and_le_left (addressOf_lt a b c)
  have sector : (0x1000 : Word).toNat = 0x1000 := rfl
  rw [data]
  refine erase_at latch ?_ low ?_ (size ▸ inside)
  · rw [sector]
    omega
  · rw [sector]
    exact below

theorem sectorErase_outside (idle : s.state = .idle) {a b c : Byte} {i : Word}
    (above : i < addressOf a b c &&& ~~~0xFFF) : (s.sectorErase a b c).data i = s.data i := by
  obtain ⟨t, same, -, -, -, data⟩ := sectorErase_eq idle a b c
  rw [data, ← same]
  refine (erase_data t _ _ i).resolve_right ?_
  rintro ⟨-, low, -⟩
  exact absurd low (BitVec.not_le.mpr above)

def burn (size start : Word) (contents : Word → Byte) (k : Nat) : List Byte → Word → Byte
  | [] => contents
  | d :: ds =>
    let cell := pageAddress start k % size
    burn size start (Function.update contents cell (contents cell &&& d)) (k + 1) ds

theorem send_data {t : SpiFlash} (state : t.state = .pp) (latch : t.writeEnable = true)
    {start : Word} (page : t.pageBase = start &&& ~~~0xFF) {k : Nat}
    (next : t.addr = pageAddress start k) (ds : List Byte) :
    (t.send ds).data = burn t.size start t.data k ds ∧ (t.send ds).size = t.size := by
  induction ds generalizing t k with
  | nil => exact ⟨rfl, rfl⟩
  | cons d ds ih =>
    have program : t.xfer d = (0xFF, t.programByte d) := by
      rw [xfer, state]
    have addr : (t.programByte d).addr = pageAddress start (k + 1) := by
      rw [pageAddress_succ, ← page, ← next]
      rfl
    have data : (t.programByte d).data =
        Function.update t.data (pageAddress start k % t.size)
          (t.data (pageAddress start k % t.size) &&& d) := by
      rw [← next]
      exact if_pos latch
    rw [send, List.foldl_cons, program]
    obtain ⟨rest, size⟩ := ih (t := t.programByte d) state latch page addr
    refine ⟨rest.trans ?_, size⟩
    rw [data]
    rfl

theorem pageProgram_eq (idle : s.state = .idle) (a b c : Byte) (data : List Byte) :
    (s.pageProgram a b c data).data = burn s.size (addressOf a b c) s.data 0 data ∧
      (s.pageProgram a b c data).size = s.size := by
  rw [pageProgram, transact_wren idle, transact, send, List.foldl_append]
  generalize ready : ({ s with
    writeEnable := true, state := .idle, cmd := 0, addr := 0, addrHave := 0, addrNeed := 0
    dummyLeft := 0 } : SpiFlash) = r
  have state : r.state = .idle := ready ▸ rfl
  obtain ⟨t, sent, op, addr, page, size, same, latch⟩ :=
    send_address state (.inr (.inl rfl)) a b c
  rw [send] at sent
  have programs : t.addressed = { t with state := .pp } := by
    rw [addressed, op]
    rfl
  rw [← ready] at same size latch
  rw [sent, programs]
  have next : { t with state := .pp }.addr = pageAddress (addressOf a b c) 0 :=
    addr.trans (pageAddress_zero _).symm
  have programming : { t with state := .pp }.state = .pp := rfl
  rw [← same, ← size]
  exact send_data programming latch page next data

theorem outputs_read {t : SpiFlash} (state : t.state = .read) (op : t.cmd = 0x03)
    (dummy : t.dummyLeft = 0) (accepted : t.size ≠ 0) {n k : Nat} (below : k < n) :
    (outputs xfer t (List.replicate n 0))[k]? =
      some (t.data ((t.addr + BitVec.ofNat 32 k) % t.size)) := by
  induction n generalizing t k with
  | zero => exact absurd below (Nat.not_lt_zero k)
  | succ n ih =>
    have reads : t.xfer 0 = t.readNext := by
      rw [xfer, state]
    have next : t.xfer 0 = (t.data (t.addr % t.size), { t with addr := t.addr + 1 }) := by
      rw [reads, readNext, if_neg (by rw [op]; decide), if_neg (by rw [dummy]; decide), readByte,
        if_neg accepted]
    rw [List.replicate_succ, outputs, next]
    cases k with
    | zero => rw [List.getElem?_cons_zero, BitVec.add_zero]
    | succ k =>
      rw [List.getElem?_cons_succ, ih (t := { t with addr := t.addr + 1 }) state op dummy accepted
        (Nat.lt_of_succ_lt_succ below)]
      have place : t.addr + 1 + BitVec.ofNat 32 k = t.addr + BitVec.ofNat 32 (k + 1) := by
        bv_omega
      rw [place]

theorem length_readFrom (a b c : Byte) (n : Nat) : (s.readFrom a b c n).length = n := by
  rw [readFrom, length_outputs, List.length_replicate]

theorem readFrom_at (idle : s.state = .idle) (accepted : s.size ≠ 0) (a b c : Byte) {n k : Nat}
    (below : k < n) : (s.readFrom a b c n)[k]? =
      some (s.data ((addressOf a b c + BitVec.ofNat 32 k) % s.size)) := by
  obtain ⟨t, sent, op, addr, -, size, data, -⟩ := send_address idle (.inl rfl) a b c
  have reads : t.addressed = { t with dummyLeft := 0, state := .read } := by
    rw [addressed, op]
    rfl
  have answer := outputs_read (t := { t with dummyLeft := 0, state := .read }) rfl op rfl
    (size ▸ accepted) below
  rw [readFrom, sent, reads, answer, addr, size, data]

section Burn

variable {size start : Word} {m : Word → Byte} {k : Nat} {ds : List Byte}

theorem burn_apart {i : Word}
    (apart : ∀ j < ds.length, pageAddress start (k + j) % size ≠ i) :
    burn size start m k ds i = m i := by
  induction ds generalizing m k with
  | nil => rfl
  | cons d ds ih =>
    have later : ∀ j < ds.length, pageAddress start (k + 1 + j) % size ≠ i := by
      intro j inside
      have := apart (j + 1) (Nat.succ_lt_succ inside)
      rwa [← Nat.add_assoc, Nat.add_right_comm] at this
    rw [burn, ih later]
    exact Function.update_of_ne (apart 0 (Nat.succ_pos _)).symm ..

theorem burn_zero {i : Word} (clear : m i = 0) : burn size start m k ds i = 0 := by
  induction ds generalizing m k with
  | nil => exact clear
  | cons d ds ih =>
    rw [burn]
    apply ih
    by_cases here : i = pageAddress start k % size
    · rw [← here, Function.update_self, clear]
      exact BitVec.zero_and
    · rw [Function.update_of_ne here, clear]

theorem burn_once {j : Nat} (inside : j < ds.length)
    (once : ∀ j' < ds.length, j' ≠ j →
      pageAddress start (k + j') % size ≠ pageAddress start (k + j) % size) :
    burn size start m k ds (pageAddress start (k + j) % size) =
      m (pageAddress start (k + j) % size) &&& ds[j] := by
  induction ds generalizing m k j with
  | nil => exact absurd inside (Nat.not_lt_zero j)
  | cons d ds ih =>
    cases j with
    | zero =>
      rw [burn, burn_apart, Nat.add_zero, Function.update_self]
      · rfl
      · intro j' below
        have other := once (j' + 1) (Nat.succ_lt_succ below) (Nat.succ_ne_zero j')
        rwa [← Nat.add_assoc, Nat.add_right_comm] at other
    | succ j =>
      have next : k + (j + 1) = k + 1 + j := by omega
      have first := once 0 (Nat.succ_pos _) (Nat.succ_ne_zero j).symm
      rw [Nat.add_zero, next] at first
      rw [next, burn, ih (Nat.lt_of_succ_lt_succ inside)]
      · rw [Function.update_of_ne first.symm]
        rfl
      · intro j' below other
        have apart := once (j' + 1) (Nat.succ_lt_succ below) (by omega)
        rwa [next, ← Nat.add_assoc, Nat.add_right_comm] at apart

end Burn

theorem toNat_cell (a b c : Byte) {size : Word} {k : Nat} (few : k ≤ 256) :
    ((addressOf a b c + BitVec.ofNat 32 k) % size).toNat =
      ((addressOf a b c).toNat + k) % size.toNat := by
  have low := addressOf_lt a b c
  rw [BitVec.toNat_umod, BitVec.toNat_add, BitVec.toNat_ofNat]
  congr 1
  omega

theorem pageAddress_eq {a b c : Byte} {k : Nat}
    (inPage : (addressOf a b c).toNat % 256 + k < 256) :
    pageAddress (addressOf a b c) k = addressOf a b c + BitVec.ofNat 32 k := by
  have low := addressOf_lt a b c
  apply BitVec.eq_of_toNat_eq
  rw [toNat_pageAddress, BitVec.toNat_add, BitVec.toNat_ofNat]
  omega

theorem toNat_sector (a b c : Byte) : (addressOf a b c &&& ~~~0xFFF).toNat =
    (addressOf a b c).toNat / 4096 * 4096 :=
  Lib.toNat_and_not_mask _ 12 (by decide)

theorem mod_ne_of_ne {start size j k : Nat} (few : j < size) (few' : k < size) (other : j ≠ k) :
    (start + j) % size ≠ (start + k) % size := by
  intro same
  have cells : j % size = k % size := Nat.ModEq.add_left_cancel' start same
  rw [Nat.mod_eq_of_lt few, Nat.mod_eq_of_lt few'] at cells
  exact other cells

/-- Where the three commands find the same cells: `n` bytes from the address lie below the size, or
the address lies in the first sector and they do not outnumber the cells. -/
def Resolves (size start : Word) (n : Nat) : Prop :=
  start.toNat + max n 1 ≤ size.toNat ∨ start.toNat < 0x1000 ∧ n ≤ size.toNat

section Agree

variable {size : Word} {a b c : Byte} {n : Nat}

theorem erased_at (resolves : Resolves s.size (addressOf a b c) n)
    (inPage : (addressOf a b c).toNat % 256 + n ≤ 256) (accepted : s.size ≠ 0)
    (idle : s.state = .idle) {k : Nat} (below : k < max n 1) :
    (s.sectorErase a b c).data ((addressOf a b c + BitVec.ofNat 32 k) % s.size) = 0xFF := by
  have cell : ((addressOf a b c + BitVec.ofNat 32 k) % s.size).toNat =
      ((addressOf a b c).toNat + k) % s.size.toNat := toNat_cell a b c (by omega)
  have some : 0 < s.size.toNat :=
    Nat.pos_of_ne_zero fun zero => accepted (BitVec.eq_of_toNat_eq zero)
  have le := Nat.mod_le ((addressOf a b c).toNat + k) s.size.toNat
  have lt := Nat.mod_lt ((addressOf a b c).toNat + k) some
  apply sectorErase_inside idle
  · rw [BitVec.le_def, toNat_sector, cell]
    rcases resolves with whole | ⟨first, -⟩
    · rw [Nat.mod_eq_of_lt (by omega)]
      omega
    · omega
  · rw [toNat_sector, cell]
    omega
  · rw [BitVec.lt_def, cell]
    exact lt

theorem readFrom_one (idle : s.state = .idle) (accepted : s.size ≠ 0) :
    s.readFrom a b c 1 = [s.data ((addressOf a b c + BitVec.ofNat 32 0) % s.size)] := by
  obtain ⟨answer, one⟩ := List.length_eq_one_iff.mp (length_readFrom (s := s) a b c 1)
  have first := readFrom_at idle accepted a b c Nat.one_pos
  rw [one] at first ⊢
  exact congrArg ([·]) (Option.some.inj first)

theorem readFrom_programmed (idle : s.state = .idle) (accepted : s.size ≠ 0) {data : List Byte}
    (inPage : (addressOf a b c).toNat % 256 + data.length ≤ 256)
    (few : data.length ≤ s.size.toNat)
    (blank : ∀ k < data.length, s.data ((addressOf a b c + BitVec.ofNat 32 k) % s.size) = 0xFF) :
    (s.pageProgram a b c data).readFrom a b c data.length = data := by
  obtain ⟨burnt, size⟩ := pageProgram_eq idle a b c data
  have idle' := idle_pageProgram s a b c data
  apply List.ext_getElem?
  intro k
  by_cases below : k < data.length
  · have place {j : Nat} (inside : j < data.length) :
        pageAddress (addressOf a b c) (0 + j) = addressOf a b c + BitVec.ofNat 32 j := by
      rw [Nat.zero_add]
      exact pageAddress_eq (by omega)
    have apart : ∀ j' < data.length, j' ≠ k → pageAddress (addressOf a b c) (0 + j') % s.size ≠
        pageAddress (addressOf a b c) (0 + k) % s.size := by
      intro j' inside other
      rw [place inside, place below, Ne, ← BitVec.toNat_inj, toNat_cell a b c (by omega),
        toNat_cell a b c (by omega)]
      exact mod_ne_of_ne (by omega) (by omega) other
    have once : burn s.size (addressOf a b c) s.data 0 data _ = _ := burn_once below apart
    have all : (0xFF : Byte) &&& data[k] = data[k] := BitVec.allOnes_and
    rw [place below, blank k below, all] at once
    rw [readFrom_at idle' (size ▸ accepted) a b c below, size, burnt, once,
      List.getElem?_eq_getElem below]
  · rw [List.getElem?_eq_none (by rw [length_readFrom]; omega),
      List.getElem?_eq_none (Nat.not_lt.mp below)]

theorem readsBack (resolves : Resolves s.size (addressOf a b c) n)
    (inPage : (addressOf a b c).toNat % 256 + n ≤ 256) (accepted : s.size ≠ 0)
    (idle : s.state = .idle) {data : List Byte} (length : data.length = n) :
    s.ReadsBack a b c data := by
  obtain ⟨-, -, -, -, size, -⟩ := sectorErase_eq idle a b c
  have erased := idle_sectorErase s a b c
  have accepted' : (s.sectorErase a b c).size ≠ 0 := size ▸ accepted
  have blank {k : Nat} (below : k < max n 1) : (s.sectorErase a b c).data
      ((addressOf a b c + BitVec.ofNat 32 k) % (s.sectorErase a b c).size) = 0xFF := by
    rw [size]
    exact erased_at resolves inPage accepted idle below
  constructor
  · rw [readFrom_one erased accepted', blank (by omega)]
  · apply readFrom_programmed erased accepted' (length ▸ inPage)
    · rw [size, length]
      rcases resolves with whole | ⟨-, few⟩ <;> omega
    · intro k below
      exact blank (by omega)

theorem not_readsBack {data : List Byte} (accepted : s.size ≠ 0) (idle : s.state = .idle) {k : Nat}
    (below : k < data.length) (full : data[k] = 0xFF)
    (clear : ((s.sectorErase a b c).pageProgram a b c data).data
      ((addressOf a b c + BitVec.ofNat 32 k) % s.size) = 0) :
    ¬ s.ReadsBack a b c data := by
  intro reads
  obtain ⟨-, -, -, -, size, -⟩ := sectorErase_eq idle a b c
  obtain ⟨-, size'⟩ := pageProgram_eq (idle_sectorErase s a b c) a b c data
  have idle' := idle_pageProgram (s.sectorErase a b c) a b c data
  have answer := readFrom_at idle' (size'.trans size ▸ accepted) a b c below
  rw [reads.programmed, size', size, clear, List.getElem?_eq_getElem below, full] at answer
  exact absurd (Option.some.inj answer) (by decide)

def zeros (size : Word) : SpiFlash := attach size fun _ => 0

theorem zeros_below {k : Nat} (data : List Byte) (few : k ≤ 256)
    (above : ((addressOf a b c).toNat + k) % size.toNat < (addressOf a b c).toNat / 4096 * 4096) :
    ((zeros size).sectorErase a b c).data ((addressOf a b c + BitVec.ofNat 32 k) % size) = 0 ∧
      (((zeros size).sectorErase a b c).pageProgram a b c data).data
        ((addressOf a b c + BitVec.ofNat 32 k) % size) = 0 := by
  obtain ⟨burnt, -⟩ := pageProgram_eq (idle_sectorErase (zeros size) a b c) a b c data
  have kept : ((zeros size).sectorErase a b c).data
      ((addressOf a b c + BitVec.ofNat 32 k) % size) = 0 := by
    apply sectorErase_outside rfl
    rw [BitVec.lt_def, toNat_sector, toNat_cell a b c few]
    exact above
  exact ⟨kept, burnt ▸ burn_zero kept⟩

theorem not_readsBack_erased (accepted : size ≠ 0) (data : List Byte)
    (beyond : size.toNat ≤ (addressOf a b c).toNat) (later : 0x1000 ≤ (addressOf a b c).toNat) :
    ¬ (zeros size).ReadsBack a b c data := by
  intro reads
  have some : 0 < size.toNat :=
    Nat.pos_of_ne_zero fun zero => accepted (BitVec.eq_of_toNat_eq zero)
  have rest := Nat.mod_lt (addressOf a b c).toNat some
  -- a step down of `size` at least leaves the sector
  have parts := Nat.div_add_mod (addressOf a b c).toNat size.toNat
  have steps : size.toNat * 1 ≤ size.toNat * ((addressOf a b c).toNat / size.toNat) :=
    Nat.mul_le_mul_left _ (Nat.div_pos beyond some)
  obtain ⟨-, -, -, -, same, -⟩ := sectorErase_eq (s := zeros size) rfl a b c
  have size' : ((zeros size).sectorErase a b c).size = size := same
  have below : ((addressOf a b c).toNat + 0) % size.toNat <
      (addressOf a b c).toNat / 4096 * 4096 := by
    rw [Nat.add_zero]
    omega
  obtain ⟨zero, -⟩ := zeros_below data (Nat.zero_le _) below
  have accepted' : ((zeros size).sectorErase a b c).size ≠ 0 := by
    rw [size']
    exact accepted
  have answer := readFrom_one (a := a) (b := b) (c := c) (idle_sectorErase (zeros size) a b c)
    accepted'
  have erased := answer.symm.trans reads.erased
  rw [size', zero] at erased
  exact absurd erased (by decide)

theorem not_readsBack_twice (accepted : size ≠ 0)
    (inPage : (addressOf a b c).toNat % 256 + n ≤ 256) (many : size.toNat < n) :
    ∃ data, data.length = n ∧ ¬ (zeros size).ReadsBack a b c data := by
  have some : 0 < size.toNat :=
    Nat.pos_of_ne_zero fun zero => accepted (BitVec.eq_of_toNat_eq zero)
  obtain ⟨m, rfl⟩ : ∃ m, n = m + 1 := ⟨n - 1, by omega⟩
  obtain ⟨-, -, -, -, same, -⟩ := sectorErase_eq (s := zeros size) rfl a b c
  have size' : ((zeros size).sectorErase a b c).size = size := same
  refine ⟨0 :: List.replicate m 0xFF, by simp, ?_⟩
  have below : size.toNat < (0 :: List.replicate m (0xFF : Byte)).length := by
    rw [List.length_cons, List.length_replicate]
    exact many
  refine not_readsBack accepted rfl below ?_ ?_
  · obtain ⟨k, next⟩ : ∃ k, size.toNat = k + 1 := ⟨size.toNat - 1, by omega⟩
    simp only [next, List.getElem_cons_succ, List.getElem_replicate]
  · obtain ⟨burnt, -⟩ := pageProgram_eq (idle_sectorErase (zeros size) a b c) a b c
      (0 :: List.replicate m 0xFF)
    have again : (addressOf a b c + BitVec.ofNat 32 size.toNat) % size =
        pageAddress (addressOf a b c) 0 % size := by
      rw [pageAddress_zero, ← BitVec.toNat_inj, toNat_cell a b c (by omega), Nat.add_mod_right,
        BitVec.toNat_umod]
    rw [burnt, size', burn]
    show burn size _ _ _ _ ((addressOf a b c + BitVec.ofNat 32 size.toNat) % size) = 0
    apply burn_zero
    rw [again, Function.update_self]
    exact BitVec.and_zero

theorem not_readsBack_wrapped (accepted : size ≠ 0)
    (inPage : (addressOf a b c).toNat % 256 + n ≤ 256) (later : 0x1000 ≤ (addressOf a b c).toNat)
    (inside : (addressOf a b c).toNat < size.toNat)
    (past : size.toNat < (addressOf a b c).toNat + n) :
    ∃ data, data.length = n ∧ ¬ (zeros size).ReadsBack a b c data := by
  refine ⟨List.replicate n 0xFF, List.length_replicate, ?_⟩
  have below : size.toNat - (addressOf a b c).toNat < (List.replicate n (0xFF : Byte)).length := by
    rw [List.length_replicate]
    omega
  have first : ((addressOf a b c).toNat + (size.toNat - (addressOf a b c).toNat)) % size.toNat =
      0 := by
    rw [Nat.add_sub_cancel' (by omega), Nat.mod_self]
  refine not_readsBack accepted rfl below (List.getElem_replicate _) ?_
  exact (zeros_below _ (by omega) (by omega)).2

/-- The three commands find the same cells of every flash of a size exactly below the size, or in
the first sector. -/
theorem spi_cells_agree (accepted : size ≠ 0)
    (inPage : (addressOf a b c).toNat % 256 + n ≤ 256) :
    (∀ s : SpiFlash, s.size = size → s.state = .idle → ∀ data, data.length = n →
        s.ReadsBack a b c data) ↔
      Resolves size (addressOf a b c) n := by
  constructor
  · intro reads
    by_contra not
    rw [Resolves] at not
    by_cases beyond : size.toNat ≤ (addressOf a b c).toNat ∧ 0x1000 ≤ (addressOf a b c).toNat
    · exact not_readsBack_erased accepted _ beyond.1 beyond.2
        (reads (zeros size) rfl rfl (List.replicate n 0) List.length_replicate)
    · have found : ∃ data, data.length = n ∧ ¬ (zeros size).ReadsBack a b c data := by
        by_cases many : size.toNat < n
        · exact not_readsBack_twice accepted inPage many
        · exact not_readsBack_wrapped accepted inPage (by omega) (by omega) (by omega)
      obtain ⟨data, length, fails⟩ := found
      exact fails (reads (zeros size) rfl rfl data length)
  · rintro resolves s rfl idle data length
    exact readsBack resolves inPage accepted idle length

end Agree

theorem spi_cells_agree_page :
    (∀ s : SpiFlash, s.size = 0x100000 → s.state = .idle → ∀ data, data.length = 16 →
        s.ReadsBack 0x00 0x12 0xF0 data) ↔
      Resolves 0x100000 (addressOf 0x00 0x12 0xF0) 16 :=
  spi_cells_agree (by decide) (by decide)

theorem spi_cells_apart : ¬ ∀ (size : Word) (a b c : Byte) (data : List Byte), size ≠ 0 →
    (addressOf a b c).toNat % 256 + data.length ≤ 256 →
      ∀ s : SpiFlash, s.size = size → s.state = .idle → s.ReadsBack a b c data := by
  intro agree
  exact not_readsBack_erased (by decide) [] (by decide) (by decide)
    (agree 0x2000 0x00 0x20 0x00 [] (by decide) (by decide) (zeros 0x2000) rfl rfl)

end SpiFlash

end M33mu
