import M33mu.SpiFlash

namespace M33mu

namespace SpiFlash

inductive Damages (s : SpiFlash) (bytes : List Byte) : Event → Prop
  | program (latch : s.writeEnable = true) {d : Byte} {i : Word} (inside : i < s.size)
      (selects : Selects s.size bytes i) (clears : s.data i &&& d ≠ s.data i) :
    Damages s bytes (.byte d)
  | erase (latch : s.writeEnable = true) {last : Byte} {i : Word} (inside : i < s.size)
      (erases : Erases (bytes ++ [last]) i) (written : s.data i ≠ 0xFF) :
    Damages s bytes (.byte last)

/-- What is expected of a step: with a block-protect bit set the contents stay, and the bits change
only by a status write under the latch. -/
structure Protects (s : SpiFlash) (bytes : List Byte) (e : Event) : Prop where
  contents : s.statusBp ≠ 0 → ∀ i < s.size, (s.step e).data i = s.data i
  bits : (s.step e).statusBp ≠ s.statusBp →
    bytes = [0x01] ∧ s.writeEnable = true ∧ ∃ out, e = .byte out

theorem eraseRange_at {s : SpiFlash} {addr size i : Word}
    (fits : addr.toNat + size.toNat < 2 ^ 32) (low : addr ≤ i)
    (below : i.toNat < addr.toNat + size.toNat) (inside : i < s.size) :
    (s.eraseRange addr size).data i = 0xFF := by
  have stop : (addr + size).toNat = addr.toNat + size.toNat := by
    rw [BitVec.toNat_add, Nat.mod_eq_of_lt fits]
  rw [BitVec.le_def] at low
  rw [BitVec.lt_def] at inside
  have something : ¬ (size = 0 ∨ addr + size < addr ∨ s.size ≤ addr) := by
    rw [BitVec.lt_def, BitVec.le_def, stop]
    rintro (none | wraps | beyond)
    · rw [none] at below
      exact absurd below (by simpa using low)
    · omega
    · omega
  rw [eraseRange, if_neg something]
  refine if_pos ⟨low, ?_⟩
  split
  · exact inside
  · rw [BitVec.lt_def, stop]
    exact below

theorem erase_at {s : SpiFlash} (latch : s.writeEnable = true) {addr size i : Word}
    (fits : addr.toNat + size.toNat < 2 ^ 32) (low : addr ≤ i)
    (below : i.toNat < addr.toNat + size.toNat) (inside : i < s.size) :
    (s.erase addr size).data i = 0xFF := by
  rw [erase, if_pos latch]
  exact eraseRange_at fits low below inside

theorem inside_aligned {v i : Word} (k : Nat) (fits : k ≤ 32)
    (same : i &&& ~~~BitVec.ofNat 32 (2 ^ k - 1) = v &&& ~~~BitVec.ofNat 32 (2 ^ k - 1)) :
    v &&& ~~~BitVec.ofNat 32 (2 ^ k - 1) ≤ i ∧
      i.toNat < (v &&& ~~~BitVec.ofNat 32 (2 ^ k - 1)).toNat + 2 ^ k := by
  rw [← same, BitVec.le_def, Lib.toNat_and_not_mask i k fits]
  have parts := Nat.div_add_mod' i.toNat (2 ^ k)
  have rest := Nat.mod_lt i.toNat (Nat.two_pow_pos k)
  omega

theorem addressOf_lt (a b c : Byte) : (addressOf a b c).toNat < 2 ^ 24 := by
  have shifted (v : Byte) (k : Nat) (few : k ≤ 16) :
      (v.setWidth 32 <<< k : Word).toNat < 2 ^ 24 := by
    have scale : 2 ^ k ≤ 2 ^ 16 := Nat.pow_le_pow_right Nat.two_pos few
    rw [BitVec.toNat_shiftLeft, BitVec.toNat_setWidth, Nat.shiftLeft_eq]
    refine Nat.lt_of_le_of_lt (Nat.mod_le ..) ?_
    calc v.toNat % 2 ^ 32 * 2 ^ k ≤ v.toNat * 2 ^ 16 := Nat.mul_le_mul (Nat.mod_le ..) scale
      _ < 2 ^ 24 := by omega
  rw [addressOf, BitVec.toNat_or, BitVec.toNat_or]
  refine Nat.or_lt_two_pow (Nat.or_lt_two_pow (shifted a 16 (by decide)) (shifted b 8 (by decide))) ?_
  simpa using shifted c 0 (by decide)

theorem erase_aligned {s : SpiFlash} (latch : s.writeEnable = true) {a b c : Byte} {i : Word}
    (k : Nat) (few : k ≤ 16) (inside : i < s.size)
    (same : i &&& ~~~BitVec.ofNat 32 (2 ^ k - 1) =
      addressOf a b c &&& ~~~BitVec.ofNat 32 (2 ^ k - 1)) :
    (s.erase (addressOf a b c &&& ~~~BitVec.ofNat 32 (2 ^ k - 1)) (.ofNat 32 (2 ^ k))).data i =
      0xFF := by
  obtain ⟨low, below⟩ := inside_aligned k (by omega) same
  have scale : 2 ^ k ≤ 2 ^ 16 := Nat.pow_le_pow_right Nat.two_pos few
  have size : (BitVec.ofNat 32 (2 ^ k)).toNat = 2 ^ k :=
    (BitVec.toNat_ofNat ..).trans (Nat.mod_eq_of_lt (Nat.lt_of_le_of_lt scale (by decide)))
  have start : (addressOf a b c &&& ~~~BitVec.ofNat 32 (2 ^ k - 1)).toNat < 2 ^ 24 := by
    rw [BitVec.toNat_and]
    exact Nat.lt_of_le_of_lt Nat.and_le_left (addressOf_lt a b c)
  apply erase_at latch ?_ low ?_ inside
  · rw [size]
    omega
  · rw [size]
    exact below

namespace Framed

variable {s : SpiFlash}

theorem program_inv {a b c : Byte} {sent : List Byte}
    (framed : s.Framed (0x02 :: a :: b :: c :: sent)) :
    s.state = .pp ∧ s.addr = pageAddress (addressOf a b c) sent.length := by
  generalize shape : (0x02 :: a :: b :: c :: sent : List Byte) = bytes at framed
  cases framed with
  | idle => exact nomatch shape
  | address state op need have' short kept =>
    obtain ⟨-, rfl⟩ := List.cons.inj shape
    exact absurd short (by simp)
  | read state op =>
    rw [← (List.cons.inj shape).1] at op
    exact absurd op (by decide)
  | program state op page next =>
    simp only [List.cons.injEq, true_and] at shape
    obtain ⟨rfl, rfl, rfl, rfl⟩ := shape
    exact ⟨state, next⟩
  | statusRead => exact absurd (List.cons.inj shape).1 (by decide)
  | statusWrite => exact nomatch shape

theorem erase_inv {op a b : Byte} (framed : s.Framed [op, a, b]) (erase : op = 0x20 ∨ op = 0xD8) :
    s.state = .addr ∧ s.cmd = op ∧ s.addrNeed = 3 ∧ s.addrHave = 2 ∧ s.addrBytes 0 = a ∧
      s.addrBytes 1 = b := by
  generalize shape : [op, a, b] = bytes at framed
  cases framed with
  | idle => exact nomatch shape
  | address state _ need have' short kept =>
    obtain ⟨rfl, rfl⟩ := List.cons.inj shape
    exact ⟨state, rfl, need, have', kept 0 (by simp), kept 1 (by simp)⟩
  | read state which =>
    rw [← (List.cons.inj shape).1] at which
    rcases erase with rfl | rfl <;> exact absurd which (by decide)
  | program => exact nomatch shape
  | statusRead =>
    rw [(List.cons.inj shape).1] at erase
    exact absurd erase (by decide)
  | statusWrite => exact nomatch shape

theorem nil_inv (framed : s.Framed []) : s.state = .idle := by
  cases framed
  assumption

end Framed

theorem program_data {s : SpiFlash} {a b c : Byte} {sent : List Byte}
    (framed : s.Framed (0x02 :: a :: b :: c :: sent)) (latch : s.writeEnable = true) (d : Byte) :
    (s.step (.byte d)).data =
      Function.update s.data (pageAddress (addressOf a b c) sent.length % s.size)
        (s.data (pageAddress (addressOf a b c) sent.length % s.size) &&& d) := by
  obtain ⟨state, next⟩ := framed.program_inv
  rw [step, xfer, state, ← next]
  exact if_pos latch

theorem step_address {s : SpiFlash} {op a b c : Byte} (framed : s.Framed [op, a, b])
    (erase : op = 0x20 ∨ op = 0xD8) :
    ∃ t : SpiFlash, s.step (.byte c) = t.addressed ∧ t.cmd = op ∧ t.addr = addressOf a b c ∧
      t.size = s.size ∧ t.writeEnable = s.writeEnable := by
  obtain ⟨state, cmd, need, have', first, second⟩ := framed.erase_inv erase
  rw [step, xfer, state]
  dsimp only
  rw [addressByte_last need have' first second]
  exact ⟨_, rfl, cmd, rfl, rfl, rfl⟩

theorem erases_data {s : SpiFlash} {bytes : List Byte} {last : Byte} {i : Word}
    (framed : s.Framed bytes) (latch : s.writeEnable = true) (inside : i < s.size)
    (erases : Erases (bytes ++ [last]) i) : (s.step (.byte last)).data i = 0xFF := by
  generalize shape : bytes ++ [last] = whole at erases
  cases erases with
  | @sector a b c _ same =>
    have parts : bytes ++ [last] = [0x20, a, b] ++ [c] := shape
    obtain ⟨rfl, one⟩ := List.append_inj' parts rfl
    obtain rfl := List.singleton_inj.mp one
    obtain ⟨t, next, op, addr, size, latched⟩ := step_address (c := last) framed (.inl rfl)
    have cleared := erase_aligned (latched.trans latch) 12 (by decide) (size ▸ inside) same
    rw [next, addressed, op, addr]
    exact cleared
  | @block a b c _ same =>
    have parts : bytes ++ [last] = [0xD8, a, b] ++ [c] := shape
    obtain ⟨rfl, one⟩ := List.append_inj' parts rfl
    obtain rfl := List.singleton_inj.mp one
    obtain ⟨t, next, op, addr, size, latched⟩ := step_address (c := last) framed (.inr rfl)
    have cleared := erase_aligned (latched.trans latch) 16 (by decide) (size ▸ inside) same
    rw [next, addressed, op, addr]
    exact cleared
  | @chip op all _ =>
    have parts : bytes ++ [last] = [] ++ [op] := shape
    obtain ⟨rfl, one⟩ := List.append_inj' parts rfl
    obtain rfl := List.singleton_inj.mp one
    have erases : (s.command last).2 =
        { s with cmd := last, addr := 0, addrHave := 0, addrNeed := 0 }.erase 0 s.size := by
      rcases all with rfl | rfl <;> rfl
    rw [step, xfer, framed.nil_inv]
    dsimp only
    rw [erases]
    generalize begun : ({ s with cmd := last, addr := 0, addrHave := 0, addrNeed := 0 } : SpiFlash) =
      t
    have latch' : t.writeEnable = true := begun ▸ latch
    have inside' : i < t.size := begun ▸ inside
    have from0 : (0 : Word).toNat = 0 := rfl
    refine erase_at latch' ?_ ?_ ?_ inside'
    · rw [from0, Nat.zero_add]
      exact s.size.isLt
    · rw [BitVec.le_def, from0]
      exact Nat.zero_le _
    · rw [from0, Nat.zero_add]
      exact inside

theorem erase_statusBp (s : SpiFlash) (addr size : Word) :
    (s.erase addr size).statusBp = s.statusBp := by
  obtain ⟨data, eq⟩ := s.exists_erase_eq addr size
  rw [eq]

theorem command_statusBp (s : SpiFlash) (out : Byte) :
    (s.command out).2.statusBp = s.statusBp := by
  simp only [command]
  repeat' split
  all_goals first | rfl | exact erase_statusBp ..

theorem addressed_statusBp (s : SpiFlash) : s.addressed.statusBp = s.statusBp := by
  rw [addressed]
  repeat' split
  all_goals first | rfl | exact erase_statusBp ..

theorem bits_of_changed {s : SpiFlash} {bytes : List Byte} {e : Event} (framed : s.Framed bytes)
    (changed : (s.step e).statusBp ≠ s.statusBp) :
    bytes = [0x01] ∧ s.writeEnable = true ∧ ∃ out, e = .byte out := by
  cases e with
  | deassert => exact absurd rfl changed
  | byte out =>
    rw [step, xfer] at changed
    cases framed with
    | idle state =>
      rw [state] at changed
      exact absurd (command_statusBp s out) changed
    | address state op need have' short kept =>
      rw [state] at changed
      refine absurd ?_ changed
      simp only [addressByte]
      split
      · exact addressed_statusBp _
      · rfl
    | read state op =>
      rw [state] at changed
      refine absurd ?_ changed
      simp only [readNext]
      repeat' split
      all_goals rfl
    | program state op page next =>
      rw [state] at changed
      exact absurd rfl changed
    | statusRead state =>
      rw [state] at changed
      exact absurd rfl changed
    | statusWrite state =>
      rw [state] at changed
      refine ⟨rfl, ?_, out, rfl⟩
      by_contra closed
      dsimp only at changed
      rw [if_neg closed] at changed
      exact changed rfl

theorem protects_iff {s : SpiFlash} {bytes : List Byte} (framed : s.Framed bytes) (e : Event) :
    s.Protects bytes e ↔ (s.statusBp ≠ 0 → ¬ s.Damages bytes e) := by
  constructor
  · intro protects protected' damages
    cases damages with
    | @program latch d i inside selects clears =>
      obtain ⟨a, b, c, sent⟩ := selects
      have kept := protects.contents protected' _ inside
      rw [program_data framed latch, Function.update_self] at kept
      exact clears kept
    | @erase latch last i inside erases written =>
      have kept := protects.contents protected' _ inside
      rw [erases_data framed latch inside erases] at kept
      exact written kept.symm
  · intro harmless
    refine ⟨fun protected' i inside => ?_, bits_of_changed framed⟩
    by_contra differs
    have changes := ((lawful_step framed e).contents i inside).resolve_left differs
    generalize after : (s.step e).data i = value at changes differs
    cases changes with
    | program latch selects => exact harmless protected' (.program latch inside selects differs)
    | erase latch erases =>
      exact harmless protected' (.erase latch inside erases fun blank => differs blank.symm)

/-- The block-protect bits protect the contents throughout a run exactly where no event damages
these while a bit is set: the bits themselves stop none. -/
theorem block_protect_iff {s : SpiFlash} {bytes : List Byte} (framed : s.Framed bytes)
    (events : List Event) :
    Lib.Along stepFramed (fun at' e => at'.1.Protects at'.2 e) (s, bytes) events ↔
      Lib.Along stepFramed (fun at' e => at'.1.statusBp ≠ 0 → ¬ at'.1.Damages at'.2 e) (s, bytes)
        events := by
  have invariant (at' : SpiFlash × List Byte) (e : Event) (framed : at'.1.Framed at'.2) :
      (stepFramed at' e).1.Framed (stepFramed at' e).2 := framed_step framed e
  have throughout : Lib.Along stepFramed
      (fun (at' : SpiFlash × List Byte) (_ : Event) => at'.1.Framed at'.2) (s, bytes) events :=
    Lib.along_of_invariant (P := fun _ _ => True)
      (I := fun at' : SpiFlash × List Byte => at'.1.Framed at'.2) invariant (fun _ _ framed _ => framed)
      framed (Lib.along_of_forall fun _ _ => trivial)
  exact Lib.along_congr (fun _ e framed => protects_iff framed e) throughout

theorem block_protect_attached :
    Lib.Along stepFramed (fun at' e => at'.1.Protects at'.2 e) (attach 0x1000 fun _ => 0, [])
        [.byte 0x06, .byte 0x01, .byte 0x1C, .byte 0x06, .byte 0x20, .byte 0, .byte 0, .byte 0] ↔
      Lib.Along stepFramed (fun at' e => at'.1.statusBp ≠ 0 → ¬ at'.1.Damages at'.2 e)
        (attach 0x1000 fun _ => 0, [])
        [.byte 0x06, .byte 0x01, .byte 0x1C, .byte 0x06, .byte 0x20, .byte 0, .byte 0, .byte 0] :=
  block_protect_iff (.idle rfl) _

theorem block_protect_erased : ¬ ∀ (size : Word) (image : Word → Byte) (events : List Event),
    Lib.Along stepFramed (fun at' e => at'.1.Protects at'.2 e) (attach size image, []) events := by
  intro always
  have protects := always 0x1000 (fun _ => 0)
    [.byte 0x06, .byte 0x01, .byte 0x1C, .byte 0x06, .byte 0x20, .byte 0, .byte 0, .byte 0]
  have last := protects.2.2.2.2.2.2.2.1.contents (by decide) 0 (by decide)
  exact absurd last (by decide)

end SpiFlash

end M33mu
