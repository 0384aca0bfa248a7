import M33mu.Lib.Run
import M33mu.Stm32Rng
import M33mu.UsartQuiet

namespace M33mu

open Lib

namespace Usart

theorem index_ensureEnabled (u : Usart) (e : UsartEnv) : (u.ensureEnabled e).index = u.index := by
  rw [ensureEnabled]
  dsimp only
  split
  · split <;> rfl
  · split <;> rfl

theorem index_transmit (u : Usart) (writes : List WriteResult) (ch : Byte) :
    (u.transmit writes ch).2.index = u.index := by
  have watched : (u.watchMacro ch).index = u.index := by
    rw [watchMacro]
    split <;> rfl
  rw [transmit, ← watched, drain]
  dsimp only
  split <;> rfl

theorem index_read (u : Usart) (e : UsartEnv) (offset n : Word) :
    (u.read e offset n).2.index = u.index := by
  rw [read]
  split
  · rfl
  split
  · rfl
  split
  · rfl
  rw [← u.index_ensureEnabled e]
  dsimp only
  split
  · rfl
  · split <;> rfl

theorem index_write (u : Usart) (e : UsartEnv) (offset n value : Word) :
    (u.write e offset n value).2.2.index = u.index := by
  rw [write]
  split
  · rfl
  split
  · rfl
  split
  · rfl
  split
  · rw [← u.index_ensureEnabled e]
    dsimp only
    split
    · rfl
    · exact index_transmit ..
  · rfl

theorem checks_iff {α : Type} {P : α → Prop} {blocked few low : Prop} [Decidable blocked]
    [Decidable few] [Decidable low] {hidden out inner : α} (shown : ¬ P hidden) (refused : P out)
    (taken : ¬ P inner) :
    P (if blocked then hidden else if few then out else if low then out else inner) ↔
      ¬ blocked ∧ (few ∨ low) := by
  by_cases b : blocked
  · rw [if_pos b]
    exact iff_of_false shown fun is => is.1 b
  rw [if_neg b, and_iff_right b]
  by_cases f : few
  · rw [if_pos f]
    exact iff_of_true refused (.inl f)
  rw [if_neg f, or_iff_right f]
  by_cases l : low
  · rw [if_pos l]
    exact iff_of_true refused l
  · rw [if_neg l]
    exact iff_of_false taken l

theorem read_refused_iff (u : Usart) (e : UsartEnv) (offset n : Word) :
    (u.read e offset n).1 = none ↔ ¬ (u.secureOnly e = true ∧ e.sec = .nonsecure) ∧
      ((n = 0 ∨ 4 < n) ∨ size ≤ offset) := by
  refine checks_iff (P := fun r : Option Word × Usart => r.1 = none) (by simp) rfl ?_
  dsimp only
  split <;> nofun

theorem write_refused_iff (u : Usart) (e : UsartEnv) (offset n value : Word) :
    (u.write e offset n value).1 = false ↔ ¬ (u.secureOnly e = true ∧ e.sec = .nonsecure) ∧
      ((n = 0 ∨ 4 < n) ∨ size ≤ offset) := by
  refine checks_iff (P := fun r : Bool × List Byte × Usart => r.1 = false) (by simp) rfl ?_
  dsimp only
  split
  · split <;> nofun
  · nofun

end Usart

structure Periphs where
  ports : Fin 12 → Usart
  rng : Rng
  placed : ∀ i, (ports i).index = i

namespace Periphs

inductive Target
  | usart (i : Fin 12)
  | rng
  deriving DecidableEq, Repr

inductive Op
  | read (offset n : Word)
  | write (offset n value : Word)
  deriving DecidableEq, Repr

/-- An access that has been granted: its initiator and what it finds, its alias, what the host would
draw, and what it does to which peripheral. -/
structure Access where
  env : UsartEnv
  secAlias : Bool
  random : Word
  target : Target
  op : Op

/-- What an access shows: the value, or 0 for a write that is taken, the characters that are sent, and
whether a random word is drawn and an interrupt pended. -/
structure Answer where
  value : Option Word
  sent : List Byte
  drew : Bool
  pended : Bool
  deriving DecidableEq, Repr

def refused : Answer := ⟨none, [], false, false⟩

def setPort (s : Periphs) (i : Fin 12) (u : Usart) (same : u.index = (s.ports i).index) : Periphs where
  ports := Function.update s.ports i u
  rng := s.rng
  placed := by
    intro j
    by_cases here : j = i
    · subst here
      rw [Function.update_self, same, s.placed]
    · rw [Function.update_of_ne here, s.placed]

def ofRng (s : Periphs) (x : RngAnswer) : Answer × Periphs :=
  (⟨x.value, [], x.drew, x.pended⟩, { s with rng := x.rng })

def perform (s : Periphs) (a : Access) : Answer × Periphs :=
  match a.target, a.op with
  | .usart i, .read offset n =>
    if a.secAlias then (refused, s)
    else
      (⟨((s.ports i).read a.env offset n).1, [], false, false⟩,
        s.setPort i ((s.ports i).read a.env offset n).2 (Usart.index_read ..))
  | .usart i, .write offset n value =>
    if a.secAlias then (refused, s)
    else
      let r := (s.ports i).write a.env offset n value
      (⟨if r.1 then some 0 else none, r.2.1, false, false⟩,
        s.setPort i ((s.ports i).write a.env offset n value).2.2 (Usart.index_write ..))
  | .rng, .read offset n =>
    s.ofRng (s.rng.read a.secAlias a.env.tzsc a.env.rcc a.random offset.toNat n.toNat)
  | .rng, .write offset n value =>
    s.ofRng (s.rng.write a.secAlias a.env.tzsc a.env.rcc offset.toNat n.toNat value)

def step (s : Periphs) (a : Access) : Periphs := (s.perform a).2

def bitOf : Target → Option (Nat × Nat)
  | .usart i =>
    if i = 0 then some (0x14, 11)
    else if i = 1 then some (0x10, 13)
    else if i = 2 then some (0x10, 14)
    else if i = 5 then some (0x10, 21)
    else if i = 9 then some (0x10, 22)
    else if i = 10 then some (0x10, 23)
    else none
  | .rng => some (0x14, 18)

def Marked (tzsc : RegFile) (t : Target) : Prop :=
  ∃ p ∈ bitOf t, (tzsc.word p.1).getLsbD p.2 = true

def Same (s s' : Periphs) : Target → Prop
  | .usart i => s'.ports i = s.ports i
  | .rng => s'.rng = s.rng

def Access.unmarked (a : Access) : Access := { a with env := { a.env with tzsc := .zero } }

/-- The Non-secure state leaves the marked peripherals as they are and is shown nothing of them; for
the Secure state they are what they are without their bits. -/
def Guards (s : Periphs) (a : Access) : Prop :=
  match a.env.sec with
  | .nonsecure =>
    (∀ t, Marked a.env.tzsc t → s.Same (s.step a) t) ∧
      (Marked a.env.tzsc a.target → (∀ v ∈ (s.perform a).1.value, v = 0) ∧
        (s.perform a).1.sent = [] ∧ (s.perform a).1.drew = false)
  | .secure => Marked a.env.tzsc a.target → s.perform a = s.perform a.unmarked

/-- Where its bit is set, Non-secure code is kept out of a port, and any code out of the generator at
its Non-secure alias. -/
def Access.BarredFrom (a : Access) : Target → Prop
  | .usart _ => a.env.sec = .nonsecure
  | .rng => a.target = .rng → a.secAlias = false

def Target.HasMask : Target → Prop
  | .usart i => ¬ (i = 9 ∨ i = 10)
  | .rng => True

def Hides (s : Periphs) (a : Access) : Prop :=
  s.Same (s.step a) a.target ∧ (∀ v ∈ (s.perform a).1.value, v = 0) ∧ (s.perform a).1.sent = [] ∧
    (s.perform a).1.drew = false

/-- The marked peripherals are as they were after what is barred from them, which is shown nothing of
them; to the rest they are what they are without their bits. No access is refused for a bit. -/
def Shields (s : Periphs) (a : Access) : Prop :=
  ((s.perform a).1.value = none → (s.perform a.unmarked).1.value = none) ∧
  (∀ t : Target, t.HasMask → Marked a.env.tzsc t → a.BarredFrom t → s.Same (s.step a) t) ∧
  (a.target.HasMask → Marked a.env.tzsc a.target →
    (a.BarredFrom a.target → s.Hides a) ∧
      (¬ a.BarredFrom a.target → s.perform a = s.perform a.unmarked))

end Periphs

def Usart.Quiet (u : Usart) (e : UsartEnv) : Periphs.Op → Prop
  | .read offset n => u.ReadsNothing e offset n
  | .write offset n value => u.WritesNothing e offset n value

def Rng.Quiet (r : Rng) (rcc : RegFile) : Periphs.Op → Prop
  | .read offset n =>
    Reaches rcc offset.toNat n.toNat → r.ReadsNothing offset.toNat n.toNat
  | .write offset n value =>
    Reaches rcc offset.toNat n.toNat → r.WritesNothing offset.toNat n.toNat value

def Rng.Silent (r : Rng) (rcc : RegFile) : Periphs.Op → Prop
  | .read .. => True
  | .write offset n value => Reaches rcc offset.toNat n.toNat → ¬ r.Asks offset.toNat value

namespace Rng

variable {r : Rng} {secAlias : Bool} {tzsc rcc : RegFile} {random value : Word} {offset n : Word}

theorem requiresSecure_zero : requiresSecure .zero = false := by decide

theorem readAny_isSome (r : Rng) (random : Word) (offset n : Nat) :
    (r.readAny random offset n).value.isSome = true := by
  rw [readAny]
  dsimp only
  split
  · rfl
  · split <;> rfl

theorem read_unseen_iff (passes : ¬ (secAlias = false ∧ requiresSecure tzsc = true)) :
    (r.read secAlias tzsc rcc random offset.toNat n.toNat).rng = r ∧
      (∀ v ∈ (r.read secAlias tzsc rcc random offset.toNat n.toNat).value, v = 0) ∧
      (r.read secAlias tzsc rcc random offset.toNat n.toNat).drew = false ↔
      r.Quiet rcc (.read offset n) := by
  rw [read, Quiet]
  by_cases reaches : Reaches rcc offset.toNat n.toNat
  · rw [gate_of_reaches reaches, if_neg passes, forall_prop_of_true reaches,
      ← readAny_unseen_iff r random]
    obtain ⟨v, is⟩ := Option.isSome_iff_exists.mp (readAny_isSome r random offset.toNat n.toNat)
    simp only [is, Option.mem_def, Option.some.injEq, forall_eq']
    exact and_rotate
  · rw [gate_of_not_reaches reaches]
    exact iff_of_true ⟨missed_rng, missed_value, missed_drew⟩ fun is => absurd is reaches

theorem write_unseen_iff (passes : ¬ (secAlias = false ∧ requiresSecure tzsc = true)) :
    (r.write secAlias tzsc rcc offset.toNat n.toNat value).rng = r ∧
      (∀ v ∈ (r.write secAlias tzsc rcc offset.toNat n.toNat value).value, v = 0) ∧
      (r.write secAlias tzsc rcc offset.toNat n.toNat value).drew = false ↔
      r.Quiet rcc (.write offset n value) := by
  rw [write, Quiet]
  by_cases reaches : Reaches rcc offset.toNat n.toNat
  · rw [gate_of_reaches reaches, if_neg passes, forall_prop_of_true reaches,
      ← writeAny_rng_iff r reaches.2.1]
    refine and_iff_left ?_
    rw [writeAny_eq]
    exact ⟨fun v is => (Option.some.inj is).symm, rfl⟩
  · rw [gate_of_not_reaches reaches]
    exact iff_of_true ⟨missed_rng, missed_value, missed_drew⟩ fun is => absurd is reaches

theorem gate_shut {offset n : Nat} {inner : RngAnswer} (set : requiresSecure tzsc = true) :
    (r.gate false tzsc rcc offset n inner).rng = r ∧
      (∀ v ∈ (r.gate false tzsc rcc offset n inner).value, v = 0) ∧
      (r.gate false tzsc rcc offset n inner).drew = false := by
  by_cases reaches : Reaches rcc offset n
  · rw [gate_of_reaches reaches, if_pos ⟨rfl, set⟩]
    exact ⟨rfl, fun v is => (Option.some.inj is).symm, rfl⟩
  · rw [gate_of_not_reaches reaches]
    exact ⟨missed_rng, missed_value, missed_drew⟩

theorem gate_answers {offset n : Nat} {inner : RngAnswer} (tzsc' : RegFile)
    (answers : inner.value.isSome = true)
    (out : (r.gate secAlias tzsc rcc offset n inner).value = none) :
    (r.gate secAlias tzsc' rcc offset n inner).value = none := by
  by_cases reaches : Reaches rcc offset n
  · rw [gate_of_reaches reaches] at out
    split at out
    · cases out
    · rw [out] at answers
      cases answers
  · rw [gate_of_not_reaches reaches] at out ⊢
    exact out

theorem gate_secAlias {offset n : Nat} {inner : RngAnswer} (tzsc' : RegFile) :
    r.gate true tzsc rcc offset n inner = r.gate true tzsc' rcc offset n inner := by
  simp [gate]

theorem read_unmarked_iff (set : requiresSecure tzsc = true) :
    r.read false tzsc rcc random offset.toNat n.toNat =
      r.read false .zero rcc random offset.toNat n.toNat ↔
      r.Quiet rcc (.read offset n) ∧ r.Silent rcc (.read offset n) := by
  rw [read, read, Quiet, Silent, and_true]
  by_cases reaches : Reaches rcc offset.toNat n.toNat
  · rw [gate_of_reaches reaches, gate_of_reaches reaches, set, requiresSecure_zero,
      if_pos ⟨rfl, rfl⟩, if_neg (by decide), forall_prop_of_true reaches,
      ← readAny_idle_iff r random]
    exact eq_comm
  · rw [gate_of_not_reaches reaches, gate_of_not_reaches reaches]
    exact iff_of_true rfl fun is => absurd is reaches

theorem write_unmarked_iff (set : requiresSecure tzsc = true) :
    r.write false tzsc rcc offset.toNat n.toNat value =
      r.write false .zero rcc offset.toNat n.toNat value ↔
      r.Quiet rcc (.write offset n value) ∧ r.Silent rcc (.write offset n value) := by
  rw [write, write, Quiet, Silent]
  by_cases reaches : Reaches rcc offset.toNat n.toNat
  · rw [gate_of_reaches reaches, gate_of_reaches reaches, set, requiresSecure_zero,
      if_pos ⟨rfl, rfl⟩, if_neg (by decide), forall_prop_of_true reaches,
      forall_prop_of_true reaches, ← writeAny_idle_iff r reaches.2.1]
    exact eq_comm
  · rw [gate_of_not_reaches reaches, gate_of_not_reaches reaches]
    exact iff_of_true rfl ⟨fun is => absurd is reaches, fun is => absurd is reaches⟩

end Rng

namespace Periphs

/-- Where the ports ten and eleven, and the aliases of the generator, let through or keep out what they
should not, there is nothing to do. -/
def Fits (s : Periphs) (a : Access) : Prop :=
  Marked a.env.tzsc a.target →
    match a.target, a.env.sec with
    | .usart i, .nonsecure => i = 9 ∨ i = 10 → a.secAlias = false → (s.ports i).Quiet a.env a.op
    | .usart _, .secure => True
    | .rng, .nonsecure => a.secAlias = true → s.rng.Quiet a.env.rcc a.op
    | .rng, .secure =>
      a.secAlias = false → s.rng.Quiet a.env.rcc a.op ∧ s.rng.Silent a.env.rcc a.op

theorem marked_iff {tzsc : RegFile} {t : Target} {reg bit : Nat} (is : bitOf t = some (reg, bit)) :
    Marked tzsc t ↔ (tzsc.word reg).getLsbD bit = true := by
  simp [Marked, is]

theorem marked_rng_iff (tzsc : RegFile) : Marked tzsc .rng ↔ Rng.requiresSecure tzsc = true := by
  rw [Rng.requiresSecure, shift_bit]
  exact marked_iff rfl

theorem secBitmask_cases (i : Fin 12) :
    (∃ bit < 32, Usart.secBitmask i = (1 : Word) <<< bit ∧
      bitOf (.usart i) = some (Usart.secReg i, bit) ∧ i ≠ 9 ∧ i ≠ 10) ∨
    Usart.secBitmask i = 0 ∧ (bitOf (.usart i) = none ∨ i = 9 ∨ i = 10) := by
  revert i
  decide

theorem secureOnly_iff (u : Usart) (e : UsartEnv) :
    u.secureOnly e = true ↔
      Marked e.tzsc (.usart u.index) ∧ ¬ (u.index = 9 ∨ u.index = 10) := by
  rw [Usart.secureOnly, decide_eq_true_iff]
  obtain ⟨bit, low, mask, is, other⟩ | ⟨empty, why⟩ := secBitmask_cases u.index
  · rw [mask, and_bit_ne _ low, marked_iff is, not_or]
    exact (and_iff_left other).symm
  · rw [empty]
    refine iff_of_false (fun is => is BitVec.and_zero) fun is => ?_
    obtain ⟨p, here, -⟩ := is.1
    rw [why.resolve_right is.2] at here
    cases here

theorem same_setPort_iff (s : Periphs) (i : Fin 12) (u : Usart)
    (same : u.index = (s.ports i).index) (t : Target) :
    s.Same (s.setPort i u same) t ↔ (t = .usart i → u = s.ports i) := by
  cases t with
  | rng => exact iff_of_true rfl nofun
  | usart j =>
    rw [Same, setPort]
    dsimp only
    by_cases here : j = i
    · subst here
      rw [Function.update_self]
      exact ⟨fun is _ => is, fun is => is rfl⟩
    · rw [Function.update_of_ne here]
      exact iff_of_true rfl fun is => absurd (Target.usart.inj is) here

variable {s : Periphs} {a : Access} {i : Fin 12}

theorem same_step {t : Target} (other : t ≠ a.target) : s.Same (s.step a) t := by
  obtain ⟨env, secAlias, random, target, op⟩ := a
  rw [step, perform]
  cases target with
  | usart i =>
    cases op with
    | read offset n =>
      dsimp only
      split
      · cases t <;> rfl
      · rw [same_setPort_iff]
        exact fun is => absurd is other
    | write offset n value =>
      dsimp only
      split
      · cases t <;> rfl
      · rw [same_setPort_iff]
        exact fun is => absurd is other
  | rng =>
    cases t with
    | usart j => cases op <;> rfl
    | rng => exact absurd rfl other

theorem guards_nonsecure_iff (sec : a.env.sec = .nonsecure) :
    s.Guards a ↔ (Marked a.env.tzsc a.target → s.Hides a) := by
  rw [Guards, sec]
  constructor
  · rintro ⟨kept, shown⟩ marked
    exact ⟨kept _ marked, shown marked⟩
  · intro hides
    refine ⟨fun t marked => ?_, fun marked => (hides marked).2⟩
    by_cases here : t = a.target
    · subst here
      exact (hides marked).1
    · exact same_step here

theorem hides_of_unmapped (here : a.target = .usart i) (secAlias : a.secAlias = true) :
    s.Hides a := by
  have unmapped : s.perform a = (refused, s) := by
    rw [perform, here]
    cases a.op with
    | read => exact if_pos secAlias
    | write => exact if_pos secAlias
  rw [Hides, step, unmapped, here]
  exact ⟨rfl, nofun, rfl, rfl⟩

theorem hides_read_iff {offset n : Word} (here : a.target = .usart i) (op : a.op = .read offset n)
    (mapped : a.secAlias = false) :
    s.Hides a ↔ (∀ v ∈ ((s.ports i).read a.env offset n).1, v = 0) ∧
      ((s.ports i).read a.env offset n).2 = s.ports i := by
  have done : s.perform a = (⟨((s.ports i).read a.env offset n).1, [], false, false⟩,
      s.setPort i ((s.ports i).read a.env offset n).2 (Usart.index_read ..)) := by
    rw [perform, here, op]
    exact if_neg (Bool.eq_false_iff.mp mapped)
  rw [Hides, step, done, here, same_setPort_iff, forall_prop_of_true rfl, and_comm]
  exact and_congr_left' (and_iff_left ⟨rfl, rfl⟩)

theorem hides_write_iff {offset n value : Word} (here : a.target = .usart i)
    (op : a.op = .write offset n value) (mapped : a.secAlias = false) :
    s.Hides a ↔ ((s.ports i).write a.env offset n value).2.1 = [] ∧
      ((s.ports i).write a.env offset n value).2.2 = s.ports i := by
  have done : s.perform a = (⟨if ((s.ports i).write a.env offset n value).1 then some 0 else none,
      ((s.ports i).write a.env offset n value).2.1, false, false⟩,
      s.setPort i ((s.ports i).write a.env offset n value).2.2 (Usart.index_write ..)) := by
    rw [perform, here, op]
    exact if_neg (Bool.eq_false_iff.mp mapped)
  have zero (taken : Bool) : ∀ v ∈ (if taken then some (0 : Word) else none), v = 0 := by
    cases taken with
    | true => exact fun v is => (Option.some.inj is).symm
    | false => exact nofun
  rw [Hides, step, done, here, same_setPort_iff, forall_prop_of_true rfl, and_comm]
  exact and_congr_left' ⟨fun is => is.2.1, fun none' => ⟨zero _, none', rfl⟩⟩

theorem hides_usart_iff (sec : a.env.sec = .nonsecure) (here : a.target = .usart i)
    (marked : Marked a.env.tzsc (.usart i)) :
    s.Hides a ↔ (i = 9 ∨ i = 10 → a.secAlias = false → (s.ports i).Quiet a.env a.op) := by
  by_cases secAlias : a.secAlias = true
  · exact iff_of_true (hides_of_unmapped here secAlias) fun _ mapped => by
      rw [secAlias] at mapped
      cases mapped
  have mapped := Bool.eq_false_iff.mpr secAlias
  rw [forall_prop_of_true mapped]
  have only := secureOnly_iff (s.ports i) a.env
  rw [s.placed, and_iff_right marked] at only
  by_cases missed : i = 9 ∨ i = 10
  · have heard : ¬ ((s.ports i).secureOnly a.env = true ∧ a.env.sec = .nonsecure) :=
      fun is => only.mp is.1 missed
    rw [forall_prop_of_true missed]
    cases op : a.op with
    | read offset n =>
      rw [hides_read_iff here op mapped]
      exact Usart.read_nothing_iff heard
    | write offset n value =>
      rw [hides_write_iff here op mapped]
      refine Usart.write_nothing_iff ?_ heard
      rw [s.placed]
      obtain rfl | rfl := missed <;> decide
  · have blocked : (s.ports i).secureOnly a.env = true ∧ a.env.sec = .nonsecure :=
      ⟨only.mpr missed, sec⟩
    refine iff_of_true ?_ fun is => absurd is missed
    cases op : a.op with
    | read offset n =>
      rw [hides_read_iff here op mapped, Usart.read, if_pos blocked]
      exact ⟨fun v is => (Option.some.inj is).symm, rfl⟩
    | write offset n value =>
      rw [hides_write_iff here op mapped, Usart.write, if_pos blocked]
      exact ⟨rfl, rfl⟩

theorem hides_rng_iff (here : a.target = .rng) (marked : Marked a.env.tzsc .rng) :
    s.Hides a ↔ (a.secAlias = true → s.rng.Quiet a.env.rcc a.op) := by
  rw [marked_rng_iff] at marked
  have shown (x : RngAnswer) (done : s.perform a = s.ofRng x) :
      s.Hides a ↔ x.rng = s.rng ∧ (∀ v ∈ x.value, v = 0) ∧ x.drew = false := by
    rw [Hides, step, done, here]
    exact and_congr_right' (and_congr_right' (and_iff_right rfl))
  by_cases secAlias : a.secAlias = true
  · have passes : ¬ (a.secAlias = false ∧ Rng.requiresSecure a.env.tzsc = true) :=
      fun is => Bool.false_ne_true (is.1.symm.trans secAlias)
    rw [forall_prop_of_true secAlias]
    cases op : a.op with
    | read offset n =>
      exact (shown _ (by rw [perform, here, op])).trans (Rng.read_unseen_iff passes)
    | write offset n value =>
      exact (shown _ (by rw [perform, here, op])).trans (Rng.write_unseen_iff passes)
  · refine iff_of_true ?_ fun is => absurd is secAlias
    have shut := Bool.eq_false_iff.mpr secAlias
    cases op : a.op with
    | read offset n =>
      refine (shown _ (by rw [perform, here, op])).mpr ?_
      rw [shut]
      exact Rng.gate_shut marked
    | write offset n value =>
      refine (shown _ (by rw [perform, here, op])).mpr ?_
      rw [shut]
      exact Rng.gate_shut marked

theorem unmarked_usart (sec : a.env.sec = .secure) (here : a.target = .usart i) :
    s.perform a = s.perform a.unmarked := by
  have heard (e : UsartEnv) (sec : e.sec = .secure) :
      ¬ ((s.ports i).secureOnly e = true ∧ e.sec = .nonsecure) := by
    rw [sec]
    exact fun is => nomatch is.2
  have same (offset n : Word) : (s.ports i).read a.env offset n =
      (s.ports i).read a.unmarked.env offset n := by
    rw [Usart.read, Usart.read, if_neg (heard a.env sec),
      if_neg (heard a.unmarked.env sec)]
    rfl
  have same' (offset n value : Word) : (s.ports i).write a.env offset n value =
      (s.ports i).write a.unmarked.env offset n value := by
    rw [Usart.write, Usart.write, if_neg (heard a.env sec),
      if_neg (heard a.unmarked.env sec)]
    rfl
  rw [perform, perform, show a.unmarked.target = .usart i from here,
    show a.unmarked.op = a.op from rfl, here]
  cases op : a.op with
  | read offset n =>
    simp only [same]
    rfl
  | write offset n value =>
    simp only [same']
    rfl

theorem not_secureOnly_unmarked (u : Usart) (a : Access) :
    ¬ (u.secureOnly a.unmarked.env = true ∧ a.unmarked.env.sec = .nonsecure) := by
  rintro ⟨only, -⟩
  obtain ⟨p, -, set⟩ := ((secureOnly_iff ..).mp only).1
  have clear : a.unmarked.env.tzsc.word p.1 = 0 := by
    change (0 : BitVec 8) ++ (0 : BitVec 8) ++ (0 : BitVec 8) ++ (0 : BitVec 8) = (0 : Word)
    decide
  rw [clear] at set
  simp at set

theorem answers (s : Periphs) (a : Access) (out : (s.perform a).1.value = none) :
    (s.perform a.unmarked).1.value = none := by
  rw [perform] at out ⊢
  rw [show a.unmarked.target = a.target from rfl, show a.unmarked.op = a.op from rfl,
    show a.unmarked.secAlias = a.secAlias from rfl]
  cases here : a.target with
  | usart i =>
    rw [here] at out
    by_cases unmapped : a.secAlias = true
    · cases op : a.op <;> simp [unmapped, refused]
    have open' := not_secureOnly_unmarked (s.ports i) a
    cases op : a.op with
    | read offset n =>
      rw [op] at out
      dsimp only at out ⊢
      rw [if_neg unmapped] at out ⊢
      exact (Usart.read_refused_iff ..).mpr ⟨open', ((Usart.read_refused_iff ..).mp out).2⟩
    | write offset n value =>
      rw [op] at out
      dsimp only at out ⊢
      rw [if_neg unmapped] at out ⊢
      have refused' (taken : Bool) : (if taken then some (0 : Word) else none) = none ↔
          taken = false := by
        cases taken <;> simp
      refine (refused' _).mpr ((Usart.write_refused_iff ..).mpr ⟨open', ?_⟩)
      exact ((Usart.write_refused_iff ..).mp ((refused' _).mp out)).2
  | rng =>
    cases op : a.op with
    | read offset n =>
      rw [here, op] at out
      exact Rng.gate_answers .zero (Rng.readAny_isSome ..) out
    | write offset n value =>
      rw [here, op] at out
      refine Rng.gate_answers .zero ?_ out
      rw [Rng.writeAny_eq]
      rfl

theorem ofRng_inj {x y : RngAnswer} : s.ofRng x = s.ofRng y ↔ x = y := by
  obtain ⟨value, drew, pended, rng⟩ := x
  obtain ⟨value', drew', pended', rng'⟩ := y
  simp only [ofRng, Prod.mk.injEq, Answer.mk.injEq, Periphs.mk.injEq, RngAnswer.mk.injEq, true_and,
    and_assoc]

theorem unmarked_rng_iff (here : a.target = .rng) (marked : Marked a.env.tzsc .rng) :
    s.perform a = s.perform a.unmarked ↔
      (a.secAlias = false → s.rng.Quiet a.env.rcc a.op ∧ s.rng.Silent a.env.rcc a.op) := by
  rw [marked_rng_iff] at marked
  rw [perform, perform, show a.unmarked.target = .rng from here,
    show a.unmarked.op = a.op from rfl, here]
  by_cases secAlias : a.secAlias = true
  · refine iff_of_true ?_ fun is => absurd (is.symm.trans secAlias) Bool.false_ne_true
    have same : a.unmarked.secAlias = true := secAlias
    cases op : a.op with
    | read offset n =>
      refine ofRng_inj.mpr ?_
      rw [secAlias, same]
      exact Rng.gate_secAlias .zero
    | write offset n value =>
      refine ofRng_inj.mpr ?_
      rw [secAlias, same]
      exact Rng.gate_secAlias .zero
  · have shut := Bool.eq_false_iff.mpr secAlias
    have same : a.unmarked.secAlias = false := shut
    rw [forall_prop_of_true shut]
    cases op : a.op with
    | read offset n =>
      refine ofRng_inj.trans ?_
      rw [shut, same]
      exact Rng.read_unmarked_iff marked
    | write offset n value =>
      refine ofRng_inj.trans ?_
      rw [shut, same]
      exact Rng.write_unmarked_iff marked

theorem guards_iff (s : Periphs) (a : Access) : s.Guards a ↔ s.Fits a := by
  cases sec : a.env.sec with
  | nonsecure =>
    rw [guards_nonsecure_iff sec, Fits, sec]
    refine forall_congr' fun marked => ?_
    cases here : a.target with
    | usart i =>
      rw [here] at marked
      exact hides_usart_iff sec here marked
    | rng =>
      rw [here] at marked
      exact hides_rng_iff here marked
  | secure =>
    rw [Guards, Fits, sec]
    refine forall_congr' fun marked => ?_
    cases here : a.target with
    | usart i => exact iff_of_true (unmarked_usart sec here) trivial
    | rng =>
      rw [here] at marked
      exact unmarked_rng_iff here marked

theorem hides_of_barred (mask : a.target.HasMask) (marked : Marked a.env.tzsc a.target)
    (barred : a.BarredFrom a.target) : s.Hides a := by
  cases here : a.target with
  | usart i =>
    rw [here] at mask marked barred
    exact (hides_usart_iff barred here marked).mpr fun is => absurd is mask
  | rng =>
    rw [here] at marked barred
    have shut := barred here
    exact (hides_rng_iff here marked).mpr fun is => absurd (shut.symm.trans is) Bool.false_ne_true

theorem unmarked_of_not_barred (marked : Marked a.env.tzsc a.target)
    (free : ¬ a.BarredFrom a.target) : s.perform a = s.perform a.unmarked := by
  cases here : a.target with
  | usart i =>
    rw [here] at free
    cases sec : a.env.sec with
    | secure => exact unmarked_usart sec here
    | nonsecure => exact absurd sec free
  | rng =>
    rw [here] at marked free
    exact (unmarked_rng_iff here marked).mpr fun shut => absurd (fun _ => shut) free

theorem shields (s : Periphs) (a : Access) : s.Shields a := by
  refine ⟨answers s a, fun t mask marked barred => ?_, fun mask marked => ⟨hides_of_barred mask marked,
    unmarked_of_not_barred marked⟩⟩
  by_cases here : t = a.target
  · subst here
    exact (hides_of_barred mask marked barred).1
  · exact same_step here

theorem Same.trans {s₁ s₂ s₃ : Periphs} {t : Target} (first : s₁.Same s₂ t) (next : s₂.Same s₃ t) :
    s₁.Same s₃ t := by
  cases t with
  | usart i => exact Eq.trans next first
  | rng => exact Eq.trans next first

theorem Same.refl (s : Periphs) (t : Target) : s.Same s t := by
  cases t <;> rfl

theorem same_run {t : Target} (mask : t.HasMask) (as : List Access)
    (barred : ∀ a ∈ as, Marked a.env.tzsc t ∧ a.BarredFrom t) : s.Same (run step s as) t := by
  induction as generalizing s with
  | nil => exact .refl s t
  | cons a as ih =>
    obtain ⟨marked, out⟩ := barred a (.head as)
    have first := (s.shields a).2.1 t mask marked out
    exact first.trans (ih fun b later => barred b (.tail a later))

/-- Each step of any run respects the bits, and a run of accesses that are barred from a peripheral
ends with the peripheral as it was. -/
theorem shields_run (s : Periphs) (as : List Access) :
    Along step Shields s as ∧
      ∀ t : Target, t.HasMask → (∀ a ∈ as, Marked a.env.tzsc t ∧ a.BarredFrom t) →
        s.Same (run step s as) t :=
  ⟨along_of_forall shields, fun _ mask => same_run mask as⟩

theorem along_guards_iff (s : Periphs) (as : List Access) :
    Along step Guards s as ↔ Along step Fits s as :=
  along_congr (fun s a _ => guards_iff s a) (along_of_forall fun _ _ => trivial)

section Init

def init : Periphs where
  ports i := ⟨i, RegFile.zero.setWord 0x1C Usart.isrTxe, UartIo.init, false, 0, false⟩
  rng := ⟨(RegFile.zero.setWord 0x00 0x00871F00).setWord 0x10 0x000072AC, 0, false⟩
  placed _ := rfl

def allMarked (sec : SecState) : UsartEnv where
  sec := sec
  tzsc := fun _ => 0xFF
  rcc := RegFile.zero.setWord 0x8C (1 <<< 18)
  stdout := false
  terminal := false
  writes := []

def viaSecAlias : Access := ⟨allMarked .nonsecure, true, 0x12345678, .rng, .read 0x08 4⟩

def viaOtherAlias : Access := ⟨allMarked .secure, false, 0x12345678, .rng, .read 0x08 4⟩

def tenthPort : Access := ⟨allMarked .nonsecure, false, 0, .usart 9, .read 0x1C 4⟩

theorem not_guards :
    ¬ Along step Guards init [viaSecAlias] ∧ ¬ Along step Guards init [viaOtherAlias] ∧
      ¬ Along step Guards init [tenthPort] := by
  have rng : Marked (fun _ => 0xFF) .rng := ⟨(0x14, 18), rfl, by decide⟩
  have tenth : Marked (fun _ => 0xFF) (.usart 9) := ⟨(0x10, 22), rfl, by decide⟩
  refine ⟨fun along => ?_, fun along => ?_, fun along => ?_⟩
  · have shown := (along.1.2 rng).2.2
    revert shown
    decide
  · have same := congrArg (fun r => r.1.value) (along.1 rng)
    revert same
    decide
  · have shown := (along.1.2 tenth).1 0x80 (by decide)
    revert shown
    decide

end Init

end Periphs

end M33mu
