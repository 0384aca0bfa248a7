import M33mu.Types

/-!
The two representations of an IT block: `ITSTATE` packed into xPSR, and the triple of pattern,
remaining count and condition that the main loop caches.
-/

namespace M33mu

structure Flags where
  n : Bool
  z : Bool
  c : Bool
  v : Bool
  deriving DecidableEq, Repr

def Flags.ofXpsr (xpsr : Word) : Flags :=
  ⟨xpsr.getLsbD 31, xpsr.getLsbD 30, xpsr.getLsbD 29, xpsr.getLsbD 28⟩

/-- The switch over `enum mm_cond`; `MM_COND_NV` and what lies beyond never pass. -/
def condPassed (f : Flags) (cond : Byte) : Bool :=
  match cond.toNat with
  | 0 => f.z
  | 1 => !f.z
  | 2 => f.c
  | 3 => !f.c
  | 4 => f.n
  | 5 => !f.n
  | 6 => f.v
  | 7 => !f.v
  | 8 => f.c && !f.z
  | 9 => !f.c || f.z
  | 10 => f.n == f.v
  | 11 => f.n != f.v
  | 12 => !f.z && (f.n == f.v)
  | 13 => f.z || (f.n != f.v)
  | 14 => true
  | _ => false

/-- `it_pattern`, `it_remaining` and `it_cond` of the main loop. -/
structure ItCache where
  pattern : Byte
  remaining : Byte
  cond : Byte
  deriving DecidableEq, Repr

namespace ItState

def maskRemaining (mask : Byte) : Nat :=
  match [0, 1, 2, 3].find? fun i => mask.getLsbD i with
  | some i => 4 - i
  | none => 0

def maskToPattern (cond mask : Byte) : Byte × Byte :=
  let remaining := maskRemaining mask
  if remaining = 0 then (0, 0)
  else
    let pattern := (List.range' 1 (remaining - 1)).foldl
      (fun p i => p ||| (if mask.getLsbD (4 - i) then 0#8 else 1#8) <<< i) 1#8
    let pattern :=
      if cond.getLsbD 0 && 1 < remaining then pattern ^^^ ((1#8 <<< remaining - 1) &&& 0x0e)
      else pattern
    (pattern, BitVec.ofNat 8 remaining)

def get (xpsr : Word) : Byte :=
  let hi6 := (xpsr >>> 10 &&& 0x3f).setWidth 8
  let lo2 := (xpsr >>> 25 &&& 0x3).setWidth 8
  hi6 <<< 2 ||| lo2

def set (xpsr : Word) (itstate : Byte) : Word :=
  (xpsr &&& ~~~0x0600FC00#32) ||| (itstate &&& 0x3).setWidth 32 <<< 25 |||
    (itstate >>> 2 &&& 0x3f).setWidth 32 <<< 10

def advance (itstate : Byte) : Byte :=
  if itstate &&& 0x0f = 0 then 0
  else
    let next := (itstate &&& 0xE0) ||| ((itstate &&& 0x1F) <<< 1)
    if next &&& 0x0f = 0 then 0 else next

/-- The triple that an `ITSTATE` byte stands for. -/
def decode (itstate : Byte) : ItCache :=
  let cond := itstate >>> 4
  let (pattern, remaining) := maskToPattern cond (itstate &&& 0x0f)
  ⟨pattern, remaining, cond⟩

def syncFromXpsr (xpsr : Word) : ItCache := decode (get xpsr)

theorem getLsbD_get (xpsr : Word) {i : Nat} (hi : i < 8) :
    (get xpsr).getLsbD i = if i < 2 then xpsr.getLsbD (25 + i) else xpsr.getLsbD (8 + i) := by
  have cases : i = 0 ∨ i = 1 ∨ i = 2 ∨ i = 3 ∨ i = 4 ∨ i = 5 ∨ i = 6 ∨ i = 7 := by omega
  rcases cases with rfl | rfl | rfl | rfl | rfl | rfl | rfl | rfl <;> simp [get]

theorem get_congr {x y : Word} (h : ∀ i, 10 ≤ i → i < 27 → x.getLsbD i = y.getLsbD i) :
    get x = get y := by
  apply BitVec.eq_of_getLsbD_eq
  intro i hi
  rw [getLsbD_get x hi, getLsbD_get y hi]
  split <;> exact h _ (by omega) (by omega)

theorem getLsbD_set (xpsr : Word) (itstate : Byte) {i : Nat} (hi : i < 8) :
    (set xpsr itstate).getLsbD (if i < 2 then 25 + i else 8 + i) = itstate.getLsbD i := by
  have cases : i = 0 ∨ i = 1 ∨ i = 2 ∨ i = 3 ∨ i = 4 ∨ i = 5 ∨ i = 6 ∨ i = 7 := by omega
  rcases cases with rfl | rfl | rfl | rfl | rfl | rfl | rfl | rfl <;> simp [set]

@[simp] theorem get_set (xpsr : Word) (itstate : Byte) : get (set xpsr itstate) = itstate := by
  apply BitVec.eq_of_getLsbD_eq
  intro i hi
  rw [getLsbD_get _ hi, ← getLsbD_set xpsr itstate hi]
  split <;> rfl

theorem get_entry (xpsr num : Word) :
    get ((xpsr &&& 0xF8000000) ||| 0x01000000 ||| (num &&& 0x1FF)) = 0 := by
  apply BitVec.eq_of_getLsbD_eq
  intro i hi
  have cases : i = 0 ∨ i = 1 ∨ i = 2 ∨ i = 3 ∨ i = 4 ∨ i = 5 ∨ i = 6 ∨ i = 7 := by omega
  rw [getLsbD_get _ hi]
  rcases cases with rfl | rfl | rfl | rfl | rfl | rfl | rfl | rfl <;> simp

theorem get_or_thumb (xpsr : Word) : get (xpsr ||| 0x01000000) = get xpsr := by
  apply BitVec.eq_of_getLsbD_eq
  intro i hi
  have cases : i = 0 ∨ i = 1 ∨ i = 2 ∨ i = 3 ∨ i = 4 ∨ i = 5 ∨ i = 6 ∨ i = 7 := by omega
  rw [getLsbD_get _ hi, getLsbD_get _ hi]
  rcases cases with rfl | rfl | rfl | rfl | rfl | rfl | rfl | rfl <;> simp

theorem get_and_not_ipsr (xpsr : Word) : get (xpsr &&& ~~~0x1FF#32) = get xpsr := by
  apply BitVec.eq_of_getLsbD_eq
  intro i hi
  have cases : i = 0 ∨ i = 1 ∨ i = 2 ∨ i = 3 ∨ i = 4 ∨ i = 5 ∨ i = 6 ∨ i = 7 := by omega
  rw [getLsbD_get _ hi, getLsbD_get _ hi]
  rcases cases with rfl | rfl | rfl | rfl | rfl | rfl | rfl | rfl <;> simp

end ItState

namespace ItCache

def takes (it : ItCache) (f : Flags) : Bool :=
  if it.pattern.getLsbD 0 then condPassed f it.cond else !condPassed f it.cond

def advance (it : ItCache) : ItCache := { it with pattern := it.pattern >>> 1, remaining := it.remaining - 1 }

end ItCache

end M33mu
