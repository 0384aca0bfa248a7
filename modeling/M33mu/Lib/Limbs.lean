import Mathlib.Data.Nat.Digits.Defs
import Mathlib.Tactic.Ring

namespace M33mu.Lib

/-- Each limb of a chain makes, of the sum of its column and the carry in, a limb and a carry. -/
inductive Ripple (B : ℕ) : ℕ → List ℕ → List ℕ → ℕ → Prop
  | nil (c : ℕ) : Ripple B c [] [] c
  | cons {c next out column limb : ℕ} {columns limbs : List ℕ}
    (step : limb + B * next = column + c) (rest : Ripple B next columns limbs out) :
    Ripple B c (column :: columns) (limb :: limbs) out

namespace Ripple

variable {B c out : ℕ} {columns limbs : List ℕ}

theorem value (chain : Ripple B c columns limbs out) :
    Nat.ofDigits B limbs + B ^ limbs.length * out = Nat.ofDigits B columns + c := by
  induction chain with
  | nil c => simp
  | @cons c next out column limb columns limbs step rest ih =>
    rw [Nat.ofDigits_cons, Nat.ofDigits_cons, List.length_cons, pow_succ']
    calc limb + B * Nat.ofDigits B limbs + B * B ^ limbs.length * out
        = limb + B * (Nat.ofDigits B limbs + B ^ limbs.length * out) := by ring
      _ = limb + B * next + B * Nat.ofDigits B columns := by rw [ih]; ring
      _ = column + B * Nat.ofDigits B columns + c := by rw [step]; ring

theorem length (chain : Ripple B c columns limbs out) : limbs.length = columns.length := by
  induction chain with
  | nil => rfl
  | cons step rest ih => rw [List.length_cons, List.length_cons, ih]

end Ripple

theorem ofDigits_complement {B : ℕ} {ds : List ℕ} (small : ∀ d ∈ ds, d < B) :
    Nat.ofDigits B (ds.map fun d => B - 1 - d) + Nat.ofDigits B ds + 1 = B ^ ds.length := by
  induction ds with
  | nil => rfl
  | cons d ds ih =>
    have rest := ih fun e mem => small e (List.mem_cons_of_mem d mem)
    have top : B - 1 - d + d + 1 = B := by
      have := small d (List.mem_cons_self ..)
      omega
    rw [List.map_cons, Nat.ofDigits_cons, Nat.ofDigits_cons, List.length_cons, pow_succ', ← rest]
    calc B - 1 - d + B * Nat.ofDigits B (ds.map fun d => B - 1 - d) + (d + B * Nat.ofDigits B ds) + 1
        = (B - 1 - d + d + 1) + B * (Nat.ofDigits B (ds.map fun d => B - 1 - d) +
            Nat.ofDigits B ds) := by ring
      _ = B * (Nat.ofDigits B (ds.map fun d => B - 1 - d) + Nat.ofDigits B ds + 1) := by
        rw [top]
        ring

theorem ofDigits_map_add {α : Type u} (B : ℕ) (f g : α → ℕ) (xs : List α) :
    Nat.ofDigits B (xs.map fun x => f x + g x) =
      Nat.ofDigits B (xs.map f) + Nat.ofDigits B (xs.map g) := by
  rw [Nat.ofDigits_add_ofDigits_eq_ofDigits_zipWith_of_length_eq (by simp), List.zipWith_map,
    List.zipWith_self]

section

variable {α : Type u} (val : α → ℕ)

def worth (B : ℕ) (limbs : List α) : ℕ := Nat.ofDigits B (limbs.map val)

@[simp] theorem worth_nil (B : ℕ) : worth val B [] = 0 := rfl

@[simp] theorem worth_cons (B : ℕ) (x : α) (xs : List α) :
    worth val B (x :: xs) = val x + B * worth val B xs := rfl

variable {val} in
theorem worth_replicate {zero : α} (none : val zero = 0) (B n : ℕ) :
    worth val B (.replicate n zero) = 0 := by
  induction n with
  | zero => rfl
  | succ n ih => rw [List.replicate_succ, worth_cons, none, ih, Nat.mul_zero]

variable (step : α → α → α → α → α × α)

/-- A row of a product: every limb times `m`, added to what is there, with the carry handed on and
put down at the end. -/
def mulRow (m : α) : List α → List α → α → List α
  | x :: xs, t :: ts, c => (step x m t c).1 :: mulRow m xs ts (step x m t c).2
  | _, _, c => [c]

def schoolbook (zero : α) (xs : List α) : List α → List α → List α
  | [], acc => acc
  | m :: ms, acc =>
    match mulRow step m xs acc zero with
    | [] => []
    | limb :: rest => limb :: schoolbook zero xs ms rest

def MulAdds (B : ℕ) : Prop :=
  ∀ x m t c, val (step x m t c).1 + B * val (step x m t c).2 = val x * val m + val t + val c

variable {val step} {B : ℕ}

theorem length_mulRow (m : α) {xs ts : List α} (same : ts.length = xs.length) (c : α) :
    (mulRow step m xs ts c).length = xs.length + 1 := by
  induction xs generalizing ts c with
  | nil => cases ts <;> rfl
  | cons x xs ih =>
    cases ts with
    | nil => exact nomatch same
    | cons t ts => exact congrArg (· + 1) (ih (Nat.succ.inj same) _)

theorem worth_mulRow (exact' : MulAdds val step B) (m : α) {xs ts : List α}
    (same : ts.length = xs.length) (c : α) :
    worth val B (mulRow step m xs ts c) = worth val B xs * val m + worth val B ts + val c := by
  induction xs generalizing ts c with
  | nil =>
    obtain rfl := List.length_eq_zero_iff.mp same
    simp [mulRow]
  | cons x xs ih =>
    cases ts with
    | nil => exact nomatch same
    | cons t ts =>
      rw [mulRow, worth_cons, ih (Nat.succ.inj same), worth_cons, worth_cons]
      calc val (step x m t c).1 + B * (worth val B xs * val m + worth val B ts +
            val (step x m t c).2)
          = val (step x m t c).1 + B * val (step x m t c).2 +
              B * (worth val B xs * val m + worth val B ts) := by ring
        _ = (val x + B * worth val B xs) * val m + (val t + B * worth val B ts) + val c := by
          rw [exact']
          ring

theorem worth_schoolbook (exact' : MulAdds val step B) {zero : α} (none : val zero = 0)
    (xs ms : List α) {acc : List α} (same : acc.length = xs.length) :
    worth val B (schoolbook step zero xs ms acc) =
      worth val B acc + worth val B xs * worth val B ms := by
  induction ms generalizing acc with
  | nil => simp [schoolbook]
  | cons m ms ih =>
    have row := worth_mulRow exact' m same zero
    have length : (mulRow step m xs acc zero).length = xs.length + 1 := length_mulRow m same zero
    rw [schoolbook]
    cases put : mulRow step m xs acc zero with
    | nil =>
      rw [put] at length
      exact nomatch length
    | cons limb rest =>
      rw [put, worth_cons, none, Nat.add_zero] at row
      rw [put] at length
      have next := ih (Nat.succ.inj length)
      simp only [worth_cons, next]
      calc val limb + B * (worth val B rest + worth val B xs * worth val B ms)
          = val limb + B * worth val B rest + B * (worth val B xs * worth val B ms) := by ring
        _ = worth val B acc + worth val B xs * (val m + B * worth val B ms) := by
          rw [row]
          ring

end

end M33mu.Lib
