import Mathlib.Algebra.GroupWithZero.Nat
import Mathlib.Logic.Function.Basic

/-!
The emulator's fixed-width integers and the enumerations that every module shares.
A pair of fields `x_ns`, `x_s` of the source is one `Banked` field `x` here.
-/

namespace M33mu

abbrev Byte := BitVec 8

abbrev Half := BitVec 16

abbrev Word := BitVec 32

abbrev Reg := Fin 16

-- The numerals of the indices go by these names, and not by a proof of each definition's own.
instance neZero4 : NeZero 4 := ⟨by decide⟩

instance neZero5 : NeZero 5 := ⟨by decide⟩

instance neZero6 : NeZero 6 := ⟨by decide⟩

instance neZero8 : NeZero 8 := ⟨by decide⟩

instance neZero12 : NeZero 12 := ⟨by decide⟩

instance neZero16 : NeZero 16 := ⟨by decide⟩

instance neZero1024 : NeZero 1024 := ⟨by decide⟩

instance lawfulBEqReg : LawfulBEq Reg := instLawfulBEq

instance lawfulBEqFin4 : LawfulBEq (Fin 4) := instLawfulBEq

inductive SecState
  | nonsecure
  | secure
  deriving DecidableEq, Repr

inductive Mode
  | thread
  | handler
  deriving DecidableEq, Repr

inductive AccessType
  | read
  | write
  | exec
  deriving DecidableEq, Repr

@[ext] structure Banked (α : Type u) where
  ns : α
  s : α
  deriving DecidableEq, Repr

namespace Banked

def both (a : α) : Banked α := ⟨a, a⟩

def get (b : Banked α) : SecState → α
  | .nonsecure => b.ns
  | .secure => b.s

def set (b : Banked α) (sec : SecState) (a : α) : Banked α :=
  match sec with
  | .nonsecure => { b with ns := a }
  | .secure => { b with s := a }

@[simp] theorem get_nonsecure (b : Banked α) : b.get .nonsecure = b.ns := rfl

@[simp] theorem get_secure (b : Banked α) : b.get .secure = b.s := rfl

@[simp] theorem set_nonsecure_s (b : Banked α) (a : α) : (b.set .nonsecure a).s = b.s := rfl

@[simp] theorem set_nonsecure_ns (b : Banked α) (a : α) : (b.set .nonsecure a).ns = a := rfl

@[simp] theorem set_secure_ns (b : Banked α) (a : α) : (b.set .secure a).ns = b.ns := rfl

@[simp] theorem set_secure_s (b : Banked α) (a : α) : (b.set .secure a).s = a := rfl

@[simp] theorem get_set_self (b : Banked α) (sec : SecState) (a : α) :
    (b.set sec a).get sec = a := by
  cases sec <;> rfl

theorem get_set_of_ne (b : Banked α) {sec other : SecState} (h : other ≠ sec) (a : α) :
    (b.set sec a).get other = b.get other := by
  cases sec <;> cases other <;> first | rfl | exact absurd rfl h

@[simp] theorem set_get_self (b : Banked α) (sec : SecState) : b.set sec (b.get sec) = b := by
  cases sec <;> rfl

@[simp] theorem set_set_self (b : Banked α) (sec : SecState) (a c : α) :
    (b.set sec a).set sec c = b.set sec c := by
  cases sec <;> rfl

end Banked

end M33mu
