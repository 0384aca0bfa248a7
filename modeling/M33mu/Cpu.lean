import M33mu.Lib.BoundedStack
import M33mu.Types

namespace M33mu

open Lib

/-- One entry of `exc_sp`/`exc_use_psp`/`exc_sec`, written on exception entry. -/
structure ExcRecord where
  sp : Word
  usePsp : Bool
  sec : SecState
  deriving DecidableEq, Repr

/-- One entry of `tz_ret_pc`/`tz_ret_sec`/`tz_ret_mode`, written by `BLXNS`. -/
structure TzRecord where
  pc : Word
  sec : SecState
  mode : Mode
  deriving DecidableEq, Repr

def excStackMax : Nat := 64

def tzStackMax : Nat := 32

structure Cpu where
  r : Reg → Word
  xpsr : Word
  secState : SecState
  mode : Mode
  /-- `CONTROL.nPRIV`: set means unprivileged. -/
  priv : Banked Bool
  msp : Banked Word
  psp : Banked Word
  mspTop : Banked Word
  mspMin : Banked Word
  mspTopValid : Banked Bool
  msplim : Banked Word
  psplim : Banked Word
  control : Banked Word
  primask : Banked Word
  basepri : Banked Word
  faultmask : Banked Word
  vtor : Banked Word
  exc : BoundedStack excStackMax ExcRecord
  tz : BoundedStack tzStackMax TzRecord
  sleeping : Bool
  eventReg : Bool
  exclValid : Bool
  exclSec : SecState
  exclAddr : Word
  exclSize : Word

namespace Cpu

def setReg (c : Cpu) (i : Reg) (v : Word) : Cpu := { c with r := Function.update c.r i v }

def controlSpSel (c : Cpu) : Bool := (c.control.get c.secState).getLsbD 1

def initMspTop (c : Cpu) (sec : SecState) (v : Word) : Cpu :=
  if !c.mspTopValid.get sec && v != 0 then
    { c with
      mspTop := c.mspTop.set sec v
      mspMin := c.mspMin.set sec v
      mspTopValid := c.mspTopValid.set sec true }
  else c

def updateMspMin (c : Cpu) (sec : SecState) (v : Word) : Cpu :=
  if c.mspTopValid.get sec && v < c.mspMin.get sec then
    { c with mspMin := c.mspMin.set sec v }
  else c

def noteMspTop (c : Cpu) (sec : SecState) : Cpu := c.initMspTop sec (c.msp.get sec)

def usesPsp (c : Cpu) : Bool :=
  match c.mode with
  | .handler => false
  | .thread => c.controlSpSel

def getActiveSp (c : Cpu) : Word :=
  if c.usesPsp then c.psp.get c.secState else c.msp.get c.secState

def setActiveSp (c : Cpu) (v : Word) : Cpu :=
  let c' :=
    if c.usesPsp then { c with psp := c.psp.set c.secState v }
    else
      (({ c with msp := c.msp.set c.secState v }).initMspTop c.secState v).updateMspMin c.secState v
  c'.setReg 13 v

def getActiveSplim (c : Cpu) : Word :=
  if c.usesPsp then c.psplim.get c.secState else c.msplim.get c.secState

def setMsp (c : Cpu) (sec : SecState) (v : Word) : Cpu :=
  let c := { c with msp := c.msp.set sec v }
  let c := match sec with
    | .secure => c.initMspTop sec v
    | .nonsecure => c
  c.updateMspMin sec v

def setPsp (c : Cpu) (sec : SecState) (v : Word) : Cpu := { c with psp := c.psp.set sec v }

def setControl (c : Cpu) (sec : SecState) (v : Word) : Cpu :=
  { c with control := c.control.set sec v, priv := c.priv.set sec (v.getLsbD 0) }

def setPrivileged (c : Cpu) (unprivileged : Bool) : Cpu :=
  { c with
    priv := c.priv.set c.secState unprivileged
    control := c.control.set c.secState
      ((c.control.get c.secState &&& ~~~1#32) ||| if unprivileged then 1#32 else 0#32) }

def exclSet (c : Cpu) (sec : SecState) (addr size : Word) : Cpu :=
  { c with exclValid := true, exclSec := sec, exclAddr := addr, exclSize := size }

def exclClear (c : Cpu) : Cpu :=
  { c with exclValid := false, exclAddr := 0, exclSize := 0, exclSec := .nonsecure }

def exclCheckAndClear (c : Cpu) (sec : SecState) (addr size : Word) : Bool × Cpu :=
  (c.exclValid && c.exclSec == sec && c.exclAddr == addr && c.exclSize == size, c.exclClear)

/-- The CPU fields that a system reset sets; the others keep their values. -/
def reset (c : Cpu) (vtor : Banked Word) : Cpu :=
  { c with
    r := fun _ => 0
    xpsr := 0
    secState := .secure
    mode := .thread
    priv := .both false
    control := .both 0
    primask := .both 0
    basepri := .both 0
    faultmask := .both 0
    msp := .both 0
    psp := .both 0
    vtor := vtor
    exc := .empty
    tz := .empty
    sleeping := false
    eventReg := false }

@[simp] theorem setReg_r_self (c : Cpu) (i : Reg) (v : Word) : (c.setReg i v).r i = v := by
  simp [setReg]

theorem setReg_r_of_ne (c : Cpu) {i j : Reg} (h : j ≠ i) (v : Word) :
    (c.setReg i v).r j = c.r j := by
  simp [setReg, h]

end Cpu

end M33mu
