import M33mu.Nvic

namespace M33mu

/-- Which of the two SAU register layouts the firmware has been seen to use. -/
inductive SauLayout
  | unknown
  | new
  | legacy
  deriving DecidableEq, Repr

structure Scs where
  cpuid : Word
  icsr : Banked Word
  vtor : Banked Word
  scr : Banked Word
  ccr : Word
  aircr : Banked Word
  shpr1 : Banked Word
  shpr2 : Banked Word
  shpr3 : Banked Word
  shcsr : Banked Word
  cfsr : Word
  hfsr : Word
  dfsr : Word
  mmfar : Word
  bfar : Word
  afsr : Word
  mpuType : Word
  mpuCtrl : Banked Word
  mpuRnr : Banked Word
  mpuRbar : Banked (Fin 8 → Word)
  mpuRlar : Banked (Fin 8 → Word)
  mpuMair0 : Banked Word
  mpuMair1 : Banked Word
  sauType : Word
  sauCtrl : Word
  sauRnr : Word
  sauRbar : Fin 8 → Word
  sauRlar : Fin 8 → Word
  sauSfsr : Word
  sauSfar : Word
  securefaultPending : Bool
  /-- Security of the last SCS access, as the memory protection layer saw it. -/
  lastAccessSec : SecState
  systickCtrl : Word
  systickLoad : Word
  systickVal : Word
  systickCalib : Word
  systickCountflag : Bool
  systickWraps : BitVec 64
  pendSv : Bool
  pendSt : Bool

namespace Scs

def init (cpuidConst : Word) : Scs where
  cpuid := cpuidConst
  icsr := .both 0
  vtor := .both 0
  scr := .both 0
  ccr := 0
  aircr := .both 0
  shpr1 := .both 0
  shpr2 := .both 0
  shpr3 := .both 0
  shcsr := .both 0
  cfsr := 0
  hfsr := 0
  dfsr := 0
  mmfar := 0
  bfar := 0
  afsr := 0
  mpuType := 0x00000800
  mpuCtrl := .both 0
  mpuRnr := .both 0
  mpuRbar := .both fun _ => 0
  mpuRlar := .both fun _ => 0
  mpuMair0 := .both 0
  mpuMair1 := .both 0
  sauType := 0x00000007
  sauCtrl := 0
  sauRnr := 0
  sauRbar _ := 0
  sauRlar _ := 0
  sauSfsr := 0
  sauSfar := 0
  securefaultPending := false
  lastAccessSec := .secure
  systickCtrl := 0
  systickLoad := 0
  systickVal := 0
  systickCalib := 0
  systickCountflag := false
  systickWraps := 0
  pendSv := false
  pendSt := false

def regionIndex (w : Word) : Fin 8 := ⟨w.toNat % 8, Nat.mod_lt _ (by decide)⟩

/-- `0` in `systick_val` stands for a counter that reloads before its next tick. -/
def systickCurrent (scs : Scs) : Nat :=
  let cur := (scs.systickVal &&& 0x00FFFFFF).toNat
  if cur = 0 then (scs.systickLoad &&& 0x00FFFFFF).toNat else cur

def systickAdvance (scs : Scs) (cycles : BitVec 64) : Scs :=
  let load := (scs.systickLoad &&& 0x00FFFFFF).toNat
  if cycles = 0 ∨ scs.systickCtrl.getLsbD 0 = false ∨ load = 0 then scs
  else
    let cur := scs.systickCurrent
    if cycles.toNat < cur then
      { scs with systickVal := BitVec.ofNat 32 (cur - cycles.toNat) &&& 0x00FFFFFF }
    else
      let remaining := cycles.toNat - cur
      let rem := remaining % load
      { scs with
        systickVal := BitVec.ofNat 32 (if rem = 0 then load else load - rem) &&& 0x00FFFFFF
        systickWraps := scs.systickWraps + 1 + BitVec.ofNat 64 (remaining / load)
        systickCountflag := true
        pendSt := scs.pendSt || scs.systickCtrl.getLsbD 1 }

/-- `none` is the source's `(mm_u64)-1`: SysTick is off. -/
def systickCyclesUntilFire (scs : Scs) : Option (BitVec 64) :=
  let load := (scs.systickLoad &&& 0x00FFFFFF).toNat
  if scs.systickCtrl.getLsbD 0 = false ∨ load = 0 then none
  else some (BitVec.ofNat 64 scs.systickCurrent)

end Scs

end M33mu
