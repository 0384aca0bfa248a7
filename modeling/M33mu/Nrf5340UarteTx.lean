import M33mu.Nrf5340Uarte
import Mathlib.Data.List.DropRight

namespace M33mu

open Lib

namespace UartIo

end UartIo

namespace SerialPort

open Serial

variable {δ : Type u} {env : Env δ} {s s' s₁ : SerialPort δ} {e : SerialEnv}

def txData (env : Env δ) (s : SerialPort δ) (e : SerialEnv) (i : Nat) : Byte :=
  ((s.world.dmaSource env e.sec (s.dev.reg txdPtr + BitVec.ofNat 32 i)).map
    s.world.map.bytes).getD 0

def txBytes (env : Env δ) (s : SerialPort δ) (e : SerialEnv) (n : Nat) : List Byte :=
  (List.range n).map (s.txData env e)

/-- A transmission: what the host has and what waits for it are the last bytes that fit the ring,
which are all of them only if they fit; TXD.AMOUNT counts all of them. -/
structure Sent (env : Env δ) (s s' : SerialPort δ) (e : SerialEnv) : Prop where
  inside : s'.dev.io.ring.Inside
  order : s'.out ++ s'.dev.io.ring.items = s.out ++
    (s.dev.io.ring.items ++ s.txBytes env e (s.dev.reg txdMaxcnt).toNat).rtake (UartIo.txSize - 1)
  whole : s'.out ++ s'.dev.io.ring.items = s.out ++
      (s.dev.io.ring.items ++ s.txBytes env e (s.dev.reg txdMaxcnt).toNat) ↔
    s.dev.io.ring.items.length + (s.dev.reg txdMaxcnt).toNat ≤ UartIo.txSize - 1
  amount : s'.dev.reg txdAmount = s.dev.reg txdMaxcnt
  ended : s'.dev.reg eventsEndtx = 1
  touched : s.world.Touched env s'.world
  map : s'.world.map = s.world.map

end SerialPort

end M33mu
