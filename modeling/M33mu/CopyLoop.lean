import M33mu.ThumbRuns

namespace M33mu

open Lib Thumb

namespace Told

variable {acc : MemAccess} {prog : Word → Option Thumb} {s : Told} {i : Thumb}

variable {rn rt rd : BitVec 3}

end Told

namespace Thumb

end Thumb

def copied (m : ByteMem 32) (src dst : Word) (n : Nat) : ByteMem 32 := fun x =>
  if ByteMem.dist dst x < n then m (src + BitVec.ofNat 32 (ByteMem.dist dst x)) else m x

section

variable {acc : MemAccess} {base src dst : Word} {n : Nat} {r : Regs} {m : ByteMem 32}

end

namespace Machine

variable {δ : Type u} {env : Env δ} {acc : MemAccess} {place : Word → Option (Buffer × Word)}

end Machine

namespace Board

end Board

end M33mu
