import M33mu.Cpu

namespace M33mu

def maxIrq : Nat := 128

abbrev Irq := Fin maxIrq

theorem maxIrq_pos : 0 < maxIrq := by decide

abbrev MaskWord := Fin 4

structure Nvic where
  enableMask : MaskWord → Word
  pendingMask : MaskWord → Word
  activeMask : MaskWord → Word
  /-- ITNS: a set bit routes the interrupt to Non-secure state. -/
  itnsMask : MaskWord → Word
  priority : Irq → Byte

namespace Nvic

def init : Nvic where
  enableMask _ := 0
  pendingMask _ := 0
  activeMask _ := 0
  itnsMask _ := 0
  priority _ := 0xff

def word (irq : Irq) : MaskWord := ⟨irq / 32, by have := irq.isLt; unfold maxIrq at this; omega⟩

def bit (irq : Irq) : Nat := irq % 32

/-- `(arr[irq / 32] & (1u << irq % 32)) != 0u`. -/
def testBit (arr : MaskWord → Word) (irq : Irq) : Bool := (arr (word irq)).getLsbD (bit irq)

def bitop (arr : MaskWord → Word) (irq : Irq) (set : Bool) : MaskWord → Word :=
  let mask := 1#32 <<< bit irq
  Function.update arr (word irq)
    (if set then arr (word irq) ||| mask else arr (word irq) &&& ~~~mask)

def setEnable (n : Nvic) (irq : Irq) (enable : Bool) : Nvic :=
  { n with enableMask := bitop n.enableMask irq enable }

def setPending (n : Nvic) (irq : Irq) (pending : Bool) : Nvic :=
  { n with pendingMask := bitop n.pendingMask irq pending }

def irqTargetSec (n : Nvic) (irq : Irq) : SecState :=
  if testBit n.itnsMask irq then .nonsecure else .secure

def isPending (n : Nvic) (irq : Irq) : Bool := testBit n.pendingMask irq

def primaskBlocksTarget (c : Cpu) (target : SecState) : Bool := c.primask.get target != 0

/-- Whether the scan of `mm_nvic_select_routed` considers `irq` at all. -/
def candidate (n : Nvic) (c : Cpu) (irq : Irq) : Bool :=
  testBit n.enableMask irq && testBit n.pendingMask irq &&
    !primaskBlocksTarget c (n.irqTargetSec irq)

def better (n : Nvic) (best : Option Irq) (irq : Irq) : Bool :=
  match best with
  | none => true
  | some b => n.priority irq < n.priority b

def selectRouted (n : Nvic) (c : Cpu) : Option (Irq × SecState) :=
  let best := (List.finRange maxIrq).foldl
    (fun best irq => if n.candidate c irq && n.better best irq then some irq else best) none
  best.map fun irq => (irq, n.irqTargetSec irq)

end Nvic

end M33mu
