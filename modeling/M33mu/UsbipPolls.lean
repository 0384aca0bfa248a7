import M33mu.UsbipAnswers

namespace M33mu.Usbip

open Lib

structure Poll where
  accept : Bool
  recv : RecvResult
  sends : List SendResult

variable {σ : Type u} (device : UsbDevice σ)

def pollWith (s : Usbip σ) (p : Poll) : Option (Usbip σ) :=
  s.poll device p.accept p.recv p.sends

def polls (s : Usbip σ) : List Poll → Option (Usbip σ)
  | [] => some s
  | p :: ps => (s.pollWith device p).bind fun s => polls s ps

def Rests (s : Usbip σ) (p : Poll) : Prop :=
  s.running = false ∨ s.connected = false ∧ p.accept = false

instance (s : Usbip σ) (p : Poll) : Decidable (s.Rests p) := inferInstanceAs (Decidable (_ ∨ _))

def passes : Nat → Usbip σ → Nat
  | 0, _ => 0
  | n + 1, s =>
    if s.LoopGoes then
      let s := s.handlePacket device
      if s.Leaves then 1 else passes n s + 1
    else 0

def pollParts (s : Usbip σ) (p : Poll) : List Part :=
  if s.Rests p then []
  else
    let t := s.pollOpen p.accept p.recv
    .opens p.accept p.recv :: (List.replicate (passes device (t.rank + 2) t) .pass ++
      (.statusOut :: ((List.finRange 16).map .complete ++ [.flush p.sends])))

def sessionParts (s : Usbip σ) : List Poll → List Part
  | [] => []
  | p :: ps => s.pollParts device p ++ sessionParts (run (step device) s (s.pollParts device p)) ps

variable {device} {s s' : Usbip σ} {p : Poll} {ps : List Poll}

theorem packetLoop_run {n : Nat} (ends : s.packetLoop device n = some s') :
    s' = run (step device) s (List.replicate (passes device n s) .pass) := by
  induction n generalizing s with
  | zero => cases ends
  | succ n ih =>
    rw [packetLoop] at ends
    rw [passes]
    split at ends
    · rename_i goes
      have once : step device s .pass = s.handlePacket device := if_pos goes
      dsimp only at ends ⊢
      rw [if_pos goes]
      split at ends
      · rename_i leaves
        rw [if_pos leaves]
        exact (Option.some.inj ends).symm.trans once.symm
      · rename_i stays
        rw [if_neg stays, List.replicate_succ, run_cons, once]
        exact ih ends
    · rename_i ended
      rw [if_neg ended]
      exact (Option.some.inj ends).symm

theorem pollWith_of_rests (rests : s.Rests p) : s.pollWith device p = some s := if_pos rests

theorem pollWith_of_not_rests (busy : ¬ s.Rests p) : s.pollWith device p =
    ((s.pollOpen p.accept p.recv).packetLoop device ((s.pollOpen p.accept p.recv).rank + 2)).map
      fun s => ((s.tryStatusOut device).completePending device).txFlush p.sends := if_neg busy

theorem completed_run : run (step device) s ((List.finRange 16).map .complete) =
    s.completePending device := List.foldl_map

theorem poll_run (ends : s.pollWith device p = some s') :
    s' = run (step device) s (s.pollParts device p) := by
  rw [pollParts]
  by_cases rests : s.Rests p
  · rw [pollWith_of_rests rests] at ends
    rw [if_pos rests]
    exact (Option.some.inj ends).symm
  · rw [pollWith_of_not_rests rests] at ends
    obtain ⟨t, loop, rfl⟩ := Option.map_eq_some_iff.mp ends
    rw [if_neg rests, packetLoop_run loop]
    dsimp only
    rw [run_cons, run_append, run_cons, run_append, completed_run, run_cons, run_nil]
    rfl

theorem polls_run (ends : s.polls device ps = some s') :
    s' = run (step device) s (s.sessionParts device ps) := by
  induction ps generalizing s with
  | nil => exact (Option.some.inj ends).symm
  | cons p ps ih =>
    rw [polls, Option.bind_eq_some_iff] at ends
    obtain ⟨t, first, rest⟩ := ends
    rw [sessionParts, run_append, ← poll_run first]
    exact ih rest

theorem pollWith_isSome_iff : (s.pollWith device p).isSome ↔
    (¬ s.Rests p → ∀ t, (s.pollOpen p.accept p.recv).Reaches device t → ¬ t.Stalled) := by
  by_cases rests : s.Rests p
  · rw [pollWith_of_rests rests]
    exact iff_of_true rfl fun busy => absurd rests busy
  · rw [forall_prop_of_true rests, ← packetLoop_isSome_iff, pollWith_of_not_rests rests,
      Option.isSome_map]

theorem polls_bufferSafe {dev : σ} (ends : (start dev).polls device ps = some s')
    (fits : Along (step device) (fun s part => s.PartFits device part) (start dev)
      ((start dev).sessionParts device ps)) : s'.BufferSafe := by
  have safe : Throughout (step device) BufferSafe (start dev) ((start dev).sessionParts device ps) :=
    throughout_of_along (fun _ part safe => (bufferSafe_step_iff device safe part).mpr)
      (bufferSafe_start dev) fits
  rw [polls_run ends]
  exact safe.last

theorem polls_accounted {dev : σ} (ends : (start dev).polls device ps = some s')
    (kept : Along (step device) (fun s part => s.PartKept device part) (start dev)
      ((start dev).sessionParts device ps)) : s'.Accounted := by
  have account : Throughout (step device) Accounted (start dev)
      ((start dev).sessionParts device ps) :=
    throughout_of_along (fun _ part account => (accounted_step_iff device account part).1.mpr)
      (accounted_start dev) kept
  rw [polls_run ends]
  exact account.last

end M33mu.Usbip
