/-!
Load-linked and store-conditional over nested contexts that share one reservation, such as a thread
and the interrupt handlers above it. A link is what the latest load of its context read; it is
undisturbed until the context is left or another one is entered.
-/

namespace M33mu.Lib

structure Link (α : Type u) (β : Type v) where
  addr : α
  value : β
  undisturbed : Bool
  deriving DecidableEq

structure Links (α : Type u) (β : Type v) where
  /-- The link of each context, innermost first. -/
  contexts : List (Option (Link α β))
  /-- A context was entered or left since the reservation was last set or cleared. -/
  stale : Bool
  deriving DecidableEq

inductive LinkAction (α : Type u) (β : Type v)
  | load (addr : α) (value : β)
  | clear
  | enter
  | leave

namespace Links

variable {α : Type u} {β : Type v}

def disturb (contexts : List (Option (Link α β))) : List (Option (Link α β)) :=
  contexts.map (Option.map ({ · with undisturbed := false }))

def act (l : Links α β) : LinkAction α β → Links α β
  | .load addr value => ⟨some ⟨addr, value, true⟩ :: l.contexts.tail, false⟩
  | .clear => { l with stale := false }
  | .enter => ⟨none :: disturb l.contexts, true⟩
  | .leave => ⟨(disturb l.contexts).tail, true⟩

def current (l : Links α β) : Option (Link α β) := l.contexts.head?.join

/-- How the links stand to the one reservation: unless it is stale, it is the current context's. -/
structure Good (reserved : Option α) (l : Links α β) : Prop where
  fresh : l.stale = false → ∀ addr, reserved = some addr →
    ∃ value, l.current = some ⟨addr, value, true⟩
  stale : l.stale = true → ∀ link, l.current = some link → link.undisturbed = false

theorem undisturbed_of_mem_disturb {contexts : List (Option (Link α β))} {link : Link α β}
    (mem : some link ∈ disturb contexts) : link.undisturbed = false := by
  simp only [disturb, List.mem_map, Option.map_eq_some_iff] at mem
  obtain ⟨_, -, _, -, rfl⟩ := mem
  rfl

theorem mem_of_current {l : Links α β} {link : Link α β} (h : l.current = some link) :
    some link ∈ l.contexts := by
  rw [current, Option.join_eq_some_iff] at h
  exact List.mem_of_mem_head? h

namespace Good

variable {reserved : Option α} {l : Links α β}

theorem load (addr : α) (value : β) : (l.act (.load addr value)).Good (some addr) where
  fresh _ _ eq := ⟨value, by cases eq; rfl⟩
  stale := nofun

theorem clear : (l.act .clear).Good none := ⟨fun _ _ => nofun, nofun⟩

theorem enter : (l.act .enter).Good reserved := ⟨nofun, fun _ _ => nofun⟩

theorem leave : (l.act .leave).Good reserved where
  fresh := nofun
  stale _ _ h := undisturbed_of_mem_disturb (List.mem_of_mem_tail (mem_of_current h))

/-- Where the reservation is held, the context's own load is undisturbed exactly if no context was
entered or left since. -/
theorem undisturbed_iff {addr : α} (h : l.Good (some addr)) :
    (∃ value, l.current = some ⟨addr, value, true⟩) ↔ l.stale = false := by
  constructor
  · rintro ⟨value, own⟩
    cases stale : l.stale with
    | false => rfl
    | true => exact absurd (h.stale stale _ own) nofun
  · exact fun fresh => h.fresh fresh addr rfl

end Good

end Links

end M33mu.Lib
