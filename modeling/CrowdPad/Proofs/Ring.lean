import CrowdPad.Telemetry.Event
import Mathlib.Data.List.DropRight

/-! What rings hold. After whatever was pushed and cleared a ring holds the newest of the entries pushed
since it was cleared last, as many as there are or as it keeps. Events that are published into memory are
kept so, too. -/

namespace CrowdPad

/-- What can be done to a ring. -/
inductive RingChange (α : Type) where
  | push (item : α)
  | clear
deriving Repr, DecidableEq

namespace RingChange

variable {α : Type}

/-- The entry that is pushed. -/
def item? : RingChange α → Option α
  | .push item => some item
  | .clear => none

/-- The entries pushed since the last clear, oldest first. -/
def sinceClear (changes : List (RingChange α)) : List α :=
  (changes.rtakeWhile fun change => change.item?.isSome).filterMap item?

theorem sinceClear_push (changes : List (RingChange α)) (item : α) :
    sinceClear (changes ++ [.push item]) = sinceClear changes ++ [item] := by
  unfold sinceClear
  rw [List.rtakeWhile_concat_pos _ _ _ (by rfl), List.filterMap_append]
  rfl

theorem sinceClear_clear (changes : List (RingChange α)) : sinceClear (changes ++ [.clear]) = [] := by
  unfold sinceClear
  rw [List.rtakeWhile_concat_neg _ _ _ (by exact nofun)]
  rfl

/-- Where nothing is cleared, all entries count. -/
theorem sinceClear_map_push (items : List α) : sinceClear (items.map .push) = items := by
  induction items using List.reverseRecOn with
  | nil => rfl
  | append_singleton before item ih =>
      rw [List.map_append]
      exact (sinceClear_push _ item).trans (congrArg (· ++ [item]) ih)

end RingChange

namespace Ring

variable {α : Type}

def change (ring : Ring α) : RingChange α → Ring α
  | .push item => ring.push item
  | .clear => ring.clear

def changeAll (ring : Ring α) (changes : List (RingChange α)) : Ring α := changes.foldl change ring

theorem changeAll_append (ring : Ring α) (changes more : List (RingChange α)) :
    ring.changeAll (changes ++ more) = (ring.changeAll changes).changeAll more :=
  List.foldl_append

theorem changeAll_map_push (ring : Ring α) (items : List α) :
    ring.changeAll (items.map .push) = ring.pushAll items :=
  List.foldl_map

/-- Whether a ring for so many entries, and for one at least, holds the newest of some entries. -/
structure HoldsNewest (ring : Ring α) (capacity : Nat) (entries : List α) : Prop where
  capacity_eq : ring.capacity = max capacity 1
  suffix : ring.items <:+ entries
  length_eq : ring.items.length = min entries.length (max capacity 1)

theorem holdsNewest_ofCapacity (capacity : Nat) :
    (ofCapacity capacity : Ring α).HoldsNewest capacity [] where
  capacity_eq := rfl
  suffix := List.suffix_refl []
  length_eq := (Nat.zero_min _).symm

variable {ring : Ring α} {capacity : Nat} {entries : List α}

/-- An entry pushed out is older than all that stay, and a ring that is not full has kept all there were.
-/
theorem HoldsNewest.push (h : ring.HoldsNewest capacity entries) (item : α) :
    (ring.push item).HoldsNewest capacity (entries ++ [item]) := by
  obtain ⟨hcapacity, hsuffix, hlength⟩ := h
  by_cases hfull : ring.items.length = ring.capacity
  · have hitems : (ring.push item).items = ring.items.drop 1 ++ [item] :=
      congrArg (· ++ [item]) (if_pos hfull)
    refine ⟨hcapacity, ?_, ?_⟩
    · rw [hitems, List.suffix_concat_iff]
      exact .inr ⟨_, rfl, (List.drop_suffix 1 ring.items).trans hsuffix⟩
    · rw [hitems, List.length_append, List.length_append, List.length_drop, List.length_singleton]
      omega
  · have hitems : (ring.push item).items = ring.items ++ [item] :=
      congrArg (· ++ [item]) (if_neg hfull)
    refine ⟨hcapacity, ?_, ?_⟩
    · rw [hitems, List.suffix_concat_iff]
      exact .inr ⟨_, rfl, hsuffix⟩
    · rw [hitems, List.length_append, List.length_append, List.length_singleton]
      omega

theorem HoldsNewest.clear (h : ring.HoldsNewest capacity entries) :
    ring.clear.HoldsNewest capacity [] :=
  ⟨h.capacity_eq, List.suffix_refl [], (Nat.zero_min _).symm⟩

theorem HoldsNewest.change {changes : List (RingChange α)}
    (h : ring.HoldsNewest capacity (RingChange.sinceClear changes)) (next : RingChange α) :
    (ring.change next).HoldsNewest capacity (RingChange.sinceClear (changes ++ [next])) := by
  cases next with
  | push item =>
      rw [RingChange.sinceClear_push]
      exact h.push item
  | clear =>
      rw [RingChange.sinceClear_clear]
      exact h.clear

/-- A ring holds the newest of the entries pushed since it was cleared last. -/
theorem holdsNewest_changeAll (capacity : Nat) (changes : List (RingChange α)) :
    ((ofCapacity capacity).changeAll changes).HoldsNewest capacity
      (RingChange.sinceClear changes) := by
  induction changes using List.reverseRecOn with
  | nil => exact holdsNewest_ofCapacity capacity
  | append_singleton before next ih =>
      rw [changeAll_append]
      exact ih.change next

end Ring

namespace EventSink

/-- Publishes events in order. -/
def publishAll (sink : EventSink) (files : Files) (events : List Event) : EventSink × Files :=
  events.foldl (fun (sink, files) e => sink.publish files e) (sink, files)

theorem publishAll_memory (ring : Ring Event) (files : Files) (events : List Event) :
    (memory ring).publishAll files events = (.memory (ring.pushAll events), files) := by
  induction events generalizing ring with
  | nil => rfl
  | cons e rest ih => exact ih (ring.push e)

/-- The newest events are kept in memory. -/
theorem holdsNewest_publishAll (capacity : Nat) (files : Files) (events : List Event) :
    ∃ ring, ((ofCapacity capacity).publishAll files events).1 = .memory ring ∧
      ring.HoldsNewest capacity events := by
  have hnewest := Ring.holdsNewest_changeAll capacity (events.map .push)
  rw [Ring.changeAll_map_push, RingChange.sinceClear_map_push] at hnewest
  exact ⟨_, congrArg Prod.fst (publishAll_memory _ files events), hnewest⟩

end EventSink

end CrowdPad
