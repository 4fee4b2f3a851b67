/-! Rings that keep the newest entries only. -/

namespace CrowdPad

/-- The newest of the entries pushed, oldest first, and how many are kept. -/
structure Ring (α : Type) where
  capacity : Nat
  items : List α := []
deriving Repr, DecidableEq

namespace Ring

variable {α : Type}

instance : Inhabited (Ring α) := ⟨{ capacity := 1 }⟩

/-- An empty ring for so many entries, and for one at least. -/
def ofCapacity (capacity : Nat) : Ring α := { capacity := max capacity 1 }

/-- Adds an entry; a full ring gives up its oldest one. -/
def push (ring : Ring α) (item : α) : Ring α :=
  let items := if ring.items.length = ring.capacity then ring.items.drop 1 else ring.items
  { ring with items := items ++ [item] }

def pushAll (ring : Ring α) (items : List α) : Ring α := items.foldl push ring

def clear (ring : Ring α) : Ring α := { ring with items := [] }

end Ring

end CrowdPad
