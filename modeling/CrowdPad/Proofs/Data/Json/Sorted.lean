import CrowdPad.Proofs.Data.Json.Layout

/-! Text of a value whose fields were put in order. It is read as that value. -/

namespace CrowdPad.Json

theorem areExactFields_eq_all (fields : List (String × Value)) :
    areExactFields fields = fields.all fun field => isExact field.2 := by
  induction fields with
  | nil => rfl
  | cons field rest ih => rw [areExactFields, ih, List.all_cons]

mutual

/-- Putting the fields in order makes nothing inexact. -/
theorem isExact_sorted : (v : Value) → isExact v.sorted = isExact v
  | .null | .bool _ | .int _ | .real _ | .text _ | .unreadable => by rw [Value.sorted] <;> simp
  | .list items => by
    rw [Value.sorted, isExact, isExact, areExactItems_sorted items]
  | .record fields => by
    rw [Value.sorted, isExact, isExact, ← areExactFields_sorted fields, areExactFields_eq_all,
      areExactFields_eq_all]
    exact (List.mergeSort_perm _ _).all_eq

theorem areExactItems_sorted : (items : List Value) →
    areExactItems (Value.sortedItems items) = areExactItems items
  | [] => rfl
  | item :: rest => by
    rw [Value.sortedItems, areExactItems, areExactItems, isExact_sorted item,
      areExactItems_sorted rest]

theorem areExactFields_sorted : (fields : List (String × Value)) →
    areExactFields (Value.sortedFields fields) = areExactFields fields
  | [] => rfl
  | (_, v) :: rest => by
    rw [Value.sortedFields, areExactFields, areExactFields, isExact_sorted v,
      areExactFields_sorted rest]

end

theorem sortedItems_eq_map (items : List Value) :
    Value.sortedItems items = items.map Value.sorted := by
  induction items with
  | nil => rfl
  | cons item rest ih => rw [Value.sortedItems, ih, List.map_cons]

/-- Text on one line is read as the value of which it was made. -/
theorem read_compact {v : Value} (h : isExact v) : read (compact v) = some v := by
  rw [read, compact, String.toList_ofList]
  exact readInput_of_renders (renders_compactChars v h)

end CrowdPad.Json
