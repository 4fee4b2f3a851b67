import CrowdPad.Proofs.Data.Entries

/-! Values taken apart again. What was written as a number, a list or a map is read as it was written,
as long as the number fits and no name stands in the map twice. -/

namespace CrowdPad

variable {α : Type}

theorem mapM_map_eq_some {β : Type} {read : β → Option α} {write : α → β} {items : List α}
    (h : ∀ item ∈ items, read (write item) = some item) :
    (items.map write).mapM read = some items := by
  induction items with
  | nil => rfl
  | cons item rest ih =>
      have hrest := ih fun other hother => h other (List.mem_cons_of_mem _ hother)
      rw [List.map_cons, List.mapM_cons, h item (List.mem_cons_self ..), hrest]
      rfl

namespace Value

variable {item : Value → Option α} {write : α → Value}

theorem toNat?_nat {bound n : Nat} (h : n < bound) : (nat n).toNat? bound = some n := by
  rw [nat, toNat?, if_pos (by simpa using h)]
  rfl

theorem toList?_list {items : List α} (h : ∀ a ∈ items, item (write a) = some a) :
    (list (items.map write)).toList? item = some items :=
  mapM_map_eq_some h

/-- Entries under names of their own are put behind one another. -/
theorem foldl_putEntry {entries map : List (String × α)}
    (hnames : ((map ++ entries).map (·.1)).Nodup) :
    entries.foldl (fun map entry => putEntry entry.1 entry.2 map) map = map ++ entries := by
  induction entries generalizing map with
  | nil => rw [List.append_nil, List.foldl_nil]
  | cons entry rest ih =>
      have hnew : entry.1 ∉ map.map (·.1) := by
        rw [List.map_append, List.nodup_append] at hnames
        intro hmem
        exact hnames.2.2 _ hmem _ (List.mem_cons_self ..) rfl
      rw [List.append_cons] at hnames
      rw [List.foldl_cons, putEntry_of_not_mem hnew, ih hnames, ← List.append_cons]

theorem toMap?_record (write : α → Value) {entries : List (String × α)}
    (hnames : (entries.map (·.1)).Nodup)
    (h : ∀ entry ∈ entries, item (write entry.2) = some entry.2) :
    (record (entries.map fun entry => (entry.1, write entry.2))).toMap? item = some entries := by
  have hitems : (entries.map fun entry => (entry.1, write entry.2)).mapM
      (fun field => (item field.2).map fun v => (field.1, v)) = some entries :=
    mapM_map_eq_some fun entry hentry => by rw [h entry hentry, Option.map_some]
  rw [toMap?, hitems]
  exact congrArg some (foldl_putEntry hnames)

end Value

end CrowdPad
