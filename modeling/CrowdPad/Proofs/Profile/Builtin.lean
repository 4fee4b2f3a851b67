import CrowdPad.Profile.Builtin
import CrowdPad.Proofs.Text.Case

/-! Which built-in profiles there are. A name in lower case stands for a built-in profile only where it
is the short name of TowerFall or one of those that are listed, and each of these makes a table under
that name. The declarations of no built-in profile are ever refused. -/

namespace CrowdPad.Profile

/-- The names of built-in profiles: the listed ones, and TowerFall without a device. -/
def builtinKeys : List String := "towerfall" :: builtinNames

variable {name front back : String} {declared : Declarations}

/-- The parts of a name are what stands around an underscore. -/
theorem splitLast?_eq_some (h : splitLast? name = some (front, back)) :
    name = front ++ "_" ++ back := by
  unfold splitLast? at h
  simp only at h
  split at h
  · rename_i c before hdrop
    obtain ⟨rfl, rfl⟩ := Prod.mk.inj (Option.some.inj h)
    have hunderscore : c = '_' := by
      have hhead := List.head?_dropWhile_not (p := (· ≠ '_')) (l := name.toList.reverse)
      rw [hdrop] at hhead
      simpa using hhead
    subst hunderscore
    have hparts : name.toList.reverse =
        name.toList.reverse.takeWhile (· ≠ '_') ++ '_' :: before := by
      rw [← hdrop, List.takeWhile_append_dropWhile]
    rw [← String.toList_inj]
    simpa using congrArg List.reverse hparts
  · cases h

/-- A name that a game and a device are read from is listed. -/
theorem mem_builtinNames_of_gameVariant? {game : Game} {onGamepad : Bool}
    (h : gameVariant? name = some (game, onGamepad)) : name ∈ builtinNames := by
  obtain ⟨⟨front, device⟩, hsplit, h⟩ := Option.bind_eq_some_iff.mp h
  obtain ⟨found, hfound, h⟩ := Option.bind_eq_some_iff.mp h
  have hname := splitLast?_eq_some hsplit
  have hfront : found.name = front := by
    simpa using List.find?_some hfound
  refine List.mem_append_right _ (List.mem_flatMap.mpr ⟨found, List.mem_of_find?_eq_some hfound, ?_⟩)
  split at h
  · rename_i hkeyboard
    obtain ⟨hdevice, hplayed⟩ := Bool.and_eq_true_iff.mp hkeyboard
    refine List.mem_append_left _ ?_
    rw [hplayed, if_pos rfl, List.mem_singleton, hname, ← hfront, of_decide_eq_true hdevice,
      String.append_assoc]
    rfl
  · split at h
    · rename_i hdevice
      refine List.mem_append_right _ ?_
      rw [List.mem_singleton, hname, ← hfront, hdevice, String.append_assoc]
      rfl
    · cases h

theorem mem_builtinKeys_of_declarations? (h : declarations? name = some declared) :
    name ∈ builtinKeys := by
  unfold declarations? at h
  split at h
  · rename_i hname
    exact hname ▸ by decide
  · split at h
    · rename_i hname
      exact hname ▸ by decide
    · split at h
      · rename_i hname
        exact hname ▸ by decide
      · split at h
        · rename_i hname
          exact hname ▸ List.mem_cons_self ..
        · obtain ⟨⟨game, onGamepad⟩, hvariant, -⟩ := Option.map_eq_some_iff.mp h
          exact List.mem_cons_of_mem _ (mem_builtinNames_of_gameVariant? hvariant)

/-- Whether there is a built-in profile of a name, whose declarations make a table under that name. -/
def buildsUnder (name : String) : Bool :=
  match (declarations? name).map Declarations.build with
  | some (.ok table) => table.profile == name
  | _ => false

theorem all_buildsUnder : builtinKeys.all buildsUnder = true := by
  decide +kernel

theorem exists_build_of_mem_builtinKeys (h : name ∈ builtinKeys) : ∃ declared table,
    declarations? name = some declared ∧ declared.build = .ok table ∧ table.profile = name := by
  have hbuilds := List.all_eq_true.mp all_buildsUnder name h
  unfold buildsUnder at hbuilds
  split at hbuilds
  · rename_i table hmap
    obtain ⟨declared, hdeclared, hbuild⟩ := Option.map_eq_some_iff.mp hmap
    exact ⟨declared, table, hdeclared, hbuild, beq_iff_eq.mp hbuilds⟩
  · cases hbuilds

/-- In any case of letters, the name of a built-in profile gives its table, under the name in lower
case. -/
theorem builtin_of_mem (h : Text.lower name ∈ builtinKeys) :
    ∃ table, builtin name = .ok table ∧ table.profile = Text.lower name := by
  obtain ⟨declared, table, hdeclared, hbuild, hprofile⟩ := exists_build_of_mem_builtinKeys h
  refine ⟨table, ?_, hprofile⟩
  rw [builtin, hdeclared]
  exact hbuild

/-- Any other name is unknown. -/
theorem builtin_of_not_mem (h : Text.lower name ∉ builtinKeys) :
    builtin name = .error (.unknownProfile (Text.lower name)) := by
  cases hdeclared : declarations? (Text.lower name) with
  | some declared => exact absurd (mem_builtinKeys_of_declarations? hdeclared) h
  | none => rw [builtin, hdeclared]

/-- The case of letters does not matter. -/
theorem builtin_lower (name : String) : builtin (Text.lower name) = builtin name := by
  rw [builtin, builtin, Text.lower_lower]

end CrowdPad.Profile
