import CrowdPad.Files.Path
import Mathlib.Data.List.TakeWhile

/-! Names in paths. Empty names and single dots lead nowhere; apart from them a path is its parent and
one more name, and a path with another extension has the same parent and another last name. A path that
ends in anything but a slash or a dot is written as that of a file. -/

namespace CrowdPad.Path

/-! ### Parts -/

/-- Whether a name leads anywhere. -/
def leads (name : String) : Bool := name != "" && name != "."

/-- The names that lead anywhere, of a path given as characters. -/
def parts (cs : List Char) : List String := ((cs.splitOn '/').map String.ofList).filter leads

@[simp] theorem parts_nil : parts [] = [] := rfl

theorem parts_append_slash (before behind : List Char) :
    parts (before ++ '/' :: behind) = parts before ++ parts behind := by
  rw [parts, List.splitOn_append_cons_self, List.map_append, List.filter_append]
  rfl

theorem splitOn_of_not_mem {cs : List Char} (h : '/' ∉ cs) : cs.splitOn '/' = [cs] := by
  refine List.splitOnP_eq_singleton fun c hc => beq_eq_false_iff_ne.mpr ?_
  rintro rfl
  exact h hc

theorem parts_of_leads {name : String} (h : '/' ∉ name.toList) (hleads : leads name) :
    parts name.toList = [name] := by
  rw [parts, splitOn_of_not_mem h, List.map_singleton, String.ofList_toList,
    List.filter_cons_of_pos hleads, List.filter_nil]

/-- What a path can be continued behind. -/
def IsFront (before : List Char) : Prop := before = [] ∨ ∃ more, before = more ++ ['/']

theorem parts_append {before : List Char} (h : IsFront before) (behind : List Char) :
    parts (before ++ behind) = parts before ++ parts behind := by
  rcases h with rfl | ⟨more, rfl⟩
  · rfl
  · rw [List.append_assoc, List.singleton_append, parts_append_slash, parts_append_slash, parts_nil,
      List.append_nil]

/-! ### The end of a path -/

theorem parts_dropSlashes (cs : List Char) : parts (dropSlashes cs).reverse = parts cs.reverse := by
  fun_induction dropSlashes cs with
  | case1 => rfl
  | case2 rest _ ih => rw [ih, List.reverse_cons, parts_append_slash, parts_nil, List.append_nil]
  | case3 => rfl
  | case4 rest _ ih =>
      have hdot : parts ['.'] = [] := by decide
      rw [ih, List.reverse_cons, List.reverse_cons, List.append_assoc, List.singleton_append,
        parts_append_slash, hdot, List.append_nil]
  | case5 => rfl

theorem head?_dropSlashes (cs : List Char) : (dropSlashes cs).reverse.head? = cs.reverse.head? := by
  have hfirst {rest : List Char} (hne : rest ≠ []) (behind : List Char) :
      (rest.reverse ++ behind).head? = rest.reverse.head? := by
    obtain ⟨c, more, hmore⟩ := List.exists_cons_of_ne_nil (mt List.reverse_eq_nil_iff.mp hne)
    rw [hmore]
    rfl
  fun_induction dropSlashes cs with
  | case1 => rfl
  | case2 rest hne ih => rw [ih, List.reverse_cons, hfirst hne]
  | case3 => rfl
  | case4 rest hne ih =>
      rw [ih, List.reverse_cons, List.reverse_cons, List.append_assoc, hfirst hne]
  | case5 => rfl

/-- What is left ends in a slash only if it is the root, and in a single dot only if it is that. -/
theorem dropSlashes_stops (cs : List Char) :
    (∀ rest, dropSlashes cs = '/' :: rest → rest = []) ∧
      ∀ rest, dropSlashes cs ≠ '.' :: '/' :: rest := by
  fun_induction dropSlashes cs with
  | case1 => simp
  | case2 rest _ ih => exact ih
  | case3 => simp
  | case4 rest _ ih => exact ih
  | case5 cs h1 h2 h3 h4 =>
      constructor
      · rintro rest rfl
        exact absurd rfl (h2 rest)
      · rintro rest rfl
        exact h4 rest rfl

variable {path : String} {last before : List Char}

/-- What stands behind the last slash, and what stands before it. -/
theorem isFront_dropWhile (cs : List Char) :
    '/' ∉ cs.takeWhile (· ≠ '/') ∧ IsFront (cs.dropWhile (· ≠ '/')).reverse := by
  constructor
  · intro hmem
    simpa using List.mem_takeWhile_imp hmem
  · cases hdrop : cs.dropWhile (· ≠ '/') with
    | nil => exact .inl rfl
    | cons c rest =>
        have hc : c = '/' := by
          have hhead := List.head?_dropWhile_not (p := (· ≠ '/')) (l := cs)
          rw [hdrop] at hhead
          simpa using hhead
        refine .inr ⟨rest.reverse, ?_⟩
        rw [hc, List.reverse_cons]

theorem splitLast_eq (h : splitLast path = (last, before)) :
    dropSlashes path.toList.reverse = last ++ before ∧ '/' ∉ last ∧ IsFront before.reverse := by
  obtain ⟨rfl, rfl⟩ := Prod.mk.inj h
  exact ⟨(List.takeWhile_append_dropWhile).symm, isFront_dropWhile _⟩

theorem parts_of_splitLast (h : splitLast path = (last, before)) :
    parts path.toList = parts before.reverse ++ parts last.reverse := by
  obtain ⟨hdrop, -, hfront⟩ := splitLast_eq h
  rw [← List.reverse_reverse path.toList, ← parts_dropSlashes, hdrop, List.reverse_append,
    parts_append hfront]

theorem head?_of_splitLast (h : splitLast path = (last, before)) :
    path.toList.head? = (before.reverse ++ last.reverse).head? := by
  obtain ⟨hdrop, -, -⟩ := splitLast_eq h
  rw [← List.reverse_reverse path.toList, ← head?_dropSlashes, hdrop, List.reverse_append]

/-- A path leads nowhere, or it has a last name that leads somewhere. -/
theorem splitLast_cases (h : splitLast path = (last, before)) :
    parts path.toList = [] ∧ (last = [] ∨ last = ['.'] ∧ before = []) ∨
      leads (String.ofList last.reverse) ∧
        parts path.toList = parts before.reverse ++ [String.ofList last.reverse] := by
  obtain ⟨hdrop, hslash, hfront⟩ := splitLast_eq h
  obtain ⟨hroot, hdot⟩ := dropSlashes_stops path.toList.reverse
  have hparts := parts_of_splitLast h
  by_cases hleads : leads (String.ofList last.reverse)
  · have hname : parts last.reverse = [String.ofList last.reverse] := by
      have hsolid : '/' ∉ (String.ofList last.reverse).toList := by simpa using hslash
      simpa using parts_of_leads hsolid hleads
    rw [hname] at hparts
    exact .inr ⟨hleads, hparts⟩
  · left
    have hbefore : before = [] ∨ ∃ more, before = '/' :: more := by
      refine hfront.imp List.reverse_eq_nil_iff.mp ?_
      rintro ⟨more, hmore⟩
      exact ⟨more.reverse, by simpa using congrArg List.reverse hmore⟩
    have hlast : last = [] ∨ last = ['.'] := by
      simp only [leads, Bool.and_eq_true, bne_iff_ne, ne_eq, not_and_or, not_not] at hleads
      refine hleads.imp (fun hempty => ?_) fun hsingle => ?_
      · simpa using congrArg String.toList hempty
      · simpa using congrArg (List.reverse ∘ String.toList) hsingle
    rcases hlast with rfl | rfl
    · refine ⟨?_, .inl rfl⟩
      rcases hbefore with rfl | ⟨more, rfl⟩
      · exact hparts
      · rw [hroot more hdrop] at hparts
        exact hparts
    · rcases hbefore with rfl | ⟨more, rfl⟩
      · exact ⟨hparts, .inr ⟨rfl, rfl⟩⟩
      · exact absurd hdrop (hdot more)

/-- The names of a path are those before its last slash and the one behind it. -/
theorem names_eq_concat (path : String) : ∃ more, names path =
    more ++ [String.ofList (path.toList.reverse.takeWhile (· ≠ '/')).reverse] := by
  obtain ⟨hslash, hfront⟩ := isFront_dropWhile path.toList.reverse
  have hpath : path.toList = (path.toList.reverse.dropWhile (· ≠ '/')).reverse ++
      (path.toList.reverse.takeWhile (· ≠ '/')).reverse := by
    rw [← List.reverse_append, List.takeWhile_append_dropWhile, List.reverse_reverse]
  generalize path.toList.reverse.takeWhile (· ≠ '/') = last at hslash hpath ⊢
  generalize (path.toList.reverse.dropWhile (· ≠ '/')).reverse = before at hfront hpath
  have hsolid : '/' ∉ last.reverse := by simpa using hslash
  rw [names, hpath]
  rcases hfront with rfl | ⟨more, rfl⟩
  · exact ⟨[], by rw [List.nil_append, splitOn_of_not_mem hsolid, List.map_singleton, List.nil_append]⟩
  · rw [List.append_assoc, List.singleton_append, List.splitOn_append_cons_self,
      splitOn_of_not_mem hsolid, List.map_append, List.map_singleton]
    exact ⟨_, rfl⟩

/-- A path that is not written as that of a folder ends in a name. -/
theorem getLast?_names (hne : path ≠ "") (hfile : endsInSlash path = false) :
    (names path).getLast? ≠ some "" := by
  obtain ⟨more, hmore⟩ := names_eq_concat path
  rw [hmore, List.getLast?_concat]
  intro hempty
  have hlast : path.toList.reverse.takeWhile (· ≠ '/') = [] := by
    simpa using congrArg String.toList (Option.some.inj hempty)
  have hne' : path.toList ≠ [] := fun hnil => hne (String.toList_eq_nil_iff.mp hnil)
  obtain ⟨before, c, hpath⟩ := List.eq_nil_or_concat path.toList |>.resolve_left hne'
  rw [hpath, List.concat_eq_append, List.reverse_append, List.reverse_singleton,
    List.singleton_append] at hlast
  rw [endsInSlash, hpath, List.concat_eq_append, List.getLast?_concat] at hfile
  have hc : c ≠ '/' := by
    rintro rfl
    exact absurd hfile (by decide)
  rw [List.takeWhile_cons_of_pos (by simpa using hc)] at hlast
  cases hlast

/-! ### Parents -/

theorem length_dropSlashes_le (cs : List Char) : (dropSlashes cs).length ≤ cs.length := by
  fun_induction dropSlashes cs with
  | case1 => exact le_rfl
  | case2 rest _ ih => exact ih.trans (Nat.le_succ _)
  | case3 => exact Nat.le_succ _
  | case4 rest _ ih => exact ih.trans ((Nat.le_succ _).trans (Nat.le_succ _))
  | case5 => exact le_rfl

theorem parent?_eq_some {parent : String} (h : parent? path = some parent) : ∃ last before,
    splitLast path = (last, before) ∧ last ≠ [] ∧ parent.toList = (dropSlashes before).reverse := by
  obtain ⟨last, before, hsplit⟩ : ∃ last before, splitLast path = (last, before) := ⟨_, _, rfl⟩
  unfold parent? at h
  rw [hsplit] at h
  split at h
  · cases h
  · rename_i hlast heq
    cases heq
    cases h
    exact ⟨last, before, hsplit, hlast, String.toList_ofList⟩

/-- A path that leads somewhere is its parent and one more name. -/
theorem parent?_cases {parent : String} (h : parent? path = some parent) :
    isAbsolute parent = isAbsolute path ∧
      (parent = "" ∧ parts path.toList = [] ∨
        ∃ name, leads name ∧ parts path.toList = parts parent.toList ++ [name]) := by
  obtain ⟨last, before, hsplit, hlast, hparent⟩ := parent?_eq_some h
  have hslash : '/' ∉ last := (splitLast_eq hsplit).2.1
  constructor
  · rw [isAbsolute, isAbsolute, hparent, head?_dropSlashes, head?_of_splitLast hsplit]
    cases hbefore : before.reverse with
    | cons c more => rfl
    | nil =>
        have hhead : last.reverse.head? ≠ some '/' := fun hhead =>
          hslash (List.mem_reverse.mp (List.mem_of_head? hhead))
        rw [List.nil_append, decide_eq_false hhead]
        rfl
  · rcases splitLast_cases hsplit with ⟨hnone, hempty | ⟨-, rfl⟩⟩ | ⟨hleads, hparts⟩
    · exact absurd hempty hlast
    · exact .inl ⟨String.toList_eq_nil_iff.mp hparent, hnone⟩
    · exact .inr ⟨_, hleads, by rw [hparent, parts_dropSlashes, hparts]⟩

theorem parts_of_no_parent (h : parent? path = none) : parts path.toList = [] := by
  obtain ⟨last, before, hsplit⟩ : ∃ last before, splitLast path = (last, before) := ⟨_, _, rfl⟩
  unfold parent? at h
  rw [hsplit] at h
  split at h
  · rename_i heq
    cases heq
    rcases splitLast_cases hsplit with ⟨hnone, -⟩ | ⟨hleads, -⟩
    · exact hnone
    · exact absurd hleads (by decide)
  · cases h

theorem length_parent? {parent : String} (h : parent? path = some parent) :
    parent.length < path.length := by
  obtain ⟨last, before, hsplit, hlast, hparent⟩ := parent?_eq_some h
  have hdrop := congrArg List.length (splitLast_eq hsplit).1
  have hparentLength := congrArg List.length hparent
  have hwhole := length_dropSlashes_le path.toList.reverse
  have hrest := length_dropSlashes_le before
  have hpos := List.length_pos_iff.mpr hlast
  rw [List.length_append] at hdrop
  rw [List.length_reverse, String.length_toList] at hparentLength hwhole
  omega

/-- Whether nothing stands behind the last name of a path. -/
def Trim (path : String) : Prop :=
  parts path.toList = [] ∨ ∃ before last, names path = before ++ [last] ∧ leads last

theorem trim_parent? {parent : String} (h : parent? path = some parent) : Trim parent := by
  obtain ⟨last, before, -, -, hparent⟩ := parent?_eq_some h
  obtain ⟨hroot, hdot⟩ := dropSlashes_stops before
  obtain ⟨more, hmore⟩ := names_eq_concat parent
  have hreverse : parent.toList.reverse = dropSlashes before := by rw [hparent, List.reverse_reverse]
  rw [hreverse] at hmore
  by_cases hleads : leads (String.ofList ((dropSlashes before).takeWhile (· ≠ '/')).reverse)
  · exact .inr ⟨more, _, hmore, hleads⟩
  · left
    -- What leads nowhere is all there is.
    have hlast : (dropSlashes before).takeWhile (· ≠ '/') = [] ∨
        (dropSlashes before).takeWhile (· ≠ '/') = ['.'] := by
      simp only [leads, Bool.and_eq_true, bne_iff_ne, ne_eq, not_and_or, not_not] at hleads
      refine hleads.imp (fun hempty => ?_) fun hsingle => ?_
      · simpa using congrArg String.toList hempty
      · simpa using congrArg (List.reverse ∘ String.toList) hsingle
    rw [hparent]
    cases hcs : dropSlashes before with
    | nil => rfl
    | cons c rest =>
        rw [hcs] at hlast hroot hdot
        by_cases hc : c = '/'
        · subst hc
          rw [hroot rest rfl]
          decide
        · rw [List.takeWhile_cons_of_pos (by simpa using hc)] at hlast
          rcases hlast with hnil | hsingle
          · cases hnil
          · obtain ⟨rfl, hrest⟩ := List.cons.inj hsingle
            cases rest with
            | nil => decide
            | cons c' rest' =>
                by_cases hc' : c' = '/'
                · exact absurd (by rw [hc']) (hdot rest')
                · rw [List.takeWhile_cons_of_pos (by simpa using hc')] at hrest
                  cases hrest

/-! ### Extensions -/

/-- A path without a file name leads nowhere or back to the folder around. -/
theorem fileName?_eq_none (h : fileName? path = none) :
    parts path.toList = [] ∨ ∃ around, parts path.toList = around ++ [".."] := by
  obtain ⟨last, before, hsplit⟩ : ∃ last before, splitLast path = (last, before) := ⟨_, _, rfl⟩
  have hparts := parts_of_splitLast hsplit
  rcases splitLast_cases hsplit with ⟨hnone, -⟩ | ⟨hleads, hparts⟩
  · exact .inl hnone
  · unfold fileName? at h
    rw [hsplit] at h
    split at h
    · rename_i heq
      cases heq
      exact absurd hleads (by decide)
    · rename_i heq
      cases heq
      exact absurd hleads (by decide)
    · rename_i heq
      cases heq
      exact .inr ⟨_, hparts⟩
    · cases h

theorem fileName?_eq_some {name : String} (h : fileName? path = some name) :
    name = String.ofList (splitLast path).1.reverse ∧ '/' ∉ name.toList ∧ leads name ∧ name ≠ ".." ∧
      parts path.toList = parts (splitLast path).2.reverse ++ [name] := by
  obtain ⟨last, before, hsplit⟩ : ∃ last before, splitLast path = (last, before) := ⟨_, _, rfl⟩
  obtain ⟨-, hslash, -⟩ := splitLast_eq hsplit
  unfold fileName? at h
  rw [hsplit] at h ⊢
  split at h
  · cases h
  · cases h
  · cases h
  · rename_i hempty hdot hdots heq
    cases heq
    cases h
    have hsolid : '/' ∉ (String.ofList last.reverse).toList := by simpa using hslash
    have hup : String.ofList last.reverse ≠ ".." := by
      intro heq
      have hlast : last = ['.', '.'] := by
        simpa using congrArg (List.reverse ∘ String.toList) heq
      exact hdots hlast
    rcases splitLast_cases hsplit with ⟨-, rfl | ⟨rfl, -⟩⟩ | ⟨hleads, hparts⟩
    · exact absurd rfl hempty
    · exact absurd rfl hdot
    · exact ⟨rfl, hsolid, hleads, hup, hparts⟩

/-- The stem of a name is a part of it, and with two extensions it is another name. -/
theorem fileStem?_eq_some {name stem : String} (hname : fileName? path = some name)
    (hstem : fileStem? path = some stem) :
    (∀ c ∈ stem.toList, c ∈ name.toList) ∧ stem ++ "." ++ "json.tmp" ≠ name := by
  rw [fileStem?, hname, Option.map_some] at hstem
  have hstem := Option.some.inj hstem
  constructor
  · intro c hc
    split at hstem
    · rwa [hstem]
    · rwa [hstem]
    · rename_i _ rest _ hdrop
      rw [← hstem, String.toList_ofList, List.mem_reverse] at hc
      rw [← List.mem_reverse]
      refine (List.dropWhile_suffix (· ≠ '.')).subset ?_
      rw [hdrop]
      exact List.mem_cons_of_mem _ hc
  · -- A name with both extensions has a stem with one of them, which is longer than the stem.
    intro heq
    have hreverse : name.toList.reverse.dropWhile (· ≠ '.') =
        '.' :: 'n' :: 'o' :: 's' :: 'j' :: '.' :: stem.toList.reverse := by
      rw [← heq]
      simp
    rw [hreverse] at hstem
    have hlength := congrArg String.length hstem
    simp at hlength

/-- With another extension a path has the same parent and another last name. -/
theorem withExtension_parts {name : String} (h : fileName? path = some name) :
    ∃ around other, leads other ∧ other ≠ ".." ∧ other ≠ name ∧
      parts path.toList = around ++ [name] ∧
      parts (withExtension path "json.tmp").toList = around ++ [other] ∧
      isAbsolute (withExtension path "json.tmp") = isAbsolute path := by
  obtain ⟨hlast, hslash, -, -, hparts⟩ := fileName?_eq_some h
  have hfront : IsFront (splitLast path).2.reverse := (splitLast_eq rfl).2.2
  cases hstem : fileStem? path with
  | none =>
      rw [fileStem?, h] at hstem
      cases hstem
  | some stem =>
      obtain ⟨hsub, hother⟩ := fileStem?_eq_some h hstem
      have hpath : (withExtension path "json.tmp").toList =
          (splitLast path).2.reverse ++ (stem ++ "." ++ "json.tmp").toList := by
        rw [withExtension, hstem]
        simp
      -- The other name is too long for a dot or two.
      have hlong : 9 ≤ (stem ++ "." ++ "json.tmp").length := by
        rw [String.length_append, String.length_append]
        show 9 ≤ stem.length + 1 + 8
        omega
      have hleads : leads (stem ++ "." ++ "json.tmp") := by
        simp only [leads, Bool.and_eq_true, bne_iff_ne]
        constructor
        · intro heq
          rw [heq] at hlong
          exact absurd hlong (by decide)
        · intro heq
          rw [heq] at hlong
          exact absurd hlong (by decide)
      have hup : stem ++ "." ++ "json.tmp" ≠ ".." := by
        intro heq
        rw [heq] at hlong
        exact absurd hlong (by decide)
      have hsolid : '/' ∉ (stem ++ "." ++ "json.tmp").toList := by
        simp only [String.toList_append, List.mem_append, not_or]
        exact ⟨⟨fun hmem => hslash (hsub _ hmem), by decide⟩, by decide⟩
      refine ⟨_, _, hleads, hup, hother, hparts, ?_, ?_⟩
      · rw [hpath, parts_append hfront, parts_of_leads hsolid hleads]
      · have hhead : path.toList.head? = ((splitLast path).2.reverse ++ name.toList).head? := by
          rw [hlast, String.toList_ofList]
          exact head?_of_splitLast rfl
        have hsame : (withExtension path "json.tmp").toList.head? = some '/' ↔
            path.toList.head? = some '/' := by
          rw [hpath, hhead]
          cases (splitLast path).2.reverse with
          | nil =>
              constructor
              · exact fun hhead => absurd (List.mem_of_head? hhead) hsolid
              · exact fun hhead => absurd (List.mem_of_head? hhead) hslash
          | cons c rest => rfl
        simp only [isAbsolute, hsame]

/-! ### Paths of files -/

/-- Whether a path is written as that of a file. -/
structure OfFile (path : String) : Prop where
  name : (fileName? path).isSome
  trim : Trim path
  slash : endsInSlash path = false

theorem getLast?_append_of (before : String) {behind : String} {c : Char}
    (h : behind.toList.getLast? = some c) : (before ++ behind).toList.getLast? = some c := by
  rw [String.toList_append, List.getLast?_append, h, Option.some_or]

theorem ofFile_of_getLast? {c : Char} (h : path.toList.getLast? = some c) (hslash : c ≠ '/')
    (hdot : c ≠ '.') : OfFile path := by
  obtain ⟨front, hpath⟩ := List.getLast?_eq_some_iff.mp h
  have hreverse : path.toList.reverse = c :: front.reverse := by
    rw [hpath, List.reverse_append]
    rfl
  have hlast : (c :: front.reverse).takeWhile (· ≠ '/') = c :: front.reverse.takeWhile (· ≠ '/') :=
    List.takeWhile_cons_of_pos (by simpa using hslash)
  constructor
  · -- Nothing is taken off the end, so the name ends as the path does.
    have hdrop : dropSlashes (c :: front.reverse) = c :: front.reverse := by
      rw [dropSlashes]
      · exact fun heq => hslash (List.cons.inj heq).1
      · exact fun _ heq => hslash (List.cons.inj heq).1
      · exact fun heq => hdot (List.cons.inj heq).1
      · exact fun _ heq => hdot (List.cons.inj heq).1
    have hsplit : splitLast path = (c :: front.reverse.takeWhile (· ≠ '/'),
        (c :: front.reverse).dropWhile (· ≠ '/')) := by
      rw [splitLast, hreverse, hdrop, hlast]
    rw [fileName?, hsplit]
    split
    · rename_i heq
      cases heq
    · rename_i heq
      exact absurd (List.cons.inj (Prod.mk.inj heq).1).1 hdot
    · rename_i heq
      exact absurd (List.cons.inj (Prod.mk.inj heq).1).1 hdot
    · rfl
  · obtain ⟨more, hmore⟩ := names_eq_concat path
    refine .inr ⟨more, _, hmore, ?_⟩
    have hname : (String.ofList (path.toList.reverse.takeWhile (· ≠ '/')).reverse).toList.getLast? =
        some c := by
      rw [hreverse, hlast, String.toList_ofList, List.getLast?_reverse]
      rfl
    rw [leads, Bool.and_eq_true, bne_iff_ne, bne_iff_ne]
    constructor
    · intro hsame
      rw [hsame] at hname
      cases hname
    · intro hsame
      rw [hsame] at hname
      exact hdot (Option.some.inj hname).symm
  · rw [endsInSlash, h]
    simpa using hslash

/-- A file that has the name of another one with another extension. -/
theorem ofFile_withExtension {name extension : String} {c : Char} (h : fileName? path = some name)
    (hlast : extension.toList.getLast? = some c) (hslash : c ≠ '/') (hdot : c ≠ '.') :
    OfFile (withExtension path extension) := by
  cases hstem : fileStem? path with
  | none =>
      rw [fileStem?, h] at hstem
      cases hstem
  | some stem =>
      rw [withExtension, hstem]
      exact ofFile_of_getLast? (getLast?_append_of _ hlast) hslash hdot

end CrowdPad.Path
