import CrowdPad.Console.Control
import CrowdPad.Proofs.Team.MacroFile
import CrowdPad.Proofs.Text.Words

/-! Control lines word by word. What a control line does depends on its words alone, whatever white space
parts them. Macro commands are cut at single blanks instead, so that of them this holds only as long as one
blank stands behind each word that is needed by itself. -/

namespace CrowdPad

namespace Text

/-- Words of a text. Behind each of so many of them stands one blank, unless it is the last; behind these
there is white space of any sort. -/
inductive Neat : Nat → List (List Char) → List Char → Prop where
  | last {n : Nat} {word : List Char} (hword : IsWord word) : Neat (n + 1) [word] word
  | next {n : Nat} {word : List Char} {words : List (List Char)} {cs : List Char}
      (hword : IsWord word) (hne : words ≠ []) (h : Neat n words cs) :
      Neat (n + 1) (word :: words) (word ++ ' ' :: cs)
  | beyond {cs : List Char} : Neat 0 (wordsFrom [] cs) cs

section Solid

variable {word : List Char} (hsolid : ∀ c ∈ word, isBlank c = false)

include hsolid

theorem ne_blank_of_solid : ∀ c ∈ word, decide (c ≠ ' ') = true := by
  intro c hc
  apply decide_eq_true
  rintro rfl
  exact absurd (hsolid ' ' hc) (by decide)

theorem splitParts_solid (n : Nat) : splitParts ' ' (n + 1) word = [word] := by
  have hrest : word.dropWhile (· ≠ ' ') = [] :=
    List.dropWhile_eq_nil_iff.mpr (ne_blank_of_solid hsolid)
  rw [splitParts, hrest]

theorem splitParts_blank (n : Nat) (cs : List Char) :
    splitParts ' ' (n + 1) (word ++ ' ' :: cs) = word :: splitParts ' ' n cs := by
  have hword := ne_blank_of_solid hsolid
  have hrest : (word ++ ' ' :: cs).dropWhile (· ≠ ' ') = ' ' :: cs := by
    rw [List.dropWhile_append_of_pos hword, List.dropWhile_cons_of_neg (by decide)]
  have hfirst : (word ++ ' ' :: cs).takeWhile (· ≠ ' ') = word := by
    rw [List.takeWhile_append_of_pos hword, List.takeWhile_cons_of_neg (by decide),
      List.append_nil]
  rw [splitParts, hrest]
  exact congrArg (· :: splitParts ' ' n cs) hfirst

end Solid

/-- A text of neatly parted words is cut into these words; what is behind the last cut has the words that
are left. -/
theorem Neat.split {m n : Nat} {words : List (List Char)} {cs : List Char} (h : Neat m words cs)
    (hle : m ≤ n) (hne : words ≠ []) : ∃ more, splitParts ' ' n cs = words.take m ++ more ∧
      (words.length ≤ m → more = []) ∧ (m = n → wordsFrom [] (more.headD []) = words.drop m) := by
  induction h generalizing n with
  | last hword =>
      obtain ⟨k, rfl⟩ := Nat.exists_eq_add_of_le' (Nat.le_of_add_left_le hle)
      refine ⟨[], ?_, fun _ => rfl, fun _ => by rw [List.drop_succ_cons, List.drop_nil]; rfl⟩
      rw [splitParts_solid hword.solid k, List.append_nil, List.take_succ_cons, List.take_nil]
  | next hword hrest _ ih =>
      obtain ⟨k, rfl⟩ := Nat.exists_eq_add_of_le' (Nat.le_of_add_left_le hle)
      obtain ⟨more, hsplit, hfew, hwords⟩ := ih (Nat.le_of_succ_le_succ hle) hrest
      refine ⟨more, ?_, fun hlength => hfew (Nat.le_of_succ_le_succ hlength),
        fun hsame => hwords (Nat.succ.inj hsame)⟩
      rw [splitParts_blank hword.solid k, hsplit]
      rfl
  | beyond =>
      refine ⟨_, rfl, fun hlength => absurd (List.length_eq_zero_iff.mp (Nat.le_zero.mp hlength)) hne, ?_⟩
      rintro rfl
      rfl

end Text

/-! ### Macros with the same words -/

section Congr

variable {body body' : String} (hwords : Text.words body = Text.words body')

include hwords

theorem Team.compileMacro_congr (t : Team) (name : String) :
    t.compileMacro name body = t.compileMacro name body' := by
  unfold Team.compileMacro Macro.compile Grammar.parseBody
  rw [hwords]

theorem TeamAction.addMacro_congr (name : String) :
    TeamAction.addMacro name body = TeamAction.addMacro name body' := by
  unfold TeamAction.addMacro Team.addMacro
  simp only [Team.compileMacro_congr hwords]

theorem TeamAction.changeMacro_congr (name : String) :
    TeamAction.changeMacro name body = TeamAction.changeMacro name body' := by
  unfold TeamAction.changeMacro Team.changeMacro
  simp only [Team.compileMacro_congr hwords]

end Congr

namespace Control

/-- How many words of a macro command are needed one by one: an action, a team and, where the action is
about one macro, its name. -/
def needed (action : List Char) : Nat :=
  if String.ofList action ∈ ["add", "change", "remove"] then 3 else 2

/-- Whether a line begins with the word for macro commands, and the words behind it are an action and some
more, parted neatly as far as they are needed one by one. -/
def IsNeat (line : String) (action : List Char) (more : List (List Char)) : Prop :=
  ∃ rest, line.toList = "macro".toList ++ rest ∧
    Text.Neat (needed action) (action :: more) (Text.trim rest)

variable {line : String} {action team : List Char} {more : List (List Char)}

theorem macroParts_of_isNeat (h : IsNeat line action more) : ∃ behind,
    macroParts line = ((action :: more).take (needed action) ++ behind).map String.ofList ∧
      (more.length < needed action → behind = []) ∧
      (needed action = 3 → Text.wordsFrom [] (behind.headD []) = (action :: more).drop 3) := by
  obtain ⟨rest, hline, hneat⟩ := h
  have hle : needed action ≤ 3 := by
    unfold needed
    split <;> decide
  obtain ⟨behind, hsplit, hfew, hwords⟩ := hneat.split hle (List.cons_ne_nil _ _)
  refine ⟨behind, ?_, hfew, fun hthree => ?_⟩
  · have hstart : Text.dropStart? "macro".toList line.toList = some rest := by
      have hfront : "macro".toList.isPrefixOf line.toList = true := by
        rw [hline, List.isPrefixOf_iff_prefix]
        exact List.prefix_append _ _
      rw [Text.dropStart?, if_pos hfront, hline, List.drop_left]
    rw [macroParts, hstart, Option.getD_some, hsplit]
  · rw [hwords hthree, hthree]

/-- A macro command without a team is refused. -/
theorem ofMacroLine_of_action (h : IsNeat line action []) : ofMacroLine line =
    .error (.usage "!macro <add|change|remove|list|reload> <team> [name] [body]") := by
  obtain ⟨behind, hparts, hfew, -⟩ := macroParts_of_isNeat h
  have hpos : 0 < needed action := by
    unfold needed
    split <;> decide
  rw [hfew hpos, List.append_nil, List.take_of_length_le hpos] at hparts
  rw [ofMacroLine, hparts]
  rfl

/-- A neat macro command is read word by word. -/
theorem ofMacroLine_of_isNeat (h : IsNeat line action (team :: more)) : ∃ name body,
    ofMacroLine line = .ok (.macros (String.ofList action) (String.ofList team) name body) ∧
      (needed action = 3 →
        name = String.ofList (more.headD []) ∧ Text.words body = more.drop 1) := by
  obtain ⟨behind, hparts, hfew, hwords⟩ := macroParts_of_isNeat h
  by_cases hthree : needed action = 3
  · rw [hthree] at hparts hfew
    specialize hwords hthree
    cases more with
    | nil =>
        rw [hfew (by simp), List.append_nil] at hparts
        refine ⟨"", "", ?_, fun _ => ⟨rfl, rfl⟩⟩
        rw [ofMacroLine, hparts]
        rfl
    | cons name more =>
        refine ⟨String.ofList name, String.ofList (behind.headD []), ?_, fun _ => ⟨rfl, ?_⟩⟩
        · rw [ofMacroLine, hparts]
          cases behind <;> rfl
        · rw [Text.words, String.toList_ofList]
          exact hwords
  · have htwo : needed action = 2 := by
      unfold needed at hthree ⊢
      split at hthree
      · exact absurd rfl hthree
      · exact if_neg ‹_›
    let parts := behind.map String.ofList
    refine ⟨parts.headD "", (parts.drop 1).headD "", ?_, fun h => absurd h hthree⟩
    rw [htwo] at hparts
    rw [ofMacroLine, hparts]
    rfl

/-- The word for macro commands alone is refused, whatever white space is around it. -/
theorem ofMacroLine_of_no_words (h : Text.words line = ["macro".toList]) : ofMacroLine line =
    .error (.usage "!macro <add|change|remove|list|reload> <team> [name] [body]") := by
  have hsolid : Text.IsWord "macro".toList := by decide
  have hparts : ∃ part, macroParts line = [part] := by
    rw [macroParts, Text.dropStart?]
    split
    · rename_i hfront
      obtain ⟨rest, hline⟩ := List.isPrefixOf_iff_prefix.mp hfront
      obtain ⟨front, behind, rfl, -, hwords⟩ := Text.wordsFrom_front hsolid rest
      rw [hline] at hwords
      obtain ⟨hword, hnone⟩ := List.cons_eq_cons.mp (hwords.symm.trans h)
      obtain rfl := List.append_cancel_left (hword.trans (List.append_nil _).symm)
      rw [List.nil_append] at hline
      have hrest : line.toList.drop "macro".toList.length = behind := by
        rw [← hline, List.drop_left]
      rw [Option.getD_some, hrest, Text.trim_of_no_words hnone]
      exact ⟨_, rfl⟩
    · rw [Option.getD_none, Text.trim_of_one_word h, Text.splitParts_solid hsolid.solid]
      exact ⟨_, rfl⟩
  obtain ⟨part, hpart⟩ := hparts
  rw [ofMacroLine, hpart]

theorem ofLine_of_macro {words : List (List Char)} (h : Text.words line = "macro".toList :: words) :
    ofLine line = ofMacroLine line := by
  rw [ofLine, h]
  rfl

/-- All control lines but macro commands are read by their words. -/
theorem ofLine_congr {line' : String} (hwords : Text.words line = Text.words line')
    (hother : ∀ words, Text.words line ≠ "macro".toList :: words) : ofLine line = ofLine line' := by
  have hname : ((Text.words line).map String.ofList).headD "" ≠ "macro" := by
    cases hline : Text.words line with
    | nil => decide
    | cons word words =>
        intro hname
        have hword : word = "macro".toList := by rw [← hname]; exact String.toList_ofList.symm
        exact hother words (hword ▸ hline)
  unfold ofLine
  rw [← hwords]
  simp only
  split
  · rfl
  · split
    · rfl
    · rename_i hmeans
      exact absurd hmeans hname
    all_goals rfl

end Control

namespace Hub

variable (hub : Hub)

/-- A name and a body make no difference where they are not needed, and the spacing of a body makes none. -/
theorem controlMacros_congr (action : List Char) (team : String) {name name' body body' : String}
    (h : Control.needed action = 3 → name = name' ∧ Text.words body = Text.words body') :
    hub.controlMacros (String.ofList action) team name body =
      hub.controlMacros (String.ofList action) team name' body' := by
  unfold Control.needed at h
  unfold controlMacros
  split
  · rfl
  · split
    · rename_i hadd
      obtain ⟨rfl, hwords⟩ := h (by rw [hadd]; rfl)
      rw [TeamAction.addMacro_congr hwords]
    · rename_i hchange
      obtain ⟨rfl, hwords⟩ := h (by rw [hchange]; rfl)
      rw [TeamAction.changeMacro_congr hwords]
    · rename_i hremove
      obtain ⟨rfl, -⟩ := h (by rw [hremove]; rfl)
      rfl
    · rfl
    · rfl
    · rfl

/-- **Control lines word by word.** Two control lines of the same words have the same effect and the same
outcome, for every process and whatever white space parts the words or stands before them. Where the lines
are macro commands, the word for it has to stand at the very beginning, and one blank has to stand behind each
word that is needed by itself; the spacing of a body makes no difference. -/
theorem controlLine_respaced {line line' : String} (hwords : Text.words line = Text.words line')
    (hneat : ∀ action more, Text.words line = "macro".toList :: action :: more →
      Control.IsNeat line action more ∧ Control.IsNeat line' action more) :
    hub.controlLine line = hub.controlLine line' := by
  by_cases hcalled : ∃ words, Text.words line = "macro".toList :: words
  · obtain ⟨words, hline⟩ := hcalled
    have hline' : Text.words line' = "macro".toList :: words := hwords.symm.trans hline
    rw [controlLine, controlLine, Control.ofLine_of_macro hline, Control.ofLine_of_macro hline']
    cases words with
    | nil =>
        rw [Control.ofMacroLine_of_no_words hline, Control.ofMacroLine_of_no_words hline']
    | cons action more =>
        obtain ⟨hfirst, hother⟩ := hneat action more hline
        cases more with
        | nil => rw [Control.ofMacroLine_of_action hfirst, Control.ofMacroLine_of_action hother]
        | cons team more =>
            obtain ⟨name, body, hread, hneeded⟩ := Control.ofMacroLine_of_isNeat hfirst
            obtain ⟨name', body', hread', hneeded'⟩ := Control.ofMacroLine_of_isNeat hother
            rw [hread, hread']
            refine hub.controlMacros_congr action _ fun hthree => ?_
            obtain ⟨hname, hbody⟩ := hneeded hthree
            obtain ⟨hname', hbody'⟩ := hneeded' hthree
            exact ⟨hname.trans hname'.symm, hbody.trans hbody'.symm⟩
  · have hsame := Control.ofLine_congr hwords fun words hline => hcalled ⟨words, hline⟩
    rw [controlLine, controlLine, hsame]

/-- A process whose only team may change its macros and keeps them in a file. -/
def keeping : Hub := (Station.keeping "m.json" {}).hub [] []

theorem controlLine_respaced_hop :
    (keeping.controlLine "macro \t add red Hop  jump   50").hub.members.map
      (fun m => m.team.macros.names) = [["hop"]] := by
  let words : List String := ["add", "red", "Hop", "jump", "50"]
  have hneat : ∀ {line : String} (rest body : List Char), line.toList = "macro".toList ++ rest →
      Text.trim rest =
        "add".toList ++ ' ' :: ("red".toList ++ ' ' :: ("Hop".toList ++ ' ' :: body)) →
      Text.wordsFrom [] body = ["jump".toList, "50".toList] →
      Control.IsNeat line "add".toList ((words.drop 1).map String.toList) := by
    intro line rest body hline htrim hbody
    refine ⟨rest, hline, ?_⟩
    have hlast : Text.Neat 0 ["jump".toList, "50".toList] body := hbody ▸ .beyond
    rw [htrim]
    exact .next (by decide) (List.cons_ne_nil _ _) (.next (by decide) (List.cons_ne_nil _ _)
      (.next (by decide) (List.cons_ne_nil _ _) hlast))
  have hline : Text.words "macro \t add red Hop  jump   50" =
      "macro".toList :: words.map String.toList := by decide +kernel
  have hline' : Text.words "macro add red Hop jump 50" =
      "macro".toList :: words.map String.toList := by decide +kernel
  rw [keeping.controlLine_respaced (hline.trans hline'.symm)]
  · decide +kernel
  · intro action more hwords
    obtain ⟨-, hwords⟩ := List.cons_eq_cons.mp (hwords.symm.trans hline)
    obtain ⟨rfl, rfl⟩ := List.cons_eq_cons.mp hwords
    constructor
    · exact hneat " \t add red Hop  jump   50".toList " jump   50".toList
        (by decide +kernel) (by decide +kernel) (by decide +kernel)
    · exact hneat " add red Hop jump 50".toList "jump 50".toList
        (by decide +kernel) (by decide +kernel) (by decide +kernel)

/-- Behind two blanks the team of a macro command is missed, and behind one at the beginning it is taken
for the action; a hook minds neither. -/
theorem spaced_macro_misread :
    Text.words " macro list red" = Text.words "macro list red" ∧
      Text.words "macro list  red" = Text.words "macro list red" ∧
      (keeping.controlLine "macro list red").outcome = .ok true ∧
      (keeping.controlLine " macro list red").outcome = .error (.unknownTeam "list") ∧
      (keeping.controlLine "macro list  red").outcome = .error (.unknownTeam "") ∧
      (keeping.controlLine "  cancel   red").outcome = .ok true := by
  refine ⟨by decide +kernel, by decide +kernel, by rfl, by rfl, by rfl, by rfl⟩

end Hub

end CrowdPad
