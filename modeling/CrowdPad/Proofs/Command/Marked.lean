import CrowdPad.Proofs.Command.LeftOver
import CrowdPad.Proofs.Command.Phrase

/-! Marked words one behind the other. A marked word begins a command, and the marked word behind it
begins the next one, unless the marker is the minus sign and a digit comes behind it: such a word is read
as a negative number, which spoils the command before it. -/

namespace CrowdPad

namespace Grammar

variable {α : Type} {g : Grammar} {resolve : String → Option α} {always inRun : Bool}
  {v w word : Word} {words front back taken : List Word} {next : Option Word} {part : Part α}
  {parts : List (Part α)}

/-! ### Marked words -/

/-- A word with the marker in front of it. -/
def mark (g : Grammar) (word : Word) : Word := g.marker.toList ++ word

theorem candidate?_mark (g : Grammar) (hv : v ≠ []) (inRun : Bool) :
    g.candidate? inRun (g.mark v) = some v := by
  rw [candidate?, mark, marked?_append g hv]

theorem named_mark (g : Grammar) (hv : v ≠ []) :
    g.named (g.mark v) = Text.lower (String.ofList v) := by
  rw [named, mark, marked?_append g hv, Option.getD_some]

/-- Whether a word reads as a negative number once it is marked. -/
def Clashes (g : Grammar) (word : Word) : Prop :=
  g.marker = "-" ∧ word.head?.any Text.isDigit

theorem Accepted.startsLikeTiming_mark (h : g.Accepted) (word : Word) :
    (g.mark word).startsLikeTiming ↔ g.Clashes word := by
  have hmarker : g.marker.toList = ['-'] ↔ g.marker = "-" :=
    ⟨fun heq => String.toList_inj.mp heq, fun heq => by rw [heq]; rfl⟩
  rw [mark, h.marker.startsLikeTiming_append, Bool.and_eq_true, decide_eq_true_iff, hmarker, Clashes]

/-- No clause begins with a sign. -/
theorem refuses_of_head? (hword : word.head? = some '-') : g.Refuses word := by
  cases htiming : g.parseTiming word with
  | error fault => exact ⟨fault, htiming⟩
  | ok timing =>
      obtain ⟨clause, ⟨hwritten, hwords⟩, -⟩ := reads_of_parseTiming htiming
      have hdigits : ∀ d rest : Word, d.IsMillis → word ≠ d ++ rest := by
        rintro d rest hd rfl
        rw [List.head?_append_of_ne_nil _ hd.ne_nil] at hword
        exact absurd (hd.all '-' (List.mem_of_head? hword)) (by decide)
      cases clause with
      | absent => cases hwords
      | duration n =>
          cases hwords
          exact absurd (List.append_nil _).symm (hdigits _ [] hwritten)
      | delay d separator =>
          cases hwords
          exact absurd rfl (hdigits _ _ hwritten.1)
      | both d separator n =>
          cases hwords
          exact absurd (List.append_assoc ..) (hdigits _ _ hwritten.1)

theorem Clashes.refuses (h : g.Clashes word) : g.Refuses (g.mark word) := by
  refine refuses_of_head? ?_
  rw [mark, h.1]
  rfl

/-! ### Beginnings of parts -/

/-- A word that can stand in no clause begins a part. -/
theorem Parted.begins
    (h : g.Parted resolve always inRun (front ++ word :: back) parts) (hword : g.IsOutside word) :
    ∃ before part behind rest, parts = before ++ part :: behind ∧
      before.flatMap Part.words = front ∧ part.words = word :: rest := by
  obtain ⟨inRun', index', hscans⟩ := g.exists_scans resolve always inRun 0 front
  obtain ⟨behind, hbehind, -⟩ := g.exists_parted resolve always inRun' index' (word :: back)
  obtain ⟨before, hbefore, hall, -⟩ :=
    Scans.exists_parted (hscans.outside hword) hbehind
  obtain rfl := hall.unique h
  have hwords := hbehind.flatMap_words
  cases behind with
  | nil => cases hwords
  | cons part behind =>
      cases part <;> cases hwords <;> exact ⟨before, _, behind, _, rfl, hbefore, rfl⟩

/-- The part that a marked word begins is a command, if the word means something. -/
theorem Finds.eq_command (h : g.Finds resolve inRun next part) (hv : v ≠ []) {meaning : α}
    (hresolve : resolve (Text.lower (String.ofList v)) = some meaning) {rest : List Word}
    (hwords : part.words = g.mark v :: rest) : part = .command (g.mark v) meaning rest := by
  cases part with
  | passed word =>
      obtain rfl := (List.cons.inj hwords).1
      rw [Finds, g.candidate?_mark hv] at h
      cases h
  | unknown word =>
      obtain rfl := (List.cons.inj hwords).1
      have hnone := h.2
      rw [g.named_mark hv, hresolve] at hnone
      cases hnone
  | command word meaning' clause =>
      obtain ⟨rfl, rfl⟩ := List.cons.inj hwords
      have hsome := h.2.1
      rw [g.named_mark hv, hresolve] at hsome
      rw [Option.some.inj hsome]

/-! ### Pairs -/

variable {m : Message α} {meaning meaning' : α} {before behind : List (Part α)} {clause : List Word}

/-- A command whose clause is empty is told of with no delay and no duration. -/
theorem mem_commands_of_bare
    (hm : m = g.tell 0 (before ++ .command word meaning [] :: behind)) :
    { index := before.countP Part.isCommand, word := g.named word, meaning, timing := {} } ∈
      m.commands := by
  rw [hm, tell_append, tell, Nat.zero_add]
  simp [outcome]

/-- **Marked pairs.** A text is taken apart so that a marked word with a meaning begins a command, unless
the word could stand in the clause of the command before it. Where it begins a command and a marked word
with a meaning comes next, the command has no delay and no duration and the next word begins the next
command, unless that word reads as a negative number: then it is the beginning of a clause, and an error
tells of the command in front of it. -/
theorem read?_marked_pair {g : Grammar} (hg : g.fault? = none) (hv : v ≠ []) (hw : w ≠ [])
    (hmeaning : resolve (Text.lower (String.ofList v)) = some meaning)
    (hmeaning' : resolve (Text.lower (String.ofList w)) = some meaning') {text : String}
    (hread : g.read? resolve always text = some m) :
    ∃ parts, g.Parted resolve always always (Text.words text) parts ∧ m = g.tell 0 parts ∧
      (∀ front back, Text.words text = front ++ g.mark v :: back → g.IsOutside (g.mark v) →
        ∃ before clause behind, parts = before ++ .command (g.mark v) meaning clause :: behind ∧
          before.flatMap Part.words = front) ∧
      ∀ before clause behind back, parts = before ++ .command (g.mark v) meaning clause :: behind →
        clause ++ behind.flatMap Part.words = g.mark w :: back →
          (¬ g.Clashes w →
            { index := before.countP Part.isCommand, word := Text.lower (String.ofList v), meaning,
              timing := {} } ∈ m.commands ∧
            ∃ clause' behind', behind = .command (g.mark w) meaning' clause' :: behind') ∧
          (g.Clashes w →
            clause.head? = some (g.mark w) ∧
            (∃ e ∈ m.malformed, e.index = before.countP Part.isCommand) ∧
            ∀ c ∈ m.commands, c.index ≠ before.countP Part.isCommand) := by
  have h := accepted_of_fault?_eq_none hg
  obtain ⟨parts, hparted, hm⟩ := parted_of_read? hread
  refine ⟨parts, hparted, hm, ?_, ?_⟩
  · intro front back hwords houtside
    rw [hwords] at hparted
    obtain ⟨before, part, behind, clause, rfl, hbefore, hpart⟩ := hparted.begins houtside
    obtain ⟨inRun, hfinds, -⟩ := hparted.split
    obtain rfl := hfinds.eq_command hv hmeaning hpart
    exact ⟨before, clause, behind, rfl, hbefore⟩
  · rintro before clause behind back rfl hnext
    obtain ⟨inRun, ⟨-, -, htakes⟩, hbehind⟩ := hparted.split
    constructor
    · intro hclash
      obtain rfl : clause = [] := by
        cases clause with
        | nil => rfl
        | cons first clause =>
            obtain rfl := (List.cons.inj hnext).1
            exact absurd ((h.startsLikeTiming_mark w).mp htakes.startsLikeTiming) hclash
      cases behind with
      | nil => cases hnext
      | cons part behind =>
          obtain ⟨-, hfinds, -⟩ := parted_cons.mp hbehind
          obtain ⟨clause', hpart⟩ : ∃ clause', part.words = g.mark w :: clause' := by
            cases part <;> cases hnext <;> exact ⟨_, rfl⟩
          obtain rfl := hfinds.eq_command hw hmeaning' hpart
          have hbare := mem_commands_of_bare hm
          rw [g.named_mark hv] at hbare
          exact ⟨hbare, clause', behind, rfl⟩
    · intro hclash
      have htiming := (h.startsLikeTiming_mark w).mpr hclash
      cases clause with
      | nil =>
          rw [List.nil_append] at hnext
          rw [hnext] at htakes
          cases htakes with
          | absent hnone =>
              rw [hnone _ rfl] at htiming
              cases htiming
      | cons first clause =>
          obtain rfl := (List.cons.inj hnext).1
          obtain ⟨⟨e, he, hindex, -⟩, honly⟩ :=
            told_of_spoilt hg htakes (List.mem_cons_self ..) htiming hclash.refuses hm
          exact ⟨rfl, ⟨e, he, hindex⟩, honly⟩

/-- A message with two marked words one behind the other, the second one a digit, where the marker is a
separator as well. -/
def digitText : String := "gg +Up 200 +Left +7 9 lol"

def digitMessage : Message Nat where
  commands :=
    [{ index := 0, word := "up", meaning := 0, timing := { duration := some 200 } },
      { index := 1, word := "left", meaning := 1, timing := {} },
      { index := 2, word := "7", meaning := 2, timing := { duration := some 9 } }]
  unknown := ["lol"]

def digitParts : List (Part Nat) :=
  [.passed "gg".toList, .command "+Up".toList 0 ["200".toList], .command "+Left".toList 1 [],
    .command "+7".toList 2 ["9".toList], .unknown "lol".toList]

theorem read?_marked_pair_digit :
    let resolve := fun word => ["up", "left", "7"].idxOf? word
    ({} : Grammar).fault? = none ∧ resolve "left" = some 1 ∧ resolve "7" = some 2 ∧
    ({} : Grammar).read? resolve false digitText = some digitMessage ∧
    { index := 1, word := "left", meaning := 1, timing := {} } ∈ digitMessage.commands ∧
    ∃ clause behind, [.command "+7".toList 2 ["9".toList], .unknown "lol".toList] =
      Part.command "+7".toList 2 clause :: behind := by
  intro resolve
  have hg : ({} : Grammar).fault? = none := by decide
  have hread : ({} : Grammar).read? resolve false digitText = some digitMessage := by
    decide +kernel
  have hparts : ({} : Grammar).Parted resolve false false (Text.words digitText) digitParts := by
    decide +kernel
  have hleft : resolve (Text.lower (String.ofList "Left".toList)) = some 1 := by decide
  have hseven : resolve (Text.lower (String.ofList "7".toList)) = some 2 := by decide
  obtain ⟨parts, hparted, -, -, hpairs⟩ := read?_marked_pair (v := "Left".toList) (w := "7".toList) hg
    (by decide) (by decide) hleft hseven hread
  obtain rfl := hparted.unique hparts
  obtain ⟨hapart, -⟩ := hpairs
    [.passed "gg".toList, .command "+Up".toList 0 ["200".toList]] []
    [.command "+7".toList 2 ["9".toList], .unknown "lol".toList] ["9".toList, "lol".toList] rfl rfl
  obtain ⟨hbare, hnext⟩ := hapart fun hclash => absurd hclash.1 (by decide)
  exact ⟨hg, by decide, by decide, hread, hbare, hnext⟩

/-- With the minus sign as marker, which no check refuses, a marked digit is read as a negative duration
of the command before it. -/
theorem marked_digit_misread :
    let g : Grammar := { marker := "-" }
    let resolve := fun word => ["up", "7"].idxOf? word
    g.fault? = none ∧ resolve "up" = some 0 ∧ resolve "7" = some 1 ∧
    Text.words "-up -7" = [g.mark "up".toList, g.mark "7".toList] ∧
    g.read? resolve false "-up -7" = some {
      malformed := [{ index := 0, word := "up", clause := "-7", fault := .negative }] } := by
  intro g resolve
  refine ⟨by decide, by decide, by decide, by decide, ?_⟩
  decide +kernel

end Grammar

end CrowdPad
