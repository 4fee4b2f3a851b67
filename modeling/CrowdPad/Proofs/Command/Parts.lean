import CrowdPad.Proofs.Command.Course

/-! The parts of a text. A scan takes a text apart into words that it passes over, words that mean
nothing, and commands, each with the words of its clause. Every word is in one part, and there is one
way only to take the text apart. The message has an entry for every command and for nothing else, and
the entries are numbered in the order of the commands. -/

namespace CrowdPad

variable {α : Type}

/-! ### Parts -/

/-- What a scan takes the words at the head of a text for. -/
inductive Part (α : Type) where
  /-- A word outside of runs, or left-over timing. -/
  | passed (word : Word)
  /-- A word that could name a command and means nothing. -/
  | unknown (word : Word)
  /-- The word of a command, what it means, and the words of its clause. -/
  | command (word : Word) (meaning : α) (clause : List Word)
deriving Repr, DecidableEq

namespace Part

def words : Part α → List Word
  | passed word => [word]
  | unknown word => [word]
  | command word _ clause => word :: clause

def isCommand : Part α → Bool
  | passed _ => false
  | unknown _ => false
  | command _ _ _ => true

/-- Whether a run is going on behind a part, where `inRun` says so for the words before it. -/
def runsBehind (always inRun : Bool) : Part α → Bool
  | passed _ => inRun
  | unknown _ => always
  | command _ _ _ => true

theorem words_ne_nil (part : Part α) : part.words ≠ [] := by
  cases part <;> exact List.cons_ne_nil _ _

end Part

/-! ### Numbers -/

namespace Message

/-- Whether each of these numbers is the number of one entry, and no entry has another number. The
numbers are given in the order of the text. -/
structure Numbered (m : Message α) (numbers : List Nat) : Prop where
  commands : (m.commands.map Command.index).Sublist numbers
  malformed : (m.malformed.map Malformed.index).Sublist numbers
  all : (m.commands.map Command.index ++ m.malformed.map Malformed.index).Perm numbers

variable {m n : Message α} {numbers numbers' : List Nat}

theorem Numbered.append (hm : m.Numbered numbers) (hn : n.Numbered numbers') :
    (m ++ n).Numbered (numbers ++ numbers') := by
  constructor
  · rw [commands_append, List.map_append]
    exact hm.commands.append hn.commands
  · rw [malformed_append, List.map_append]
    exact hm.malformed.append hn.malformed
  · have hsorted := (List.perm_append_comm_assoc (n.commands.map Command.index)
      (m.malformed.map Malformed.index) (n.malformed.map Malformed.index)).append_left
        (m.commands.map Command.index)
    have hall := hm.all.append hn.all
    rw [List.append_assoc] at hall
    rw [commands_append, malformed_append, List.map_append, List.map_append, List.append_assoc]
    exact hsorted.trans hall

/-- No command and no error have one number. -/
theorem Numbered.apart (h : m.Numbered numbers) (hnumbers : numbers.Nodup) {c : Command α}
    (hc : c ∈ m.commands) {e : Malformed} (he : e ∈ m.malformed) : c.index ≠ e.index := by
  have hnodup := h.all.nodup_iff.mpr hnumbers
  exact (List.nodup_append.mp hnodup).2.2 _ (List.mem_map_of_mem hc) _ (List.mem_map_of_mem he)

end Message

namespace Grammar

variable {g : Grammar} {resolve : String → Option α} {always inRun inRun' : Bool}
  {index index' : Nat} {words words' taken taken' rest rest' : List Word} {next : Option Word}
  {lowered : String} {meaning : α} {found : Message α} {part part' : Part α}
  {parts parts' before behind : List (Part α)}

theorem numbered_outcome : (g.outcome index lowered meaning taken).Numbered [index] := by
  have hcommand : ∀ c : Command α, c.index = index →
      Message.Numbered { commands := [c] } [index] := by
    rintro c rfl
    exact ⟨List.Sublist.refl _, List.nil_sublist _, List.Perm.refl _⟩
  have hmalformed : ∀ e : Malformed, e.index = index →
      Message.Numbered ({ malformed := [e] } : Message α) [index] := by
    rintro e rfl
    exact ⟨List.nil_sublist _, List.Sublist.refl _, List.Perm.refl _⟩
  unfold outcome
  split
  · exact hcommand _ rfl
  · split
    · exact hcommand _ rfl
    · exact hmalformed _ rfl

/-! ### Taking a text apart -/

/-- What a word is looked up as: without its marker, in lower case. -/
def named (g : Grammar) (word : Word) : String :=
  Text.lower (String.ofList ((g.marked? word).getD word))

/-- Whether a scan takes the words of this part for what it says, where `next` is the word behind
them. -/
def Finds (g : Grammar) (resolve : String → Option α) (inRun : Bool) (next : Option Word) :
    Part α → Prop
  | .passed word => g.candidate? inRun word = none
  | .unknown word => (g.candidate? inRun word).isSome ∧ resolve (g.named word) = none
  | .command word meaning clause =>
    (g.candidate? inRun word).isSome ∧ resolve (g.named word) = some meaning ∧ g.Takes clause next

/-- Whether a scan takes these words apart into these parts. -/
inductive Parted (g : Grammar) (resolve : String → Option α) (always : Bool) :
    Bool → List Word → List (Part α) → Prop where
  | done {inRun : Bool} : Parted g resolve always inRun [] []
  | part {inRun : Bool} (part : Part α) {words : List Word} {parts : List (Part α)}
      (hfinds : g.Finds resolve inRun words.head? part)
      (hrest : Parted g resolve always (part.runsBehind always inRun) words parts) :
      Parted g resolve always inRun (part.words ++ words) (part :: parts)

/-- What these parts come to, where `index` is the number of their first command. -/
def tell (g : Grammar) (index : Nat) : List (Part α) → Message α
  | [] => {}
  | .passed _ :: parts => tell g index parts
  | .unknown word :: parts => { unknown := [g.named word] } ++ tell g index parts
  | .command word meaning clause :: parts =>
    g.outcome index (g.named word) meaning clause ++ tell g (index + 1) parts

theorem Parted.flatMap_words (h : g.Parted resolve always inRun words parts) :
    parts.flatMap Part.words = words := by
  induction h with
  | done => rfl
  | part part hfinds hrest ih => rw [List.flatMap_cons, ih]

/-- No part is empty, so that a scan makes no more rounds than there are words. -/
theorem Parted.length_le (h : g.Parted resolve always inRun words parts) :
    parts.length ≤ words.length := by
  induction h with
  | done => exact Nat.le_refl _
  | part part hfinds hrest ih =>
      have hpart := List.length_pos_iff.mpr part.words_ne_nil
      rw [List.length_cons, List.length_append]
      omega

/-- What is found for a part among others depends on the word behind it. -/
theorem Parted.split (h : g.Parted resolve always inRun words (before ++ part :: behind)) :
    ∃ inRun', g.Finds resolve inRun' (behind.flatMap Part.words).head? part ∧
      g.Parted resolve always (part.runsBehind always inRun') (behind.flatMap Part.words) behind := by
  induction before generalizing inRun words with
  | nil =>
      cases h with
      | part part hfinds hrest =>
          rw [hrest.flatMap_words]
          exact ⟨inRun, hfinds, hrest⟩
  | cons first before ih =>
      cases h with
      | part first hfinds hrest => exact ih hrest

/-! ### One way only -/

theorem eq_of_clause? (hwords : taken ++ rest = taken' ++ rest')
    (hclause : (if taken.isEmpty then none else some (taken.flatten, rest)) =
      if taken'.isEmpty then none else some (taken'.flatten, rest')) : taken = taken' := by
  cases taken with
  | nil =>
      cases taken' with
      | nil => rfl
      | cons first' taken' => cases hclause
  | cons first taken =>
      cases taken' with
      | nil => cases hclause
      | cons first' taken' =>
          obtain ⟨-, rfl⟩ := Prod.mk.inj (Option.some.inj hclause)
          exact List.append_cancel_right hwords

theorem Takes.unique (h : g.Takes taken rest.head?) (h' : g.Takes taken' rest'.head?)
    (hwords : taken ++ rest = taken' ++ rest') : taken = taken' := by
  refine eq_of_clause? hwords ?_
  rw [← clause?_of_takes h, ← clause?_of_takes h', hwords]

theorem Finds.unique (h : g.Finds resolve inRun rest.head? part)
    (h' : g.Finds resolve inRun rest'.head? part')
    (hwords : part.words ++ rest = part'.words ++ rest') : part = part' := by
  cases part <;> cases part' <;> obtain ⟨rfl, hbehind⟩ := List.cons.inj hwords
  case command.command word meaning clause meaning' clause' =>
    obtain ⟨-, hmeaning, htakes⟩ := h
    obtain ⟨-, hmeaning', htakes'⟩ := h'
    obtain rfl := Option.some.inj (hmeaning.symm.trans hmeaning')
    rw [htakes.unique htakes' hbehind]
  -- Of two parts of other sorts one has failed the test that the other has passed.
  all_goals simp_all [Finds]

theorem Parted.unique (h : g.Parted resolve always inRun words parts)
    (h' : g.Parted resolve always inRun words parts') : parts' = parts := by
  induction h generalizing parts' with
  | done =>
      cases parts' with
      | nil => rfl
      | cons part parts' =>
          have hnil := h'.flatMap_words
          rw [List.flatMap_cons, List.append_eq_nil_iff] at hnil
          exact absurd hnil.1 part.words_ne_nil
  | @part _ part words parts hfinds hrest ih =>
      generalize hall : part.words ++ words = all at h'
      cases h' with
      | done => exact absurd (List.append_eq_nil_iff.mp hall).1 part.words_ne_nil
      | part part' hfinds' hrest' =>
          obtain rfl := hfinds.unique hfinds' hall
          obtain rfl := List.append_cancel_left hall
          rw [ih hrest']

/-! ### Looking at given parts -/

theorem takes_iff : g.Takes taken rest.head? ↔
    g.clause? (taken ++ rest) = if taken.isEmpty then none else some (taken.flatten, rest) := by
  constructor
  · exact clause?_of_takes
  · intro hclause
    obtain ⟨taken', rest', hwords, htakes⟩ := g.exists_takes (taken ++ rest)
    have hclause' := clause?_of_takes htakes
    rw [← hwords, hclause] at hclause'
    obtain rfl := eq_of_clause? hwords hclause'
    obtain rfl := List.append_cancel_left hwords
    exact htakes

instance instDecidableTakes : Decidable (g.Takes taken next) :=
  decidable_of_iff (g.clause? (taken ++ next.toList) =
      if taken.isEmpty then none else some (taken.flatten, next.toList)) <| by
    rw [← takes_iff]
    cases next <;> rfl

instance instDecidableFinds [DecidableEq α] : Decidable (g.Finds resolve inRun next part) :=
  match part with
  | .passed word => inferInstanceAs (Decidable (g.candidate? inRun word = none))
  | .unknown word =>
    inferInstanceAs (Decidable ((g.candidate? inRun word).isSome ∧ resolve (g.named word) = none))
  | .command word meaning clause =>
    inferInstanceAs (Decidable ((g.candidate? inRun word).isSome ∧
      resolve (g.named word) = some meaning ∧ g.Takes clause next))

theorem parted_nil : g.Parted resolve always inRun words [] ↔ words = [] := by
  constructor
  · exact fun h => h.flatMap_words.symm
  · rintro rfl
    exact .done

theorem parted_cons : g.Parted resolve always inRun words (part :: parts) ↔
    words = part.words ++ parts.flatMap Part.words ∧
      g.Finds resolve inRun (parts.flatMap Part.words).head? part ∧
      g.Parted resolve always (part.runsBehind always inRun) (parts.flatMap Part.words) parts := by
  constructor
  · intro h
    cases h with
    | part part hfinds hrest =>
        rw [hrest.flatMap_words]
        exact ⟨rfl, hfinds, hrest⟩
  · rintro ⟨rfl, hfinds, hrest⟩
    exact .part part hfinds hrest

instance instDecidableParted [DecidableEq α] (g : Grammar) (resolve : String → Option α)
    (always inRun : Bool) (words : List Word) (parts : List (Part α)) :
    Decidable (g.Parted resolve always inRun words parts) :=
  match parts with
  | [] => decidable_of_iff _ parted_nil.symm
  | part :: parts =>
    have := instDecidableParted g resolve always (part.runsBehind always inRun)
      (parts.flatMap Part.words) parts
    decidable_of_iff _ parted_cons.symm

/-! ### What is told -/

/-- A stretch of words is taken apart by itself, whatever is made of the words behind it. -/
theorem Scans.exists_parted
    (h : g.Scans resolve always rest.head? inRun index words found inRun' index')
    (hrest : g.Parted resolve always inRun' rest parts) :
    ∃ front, front.flatMap Part.words = words ∧
      g.Parted resolve always inRun (words ++ rest) (front ++ parts) ∧ found = g.tell index front := by
  induction h with
  | done => exact ⟨[], rfl, hrest, rfl⟩
  | pass hcandidate _ ih =>
      obtain ⟨front, rfl, hparted, rfl⟩ := ih hrest
      exact ⟨.passed _ :: front, rfl, .part (.passed _) hcandidate hparted, rfl⟩
  | unknown hcandidate hresolve _ ih =>
      obtain ⟨front, rfl, hparted, rfl⟩ := ih hrest
      obtain rfl := eq_of_candidate? hcandidate
      have hsome := Option.isSome_of_eq_some hcandidate
      exact ⟨.unknown _ :: front, rfl, .part (.unknown _) ⟨hsome, hresolve⟩ hparted, rfl⟩
  | @command _ _ _ _ word _ taken _ meaning _ hcandidate hresolve htakes _ ih =>
      obtain ⟨front, rfl, hparted, rfl⟩ := ih hrest
      obtain rfl := eq_of_candidate? hcandidate
      have hsome := Option.isSome_of_eq_some hcandidate
      rw [← List.head?_append] at htakes
      have hall := Parted.part (.command word meaning taken) ⟨hsome, hresolve, htakes⟩ hparted
      refine ⟨.command word meaning taken :: front, rfl, ?_, rfl⟩
      rwa [Part.words, List.cons_append, ← List.append_assoc] at hall

theorem exists_parted (g : Grammar) (resolve : String → Option α) (always inRun : Bool) (index : Nat)
    (words : List Word) :
    ∃ parts, g.Parted resolve always inRun words parts ∧
      g.scan resolve always inRun index words = g.tell index parts := by
  obtain ⟨inRun', index', hscans⟩ := g.exists_scans resolve always inRun index words
  have hdone : g.Parted resolve always inRun' [] [] := .done
  obtain ⟨parts, -, hparted, htell⟩ := Scans.exists_parted hscans hdone
  rw [List.append_nil, List.append_nil] at hparted
  exact ⟨parts, hparted, htell⟩

theorem numbered_tell (g : Grammar) (index : Nat) (parts : List (Part α)) :
    (g.tell index parts).Numbered (List.range' index (parts.countP Part.isCommand)) := by
  induction parts generalizing index with
  | nil => exact ⟨List.Sublist.refl _, List.Sublist.refl _, List.Perm.refl _⟩
  | cons part parts ih =>
      cases part with
      | passed word => exact ih index
      | unknown word =>
          have hrest := ih index
          exact ⟨hrest.commands, hrest.malformed, hrest.all⟩
      | command word meaning clause =>
          rw [List.countP_cons_of_pos rfl, List.range'_succ]
          exact numbered_outcome.append (ih (index + 1))

theorem tell_append (g : Grammar) (index : Nat) (before behind : List (Part α)) :
    g.tell index (before ++ behind) =
      g.tell index before ++ g.tell (index + before.countP Part.isCommand) behind := by
  induction before generalizing index with
  | nil => rfl
  | cons part before ih =>
      cases part with
      | passed word => exact ih index
      | unknown word =>
          rw [List.cons_append, tell, ih, List.countP_cons_of_neg Bool.false_ne_true, tell,
            Message.append_assoc]
      | command word meaning clause =>
          rw [List.cons_append, tell, ih, List.countP_cons_of_pos rfl, tell, Message.append_assoc,
            Nat.add_right_comm, Nat.add_assoc]

/-- A text that is read was taken apart, and the message tells of its parts. -/
theorem parted_of_read? {text : String} {m : Message α}
    (hread : g.read? resolve always text = some m) :
    ∃ parts, g.Parted resolve always always (Text.words text) parts ∧ m = g.tell 0 parts := by
  rw [scan_of_read? hread]
  exact g.exists_parted resolve always always 0 (Text.words text)

/-- Every command is reported once. The text is taken apart in one way, in at most as many parts as it
has words, and every word is in one part: it is passed over, it means nothing, or it is the word of a
command or a word of its clause. The message tells of these parts, the numbers of its commands and of
its errors are those from zero up to the number of commands in the text, each once, and both lists
are in the order of their numbers. -/
theorem read?_numbered {g : Grammar} {text : String} {m : Message α}
    (hread : g.read? resolve always text = some m) :
    ∃ parts, g.Parted resolve always always (Text.words text) parts ∧
      (∀ parts', g.Parted resolve always always (Text.words text) parts' → parts' = parts) ∧
      parts.length ≤ (Text.words text).length ∧
      parts.flatMap Part.words = Text.words text ∧
      m = g.tell 0 parts ∧
      (m.commands.map Command.index ++ m.malformed.map Malformed.index).Perm
        (List.range (parts.countP Part.isCommand)) ∧
      (m.commands.map Command.index).Pairwise (· < ·) ∧
      (m.malformed.map Malformed.index).Pairwise (· < ·) := by
  obtain ⟨parts, hparted, rfl⟩ := parted_of_read? hread
  have hnumbered := g.numbered_tell 0 parts
  rw [← List.range_eq_range'] at hnumbered
  refine ⟨parts, hparted, fun _ => hparted.unique, hparted.length_le, hparted.flatMap_words, rfl,
    hnumbered.all, ?_, ?_⟩
  · exact List.pairwise_lt_range.sublist hnumbered.commands
  · exact List.pairwise_lt_range.sublist hnumbered.malformed

/-- A message with prose, a number that is left over, a word that means nothing and ends the run, a
clause of three words and a malformed clause. -/
def mixedText : String := "gg +Up 500 7 dance left +left 200 -> 30 up 5++3"

def mixedParts : List (Part Nat) :=
  [.passed "gg".toList, .command "+Up".toList 0 ["500".toList], .passed "7".toList,
    .unknown "dance".toList, .passed "left".toList,
    .command "+left".toList 1 ["200".toList, "->".toList, "30".toList],
    .command "up".toList 0 ["5++3".toList]]

theorem read?_numbered_mixed :
    let resolve := fun word => ["up", "left"].idxOf? word
    ({} : Grammar).read? resolve false mixedText = some (({} : Grammar).tell 0 mixedParts) ∧
    (∀ parts, ({} : Grammar).Parted resolve false false (Text.words mixedText) parts →
      parts = mixedParts) ∧
    ((({} : Grammar).tell 0 mixedParts).commands.map Command.index ++
      (({} : Grammar).tell 0 mixedParts).malformed.map Malformed.index).Perm (List.range 3) := by
  intro resolve
  have hread : ({} : Grammar).read? resolve false mixedText =
      some (({} : Grammar).tell 0 mixedParts) := by
    decide +kernel
  have hmixed : ({} : Grammar).Parted resolve false false (Text.words mixedText) mixedParts := by
    decide +kernel
  obtain ⟨parts, -, hunique, -, -, -, hnumbers, -, -⟩ := read?_numbered hread
  obtain rfl := hunique mixedParts hmixed
  exact ⟨hread, hunique, hnumbers⟩

end Grammar

end CrowdPad
