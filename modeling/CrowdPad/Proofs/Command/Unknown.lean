import CrowdPad.Proofs.Command.Course

/-! Words that mean nothing. Such a word ends the run in a chat message, so that what is behind it is
read as a message of its own, and a message begins with its first marked word. -/

namespace CrowdPad

variable {α : Type}

/-- The message with `count` added to the numbers of its commands. -/
def Message.shift (count : Nat) (m : Message α) : Message α where
  commands := m.commands.map fun c => { c with index := c.index + count }
  malformed := m.malformed.map fun e => { e with index := e.index + count }
  unknown := m.unknown

theorem Message.shift_append (count : Nat) (m n : Message α) :
    (m ++ n).shift count = m.shift count ++ n.shift count := by
  show Message.mk _ _ _ = Message.mk _ _ _
  simp [shift]

namespace Grammar

variable {g : Grammar} {resolve : String → Option α} {always inRun inRun' : Bool}
  {index index' : Nat} {word : Word} {words taken : List Word} {next : Option Word}
  {lowered : String} {meaning : α} {found : Message α}

/-! ### Numbers -/

theorem outcome_shift (count : Nat) :
    g.outcome (index + count) lowered meaning taken =
      (g.outcome index lowered meaning taken).shift count := by
  unfold outcome
  split
  · rfl
  · split <;> rfl

theorem Scans.shift (h : g.Scans resolve always next inRun index words found inRun' index')
    (count : Nat) :
    g.Scans resolve always next inRun (index + count) words (found.shift count) inRun'
      (index' + count) := by
  induction h with
  | done => exact .done
  | pass hcandidate hrest ih => exact .pass hcandidate ih
  | unknown hcandidate hresolve hrest ih =>
      rw [Message.shift_append]
      exact .unknown hcandidate hresolve ih
  | command hcandidate hresolve htakes hrest ih =>
      rw [Message.shift_append, ← outcome_shift]
      rw [Nat.add_right_comm] at ih
      exact .command hcandidate hresolve htakes ih

/-- The number that a scan begins with is added to those of the commands. -/
theorem scan_shift (g : Grammar) (resolve : String → Option α) (always inRun : Bool)
    (index count : Nat) (words : List Word) :
    g.scan resolve always inRun (index + count) words =
      (g.scan resolve always inRun index words).shift count := by
  obtain ⟨inRun', index', hscans⟩ := g.exists_scans resolve always inRun index words
  have hscan := (hscans.shift count).scan_append []
  rw [List.append_nil, scan, Message.append_empty] at hscan
  exact hscan

/-! ### The end of a run -/

/-- Behind a word that means nothing and is no timing no run goes on. -/
theorem scan_behind_unknown (hword : g.IsOutside word)
    (hresolve : resolve (Text.lower (String.ofList ((g.marked? word).getD word))) = none)
    (inRun : Bool) (index : Nat) (rest : List Word) :
    g.scan resolve false inRun index (word :: rest) =
      g.scan resolve false inRun index [word] ++ g.scan resolve false false index rest := by
  cases hcandidate : g.candidate? inRun word with
  | none =>
      obtain rfl := inRun_of_candidate? hcandidate hword.timing
      rw [scan_pass hcandidate, scan_pass hcandidate, scan, Message.empty_append]
  | some candidate =>
      rw [← eq_of_candidate? hcandidate] at hresolve
      rw [scan_unknown hcandidate hresolve, scan_unknown hcandidate hresolve, scan,
        Message.append_empty]

/-- Prose before the first marked word is passed over. -/
theorem scan_dropWhile (g : Grammar) (resolve : String → Option α) (index : Nat)
    (words : List Word) :
    g.scan resolve false false index (words.dropWhile fun word => (g.marked? word).isNone) =
      g.scan resolve false false index words := by
  induction words with
  | nil => rfl
  | cons word words ih =>
      cases hmarked : g.marked? word with
      | some rest => rw [List.dropWhile_cons_of_neg (by simp [hmarked])]
      | none =>
          rw [List.dropWhile_cons_of_pos (by simp [hmarked]), ih,
            scan_pass (candidate?_of_prose hmarked)]

theorem any_marked_dropWhile (g : Grammar) (words : List Word) :
    ((words.dropWhile fun word => (g.marked? word).isNone).any fun word =>
      (g.marked? word).isSome) = words.any fun word => (g.marked? word).isSome := by
  induction words with
  | nil => rfl
  | cons word words ih =>
      cases hmarked : g.marked? word with
      | some rest => rw [List.dropWhile_cons_of_neg (by simp [hmarked])]
      | none =>
          rw [List.dropWhile_cons_of_pos (by simp [hmarked]), ih]
          simp [hmarked]

/-- A word that means nothing and can stand in no clause splits a chat message: what is found in front of
it and in it does not depend on what is behind, and that is read as a message of its own, but for the
numbers of its commands. And a message without the words before its first marked word reads the same,
whatever those words mean. -/
theorem scan_split (g : Grammar) (resolve : String → Option α) :
    (∀ word, g.IsOutside word →
      resolve (Text.lower (String.ofList ((g.marked? word).getD word))) = none →
        ∀ front back : List Word,
          g.scan resolve false false 0 (front ++ word :: back) =
            g.scan resolve false false 0 (front ++ [word]) ++
              (g.scan resolve false false 0 back).shift (g.scan resolve false false 0 front).size) ∧
    ∀ text text' : String,
      Text.words text' = (Text.words text).dropWhile (fun word => (g.marked? word).isNone) →
        g.parse? resolve text' = g.parse? resolve text := by
  constructor
  · intro word hword hresolve front back
    obtain ⟨inRun, index, hfront⟩ := g.exists_scans resolve false false 0 front
    have hcount := hfront.index_eq
    rw [Nat.zero_add] at hcount
    have hscan := hfront.outside hword
    calc g.scan resolve false false 0 (front ++ word :: back)
        = g.scan resolve false false 0 front ++ g.scan resolve false inRun index (word :: back) :=
          hscan.scan_append (word :: back)
      _ = g.scan resolve false false 0 front ++ (g.scan resolve false inRun index [word] ++
            g.scan resolve false false index back) := by
          rw [scan_behind_unknown hword hresolve]
      _ = g.scan resolve false false 0 (front ++ [word]) ++
            g.scan resolve false false index back := by
          rw [hscan.scan_append [word], Message.append_assoc]
      _ = g.scan resolve false false 0 (front ++ [word]) ++
            (g.scan resolve false false 0 back).shift (g.scan resolve false false 0 front).size := by
          rw [← hcount, ← scan_shift, Nat.zero_add]
  · intro text text' hwords
    rw [parse?, parse?, isCommand, isCommand, hwords, scan_dropWhile, any_marked_dropWhile]

theorem scan_split_lol :
    let g : Grammar := {}
    let resolve := fun word => ["up", "left"].idxOf? word
    let read := fun text => g.scan resolve false false 0 (Text.words text)
    read "gg +Up 5+ Lol left 7 +left 7x up" =
      read "gg +Up 5+ Lol" ++ (read "left 7 +left 7x up").shift 1 ∧
    g.parse? resolve "+Up 5+ Lol" = g.parse? resolve "left up +Up 5+ Lol" := by
  obtain ⟨hsplit, hdrop⟩ := scan_split {} fun word => ["up", "left"].idxOf? word
  have hread := hsplit "Lol".toList ⟨by decide, by decide, by decide⟩ (by decide)
    ["gg".toList, "+Up".toList, "5+".toList]
    ["left".toList, "7".toList, "+left".toList, "7x".toList, "up".toList]
  have hsize : (({} : Grammar).scan (fun word => ["up", "left"].idxOf? word) false false 0
      ["gg".toList, "+Up".toList, "5+".toList]).size = 1 := by
    decide +kernel
  rw [hsize] at hread
  exact ⟨hread, hdrop _ _ (by decide)⟩

end Grammar

end CrowdPad
