import CrowdPad.Command.Message
import CrowdPad.Proofs.Command.Scan
import CrowdPad.Proofs.Command.Taking

/-! The course of a scan. Some words are passed over, some are unknown, and some are commands, with the
words that their clauses take. A stretch of words is read in the same way whatever comes behind the word
next to it, and what is found in it stands in front of what is found behind it. -/

namespace CrowdPad

variable {α : Type}

/-! ### Findings -/

namespace Message

/-- What was found in two stretches of words, one behind the other. -/
def append (m n : Message α) : Message α where
  commands := m.commands ++ n.commands
  malformed := m.malformed ++ n.malformed
  unknown := m.unknown ++ n.unknown

instance : Append (Message α) := ⟨append⟩

variable (m n k : Message α)

@[simp] theorem commands_append : (m ++ n).commands = m.commands ++ n.commands := rfl

@[simp] theorem malformed_append : (m ++ n).malformed = m.malformed ++ n.malformed := rfl

@[simp] theorem unknown_append : (m ++ n).unknown = m.unknown ++ n.unknown := rfl

@[simp] theorem empty_append : {} ++ m = m := rfl

@[simp] theorem append_empty : m ++ {} = m := by
  show append m {} = m
  simp [append]

theorem append_assoc : m ++ n ++ k = m ++ (n ++ k) := by
  show append (append m n) k = append m (append n k)
  simp [append]

/-- The number of commands, those with a malformed clause included. -/
def size : Nat := m.commands.length + m.malformed.length

@[simp] theorem size_append : (m ++ n).size = m.size + n.size := by
  simp only [size, commands_append, malformed_append, List.length_append]
  omega

/-- Whether the commands that were found have numbers from here to there. -/
structure Within (first last : Nat) : Prop where
  commands : ∀ c ∈ m.commands, first ≤ c.index ∧ c.index < last
  malformed : ∀ e ∈ m.malformed, first ≤ e.index ∧ e.index < last

variable {m n}

theorem within_empty (first last : Nat) : Within ({} : Message α) first last := ⟨nofun, nofun⟩

theorem Within.append {first middle last : Nat} (hm : m.Within first middle)
    (hn : n.Within middle last) (hfirst : first ≤ middle) (hlast : middle ≤ last) :
    (m ++ n).Within first last := by
  constructor
  · intro c hc
    rcases List.mem_append.mp hc with hc | hc
    · have := hm.commands c hc
      omega
    · have := hn.commands c hc
      omega
  · intro e he
    rcases List.mem_append.mp he with he | he
    · have := hm.malformed e he
      omega
    · have := hn.malformed e he
      omega

/-- Around a command no other one has its number. -/
theorem Within.apart {first number last : Nat} (hm : m.Within first number)
    (hn : n.Within (number + 1) last) :
    (∀ c ∈ (m ++ n).commands, c.index ≠ number) ∧ ∀ e ∈ (m ++ n).malformed, e.index ≠ number := by
  constructor
  · intro c hc
    rcases List.mem_append.mp hc with hc | hc
    · exact Nat.ne_of_lt (hm.commands c hc).2
    · exact Nat.ne_of_gt (hn.commands c hc).1
  · intro e he
    rcases List.mem_append.mp he with he | he
    · exact Nat.ne_of_lt (hm.malformed e he).2
    · exact Nat.ne_of_gt (hn.malformed e he).1

end Message

namespace Grammar

variable {g : Grammar} {resolve : String → Option α} {always inRun inRun' : Bool}
  {index index' : Nat} {word candidate : Word} {words taken rest : List Word} {next : Option Word}
  {lowered : String} {meaning : α} {found : Message α}

/-- What a command comes to whose clause takes these words. -/
def outcome (g : Grammar) (index : Nat) (word : String) (meaning : α) (taken : List Word) :
    Message α :=
  if taken.isEmpty then { commands := [{ index, word, meaning, timing := {} }] }
  else
    match g.parseTiming taken.flatten with
    | .ok timing => { commands := [{ index, word, meaning, timing }] }
    | .error fault =>
      { malformed := [{ index, word, clause := String.ofList taken.flatten, fault }] }

theorem size_outcome : (g.outcome index lowered meaning taken).size = 1 := by
  unfold outcome
  split
  · rfl
  · split <;> rfl

theorem within_outcome : (g.outcome index lowered meaning taken).Within index (index + 1) := by
  unfold outcome
  split
  · constructor <;> simp
  · split <;> constructor <;> simp

/-! ### Single words -/

theorem scan_pass (hcandidate : g.candidate? inRun word = none) :
    g.scan resolve always inRun index (word :: rest) = g.scan resolve always inRun index rest := by
  rw [scan, hcandidate]

theorem scan_unknown (hcandidate : g.candidate? inRun word = some candidate)
    (hresolve : resolve (Text.lower (String.ofList candidate)) = none) :
    g.scan resolve always inRun index (word :: rest) =
      { unknown := [Text.lower (String.ofList candidate)] } ++
        g.scan resolve always always index rest := by
  rw [scan, hcandidate]
  simp only [hresolve]
  rfl

theorem scan_command (hcandidate : g.candidate? inRun word = some candidate)
    (hresolve : resolve (Text.lower (String.ofList candidate)) = some meaning)
    (htakes : g.Takes taken rest.head?) :
    g.scan resolve always inRun index (word :: (taken ++ rest)) =
      g.outcome index (Text.lower (String.ofList candidate)) meaning taken ++
        g.scan resolve always true (index + 1) rest := by
  have hclause := clause?_of_takes htakes
  unfold outcome
  split
  · rename_i hempty
    rw [if_pos hempty] at hclause
    rw [scan_without_clause hcandidate hresolve hclause, List.isEmpty_iff.mp hempty]
    rfl
  · rename_i hempty
    rw [if_neg hempty] at hclause
    rw [scan_with_clause hcandidate hresolve hclause]
    cases g.parseTiming taken.flatten <;> rfl

theorem candidate?_of_prose (hword : g.marked? word = none) : g.candidate? false word = none := by
  simp [candidate?, hword]

theorem inRun_of_candidate? (hcandidate : g.candidate? inRun word = none)
    (htiming : word.startsLikeTiming = false) : inRun = false := by
  unfold candidate? at hcandidate
  split at hcandidate
  · cases hcandidate
  · simpa [htiming] using hcandidate

theorem eq_of_candidate? (hcandidate : g.candidate? inRun word = some candidate) :
    candidate = (g.marked? word).getD word := by
  unfold candidate? at hcandidate
  split at hcandidate
  · rename_i hmarked
    rw [hmarked]
    exact (Option.some.inj hcandidate).symm
  · rename_i hmarked
    rw [hmarked]
    split at hcandidate
    · cases hcandidate
    · exact (Option.some.inj hcandidate).symm

/-! ### Stretches of words -/

/-- What a stretch of words is read as, where `next` is the word behind it: whether a run is going on
and how many commands there were before the stretch, the words, what is found in them, and whether a run
is going on and how many commands there were behind them. -/
inductive Scans (g : Grammar) (resolve : String → Option α) (always : Bool) (next : Option Word) :
    Bool → Nat → List Word → Message α → Bool → Nat → Prop where
  | done {inRun : Bool} {index : Nat} : Scans g resolve always next inRun index [] {} inRun index
  | pass {inRun inRun' : Bool} {index index' : Nat} {word : Word} {words : List Word}
      {found : Message α} (hcandidate : g.candidate? inRun word = none)
      (hrest : Scans g resolve always next inRun index words found inRun' index') :
      Scans g resolve always next inRun index (word :: words) found inRun' index'
  | unknown {inRun inRun' : Bool} {index index' : Nat} {word candidate : Word} {words : List Word}
      {found : Message α} (hcandidate : g.candidate? inRun word = some candidate)
      (hresolve : resolve (Text.lower (String.ofList candidate)) = none)
      (hrest : Scans g resolve always next always index words found inRun' index') :
      Scans g resolve always next inRun index (word :: words)
        ({ unknown := [Text.lower (String.ofList candidate)] } ++ found) inRun' index'
  | command {inRun inRun' : Bool} {index index' : Nat} {word candidate : Word}
      {taken words : List Word} {meaning : α} {found : Message α}
      (hcandidate : g.candidate? inRun word = some candidate)
      (hresolve : resolve (Text.lower (String.ofList candidate)) = some meaning)
      (htakes : g.Takes taken (words.head?.or next))
      (hrest : Scans g resolve always next true (index + 1) words found inRun' index') :
      Scans g resolve always next inRun index (word :: (taken ++ words))
        (g.outcome index (Text.lower (String.ofList candidate)) meaning taken ++ found) inRun' index'

/-- What is found in a stretch of words stands in front of what is found behind it. -/
theorem Scans.scan_append (rest : List Word)
    (h : g.Scans resolve always rest.head? inRun index words found inRun' index') :
    g.scan resolve always inRun index (words ++ rest) =
      found ++ g.scan resolve always inRun' index' rest := by
  induction h with
  | done => rfl
  | pass hcandidate hrest ih => rw [List.cons_append, scan_pass hcandidate, ih]
  | unknown hcandidate hresolve hrest ih =>
      rw [List.cons_append, scan_unknown hcandidate hresolve, ih, Message.append_assoc]
  | command hcandidate hresolve htakes hrest ih =>
      rw [← List.head?_append] at htakes
      rw [List.cons_append, List.append_assoc, scan_command hcandidate hresolve htakes, ih,
        Message.append_assoc]

/-- Words with nothing behind them are a stretch that is read to its end. -/
theorem exists_scans (g : Grammar) (resolve : String → Option α) (always inRun : Bool) (index : Nat)
    (words : List Word) :
    ∃ inRun' index', g.Scans resolve always none inRun index words
      (g.scan resolve always inRun index words) inRun' index' := by
  induction hlength : words.length using Nat.strongRecOn generalizing inRun index words with
  | _ length ih =>
      cases words with
      | nil =>
          rw [scan]
          exact ⟨inRun, index, .done⟩
      | cons word words =>
          cases hcandidate : g.candidate? inRun word with
          | none =>
              obtain ⟨inRun', index', hrest⟩ :=
                ih words.length (by simp [← hlength]) inRun index words rfl
              rw [scan_pass hcandidate]
              exact ⟨inRun', index', .pass hcandidate hrest⟩
          | some candidate =>
              cases hresolve : resolve (Text.lower (String.ofList candidate)) with
              | none =>
                  obtain ⟨inRun', index', hrest⟩ :=
                    ih words.length (by simp [← hlength]) always index words rfl
                  rw [scan_unknown hcandidate hresolve]
                  exact ⟨inRun', index', .unknown hcandidate hresolve hrest⟩
              | some meaning =>
                  obtain ⟨taken, rest, rfl, htakes⟩ := g.exists_takes words
                  have hshorter : rest.length < length := by
                    simp only [← hlength, List.length_cons, List.length_append]
                    omega
                  obtain ⟨inRun', index', hrest⟩ := ih rest.length hshorter true (index + 1) rest rfl
                  rw [scan_command hcandidate hresolve htakes]
                  rw [← Option.or_none (o := rest.head?)] at htakes
                  exact ⟨inRun', index', .command hcandidate hresolve htakes hrest⟩

/-- To the words before it, a word that can stand in no clause is as if nothing came behind them. -/
theorem Scans.outside (hword : g.IsOutside word)
    (h : g.Scans resolve always none inRun index words found inRun' index') :
    g.Scans resolve always (some word) inRun index words found inRun' index' := by
  induction h with
  | done => exact .done
  | pass hcandidate hrest ih => exact .pass hcandidate ih
  | unknown hcandidate hresolve hrest ih => exact .unknown hcandidate hresolve ih
  | command hcandidate hresolve htakes hrest ih =>
      refine .command hcandidate hresolve ?_ ih
      rename_i words _ _
      cases words with
      | nil => exact htakes.outside hword
      | cons first words => exact htakes

/-- Without a marked word no run begins in a chat message. -/
theorem Scans.inRun_of_prose (h : g.Scans resolve false next inRun index words found inRun' index')
    (hrun : inRun = false) (hwords : ∀ word ∈ words, g.marked? word = none) : inRun' = false := by
  induction h with
  | done => exact hrun
  | pass hcandidate hrest ih =>
      exact ih hrun fun other hother => hwords other (List.mem_cons_of_mem _ hother)
  | unknown hcandidate hresolve hrest ih =>
      exact ih rfl fun other hother => hwords other (List.mem_cons_of_mem _ hother)
  | command hcandidate hresolve htakes hrest ih =>
      rw [hrun, candidate?_of_prose (hwords _ (List.mem_cons_self ..))] at hcandidate
      cases hcandidate

/-! ### Numbers of commands -/

/-- Commands are counted one by one. -/
theorem Scans.index_eq (h : g.Scans resolve always next inRun index words found inRun' index') :
    index' = index + found.size := by
  induction h with
  | done => rfl
  | pass hcandidate hrest ih => exact ih
  | unknown hcandidate hresolve hrest ih =>
      rw [ih, Message.size_append]
      simp [Message.size]
  | command hcandidate hresolve htakes hrest ih =>
      rw [ih, Message.size_append, size_outcome]
      omega

theorem Scans.within (h : g.Scans resolve always next inRun index words found inRun' index') :
    found.Within index index' := by
  induction h with
  | done => exact Message.within_empty ..
  | pass hcandidate hrest ih => exact ih
  | unknown hcandidate hresolve hrest ih => exact ⟨ih.commands, ih.malformed⟩
  | command hcandidate hresolve htakes hrest ih =>
      have hindex := hrest.index_eq
      exact within_outcome.append ih (Nat.le_succ _) (by omega)

/-- The commands of a scan have numbers from the one that it begins with. -/
theorem exists_within (g : Grammar) (resolve : String → Option α) (always inRun : Bool) (index : Nat)
    (words : List Word) :
    ∃ last, (g.scan resolve always inRun index words).Within index last := by
  obtain ⟨inRun', last, hscans⟩ := g.exists_scans resolve always inRun index words
  exact ⟨last, hscans.within⟩

/-! ### A command among other words -/

/-- The command that is met at `word` once the words `front` are read: its number, its word in lower
case and what that means. No clause in `front` takes `word` in. -/
def Meets (g : Grammar) (resolve : String → Option α) (always inRun : Bool) (index : Nat)
    (front : List Word) (word : Word) (number : Nat) (lowered : String) (meaning : α) : Prop :=
  ∃ found inRun' candidate, g.Scans resolve always (some word) inRun index front found inRun' number ∧
    g.candidate? inRun' word = some candidate ∧ Text.lower (String.ofList candidate) = lowered ∧
    resolve lowered = some meaning

variable {front back : List Word} {number : Nat}

/-- What is found before a command and behind it does not depend on its clause. -/
theorem Meets.exists_scan
    (h : g.Meets resolve always inRun index front word number lowered meaning) :
    ∃ before : Message α, before.Within index number ∧
      ∀ taken back, g.Takes taken back.head? →
        g.scan resolve always inRun index (front ++ word :: (taken ++ back)) =
          before ++ (g.outcome number lowered meaning taken ++
            g.scan resolve always true (number + 1) back) := by
  obtain ⟨before, inRun', candidate, hfront, hcandidate, rfl, hresolve⟩ := h
  refine ⟨before, hfront.within, fun taken back htakes => ?_⟩
  rw [hfront.scan_append (word :: (taken ++ back)), scan_command hcandidate hresolve htakes]

/-- In a chat message a command stands in a run, which a marked word has begun. -/
theorem Meets.exists_marked
    (h : g.Meets resolve false false index front word number lowered meaning) :
    ∃ marked ∈ front ++ [word], (g.marked? marked).isSome := by
  obtain ⟨found, inRun, candidate, hfront, hcandidate, -, -⟩ := h
  by_contra hprose
  have hunmarked : ∀ other ∈ front ++ [word], g.marked? other = none := by
    intro other hother
    rw [← Option.not_isSome_iff_eq_none]
    exact fun hmarked => hprose ⟨other, hother, hmarked⟩
  have hrun := hfront.inRun_of_prose rfl fun other hother =>
    hunmarked other (List.mem_append_left _ hother)
  have hword := hunmarked word (by simp)
  rw [hrun, candidate?_of_prose hword] at hcandidate
  cases hcandidate

/-- The second command of a message, behind prose and a command with a duration. -/
theorem meets_left : ({} : Grammar).Meets (fun word => ["up", "left"].idxOf? word) false false 0
    ["gg".toList, "+Up".toList, "500".toList] "left".toList 1 "left" 1 := by
  have htakes : ({} : Grammar).Takes ["500".toList] (some "left".toList) :=
    .number (by decide) (by decide) (by decide) (by decide)
  have hfront := @Scans.command _ {} (fun word => ["up", "left"].idxOf? word) false
    (some "left".toList) false true 0 1 "+Up".toList "Up".toList ["500".toList] [] 0 {} (by decide)
    (by decide) htakes .done
  exact ⟨_, true, "left".toList, .pass (by decide) hfront, by decide, by decide, by decide⟩

/-! ### Texts -/

/-- What is found in a text that is one run or, otherwise, a chat message. -/
def read? (g : Grammar) (resolve : String → Option α) (always : Bool) (text : String) :
    Option (Message α) :=
  if always then some (g.parseBody resolve text) else g.parse? resolve text

theorem scan_of_read? {text : String} {m : Message α} (h : g.read? resolve always text = some m) :
    m = g.scan resolve always always 0 (Text.words text) := by
  cases always with
  | true => exact (Option.some.inj h).symm
  | false =>
      change g.parse? resolve text = some m at h
      unfold parse? at h
      split at h
      · exact (Option.some.inj h).symm
      · cases h

/-- A text with a command in it is read word by word. -/
theorem Meets.read? {text : String}
    (h : g.Meets resolve always always 0 front word number lowered meaning)
    (htext : Text.words text = front ++ word :: rest) :
    g.read? resolve always text = some (g.scan resolve always always 0 (Text.words text)) := by
  cases always with
  | true => rfl
  | false =>
      obtain ⟨marked, hmem, hmarked⟩ := h.exists_marked
      have hcommand : g.isCommand text := by
        rw [isCommand, htext, List.any_eq_true]
        refine ⟨marked, ?_, hmarked⟩
        rw [List.append_cons]
        exact List.mem_append_left rest hmem
      show g.parse? resolve text = _
      rw [parse?, if_pos hcommand]

end Grammar

end CrowdPad
