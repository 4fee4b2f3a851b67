import CrowdPad.Proofs.Data.Json.Scalar
import CrowdPad.Proofs.Data.Utf8
import Mathlib.Data.List.DropRight

/-! Values as JSON text and back. The texts that printers make of a value differ in white space alone,
and every one of them is read as the value. -/

namespace CrowdPad.Json

/-! ### Layouts -/

/-- White space between the parts of a value. -/
def Gap (cs : List Char) : Prop := ∀ c ∈ cs, isJsonBlank (some c)

mutual

/-- The texts in which a printer may lay a value out: white space may stand in front of items, fields
and closing brackets, and behind colons. -/
inductive Renders : Value → List Char → Prop where
  | null : Renders .null ['n', 'u', 'l', 'l']
  | yes : Renders (.bool true) ['t', 'r', 'u', 'e']
  | no : Renders (.bool false) ['f', 'a', 'l', 's', 'e']
  | int (n : Int) : Renders (.int n) (intChars n)
  | text (s : String) : Renders (.text s) (quoteChars s)
  | noItems : Renders (.list []) ['[', ']']
  | items {items : List Value} {cs gap : List Char} (h : RendersItems items cs) (hgap : Gap gap) :
      Renders (.list items) ('[' :: (cs ++ (gap ++ [']'])))
  | noFields : Renders (.record []) ['\x7b', '\x7d']
  | fields {fields : List (String × Value)} {cs gap : List Char} (h : RendersFields fields cs)
      (hgap : Gap gap) : Renders (.record fields) ('\x7b' :: (cs ++ (gap ++ ['\x7d'])))

/-- The layouts of the items of a list. -/
inductive RendersItems : List Value → List Char → Prop where
  | last {v : Value} {gap cs : List Char} (hgap : Gap gap) (h : Renders v cs) :
      RendersItems [v] (gap ++ cs)
  | cons {v : Value} {gap cs : List Char} {items : List Value} {more : List Char} (hgap : Gap gap)
      (h : Renders v cs) (hmore : RendersItems items more) :
      RendersItems (v :: items) (gap ++ (cs ++ ',' :: more))

/-- The layouts of the fields of a record. -/
inductive RendersFields : List (String × Value) → List Char → Prop where
  | last {name : String} {v : Value} {before behind cs : List Char} (hbefore : Gap before)
      (hbehind : Gap behind) (h : Renders v cs) :
      RendersFields [(name, v)] (before ++ (quoteChars name ++ ':' :: (behind ++ cs)))
  | cons {name : String} {v : Value} {before behind cs : List Char}
      {fields : List (String × Value)} {more : List Char} (hbefore : Gap before)
      (hbehind : Gap behind) (h : Renders v cs) (hmore : RendersFields fields more) :
      RendersFields ((name, v) :: fields)
        (before ++ (quoteChars name ++ ':' :: (behind ++ (cs ++ ',' :: more))))

end

theorem gap_nil : Gap [] := fun _ hc => absurd hc List.not_mem_nil

theorem skipBlanks_append {gap : List Char} (hgap : Gap gap) (rest : Input) :
    skipBlanks (gap.map some ++ rest) = skipBlanks rest := by
  rw [skipBlanks, List.dropWhile_append_of_pos]
  · rfl
  · intro c hc
    obtain ⟨c, hmem, rfl⟩ := List.mem_map.mp hc
    exact hgap c hmem

theorem skipBlanks_cons {c : Char} (hc : isJsonBlank (some c) = false) (rest : Input) :
    skipBlanks (some c :: rest) = some c :: rest :=
  List.dropWhile_cons_of_neg (by simp [hc])

theorem skipBlanks_skipBlanks (input : Input) : skipBlanks (skipBlanks input) = skipBlanks input :=
  List.dropWhile_idempotent isJsonBlank input

theorem isJsonBlank_of_isDigit {c : Char} (hc : IsDigit c) : isJsonBlank (some c) = false := by
  simp [isJsonBlank, hc.ne (d := ' ') (by decide), hc.ne (d := '\t') (by decide),
    hc.ne (d := '\n') (by decide), hc.ne (d := '\r') (by decide)]

/-- What stands behind a value in a list or a record is no part of it. -/
theorem endsNumber_gap {gap : List Char} (hgap : Gap gap) {c : Char}
    (hc : ¬IsDigit c ∧ c ≠ '.' ∧ c ≠ 'e' ∧ c ≠ 'E') (rest : Input) :
    EndsNumber (gap.map some ++ some c :: rest) := by
  cases gap with
  | nil =>
      intro d hd
      obtain rfl : c = d := by simpa using hd
      exact hc
  | cons blank gap =>
      intro d hd
      obtain rfl : blank = d := by simpa using hd
      have hblank := hgap blank (List.mem_cons_self ..)
      simp only [isJsonBlank, Bool.or_eq_true, decide_eq_true_eq] at hblank
      obtain ((rfl | rfl) | rfl) | rfl := hblank
      all_goals decide

/-! ### Values -/

theorem intChars_head (n : Int) : ∃ c more, intChars n = c :: more ∧ (IsDigit c ∨ c = '-') := by
  cases n with
  | ofNat n =>
      obtain ⟨c, more, hchars⟩ := List.exists_cons_of_ne_nil (natChars_ne_nil n)
      exact ⟨c, more, hchars, .inl (isDigit_of_mem_natChars (hchars ▸ List.mem_cons_self ..))⟩
  | negSucc n => exact ⟨'-', natChars (n + 1), rfl, .inr rfl⟩

/-- How the layout of a value begins. -/
theorem Renders.head {v : Value} {cs : List Char} (h : Renders v cs) :
    ∃ c more, cs = c :: more ∧ isJsonBlank (some c) = false ∧ c ≠ ']' := by
  cases h with
  | int n =>
      obtain ⟨c, more, hchars, hc | rfl⟩ := intChars_head n
      · exact ⟨c, more, hchars, isJsonBlank_of_isDigit hc, hc.ne (by decide)⟩
      · exact ⟨'-', more, hchars, by decide, by decide⟩
  | null | yes | no | text | noItems | items | noFields | fields =>
      exact ⟨_, _, rfl, by decide, by decide⟩

theorem readValue_number {c : Char} (hc : IsDigit c ∨ c = '-') (fuel : Nat) (rest : Input) :
    readValue (fuel + 1) (some c :: rest) = readNumber (some c :: rest) := by
  have hblank : isJsonBlank (some c) = false := by
    rcases hc with hc | rfl
    · exact isJsonBlank_of_isDigit hc
    · decide
  have hother {d : Char} {tail : Input} (hd : ¬IsDigit d ∧ d ≠ '-') :
      some c :: rest ≠ some d :: tail := by
    intro hinput
    obtain rfl : c = d := Option.some.inj (List.cons.inj hinput).1
    exact hc.elim hd.1 hd.2
  rw [readValue, skipBlanks_cons hblank]
  split
  case h_7 => rfl
  all_goals
    rename_i hinput
    exact absurd hinput (hother (by decide))

section Fuel

variable (fuel : Nat) (input : Input)

theorem readValue_skipBlanks : readValue fuel (skipBlanks input) = readValue fuel input := by
  cases fuel with
  | zero => rfl
  | succ fuel => rw [readValue, readValue, skipBlanks_skipBlanks]

theorem readItems_skipBlanks : readItems fuel (skipBlanks input) = readItems fuel input := by
  cases fuel with
  | zero => rfl
  | succ fuel => rw [readItems, readItems, readValue_skipBlanks]

theorem readFields_skipBlanks : readFields fuel (skipBlanks input) = readFields fuel input := by
  cases fuel with
  | zero => rfl
  | succ fuel => rw [readFields, readFields, skipBlanks_skipBlanks]

theorem readValue_gap {gap : List Char} (hgap : Gap gap) :
    readValue fuel (gap.map some ++ input) = readValue fuel input := by
  rw [← readValue_skipBlanks, skipBlanks_append hgap, readValue_skipBlanks]

end Fuel

theorem recordOf_named (fields : List (String × Value)) :
    recordOf (fields.map fun field => (some field.1, field.2)) = .record fields := by
  have hnames : (fields.map fun field => (some field.1, field.2)).mapM
      (fun field => field.1.map fun name => (name, field.2)) = some fields := by
    induction fields with
    | nil => rfl
    | cons field fields ih =>
        rw [List.map_cons, List.mapM_cons, ih]
        rfl
  rw [recordOf, hnames]

/-- How the layout of items begins. -/
theorem RendersItems.head {items : List Value} {cs : List Char} (h : RendersItems items cs)
    (rest : Input) : ∃ c more, skipBlanks (cs.map some ++ rest) = some c :: more ∧ c ≠ ']' := by
  have hvalue {v : Value} {gap cs : List Char} (hgap : Gap gap) (h : Renders v cs) (rest : Input) :
      ∃ c more, skipBlanks (gap.map some ++ (cs.map some ++ rest)) = some c :: more ∧ c ≠ ']' := by
    obtain ⟨c, more, rfl, hblank, hc⟩ := h.head
    rw [skipBlanks_append hgap]
    exact ⟨c, _, skipBlanks_cons hblank _, hc⟩
  cases h with
  | last hgap h =>
      rw [List.map_append, List.append_assoc]
      exact hvalue hgap h rest
  | cons hgap h hmore =>
      rw [List.map_append, List.map_append, List.append_assoc, List.append_assoc]
      exact hvalue hgap h _

theorem skipBlanks_name {gap : List Char} (hgap : Gap gap) (name : String) (rest : Input) :
    skipBlanks (gap.map some ++ ((quoteChars name).map some ++ rest)) =
      some '"' :: ((name.toList.flatMap escape).map some ++ some '"' :: rest) := by
  rw [skipBlanks_append hgap, quoteChars_append, skipBlanks_cons (by decide)]

/-- How the layout of fields begins. -/
theorem RendersFields.head {fields : List (String × Value)} {cs : List Char}
    (h : RendersFields fields cs) (rest : Input) :
    ∃ more, skipBlanks (cs.map some ++ rest) = some '"' :: more := by
  cases h with
  | @last name v before behind cs hbefore hbehind h =>
      rw [List.map_append, List.map_append, List.append_assoc, List.append_assoc]
      exact ⟨_, skipBlanks_name hbefore name _⟩
  | @cons name v before behind cs fields more hbefore hbehind h hmore =>
      rw [List.map_append, List.map_append, List.append_assoc, List.append_assoc]
      exact ⟨_, skipBlanks_name hbefore name _⟩

mutual

/-- A value is read back from its layouts, whatever stands behind it. -/
theorem readValue_of_renders {v : Value} {cs : List Char} (h : Renders v cs) {fuel : Nat}
    (hfuel : cs.length < fuel) {rest : Input} (hrest : EndsNumber rest) :
    readValue fuel (cs.map some ++ rest) = some (v, rest) := by
  obtain ⟨fuel, rfl⟩ := Nat.exists_eq_add_one_of_ne_zero (Nat.ne_zero_of_lt hfuel)
  cases h with
  | null => rfl
  | yes => rfl
  | no => rfl
  | int n =>
      obtain ⟨c, more, hchars, hc⟩ := intChars_head n
      have hread := readNumber_intChars hrest n
      rw [hchars] at hread ⊢
      rw [← hread]
      exact readValue_number hc fuel _
  | text s =>
      rw [quoteChars_append, readValue, skipBlanks_cons (by decide)]
      simp only [readText_escaped, Option.map_some]
  | noItems => rfl
  | @items items cs gap h hgap =>
      have hlength : cs.length + 1 < fuel := by
        simp only [List.length_cons, List.length_append, List.length_nil] at hfuel
        omega
      have hitems := readItems_of_renders h hlength hgap rest
      -- The reader looks past the blanks for the closing bracket, and reads items from there.
      obtain ⟨c, more, hskip, hc⟩ := h.head (gap.map some ++ some ']' :: rest)
      rw [← readItems_skipBlanks, hskip] at hitems
      simp only [List.map_cons, List.map_append, List.map_nil, List.cons_append, List.append_assoc,
        List.nil_append]
      rw [readValue, skipBlanks_cons (by decide)]
      simp only [hskip]
      split
      · rename_i hclose
        exact absurd (Option.some.inj (List.cons.inj hclose).1) hc
      · rw [hitems, Option.map_some]
  | noFields => rfl
  | @fields fields cs gap h hgap =>
      have hlength : cs.length + 1 < fuel := by
        simp only [List.length_cons, List.length_append, List.length_nil] at hfuel
        omega
      have hfields := readFields_of_renders h hlength hgap rest
      obtain ⟨more, hskip⟩ := h.head (gap.map some ++ some '\x7d' :: rest)
      rw [← readFields_skipBlanks, hskip] at hfields
      simp only [List.map_cons, List.map_append, List.map_nil, List.cons_append, List.append_assoc,
        List.nil_append]
      rw [readValue, skipBlanks_cons (by decide)]
      simp only [hskip]
      split
      · rename_i hclose
        exact absurd (Option.some.inj (List.cons.inj hclose).1) (by decide)
      · rw [hfields, Option.map_some, recordOf_named]

theorem readItems_of_renders {items : List Value} {cs : List Char} (h : RendersItems items cs)
    {fuel : Nat} (hfuel : cs.length + 1 < fuel) {gap : List Char} (hgap : Gap gap) (rest : Input) :
    readItems fuel (cs.map some ++ (gap.map some ++ some ']' :: rest)) = some (items, rest) := by
  obtain ⟨fuel, rfl⟩ := Nat.exists_eq_add_one_of_ne_zero (Nat.ne_zero_of_lt hfuel)
  cases h with
  | @last v before cs hbefore h =>
      have hlength : cs.length < fuel := by
        rw [List.length_append] at hfuel
        omega
      have hvalue := readValue_of_renders h hlength (endsNumber_gap hgap (c := ']') (by decide) rest)
      rw [List.map_append, List.append_assoc, readItems, readValue_gap fuel _ hbefore, hvalue]
      simp only [skipBlanks_append hgap, skipBlanks_cons (c := ']') (by decide)]
  | @cons v before cs items more hbefore h hmore =>
      have hlength : cs.length < fuel ∧ more.length + 1 < fuel := by
        simp only [List.length_append, List.length_cons] at hfuel
        omega
      have hvalue := readValue_of_renders h hlength.1 (endsNumber_gap gap_nil (c := ',') (by decide)
        (more.map some ++ (gap.map some ++ some ']' :: rest)))
      have hitems := readItems_of_renders hmore hlength.2 hgap rest
      simp only [List.map_nil, List.nil_append] at hvalue
      simp only [List.map_cons, List.map_append, List.cons_append, List.append_assoc]
      rw [readItems, readValue_gap fuel _ hbefore, hvalue]
      simp only [skipBlanks_cons (c := ',') (by decide), hitems, Option.map_some]

theorem readFields_of_renders {fields : List (String × Value)} {cs : List Char}
    (h : RendersFields fields cs) {fuel : Nat} (hfuel : cs.length + 1 < fuel) {gap : List Char}
    (hgap : Gap gap) (rest : Input) :
    readFields fuel (cs.map some ++ (gap.map some ++ some '\x7d' :: rest)) =
      some (fields.map fun field => (some field.1, field.2), rest) := by
  obtain ⟨fuel, rfl⟩ := Nat.exists_eq_add_one_of_ne_zero (Nat.ne_zero_of_lt hfuel)
  cases h with
  | @last name v before behind cs hbefore hbehind h =>
      have hlength : cs.length < fuel := by
        simp only [List.length_append, List.length_cons] at hfuel
        omega
      have hvalue := readValue_of_renders h hlength
        (endsNumber_gap hgap (c := '\x7d') (by decide) rest)
      simp only [List.map_cons, List.map_append, List.cons_append, List.append_assoc]
      rw [readFields, skipBlanks_name hbefore]
      simp only [readText_escaped, skipBlanks_cons (c := ':') (by decide),
        readValue_gap fuel _ hbehind, hvalue, skipBlanks_append hgap,
        skipBlanks_cons (c := '\x7d') (by decide), List.map_nil]
  | @cons name v before behind cs fields more hbefore hbehind h hmore =>
      have hlength : cs.length < fuel ∧ more.length + 1 < fuel := by
        simp only [List.length_append, List.length_cons] at hfuel
        omega
      have hvalue := readValue_of_renders h hlength.1 (endsNumber_gap gap_nil (c := ',') (by decide)
        (more.map some ++ (gap.map some ++ some '\x7d' :: rest)))
      have hfields := readFields_of_renders hmore hlength.2 hgap rest
      simp only [List.map_nil, List.nil_append] at hvalue
      simp only [List.map_cons, List.map_append, List.cons_append, List.append_assoc]
      rw [readFields, skipBlanks_name hbefore]
      simp only [readText_escaped, skipBlanks_cons (c := ':') (by decide),
        readValue_gap fuel _ hbehind, hvalue, skipBlanks_cons (c := ',') (by decide), hfields,
        Option.map_some]

end

/-! ### Compact text -/

mutual

/-- Whether a value is free of decimals, which are not written digit by digit as they are read, and of
what cannot be read. -/
def isExact : Value → Bool
  | .real _ | .unreadable => false
  | .list items => areExactItems items
  | .record fields => areExactFields fields
  | _ => true

def areExactItems : List Value → Bool
  | [] => true
  | v :: items => isExact v && areExactItems items

def areExactFields : List (String × Value) → Bool
  | [] => true
  | (_, v) :: fields => isExact v && areExactFields fields

end

section

variable {α : Type} {write : α → Value} (h : ∀ a, isExact (write a))

include h

theorem areExactItems_map (items : List α) : areExactItems (items.map write) := by
  induction items with
  | nil => rfl
  | cons item rest ih => exact Bool.and_eq_true_iff.mpr ⟨h item, ih⟩

theorem areExactFields_map (entries : List (String × α)) :
    areExactFields (entries.map fun entry => (entry.1, write entry.2)) := by
  induction entries with
  | nil => rfl
  | cons entry rest ih => exact Bool.and_eq_true_iff.mpr ⟨h entry.2, ih⟩

end

mutual

theorem renders_compactChars : (v : Value) → isExact v → Renders v (compactChars v)
  | .null, _ => .null
  | .bool true, _ => .yes
  | .bool false, _ => .no
  | .int n, _ => .int n
  | .text s, _ => .text s
  | .list [], _ => .noItems
  | .list (v :: items), h =>
    .items (rendersItems_compactItems (v :: items) (List.cons_ne_nil v items) h) gap_nil
  | .record [], _ => .noFields
  | .record (field :: fields), h =>
    .fields (rendersFields_compactFields (field :: fields) (List.cons_ne_nil field fields) h) gap_nil

theorem rendersItems_compactItems : (items : List Value) → items ≠ [] → areExactItems items →
    RendersItems items (compactItems items)
  | [], hne, _ => absurd rfl hne
  | [v], _, h => .last gap_nil (renders_compactChars v (Bool.and_eq_true_iff.mp h).1)
  | v :: next :: items, _, h =>
    .cons gap_nil (renders_compactChars v (Bool.and_eq_true_iff.mp h).1)
      (rendersItems_compactItems (next :: items) (List.cons_ne_nil next items)
        (Bool.and_eq_true_iff.mp h).2)

theorem rendersFields_compactFields : (fields : List (String × Value)) → fields ≠ [] →
    areExactFields fields → RendersFields fields (compactFields fields)
  | [], hne, _ => absurd rfl hne
  | [(_, v)], _, h => .last gap_nil gap_nil (renders_compactChars v (Bool.and_eq_true_iff.mp h).1)
  | (name, v) :: next :: fields, _, h => by
    have hfields : RendersFields ((name, v) :: next :: fields) _ := .cons gap_nil gap_nil
      (renders_compactChars v (Bool.and_eq_true_iff.mp h).1)
      (rendersFields_compactFields (next :: fields) (List.cons_ne_nil next fields)
        (Bool.and_eq_true_iff.mp h).2)
    rwa [List.nil_append, List.nil_append, ← List.cons_append, ← List.append_assoc] at hfields

end

/-- Text laid out in one of these ways is read as the value of which it was made. -/
theorem readInput_of_renders {v : Value} {cs : List Char} (h : Renders v cs) :
    readInput (cs.map some) = some v := by
  have hend : EndsNumber [] := fun _ hc => absurd hc.symm (Option.some_ne_none _)
  have hread := readValue_of_renders h (Nat.lt_add_one _) hend
  rw [List.append_nil] at hread
  rw [readInput, List.length_map, hread]
  rfl

/-- Compact text is read as the value of which it was made. -/
theorem readBytes_compact {v : Value} (h : isExact v) : readBytes (Utf8.encode (compact v)) = some v := by
  rw [readBytes, Utf8.decode_encode, compact, String.toList_ofList]
  exact readInput_of_renders (renders_compactChars v h)

/-! ### Text over several lines -/

theorem gap_lineBreak (depth : Nat) : Gap (lineBreak depth) := by
  intro c hc
  rcases List.mem_cons.mp hc with rfl | hspace
  · decide
  · rw [(List.mem_replicate.mp hspace).2]
    decide

theorem gap_space : Gap [' '] := by
  intro c hc
  rw [List.mem_singleton.mp hc]
  decide

mutual

theorem renders_prettyChars (depth : Nat) : (v : Value) → isExact v → Renders v (prettyChars depth v)
  | .null, _ => .null
  | .bool true, _ => .yes
  | .bool false, _ => .no
  | .int n, _ => .int n
  | .text s, _ => .text s
  | .list [], _ => .noItems
  | .list (v :: items), h => by
    have hitems := rendersItems_prettyItems (depth + 1) (v :: items) (List.cons_ne_nil v items) h
    rw [prettyChars, List.cons_append, List.cons_append, List.append_assoc]
    · exact .items hitems (gap_lineBreak depth)
    · exact List.cons_ne_nil v items
  | .record [], _ => .noFields
  | .record (field :: fields), h => by
    have hfields := rendersFields_prettyFields (depth + 1) (field :: fields)
      (List.cons_ne_nil field fields) h
    rw [prettyChars, List.cons_append, List.cons_append, List.append_assoc]
    · exact .fields hfields (gap_lineBreak depth)
    · exact List.cons_ne_nil field fields

theorem rendersItems_prettyItems (depth : Nat) : (items : List Value) → items ≠ [] →
    areExactItems items → RendersItems items (prettyItems depth items)
  | [], hne, _ => absurd rfl hne
  | [v], _, h =>
    .last (gap_lineBreak depth) (renders_prettyChars depth v (Bool.and_eq_true_iff.mp h).1)
  | v :: next :: items, _, h => by
    have hitems : RendersItems (v :: next :: items) _ := .cons (gap_lineBreak depth)
      (renders_prettyChars depth v (Bool.and_eq_true_iff.mp h).1)
      (rendersItems_prettyItems depth (next :: items) (List.cons_ne_nil next items)
        (Bool.and_eq_true_iff.mp h).2)
    rwa [← List.append_assoc] at hitems

theorem rendersFields_prettyFields (depth : Nat) : (fields : List (String × Value)) → fields ≠ [] →
    areExactFields fields → RendersFields fields (prettyFields depth fields)
  | [], hne, _ => absurd rfl hne
  | [(name, v)], _, h => by
    have hfields : RendersFields [(name, v)] _ := .last (gap_lineBreak depth) gap_space
      (renders_prettyChars depth v (Bool.and_eq_true_iff.mp h).1)
    rwa [List.singleton_append, ← List.append_assoc] at hfields
  | (name, v) :: next :: fields, _, h => by
    have hfields : RendersFields ((name, v) :: next :: fields) _ := .cons (gap_lineBreak depth)
      gap_space (renders_prettyChars depth v (Bool.and_eq_true_iff.mp h).1)
      (rendersFields_prettyFields depth (next :: fields) (List.cons_ne_nil next fields)
        (Bool.and_eq_true_iff.mp h).2)
    rwa [List.singleton_append, ← List.append_assoc, ← List.cons_append, ← List.cons_append,
      ← List.append_assoc] at hfields

end

/-- Text over several lines is read as the value of which it was made. -/
theorem read_pretty {v : Value} (h : isExact v) : read (pretty v) = some v := by
  rw [read, pretty, String.toList_ofList]
  exact readInput_of_renders (renders_prettyChars 0 v h)

end CrowdPad.Json
