import CrowdPad.Command.Timing
import CrowdPad.Text.Case

/-! Commands in chat messages. A word that carries the marker starts a run of commands; inside a run
bare verbs go on, a word that names nothing ends it, and prose outside of runs is passed over. Each
command may have a timing clause behind it, and a clause that cannot be read costs its own command
only. -/

namespace CrowdPad

variable {α : Type}

/-- A command of a message: its position among the commands, the word without marker in lower case,
what the word means, and its timing. -/
structure Command (α : Type) where
  index : Nat
  word : String
  meaning : α
  timing : Timing
deriving Repr, DecidableEq

/-- A command dropped for its timing clause. -/
structure Malformed where
  index : Nat
  word : String
  clause : String
  fault : TimingFault
deriving Repr, DecidableEq

def Malformed.message (m : Malformed) : String :=
  "malformed timing '" ++ m.clause ++ "' for '" ++ m.word ++ "': " ++ m.fault.message

def Malformed.toValue (m : Malformed) : Value :=
  .record [("kind", .text "malformed_timing"), ("index", .nat m.index), ("word", .text m.word),
    ("clause", .text m.clause), ("fault", .text m.fault.name)]

/-- What was found in a message. -/
structure Message (α : Type) where
  commands : List (Command α) := []
  malformed : List Malformed := []
  /-- The words inside a run that mean nothing. -/
  unknown : List String := []
deriving Repr, DecidableEq

instance : Inhabited (Message α) := ⟨{}⟩

namespace Message

/-- Puts a command in front. -/
def consCommand (command : Command α) (m : Message α) : Message α :=
  { m with commands := command :: m.commands }

def consMalformed (malformed : Malformed) (m : Message α) : Message α :=
  { m with malformed := malformed :: m.malformed }

def consUnknown (word : String) (m : Message α) : Message α :=
  { m with unknown := word :: m.unknown }

end Message

namespace Grammar

/-- A word without its marker, if it carries one and more than that. -/
def marked? (g : Grammar) (word : Word) : Option Word :=
  (Text.dropStart? g.marker.toList word).filter fun rest => !rest.isEmpty

/-- Whether some word of a text carries the marker. -/
def isCommand (g : Grammar) (text : String) : Bool :=
  (Text.words text).any fun word => (g.marked? word).isSome

/-- What a word that the scan meets could name: without its marker if it carries one, and nothing if
it stands outside of runs or is left-over timing. -/
def candidate? (g : Grammar) (inRun : Bool) (word : Word) : Option Word :=
  match g.marked? word with
  | some rest => some rest
  | none => if !inRun || word.startsLikeTiming then none else some word

/-- Reads the commands off a list of words. `always` says that all words belong to one run, `inRun`
that a run is going on, and `index` counts the commands before these words. -/
def scan (g : Grammar) (resolve : String → Option α) (always inRun : Bool) (index : Nat)
    (words : List Word) : Message α :=
  match words with
  | [] => {}
  | word :: rest =>
    match g.candidate? inRun word with
    | none => scan g resolve always inRun index rest
    | some candidate =>
      let lowered := Text.lower (String.ofList candidate)
      match resolve lowered with
      | none => (scan g resolve always always index rest).consUnknown lowered
      | some meaning =>
        match h : g.clause? rest with
        | none =>
          (scan g resolve always true (index + 1) rest).consCommand
            { index, word := lowered, meaning, timing := {} }
        | some (clause, rest') =>
          match g.parseTiming clause with
          | .ok timing =>
            (scan g resolve always true (index + 1) rest').consCommand
              { index, word := lowered, meaning, timing }
          | .error fault =>
            (scan g resolve always true (index + 1) rest').consMalformed
              { index, word := lowered, clause := String.ofList clause, fault }
termination_by words.length
decreasing_by
  all_goals simp only [List.length_cons]
  all_goals first
    | omega
    | have := clause?_length h
      omega

/-- Reads a text in which every word belongs to one run. -/
def parseBody (g : Grammar) (resolve : String → Option α) (text : String) : Message α :=
  g.scan resolve true true 0 (Text.words text)

/-- Reads a chat message; `none` if no word of it carries the marker. -/
def parse? (g : Grammar) (resolve : String → Option α) (text : String) : Option (Message α) :=
  if g.isCommand text then some (g.scan resolve false false 0 (Text.words text)) else none

end Grammar

end CrowdPad
