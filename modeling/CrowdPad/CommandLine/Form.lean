import CrowdPad.Text.Words

/-! The form of a command: its options, each with a value, and the text behind them. Options are
written `--name value` or `--name=value`, each once at most; two dashes alone say that no option
follows. -/

namespace CrowdPad.CommandLine

/-- An option of a command. -/
structure OptionForm where
  name : String
  /-- What stands for the value in the help. -/
  placeholder : String
  about : String := ""
  default : Option String := none
  /-- Which values are taken. -/
  accepts : String → Bool := fun _ => true

/-- A command of the program. -/
structure CommandForm where
  name : String
  about : String
  options : List OptionForm := []
  /-- Whether a text is expected behind the options. -/
  takesText : Bool := false

/-- What the arguments of a command come to. -/
inductive Reading where
  /-- Help is asked for. -/
  | help
  /-- The values given to options, and the text. -/
  | given (options : List (String × String)) (text : Option String)
  /-- The arguments do not have the form of the command. -/
  | malformed
deriving Repr, DecidableEq

/-- Whether an argument starts like an option. -/
def isDashed (argument : String) : Bool :=
  match argument.toList with
  | '-' :: _ :: _ => true
  | _ => false

/-- The name of a long option with the value behind its equals sign. -/
def longOption? (argument : String) : Option (String × Option String) :=
  match argument.toList with
  | '-' :: '-' :: cs =>
    some (String.ofList (cs.takeWhile (· ≠ '=')),
      (cs.dropWhile (· ≠ '=')).tail?.map String.ofList)
  | _ => none

namespace CommandForm

/-- Reads texts, of which there may be one. -/
def readTexts (form : CommandForm) (options : List (String × String)) (text : Option String) :
    List String → Reading
  | [] => if form.takesText && text.isNone then .malformed else .given options text
  | argument :: rest =>
    if form.takesText && text.isNone then readTexts form options (some argument) rest
    else .malformed

/-- Reads the arguments of a command. -/
def read (form : CommandForm) (options : List (String × String)) (text : Option String) :
    List String → Reading
  | [] => form.readTexts options text []
  | argument :: rest =>
    if argument = "--" then form.readTexts options text rest
    else
      match longOption? argument with
      | some ("help", none) => .help
      | some (name, value) =>
        match form.options.find? fun option => option.name == name with
        | none => .malformed
        | some option =>
          if (options.lookup name).isSome then .malformed
          else
            match value, rest with
            | some value, rest =>
              if option.accepts value then read form (options ++ [(name, value)]) text rest
              else .malformed
            | none, value :: rest =>
              if !isDashed value && option.accepts value then
                read form (options ++ [(name, value)]) text rest
              else .malformed
            | none, [] => .malformed
      | none =>
        if isDashed argument then if argument.startsWith "-h" then .help else .malformed
        else if form.takesText && text.isNone then read form options (some argument) rest
        else .malformed

/-- The value of an option, or its default. -/
def value (form : CommandForm) (options : List (String × String)) (name : String) : String :=
  (options.lookup name).getD
    (((form.options.find? fun option => option.name == name).bind (·.default)).getD "")

end CommandForm

/-! ### Help -/

/-- A name with its description behind it, at a width common to all. -/
def helpLine (width : Nat) (entry : String × String) : String :=
  let (name, about) := entry
  let blanks := String.ofList (List.replicate (width + 2 - name.length) ' ')
  String.ofList (Text.trimEnd ("  " ++ name ++ blanks ++ about).toList)

/-- Names with their descriptions. -/
def helpBlock (title : String) (entries : List (String × String)) : List String :=
  let width := ((entries.map fun entry => entry.1.length).max?).getD 0
  title :: entries.map (helpLine width)

def OptionForm.helpEntry (option : OptionForm) : String × String :=
  let default := match option.default with
    | some value => ["[default: " ++ value ++ "]"]
    | none => []
  let about := if option.about.isEmpty then [] else [option.about]
  ("    --" ++ option.name ++ " <" ++ option.placeholder ++ ">", " ".intercalate (about ++ default))

def CommandForm.help (program : String) (form : CommandForm) : List String :=
  let usage := "Usage: " ++ program ++ " " ++ form.name ++
    (if form.options.isEmpty then "" else " [OPTIONS]") ++
    if form.takesText then " <TEXT>" else ""
  let texts := if form.takesText then ["Arguments:", "  <TEXT>", ""] else []
  [form.about, "", usage, ""] ++ texts ++
    helpBlock "Options:" (form.options.map OptionForm.helpEntry ++ [("-h, --help", "Print help")])

end CrowdPad.CommandLine
