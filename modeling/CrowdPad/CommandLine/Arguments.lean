import CrowdPad.CommandLine.Form

/-! The arguments of the program: a command with its options, or a question about the program. -/

namespace CrowdPad.CommandLine

/-- What the program is asked to do. -/
inductive Task where
  /-- Runs the teams of a configuration; keys that are down at the end get some seconds. -/
  | run (config : String) (graceSecs : Nat)
  /-- Reads a message without a team. -/
  | parse (profile : String) (profileFile : Option String) (marker text : String)
  /-- Serves edges of other processes. -/
  | serve (address : String)
  /-- Lists the built-in profiles. -/
  | profiles
  /-- Prints some lines about the program. -/
  | inform (lines : List String)
deriving Repr, DecidableEq

def programName : String := "chatwars"

def programVersion : String := "0.1.0"

/-- A number of 64 bits, possibly behind a plus sign. -/
def toNat64? (s : String) : Option Nat :=
  let digits := match s.toList with
    | '+' :: cs => cs
    | cs => cs
  let n := Text.digitsValue digits
  if Text.isDigits digits && n < UInt64.size then some n else none

def runForm : CommandForm :=
  { name := "run", about := "Runs every configured team, reading chat lines from stdin"
    options := [
      { name := "config", placeholder := "CONFIG", default := some "chatwars.toml"
        accepts := fun path => !path.isEmpty },
      { name := "grace-secs", placeholder := "GRACE_SECS"
        about := "Seconds to wait for pending releases on exit", default := some "2"
        accepts := fun secs => (toNat64? secs).isSome }] }

def parseForm : CommandForm :=
  { name := "parse", about := "Parses one message against a profile and prints the requests"
    options := [
      { name := "profile", placeholder := "PROFILE", default := some "towerfall_keyboard" },
      { name := "profile-file", placeholder := "PROFILE_FILE"
        about := "Custom profile document instead of a built-in one"
        accepts := fun path => !path.isEmpty },
      { name := "prefix", placeholder := "PREFIX", default := some "+" }]
    takesText := true }

def serveForm : CommandForm :=
  { name := "serve", about := "Accepts remote input frames and logs them"
    options := [{ name := "bind", placeholder := "BIND", default := some "127.0.0.1:33000" }] }

def profilesForm : CommandForm :=
  { name := "profiles", about := "Lists built-in profiles and their verbs" }

def commandForms : List CommandForm := [runForm, parseForm, serveForm, profilesForm]

def programHelp : List String :=
  ["Chat commands to timed game input", "", "Usage: " ++ programName ++ " <COMMAND>", ""] ++
    helpBlock "Commands:" (commandForms.map (fun form => (form.name, form.about)) ++
      [("help", "Print this message or the help of the given subcommand(s)")]) ++
    [""] ++ helpBlock "Options:" [("-h, --help", "Print help"), ("-V, --version", "Print version")]

/-- The help on help. -/
def helpOnHelp : List String :=
  ["Print this message or the help of the given subcommand(s)", "",
    "Usage: " ++ programName ++ " help [COMMAND]...", ""] ++
    helpBlock "Arguments:"
      [("[COMMAND]...", "Print help for the subcommand(s)")]

/-- The command of a name. -/
def commandForm? (name : String) : Option CommandForm :=
  commandForms.find? fun form => form.name == name

/-- What help is asked for by the words behind `help`. -/
def helpOn? : List String → Option (List String)
  | [] => some programHelp
  | ["help"] => some helpOnHelp
  | [name] => (commandForm? name).map (CommandForm.help programName)
  | _ => none

/-- The task of a command with the values given to it. -/
def taskOf (form : CommandForm) (options : List (String × String)) (text : Option String) : Task :=
  let value := form.value options
  match form.name with
  | "run" => .run (value "config") ((toNat64? (value "grace-secs")).getD 0)
  | "parse" =>
    .parse (value "profile") (options.lookup "profile-file") (value "prefix") (text.getD "")
  | "serve" => .serve (value "bind")
  | _ => .profiles

/-- The task that some arguments ask for; `none` if they have no known form. -/
def task? : List String → Option Task
  | [] => none
  | name :: rest =>
    if name = "--help" || name.startsWith "-h" then some (.inform programHelp)
    else if name = "--version" || name.startsWith "-V" then
      some (.inform [programName ++ " " ++ programVersion])
    else if name = "help" then (helpOn? rest).map .inform
    else
      match commandForm? name with
      | none => none
      | some form =>
        match form.read [] none rest with
        | .help => some (.inform (form.help programName))
        | .given options text => some (taskOf form options text)
        | .malformed => none

end CrowdPad.CommandLine
