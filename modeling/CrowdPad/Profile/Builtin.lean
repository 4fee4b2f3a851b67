import CrowdPad.Profile.Game
import CrowdPad.Verb.Table

/-! The profiles that need no declaration: three devices, and every game for the keyboard and for
the gamepad. -/

namespace CrowdPad.Profile

def gamepadButtons : List String :=
  ["a", "b", "x", "y", "lb", "rb", "lt", "rt", "ls", "rs", "start", "back", "guide", "dpad_up",
    "dpad_down", "dpad_left", "dpad_right", "ls_up", "ls_down", "ls_left", "ls_right", "rs_up",
    "rs_down", "rs_left", "rs_right"]

def typewriterKeys : List String :=
  "abcdefghijklmnopqrstuvwxyz0123456789".toList.map String.singleton ++
    ["space", "enter", "backspace"]

/-- A verb that presses its key for at least a millisecond. -/
def pressVerb (name key : String) (defaultMs : UInt32) (ceilingMs : UInt32 := defaultCeilingMs) :
    Verb :=
  { name := Text.lower name, key, defaultMs, minMs := 1, ceilingMs }

/-- Every button is a verb of its own. -/
def gamepad : Declarations :=
  { profile := "gamepad", verbs := gamepadButtons.map fun button => pressVerb button button 150 }

/-- Every key is a verb of its own and is tapped. -/
def typewriter : Declarations :=
  { profile := "typewrite", verbs := typewriterKeys.map fun key => pressVerb key key 20 }

/-- Arrow keys and three more, for games without a profile. -/
def keyboardArrows : Declarations :=
  { profile := "keyboard_arrows"
    verbs :=
      [pressVerb "left" "left" 150, pressVerb "right" "right" 150, pressVerb "up" "up" 150,
        pressVerb "down" "down" 150, pressVerb "jump" "space" 200, pressVerb "action" "z" 100,
        { name := "pause", key := "p", defaultMs := 0, kind := .toggle }]
    synonyms := [("l", "left"), ("r", "right"), ("u", "up"), ("d", "down"), ("j", "jump")] }

/-- The profile of a game for one of the two devices. -/
def ofGame (game : Game) (onGamepad : Bool) (profile : String) : Declarations :=
  let verbs := game.verbs.map fun (name, key, button, defaultMs) =>
    pressVerb name (if onGamepad then button else key) defaultMs
      ((game.ceilings.lookup name).getD defaultCeilingMs)
  let declared : Declarations := { profile, verbs }
  let declared := game.synonyms.foldl (fun d entry => d.addSynonym entry.1 entry.2) declared
  game.weights.foldl (fun d entry => d.addWeight entry.1 entry.2) declared

/-- What stands before and behind the last underscore of a name. -/
def splitLast? (name : String) : Option (String × String) :=
  let cs := name.toList.reverse
  match cs.dropWhile (· ≠ '_') with
  | _ :: front =>
    some (String.ofList front.reverse, String.ofList (cs.takeWhile (· ≠ '_')).reverse)
  | [] => none

/-- The game and the device that a profile is named after. -/
def gameVariant? (name : String) : Option (Game × Bool) := do
  let (gameName, device) ← splitLast? name
  let game ← Game.all.find? fun game => game.name == gameName
  if device = "keyboard" && game.onKeyboard then return (game, false)
  else if device = "gamepad" then return (game, true)
  else none

/-- The declarations of a built-in profile, named in lower case. -/
def declarations? (name : String) : Option Declarations :=
  if name = "gamepad" then some gamepad
  else if name = "keyboard_arrows" then some keyboardArrows
  else if name = "typewrite" then some typewriter
  else if name = "towerfall" then some (ofGame Game.towerfall false name)
  else (gameVariant? name).map fun (game, onGamepad) => ofGame game onGamepad name

/-- The table of a built-in profile, named in any case of letters. -/
def builtin (name : String) : Except SetupError VerbTable :=
  let name := Text.lower name
  match declarations? name with
  | some declared => declared.build
  | none => .error (.unknownProfile name)

def builtinNames : List String :=
  ["gamepad", "keyboard_arrows", "typewrite"] ++ Game.all.flatMap fun game =>
    (if game.onKeyboard then [game.name ++ "_keyboard"] else []) ++ [game.name ++ "_gamepad"]

end CrowdPad.Profile
