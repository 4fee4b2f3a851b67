/-! The games with a profile of their own: the verbs of each with their keys, which differ between
keyboard and gamepad, and what the two have in common. -/

namespace CrowdPad

/-- The controls of one game. -/
structure Game where
  name : String
  /-- Whether the game can be played on the keyboard. -/
  onKeyboard : Bool
  /-- Verb, key on the keyboard, button of the gamepad, default duration. -/
  verbs : List (String × String × String × UInt32)
  synonyms : List (String × String)
  weights : List (String × UInt32)
  /-- The verbs whose ceiling is not the usual one. -/
  ceilings : List (String × UInt32) := []
deriving Repr

namespace Game

def towerfall : Game where
  name := "towerfall"
  onKeyboard := true
  verbs :=
    [("left", "left", "dpad_left", 150), ("right", "right", "dpad_right", 150),
     ("up", "up", "dpad_up", 150), ("down", "down", "dpad_down", 150), ("jump", "c", "a", 250),
     ("dodge", "shift", "rt", 50), ("shoot", "x", "x", 100), ("alt", "z", "b", 100),
     ("toggle", "s", "y", 20)]
  synonyms :=
    [("l", "left"), ("r", "right"), ("u", "up"), ("d", "down"), ("j", "jump"), ("crouch", "down"),
     ("duck", "down"), ("dash", "dodge"), ("catch", "dodge"), ("attack", "shoot"),
     ("fire", "shoot"), ("altattack", "alt"), ("altshoot", "alt"), ("altfire", "alt"),
     ("switch", "toggle")]
  weights :=
    [("left", 300), ("right", 300), ("up", 100), ("down", 100), ("jump", 200), ("dash", 50),
     ("shoot", 250), ("altshoot", 50), ("toggle", 50)]

def jumpKing : Game where
  name := "jumpking"
  onKeyboard := true
  verbs :=
    [("left", "left", "dpad_left", 150), ("right", "right", "dpad_right", 150),
     ("jump", "space", "a", 150)]
  synonyms :=
    [("l", "left"), ("r", "right"), ("j", "jump")]
  weights :=
    [("left", 300), ("right", 300), ("jump", 600)]

def divekick : Game where
  name := "divekick"
  onKeyboard := true
  verbs :=
    [("dive", "w", "y", 150), ("kick", "s", "x", 150)]
  synonyms :=
    [("d", "dive"), ("k", "kick"), ("jump", "dive")]
  weights :=
    [("dive", 700), ("kick", 700)]

def duckGame : Game where
  name := "duckgame"
  onKeyboard := true
  verbs :=
    [("left", "a", "dpad_left", 150), ("right", "d", "dpad_right", 150), ("up", "space", "a", 250),
     ("down", "s", "dpad_down", 100), ("jump", "space", "a", 250), ("hop", "space", "a", 50),
     ("grab", "g", "y", 50), ("shoot", "h", "x", 100), ("strafe", "shiftleft", "lb", 100),
     ("trip", "f", "rb", 20), ("quack", "e", "b", 20)]
  synonyms :=
    [("l", "left"), ("r", "right"), ("u", "up"), ("d", "down"), ("j", "jump"), ("crouch", "down"),
     ("duck", "down"), ("pickup", "grab"), ("attack", "shoot"), ("fire", "shoot"),
     ("taunt", "quack")]
  weights :=
    [("left", 300), ("right", 300), ("up", 100), ("hop", 100), ("down", 100), ("grab", 50),
     ("shoot", 250), ("trip", 50), ("quack", 50)]
  ceilings := [("shoot", 3000)]

def lethalLeague : Game where
  name := "lethalleague"
  onKeyboard := true
  verbs :=
    [("left", "left", "ls_left", 150), ("right", "right", "ls_right", 150),
     ("up", "up", "ls_up", 50), ("down", "down", "ls_down", 50), ("jump", "space", "a", 150),
     ("swing", "z", "x", 50), ("bunt", "x", "b", 50), ("express", "a", "y", 50)]
  synonyms :=
    [("l", "left"), ("r", "right"), ("u", "up"), ("d", "down"), ("j", "jump"), ("crouch", "down"),
     ("duck", "down"), ("smash", "swing"), ("s", "swing"), ("parry", "bunt"), ("b", "bunt"),
     ("taunt", "express"), ("t", "express")]
  weights :=
    [("left", 200), ("right", 200), ("jump", 200), ("down", 40), ("swing", 100), ("bunt", 50),
     ("express", 5)]

def splody : Game where
  name := "splody"
  onKeyboard := true
  verbs :=
    [("up", "up", "dpad_up", 250), ("down", "down", "dpad_down", 250),
     ("left", "left", "dpad_left", 250), ("right", "right", "dpad_right", 250),
     ("bomb", "l", "a", 50), ("secondary", "k", "b", 50), ("taunt", "j", "rb", 250)]
  synonyms :=
    [("l", "left"), ("r", "right"), ("u", "up"), ("d", "down"), ("b", "bomb"),
     ("ping", "secondary")]
  weights :=
    [("up", 300), ("down", 300), ("left", 300), ("right", 300), ("bomb", 200), ("secondary", 100),
     ("taunt", 100)]

def stickFight : Game where
  name := "stickfight"
  onKeyboard := false
  verbs :=
    [("left", "", "dpad_left", 150), ("right", "", "dpad_right", 150), ("up", "", "dpad_up", 150),
     ("down", "", "dpad_down", 150), ("jump", "", "lb", 250), ("hop", "", "lb", 50),
     ("attack", "", "rt", 50), ("guard", "", "lt", 100), ("throw", "", "y", 50),
     ("aimleft", "", "rs_left", 150), ("aimright", "", "rs_right", 150),
     ("aimup", "", "rs_up", 150), ("aimdown", "", "rs_down", 150)]
  synonyms :=
    [("l", "left"), ("r", "right"), ("u", "up"), ("d", "down"), ("j", "jump"), ("crouch", "down"),
     ("duck", "down"), ("yeet", "throw"), ("shoot", "attack"), ("fire", "attack"),
     ("defend", "guard"), ("shield", "guard"), ("aim_left", "aimleft"), ("aim_right", "aimright"),
     ("aim_up", "aimup"), ("aim_down", "aimdown"), ("aiml", "aimleft"), ("aimr", "aimright"),
     ("aimu", "aimup"), ("aimd", "aimdown")]
  weights :=
    [("left", 300), ("right", 300), ("jump", 100), ("hop", 100), ("down", 100), ("throw", 50),
     ("attack", 250), ("guard", 50), ("aimleft", 50), ("aimright", 50), ("aimup", 50),
     ("aimdown", 50)]

def trickyTowers : Game where
  name := "trickytowers"
  onKeyboard := true
  verbs :=
    [("left", "left", "dpad_left", 50), ("right", "right", "dpad_right", 50),
     ("down", "down", "dpad_down", 50), ("rotate", "up", "a", 50), ("nudge_left", "u", "lb", 50),
     ("nudge_right", "i", "rb", 50), ("light_magic", "j", "x", 50), ("dark_magic", "k", "b", 50)]
  synonyms :=
    [("l", "left"), ("r", "right"), ("d", "down"), ("rot", "rotate"), ("nudgeleft", "nudge_left"),
     ("nudgeright", "nudge_right"), ("lightmagic", "light_magic"), ("darkmagic", "dark_magic"),
     ("left_nudge", "nudge_left"), ("right_nudge", "nudge_right"), ("leftnudge", "nudge_left"),
     ("rightnudge", "nudge_right"), ("nudgel", "nudge_left"), ("nudger", "nudge_right"),
     ("lnudge", "nudge_left"), ("rnudge", "nudge_right"), ("light", "light_magic"),
     ("dark", "dark_magic"), ("nl", "nudge_left"), ("nr", "nudge_right"), ("ln", "nudge_left"),
     ("rn", "nudge_right")]
  weights :=
    [("left", 100), ("right", 100), ("down", 20), ("rotate", 100), ("nudge_left", 50),
     ("nudge_right", 50), ("light_magic", 20), ("dark_magic", 20)]

def all : List Game :=
  [towerfall, jumpKing, divekick, duckGame, lethalLeague, splody, stickFight, trickyTowers]

end Game

end CrowdPad
