import CrowdPad.SetupError

/-! Verb tables. A table is built from the declarations of a profile, which are checked in the order
verbs, synonyms, random weights; names are compared in lower case. A synonym may stand for an
earlier synonym, and then means the same verb. -/

namespace CrowdPad

/-- What a profile declares, in order. -/
structure Declarations where
  profile : String
  verbs : List Verb := []
  synonyms : List (String × String) := []
  weights : List (String × UInt32) := []
deriving Repr, Inhabited

namespace Declarations

def addVerb (d : Declarations) (v : Verb) : Declarations := { d with verbs := d.verbs ++ [v] }

def addSynonym (d : Declarations) (synonym target : String) : Declarations :=
  { d with synonyms := d.synonyms ++ [(Text.lower synonym, Text.lower target)] }

/-- Declares how often a verb is picked at random; a weight of zero declares nothing. -/
def addWeight (d : Declarations) (verb : String) (weight : UInt32) : Declarations :=
  if 0 < weight then { d with weights := d.weights ++ [(Text.lower verb, weight)] } else d

end Declarations

/-- The verbs of a profile with their synonyms and random weights. -/
structure VerbTable where
  profile : String := ""
  verbs : List Verb := []
  /-- Each synonym with the name of its verb. -/
  synonyms : List (String × String) := []
  weights : List (String × UInt32) := []
deriving Repr, DecidableEq, Inhabited

namespace VerbTable

def get? (t : VerbTable) (name : String) : Option Verb := t.verbs.find? fun v => v.name == name

/-- The verb that a word names, directly or as a synonym, in any case of letters. -/
def resolve? (t : VerbTable) (word : String) : Option Verb :=
  let lowered := Text.lower word
  match t.get? lowered with
  | some v => some v
  | none => (t.synonyms.lookup lowered).bind t.get?

/-- The synonyms of a verb in alphabetical order. -/
def synonymsOf (t : VerbTable) (name : String) : List String :=
  ((t.synonyms.filter fun entry => entry.2 == name).map (·.1)).mergeSort fun left right =>
    !(right < left)

/-- The verbs meant for random picks: those with a weight, or all where no verb has one. -/
def randomSupport (t : VerbTable) : List String :=
  if t.weights.isEmpty then t.verbs.map (·.name) else t.weights.map (·.1)

/-- The sum of the random weights. -/
def totalWeight (t : VerbTable) : Nat := t.weights.foldr (fun entry sum => entry.2.toNat + sum) 0

/-- The entry that a number below the sum of the weights falls on. -/
def pickWeighted : List (String × UInt32) → Nat → Option String
  | [], _ => none
  | (name, weight) :: rest, draw =>
    if draw < weight.toNat then some name else pickWeighted rest (draw - weight.toNat)

/-- The number of draws that a random pick tells apart. -/
def pickBound (t : VerbTable) : Nat :=
  if t.weights.isEmpty then t.verbs.length else t.totalWeight

/-- The sum of weights, added up in 32 bits one by one; there is none once a sum does not fit. -/
def addUp? (weights : List (String × UInt32)) : Option UInt32 :=
  weights.foldlM (fun sum entry =>
    if sum.toNat + entry.2.toNat < UInt32.size then some (sum + entry.2) else none) 0

/-- The verb that a draw below `pickBound` picks, each in proportion to its weight; without weights
every verb is as likely as any other. Nothing can be drawn from weights that cannot be added up. -/
def pick? (t : VerbTable) (draw : Nat) : Option Verb :=
  if t.weights.isEmpty then t.verbs[draw]?
  else (addUp? t.weights).bind fun _ => (pickWeighted t.weights draw).bind t.get?

end VerbTable

namespace Declarations

/-- Adds declared verbs to those accepted so far. -/
def checkVerbs (accepted : List Verb) : List Verb → Except SetupError (List Verb)
  | [] => .ok accepted
  | v :: rest =>
    let v := { v with name := Text.lower v.name }
    match v.fault? with
    | some fault => .error (.invalidVerb v.name fault)
    | none =>
      if accepted.any fun other => other.name == v.name then .error (.duplicateName v.name)
      else checkVerbs (accepted ++ [v]) rest

/-- Adds declared synonyms to those accepted so far. A verb may be declared a synonym of itself, and
a synonym may be declared again for the same verb. -/
def checkSynonyms (names : List String) (accepted : List (String × String)) :
    List (String × String) → Except SetupError (List (String × String))
  | [] => .ok accepted
  | (synonym, target) :: rest =>
    let verb? := if names.contains target then some target else accepted.lookup target
    match verb? with
    | none => .error (.danglingSynonym synonym target)
    | some verb =>
      if synonym = verb then checkSynonyms names accepted rest
      else if names.contains synonym then .error (.duplicateName synonym)
      else
        match accepted.lookup synonym with
        | some other =>
          if other = verb then checkSynonyms names accepted rest
          else .error (.duplicateName synonym)
        | none => checkSynonyms names (accepted ++ [(synonym, verb)]) rest

/-- Replaces the names that random weights are declared for by the names of their verbs. -/
def checkWeights (names : List String) (synonyms : List (String × String)) :
    List (String × UInt32) → Except SetupError (List (String × UInt32))
  | [] => .ok []
  | (name, weight) :: rest =>
    let verb? := if names.contains name then some name else synonyms.lookup name
    match verb? with
    | none => .error (.unknownRandomVerb name)
    | some verb => do return (verb, weight) :: (← checkWeights names synonyms rest)

def build (d : Declarations) : Except SetupError VerbTable := do
  let verbs ← checkVerbs [] d.verbs
  let names := verbs.map (·.name)
  let synonyms ← checkSynonyms names [] d.synonyms
  let weights ← checkWeights names synonyms d.weights
  return { profile := d.profile, verbs, synonyms, weights }

end Declarations

end CrowdPad
