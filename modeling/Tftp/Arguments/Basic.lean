namespace Tftp.Arguments

inductive Shape where
  | option (accepts : String → Bool)
  | switch

structure Flag where
  key : String
  spellings : List String
  shape : Shape

/-- An option takes the next word whatever it looks like, and after `--` every word counts by its place. -/
structure Grammar where
  flags : List Flag
  places : Nat

inductive Outcome (α : Type) where
  | parsed (value : α)
  | help
  | misuse
deriving DecidableEq, Repr

structure Reading where
  options : List (String × String) := []
  switches : List String := []
  placed : List String := []
  awaiting : Option Flag := none
  help : Bool := false
  optionsEnded : Bool := false

namespace Reading

def option? (reading : Reading) (key : String) : Option String :=
  reading.options.lookup key

def switch (reading : Reading) (key : String) : Bool :=
  reading.switches.contains key

end Reading

def helpWords : List String := ["--help", "help"]

namespace Grammar

def find? (grammar : Grammar) (word : String) : Option Flag :=
  grammar.flags.find? fun flag => flag.spellings.contains word

def takeValue (reading : Reading) (flag : Flag) (word : String) : Option Reading :=
  match flag.shape with
  | .switch => none
  | .option accepts =>
    if (reading.option? flag.key).isSome || !accepts word then none
    else some { reading with options := reading.options ++ [(flag.key, word)], awaiting := none }

def takePlace (grammar : Grammar) (reading : Reading) (word : String) : Option Reading :=
  if reading.placed.length < grammar.places then
    some { reading with placed := reading.placed ++ [word] }
  else none

def takeFlag (grammar : Grammar) (reading : Reading) (word : String) : Option Reading := do
  let flag ← grammar.find? word
  match flag.shape with
  | .switch => return { reading with switches := reading.switches ++ [flag.key] }
  | .option _ => return { reading with awaiting := some flag }

/-- One more word. Nothing but words by their place may follow a word that asks for help. -/
def take (grammar : Grammar) (reading : Reading) (word : String) : Option Reading :=
  match reading.awaiting with
  | some flag => takeValue reading flag word
  | none =>
    if reading.optionsEnded then grammar.takePlace reading word
    else if helpWords.contains word then some { reading with help := true }
    else if word = "--" then some { reading with optionsEnded := true }
    else if word.startsWith "-" then
      if reading.help then none else grammar.takeFlag reading word
    else grammar.takePlace reading word

/-- Reads all words and makes a value of them, which fails where something needed is missing. -/
def parse {α : Type} (grammar : Grammar) (build : Reading → Option α) (words : List String) :
    Outcome α :=
  match words.foldlM grammar.take {} with
  | none => .misuse
  | some reading =>
    if reading.awaiting.isSome then .misuse
    else if reading.help then .help
    else match build reading with
      | some value => .parsed value
      | none => .misuse

end Grammar

end Tftp.Arguments
