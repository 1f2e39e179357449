import Tftp.Packet.Basic
import Tftp.Text.Letter

namespace Tftp

open Letter

namespace Options

/-- An option with its text in a packet, the number that the text was settled to, and whether it
was accepted. -/
structure Entry where
  name : String
  text : String
  value : Nat := 0
  accepted : Bool := false
deriving DecidableEq, Repr

/-- Overwrites the first entry of that name, which keeps its place and spelling, or comes last. -/
def put (entry : Entry) : List Entry → List Entry
  | [] => [entry]
  | e :: es => if SameName e.name entry.name then { entry with name := e.name } :: es
      else e :: put entry es

end Options

structure Options where
  entries : List Options.Entry := []
deriving DecidableEq, Repr

namespace Options

def ofFields (fields : List OptionField) : Options :=
  ⟨fields.map fun field => { name := field.name, text := field.text }⟩

def fields (options : Options) : List OptionField :=
  options.entries.map fun entry => ⟨entry.name, entry.text⟩

def insert (options : Options) (name text : String) : Options :=
  ⟨put { name, text } options.entries⟩

def insertAll (options : Options) (fields : List OptionField) : Options :=
  fields.foldl (fun acc field => acc.insert field.name field.text) options

def setAccepted (options : Options) (name : String) (value : Nat) : Options :=
  ⟨put { name, text := toString value, value, accepted := true } options.entries⟩

def find? (options : Options) (name : String) : Option Entry :=
  options.entries.find? fun entry => SameName entry.name name

def value? (options : Options) (name : String) : Option Nat :=
  (options.find? name).map Entry.value

def names (options : Options) (name : String) : Bool :=
  options.entries.any fun entry => SameName entry.name name

def isAccepted (options : Options) (name : String) : Bool :=
  (options.find? name).any Entry.accepted

def anyAccepted (options : Options) : Bool :=
  options.entries.any Entry.accepted

def accepted (options : Options) : Options :=
  ⟨options.entries.filter Entry.accepted⟩

end Options

def OptionField.line (fields : List OptionField) : String :=
  " ".intercalate (fields.map fun field => field.name ++ "=" ++ field.text)

end Tftp
