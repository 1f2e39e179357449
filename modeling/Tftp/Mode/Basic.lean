import Tftp.Text.Letter

namespace Tftp

open Letter

inductive Mode where
  | netascii
  | octet
deriving DecidableEq, Repr

namespace Mode

def name : Mode → String
  | netascii => "netascii"
  | octet => "octet"

def parse? (s : String) : Option Mode :=
  if SameName s "netascii" then some netascii
  else if SameName s "octet" then some octet
  else none

structure Unknown where
  text : String
deriving DecidableEq, Repr

def Unknown.message (unknown : Unknown) : String :=
  "Unknown file mode: '" ++ unknown.text ++ "'"

def parse (s : String) : Except Unknown Mode :=
  match parse? s with
  | some mode => .ok mode
  | none => .error ⟨s⟩

end Mode

end Tftp
