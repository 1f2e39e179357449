import Tftp.Mode.Basic
import Tftp.Net.Ip
import Tftp.Text.Decimal

namespace Tftp.Arguments

def natUpTo? (greatest : Nat) (word : String) : Option Nat :=
  (Decimal.read greatest word).toOption

def port? (word : String) : Option Nat :=
  natUpTo? Decimal.maxUInt16 word

def octet? (word : String) : Option Nat :=
  natUpTo? Decimal.maxUInt8 word

def isPort (word : String) : Bool := (port? word).isSome

def isOctet (word : String) : Bool := (octet? word).isSome

def isIp (word : String) : Bool := (Ip.parse? word).isSome

def isMode (word : String) : Bool := (Mode.parse? word).isSome

def isAny (_word : String) : Bool := true

end Tftp.Arguments
