namespace Tftp.Decimal

inductive Trouble where
  | empty
  | notDigit
  | tooLarge
deriving DecidableEq, Repr

def Trouble.message : Trouble → String
  | .empty => "cannot parse integer from empty string"
  | .notDigit => "invalid digit found in string"
  | .tooLarge => "number too large to fit in target type"

def digit (c : Char) : Nat :=
  c.toNat - '0'.toNat

def readDigits (greatest : Nat) : Nat → List Char → Except Trouble Nat
  | n, [] => .ok n
  | n, c :: cs =>
    if c.isDigit then
      if n * 10 + digit c ≤ greatest then readDigits greatest (n * 10 + digit c) cs
      else .error .tooLarge
    else .error .notDigit

/-- A sign by itself is no numeral: what is wrong with it is its first character. -/
def readChars (greatest : Nat) : List Char → Except Trouble Nat
  | [] => .error .empty
  | ['+'] => .error .notDigit
  | '+' :: c :: cs => readDigits greatest 0 (c :: cs)
  | c :: cs => readDigits greatest 0 (c :: cs)

/-- One or more decimal digits, with a plus sign before them if one likes, up to a greatest value. They are read from
the left and the first trouble met is the one reported. -/
def read (greatest : Nat) (s : String) : Except Trouble Nat :=
  readChars greatest s.toList

def maxUInt8 : Nat := 255

def maxUInt16 : Nat := 65535

def maxUInt64 : Nat := 18446744073709551615

end Tftp.Decimal
