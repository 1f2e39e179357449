import Tftp.Text.Transducer

namespace Tftp

abbrev Bytes := List UInt8

namespace Utf8

def encode (s : String) : Bytes :=
  s.toList.flatMap String.utf8EncodeChar

structure Partial where
  bits : Nat
  owed : Nat
  low : UInt8 := 0x80
  high : UInt8 := 0xBF
deriving DecidableEq, Repr

/-- What the first octet of a longer character announces. The narrowed ranges keep out overlong
forms, surrogates and numbers above U+10FFFF. -/
def Partial.ofLead? (b : UInt8) : Option Partial :=
  if 0xC2 ≤ b ∧ b ≤ 0xDF then some { bits := b.toNat - 0xC0, owed := 1 }
  else if b = 0xE0 then some { bits := 0, owed := 2, low := 0xA0 }
  else if b = 0xED then some { bits := 0xD, owed := 2, high := 0x9F }
  else if 0xE1 ≤ b ∧ b ≤ 0xEF then some { bits := b.toNat - 0xE0, owed := 2 }
  else if b = 0xF0 then some { bits := 0, owed := 3, low := 0x90 }
  else if b = 0xF4 then some { bits := 4, owed := 3, high := 0x8F }
  else if 0xF1 ≤ b ∧ b ≤ 0xF3 then some { bits := b.toNat - 0xF0, owed := 3 }
  else none

def replacement : Char := '\uFFFD'

def start (b : UInt8) : Option Partial × List Char :=
  if b < 0x80 then (none, [Char.ofNat b.toNat])
  else match Partial.ofLead? b with
    | some p => (some p, [])
    | none => (none, [replacement])

def step : Option Partial → UInt8 → Option Partial × List Char
  | none, b => start b
  | some p, b =>
    if p.low ≤ b ∧ b ≤ p.high then
      let bits := p.bits * 64 + (b.toNat - 0x80)
      if p.owed = 1 then (none, [Char.ofNat bits]) else (some { bits, owed := p.owed - 1 }, [])
    else
      let (state, written) := start b
      (state, replacement :: written)

def rest : Option Partial → List Char
  | none => []
  | some _ => [replacement]

def decodeChars (bytes : Bytes) : List Char :=
  let (state, written) := Transducer.run step none bytes
  written ++ rest state

/-- A stretch that begins a character and cannot be carried on becomes one U+FFFD, and reading goes on at the octet
that broke it. -/
def decode (bytes : Bytes) : String :=
  String.ofList (decodeChars bytes)

end Utf8

end Tftp
