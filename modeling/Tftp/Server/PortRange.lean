import Tftp.Fault
import Tftp.Text.Blank
import Tftp.Text.Decimal

namespace Tftp

/-- All ports from `low` to `high`. There are none if `high` comes before `low`. -/
structure PortRange where
  low : Nat
  high : Nat
deriving DecidableEq, Repr

namespace PortRange

inductive Trouble where
  | noHyphen (text : String)
  | badPort (part : String) (trouble : Decimal.Trouble)
  | noPorts (text : String)
deriving DecidableEq, Repr

def Trouble.message : Trouble → String
  | noHyphen text => "port range '" ++ text ++ "' must look like LO-HI"
  | badPort part trouble => "invalid port '" ++ part ++ "': " ++ trouble.message
  | noPorts text => "port range '" ++ text ++ "' is empty or starts at 0"

def readPort (part : List Char) : Except Trouble Nat :=
  match Decimal.readChars Decimal.maxUInt16 (Blank.trimChars part) with
  | .ok port => .ok port
  | .error trouble => .error (.badPort (String.ofList part) trouble)

def parse (text : String) : Except Trouble PortRange := do
  let low := text.toList.takeWhile (· ≠ '-')
  let _ :: high := text.toList.dropWhile (· ≠ '-') | throw (.noHyphen text)
  let low ← readPort low
  let high ← readPort high
  if low = 0 ∨ high < low then throw (.noPorts text)
  return { low, high }

def isEmpty (range : PortRange) : Bool :=
  range.high < range.low

def maxAttempts : Nat := 16

/-- A port drawn at random, as a place in the range, and why it cannot be bound, if it cannot. -/
structure Attempt where
  draw : Nat := 0
  fault : Option Fault := none
deriving DecidableEq, Repr

structure Binding where
  tried : List Nat := []
  result : Except Fault Nat

def port (range : PortRange) (draw : Nat) : Nat :=
  range.low + draw % (range.high - range.low + 1)

def tryPorts (range : PortRange) (last : Fault) : List Attempt → Binding
  | [] => { result := .error last }
  | attempt :: attempts =>
    let port := range.port attempt.draw
    match attempt.fault with
    | none => { tried := [port], result := .ok port }
    | some fault =>
      let later := tryPorts range fault attempts
      { later with tried := port :: later.tried }

/-- Binds a port of the range, where attempt `i` goes as `attempt i` says. -/
def bindOne (range : PortRange) (attempt : Nat → Attempt) : Binding :=
  if range.isEmpty then
    let text := "Empty port range " ++ toString range.low ++ "-" ++ toString range.high
    { result := .error ⟨.invalidInput, text⟩ }
  else
    range.tryPorts ⟨.addrInUse, "Address already in use"⟩ ((List.range maxAttempts).map attempt)

end PortRange

end Tftp
