import Tftp.Net.Move
import Tftp.Session.Basic

namespace Tftp

/-- An exchange with an open window. -/
structure Exchange where
  /-- The packet sent before each window, if one is. -/
  repeated : Option Packet
  left : Nat
deriving DecidableEq, Repr

namespace Exchange

def windows : Nat := 3

inductive Progress where
  | waiting (exchange : Exchange)
  | failed (failure : ExchangeFailure)
deriving DecidableEq, Repr

def openWindow (link : Link) (session : Session) (repeated : Option Packet) : Nat → Move Progress
  | 0 => { state := .failed .timeout }
  | left + 1 =>
    match repeated with
    | none => { state := .waiting { repeated, left } }
    | some packet =>
      let sent := [session.address packet]
      match Session.send link packet with
      | .ok () => { state := .waiting { repeated, left }, sent }
      | .error failure => { state := .failed failure, sent }

def expire (link : Link) (session : Session) (exchange : Exchange) : Move Progress :=
  openWindow link session exchange.repeated exchange.left

end Exchange

end Tftp
