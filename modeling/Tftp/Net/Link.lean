import Tftp.Fault
import Tftp.Net.Endpoint
import Tftp.Packet.Wire

namespace Tftp

structure Datagram where
  source : Endpoint
  bytes : Bytes
deriving DecidableEq, Repr

/-- An attempt to send a packet, whether or not it left. -/
structure Transmission where
  destination : Endpoint
  packet : Packet
deriving DecidableEq, Repr

inductive Link where
  | connected
  | unreachable
deriving DecidableEq, Repr

namespace Link

def maxLength : Nat := 65535

def maxPayload : Nat := 65507

/-- Why a datagram of this length does not leave, if it does not. -/
def refusal? (link : Link) (length : Nat) : Option Fault :=
  if maxLength < length then some ⟨.uncategorized, "Message too long"⟩
  else match link with
    | unreachable => some ⟨.networkUnreachable, "Network is unreachable"⟩
    | connected => if maxPayload < length then some ⟨.uncategorized, "Message too long"⟩ else none

def carries (link : Link) (length : Nat) : Bool :=
  (link.refusal? length).isNone

def delivered (link : Link) (sent : List Transmission) : List Transmission :=
  sent.filter fun transmission => link.carries transmission.packet.encode.length

end Link

end Tftp
