import Tftp.Net.Link

namespace Tftp.Script

def localhost : Ip := .v4 127 0 0 1

def peer (number : Nat) : Endpoint :=
  { ip := localhost, port := (30000 + number).toUInt16 }

structure Arrival (ω : Type) where
  peer : Nat
  origin : ω
  bytes : Bytes
deriving DecidableEq, Repr

def arrivals {ω : Type} (link : Link) (peers : Nat) (sent : List (ω × Transmission)) :
    List (Arrival ω) :=
  let carried := sent.map (fun (origin, t) => (origin, t.destination, t.packet.encode))
    |>.filter fun (_, _, bytes) => link.carries bytes.length
  (List.range peers).flatMap fun number =>
    carried.filterMap fun (origin, destination, bytes) =>
      if destination = peer number then some { peer := number, origin, bytes } else none

/-- A datagram that a peer sends. A script cannot go on if it does not leave. -/
def post (link : Link) (number : Nat) (bytes : Bytes) : Except Fault Datagram :=
  match link.refusal? bytes.length with
  | some fault => .error fault
  | none => .ok ⟨peer number, bytes⟩

def pause : Nat := 10

end Tftp.Script
