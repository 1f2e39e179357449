import Tftp.Net.Link
import Tftp.Session.Failure

namespace Tftp

/-- Until the first datagram comes in, only the place is known that the request went to. Whoever answers first is the
peer from then on. -/
inductive Peer where
  | unconfirmed (endpoint : Endpoint)
  | fixed (endpoint : Endpoint)
deriving DecidableEq, Repr

def Peer.endpoint : Peer → Endpoint
  | unconfirmed endpoint | fixed endpoint => endpoint

structure Session where
  peer : Peer
  timeout : Nat
deriving DecidableEq, Repr

namespace Session

def connect (server : Endpoint) (timeout : Nat) : Session :=
  ⟨.unconfirmed server, timeout⟩

def accept (client : Endpoint) (timeout : Nat) : Session :=
  ⟨.fixed client, timeout⟩

/-- Checks where a datagram comes from. -/
def recognize (session : Session) (source : Endpoint) : Except ExchangeFailure Session :=
  match session.peer with
  | .unconfirmed _ => .ok { session with peer := .fixed source }
  | .fixed endpoint => if endpoint = source then .ok session else .error (.wrongPeer source)

/-- Reads a datagram. The octets of a stranger are not looked at. -/
def read (session : Session) (datagram : Datagram) : Session × Except ExchangeFailure Packet :=
  match session.recognize datagram.source with
  | .error failure => (session, .error failure)
  | .ok session =>
    match Packet.decode datagram.bytes with
    | .ok packet => (session, .ok packet)
    | .error malformation => (session, .error (.malformed malformation.message))

def address (session : Session) (packet : Packet) : Transmission :=
  ⟨session.peer.endpoint, packet⟩

def send (link : Link) (packet : Packet) : Except ExchangeFailure Unit :=
  match link.refusal? packet.encode.length with
  | some fault => .error (.ofFault fault)
  | none => .ok ()

end Session

end Tftp
