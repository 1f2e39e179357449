import Tftp.Packet.Basic

namespace Tftp.Block

inductive Action where
  | send (packet : Packet)
  | listen
  /-- End without a packet. A reason is there when the peer gave up. -/
  | close (reason : Option String)
  | terminate (packet : Packet)
deriving DecidableEq, Repr

namespace Action

def peerError (code : ErrorCode) (message : String) : Action :=
  close (some ("Peer sent error packet: code: " ++ toString code.number.toNat
    ++ ", message: '" ++ message ++ "'"))

def refuse : Action :=
  terminate (.standardError .illegalOperation)

def fail (fault : Fault) : Action :=
  terminate (.standardError (.ofFault fault.kind))

end Action

end Tftp.Block
