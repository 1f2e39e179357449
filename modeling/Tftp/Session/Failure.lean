import Tftp.Fault
import Tftp.Net.Endpoint
import Tftp.Packet.ErrorCode

namespace Tftp

inductive ExchangeFailure where
  | timeout
  | malformed (detail : String)
  | wrongPeer (source : Endpoint)
  | fault (fault : Fault)
deriving DecidableEq, Repr

namespace ExchangeFailure

/-- A socket that only ran out of time counts as a timeout. -/
def ofFault (fault : Fault) : ExchangeFailure :=
  match fault.kind with
  | .wouldBlock | .timedOut => timeout
  | _ => .fault fault

def message : ExchangeFailure → String
  | timeout => "Socket IO timeout"
  | malformed detail => "Packet parsing error: " ++ detail
  | wrongPeer source => "Packet received from unexpected peer " ++ source.text
  | fault f => "Socket IO error: " ++ f.text

def code : ExchangeFailure → ErrorCode
  | timeout => .undefined
  | malformed _ => .illegalOperation
  | wrongPeer _ => .unknownTransfer
  | fault _ => .undefined

def wireMessage : ExchangeFailure → String
  | timeout => "Timeout"
  | failure => failure.code.message

end ExchangeFailure

end Tftp
