import Tftp.Session.Failure

namespace Tftp

inductive TransferFailure where
  | remote (reason : String)
  | own (code : ErrorCode) (message : String)
  | cancelled
  | fault (fault : Fault)
deriving DecidableEq, Repr

namespace TransferFailure

def message : TransferFailure → String
  | remote reason => "Transfer aborted by peer: " ++ reason
  | own code message =>
    "Transfer aborted with error " ++ toString code.number.toNat ++ ": " ++ message
  | cancelled => "Transfer cancelled"
  | fault f => "Transfer IO error: " ++ f.text

def ofExchange : ExchangeFailure → TransferFailure
  | .fault f => fault f
  | failure => own failure.code failure.wireMessage

end TransferFailure

end Tftp
