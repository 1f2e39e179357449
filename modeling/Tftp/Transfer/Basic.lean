import Tftp.Options.Policy
import Tftp.Session.Exchange
import Tftp.Transfer.Failure

namespace Tftp

inductive Phase where
  | initial
  | sentReadRequest
  | sentWriteRequest
  | receivedReadRequest
  | receivedWriteRequest
  | dataTransfer
  | finalAck
  | error
  | finished
deriving DecidableEq, Repr

structure Transfer where
  session : Session
  phase : Phase
  path : String
  options : Options
  lastPacket : Option Packet := none
  /-- The packet that closes a successful transfer, until it is sent. -/
  finalPacket : Option Packet := none
  pendingError : Option (ErrorCode × String) := none
deriving DecidableEq, Repr

def Options.timeout (options : Options) : Nat :=
  options.timeoutSeconds * 1000

namespace Transfer

def setOptions (transfer : Transfer) (options : Options) : Transfer :=
  { transfer with session := { transfer.session with timeout := options.timeout }, options }

def fail (transfer : Transfer) (code : ErrorCode) (message : String) : Transfer :=
  { transfer with pendingError := some (code, message), phase := .error }

def failWith (transfer : Transfer) (code : ErrorCode) : Transfer :=
  transfer.fail code code.message

def failExchange (transfer : Transfer) (failure : ExchangeFailure) : Transfer :=
  transfer.fail failure.code failure.wireMessage

/-- Begins an exchange with a packet, or only listens and keeps the last packet. A transfer that
has sent no packet yet listens for one window. -/
def exchange (link : Link) (transfer : Transfer) :
    Option Packet → Move (Transfer × Exchange.Progress)
  | some packet =>
    let transfer := { transfer with lastPacket := some packet }
    (Exchange.openWindow link transfer.session (some packet) Exchange.windows).map (transfer, ·)
  | none =>
    let windows := if transfer.lastPacket.isSome then Exchange.windows else 1
    (Exchange.openWindow link transfer.session none windows).map (transfer, ·)

/-- Sends what closes the transfer, once and without waiting for an answer. -/
def finish (transfer : Transfer) : Move (Transfer × Except TransferFailure Unit) :=
  match transfer.pendingError with
  | some (code, message) =>
    { state := ({ transfer with pendingError := none, phase := .error }, .error (.own code message))
      sent := [transfer.session.address (.error code message)] }
  | none =>
    { state := ({ transfer with finalPacket := none, phase := .finished }, .ok ())
      sent := transfer.finalPacket.toList.map transfer.session.address }

def abort (transfer : Transfer) (code : ErrorCode) (message : String) : Move Transfer :=
  { state := { transfer with phase := .error }
    sent := [transfer.session.address (.error code message)] }

end Transfer

end Tftp
