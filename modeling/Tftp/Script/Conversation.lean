import Tftp.Script.Waiting

namespace Tftp.Script

structure Conversation where
  session : Session
  queue : List Datagram := []
deriving DecidableEq, Repr

namespace Conversation

inductive Op where
  | push (number : Nat) (bytes : Bytes)
  | receive
  | exchange (packet : Packet) (send : Bool)
  | send (packet : Packet)
  | validatePeer (number : Nat)
  | setTimeout (milliseconds : Nat)
deriving DecidableEq, Repr

inductive Result where
  | done
  | packet (packet : Packet)
  | failed (failure : ExchangeFailure)
  | timeout (milliseconds : Nat)
deriving DecidableEq, Repr

def Result.ofExcept : Except ExchangeFailure Packet → Result
  | .ok p => packet p
  | .error failure => failed failure

structure Report where
  result : Result
  sent : List Transmission := []
  elapsed : Nat := 0
deriving DecidableEq, Repr

def await (link : Link) (conversation : Conversation) (opened : Move Exchange.Progress) :
    Conversation × Report :=
  let wait := Script.await link conversation.session conversation.queue opened
  ({ session := wait.session, queue := wait.queue },
    { result := .ofExcept wait.result, sent := wait.sent, elapsed := wait.elapsed })

def perform (link : Link) (conversation : Conversation) : Op → Except Fault (Conversation × Report)
  | .push number bytes => do
    let datagram ← post link number bytes
    return ({ conversation with queue := conversation.queue ++ [datagram] }, { result := .done })
  | .receive =>
    return conversation.await link (Exchange.openWindow link conversation.session none 1)
  | .exchange packet send =>
    let repeated := if send then some packet else none
    return conversation.await link
      (Exchange.openWindow link conversation.session repeated Exchange.windows)
  | .send packet =>
    let result := match Session.send link packet with
      | .ok () => Result.done
      | .error failure => .failed failure
    return (conversation, { result, sent := [conversation.session.address packet] })
  | .validatePeer number =>
    match conversation.session.recognize (peer number) with
    | .ok session => return ({ conversation with session }, { result := .done })
    | .error failure => return (conversation, { result := .failed failure })
  | .setTimeout timeout =>
    return ({ conversation with session := { conversation.session with timeout } },
      { result := .timeout timeout })

end Conversation

end Tftp.Script
