import Tftp.Client.Partial
import Tftp.Transfer.Run

namespace Tftp

structure ClientConfig where
  server : Endpoint
  mode : Mode := .octet
  options : Options := {}
deriving DecidableEq, Repr

/-- What is done with files once the transfer is over. -/
inductive Client.Ending where
  | keep
  | replace (gathered dest : String)
deriving DecidableEq, Repr

/-- The requesting side. The answer to the request fixes the peer. If it is an OACK, its options are adopted before
the first block moves, otherwise it already belongs to the block exchange. -/
structure Client where
  run : Run
  requesting : Bool
  ending : Client.Ending := .keep

namespace Client

def result? (client : Client) : Option (Except TransferFailure Unit) :=
  match client.run.stage with
  | .waiting _ => none
  | .ended result => some result

def initialBlockSize : Nat := Options.Known.blksize.default

/-- The files after the transfer, and its result then. -/
def Ending.apply (disk : Disk) (result : Except TransferFailure Unit) :
    Ending → Disk × Except TransferFailure Unit
  | keep => (disk, result)
  | replace gathered dest =>
    match result with
    | .ok () =>
      match disk.rename gathered dest with
      | .ok disk => (disk, .ok ())
      | .error fault => (disk, .error (.fault fault))
    | .error failure => (disk.remove gathered, .error failure)

def settle (disk : Disk) (client : Client) : Disk × Client :=
  match client.run.stage with
  | .waiting _ => (disk, client)
  | .ended result =>
    let (disk, result) := client.ending.apply disk result
    (disk, { client with run := { client.run with stage := .ended result }, ending := .keep })

def transmit (link : Link) (stopped : Bool) (config : ClientConfig) (disk : Disk) (path : String)
    (request : Packet) (phase : Phase) (party : Block.Party) (ending : Ending) :
    Move (Disk × Client) :=
  let session := Session.connect config.server config.options.validate.timeout
  let transfer : Transfer := { session, phase, path, options := Options.defaults }
  let stage :=
    if stopped then { state := (transfer, .ended (.error .cancelled)) }
    else Stage.exchange link transfer (some request)
  stage.map fun next => settle disk { run := .ofStage party next, requesting := true, ending }

def downloadTo (link : Link) (stopped : Bool) (config : ClientConfig) (disk : Disk)
    (remote : String) (sink : Sink) (ending : Ending) : Move (Disk × Client) :=
  let request := Packet.readRequest remote config.mode.name config.options.fields
  transmit link stopped config disk remote request .sentReadRequest
    (.receiving sink config.mode initialBlockSize) ending

/-- Downloads into a file. The blocks are gathered in a file beside it. -/
def download (link : Link) (stopped : Bool) (config : ClientConfig) (disk : Disk)
    (remote dest : String) : Except TransferFailure (Move (Disk × Client)) :=
  match partialPath dest with
  | .error fault => .error (.fault fault)
  | .ok gathered =>
    match disk.create gathered with
    | .error fault => .error (.fault fault)
    | .ok (disk, id) =>
      .ok (downloadTo link stopped config disk remote (.file id 0) (.replace gathered dest))

/-- Uploads what a source gives. -/
def upload (link : Link) (stopped : Bool) (config : ClientConfig) (options : Options) (disk : Disk)
    (source : Source) (remote : String) : Move (Disk × Client) :=
  let request := Packet.writeRequest remote config.mode.name options.fields
  transmit link stopped config disk remote request .sentWriteRequest
    (.sending source config.mode initialBlockSize) .keep

def sizedOptions (options : Options) (size : Nat) : Options :=
  if options.names Options.Known.tsize.name then
    options.insert Options.Known.tsize.name (toString size)
  else options

def uploadFile (link : Link) (stopped : Bool) (config : ClientConfig) (disk : Disk)
    (src remote : String) : Except TransferFailure (Move (Disk × Client)) :=
  match disk.openRead src with
  | .error fault => .error (.fault fault)
  | .ok node =>
    let options := sizedOptions config.options (disk.nodeSize node)
    .ok (upload link stopped config options disk (.ofNode node) remote)

/-- The first answer to the request. -/
def onReply (link : Link) (stopped : Bool) (disk : Disk) (reply : Packet) (run : Run) :
    Move (Disk × Run) :=
  let transfer := { run.transfer with phase := .dataTransfer }
  match reply with
  | .optionAck fields =>
    let negotiated := (Options.ofFields fields).validate
    let (disk, party, action) := (run.party.setBlockSize negotiated.blockSize).start disk
    (Run.start link stopped (transfer.setOptions negotiated) party action).map fun run => (disk, run)
  | reply => { run with transfer }.onPacket link stopped disk reply

def onDatagram (link : Link) (stopped : Bool) (disk : Disk) (datagram : Datagram)
    (client : Client) : Move (Disk × Client) :=
  let move :=
    if client.requesting then
      client.run.receive disk datagram (onReply link stopped)
    else client.run.onDatagram link stopped disk datagram
  move.map fun (disk, run) => settle disk { client with run, requesting := false }

def onTimeout (link : Link) (disk : Disk) (client : Client) : Move (Disk × Client) :=
  (client.run.onTimeout link).map fun run => settle disk { client with run }

end Client

end Tftp
