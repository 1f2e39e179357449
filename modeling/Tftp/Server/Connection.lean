import Tftp.Server.Admission
import Tftp.Transfer.Run

namespace Tftp

inductive Connection.State where
  | running (run : Run)
  | ended (result : Except TransferFailure Unit)

/-- The transfer that serves one admitted request. It checks the request against the files, opens with an OACK if any
option was accepted and with DATA 1 or ACK 0 otherwise, and leaves no file behind when an upload does not complete. -/
structure Connection where
  state : Connection.State
  file : String
  /-- Whether the connection has made that file and answers for it. -/
  created : Bool := false

namespace Connection

def isRunning (connection : Connection) : Bool :=
  match connection.state with
  | .running _ => true
  | .ended _ => false

def settle (disk : Disk) (file : String) (created : Bool) (run : Run) : Disk × Connection :=
  match run.stage with
  | .waiting _ => (disk, { state := .running run, file, created })
  | .ended (.ok ()) => (disk, { state := .ended (.ok ()), file, created })
  | .ended (.error failure) =>
    let disk := if created then disk.remove file else disk
    (disk, { state := .ended (.error failure), file })

def refuse (disk : Disk) (admission : Admission) (code : ErrorCode) : Move (Disk × Connection) :=
  (admission.transfer.failWith code).finish.map fun (_, result) =>
    (disk, { state := .ended result, file := admission.file })

/-- Starts the block exchange, with an OACK if `accepted` holds options. -/
def begin (link : Link) (disk : Disk) (admission : Admission) (transfer : Transfer)
    (created : Bool) (party : Block.Party) : Move (Disk × Connection) :=
  let accepted := transfer.options.accepted
  let (disk, party, action) :=
    if transfer.options.anyAccepted then (disk, party, .send (.optionAck accepted.fields))
    else party.start disk
  (Run.start link false { transfer with phase := .dataTransfer } party action).map
    (settle disk admission.file created)

/-- The code for a file that cannot be opened: whatever has no code of its own is not found. -/
def openCode (fault : Fault) : ErrorCode :=
  let code := ErrorCode.ofFault fault.kind
  if code = .undefined then .fileNotFound else code

def serveDownload (link : Link) (disk : Disk) (admission : Admission) (mode : Mode) :
    Move (Disk × Connection) :=
  let options := admission.transfer.options
  match disk.openRead admission.file with
  | .error fault => refuse disk admission (openCode fault)
  | .ok node =>
    let party := Block.Party.sending (.ofNode node) mode options.blockSize
    if options.anyAccepted then
      if admission.sizeRequested then
        match disk.size admission.file with
        | .error _ => refuse disk admission .fileNotFound
        | .ok size =>
          let options := options.setAccepted Options.Known.tsize.name size
          begin link disk admission (admission.transfer.setOptions options) false party
      else begin link disk admission (admission.transfer.setOptions options) false party
    else begin link disk admission admission.transfer false party

def serveUpload (link : Link) (disk : Disk) (admission : Admission) (mode : Mode) :
    Move (Disk × Connection) :=
  if !admission.allowWrites then refuse disk admission .accessViolation
  else if disk.pathExists admission.file then refuse disk admission .fileAlreadyExists
  else
    match disk.createNew admission.file with
    | .error fault =>
      refuse disk admission
        (if fault.kind = .alreadyExists then .fileAlreadyExists else .accessViolation)
    | .ok (disk, id) =>
      begin link disk admission admission.transfer true
        (.receiving (.file id 0) mode admission.transfer.options.blockSize)

def serve (link : Link) (disk : Disk) (admission : Admission) : Move (Disk × Connection) :=
  match Mode.parse? admission.mode with
  | none => refuse disk admission .illegalOperation
  | some mode =>
    match admission.direction with
    | .download => serveDownload link disk admission mode
    | .upload => serveUpload link disk admission mode

def onDatagram (link : Link) (disk : Disk) (datagram : Datagram) (connection : Connection) :
    Move (Disk × Connection) :=
  match connection.state with
  | .ended _ => { state := (disk, connection) }
  | .running run =>
    (run.onDatagram link false disk datagram).map fun (disk, run) =>
      settle disk connection.file connection.created run

def onTimeout (link : Link) (disk : Disk) (connection : Connection) : Move (Disk × Connection) :=
  match connection.state with
  | .ended _ => { state := (disk, connection) }
  | .running run =>
    (run.onTimeout link).map (settle disk connection.file connection.created)

/-- The server goes away: the client is told, and an unfinished upload is removed. -/
def onShutdown (disk : Disk) (connection : Connection) : Move (Disk × Connection) :=
  match connection.state with
  | .ended _ => { state := (disk, connection) }
  | .running run =>
    (run.transfer.abort .undefined "Server shutting down").map fun transfer =>
      settle disk connection.file connection.created
        { run with transfer, stage := .ended (.error .cancelled) }

end Connection

end Tftp
