import Tftp.Server.Connection

namespace Tftp

/-- The payload of the block that is due, if this packet brings one that can be stored. -/
def Block.Receiver.due? (packet : Packet) (receiver : Receiver) : Option Bytes :=
  match packet with
  | .data block payload =>
    match order block (receiver.current + 1) with
    | .expected => if receiver.blockSize < payload.length then none else some payload
    | _ => none
  | _ => none

theorem Block.Receiver.onPacket_due {receiver : Receiver} {packet : Packet} {payload : Bytes}
    (disk : Disk) (h : receiver.due? packet = some payload) :
    receiver.onPacket disk packet = receiver.accept disk payload ∧ ¬receiver.blockSize < payload.length := by
  cases packet with
  | data block bytes =>
    simp only [due?] at h
    split at h
    · next ho =>
      split at h
      · cases h
      next hle =>
      cases h
      exact ⟨by simp only [onPacket, onData, ho], hle⟩
    · cases h
  | _ => cases h

theorem Block.Receiver.onPacket_idle {receiver : Receiver} {packet : Packet} (disk : Disk)
    (h : receiver.due? packet = none) :
    ∃ action, receiver.onPacket disk packet = (disk, receiver, action) ∧
      (action = .send (.ack receiver.current) ∨ action = .refuse ∨
        ∃ code message, action = .peerError code message) := by
  cases packet with
  | data block bytes =>
    simp only [due?] at h
    simp only [onPacket, onData]
    split at h
    · next ho =>
      split at h
      · next hlong => exact ⟨_, by rw [ho, accept, if_pos hlong], .inr (.inl rfl)⟩
      · cases h
    · next hne =>
      cases ho : order block (receiver.current + 1) with
      | expected => exact absurd ho hne
      | behind => exact ⟨_, rfl, .inl rfl⟩
      | ahead => exact ⟨_, rfl, .inr (.inl rfl)⟩
  | error code message => exact ⟨_, rfl, .inr (.inr ⟨code, message, rfl⟩)⟩
  | _ => exact ⟨_, rfl, .inr (.inl rfl)⟩

/-- What a connection does next. -/
inductive ConnectionTask.Pause where
  | admitted
  | refusing (code : ErrorCode)
  | vacant (mode : Mode)
  | opened (mode : Mode) (node : Node)
  | ready (transfer : Transfer) (party : Block.Party)
  | waiting (transfer : Transfer) (party : Block.Party) (exchange : Exchange)
  | storing (transfer : Transfer) (receiver : Block.Receiver) (payload : Bytes)
  | releasing (transfer : Transfer) (receiver : Block.Receiver) (payload : Bytes)
  | flushing (transfer : Transfer) (receiver : Block.Receiver) (payload : Bytes)
  /-- Act on what the block exchange asks for. `fresh` is the payload that is acknowledged with it. -/
  | acting (transfer : Transfer) (party : Block.Party) (action : Block.Action) (fresh : Option Bytes)
  | failed (failure : TransferFailure)
  | ended (result : Except TransferFailure Unit)

/-- A connection in small steps. It pauses before each operation on a file and before each packet that it sends, so
that others can come in between. Reading changes no file, and a block is read in one step. -/
structure ConnectionTask where
  admission : Admission
  pause : ConnectionTask.Pause := .admitted
  /-- Whether the connection answers for a file that it has made. -/
  created : Bool := false
  /-- The file that it has made, whatever has become of it. -/
  made : Option FileId := none
  acknowledged : List Bytes := []

inductive ConnectionTask.Event where
  | proceed (link : Link)
  | datagram (datagram : Datagram)
  | timeout (link : Link)
  | cancel

namespace ConnectionTask

def Pause.ofNext (party : Block.Party) (next : Transfer × Stage) : Pause :=
  match next.2 with
  | .waiting exchange => waiting next.1 party exchange
  | .ended (.ok ()) => ended (.ok ())
  | .ended (.error failure) => failed failure

def transfer (task : ConnectionTask) : Transfer :=
  match task.pause with
  | .ready transfer _ | .waiting transfer _ _ | .storing transfer _ _ | .releasing transfer _ _
  | .flushing transfer _ _ | .acting transfer _ _ _ => transfer
  | _ => task.admission.transfer

def look (disk : Disk) (task : ConnectionTask) : Pause :=
  match Mode.parse? task.admission.mode with
  | none => .refusing .illegalOperation
  | some mode =>
    match task.admission.direction with
    | .download =>
      match disk.openRead task.admission.file with
      | .error fault => .refusing (Connection.openCode fault)
      | .ok node => .opened mode node
    | .upload =>
      if !task.admission.allowWrites then .refusing .accessViolation
      else if disk.pathExists task.admission.file then .refusing .fileAlreadyExists
      else .vacant mode

def make (disk : Disk) (mode : Mode) (task : ConnectionTask) : Disk × ConnectionTask :=
  match disk.createNew task.admission.file with
  | .error fault =>
    (disk, { task with
      pause := .refusing (if fault.kind = .alreadyExists then .fileAlreadyExists else .accessViolation) })
  | .ok (disk, id) =>
    let transfer := task.admission.transfer
    (disk, { task with
      pause := .ready transfer (.receiving (.file id 0) mode transfer.options.blockSize)
      created := true
      made := some id })

def measure (disk : Disk) (mode : Mode) (node : Node) (task : ConnectionTask) : Pause :=
  let transfer := task.admission.transfer
  let options := transfer.options
  let party := Block.Party.sending (.ofNode node) mode options.blockSize
  if options.anyAccepted then
    if task.admission.sizeRequested then
      match disk.size task.admission.file with
      | .error _ => .refusing .fileNotFound
      | .ok size =>
        .ready (transfer.setOptions (options.setAccepted Options.Known.tsize.name size)) party
    else .ready (transfer.setOptions options) party
  else .ready transfer party

def opening (disk : Disk) (transfer : Transfer) (party : Block.Party) : Pause :=
  let (_, party, action) :=
    if transfer.options.anyAccepted then
      (disk, party, .send (.optionAck transfer.options.accepted.fields))
    else party.start disk
  .acting { transfer with phase := .dataTransfer } party action none

def store (disk : Disk) (transfer : Transfer) (receiver : Block.Receiver) (payload : Bytes) : Disk × Pause :=
  match receiver.store.write disk payload with
  | (disk, store, .error fault) =>
    (disk, .acting transfer (.receiver { receiver with store }) (.fail fault) none)
  | (disk, store, .ok ()) =>
    let receiver := { receiver with store, current := receiver.current + 1 }
    if payload.length < receiver.blockSize then (disk, .releasing transfer receiver payload)
    else (disk, .acting transfer (.receiver receiver) (.send (.ack receiver.current)) (some payload))

def release (disk : Disk) (transfer : Transfer) (receiver : Block.Receiver) (payload : Bytes) :
    Disk × Pause :=
  let (store, bytes) := receiver.store.release
  match store.put disk bytes with
  | (disk, store, .error fault) =>
    (disk, .acting transfer (.receiver { receiver with store }) (.fail fault) none)
  | (disk, store, .ok ()) => (disk, .flushing transfer { receiver with store } payload)

def flush (disk : Disk) (transfer : Transfer) (receiver : Block.Receiver) (payload : Bytes) : Disk × Pause :=
  match receiver.store.sink.flush disk with
  | (disk, .error fault) => (disk, .acting transfer (.receiver receiver) (.fail fault) none)
  | (disk, .ok ()) =>
    (disk, .acting transfer (.receiver receiver) (.terminate (.ack receiver.current)) (some payload))

/-- A datagram that was waited for. A block that is due is written in a step of its own. -/
def take (disk : Disk) (datagram : Datagram) (transfer : Transfer) (party : Block.Party) : Pause :=
  let (session, result) := transfer.session.read datagram
  let transfer := { transfer with session }
  match result with
  | .error failure => .acting transfer party (.terminate (.error failure.code failure.wireMessage)) none
  | .ok packet =>
    let (_, next, action) := party.onPacket disk packet
    match party with
    | .sender _ => .acting transfer next action none
    | .receiver receiver =>
      match receiver.due? packet with
      | some payload => .storing transfer receiver payload
      | none => .acting transfer next action none

def stay (disk : Disk) (task : ConnectionTask) : Move (Disk × ConnectionTask) :=
  { state := (disk, task) }

def rest (task : ConnectionTask) (next : Disk × Pause) : Move (Disk × ConnectionTask) :=
  { state := (next.1, { task with pause := next.2 }) }

def proceed (link : Link) (disk : Disk) (task : ConnectionTask) : Move (Disk × ConnectionTask) :=
  match task.pause with
  | .admitted => task.rest (disk, task.look disk)
  | .refusing code =>
    (task.admission.transfer.failWith code).finish.map fun (_, result) =>
      (disk, { task with pause := .ended result })
  | .vacant mode => { state := task.make disk mode }
  | .opened mode node => task.rest (disk, task.measure disk mode node)
  | .ready transfer party => task.rest (disk, opening disk transfer party)
  | .waiting .. => task.stay disk
  | .storing transfer receiver payload => task.rest (store disk transfer receiver payload)
  | .releasing transfer receiver payload => task.rest (release disk transfer receiver payload)
  | .flushing transfer receiver payload => task.rest (flush disk transfer receiver payload)
  | .acting transfer party action fresh =>
    (Stage.act link false transfer action).map fun next => (disk, { task with
      pause := .ofNext party next
      acknowledged := task.acknowledged ++ fresh.toList })
  | .failed failure =>
    { state := (if task.created then disk.remove task.admission.file else disk,
        { task with pause := .ended (.error failure), created := false }) }
  | .ended _ => task.stay disk

def onDatagram (disk : Disk) (datagram : Datagram) (task : ConnectionTask) : Move (Disk × ConnectionTask) :=
  match task.pause with
  | .waiting transfer party _ => task.rest (disk, take disk datagram transfer party)
  | _ => task.stay disk

def onTimeout (link : Link) (disk : Disk) (task : ConnectionTask) : Move (Disk × ConnectionTask) :=
  match task.pause with
  | .waiting transfer party exchange =>
    (Stage.expire link transfer (.waiting exchange)).map fun next =>
      (disk, { task with pause := .ofNext party next })
  | _ => task.stay disk

/-- Whatever goes on is given up. A file is taken away in a step of its own. -/
def onCancel (disk : Disk) (task : ConnectionTask) : Move (Disk × ConnectionTask) :=
  match task.pause with
  | .failed _ | .ended _ => task.stay disk
  | _ =>
    (task.transfer.abort .undefined "Server shutting down").map fun _ =>
      (disk, { task with pause := .failed .cancelled })

def step (disk : Disk) (task : ConnectionTask) : Event → Move (Disk × ConnectionTask)
  | .proceed link => task.proceed link disk
  | .datagram datagram => task.onDatagram disk datagram
  | .timeout link => task.onTimeout link disk
  | .cancel => task.onCancel disk

end ConnectionTask

end Tftp
