import Tftp.Client.Basic
import Tftp.Proofs.FileChanges
import Tftp.Proofs.Lockstep
import Tftp.Server.Connection

namespace Tftp

def Direction.request (direction : Direction) (path mode : String) (fields : List OptionField) : Packet :=
  match direction with
  | download => .readRequest path mode fields
  | upload => .writeRequest path mode fields

theorem Run.start_send (transfer : Transfer) (party : Block.Party) (packet : Packet)
    (h : packet.encode.length ≤ Link.maxPayload) :
    Run.start .connected false transfer party (.send packet) =
      { state :=
          { transfer := { transfer with lastPacket := some packet }, party
            stage := .waiting { repeated := some packet, left := 2 } }
        sent := [⟨transfer.session.peer.endpoint, packet⟩] } := by
  simp only [Run.start, Stage.act, Stage.exchange_fits transfer packet h]
  rfl

theorem Block.Party.start_sending {disk : Disk} {source : Source} {content : Bytes} (mode : Mode) {size : Nat}
    (hs : 0 < size) (h : source.Delivers disk content) :
    ∃ next, (sending source mode size).start disk = (disk, .sender next,
        .send (.data (.ofNat 1) (payload size (mode.wireForm content) 1))) ∧
      next.At disk mode size (mode.wireForm content) 1 := by
  obtain ⟨next, hnext, hat⟩ := Sender.onAck_due hs (Sender.at_zero h) (Nat.succ_pos _)
  refine ⟨next, ?_, hat⟩
  change (disk, Party.sender (Sender.onAck disk (.ofNat 0) _).1, (Sender.onAck disk (.ofNat 0) _).2) = _
  rw [hnext]

structure Admission.Admits (config : ServerConfig) (client : Endpoint) (direction : Direction)
    (mode : Mode) (file : String) (fields : List OptionField) (admission : Admission) : Prop where
  peer : admission.transfer.session.peer = .fixed client
  fresh : admission.transfer.pendingError = none
  options : admission.transfer.options = (Options.ofFields fields).validate
  direction : admission.direction = direction
  file : admission.file = file
  mode : Mode.parse? admission.mode = some mode
  allowWrites : admission.allowWrites = config.allowWrites

theorem Mode.parse?_name (mode : Mode) : Mode.parse? mode.name = some mode := by
  cases mode <;> decide

theorem Mode.plain_name (mode : Mode) : Plain mode.name := by
  cases mode <;> decide

theorem Direction.request_plain (direction : Direction) (mode : Mode) {path : String}
    {fields : List OptionField} (hp : Plain path) (hf : ∀ field ∈ fields, field.Plain) :
    (direction.request path mode.name fields).Plain := by
  cases direction with
  | download => exact ⟨hp, mode.plain_name, hf⟩
  | upload => exact ⟨hp, mode.plain_name, hf⟩

theorem Admission.ofDatagram_request (config : ServerConfig) (ports : Admission.Ports)
    (client : Endpoint) (direction : Direction) (path : String) (mode : Mode)
    (fields : List OptionField) (file : String) (hp : Plain path) (hf : ∀ field ∈ fields, field.Plain)
    (hc : confine config.root path = .ok file) (hs : Admission.socketFault? config ports = none) :
    ∃ admission, Admission.ofDatagram config ports
        ⟨client, (direction.request path mode.name fields).encode⟩ = .ok admission ∧
      admission.Admits config client direction mode file fields := by
  have hplain := direction.request_plain mode hp hf
  have hof : Admission.ofPacket config ports client (direction.request path mode.name fields) =
      Admission.ofRequest config ports client direction path mode.name fields := by
    cases direction <;> rfl
  simp only [Admission.ofDatagram, Packet.decode_encode _ hplain, hof, Admission.ofRequest, hc, hs]
  exact ⟨_, rfl, rfl, rfl, rfl, rfl, rfl, mode.parse?_name, rfl⟩

namespace Connection

theorem begin_send (disk disk' : Disk) (admission : Admission) (transfer : Transfer) (created : Bool)
    (party party' : Block.Party) (packet : Packet)
    (h : (if transfer.options.anyAccepted then
        (disk, party, .send (.optionAck transfer.options.accepted.fields))
      else party.start disk) = (disk', party', Block.Action.send packet))
    (hfits : packet.encode.length ≤ Link.maxPayload) :
    begin .connected disk admission transfer created party =
      { state := (disk', {
          state := .running {
            transfer := { transfer with phase := .dataTransfer, lastPacket := some packet }
            party := party'
            stage := .waiting { repeated := some packet, left := 2 } }
          file := admission.file
          created })
        sent := [⟨transfer.session.peer.endpoint, packet⟩] } := by
  simp only [begin, h, Run.start_send _ _ packet hfits]
  rfl

variable {admission : Admission}

theorem serveDownload_begins (mode : Mode) (disk : Disk) (id : FileId)
    (hopen : disk.openRead admission.file = .ok (.file id)) (hsize : (disk.content id).size < UInt64.size)
    {x y z : Options.Entry} (hopt : admission.transfer.options = ⟨[x, y, z]⟩)
    (hs : Options.Settled x y z) :
    ∃ (transfer : Transfer) (z' : Options.Entry),
      serveDownload .connected disk admission mode =
        begin .connected disk admission transfer false (.sending (.file id 0) mode x.value) ∧
      transfer.options = ⟨[x, y, z']⟩ ∧ Options.Settled x y z' ∧
      transfer.session.peer = admission.transfer.session.peer := by
  have hb : admission.transfer.options.blockSize = x.value := by
    rw [hopt, Options.blockSize_settled hs]
  have hnode : disk.size admission.file = .ok (disk.content id).size := Disk.size_of_openRead hopen
  obtain ⟨z', hset, hs'⟩ := Options.setAccepted_settled hs (disk.content id).size hsize
  cases hany : admission.transfer.options.anyAccepted with
  | false =>
    refine ⟨admission.transfer, z, ?_, hopt, hs, rfl⟩
    simp [serveDownload, hopen, hany, hb, Source.ofNode]
  | true =>
    cases hreq : admission.sizeRequested with
    | false =>
      refine ⟨admission.transfer.setOptions admission.transfer.options, z, ?_, hopt, hs, rfl⟩
      simp [serveDownload, hopen, hany, hreq, hb, Source.ofNode]
    | true =>
      refine ⟨admission.transfer.setOptions (admission.transfer.options.setAccepted
        Options.Known.tsize.name (disk.content id).size), z', ?_, ?_, hs', rfl⟩
      · simp [serveDownload, hopen, hany, hreq, hb, Source.ofNode, hnode]
      · rw [hopt, hset]
        rfl

variable {config : ServerConfig} {client : Endpoint} {mode : Mode} {file : String}
  {fields : List OptionField} {size : Nat}

/-- A download of a file opens with an OACK, or with DATA 1 in blocks of the default size. -/
theorem serve_download (h : admission.Admits config client .download mode file fields) (disk : Disk)
    (id : FileId) {wire : Bytes} (hopen : disk.openRead file = .ok (.file id))
    (hsize : (disk.content id).size < UInt64.size) (hb : (Options.ofFields fields).validate.blockSize = size)
    (hw : mode.wireForm (disk.content id).toList = wire) :
    ∃ run answer, serve .connected disk admission =
        { state := (disk, { state := .running run, file }), sent := [⟨client, answer⟩] } ∧
      ((∃ accepted, answer = .optionAck accepted ∧ Options.Adopts accepted size ∧
          run.Sending disk mode size wire client 0) ∨
        answer = .data (.ofNat 1) (Block.payload size wire 1) ∧
          size = Options.Known.blksize.default ∧ run.Sending disk mode size wire client 1) := by
  obtain ⟨x, y, z, hv, hsettled⟩ := Options.validate_settled (Options.ofFields fields)
  have hx : x.value = size := by
    rw [← hb, hv, Options.blockSize_settled hsettled]
  obtain ⟨transfer, z', hbegins, hopt, hs, hpeer⟩ :=
    serveDownload_begins mode disk id (h.file ▸ hopen) hsize (h.options.trans hv) hsettled
  have hclient : transfer.session.peer = .fixed client := hpeer.trans h.peer
  have hdelivers : (Source.file id 0).Delivers disk (disk.content id).toList := rfl
  have hat : ({ cutter := { source := .file id 0, mode }, blockSize := size } : Block.Sender).At
      disk mode size wire 0 := hw ▸ Block.Sender.at_zero hdelivers
  have hserve : serve .connected disk admission = begin .connected disk admission transfer false
      (.sending (.file id 0) mode size) := by
    simp only [serve, h.mode, h.direction, hbegins, hx]
  rw [hserve]
  cases hany : transfer.options.anyAccepted with
  | true =>
    have hadopts := Options.adopts_accepted hs
    rw [← hopt, hx] at hadopts
    rw [begin_send disk disk admission transfer false _ (.sending (.file id 0) mode size)
      (.optionAck transfer.options.accepted.fields) (by rw [hany, if_pos rfl]) hadopts.fits, h.file, hclient]
    exact ⟨_, _, rfl, .inl ⟨_, rfl, hadopts, ⟨_, rfl, hat⟩, ⟨_, rfl⟩, hclient⟩⟩
  | false =>
    have hbounds := Options.blockSize_within (Options.ofFields fields)
    rw [hb] at hbounds
    obtain ⟨next, hstart, hat'⟩ := Block.Party.start_sending mode hbounds.1 hdelivers
    rw [hw] at hstart hat'
    rw [begin_send disk disk admission transfer false _ (.sender next) _
      (by rw [hany, if_neg (by decide), hstart]) (Packet.data_fits hbounds.2 wire _ 1), h.file, hclient]
    have hdefault : size = Options.Known.blksize.default := by
      rw [hopt] at hany
      rw [← hx, Options.value_of_none_accepted hs hany]
    exact ⟨_, _, rfl, .inr ⟨rfl, hdefault, ⟨next, rfl, hat'⟩, ⟨_, rfl⟩, hclient⟩⟩

theorem serveUpload_begins (h : admission.Admits config client .upload mode file fields)
    (hwrites : config.allowWrites = true) (disk : Disk) (place : Place) (hname : disk.Names file place)
    (haccess : disk.access place = .ok ()) (hvacant : disk.node? place = none) :
    serve .connected disk admission = begin .connected (disk.addFile place).1 admission admission.transfer true
      (.receiving (.file disk.contents.size 0) mode admission.transfer.options.blockSize) := by
  have hallow : admission.allowWrites = true := h.allowWrites.trans hwrites
  have hexists : disk.pathExists admission.file = false := by
    rw [h.file, Disk.pathExists_eq hname, hvacant]
    rfl
  have hcreate : disk.createNew admission.file = .ok (disk.addFile place) := by
    rw [h.file, Disk.createNew_eq hname haccess hvacant]
  simp only [serve, h.mode, h.direction, serveUpload, hallow, hexists, hcreate]
  rfl

/-- An upload to a name that is free opens with an OACK, or with ACK 0 in blocks
of the default size. -/
theorem serve_upload (h : admission.Admits config client .upload mode file fields)
    (hwrites : config.allowWrites = true) (disk : Disk) (place : Place) (wire : Bytes) (hname : disk.Names file place)
    (haccess : disk.access place = .ok ()) (hvacant : disk.node? place = none) (hcalm : disk.Calm)
    (hb : (Options.ofFields fields).validate.blockSize = size) :
    ∃ run answer, serve .connected disk admission =
        { state := ((disk.addFile place).1, { state := .running run, file, created := true })
          sent := [⟨client, answer⟩] } ∧
      run.Receiving (disk.addFile place).1 mode size wire client 0 ∧
      run.party.file? = some disk.contents.size ∧
      ((∃ accepted, answer = .optionAck accepted ∧ Options.Adopts accepted size) ∨
        answer = .ack (.ofNat 0) ∧ size = Options.Known.blksize.default) := by
  obtain ⟨x, y, z, hv, hs⟩ := Options.validate_settled (Options.ofFields fields)
  have hopt : admission.transfer.options = ⟨[x, y, z]⟩ := h.options.trans hv
  have hx : x.value = size := by
    rw [← hb, hv, Options.blockSize_settled hs]
  have hsize : admission.transfer.options.blockSize = size := by
    rw [hopt, Options.blockSize_settled hs, hx]
  have hat : ({ store := .ofMode (.file disk.contents.size 0) mode, blockSize := size } : Block.Receiver).At
      (disk.addFile place).1 mode size wire 0 :=
    Block.Receiver.at_zero ((Disk.made_addFile haccess hvacant).holds hcalm)
  rw [serveUpload_begins h hwrites disk place hname haccess hvacant, hsize]
  cases hany : admission.transfer.options.anyAccepted with
  | true =>
    have hadopts := Options.adopts_accepted hs
    rw [← hopt, hx] at hadopts
    rw [begin_send _ (disk.addFile place).1 admission _ true _
      (.receiving (.file disk.contents.size 0) mode size)
      (.optionAck admission.transfer.options.accepted.fields) (by rw [hany, if_pos rfl]) hadopts.fits, h.file,
      h.peer]
    exact ⟨_, _, rfl, ⟨⟨_, rfl, hat⟩, ⟨_, rfl⟩, h.peer, h.fresh⟩, by cases mode <;> rfl, .inl ⟨_, rfl, hadopts⟩⟩
  | false =>
    have hdefault : size = Options.Known.blksize.default := by
      rw [hopt] at hany
      rw [← hx, Options.value_of_none_accepted hs hany]
    rw [begin_send _ (disk.addFile place).1 admission _ true _
      (.receiving (.file disk.contents.size 0) mode size) (.ack (.ofNat 0))
      (by rw [hany, if_neg (by decide)]; rfl) (Packet.ack_fits _), h.file, h.peer]
    exact ⟨_, _, rfl, ⟨⟨_, rfl, hat⟩, ⟨_, rfl⟩, h.peer, h.fresh⟩, by cases mode <;> rfl, .inr ⟨rfl, hdefault⟩⟩

end Connection

namespace Client

structure Asking (party : Block.Party) (ending : Ending) (client : Client) : Prop where
  requesting : client.requesting = true
  ending : client.ending = ending
  party : client.run.party = party
  stage : ∃ exchange, client.run.stage = .waiting exchange
  peer : ∃ endpoint, client.run.transfer.session.peer = .unconfirmed endpoint
  fresh : client.run.transfer.pendingError = none

theorem transmit_asks (config : ClientConfig) (disk : Disk) (path : String) (request : Packet)
    (phase : Phase) (party : Block.Party) (ending : Ending)
    (h : request.encode.length ≤ Link.maxPayload) :
    ∃ client, transmit .connected false config disk path request phase party ending =
        { state := (disk, client), sent := [⟨config.server, request⟩] } ∧
      client.Asking party ending := by
  simp only [transmit, Bool.false_eq_true, if_false, Stage.exchange_fits _ request h, Move.map]
  exact ⟨_, rfl, rfl, rfl, rfl, ⟨_, rfl⟩, ⟨_, rfl⟩, rfl⟩

structure Moving (source : Endpoint) (party : Block.Party) (ending : Ending) (client : Client) : Prop where
  requesting : client.requesting = false
  ending : client.ending = ending
  party : client.run.party = party
  stage : ∃ exchange, client.run.stage = .waiting exchange
  peer : client.run.transfer.session.peer = .fixed source
  fresh : client.run.transfer.pendingError = none

theorem Asking.hears_optionAck {party party' : Block.Party} {ending : Ending} {client : Client}
    (h : client.Asking party ending) (disk : Disk) (source : Endpoint) (accepted : List OptionField)
    (size : Nat) (ha : Options.Adopts accepted size) (packet : Packet)
    (hs : (party.setBlockSize size).start disk = (disk, party', .send packet))
    (hfits : packet.encode.length ≤ Link.maxPayload) :
    ∃ next, client.onDatagram .connected false disk ⟨source, (Packet.optionAck accepted).encode⟩ =
        { state := (disk, next), sent := [⟨source, packet⟩] } ∧
      next.Moving source party' ending := by
  obtain ⟨hreq, rfl, rfl, ⟨exchange, hw⟩, ⟨endpoint, hpeer⟩, hfresh⟩ := h
  have hdecode := Packet.decode_encode (.optionAck accepted) ha.plain
  simp only [onDatagram, hreq, if_true, Run.receive, hw, Session.read, Session.recognize, hpeer, hdecode,
    onReply, ha.size, hs, Run.start_send _ party' packet hfits, Move.map]
  exact ⟨_, rfl, rfl, rfl, rfl, ⟨_, rfl⟩, rfl, hfresh⟩

end Client

end Tftp
