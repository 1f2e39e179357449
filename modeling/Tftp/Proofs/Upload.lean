import Tftp.Proofs.Confinement
import Tftp.Proofs.OrderedTransfer
import Tftp.Proofs.OrderedOpening

namespace Tftp

namespace Client

/-- The two ways to start an upload, each with the octets to deliver and the options it asks for. -/
inductive Uploads (config : ClientConfig) (disk : Disk) (remote : String) :
    Source → Bytes → Options → Except TransferFailure (Move (Disk × Client)) → Prop where
  | stream (source : Source) (content : Bytes) (h : source.Delivers disk content) :
      Uploads config disk remote source content config.options
        (.ok (upload .connected false config config.options disk source remote))
  | file (src : String) (id : FileId) (h : disk.openRead src = .ok (.file id)) :
      Uploads config disk remote (.file id 0) (disk.content id).toList
        (sizedOptions config.options (disk.content id).size)
        (uploadFile .connected false config disk src remote)

variable {config : ClientConfig} {disk : Disk} {remote : String} {source : Source} {content : Bytes}
  {options : Options} {result : Except TransferFailure (Move (Disk × Client))}

theorem Uploads.delivers (h : Uploads config disk remote source content options result) :
    source.Delivers disk content := by
  cases h with
  | stream _ _ h => exact h
  | file src id h => rfl

theorem sizedOptions_plain (size : Nat) (h : ∀ field ∈ config.options.fields, field.Plain) :
    ∀ field ∈ (sizedOptions config.options size).fields, field.Plain := by
  rw [sizedOptions]
  split
  · exact Options.insert_plain h Options.Known.tsize.plain_name (plain_toString size)
  · exact h

theorem Uploads.plain (h : Uploads config disk remote source content options result)
    (hp : ∀ field ∈ config.options.fields, field.Plain) : ∀ field ∈ options.fields, field.Plain := by
  cases h with
  | stream source content h => exact hp
  | file src id h => exact sizedOptions_plain _ hp

theorem Uploads.asks (h : Uploads config disk remote source content options result)
    (hfits : (Packet.writeRequest remote config.mode.name options.fields).encode.length ≤
      Link.maxPayload) :
    ∃ client, result = .ok {
        state := (disk, client)
        sent := [⟨config.server, .writeRequest remote config.mode.name options.fields⟩] } ∧
      client.Asking (.sending source config.mode initialBlockSize) .keep := by
  obtain ⟨client, hasked, hasking⟩ := transmit_asks config disk remote _ .sentWriteRequest
    (.sending source config.mode initialBlockSize) .keep hfits
  refine ⟨client, ?_, hasking⟩
  rw [← hasked]
  cases h with
  | stream source content h => rfl
  | file src id h => simp only [uploadFile, h, Disk.nodeSize, Source.ofNode, upload]

end Client

namespace OrderedSystem

def Opens (packet : Packet) : Prop :=
  packet = .ack 0 ∨ ∃ accepted, packet = .optionAck accepted

variable {ends : Ends} {ports : Admission.Ports} {mode : Mode}

theorem upload_reaches (system : OrderedSystem) (options : Options) (content : Bytes) (source : Source)
    (base : Disk) (id : FileId) (request answer : Packet) {admission : Admission} {connection : Connection}
    {run : Run}
    (hparcels : system.parcels = [⟨ends.listener, ⟨ends.client, request.encode⟩⟩])
    (hsent : system.serverSent = [])
    (hasking : system.client.Asking (.sending source mode Client.initialBlockSize) .keep)
    (hdelivers : source.Delivers system.clientDisk content)
    (hlistens : system.server.listening = true)
    (ha : Admission.ofDatagram system.server.config ports ⟨ends.client, request.encode⟩ = .ok admission)
    (hs : Connection.serve .connected system.serverDisk admission =
      { state := (base, connection), sent := [⟨ends.client, answer⟩] })
    (hstate : connection.state = .running run)
    (hreceiving : run.Receiving base mode options.validate.blockSize (mode.wireForm content) ends.client 0)
    (hfile : run.party.file? = some id)
    (hanswer : (∃ accepted, answer = .optionAck accepted ∧
          Options.Adopts accepted options.validate.blockSize) ∨
        answer = .ack (.ofNat 0) ∧ options.validate.blockSize = Options.Known.blksize.default) :
    ∃ steps, (TransferPlan.settled ends ports system.server.connections.length .client mode options
        (mode.wireForm content) base id .keep (Host.choose system.clientSent [answer])).At 0
      (system.run ends ports system.server.connections.length steps) := by
  obtain ⟨hasked, hserver⟩ := step_request ports request answer hlistens hparcels ha hs hstate
  obtain ⟨hpos, hle⟩ := Options.blockSize_within options
  have hasking' := hasking
  rw [← hasked.other.2] at hasking'
  have hdelivers' := hdelivers
  rw [← hasked.other.1] at hdelivers'
  have hempty : system.sent .server = [] := hsent
  have hlog := hasked.log.trans (congrArg (· ++ [answer]) hempty)
  -- the second step brings the first block, and leaves the server as it is
  suffices hbegun : Heard ends .client [⟨ends.transfer, .data (.ofNat 1)
        (Block.payload options.validate.blockSize (mode.wireForm content) 1)⟩]
        (system.step ends ports system.server.connections.length)
        (system.run ends ports system.server.connections.length 2) ∧
      (∃ disk next, (system.run ends ports system.server.connections.length 2).Hosts ends
          system.server.connections.length .client disk next ∧
        next.Sending disk mode options.validate.blockSize (mode.wireForm content) ends.transfer 1) ∧
      (system.run ends ports system.server.connections.length 2).client.ending = .keep by
    obtain ⟨hheard, hgives, hending⟩ := hbegun
    refine ⟨2, Nat.succ_pos _, hgives, ⟨base, run, hheard.other.hosts _ _ hserver, hreceiving, hfile,
      Disk.KeptBut.refl _ _⟩, ?_, ?_, ?_, hending⟩
    · exact hheard.parcels.trans (ship_fits _ _ _ (Packet.data_fits hle (mode.wireForm content) _ _))
    · exact hheard.log.trans (congrArg (· ++ _) hasked.otherLog)
    · exact (hheard.otherLog.trans hlog).trans (List.append_nil _).symm
  rcases hanswer with ⟨accepted, rfl, hadopts⟩ | ⟨rfl, hdefault⟩
  · -- the OACK stands for ACK 0, and its options are adopted before the first read
    have hparcels' := hasked.parcels
    rw [ship_fits _ _ _ hadopts.fits] at hparcels'
    obtain ⟨next, hstart, hat⟩ := Block.Party.start_sending mode hpos hdelivers'
    obtain ⟨hheard, hmoving, hdisk⟩ := step_optionAck ports system.server.connections.length accepted _
      hasking' hadopts hparcels' hstart (Packet.data_fits hle _ _ _)
    refine ⟨hheard, ⟨_, _, hosts_of_moving _ hmoving, ?_⟩, hmoving.ending⟩
    exact ⟨⟨next, hmoving.party, hdisk ▸ hat⟩, hmoving.stage, hmoving.peer⟩
  · -- ACK 0 goes to the sender as any other acknowledgment
    have hparcels' := hasked.parcels
    rw [ship_fits _ _ _ (Packet.ack_fits _)] at hparcels'
    obtain ⟨hready, hparty, hstage, hpeer, -⟩ := hasking'.confirmed_at ends.transfer
    have hinitial : Client.initialBlockSize = options.validate.blockSize := hdefault.symm
    rw [hinitial] at hparty
    have hsending : ((system.step ends ports system.server.connections.length).client.confirmed
        ends.transfer).Sending (system.step ends ports system.server.connections.length).clientDisk mode
        options.validate.blockSize (mode.wireForm content) ends.transfer 0 :=
      ⟨⟨_, hparty, Block.Sender.at_zero hdelivers'⟩, hstage, hpeer⟩
    obtain ⟨next, hack, hsending'⟩ := hsending.hears_ack hpos hle (Nat.succ_pos _)
    obtain ⟨hheard, hhosts, hending⟩ := host_hears ports .client (.ack (.ofNat 0)) ⟨hready, rfl, rfl⟩ trivial
      (fun h => by cases h) hparcels' hack hsending'.stage
    exact ⟨hheard, ⟨_, next, hhosts, hsending'⟩, hending.trans hasking'.ending⟩

/-- An upload that both sides have ended well. -/
structure Uploaded (number : Nat) (mode : Mode) (size : Nat) (content : Bytes) (request : Packet)
    (file : String) (system : OrderedSystem) : Prop where
  parcels : system.parcels = []
  client : system.client.result? = some (.ok ())
  server : ∃ connection, system.server.connections[number]? = some connection ∧
    connection.state = .ended (.ok ())
  stored : ∃ id, system.serverDisk.openRead file = .ok (.file id) ∧
    (system.serverDisk.content id).toList = content
  blocks : system.clientSent = request ::
    Block.dataPackets size (mode.wireForm content) (Block.count size (mode.wireForm content))
  short : (Block.payload size (mode.wireForm content) (Block.count size (mode.wireForm content))).length < size
  /-- One acknowledgment for each block, and nothing after the last. -/
  answers : ∃ opening, Opens opening ∧
    system.serverSent = opening :: Block.ackPackets (Block.count size (mode.wireForm content))
  last : system.serverSent.getLast? = some (.ack (.ofNat (Block.count size (mode.wireForm content))))

theorem upload_ends {plan : TransferPlan} {system : OrderedSystem} {content : Bytes} {serverDisk : Disk}
    {request answer : Packet} {file : String} {place : Place} (hat : plan.At 0 system)
    (hgiver : plan.giver = .client) (hwire : plan.wire = plan.mode.wireForm content)
    (hending : plan.ending = .keep) (hopened : plan.opened = Host.choose [request] [answer])
    (hanswer : Opens answer) (hfile : plan.file = some serverDisk.contents.size)
    (hbase : plan.base = (serverDisk.addFile place).1) (hname : serverDisk.Names file place)
    (haccess : serverDisk.access place = .ok ()) (hvacant : serverDisk.node? place = none) :
    ∃ steps, Uploaded plan.number plan.mode plan.size content request file (plan.run steps system) := by
  obtain ⟨more, hlast⟩ := hat.last
  obtain ⟨disk, next, hreceived, hspoken, hdisk, hended, hresult, -⟩ := hlast.server_takes hgiver hending
  have htotal : plan.total = Block.count plan.size (plan.mode.wireForm content) := by
    rw [← hwire]
    rfl
  have hmade := Disk.made_addFile haccess hvacant
  rw [← hbase] at hmade
  obtain ⟨htree, hopen, hnode, hcontent⟩ := hreceived.filed hfile hmade
  have hblocks := hspoken.given
  have hanswers := hspoken.taken
  rw [hgiver, hopened, htotal, hwire] at hblocks
  rw [hgiver, hopened, htotal] at hanswers
  have hshort := (Block.length_payload_lt_iff plan.size_pos _ (Nat.lt_succ_self _)).mpr
    (rfl : _ = Block.count plan.size (plan.mode.wireForm content))
  have hlastAck := Block.ackPackets_succ ((plan.mode.wireForm content).length / plan.size)
  refine ⟨more + 2, ?_⟩
  rw [TransferPlan.run, run_add]
  refine ⟨hspoken.parcels, hresult, hended, ⟨serverDisk.contents.size, ?_, ?_⟩, hblocks, hshort,
    ⟨answer, hanswer, hanswers⟩, ?_⟩
  · have hread := Disk.openRead_eq (hname.sameTree htree) hopen hnode
    rw [← hdisk] at hread
    exact hread
  · rw [hwire, Mode.hostForm_wireForm, ← hdisk] at hcontent
    exact hcontent
  · refine (congrArg List.getLast? hanswers).trans ?_
    rw [Block.count, hlastAck, ← List.append_assoc, List.getLast?_concat]

/-- An upload over a network that keeps every datagram and their order ends well on both sides,
whatever the source, the pieces it is read in, the mode, and the options that are asked for. -/
theorem upload_completes (ends : Ends) (ports : Admission.Ports) (config : ClientConfig)
    (clientDisk : Disk) (remote : String) (source : Source) (content : Bytes) (options : Options)
    (result : Except TransferFailure (Move (Disk × Client))) (server : Server) (serverDisk : Disk)
    (file : String) (place : Place) (hserver : config.server = ends.listener)
    (huploads : Client.Uploads config clientDisk remote source content options result)
    (hremote : Plain remote) (hoptions : ∀ field ∈ config.options.fields, field.Plain)
    (hfits : (Packet.writeRequest remote config.mode.name options.fields).encode.length ≤
      Link.maxPayload)
    (hlistens : server.listening = true) (hwrites : server.config.allowWrites = true)
    (hsocket : Admission.socketFault? server.config ports = none)
    (hconfine : confine server.config.root remote = .ok file)
    (hname : serverDisk.Names file place) (hvacant : serverDisk.node? place = none)
    (haccess : serverDisk.access place = .ok ()) (hcalm : serverDisk.Calm) :
    ∃ opened, result = .ok opened ∧ ∃ steps,
      Uploaded server.connections.length config.mode options.validate.blockSize content
        (.writeRequest remote config.mode.name options.fields) file
        (OrderedSystem.run ends ports server.connections.length steps (start ends opened serverDisk server)) := by
  obtain ⟨client, hresult, hasking⟩ := huploads.asks hfits
  refine ⟨_, hresult, ?_⟩
  obtain ⟨admission, hadmission, hadmits⟩ := Admission.ofDatagram_request server.config ports ends.client
    .upload remote config.mode options.fields file hremote (huploads.plain hoptions) hconfine hsocket
  have hb := congrArg Options.blockSize (Options.validate_ofFields options)
  obtain ⟨run, answer, hserve, hreceiving, hfile, hanswer⟩ := Connection.serve_upload hadmits hwrites
    serverDisk place (config.mode.wireForm content) hname haccess hvacant hcalm hb
  let begun := start ends
    { state := (clientDisk, client)
      sent := [⟨config.server, .writeRequest remote config.mode.name options.fields⟩] }
    serverDisk server
  have hparcels : begun.parcels = [⟨ends.listener,
      ⟨ends.client, (Packet.writeRequest remote config.mode.name options.fields).encode⟩⟩] := by
    rw [← hserver]
    exact ship_fits _ _ _ hfits
  have hopens : Opens answer := by
    rcases hanswer with ⟨accepted, rfl, -⟩ | ⟨rfl, -⟩
    · exact .inr ⟨accepted, rfl⟩
    · exact .inl rfl
  obtain ⟨first, hat⟩ := upload_reaches begun options content source (serverDisk.addFile place).1
    serverDisk.contents.size _ answer hparcels rfl hasking huploads.delivers hlistens hadmission hserve rfl
    hreceiving hfile hanswer
  obtain ⟨more, hdone⟩ := upload_ends hat rfl rfl rfl rfl hopens rfl rfl hname haccess hvacant
  refine ⟨first + more, ?_⟩
  rw [run_add]
  exact hdone

def emptyDisk : Disk where
  nodes := [(["srv"], .directory)]

def pastedConfig : ClientConfig where
  server := localEnds.listener
  mode := .netascii
  options := .ofFields [⟨"blksize", "8"⟩, ⟨"BLKSIZE", "12"⟩]

def pasted : Source :=
  .pieces [.bytes [97, 13], .bytes [], .bytes [10, 98]]

theorem pasted_uploaded : ∃ steps,
    Uploaded 0 .netascii 12 [97, 13, 10, 98] (.writeRequest "/note" "netascii" pastedConfig.options.fields)
      "/srv/note" (run localEnds (fun _ => {}) 0 steps (start localEnds
        (Client.upload .connected false pastedConfig pastedConfig.options {} pasted "/note") emptyDisk
        (Server.settle { config := { root := "/srv" } }))) := by
  have huploads : Client.Uploads pastedConfig {} "/note" pasted [97, 13, 10, 98] pastedConfig.options
      (.ok (Client.upload .connected false pastedConfig pastedConfig.options {} pasted "/note")) :=
    .stream pasted [97, 13, 10, 98] ⟨[[97, 13], [], [10, 98]], rfl, rfl⟩
  have hname : emptyDisk.Names "/srv/note" ["srv", "note"] :=
    ⟨{ parent := ["srv"], last := some "note", slash := false }, (Disk.route_ok_iff _ _ _).mp rfl, rfl, rfl, rfl⟩
  have hroot : "/srv".endsWith "/" = false := by
    rw [String.endsWith_eq_endsWith_toSlice, String.Slice.endsWith_string_eq_false_iff]
    decide
  have hconfine : confine "/srv" "/note" = .ok "/srv/note" :=
    (confine_below hroot (by decide) (by decide)).trans rfl
  obtain ⟨opened, hopened, hdone⟩ := upload_completes localEnds (fun _ => {}) pastedConfig {} "/note" pasted
    [97, 13, 10, 98] pastedConfig.options _ (Server.settle { config := { root := "/srv" } }) emptyDisk "/srv/note"
    ["srv", "note"] rfl huploads (by decide) (by decide) (by decide) rfl rfl rfl hconfine hname rfl rfl
    (fun mishap hm => by cases hm)
  cases hopened
  exact hdone

end OrderedSystem

end Tftp
