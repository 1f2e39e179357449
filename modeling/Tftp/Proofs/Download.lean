import Tftp.Proofs.Confinement
import Tftp.Proofs.OrderedTransfer
import Tftp.Proofs.OrderedOpening
import Tftp.Proofs.PartialPaths

namespace Tftp

namespace Client

theorem download_asks (config : ClientConfig) (disk : Disk) (remote dest gathered : String) (made : Disk)
    (id : FileId) (hs : disk.Sound) (hc : disk.Calm)
    (hfits : (Packet.readRequest remote config.mode.name config.options.fields).encode.length ≤
      Link.maxPayload)
    (hpath : partialPath dest = .ok gathered) (hcreate : disk.create gathered = .ok (made, id)) :
    ∃ client origin, download .connected false config disk remote dest = .ok {
        state := (made, client)
        sent := [⟨config.server, .readRequest remote config.mode.name config.options.fields⟩] } ∧
      disk.Names gathered origin ∧ Disk.Made disk made origin id ∧
      client.Asking (.receiving (.file id 0) config.mode initialBlockSize) (.replace gathered dest) ∧
      (Sink.file id 0).Holds made [] := by
  obtain ⟨origin, hname, hmade⟩ := Disk.create_ok hs hcreate
  obtain ⟨client, hasked, hasking⟩ := transmit_asks config made remote _ .sentReadRequest
    (.receiving (.file id 0) config.mode initialBlockSize) (.replace gathered dest) hfits
  refine ⟨client, origin, ?_, hname, hmade, hasking, hmade.holds hc⟩
  simp only [download, hpath, hcreate]
  exact congrArg Except.ok hasked

end Client

namespace OrderedSystem

def dataAmong (sent : List Packet) : List Packet :=
  sent.filter fun packet => packet.opcode = .data

theorem dataAmong_append (first second : List Packet) :
    dataAmong (first ++ second) = dataAmong first ++ dataAmong second :=
  List.filter_append first second

theorem dataAmong_dataPackets (size : Nat) (wire : Bytes) (n : Nat) :
    dataAmong (Block.dataPackets size wire n) = Block.dataPackets size wire n := by
  refine List.filter_eq_self.mpr fun packet hp => ?_
  obtain ⟨i, -, rfl⟩ := List.mem_map.mp hp
  rfl

variable {ends : Ends} {ports : Admission.Ports} {mode : Mode} {ending : Client.Ending}

/-- The request leads to the first block, with an OACK or without. -/
theorem download_reaches (system : OrderedSystem) (options : Options) (wire : Bytes) (id : FileId)
    (request answer : Packet) {admission : Admission} {file : String} {run : Run}
    (hparcels : system.parcels = [⟨ends.listener, ⟨ends.client, request.encode⟩⟩])
    (hsent : system.serverSent = [])
    (hasking : system.client.Asking (.receiving (.file id 0) mode Client.initialBlockSize) ending)
    (hholds : (Sink.file id 0).Holds system.clientDisk [])
    (hlistens : system.server.listening = true)
    (ha : Admission.ofDatagram system.server.config ports ⟨ends.client, request.encode⟩ = .ok admission)
    (hs : Connection.serve .connected system.serverDisk admission =
      { state := (system.serverDisk, { state := .running run, file }), sent := [⟨ends.client, answer⟩] })
    (hanswer : (∃ accepted, answer = .optionAck accepted ∧
          Options.Adopts accepted options.validate.blockSize ∧
          run.Sending system.serverDisk mode options.validate.blockSize wire ends.client 0) ∨
        answer = .data (.ofNat 1) (Block.payload options.validate.blockSize wire 1) ∧
          options.validate.blockSize = Options.Known.blksize.default ∧
          run.Sending system.serverDisk mode options.validate.blockSize wire ends.client 1) :
    ∃ opened steps, dataAmong (opened .server) = [] ∧
      (TransferPlan.settled ends ports system.server.connections.length .server mode options wire system.clientDisk
        id ending opened).At 0 (system.run ends ports system.server.connections.length steps) := by
  obtain ⟨hasked, hserver⟩ := step_request ports request answer hlistens hparcels ha hs rfl
  have hsize := Options.blockSize_within options
  have hat : ({ store := .ofMode (.file id 0) mode, blockSize := options.validate.blockSize } :
      Block.Receiver).At system.clientDisk mode options.validate.blockSize wire 0 :=
    Block.Receiver.at_zero hholds
  have hfile : (Block.Party.receiving (.file id 0) mode options.validate.blockSize).file? = some id := by
    cases mode <;> rfl
  have hasking' := hasking
  rw [← hasked.other.2] at hasking'
  rcases hanswer with ⟨accepted, rfl, hadopts, hsending⟩ | ⟨rfl, hdefault, hsending⟩
  · -- the OACK is acknowledged with ACK 0, and that brings DATA 1
    have hparcels₁ := hasked.parcels
    rw [ship_fits _ _ _ hadopts.fits] at hparcels₁
    obtain ⟨hadopted, hmoving, hdisk⟩ := step_optionAck ports system.server.connections.length accepted
      (.ack (.ofNat 0)) hasking' hadopts hparcels₁ rfl (Packet.ack_fits _)
    have hparcels₂ := hadopted.parcels
    rw [ship_fits _ _ _ (Packet.ack_fits _)] at hparcels₂
    obtain ⟨next, hack, hsending'⟩ := hsending.hears_ack hsize.1 hsize.2 (Nat.succ_pos _)
    obtain ⟨hacked, hserver', hending⟩ := host_hears ports .server (.ack (.ofNat 0))
      (hadopted.other.hosts _ _ hserver) trivial (fun h => by cases h) hparcels₂ hack hsending'.stage
    refine ⟨Host.choose (system.clientSent ++ [.ack (.ofNat 0)]) [.optionAck accepted], 3, rfl, ?_⟩
    have htaker : Run.Receiving system.clientDisk mode options.validate.blockSize wire ends.transfer 0 _ :=
      ⟨⟨_, hmoving.party, hat⟩, hmoving.stage, hmoving.peer, hmoving.fresh⟩
    have htakes := hacked.other.hosts _ _ (hosts_of_moving system.server.connections.length hmoving)
    rw [hdisk.trans hasked.other.1] at htakes
    refine ⟨Nat.succ_pos _, ⟨_, next, hserver', hsending'⟩,
      ⟨_, _, htakes, htaker, (congrArg Block.Party.file? hmoving.party).trans hfile, Disk.KeptBut.refl _ _⟩,
      ?_, ?_, ?_, hending.trans hmoving.ending⟩
    · exact hacked.parcels.trans (ship_fits _ _ _ (Packet.data_fits hsize.2 wire _ _))
    · have hlog : system.sent .server = [] := hsent
      have h₁ := hasked.log
      rw [hlog] at h₁
      have h₂ := hadopted.otherLog.trans h₁
      exact hacked.log.trans (congrArg (· ++ _) h₂)
    · have h₁ := hadopted.log.trans (congrArg (· ++ _) hasked.otherLog)
      exact (hacked.otherLog.trans h₁).trans (List.append_nil _).symm
  · -- the first block is the answer
    obtain ⟨hready, hparty, hstage, hpeer, hfresh⟩ := hasking'.confirmed_at ends.transfer
    have hinitial : Client.initialBlockSize = options.validate.blockSize := hdefault.symm
    rw [hinitial] at hparty
    refine ⟨Host.choose system.clientSent [], 1, rfl, ?_⟩
    refine ⟨Nat.succ_pos _, ⟨_, _, hserver, hsending⟩,
      ⟨system.clientDisk, _, ⟨hready, hasked.other.1, rfl⟩,
        ⟨⟨_, hparty, hat⟩, hstage, hpeer, hfresh⟩, (congrArg Block.Party.file? hparty).trans hfile,
        Disk.KeptBut.refl _ _⟩, ?_, ?_, ?_, hasking'.ending⟩
    · exact hasked.parcels.trans (ship_fits _ _ _ (Packet.data_fits hsize.2 wire _ _))
    · have hlog : system.sent .server = [] := hsent
      exact hasked.log.trans (congrArg (· ++ _) hlog)
    · exact hasked.otherLog.trans (List.append_nil _).symm

/-- A download that both sides have ended well. -/
structure Downloaded (number : Nat) (mode : Mode) (size : Nat) (content : Bytes) (dest : String)
    (system : OrderedSystem) : Prop where
  parcels : system.parcels = []
  client : system.client.result? = some (.ok ())
  server : ∃ connection, system.server.connections[number]? = some connection ∧
    connection.state = .ended (.ok ())
  stored : ∃ id, system.clientDisk.openRead dest = .ok (.file id) ∧
    (system.clientDisk.content id).toList = content
  gathered : ∃ gathered, partialPath dest = .ok gathered ∧
    system.clientDisk.pathExists gathered = false
  blockSize : system.client.run.party.blockSize = size
  blocks : dataAmong system.serverSent =
    Block.dataPackets size (mode.wireForm content) ((mode.wireForm content).length / size + 1)
  count : (dataAmong system.serverSent).length = (mode.wireForm content).length / size + 1

theorem settle_replaces {plan : TransferPlan} {clientDisk disk : Disk} {next : Run} {client : Client}
    {gathered dest : String} {origin place : Place} {id : FileId} (hr : plan.Received disk next)
    (hfile : plan.file = some id) (hbase : Disk.Made clientDisk plan.base origin id)
    (hpath : partialPath dest = .ok gathered) (hgathered : clientDisk.Names gathered origin)
    (hdest : clientDisk.Names dest place) (hd : clientDisk.isDirectory place = false)
    (hending : client.ending = .replace gathered dest) :
    ∃ disk' settled, Client.settle disk { client with run := next, requesting := false } = (disk', settled) ∧
      settled.result? = some (.ok ()) ∧ settled.run.party = next.party ∧
      disk'.openRead dest = .ok (.file id) ∧ disk'.pathExists gathered = false ∧
      (disk'.content id).toList = plan.mode.hostForm plan.wire := by
  obtain ⟨htree, haccess, hnode, hcontent⟩ := hr.filed hfile hbase
  obtain ⟨disk', hrename, hopen, hgone, hcontents⟩ := Disk.rename_moves (hgathered.sameTree htree)
    (hdest.sameTree htree) (Disk.ne_of_partialPath hpath hdest hgathered) haccess hnode ((htree place).trans hd)
  refine ⟨disk', {
    run := { next with stage := .ended (.ok ()) }
    requesting := false
    ending := .keep }, ?_, rfl, rfl, hopen, hgone, ?_⟩
  · simp only [Client.settle, hr.stage, hending, Client.Ending.apply, hrename]
  · rw [Disk.content, hcontents]
    exact hcontent

theorem download_ends {plan : TransferPlan} {system : OrderedSystem} {content : Bytes} {clientDisk : Disk}
    {gathered dest : String} {origin place : Place} {id : FileId} (hat : plan.At 0 system)
    (hgiver : plan.giver = .server) (hquiet : dataAmong (plan.opened .server) = [])
    (hwire : plan.wire = plan.mode.wireForm content) (hending : plan.ending = .replace gathered dest)
    (hfile : plan.file = some id) (hbase : Disk.Made clientDisk plan.base origin id)
    (hpath : partialPath dest = .ok gathered) (hgathered : clientDisk.Names gathered origin)
    (hdest : clientDisk.Names dest place) (hd : clientDisk.isDirectory place = false) :
    ∃ steps, Downloaded plan.number plan.mode plan.size content dest (plan.run steps system) := by
  obtain ⟨more, hlast⟩ := hat.last
  obtain ⟨last, next, hreceived, hspoken, hsettle, hended⟩ := hlast.client_takes hgiver
  obtain ⟨disk', settled, hreplaced, hresult, hparty, hopen, hgone, hcontent⟩ :=
    settle_replaces hreceived hfile hbase hpath hgathered hdest hd (hlast.ending.trans hending)
  rw [hreplaced] at hsettle
  obtain ⟨hdisk, hclient⟩ := Prod.mk.inj hsettle
  obtain ⟨receiver, hreceiver, hblockSize, -⟩ := hreceived.receiver
  have htotal : plan.total = (plan.mode.wireForm content).length / plan.size + 1 := by
    rw [← hwire]
    rfl
  have hblocks : dataAmong (plan.run 2 (plan.run more system)).serverSent =
      Block.dataPackets plan.size (plan.mode.wireForm content)
        ((plan.mode.wireForm content).length / plan.size + 1) := by
    have hlog := congrArg dataAmong hspoken.given
    rw [hgiver, dataAmong_append, dataAmong_dataPackets, hquiet, List.nil_append, htotal, hwire] at hlog
    exact hlog
  refine ⟨more + 2, ?_⟩
  rw [TransferPlan.run, run_add]
  refine ⟨hspoken.parcels, ?_, hended, ⟨id, ?_, ?_⟩, ⟨gathered, hpath, ?_⟩, ?_, hblocks, ?_⟩
  · rw [← hclient] at hresult
    exact hresult
  · rw [← hdisk] at hopen
    exact hopen
  · rw [hwire, Mode.hostForm_wireForm, ← hdisk] at hcontent
    exact hcontent
  · rw [← hdisk] at hgone
    exact hgone
  · have hsize : settled.run.party.blockSize = plan.size := by
      rw [hparty, hreceiver]
      exact hblockSize
    rw [← hclient] at hsize
    exact hsize
  · refine (congrArg List.length hblocks).trans ?_
    rw [Block.dataPackets, List.length_map, List.length_range]

/-- A download over a network that keeps every datagram and their order ends well on both sides,
whatever the file, the mode, and the options that are asked for. The length of a file is a number
of sixty-four bits. -/
theorem download_completes (ends : Ends) (ports : Admission.Ports) (config : ClientConfig)
    (clientDisk : Disk) (remote dest : String) (server : Server) (serverDisk : Disk) (file : String)
    (id : FileId) (hserver : config.server = ends.listener)
    (hremote : Plain remote) (hoptions : ∀ field ∈ config.options.fields, field.Plain)
    (hfits : (Packet.readRequest remote config.mode.name config.options.fields).encode.length ≤
      Link.maxPayload)
    (hsound : clientDisk.Sound) (hcalm : clientDisk.Calm)
    (hdest : ∃ place, clientDisk.Names dest place ∧ clientDisk.isDirectory place = false)
    (hcreate : ∀ gathered, partialPath dest = .ok gathered → ∃ made, clientDisk.create gathered = .ok made)
    (hlistens : server.listening = true)
    (hsocket : Admission.socketFault? server.config ports = none)
    (hconfine : confine server.config.root remote = .ok file)
    (hread : serverDisk.openRead file = .ok (.file id))
    (hsize : (serverDisk.content id).size < UInt64.size) :
    ∃ opened, Client.download .connected false config clientDisk remote dest = .ok opened ∧ ∃ steps,
      Downloaded server.connections.length config.mode config.options.validate.blockSize
        (serverDisk.content id).toList dest
        (OrderedSystem.run ends ports server.connections.length steps (start ends opened serverDisk server)) := by
  obtain ⟨place, hplace, hnodir⟩ := hdest
  obtain ⟨_, _, -, -, hpath⟩ := hplace.partialPath_eq
  obtain ⟨⟨disk, fid⟩, hfresh⟩ := hcreate _ hpath
  obtain ⟨client, origin, hopened, hname, hmade, hasking, hholds⟩ :=
    Client.download_asks config clientDisk remote dest _ disk fid hsound hcalm hfits hpath hfresh
  refine ⟨_, hopened, ?_⟩
  obtain ⟨admission, hadmission, hadmits⟩ := Admission.ofDatagram_request server.config ports ends.client
    .download remote config.mode config.options.fields file hremote hoptions hconfine hsocket
  have hb := congrArg Options.blockSize (Options.validate_ofFields config.options)
  obtain ⟨run, answer, hserve, hanswer⟩ :=
    Connection.serve_download hadmits serverDisk id hread hsize hb rfl
  let begun := start ends
    { state := (disk, client)
      sent := [⟨config.server, .readRequest remote config.mode.name config.options.fields⟩] }
    serverDisk server
  have hparcels : begun.parcels = [⟨ends.listener,
      ⟨ends.client, (Packet.readRequest remote config.mode.name config.options.fields).encode⟩⟩] := by
    rw [← hserver]
    exact ship_fits _ _ _ hfits
  obtain ⟨talk, first, hquiet, hat⟩ := download_reaches begun config.options
    (config.mode.wireForm (serverDisk.content id).toList) fid _ answer hparcels rfl
    hasking hholds hlistens hadmission hserve hanswer
  obtain ⟨more, hdone⟩ := download_ends hat rfl hquiet rfl rfl rfl hmade hpath hname hplace hnodir
  refine ⟨first + more, ?_⟩
  rw [run_add]
  exact hdone

def noteDisk : Disk where
  nodes := [(["srv"], .directory), (["srv", "note"], .file 0)]
  contents := #[#[97, 13, 98, 10]]

def noteConfig : ClientConfig where
  server := localEnds.listener
  mode := .netascii
  options := .ofFields [⟨"BlkSize", "8"⟩, ⟨"tsize", "x"⟩]

theorem note_downloaded : ∃ opened,
    Client.download .connected false noteConfig {} "//note" "copy" = .ok opened ∧ ∃ steps,
      Downloaded 0 .netascii 8 [97, 13, 98, 10] "copy"
        (run localEnds (fun _ => {}) 0 steps
          (start localEnds opened noteDisk (Server.settle { config := { root := "/srv" } }))) := by
  have hsound : ({} : Disk).Sound := by
    intro place id h
    simp only [Disk.node?] at h
    split at h <;> cases h
  have hdest : ({} : Disk).Names "copy" ["copy"] :=
    ⟨{ parent := [], last := some "copy", slash := false }, (Disk.route_ok_iff _ _ _).mp rfl, rfl, rfl, rfl⟩
  have hroot : "/srv".endsWith "/" = false := by
    rw [String.endsWith_eq_endsWith_toSlice, String.Slice.endsWith_string_eq_false_iff]
    decide
  have hconfine : confine "/srv" "//note" = .ok "/srv/note" :=
    (confine_below hroot (by decide) (by decide)).trans rfl
  have hcreate : ∀ gathered, partialPath "copy" = .ok gathered →
      ∃ made, ({} : Disk).create gathered = .ok made := by
    intro gathered h
    cases h
    exact ⟨_, rfl⟩
  exact download_completes localEnds (fun _ => {}) noteConfig {} "//note" "copy"
    (Server.settle { config := { root := "/srv" } }) noteDisk "/srv/note" 0 rfl (by decide) (by decide) (by decide)
    hsound (fun mishap hm => by cases hm) ⟨["copy"], hdest, rfl⟩ hcreate rfl rfl hconfine rfl (by decide)

end OrderedSystem

end Tftp
