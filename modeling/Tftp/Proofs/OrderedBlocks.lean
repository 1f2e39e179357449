import Tftp.Proofs.OrderedSystem

namespace Tftp

namespace Client

/-- The run of a client as a packet of the block exchange from `source` finds it. If it is the answer
to the request, it settles who the peer is. -/
def confirmed (source : Endpoint) (client : Client) : Run :=
  if client.requesting then
    { client.run with
      transfer := { client.run.transfer with
        session := { client.run.transfer.session with peer := .fixed source }
        phase := .dataTransfer } }
  else client.run

def Ready (client : Client) : Prop :=
  client.requesting = true → (∃ endpoint, client.run.transfer.session.peer = .unconfirmed endpoint) ∧
    ∃ exchange, client.run.stage = .waiting exchange

theorem onDatagram_block (link : Link) (stopped : Bool) (disk : Disk) (source : Endpoint)
    (client : Client) (h : client.Ready) (packet : Packet) (hp : packet.Plain)
    (ho : packet.opcode ≠ .optionAck) :
    client.onDatagram link stopped disk ⟨source, packet.encode⟩ =
      ((client.confirmed source).onDatagram link stopped disk ⟨source, packet.encode⟩).map
        fun (disk, run) => settle disk { client with run, requesting := false } := by
  cases hr : client.requesting with
  | false => simp [onDatagram, confirmed, hr]
  | true =>
    obtain ⟨⟨endpoint, hpeer⟩, exchange, hw⟩ := h hr
    have hconfirmed : (client.confirmed source).transfer.session.peer = .fixed source := by
      rw [confirmed, if_pos hr]
    have hwaits : (client.confirmed source).stage = .waiting exchange := by
      rw [confirmed, if_pos hr]
      exact hw
    have hreceive : client.run.receive disk ⟨source, packet.encode⟩ (onReply link stopped) =
        (client.confirmed source).onPacket link stopped disk packet := by
      rw [Run.receive, hw, confirmed, if_pos hr]
      simp only [Session.read, Session.recognize, hpeer, Packet.decode_encode packet hp]
      rw [onReply]
      · rw [hw]
      · rintro fields rfl
        exact ho rfl
    rw [onDatagram, hr, if_pos rfl, hreceive,
      Run.onDatagram_packet link stopped packet hp ⟨exchange, hwaits⟩ hconfirmed]

end Client

namespace OrderedSystem

variable {ends : Ends} (ports : Admission.Ports) {number : Nat}

theorem ship_fits (source destination : Endpoint) (packet : Packet)
    (h : packet.encode.length ≤ Link.maxPayload) :
    ship source [⟨destination, packet⟩] = [⟨destination, ⟨source, packet.encode⟩⟩] := by
  have hmax : ¬Link.maxLength < packet.encode.length := by
    simp only [Link.maxPayload, Link.maxLength] at h ⊢
    omega
  have hc : Link.carries .connected packet.encode.length = true := by
    simp only [Link.carries, Link.refusal?, if_neg hmax, if_neg (Nat.not_lt.mpr h)]
    rfl
  simp only [ship, Script.Loopback.ship, Link.delivered, List.filter_cons, hc, if_true, List.filter_nil,
    List.map_cons, List.map_nil]

/-- The host takes part in the block exchange with this run. -/
def Hosts (ends : Ends) (number : Nat) (system : OrderedSystem) (host : Host) (disk : Disk) (run : Run) :
    Prop :=
  match host with
  | .client => system.client.Ready ∧ system.clientDisk = disk ∧
      system.client.confirmed ends.transfer = run
  | .server => system.serverDisk = disk ∧ ∃ connection, system.server.connections[number]? = some connection ∧
      connection.state = .running run

theorem step_client (system : OrderedSystem) (datagram : Datagram)
    (hp : system.parcels = [⟨ends.client, datagram⟩]) :
    system.step ends ports number = { system with parcels := [] }.takeClient ends
      (system.client.onDatagram .connected false system.clientDisk datagram) := by
  simp only [step, hp, if_true]

theorem step_listener (system : OrderedSystem) (datagram : Datagram)
    (hp : system.parcels = [⟨ends.listener, datagram⟩]) :
    system.step ends ports number = { system with parcels := [] }.takeServer ends
      (system.server.onRequest .connected ports system.serverDisk datagram) := by
  simp only [step, hp, if_neg ends.listener_ne_client, if_true]

theorem step_transfer (system : OrderedSystem) (datagram : Datagram)
    (hp : system.parcels = [⟨ends.transfer, datagram⟩]) :
    system.step ends ports number = { system with parcels := [] }.takeServer ends
      (system.server.onDatagram .connected number system.serverDisk datagram) := by
  simp only [step, hp, if_neg ends.transfer_ne_client, if_neg ends.transfer_ne_listener, if_true]

def Unmoved (before after : OrderedSystem) : Host → Prop
  | .client => after.clientDisk = before.clientDisk ∧ after.client = before.client
  | .server => after.serverDisk = before.serverDisk ∧ after.server = before.server

theorem Unmoved.hosts {before after : OrderedSystem} {host : Host} (h : Unmoved before after host)
    (disk : Disk) (run : Run) (hh : before.Hosts ends number host disk run) :
    after.Hosts ends number host disk run := by
  cases host with
  | client =>
    obtain ⟨hd, hc⟩ := h
    rw [Hosts, hd, hc]
    exact hh
  | server =>
    obtain ⟨hd, hs⟩ := h
    rw [Hosts, hd, hs]
    exact hh

/-- A host has heard a packet and sent this. -/
structure Heard (ends : Ends) (host : Host) (sent : List Transmission) (before after : OrderedSystem) : Prop where
  other : Unmoved before after host.other
  parcels : after.parcels = ship (ends.of host) sent
  log : after.sent host = before.sent host ++ packets sent
  otherLog : after.sent host.other = before.sent host.other

theorem ship_cons (source : Endpoint) (first : Transmission) (rest : List Transmission) :
    ship source (first :: rest) = ship source [first] ++ ship source rest := by
  simp only [ship, Script.Loopback.ship, Link.delivered, ← List.map_append, ← List.filter_append]
  rfl

theorem ship_label (origin : Server.Origin) (sent : List Transmission) :
    ((Server.label origin sent).flatMap fun sent => ship (ends.origin sent.origin) [sent.transmission]) =
      ship (ends.origin origin) sent := by
  induction sent with
  | nil => rfl
  | cons first rest ih =>
    rw [ship_cons, ← ih]
    rfl

theorem packets_label (origin : Server.Origin) (sent : List Transmission) :
    ((Server.label origin sent).map fun sent => sent.transmission.packet) = packets sent := by
  simp only [Server.label, packets, List.map_map, Function.comp_def]

variable {system : OrderedSystem} {disk disk' : Disk} {run next : Run} {sent : List Transmission}

theorem client_hears (packet : Packet) (h : system.Hosts ends number .client disk run) (hplain : packet.Plain)
    (hop : packet.opcode ≠ .optionAck)
    (hp : system.parcels = [⟨ends.client, ⟨ends.transfer, packet.encode⟩⟩])
    (hm : run.onDatagram .connected false disk ⟨ends.transfer, packet.encode⟩ =
      { state := (disk', next), sent }) :
    Heard ends .client sent system (system.step ends ports number) ∧
      ((system.step ends ports number).clientDisk, (system.step ends ports number).client) =
        Client.settle disk' { system.client with run := next, requesting := false } := by
  obtain ⟨hready, rfl, rfl⟩ := h
  have hmove := Client.onDatagram_block .connected false system.clientDisk ends.transfer
    system.client hready packet hplain hop
  rw [hm] at hmove
  rw [step_client ports system _ hp, hmove]
  exact ⟨⟨⟨rfl, rfl⟩, rfl, rfl, rfl⟩, rfl⟩

theorem server_hears (packet : Packet) (h : system.Hosts ends number .server disk run)
    (hp : system.parcels = [⟨ends.transfer, ⟨ends.client, packet.encode⟩⟩])
    (hm : run.onDatagram .connected false disk ⟨ends.client, packet.encode⟩ =
      { state := (disk', next), sent }) :
    Heard ends .server sent system (system.step ends ports number) ∧
      ∃ connection, system.server.connections[number]? = some connection ∧
        (system.step ends ports number).serverDisk =
          (Connection.settle disk' connection.file connection.created next).1 ∧
        (system.step ends ports number).server.connections[number]? =
          some (Connection.settle disk' connection.file connection.created next).2 := by
  obtain ⟨rfl, connection, hc, hstate⟩ := h
  have hmove : connection.onDatagram .connected system.serverDisk ⟨ends.client, packet.encode⟩ =
      { state := Connection.settle disk' connection.file connection.created next, sent } := by
    simp only [Connection.onDatagram, hstate, hm, Move.map]
  have hn : number < system.server.connections.length := (List.getElem?_eq_some_iff.mp hc).1
  rw [step_transfer ports system _ hp]
  simp only [Server.onDatagram, Server.step, hc, hmove]
  refine ⟨⟨⟨rfl, rfl⟩, ?_, ?_, rfl⟩, connection, rfl, rfl, ?_⟩
  · exact ship_label (.connection number) sent
  · exact congrArg (system.serverSent ++ ·) (packets_label (.connection number) sent)
  · exact List.getElem?_set_self hn

theorem host_hears (host : Host) (packet : Packet) (h : system.Hosts ends number host disk run) (hplain : packet.Plain)
    (hop : packet.opcode ≠ .optionAck)
    (hp : system.parcels = [⟨ends.of host, ⟨ends.of host.other, packet.encode⟩⟩])
    (hm : run.onDatagram .connected false disk ⟨ends.of host.other, packet.encode⟩ =
      { state := (disk', next), sent })
    (hw : ∃ exchange, next.stage = .waiting exchange) :
    Heard ends host sent system (system.step ends ports number) ∧
      (system.step ends ports number).Hosts ends number host disk' next ∧
      (system.step ends ports number).client.ending = system.client.ending := by
  obtain ⟨exchange, hw⟩ := hw
  cases host with
  | client =>
    obtain ⟨hheard, hsettle⟩ := client_hears ports packet h hplain hop hp hm
    have hstay : Client.settle disk' { system.client with run := next, requesting := false } =
        (disk', { system.client with run := next, requesting := false }) := by
      simp only [Client.settle, hw]
    rw [hstay] at hsettle
    obtain ⟨hdisk, hclient⟩ := Prod.mk.inj hsettle
    refine ⟨hheard, ⟨?_, hdisk, ?_⟩, ?_⟩
    · rw [hclient]
      exact fun hr => nomatch hr
    · rw [hclient]
      rfl
    · rw [hclient]
  | server =>
    obtain ⟨hheard, connection, -, hdisk, hconn⟩ := server_hears ports packet h hp hm
    have hstay : Connection.settle disk' connection.file connection.created next =
        (disk', { state := .running next, file := connection.file, created := connection.created }) := by
      simp only [Connection.settle, hw]
    rw [hstay] at hdisk hconn
    exact ⟨hheard, ⟨hdisk, _, hconn, rfl⟩, congrArg Client.ending hheard.other.2⟩

end OrderedSystem

end Tftp
