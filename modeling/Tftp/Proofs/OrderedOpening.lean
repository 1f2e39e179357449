import Tftp.Proofs.Handshake
import Tftp.Proofs.OrderedBlocks

namespace Tftp

namespace Client

theorem Asking.confirmed_at {party : Block.Party} {ending : Ending} {client : Client}
    (h : client.Asking party ending) (source : Endpoint) :
    client.Ready ∧ (client.confirmed source).party = party ∧
      (∃ exchange, (client.confirmed source).stage = .waiting exchange) ∧
      (client.confirmed source).transfer.session.peer = .fixed source ∧
      (client.confirmed source).transfer.pendingError = none := by
  refine ⟨fun _ => ⟨h.peer, h.stage⟩, ?_⟩
  rw [confirmed, if_pos h.requesting]
  exact ⟨h.party, h.stage, rfl, h.fresh⟩

end Client

namespace OrderedSystem

variable {ends : Ends} (ports : Admission.Ports) {system : OrderedSystem}

theorem hosts_of_moving {party : Block.Party} {ending : Client.Ending} (number : Nat)
    (h : system.client.Moving ends.transfer party ending) :
    system.Hosts ends number .client system.clientDisk system.client.run := by
  refine ⟨fun hr => ?_, rfl, ?_⟩
  · rw [h.requesting] at hr
    cases hr
  · simp [Client.confirmed, h.requesting]

theorem step_request (request answer : Packet) {admission : Admission} {connection : Connection}
    {disk : Disk} {run : Run} (hlistens : system.server.listening = true)
    (hp : system.parcels = [⟨ends.listener, ⟨ends.client, request.encode⟩⟩])
    (ha : Admission.ofDatagram system.server.config ports ⟨ends.client, request.encode⟩ = .ok admission)
    (hs : Connection.serve .connected system.serverDisk admission =
      { state := (disk, connection), sent := [⟨ends.client, answer⟩] })
    (hr : connection.state = .running run) :
    Heard ends .server [⟨ends.client, answer⟩] system
        (system.step ends ports system.server.connections.length) ∧
      (system.step ends ports system.server.connections.length).Hosts ends
        system.server.connections.length .server disk run := by
  have hturn : system.server.onRequest .connected ports system.serverDisk ⟨ends.client, request.encode⟩ =
      { disk
        server := { system.server with connections := system.server.connections ++ [connection] }.attend
          (some system.server.connections.length)
        sent := Server.label (.connection system.server.connections.length) [⟨ends.client, answer⟩] } := by
    simp only [Server.onRequest, hlistens, ha, hs]
    rfl
  rw [step_listener ports system _ hp, hturn]
  refine ⟨⟨⟨rfl, rfl⟩, ?_, rfl, rfl⟩, rfl, connection, ?_, hr⟩
  · exact ship_label (.connection system.server.connections.length) [⟨ends.client, answer⟩]
  · exact List.getElem?_concat_length

theorem step_optionAck (number : Nat) (accepted : List OptionField) (packet : Packet) {size : Nat}
    {party party' : Block.Party} {ending : Client.Ending} (h : system.client.Asking party ending)
    (ha : Options.Adopts accepted size)
    (hp : system.parcels = [⟨ends.client, ⟨ends.transfer, (Packet.optionAck accepted).encode⟩⟩])
    (hs : (party.setBlockSize size).start system.clientDisk = (system.clientDisk, party', .send packet))
    (hfits : packet.encode.length ≤ Link.maxPayload) :
    Heard ends .client [⟨ends.transfer, packet⟩] system (system.step ends ports number) ∧
      (system.step ends ports number).client.Moving ends.transfer party' ending ∧
      (system.step ends ports number).clientDisk = system.clientDisk := by
  obtain ⟨next, hmove, hmoving⟩ :=
    h.hears_optionAck system.clientDisk ends.transfer accepted size ha packet hs hfits
  rw [step_client ports system _ hp, hmove]
  exact ⟨⟨⟨rfl, rfl⟩, rfl, rfl, rfl⟩, hmoving, rfl⟩

end OrderedSystem

end Tftp
