import Tftp.Proofs.Grammar
import Tftp.Proofs.LossySystem
import Tftp.Proofs.Terms

namespace Tftp

namespace LossySystem

/-- What a client asks for, and what the server makes of it. -/
structure Negotiation where
  ends : Ends
  request : Packet
  terms : Options
  patience : Nat
  settles : ∀ (direction : Direction) (path mode : String) (fields : List OptionField),
    Packet.decode request.encode = .ok (direction.request path mode fields) →
      terms = (Options.ofFields fields).validate
  bare : terms.anyAccepted = false → terms.blockSize = 512 ∧ terms.timeout = 5000 ∧ patience = 5000

namespace Negotiation

variable (negotiation : Negotiation)

/-- What the server may say, as long as the client still asks and from then on. -/
def Utters (asking : Bool) (packet : Packet) : Prop :=
  packet.opcode = .error ∨
    if negotiation.terms.anyAccepted then
      asking = true → ∃ accepted, packet = .optionAck accepted ∧ negotiation.terms.Echoes accepted
    else packet.opcode ≠ .optionAck

structure Bound (asking : Bool) (run : Run) : Prop where
  session : run.transfer.session = ⟨.fixed negotiation.ends.client, negotiation.terms.timeout⟩
  size : run.party.blockSize = negotiation.terms.blockSize
  waits : ∃ exchange, run.stage = .waiting exchange
  repeats : ∀ exchange packet, run.stage = .waiting exchange → exchange.repeated = some packet →
    negotiation.Utters asking packet

structure Binds (asking : Bool) (move : Move (Disk × Connection)) : Prop where
  sent : ∀ x ∈ move.sent, negotiation.Utters asking x.packet
  running : ∀ run, move.state.2.state = .running run → negotiation.Bound asking run

/-- A server, and all that it has said. -/
structure Talks (asking : Bool) (server : Server) (told : List Server.Sent) : Prop where
  running : ∀ (number : Nat) (connection : Connection) (run : Run), server.connections[number]? = some connection →
    connection.state = .running run → negotiation.Bound asking run
  told : ∀ x ∈ told, negotiation.Utters asking x.transmission.packet ∧
    (x.origin = .listener → x.transmission.packet.opcode = .error)

structure Asks (client : Client) : Prop where
  session : client.run.transfer.session = .connect negotiation.ends.listener negotiation.patience
  size : client.run.party.blockSize = 512
  repeats : ∀ exchange packet, client.run.stage = .waiting exchange → exchange.repeated = some packet →
    packet = negotiation.request
  fails : ∀ result, client.run.stage = .ended result → ∃ failure, result = .error failure

/-- A client that has heard. -/
structure Follows (client : Client) : Prop where
  settled : (∀ failure, client.run.stage ≠ .ended (.error failure)) →
    (∃ number, client.run.transfer.session = ⟨.fixed (negotiation.ends.transfer number), negotiation.terms.timeout⟩) ∧
      client.run.party.blockSize = negotiation.terms.blockSize
  bare : negotiation.terms.anyAccepted = false →
    client.run.transfer.session.timeout = 5000 ∧ client.run.party.blockSize = 512

def Sends (asking : Bool) (sent : Transmission) : Prop :=
  (asking = true → sent.destination = negotiation.ends.listener) ∧
    (sent.destination = negotiation.ends.listener → sent.packet = negotiation.request ∨ sent.packet.opcode = .error)

structure Inv (system : LossySystem) : Prop where
  talks : negotiation.Talks system.client.requesting system.server system.told
  asks : system.client.requesting = true → negotiation.Asks system.client
  follows : system.client.requesting = false → negotiation.Follows system.client
  asked : ∀ x ∈ system.asked, negotiation.Sends system.client.requesting x

variable {negotiation} {asking : Bool}

theorem Utters.later {packet : Packet} (h : negotiation.Utters asking packet) : negotiation.Utters false packet := by
  refine h.imp_right fun h => ?_
  split at h
  · next ha =>
    rw [if_pos ha]
    exact fun hf => by cases hf
  · next ha =>
    rw [if_neg ha]
    exact h

theorem utters_block {packet : Packet} (h : packet.opcode ≠ .optionAck) : negotiation.Utters false packet := by
  refine .inr ?_
  split
  · exact fun hf => by cases hf
  · exact h

theorem Bound.later {run : Run} (h : negotiation.Bound asking run) : negotiation.Bound false run :=
  ⟨h.session, h.size, h.waits, fun exchange packet hw hp => (h.repeats exchange packet hw hp).later⟩

theorem Talks.later {server : Server} {told : List Server.Sent} (h : negotiation.Talks asking server told) :
    negotiation.Talks false server told :=
  ⟨fun number connection run hc hr => (h.running number connection run hc hr).later,
    fun x hx => ⟨(h.told x hx).1.later, (h.told x hx).2⟩⟩

theorem binds_settle (disk : Disk) (file : String) (created : Bool) (run : Run) (sent : List Transmission)
    (hs : ∀ x ∈ sent, negotiation.Utters asking x.packet)
    (hr : ∀ exchange, run.stage = .waiting exchange → negotiation.Bound asking run) :
    negotiation.Binds asking { state := Connection.settle disk file created run, sent } := by
  refine ⟨hs, fun next hn => ?_⟩
  obtain ⟨rfl, exchange, hw⟩ := Connection.run_of_settle hn
  exact hr exchange hw

theorem binds_ended (disk : Disk) (connection : Connection) (result : Except TransferFailure Unit)
    (h : connection.state = .ended result) : negotiation.Binds asking { state := (disk, connection) } := by
  refine ⟨fun x hx => (nomatch hx), fun run hr => ?_⟩
  rw [h] at hr
  cases hr

theorem onDatagram_binds (link : Link) (disk : Disk) (bytes : Bytes) (connection : Connection)
    (h : ∀ run, connection.state = .running run → negotiation.Bound false run) :
    negotiation.Binds false (connection.onDatagram link disk ⟨negotiation.ends.client, bytes⟩) := by
  obtain ⟨state, file, created⟩ := connection
  cases state with
  | ended result => exact binds_ended disk _ result rfl
  | running run =>
    have hbound := h run rfl
    obtain ⟨exchange, hw⟩ := hbound.waits
    have hspeaks := run.onDatagram_speaks link false disk ⟨negotiation.ends.client, bytes⟩ exchange hw
    have hquiet := run.onDatagram_offerless link false disk ⟨negotiation.ends.client, bytes⟩ exchange hw
    have hsession : (run.transfer.hear negotiation.ends.client).session = run.transfer.session := by
      rw [Transfer.hear, hbound.session]
      rfl
    refine binds_settle _ file created _ _ (fun x hx => utters_block (hquiet.sent x hx)) fun exchange hs => ?_
    exact ⟨(hspeaks.leaves.trans hsession).trans hbound.session, hspeaks.blocks.trans hbound.size, ⟨exchange, hs⟩,
      fun exchange packet hs hp => utters_block (hquiet.repeated exchange packet hs hp)⟩

theorem onTimeout_binds (link : Link) (disk : Disk) (connection : Connection)
    (h : ∀ run, connection.state = .running run → negotiation.Bound asking run) :
    negotiation.Binds asking (connection.onTimeout link disk) := by
  obtain ⟨state, file, created⟩ := connection
  cases state with
  | ended result => exact binds_ended disk _ result rfl
  | running run =>
    have hbound := h run rfl
    have heffect := StepEffect.of_expire link run.transfer run.stage
    have hrepeats : ∀ packet, (∃ exchange, run.stage = .waiting exchange ∧ exchange.repeated = some packet) →
        negotiation.Utters asking packet := fun packet ⟨exchange, hw, hp⟩ => hbound.repeats exchange packet hw hp
    refine binds_settle disk file created _ _ (fun x hx => ?_) fun exchange hs => ?_
    · exact (heffect.sent x hx).2.elim .inl (hrepeats x.packet)
    · exact ⟨heffect.session.trans hbound.session, hbound.size, ⟨exchange, hs⟩,
        fun exchange packet hs hp => hrepeats packet (heffect.repeated exchange packet hs hp)⟩

theorem onShutdown_binds (disk : Disk) (connection : Connection) :
    negotiation.Binds asking (connection.onShutdown disk) := by
  obtain ⟨state, file, created⟩ := connection
  cases state with
  | ended result => exact binds_ended disk _ result rfl
  | running run =>
    refine binds_settle disk file created _ _ (fun x hx => ?_) fun exchange hs => ?_
    · rw [List.mem_singleton.mp hx]
      exact .inl rfl
    · cases hs

theorem serve_binds (link : Link) (disk : Disk) {admission : Admission} {direction : Direction}
    {fields : List OptionField} (h : admission.Keeps negotiation.ends.client direction fields)
    (ht : negotiation.terms = (Options.ofFields fields).validate) :
    negotiation.Binds asking (Connection.serve link disk admission) := by
  rcases Connection.serve_cases link disk admission with
    ⟨code, -, hs⟩ | ⟨disk', transfer, created, party, hs, hserves⟩
  · rw [hs]
    refine ⟨fun x hx => ?_, fun run hr => (nomatch hr)⟩
    rw [List.mem_singleton.mp hx]
    exact .inl rfl
  · have hbears := Connection.bears_of_offers hserves.offers h.options
    rw [← ht] at hbears
    have hpermits : ∀ packet, Connection.Permits transfer.options packet → negotiation.Utters asking packet := by
      intro packet hp
      refine hp.imp_right fun hp => ?_
      rw [hbears.anyAccepted] at hp
      split at hp
      · next ha =>
        rw [if_pos ha]
        exact fun _ => ⟨_, hp, hbears.echoes⟩
      · next ha =>
        rw [if_neg ha]
        exact hp
    have hsession : transfer.session = ⟨.fixed negotiation.ends.client, negotiation.terms.timeout⟩ := by
      have hpeer : transfer.session.peer = .fixed negotiation.ends.client := by
        rw [hserves.peer, h.session]
        rfl
      have htimeout : transfer.session.timeout = negotiation.terms.timeout := by
        rcases hserves.timeout with hk | hk
        · rw [hk, h.session, ht]
          rfl
        · rw [hk, hbears.timeout]
      rw [← hpeer, ← htimeout]
    obtain ⟨hsent, hrunning⟩ := Connection.begin_permitted link disk' admission transfer created party
    rw [hs]
    refine ⟨fun x hx => hpermits x.packet (hsent x hx).2, fun run hr => ?_⟩
    have hfirst := hrunning run hr
    have hsize : party.blockSize = negotiation.terms.blockSize := by
      rw [hserves.size, h.options, ht]
    exact ⟨hfirst.session.trans hsession, hfirst.size.trans hsize, hfirst.waits,
      fun exchange packet hw hp => hpermits packet (hfirst.repeats exchange packet hw hp)⟩

theorem step_talks {server : Server} {told : List Server.Sent} (h : negotiation.Talks asking server told)
    (number : Nat) (disk : Disk) (next : Disk → Connection → Move (Disk × Connection))
    (hnext : ∀ connection, server.connections[number]? = some connection →
      negotiation.Binds asking (next disk connection)) :
    negotiation.Talks asking (server.step number disk next).server (told ++ (server.step number disk next).sent) := by
  rw [Server.step]
  split
  · rw [List.append_nil]
    exact h
  · next connection hc =>
    obtain ⟨hsent, hrunning⟩ := hnext connection hc
    refine ⟨fun n c run hn hr => ?_, fun x hx => ?_⟩
    · simp only [Server.settle_connections, List.getElem?_set] at hn
      split at hn
      · split at hn
        · cases hn
          exact hrunning run hr
        · cases hn
      · exact h.running n c run hn hr
    · rcases List.mem_append.mp hx with hx | hx
      · exact h.told x hx
      · obtain ⟨transmission, ht, rfl⟩ := List.mem_map.mp hx
        exact ⟨hsent transmission ht, fun hf => by cases hf⟩

theorem giveUp_talks (numbers : List Nat) {turn : Server.Turn} {told : List Server.Sent}
    (h : negotiation.Talks asking turn.server (told ++ turn.sent)) :
    negotiation.Talks asking (Server.giveUp numbers turn).server (told ++ (Server.giveUp numbers turn).sent) := by
  induction numbers generalizing turn with
  | nil => exact h
  | cons number numbers ih =>
    apply ih
    rw [← List.append_assoc]
    exact step_talks h number turn.disk _ fun connection _ => onShutdown_binds turn.disk connection

theorem onShutdown_talks {server : Server} {told : List Server.Sent} (h : negotiation.Talks asking server told)
    (disk : Disk) :
    negotiation.Talks asking (server.onShutdown disk).server (told ++ (server.onShutdown disk).sent) := by
  refine giveUp_talks _ ⟨h.running, ?_⟩
  rw [List.append_nil]
  exact h.told

theorem onRequest_talks (link : Link) (ports : Admission.Ports) {server : Server} {told : List Server.Sent}
    (h : negotiation.Talks asking server told) (disk : Disk) (packet : Packet)
    (hp : packet = negotiation.request ∨ packet.opcode = .error) :
    negotiation.Talks asking (server.onRequest link ports disk ⟨negotiation.ends.client, packet.encode⟩).server
      (told ++ (server.onRequest link ports disk ⟨negotiation.ends.client, packet.encode⟩).sent) := by
  rw [Server.onRequest]
  split
  · rw [List.append_nil]
    exact h
  split
  · next code _ =>
    refine ⟨h.running, fun x hx => ?_⟩
    rcases List.mem_append.mp hx with hx | hx
    · exact h.told x hx
    · rw [List.mem_singleton.mp hx]
      exact ⟨.inl rfl, fun _ => rfl⟩
  · next admission ha =>
    obtain ⟨direction, path, mode, fields, hdecode, hkeeps⟩ := Admission.ofDatagram_ok ha
    have hrequest : packet = negotiation.request := by
      refine hp.resolve_right fun he => ?_
      have hop := Packet.opcode_of_decode_encode packet _ hdecode
      rw [he] at hop
      cases direction <;> cases hop
    subst hrequest
    have hbinds : negotiation.Binds asking (Connection.serve link disk admission) :=
      serve_binds link disk hkeeps (negotiation.settles direction path mode fields hdecode)
    obtain ⟨hsent, hrunning⟩ := hbinds
    refine ⟨fun number connection run hc hr => ?_, fun x hx => ?_⟩
    · simp only [Server.attend_connections, List.getElem?_append] at hc
      split at hc
      · exact h.running number connection run hc hr
      · have hmem := List.mem_singleton.mp (List.mem_of_getElem? hc)
        rw [hmem] at hr
        exact hrunning run hr
    · rcases List.mem_append.mp hx with hx | hx
      · exact h.told x hx
      · obtain ⟨transmission, ht, rfl⟩ := List.mem_map.mp hx
        exact ⟨hsent transmission ht, fun hf => by cases hf⟩

structure Hears (move : Move (Disk × Client)) : Prop where
  requesting : move.state.2.requesting = false
  follows : negotiation.Follows move.state.2
  sent : ∀ x ∈ move.sent, negotiation.Sends false x

theorem follows_settle (disk : Disk) {client : Client} (h : negotiation.Follows client) :
    negotiation.Follows (Client.settle disk client).2 := by
  obtain ⟨htransfer, hparty, -⟩ := Client.settle_keeps disk client
  refine ⟨fun hf => ?_, fun ha => ?_⟩
  · rw [htransfer, hparty]
    refine h.settled fun failure hs => ?_
    obtain ⟨disk', hsettle⟩ := Client.settle_failed disk client failure hs
    rw [hsettle] at hf
    exact hf failure hs
  · rw [htransfer, hparty]
    exact h.bare ha

theorem sends_elsewhere {sent : Transmission} (h : sent.destination ≠ negotiation.ends.listener) :
    negotiation.Sends false sent :=
  ⟨fun hf => (nomatch hf), fun he => absurd he h⟩

theorem sends_error {sent : Transmission} (h : sent.packet.opcode = .error) : negotiation.Sends false sent :=
  ⟨fun hf => (nomatch hf), fun _ => .inr h⟩

structure Replies (source : Endpoint) (move : Move (Disk × Run)) : Prop where
  settled : (∀ failure, move.state.2.stage ≠ .ended (.error failure)) →
    move.state.2.transfer.session = ⟨.fixed source, negotiation.terms.timeout⟩ ∧ source ≠ negotiation.ends.listener ∧
      move.state.2.party.blockSize = negotiation.terms.blockSize
  bare : negotiation.terms.anyAccepted = false →
    move.state.2.transfer.session.timeout = 5000 ∧ move.state.2.party.blockSize = 512
  sent : ∀ x ∈ move.sent, negotiation.Sends false x

theorem receive_replies (link : Link) (stopped : Bool) (disk : Disk) {client : Client} (h : negotiation.Asks client)
    (hr : client.requesting = true) (exchange : Exchange) (hw : client.run.stage = .waiting exchange)
    (source : Endpoint) (packet : Packet) (hu : negotiation.Utters true packet)
    (hl : source = negotiation.ends.listener → packet.opcode = .error) :
    negotiation.Replies source (client.run.receive disk ⟨source, packet.encode⟩ (client.handle link stopped)) := by
  have hknown : (client.run.transfer.session.peer.hear source).endpoint = source := by
    rw [h.session]
    rfl
  have hhear : (client.run.transfer.hear source).session = ⟨.fixed source, negotiation.patience⟩ := by
    rw [Transfer.hear, h.session]
    rfl
  have hbare : ∀ {session : Session} {size : Nat} {move : Move (Disk × Run)}, Run.Speaks session size move →
      session = ⟨.fixed source, negotiation.patience⟩ → size = 512 → negotiation.terms.anyAccepted = false →
      move.state.2.transfer.session.timeout = 5000 ∧ move.state.2.party.blockSize = 512 := by
    intro session size move hs hsession hsize ha
    rw [hs.leaves, hs.blocks, hsession, hsize]
    exact ⟨(negotiation.bare ha).2.2, rfl⟩
  rw [Run.receive_known disk ⟨source, packet.encode⟩ _ client.run exchange hw hknown]
  simp only
  split
  · next read hread =>
    have hop := Packet.opcode_of_decode_encode packet read hread
    rw [Client.handle, if_pos hr]
    by_cases ho : read.opcode = .optionAck
    · -- the OACK brings the terms
      have hacked := hop.symm.trans ho
      have hsource : source ≠ negotiation.ends.listener := fun hs => by
        rw [hl hs] at hacked
        cases hacked
      have hoffer := hu.resolve_left fun he => by
        rw [he] at hacked
        cases hacked
      cases ha : negotiation.terms.anyAccepted with
      | false =>
        rw [ha, if_neg (by decide)] at hoffer
        exact absurd hacked hoffer
      | true =>
        rw [ha, if_pos rfl] at hoffer
        obtain ⟨accepted, rfl, hechoes⟩ := hoffer rfl
        rw [Packet.decode_encode (.optionAck accepted) hechoes.plain] at hread
        cases hread
        have hspeaks := Client.onReply_optionAck link stopped disk accepted
          { client.run with transfer := client.run.transfer.hear source }
        simp only [hhear, hechoes.timeout, hechoes.blockSize] at hspeaks
        refine ⟨fun _ => ⟨hspeaks.leaves, hsource, hspeaks.blocks⟩, fun hnone => ?_, fun x hx => ?_⟩
        · rw [ha] at hnone
          cases hnone
        · exact sends_elsewhere (by rw [hspeaks.sent x hx]; exact hsource)
    · -- any other packet leaves the client as it started
      have hspeaks := Run.onPacket_speaks link stopped disk read
        { client.run with transfer := { client.run.transfer.hear source with phase := .dataTransfer } }
      rw [Client.onReply_block link stopped disk read _ ho]
      by_cases he : packet.opcode = .error
      · cases read with
        | error code message =>
          obtain ⟨hsent, failure, hstage⟩ := Run.onPacket_error link stopped disk code message
            { client.run with transfer := { client.run.transfer.hear source with phase := .dataTransfer } }
          refine ⟨fun hf => absurd hstage (hf failure), hbare hspeaks hhear h.size, fun x hx => ?_⟩
          rw [hsent] at hx
          cases hx
        | _ =>
          rw [he] at hop
          cases hop
      · have hsource : source ≠ negotiation.ends.listener := fun hs => he (hl hs)
        have hnone : negotiation.terms.anyAccepted = false := by
          have hoffer := hu.resolve_left he
          cases ha : negotiation.terms.anyAccepted with
          | false => rfl
          | true =>
            rw [ha, if_pos rfl] at hoffer
            obtain ⟨accepted, rfl, -⟩ := hoffer rfl
            exact absurd hop ho
        obtain ⟨hsize, htimeout, hpatience⟩ := negotiation.bare hnone
        refine ⟨fun _ => ⟨?_, hsource, ?_⟩, hbare hspeaks hhear h.size, fun x hx => ?_⟩
        · rw [htimeout, ← hpatience]
          exact hspeaks.leaves.trans hhear
        · rw [hsize]
          exact hspeaks.blocks.trans h.size
        · refine sends_elsewhere ?_
          rw [hspeaks.sent x hx]
          change (client.run.transfer.hear source).session.peer.endpoint ≠ _
          rw [hhear]
          exact hsource
  · next malformation hread =>
    have hspeaks := Run.speaks_fail (client.run.transfer.hear source) (.malformed malformation.message) disk
      client.run.party
    refine ⟨fun hf => absurd rfl (hf _), hbare hspeaks hhear h.size, fun x hx => ?_⟩
    rw [List.mem_singleton.mp hx]
    exact sends_error rfl

theorem asks_settle (disk : Disk) {client : Client} (h : negotiation.Asks client) :
    negotiation.Asks (Client.settle disk client).2 := by
  cases hs : client.run.stage with
  | waiting exchange =>
    have hsettle : Client.settle disk client = (disk, client) := by
      simp only [Client.settle, hs]
    rw [hsettle]
    exact h
  | ended result =>
    obtain ⟨failure, rfl⟩ := h.fails result hs
    obtain ⟨disk', hsettle⟩ := Client.settle_failed disk client failure hs
    rw [hsettle]
    exact ⟨h.session, h.size, h.repeats, h.fails⟩

theorem Asks.follows {client : Client} (h : negotiation.Asks client) {result : Except TransferFailure Unit}
    (hs : client.run.stage = .ended result) : negotiation.Follows client := by
  obtain ⟨failure, rfl⟩ := h.fails result hs
  refine ⟨fun hf => absurd hs (hf failure), fun ha => ?_⟩
  rw [h.session, h.size]
  exact ⟨(negotiation.bare ha).2.2, rfl⟩

theorem asks_hears (link : Link) (stopped : Bool) (disk : Disk) {client : Client} (h : negotiation.Asks client)
    (hr : client.requesting = true) (origin : Server.Origin) (packet : Packet)
    (hu : negotiation.Utters true packet) (hl : origin = .listener → packet.opcode = .error) :
    negotiation.Hears (client.onDatagram link stopped disk ⟨negotiation.ends.origin origin, packet.encode⟩) := by
  rw [Client.onDatagram_eq]
  cases hw : client.run.stage with
  | ended result =>
    rw [Run.receive, hw]
    have hfollows := h.follows hw
    refine ⟨(Client.settle_keeps disk { client with requesting := false }).2.2,
      follows_settle disk ⟨hfollows.settled, hfollows.bare⟩, fun x hx => absurd hx List.not_mem_nil⟩
  | waiting exchange =>
    have hlistener : negotiation.ends.origin origin = negotiation.ends.listener → packet.opcode = .error := by
      cases origin with
      | listener => exact fun _ => hl rfl
      | connection number => exact fun hs => absurd hs (negotiation.ends.transfer_ne_listener number)
    obtain ⟨hsettled, hbare, hsent⟩ := receive_replies link stopped disk h hr exchange hw _ packet hu hlistener
    refine ⟨(Client.settle_keeps _ _).2.2, follows_settle _ ⟨fun hf => ?_, hbare⟩, hsent⟩
    obtain ⟨hsession, hsource, hsize⟩ := hsettled hf
    cases origin with
    | listener => exact absurd rfl hsource
    | connection number => exact ⟨⟨number, hsession⟩, hsize⟩

theorem follows_hears (link : Link) (stopped : Bool) (disk : Disk) {client : Client} (h : negotiation.Follows client)
    (hr : client.requesting = false) (datagram : Datagram) :
    negotiation.Hears (client.onDatagram link stopped disk datagram) := by
  rw [Client.onDatagram_eq]
  cases hw : client.run.stage with
  | ended result =>
    rw [Run.receive, hw]
    exact ⟨(Client.settle_keeps disk { client with requesting := false }).2.2,
      follows_settle disk ⟨h.settled, h.bare⟩, fun x hx => absurd hx List.not_mem_nil⟩
  | waiting exchange =>
    obtain ⟨⟨number, hsession⟩, hsize⟩ := h.settled fun failure hs => by
      rw [hw] at hs
      cases hs
    have hspeaks := Run.onDatagram_speaks link stopped disk datagram client.run exchange hw
    have hhear : (client.run.transfer.hear datagram.source).session = client.run.transfer.session := by
      rw [Transfer.hear, hsession]
      rfl
    rw [hhear] at hspeaks
    have hhandle : client.handle link stopped = Run.onPacket link stopped := by
      rw [Client.handle, if_neg (by rw [hr]; decide)]
    rw [hhandle]
    refine ⟨(Client.settle_keeps _ _).2.2, follows_settle _ ⟨fun _ => ?_, fun ha => ?_⟩, fun x hx => ?_⟩
    · exact ⟨⟨number, hspeaks.leaves.trans hsession⟩, hspeaks.blocks.trans hsize⟩
    · obtain ⟨htimeout, hblocks⟩ := h.bare ha
      exact ⟨(congrArg Session.timeout hspeaks.leaves).trans htimeout, hspeaks.blocks.trans hblocks⟩
    · refine sends_elsewhere ?_
      rw [hspeaks.sent x hx, hsession]
      exact negotiation.ends.transfer_ne_listener number

theorem asks_onTimeout (link : Link) (disk : Disk) {client : Client} (h : negotiation.Asks client) :
    negotiation.Asks (client.onTimeout link disk).state.2 ∧
      ∀ x ∈ (client.onTimeout link disk).sent, negotiation.Sends true x := by
  have heffect := StepEffect.of_expire link client.run.transfer client.run.stage
  have hrepeats : ∀ packet, (∃ exchange, client.run.stage = .waiting exchange ∧ exchange.repeated = some packet) →
      packet = negotiation.request := fun packet ⟨exchange, hw, hp⟩ => h.repeats exchange packet hw hp
  refine ⟨asks_settle disk ⟨heffect.session.trans h.session, h.size, fun exchange packet hw hp => ?_,
    fun result hs => ?_⟩, fun x hx => ?_⟩
  · exact hrepeats packet (heffect.repeated exchange packet hw hp)
  · cases result with
    | error failure => exact ⟨failure, rfl⟩
    | ok u =>
      obtain ⟨failure, hf⟩ := h.fails _ (heffect.success hs)
      cases hf
  · obtain ⟨hd, hsaid⟩ := heffect.sent x hx
    rw [h.session] at hd
    exact ⟨fun _ => hd, fun _ => hsaid.symm.imp_left (hrepeats x.packet)⟩

theorem follows_onTimeout (link : Link) (disk : Disk) {client : Client} (h : negotiation.Follows client) :
    negotiation.Follows (client.onTimeout link disk).state.2 ∧
      ∀ x ∈ (client.onTimeout link disk).sent, negotiation.Sends false x := by
  cases hw : client.run.stage with
  | ended result =>
    rw [Client.onTimeout, Run.onTimeout_ended link client.run result hw]
    exact ⟨follows_settle disk h, fun x hx => absurd hx List.not_mem_nil⟩
  | waiting exchange =>
    obtain ⟨⟨number, hsession⟩, hsize⟩ := h.settled fun failure hs => by
      rw [hw] at hs
      cases hs
    have hspeaks := Run.onTimeout_speaks link disk client.run
    refine ⟨follows_settle disk ⟨fun _ => ?_, fun ha => ?_⟩, fun x hx => ?_⟩
    · exact ⟨⟨number, hspeaks.leaves.trans hsession⟩, hspeaks.blocks.trans hsize⟩
    · obtain ⟨htimeout, hblocks⟩ := h.bare ha
      exact ⟨(congrArg Session.timeout hspeaks.leaves).trans htimeout, hspeaks.blocks.trans hblocks⟩
    · refine sends_elsewhere ?_
      rw [hspeaks.sent x hx, hsession]
      exact negotiation.ends.transfer_ne_listener number

theorem Sends.later {sent : Transmission} (h : negotiation.Sends asking sent) : negotiation.Sends false sent :=
  ⟨fun hf => (nomatch hf), h.2⟩

theorem mem_of_toldAt {ends : Ends} {system : LossySystem} {place : Nat} {datagram : Datagram}
    (h : system.toldAt? ends place = some datagram) :
    ∃ x ∈ system.told, datagram = ⟨ends.origin x.origin, x.transmission.packet.encode⟩ := by
  rw [toldAt?] at h
  split at h
  · next x hx =>
    split at h
    · cases h
      exact ⟨x, List.mem_of_getElem? hx, rfl⟩
    · cases h
  · cases h

theorem mem_of_askedAt {ends : Ends} {system : LossySystem} {place : Nat} {goal : Endpoint} {datagram : Datagram}
    (h : system.askedAt? ends place goal = some datagram) :
    ∃ x ∈ system.asked, x.destination = goal ∧ datagram = ⟨ends.client, x.packet.encode⟩ := by
  rw [askedAt?] at h
  split at h
  · next x hx =>
    split at h
    · next hgoal =>
      cases h
      exact ⟨x, List.mem_of_getElem? hx, hgoal, rfl⟩
    · cases h
  · cases h

/-- Once it has heard, the client has no more requests to send. -/
theorem inv_hears {system : LossySystem} (h : negotiation.Inv system) {move : Move (Disk × Client)}
    (hm : negotiation.Hears move) : negotiation.Inv (system.takeClient move) := by
  have hrequesting : (system.takeClient move).client.requesting = false := hm.requesting
  refine ⟨?_, fun hr => ?_, fun _ => hm.follows, fun x hx => ?_⟩
  · rw [hrequesting]
    exact h.talks.later
  · rw [hrequesting] at hr
    cases hr
  · rw [hrequesting]
    rcases List.mem_append.mp hx with hx | hx
    · exact (h.asked x hx).later
    · exact hm.sent x hx

theorem inv_answer (link : Link) {system : LossySystem} (h : negotiation.Inv system) {place : Nat} {datagram : Datagram}
    (ht : system.toldAt? negotiation.ends place = some datagram) :
    negotiation.Inv (system.takeClient (system.client.onDatagram link system.stopped system.clientDisk datagram)) := by
  obtain ⟨x, hx, rfl⟩ := mem_of_toldAt ht
  obtain ⟨hutters, hlistener⟩ := h.talks.told x hx
  apply inv_hears h
  cases hr : system.client.requesting with
  | true =>
    rw [hr] at hutters
    exact asks_hears link system.stopped system.clientDisk (h.asks hr) hr x.origin _ hutters hlistener
  | false => exact follows_hears link system.stopped system.clientDisk (h.follows hr) hr _

theorem inv_clientTimeout (link : Link) {system : LossySystem} (h : negotiation.Inv system) :
    negotiation.Inv (system.takeClient (system.client.onTimeout link system.clientDisk)) := by
  have hkeeps : (system.client.onTimeout link system.clientDisk).state.2.requesting = system.client.requesting :=
    (Client.settle_keeps _ _).2.2
  have hafter : negotiation.Sends system.client.requesting = negotiation.Sends
      (system.takeClient (system.client.onTimeout link system.clientDisk)).client.requesting := by
    rw [← hkeeps]
    rfl
  refine ⟨?_, fun hr => ?_, fun hr => ?_, fun x hx => ?_⟩
  · change negotiation.Talks (system.client.onTimeout link system.clientDisk).state.2.requesting _ _
    rw [hkeeps]
    exact h.talks
  · exact (asks_onTimeout link system.clientDisk (h.asks (hkeeps ▸ hr))).1
  · exact (follows_onTimeout link system.clientDisk (h.follows (hkeeps ▸ hr))).1
  · rw [← hafter]
    rcases List.mem_append.mp hx with hx | hx
    · exact h.asked x hx
    · cases hr : system.client.requesting with
      | true => exact (asks_onTimeout link system.clientDisk (h.asks hr)).2 x hx
      | false => exact (follows_onTimeout link system.clientDisk (h.follows hr)).2 x hx

theorem inv_server {system : LossySystem} (h : negotiation.Inv system) {turn : Server.Turn}
    (ht : negotiation.Talks system.client.requesting turn.server (system.told ++ turn.sent)) :
    negotiation.Inv (system.takeServer turn) :=
  ⟨ht, h.asks, h.follows, h.asked⟩

theorem not_requesting {system : LossySystem} (h : negotiation.Inv system) {x : Transmission} (hx : x ∈ system.asked)
    {number : Nat} (hd : x.destination = negotiation.ends.transfer number) : system.client.requesting = false := by
  cases hr : system.client.requesting with
  | false => rfl
  | true =>
    have hlistener := (h.asked x hx).1 hr
    exact absurd (hd.symm.trans hlistener) (negotiation.ends.transfer_ne_listener number)

theorem step_inv (link : Link) {system : LossySystem} (h : negotiation.Inv system) (event : Event) :
    negotiation.Inv (system.step link negotiation.ends event) := by
  cases event with
  | answer place =>
    rw [step]
    split
    · next datagram ht => exact inv_answer link h ht
    · exact h
  | request place ports =>
    rw [step]
    split
    · next datagram ha =>
      obtain ⟨x, hx, hd, rfl⟩ := mem_of_askedAt ha
      exact inv_server h (onRequest_talks link ports h.talks system.serverDisk x.packet ((h.asked x hx).2 hd))
    · exact h
  | reply number place =>
    rw [step]
    split
    · next datagram ha =>
      obtain ⟨x, hx, hd, rfl⟩ := mem_of_askedAt ha
      have htalks := h.talks
      have hr := not_requesting h hx hd
      refine inv_server h ?_
      rw [hr] at htalks ⊢
      exact step_talks htalks number system.serverDisk _ fun connection hc =>
        onDatagram_binds link system.serverDisk x.packet.encode connection fun run =>
          htalks.running number connection run hc
    · exact h
  | clientTimeout => exact inv_clientTimeout link h
  | serverTimeout number =>
    refine inv_server h (step_talks h.talks number system.serverDisk _ fun connection hc => ?_)
    exact onTimeout_binds link system.serverDisk connection fun run => h.talks.running number connection run hc
  | clientStop => exact ⟨h.talks, h.asks, h.follows, h.asked⟩
  | serverStop => exact inv_server h (onShutdown_talks h.talks system.serverDisk)

theorem run_inv (link : Link) (events : List Event) {system : LossySystem} (h : negotiation.Inv system) :
    negotiation.Inv (system.run link negotiation.ends events) := by
  induction events generalizing system with
  | nil => exact h
  | cons event events ih => exact ih (step_inv link h event)

end Negotiation

end LossySystem

end Tftp
