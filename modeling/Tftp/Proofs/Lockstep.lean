import Tftp.Proofs.Blocks
import Tftp.Proofs.Frame
import Tftp.Proofs.Negotiation
import Tftp.Proofs.StepEffect

namespace Tftp

theorem Packet.length_encode_data (block : UInt16) (payload : Bytes) :
    (Packet.data block payload).encode.length = payload.length + 4 := by
  simp [Packet.encode, Wire.encodeBody, Wire.encodeWord]

theorem Packet.length_encode_ack (block : UInt16) : (Packet.ack block).encode.length = 4 := by
  simp [Packet.encode, Wire.encodeBody, Wire.encodeWord]

theorem Packet.data_fits {size : Nat} (hb : size ≤ Options.Known.blksize.greatest) (wire : Bytes)
    (block : UInt16) (n : Nat) :
    (Packet.data block (Block.payload size wire n)).encode.length ≤ Link.maxPayload := by
  have hle : (Block.payload size wire n).length ≤ size := Block.length_payload_le n
  rw [length_encode_data]
  simp only [Link.maxPayload, Options.Known.greatest] at hb ⊢
  omega

theorem Packet.ack_fits (block : UInt16) : (Packet.ack block).encode.length ≤ Link.maxPayload := by
  rw [length_encode_ack]
  decide

theorem Session.send_fits (packet : Packet) (h : packet.encode.length ≤ Link.maxPayload) :
    Session.send .connected packet = .ok () := by
  have hmax : ¬Link.maxLength < packet.encode.length := by
    simp only [Link.maxPayload, Link.maxLength] at h ⊢
    omega
  simp only [Session.send, Link.refusal?, if_neg hmax, if_neg (Nat.not_lt.mpr h)]

theorem Stage.exchange_fits (transfer : Transfer) (packet : Packet)
    (h : packet.encode.length ≤ Link.maxPayload) :
    Stage.exchange .connected transfer (some packet) =
      { state := ({ transfer with lastPacket := some packet }, .waiting { repeated := some packet, left := 2 })
        sent := [⟨transfer.session.peer.endpoint, packet⟩] } := by
  simp only [Stage.exchange, Transfer.exchange, Exchange.openWindow, Exchange.windows, Move.map,
    Move.andThen, Session.send_fits packet h, Stage.ofProgress, Session.address, List.append_nil]

namespace Run

/-- A run that has handed out some blocks and waits for the next acknowledgment. -/
structure Sending (disk : Disk) (mode : Mode) (size : Nat) (wire : Bytes) (peer : Endpoint)
    (handed : Nat) (run : Run) : Prop where
  party : ∃ sender, run.party = .sender sender ∧ sender.At disk mode size wire handed
  stage : ∃ exchange, run.stage = .waiting exchange
  peer : run.transfer.session.peer = .fixed peer

/-- A run that has stored some blocks and waits for the next one. -/
structure Receiving (disk : Disk) (mode : Mode) (size : Nat) (wire : Bytes) (peer : Endpoint)
    (stored : Nat) (run : Run) : Prop where
  party : ∃ receiver, run.party = .receiver receiver ∧ receiver.At disk mode size wire stored
  stage : ∃ exchange, run.stage = .waiting exchange
  peer : run.transfer.session.peer = .fixed peer
  fresh : run.transfer.pendingError = none

variable {disk : Disk} {mode : Mode} {size : Nat} {wire : Bytes} {peer : Endpoint} {run : Run}

theorem onDatagram_packet (link : Link) (stopped : Bool) (packet : Packet) (hp : packet.Plain)
    (hs : ∃ exchange, run.stage = .waiting exchange)
    (hpeer : run.transfer.session.peer = .fixed peer) :
    run.onDatagram link stopped disk ⟨peer, packet.encode⟩ = run.onPacket link stopped disk packet := by
  obtain ⟨exchange, hw⟩ := hs
  rw [onDatagram, receive_fixed disk _ _ run exchange hw hpeer, Packet.decode_encode packet hp]

theorem Sending.hears_ack (hs : 0 < size) (hb : size ≤ Options.Known.blksize.greatest) {handed : Nat}
    (h : run.Sending disk mode size wire peer handed) (hn : handed < Block.count size wire) :
    ∃ next, run.onDatagram .connected false disk ⟨peer, (Packet.ack (.ofNat handed)).encode⟩ =
        { state := (disk, next)
          sent := [⟨peer, .data (.ofNat (handed + 1)) (Block.payload size wire (handed + 1))⟩] } ∧
      next.Sending disk mode size wire peer (handed + 1) := by
  obtain ⟨⟨sender, hp, hat⟩, hstage, hpeer⟩ := h
  obtain ⟨next, hnext, hat'⟩ := Block.Sender.onAck_due hs hat hn
  rw [onDatagram_packet .connected false (.ack (.ofNat handed)) trivial hstage hpeer, onPacket]
  simp only [Block.Party.onPacket, hp, Block.Sender.onPacket, hnext, Stage.act,
    Stage.exchange_fits _ _ (Packet.data_fits hb wire _ _), hpeer, Move.map, Peer.endpoint]
  exact ⟨_, rfl, ⟨next, rfl, hat'⟩, ⟨_, rfl⟩, hpeer⟩

theorem Sending.hears_last {handed : Nat} (h : run.Sending disk mode size wire peer handed)
    (hn : handed = Block.count size wire) :
    ∃ next, run.onDatagram .connected false disk ⟨peer, (Packet.ack (.ofNat handed)).encode⟩ =
        { state := (disk, next), sent := [] } ∧
      next.stage = .ended (.ok ()) ∧ next.party = run.party := by
  obtain ⟨⟨sender, hp, hat⟩, hstage, hpeer⟩ := h
  rw [onDatagram_packet .connected false (.ack (.ofNat handed)) trivial hstage hpeer, onPacket]
  simp only [Block.Party.onPacket, hp, Block.Sender.onPacket, Block.Sender.onAck_final hat hn]
  exact ⟨_, rfl, rfl, rfl⟩

theorem Receiving.hears_data (hs : 0 < size) {stored : Nat}
    (h : run.Receiving disk mode size wire peer stored) (hn : stored + 1 < Block.count size wire) :
    ∃ disk' next, run.onDatagram .connected false disk
        ⟨peer, (Packet.data (.ofNat (stored + 1)) (Block.payload size wire (stored + 1))).encode⟩ =
        { state := (disk', next), sent := [⟨peer, .ack (.ofNat (stored + 1))⟩] } ∧
      next.Receiving disk' mode size wire peer (stored + 1) := by
  obtain ⟨⟨receiver, hp, hat⟩, hstage, hpeer, hfresh⟩ := h
  obtain ⟨disk', next, hnext, hat'⟩ := Block.Receiver.onData_due hs hat hn
  rw [onDatagram_packet .connected false (.data _ _) trivial hstage hpeer, onPacket]
  simp only [Block.Party.onPacket, hp, Block.Receiver.onPacket, hnext, Stage.act,
    Stage.exchange_fits _ _ (Packet.ack_fits _), hpeer, Move.map, Peer.endpoint]
  exact ⟨_, _, rfl, ⟨next, rfl, hat'⟩, ⟨_, rfl⟩, hpeer, hfresh⟩

theorem Receiving.hears_last (hs : 0 < size) {stored : Nat}
    (h : run.Receiving disk mode size wire peer stored) (hn : stored + 1 = Block.count size wire) :
    ∃ disk' next, run.onDatagram .connected false disk
        ⟨peer, (Packet.data (.ofNat (stored + 1)) (Block.payload size wire (stored + 1))).encode⟩ =
        { state := (disk', next), sent := [⟨peer, .ack (.ofNat (stored + 1))⟩] } ∧
      next.stage = .ended (.ok ()) ∧
      ∃ receiver, next.party = .receiver receiver ∧ receiver.blockSize = size ∧
        receiver.store.sink.Holds disk' (mode.hostForm wire) := by
  obtain ⟨⟨receiver, hp, hat⟩, hstage, hpeer, hfresh⟩ := h
  obtain ⟨disk', next, hnext, -, hsize, hsink⟩ := Block.Receiver.onData_last hs hat hn
  obtain ⟨last, hact⟩ := StepEffect.act_terminate .connected run.transfer
    (.ack (.ofNat (stored + 1))) (fun hop => by cases hop) hfresh
  rw [onDatagram_packet .connected false (.data _ _) trivial hstage hpeer, onPacket]
  simp only [Block.Party.onPacket, hp, Block.Receiver.onPacket, hnext, hact, Session.address, hpeer,
    Move.map, Peer.endpoint]
  exact ⟨_, _, rfl, rfl, next, rfl, hsize, hsink⟩

end Run

end Tftp
