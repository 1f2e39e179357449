import Tftp.Client.Basic
import Tftp.Proofs.StepEffect
import Tftp.Server.Connection

namespace Tftp

namespace StepEffect

theorem of_stoppable (link : Link) (stopped : Bool) (transfer : Transfer) (action : Block.Action) :
    StepEffect transfer (Asked action) (fun packet => action = .send packet) (Succeeds action)
      (Stage.act link stopped transfer action) := by
  cases stopped with
  | false => exact of_act link transfer action
  | true => exact of_ended transfer _ (.error .cancelled) _ _ _ rfl fun h => by cases h

end StepEffect

theorem Peer.hear_stranger {peer : Peer} {source : Endpoint} (h : (peer.hear source).endpoint ≠ source) :
    peer.hear source = peer := by
  cases peer with
  | unconfirmed endpoint => exact absurd rfl h
  | fixed endpoint => rfl

def Packet.Optionless (packet : Packet) : Prop :=
  packet.opcode = .data ∨ packet.opcode = .ack ∨ packet.opcode = .error

theorem Packet.Optionless.ne_optionAck {packet : Packet} (h : packet.Optionless) : packet.opcode ≠ .optionAck := by
  rcases h with h | h | h <;> rw [h] <;> decide

namespace Block

theorem Sender.onAck_blockSize (disk : Disk) (block : UInt16) (sender : Sender) :
    (sender.onAck disk block).1.blockSize = sender.blockSize := by
  have hnext : (sender.nextBlock disk).1.blockSize = sender.blockSize := by
    rw [nextBlock]
    split <;> rfl
  rw [onAck]
  split
  · split
    · rfl
    · exact hnext
  · rfl
  · rfl

theorem Receiver.onData_blockSize (disk : Disk) (block : UInt16) (payload : Bytes) (receiver : Receiver) :
    (receiver.onData disk block payload).2.1.blockSize = receiver.blockSize := by
  have haccept : (receiver.accept disk payload).2.1.blockSize = receiver.blockSize := by
    rw [accept]
    split
    · rfl
    split
    · rfl
    · simp only
      split
      · split <;> rfl
      · rfl
  rw [onData]
  split
  · exact haccept
  · rfl
  · rfl

namespace Action

def Offerless (action : Action) : Prop :=
  ∀ packet, StepEffect.Asked action packet → packet.opcode ≠ .optionAck

def Optionless (action : Action) : Prop :=
  ∀ packet, StepEffect.Asked action packet → packet.Optionless

theorem Optionless.offerless {action : Action} (h : action.Optionless) : action.Offerless :=
  fun packet hp => (h packet hp).ne_optionAck

theorem optionless_send {packet : Packet} (h : packet.Optionless) : Optionless (.send packet) :=
  fun _ hp => StepEffect.eq_of_asked_send hp ▸ h

theorem optionless_terminate {packet : Packet} (h : packet.Optionless) : Optionless (.terminate packet) :=
  fun _ hp => StepEffect.eq_of_asked_terminate hp ▸ h

theorem optionless_listen : Optionless .listen :=
  fun packet hp => absurd hp (StepEffect.not_asked_listen packet)

theorem optionless_close (reason : Option String) : Optionless (.close reason) :=
  fun packet hp => absurd hp (StepEffect.not_asked_close reason packet)

end Action

theorem Sender.onAck_optionless (disk : Disk) (block : UInt16) (sender : Sender) :
    (sender.onAck disk block).2.Optionless := by
  rw [onAck]
  split
  · split
    · exact Action.optionless_close none
    · rw [nextBlock]
      split
      · exact Action.optionless_send (.inl rfl)
      · exact Action.optionless_terminate (.inr (.inr rfl))
  · exact Action.optionless_listen
  · exact Action.optionless_terminate (.inr (.inr rfl))

theorem Receiver.onData_optionless (disk : Disk) (block : UInt16) (payload : Bytes) (receiver : Receiver) :
    (receiver.onData disk block payload).2.2.Optionless := by
  have hack : ∀ n, (Packet.ack n).Optionless := fun _ => .inr (.inl rfl)
  have hfail : ∀ code, (Packet.standardError code).Optionless := fun _ => .inr (.inr rfl)
  rw [onData]
  split
  · rw [accept]
    split
    · exact Action.optionless_terminate (hfail _)
    split
    · exact Action.optionless_terminate (hfail _)
    · simp only
      split
      · split
        · exact Action.optionless_terminate (hfail _)
        · exact Action.optionless_terminate (hack _)
      · exact Action.optionless_send (hack _)
  · exact Action.optionless_send (hack _)
  · exact Action.optionless_terminate (hfail _)

namespace Party

theorem onPacket_blockSize (disk : Disk) (packet : Packet) (party : Party) :
    (party.onPacket disk packet).2.1.blockSize = party.blockSize := by
  cases party with
  | sender s =>
    cases packet with
    | ack block => exact s.onAck_blockSize disk block
    | _ => rfl
  | receiver r =>
    cases packet with
    | data block payload => exact r.onData_blockSize disk block payload
    | _ => rfl

theorem start_blockSize (disk : Disk) (party : Party) :
    (party.start disk).2.1.blockSize = party.blockSize := by
  cases party with
  | sender s => exact s.onAck_blockSize disk 0
  | receiver r => rfl

theorem onPacket_optionless (disk : Disk) (packet : Packet) (party : Party) :
    (party.onPacket disk packet).2.2.Optionless := by
  cases party with
  | sender s =>
    cases packet with
    | ack block => exact s.onAck_optionless disk block
    | error code message => exact Action.optionless_close _
    | _ => exact Action.optionless_terminate (.inr (.inr rfl))
  | receiver r =>
    cases packet with
    | data block payload => exact r.onData_optionless disk block payload
    | error code message => exact Action.optionless_close _
    | _ => exact Action.optionless_terminate (.inr (.inr rfl))

theorem start_optionless (disk : Disk) (party : Party) : (party.start disk).2.2.Optionless := by
  cases party with
  | sender s => exact s.onAck_optionless disk 0
  | receiver r => exact Action.optionless_send (.inr (.inl rfl))

theorem setBlockSize_blockSize (size : Nat) (party : Party) : (party.setBlockSize size).blockSize = size := by
  cases party <;> rfl

end Party

end Block

namespace Run

/-- A step that leaves this session and blocks of this size, and speaks to the session's peer only. -/
structure Speaks (session : Session) (size : Nat) (move : Move (Disk × Run)) : Prop where
  leaves : move.state.2.transfer.session = session
  blocks : move.state.2.party.blockSize = size
  sent : ∀ x ∈ move.sent, x.destination = session.peer.endpoint

theorem Speaks.of_effect {transfer : Transfer} {tells repeats : Packet → Prop} {succeeds : Prop}
    {move : Move (Transfer × Stage)} (h : StepEffect transfer tells repeats succeeds move) (disk : Disk)
    (party : Block.Party) :
    Speaks transfer.session party.blockSize (move.map fun next => (disk, ofStage party next)) :=
  ⟨h.session, rfl, fun x hx => (h.sent x hx).1⟩

theorem speaks_fail (transfer : Transfer) (failure : ExchangeFailure) (disk : Disk) (party : Block.Party) :
    Speaks transfer.session party.blockSize
      ((Stage.finish (transfer.failExchange failure)).map fun next => (disk, ofStage party next)) :=
  .of_effect (StepEffect.of_fail transfer failure.code failure.wireMessage (fun _ => False)
    (fun _ => False) False) disk party

theorem onPacket_speaks (link : Link) (stopped : Bool) (disk : Disk) (packet : Packet) (run : Run) :
    Speaks run.transfer.session run.party.blockSize (run.onPacket link stopped disk packet) := by
  rw [← Block.Party.onPacket_blockSize disk packet run.party]
  exact .of_effect (StepEffect.of_stoppable link stopped run.transfer _) _ _

theorem onTimeout_speaks (link : Link) (disk : Disk) (run : Run) :
    Speaks run.transfer.session run.party.blockSize ((run.onTimeout link).map fun run => (disk, run)) :=
  .of_effect (StepEffect.of_expire link run.transfer run.stage) disk run.party

theorem onTimeout_ended (link : Link) (run : Run) (result : Except TransferFailure Unit)
    (h : run.stage = .ended result) : run.onTimeout link = { state := run } := by
  obtain ⟨transfer, party, stage⟩ := run
  cases h
  rfl

theorem receive_speaks {disk : Disk} {datagram : Datagram}
    {handle : Disk → Packet → Run → Move (Disk × Run)} {run : Run} {exchange : Exchange}
    {P : Session → Nat → Prop} (hw : run.stage = .waiting exchange)
    (hstay : P (run.transfer.hear datagram.source).session run.party.blockSize)
    (hh : ∀ packet, ∃ session size, P session size ∧
      Speaks session size (handle disk packet { run with transfer := run.transfer.hear datagram.source })) :
    ∃ session size, P session size ∧ Speaks session size (run.receive disk datagram handle) := by
  by_cases hp : (run.transfer.session.peer.hear datagram.source).endpoint = datagram.source
  · rw [receive_known disk datagram handle run exchange hw hp]
    cases Packet.decode datagram.bytes with
    | ok packet => exact hh packet
    | error malformation => exact ⟨_, _, hstay, speaks_fail _ _ disk run.party⟩
  · rw [receive_stranger disk datagram handle run exchange hw hp]
    have hheard : run.transfer.hear datagram.source = run.transfer := by
      rw [Transfer.hear, Peer.hear_stranger hp]
    rw [hheard] at hstay
    exact ⟨_, _, hstay, speaks_fail _ _ disk run.party⟩

theorem onDatagram_speaks (link : Link) (stopped : Bool) (disk : Disk) (datagram : Datagram) (run : Run)
    (exchange : Exchange) (hw : run.stage = .waiting exchange) :
    Speaks (run.transfer.hear datagram.source).session run.party.blockSize
      (run.onDatagram link stopped disk datagram) := by
  have h : ∃ session size, (session = (run.transfer.hear datagram.source).session ∧ size = run.party.blockSize) ∧
      Speaks session size (run.receive disk datagram (onPacket link stopped)) :=
    receive_speaks (P := fun session size => session = _ ∧ size = _) hw ⟨rfl, rfl⟩ fun packet =>
      ⟨_, _, ⟨rfl, rfl⟩, onPacket_speaks link stopped disk packet
        { run with transfer := run.transfer.hear datagram.source }⟩
  obtain ⟨session, size, ⟨rfl, rfl⟩, hspeaks⟩ := h
  exact hspeaks

/-- A transfer that has begun sends no OACK, and keeps none to repeat. -/
structure Offerless (move : Move (Disk × Run)) : Prop where
  sent : ∀ x ∈ move.sent, x.packet.opcode ≠ .optionAck
  repeated : ∀ exchange packet, move.state.2.stage = .waiting exchange → exchange.repeated = some packet →
    packet.opcode ≠ .optionAck

/-- A step that sends packets without options only, and keeps no other to repeat. -/
structure Optionless (move : Move (Disk × Run)) : Prop where
  sent : ∀ x ∈ move.sent, x.packet.Optionless
  repeated : ∀ exchange packet, move.state.2.stage = .waiting exchange → exchange.repeated = some packet →
    packet.Optionless

theorem Optionless.offerless {move : Move (Disk × Run)} (h : Optionless move) : Offerless move :=
  ⟨fun x hx => (h.sent x hx).ne_optionAck, fun exchange packet hw hp => (h.repeated exchange packet hw hp).ne_optionAck⟩

theorem Optionless.of_effect {transfer : Transfer} {tells repeats : Packet → Prop} {succeeds : Prop}
    {move : Move (Transfer × Stage)} (h : StepEffect transfer tells repeats succeeds move)
    (ht : ∀ packet, tells packet → packet.Optionless) (hr : ∀ packet, repeats packet → packet.Optionless)
    (disk : Disk) (party : Block.Party) : Optionless (move.map fun next => (disk, ofStage party next)) :=
  ⟨fun x hx => (h.sent x hx).2.elim (fun he => .inr (.inr he)) (ht x.packet),
    fun exchange packet hw hp => hr packet (h.repeated exchange packet hw hp)⟩

theorem optionless_fail (transfer : Transfer) (failure : ExchangeFailure) (disk : Disk) (party : Block.Party) :
    Optionless ((Stage.finish (transfer.failExchange failure)).map fun next => (disk, ofStage party next)) :=
  .of_effect (StepEffect.of_fail transfer failure.code failure.wireMessage (fun _ => False) (fun _ => False) False)
    (fun _ h => h.elim) (fun _ h => h.elim) disk party

theorem optionless_act (link : Link) (stopped : Bool) (transfer : Transfer) {action : Block.Action}
    (h : action.Optionless) (disk : Disk) (party : Block.Party) :
    Optionless ((Stage.act link stopped transfer action).map fun next => (disk, ofStage party next)) :=
  .of_effect (StepEffect.of_stoppable link stopped transfer action) h (fun packet hs => h packet (.inl hs)) disk party

theorem onPacket_optionless (link : Link) (stopped : Bool) (disk : Disk) (packet : Packet) (run : Run) :
    Optionless (run.onPacket link stopped disk packet) :=
  optionless_act link stopped run.transfer (Block.Party.onPacket_optionless disk packet run.party) _ _

theorem receive_optionless {disk : Disk} (datagram : Datagram) {handle : Disk → Packet → Run → Move (Disk × Run)}
    {run : Run} {exchange : Exchange} (hw : run.stage = .waiting exchange)
    (h : ∀ packet run, Optionless (handle disk packet run)) : Optionless (run.receive disk datagram handle) := by
  by_cases hp : (run.transfer.session.peer.hear datagram.source).endpoint = datagram.source
  · rw [receive_known disk datagram handle run exchange hw hp]
    cases Packet.decode datagram.bytes with
    | ok packet => exact h packet _
    | error malformation => exact optionless_fail _ _ disk run.party
  · rw [receive_stranger disk datagram handle run exchange hw hp]
    exact optionless_fail _ _ disk run.party

theorem onDatagram_offerless (link : Link) (stopped : Bool) (disk : Disk) (datagram : Datagram) (run : Run)
    (exchange : Exchange) (hw : run.stage = .waiting exchange) :
    Offerless (run.onDatagram link stopped disk datagram) :=
  (receive_optionless datagram hw fun packet run => onPacket_optionless link stopped disk packet run).offerless

theorem onPacket_error (link : Link) (stopped : Bool) (disk : Disk) (code : ErrorCode) (message : String)
    (run : Run) : (run.onPacket link stopped disk (.error code message)).sent = [] ∧
      ∃ failure, (run.onPacket link stopped disk (.error code message)).state.2.stage = .ended (.error failure) := by
  obtain ⟨transfer, party, stage⟩ := run
  cases stopped <;> cases party <;> exact ⟨rfl, _, rfl⟩

end Run

theorem Stage.exchange_sends (link : Link) (transfer : Transfer) (packet : Packet) :
    ∃ more, (exchange link transfer (some packet)).sent = ⟨transfer.session.peer.endpoint, packet⟩ :: more := by
  simp only [exchange, Transfer.exchange, Exchange.openWindow, Exchange.windows, Move.map, Move.andThen]
  cases Session.send link packet with
  | ok u => exact ⟨[], rfl⟩
  | error failure => exact ⟨_, rfl⟩

namespace Client

theorem onReply_optionAck (link : Link) (stopped : Bool) (disk : Disk) (fields : List OptionField)
    (run : Run) :
    Run.Speaks { run.transfer.session with timeout := (Options.ofFields fields).validate.timeout }
      (Options.ofFields fields).validate.blockSize
      (onReply link stopped disk (.optionAck fields) run) := by
  have hsize := Block.Party.start_blockSize disk
    (run.party.setBlockSize (Options.ofFields fields).validate.blockSize)
  rw [Block.Party.setBlockSize_blockSize] at hsize
  have h := Run.Speaks.of_effect (StepEffect.of_stoppable link stopped
    ({ run.transfer with phase := .dataTransfer }.setOptions (Options.ofFields fields).validate)
    ((run.party.setBlockSize (Options.ofFields fields).validate.blockSize).start disk).2.2)
    ((run.party.setBlockSize (Options.ofFields fields).validate.blockSize).start disk).1
    ((run.party.setBlockSize (Options.ofFields fields).validate.blockSize).start disk).2.1
  rw [hsize] at h
  exact h

theorem onReply_block (link : Link) (stopped : Bool) (disk : Disk) (reply : Packet) (run : Run)
    (h : reply.opcode ≠ .optionAck) :
    onReply link stopped disk reply run =
      { run with transfer := { run.transfer with phase := .dataTransfer } }.onPacket link stopped disk reply := by
  cases reply with
  | optionAck fields => exact absurd rfl h
  | _ => rfl

theorem onReply_speaks (link : Link) (stopped : Bool) (disk : Disk) (reply : Packet) (run : Run) :
    ∃ session size, session.peer = run.transfer.session.peer ∧
      Run.Speaks session size (onReply link stopped disk reply run) := by
  by_cases h : reply.opcode = .optionAck
  · cases reply with
    | optionAck fields =>
      refine ⟨_, _, ?_, onReply_optionAck link stopped disk fields run⟩
      rfl
    | _ => cases h
  · have hblock := Run.onPacket_speaks link stopped disk reply
      { run with transfer := { run.transfer with phase := .dataTransfer } }
    rw [onReply_block link stopped disk reply run h]
    exact ⟨_, _, rfl, hblock⟩

def handle (link : Link) (stopped : Bool) (client : Client) : Disk → Packet → Run → Move (Disk × Run) :=
  if client.requesting then onReply link stopped else Run.onPacket link stopped

theorem onDatagram_eq (link : Link) (stopped : Bool) (disk : Disk) (datagram : Datagram) (client : Client) :
    client.onDatagram link stopped disk datagram =
      (client.run.receive disk datagram (client.handle link stopped)).map fun next =>
        settle next.1 { client with run := next.2, requesting := false } := by
  rw [onDatagram, handle]
  cases client.requesting <;> rfl

theorem handle_speaks (link : Link) (stopped : Bool) (disk : Disk) (packet : Packet) (client : Client)
    (run : Run) : ∃ session size, session.peer = run.transfer.session.peer ∧
      Run.Speaks session size (client.handle link stopped disk packet run) := by
  rw [handle]
  split
  · exact onReply_speaks link stopped disk packet run
  · exact ⟨_, _, rfl, Run.onPacket_speaks link stopped disk packet run⟩

theorem handle_optionless (link : Link) (stopped : Bool) (disk : Disk) (packet : Packet) (client : Client) (run : Run) :
    Run.Optionless (client.handle link stopped disk packet run) := by
  rw [handle]
  split
  · by_cases h : packet.opcode = .optionAck
    · cases packet with
      | optionAck fields =>
        exact Run.optionless_act link stopped _ (Block.Party.start_optionless disk (run.party.setBlockSize _)) _ _
      | _ => cases h
    · rw [onReply_block link stopped disk packet run h]
      exact Run.onPacket_optionless link stopped disk packet _
  · exact Run.onPacket_optionless link stopped disk packet run

theorem settle_cases (disk : Disk) (client : Client) :
    (settle disk client = (disk, client) ∧ ∃ exchange, client.run.stage = .waiting exchange) ∨
      ∃ disk' result, settle disk client =
        (disk', { client with run := { client.run with stage := .ended result }, ending := .keep }) := by
  cases hs : client.run.stage with
  | waiting exchange => exact .inl ⟨by simp only [settle, hs], exchange, rfl⟩
  | ended result =>
    exact .inr ⟨(client.ending.apply disk result).1, (client.ending.apply disk result).2, by simp only [settle, hs]⟩

theorem settle_keeps (disk : Disk) (client : Client) :
    (settle disk client).2.run.transfer = client.run.transfer ∧
      (settle disk client).2.run.party = client.run.party ∧
      (settle disk client).2.requesting = client.requesting := by
  rcases settle_cases disk client with ⟨hs, -⟩ | ⟨disk', result, hs⟩
  · rw [hs]
    exact ⟨rfl, rfl, rfl⟩
  · rw [hs]
    exact ⟨rfl, rfl, rfl⟩

theorem settle_failed (disk : Disk) (client : Client) (failure : TransferFailure)
    (h : client.run.stage = .ended (.error failure)) :
    ∃ disk', settle disk client = (disk', { client with ending := .keep }) := by
  obtain ⟨⟨transfer, party, stage⟩, requesting, ending⟩ := client
  cases h
  cases ending with
  | keep => exact ⟨disk, rfl⟩
  | replace gathered dest => exact ⟨disk.remove gathered, rfl⟩

end Client

namespace Connection

theorem settle_cases (disk : Disk) (file : String) (created : Bool) (run : Run) :
    (settle disk file created run = (disk, { state := .running run, file, created }) ∧
        ∃ exchange, run.stage = .waiting exchange) ∨
      ∃ disk' created' result, settle disk file created run =
        (disk', { state := .ended result, file, created := created' }) := by
  cases hs : run.stage with
  | waiting exchange => exact .inl ⟨by simp only [settle, hs], exchange, rfl⟩
  | ended result =>
    cases result with
    | ok u => exact .inr ⟨disk, created, .ok (), by simp only [settle, hs]⟩
    | error failure =>
      exact .inr ⟨if created then disk.remove file else disk, false, .error failure, by simp only [settle, hs]⟩

theorem run_of_settle {disk : Disk} {file : String} {created : Bool} {before run : Run}
    (h : (settle disk file created before).2.state = .running run) :
    before = run ∧ ∃ exchange, before.stage = .waiting exchange := by
  rcases settle_cases disk file created before with ⟨hs, hw⟩ | ⟨disk', created', result, hs⟩
  · rw [hs] at h
    injection h with h
    exact ⟨h, hw⟩
  · rw [hs] at h
    cases h

end Connection

end Tftp
