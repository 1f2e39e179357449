import Tftp.Proofs.Answers
import Tftp.Proofs.Windows

namespace Tftp

def Packet.Fits (size : Nat) (packet : Packet) : Prop :=
  ∀ block payload, packet = .data block payload → payload.length ≤ size

theorem Packet.fits_of_opcode {size : Nat} {packet : Packet} (h : packet.opcode ≠ .data) : packet.Fits size := by
  rintro block payload rfl
  exact absurd rfl h

namespace Block

def Action.Fits (size : Nat) (action : Action) : Prop :=
  ∀ packet, StepEffect.Asked action packet → packet.Fits size

theorem Action.fits_send {size : Nat} {packet : Packet} (h : packet.Fits size) : Fits size (.send packet) :=
  fun _ hp => StepEffect.eq_of_asked_send hp ▸ h

theorem Action.fits_terminate {size : Nat} {packet : Packet} (h : packet.Fits size) : Fits size (.terminate packet) :=
  fun _ hp => StepEffect.eq_of_asked_terminate hp ▸ h

theorem Action.fits_listen (size : Nat) : Fits size .listen :=
  fun packet hp => absurd hp (StepEffect.not_asked_listen packet)

theorem Action.fits_close (size : Nat) (reason : Option String) : Fits size (.close reason) :=
  fun packet hp => absurd hp (StepEffect.not_asked_close reason packet)

theorem Sender.nextBlock_fits (disk : Disk) (sender : Sender) : (sender.nextBlock disk).2.Fits sender.blockSize := by
  rw [nextBlock, Cutter.next]
  cases sender.cutter.fill disk sender.blockSize sender.blockSize with
  | mk cutter result =>
    cases result with
    | error fault => exact Action.fits_terminate (Packet.fits_of_opcode fun h => by cases h)
    | ok u =>
      refine Action.fits_send fun block payload h => ?_
      cases h
      exact List.length_take_le _ _

theorem Sender.onAck_fits (disk : Disk) (block : UInt16) (sender : Sender) :
    (sender.onAck disk block).2.Fits sender.blockSize := by
  rw [onAck]
  split
  · split
    · exact Action.fits_close _ none
    · exact sender.nextBlock_fits disk
  · exact Action.fits_listen _
  · exact Action.fits_terminate (Packet.fits_of_opcode (by decide))

theorem Receiver.onData_fits (disk : Disk) (block : UInt16) (payload : Bytes) (receiver : Receiver) (size : Nat) :
    (receiver.onData disk block payload).2.2.Fits size := by
  have hack : ∀ n, (Packet.ack n).Fits size := fun _ => Packet.fits_of_opcode fun h => by cases h
  have hfail : ∀ code, (Packet.standardError code).Fits size := fun _ => Packet.fits_of_opcode fun h => by cases h
  rw [onData]
  split
  · rw [accept]
    split
    · exact Action.fits_terminate (hfail _)
    split
    · exact Action.fits_terminate (hfail _)
    · simp only
      split
      · split
        · exact Action.fits_terminate (hfail _)
        · exact Action.fits_terminate (hack _)
      · exact Action.fits_send (hack _)
  · exact Action.fits_send (hack _)
  · exact Action.fits_terminate (hfail _)

namespace Party

theorem onPacket_fits (disk : Disk) (packet : Packet) (party : Party) :
    (party.onPacket disk packet).2.2.Fits party.blockSize := by
  have hrefuse : ∀ size, Action.refuse.Fits size :=
    fun size => Action.fits_terminate (Packet.fits_of_opcode (by decide))
  cases party with
  | sender s =>
    cases packet with
    | ack block => exact s.onAck_fits disk block
    | error code message => exact Action.fits_close _ _
    | _ => exact hrefuse _
  | receiver r =>
    cases packet with
    | data block payload => exact r.onData_fits disk block payload _
    | error code message => exact Action.fits_close _ _
    | _ => exact hrefuse _

theorem start_fits (disk : Disk) (party : Party) : (party.start disk).2.2.Fits party.blockSize := by
  cases party with
  | sender s => exact s.onAck_fits disk 0
  | receiver r => exact Action.fits_send (Packet.fits_of_opcode (by decide))

end Party

end Block

namespace Stage

theorem finish_options (transfer : Transfer) : (finish transfer).state.1.options = transfer.options := by
  simp only [finish, Move.map, Transfer.finish]
  split <;> rfl

theorem openWindow_options (link : Link) (transfer : Transfer) (repeated : Option Packet) (n : Nat) :
    ((Exchange.openWindow link transfer.session repeated n).andThen (ofProgress transfer)).state.1.options =
      transfer.options := by
  rcases Exchange.openWindow_cases link transfer.session repeated n with ⟨left, ho⟩ | ⟨failure, sent, ho, -⟩
  · rw [ho]
    rfl
  · rw [ho]
    exact finish_options (transfer.failExchange failure)

theorem act_options (link : Link) (stopped : Bool) (transfer : Transfer) (action : Block.Action) :
    (act link stopped transfer action).state.1.options = transfer.options := by
  cases stopped with
  | true => rfl
  | false =>
    cases action with
    | send packet => exact openWindow_options link { transfer with lastPacket := some packet } _ _
    | listen => exact openWindow_options link transfer _ _
    | close reason => cases reason <;> rfl
    | terminate packet =>
      cases packet with
      | error code message => exact finish_options (transfer.fail code message)
      | _ => exact finish_options { transfer with finalPacket := some _, phase := .finalAck }

theorem expire_options (link : Link) (transfer : Transfer) (stage : Stage) :
    (stage.expire link transfer).state.1.options = transfer.options := by
  cases stage with
  | waiting exchange => exact openWindow_options link transfer _ _
  | ended result => rfl

end Stage

namespace Run

structure Within (options : Options) (timeout size : Nat) (run : Run) : Prop where
  options : run.transfer.options = options
  timeout : run.transfer.session.timeout = timeout
  blocks : run.party.blockSize = size
  repeats : ∀ exchange packet, run.stage = .waiting exchange → exchange.repeated = some packet → packet.Fits size

/-- A step that leaves such a run, and whose packets fit its blocks. -/
structure Steady (options : Options) (timeout size : Nat) (move : Move (Disk × Run)) : Prop where
  within : move.state.2.Within options timeout size
  sent : ∀ x ∈ move.sent, x.packet.Fits size

variable {options : Options} {timeout size : Nat} (link : Link)

theorem Steady.of_effect {transfer : Transfer} {tells repeats : Packet → Prop} {succeeds : Prop}
    {move : Move (Transfer × Stage)} (h : StepEffect transfer tells repeats succeeds move)
    (ho : move.state.1.options = transfer.options) {party : Block.Party}
    (ht : ∀ packet, tells packet → packet.Fits party.blockSize)
    (hr : ∀ packet, repeats packet → packet.Fits party.blockSize) (disk : Disk) :
    Steady transfer.options transfer.session.timeout party.blockSize
      (move.map fun next => (disk, ofStage party next)) := by
  refine ⟨⟨ho, congrArg Session.timeout h.session, rfl, fun exchange packet hw hp =>
    hr packet (h.repeated exchange packet hw hp)⟩, fun x hx => ?_⟩
  rcases (h.sent x hx).2 with he | htell
  · exact Packet.fits_of_opcode (by rw [he]; decide)
  · exact ht x.packet htell

theorem act_steady (stopped : Bool) (transfer : Transfer) (disk : Disk) {party : Block.Party} {action : Block.Action}
    (hf : action.Fits party.blockSize) :
    Steady transfer.options transfer.session.timeout party.blockSize
      ((Stage.act link stopped transfer action).map fun next => (disk, ofStage party next)) :=
  .of_effect (StepEffect.of_stoppable link stopped transfer action)
    (Stage.act_options link stopped transfer action) hf (fun packet h => hf packet (.inl h)) disk

theorem fail_steady (transfer : Transfer) (failure : ExchangeFailure) (disk : Disk) (party : Block.Party) :
    Steady transfer.options transfer.session.timeout party.blockSize
      ((Stage.finish (transfer.failExchange failure)).map fun next => (disk, ofStage party next)) :=
  .of_effect (StepEffect.of_fail transfer failure.code failure.wireMessage (fun _ => False) (fun _ => False) False)
    (Stage.finish_options _) (fun _ h => h.elim) (fun _ h => h.elim) disk

theorem onPacket_steady (stopped : Bool) (disk : Disk) (packet : Packet) {run : Run}
    (h : run.Within options timeout size) : Steady options timeout size (run.onPacket link stopped disk packet) := by
  obtain ⟨rfl, rfl, rfl, -⟩ := h
  have hsize := run.party.onPacket_blockSize disk packet
  have hf := run.party.onPacket_fits disk packet
  rw [← hsize] at hf ⊢
  exact act_steady link stopped run.transfer _ hf

theorem onTimeout_steady (disk : Disk) {run : Run} (h : run.Within options timeout size) :
    Steady options timeout size ((run.onTimeout link).map fun run => (disk, run)) := by
  obtain ⟨rfl, rfl, rfl, hrepeats⟩ := h
  have hfits : ∀ packet, (∃ exchange, run.stage = .waiting exchange ∧ exchange.repeated = some packet) →
      packet.Fits run.party.blockSize :=
    fun packet ⟨exchange, hw, hp⟩ => hrepeats exchange packet hw hp
  exact .of_effect (StepEffect.of_expire link run.transfer run.stage)
    (Stage.expire_options link run.transfer run.stage) hfits hfits disk

theorem receive_cases (disk : Disk) (datagram : Datagram) (handle : Disk → Packet → Run → Move (Disk × Run))
    {run : Run} {exchange : Exchange} (hw : run.stage = .waiting exchange) :
    let transfer := { run.transfer with session := (run.transfer.session.read datagram).1 }
    (∃ packet, (run.transfer.session.read datagram).2 = .ok packet ∧
        run.receive disk datagram handle = handle disk packet { run with transfer }) ∨
      ∃ failure, (run.transfer.session.read datagram).2 = .error failure ∧
        run.receive disk datagram handle = (Stage.finish (transfer.failExchange failure)).map fun next =>
          (disk, ofStage run.party next) := by
  intro transfer
  cases hr : (run.transfer.session.read datagram).2 with
  | ok packet => exact .inl ⟨packet, rfl, by simp only [receive, hw, hr]; rfl⟩
  | error failure => exact .inr ⟨failure, rfl, by simp only [receive, hw, hr]; rfl⟩

theorem Within.read {run : Run} (h : run.Within options timeout size) (datagram : Datagram) :
    ({ run with transfer := { run.transfer with session := (run.transfer.session.read datagram).1 } } : Run).Within
      options timeout size :=
  ⟨h.options, (run.transfer.session.read_hears datagram).timeout_eq.trans h.timeout, h.blocks, h.repeats⟩

theorem refused_steady (disk : Disk) (datagram : Datagram) (failure : ExchangeFailure) {run : Run}
    (h : run.Within options timeout size) :
    Steady options timeout size
      ((Stage.finish (({ run.transfer with session := (run.transfer.session.read datagram).1 } : Transfer).failExchange
        failure)).map fun next => (disk, ofStage run.party next)) := by
  obtain ⟨rfl, htimeout, rfl, -⟩ := h.read datagram
  rw [← htimeout]
  exact fail_steady _ failure disk run.party

theorem onDatagram_steady (stopped : Bool) (disk : Disk) (datagram : Datagram) {run : Run}
    (h : run.Within options timeout size) :
    Steady options timeout size (run.onDatagram link stopped disk datagram) := by
  cases hw : run.stage with
  | ended result =>
    rw [onDatagram_ended link stopped disk datagram run result hw]
    exact ⟨h, fun x hx => absurd hx List.not_mem_nil⟩
  | waiting exchange =>
    rw [onDatagram]
    rcases receive_cases disk datagram (onPacket link stopped) hw with ⟨packet, -, he⟩ | ⟨failure, -, he⟩
    · rw [he]
      exact onPacket_steady link stopped disk packet (h.read datagram)
    · rw [he]
      exact refused_steady disk datagram failure h

end Run

end Tftp
