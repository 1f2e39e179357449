import Tftp.Transfer.Run

namespace Tftp

/-- What every step of a transfer keeps to. `tells` are the packets besides an ERROR that it may
send, `repeats` those that a window it leaves open sends again, and `succeeds` is what a success
needs. -/
structure StepEffect (transfer : Transfer) (tells repeats : Packet → Prop) (succeeds : Prop)
    (move : Move (Transfer × Stage)) : Prop where
  session : move.state.1.session = transfer.session
  sent : ∀ x ∈ move.sent, x.destination = transfer.session.peer.endpoint ∧
    (x.packet.opcode = .error ∨ tells x.packet)
  repeated : ∀ exchange packet, move.state.2 = .waiting exchange →
    exchange.repeated = some packet → repeats packet
  pending : ∀ exchange, move.state.2 = .waiting exchange →
    move.state.1.pendingError = transfer.pendingError
  success : move.state.2 = .ended (.ok ()) → succeeds

namespace Exchange

theorem openWindow_cases (link : Link) (session : Session) (repeated : Option Packet) (n : Nat) :
    (∃ left, openWindow link session repeated n =
        { state := .waiting { repeated, left }, sent := repeated.toList.map session.address }) ∨
      ∃ failure sent, openWindow link session repeated n = { state := .failed failure, sent } ∧
        ∀ x ∈ sent, ∃ packet, repeated = some packet ∧ x = session.address packet := by
  cases n with
  | zero => exact .inr ⟨.timeout, [], rfl, fun x hx => absurd hx List.not_mem_nil⟩
  | succ left =>
    cases repeated with
    | none => exact .inl ⟨left, rfl⟩
    | some packet =>
      cases hs : Session.send link packet with
      | ok u => exact .inl ⟨left, by simp [openWindow, hs]⟩
      | error failure =>
        refine .inr ⟨failure, [session.address packet], by simp [openWindow, hs], fun x hx => ?_⟩
        exact ⟨packet, rfl, List.mem_singleton.mp hx⟩

end Exchange

namespace StepEffect

theorem finish_sent (transfer : Transfer) :
    ∀ x ∈ (Stage.finish transfer).sent, x.destination = transfer.session.peer.endpoint ∧
      (x.packet.opcode = .error ∨ transfer.finalPacket = some x.packet) := by
  intro x hx
  simp only [Stage.finish, Move.map, Transfer.finish] at hx
  split at hx
  · rw [List.mem_singleton] at hx
    subst hx
    exact ⟨rfl, .inl rfl⟩
  · obtain ⟨packet, hp, rfl⟩ := List.mem_map.mp hx
    exact ⟨rfl, .inr (Option.mem_toList.mp hp)⟩

theorem finish_ended (transfer : Transfer) :
    ∃ result, (Stage.finish transfer).state.2 = .ended result ∧
      (result = .ok () ↔ transfer.pendingError = none) := by
  simp only [Stage.finish, Move.map, Transfer.finish]
  cases transfer.pendingError with
  | none => exact ⟨.ok (), rfl, by simp⟩
  | some e => exact ⟨.error (.own e.1 e.2), rfl, by simp⟩

theorem waits_act {link : Link} {stopped : Bool} {transfer : Transfer} {action : Block.Action} {exchange : Exchange}
    (h : (Stage.act link stopped transfer action).state.2 = .waiting exchange) :
    action = .listen ∨ ∃ packet, action = .send packet := by
  cases stopped with
  | true => cases h
  | false =>
    cases action with
    | send packet => exact .inr ⟨packet, rfl⟩
    | listen => exact .inl rfl
    | close reason => cases reason <;> cases h
    | terminate packet =>
      obtain ⟨next, hact⟩ : ∃ next, Stage.act link false transfer (.terminate packet) = Stage.finish next := by
        cases packet <;> exact ⟨_, rfl⟩
      obtain ⟨result, hr, -⟩ := finish_ended next
      rw [hact, hr] at h
      cases h

theorem finish_session (transfer : Transfer) :
    (Stage.finish transfer).state.1.session = transfer.session := by
  simp only [Stage.finish, Move.map, Transfer.finish]
  split <;> rfl

theorem of_fail (transfer : Transfer) (code : ErrorCode) (message : String)
    (tells repeats : Packet → Prop) (succeeds : Prop) :
    StepEffect transfer tells repeats succeeds (Stage.finish (transfer.fail code message)) := by
  have hp : (transfer.fail code message).pendingError = some (code, message) := rfl
  obtain ⟨result, hr, hok⟩ := finish_ended (transfer.fail code message)
  refine ⟨finish_session _, fun x hx => ?_, fun e p he => ?_, fun e he => ?_, fun hs => ?_⟩
  · simp only [Stage.finish, Move.map, Transfer.finish, hp, List.mem_singleton] at hx
    subst hx
    exact ⟨rfl, .inl rfl⟩
  · rw [hr] at he
    cases he
  · rw [hr] at he
    cases he
  · rw [hr] at hs
    injection hs with hs
    rw [hok, hp] at hs
    cases hs

theorem of_openWindow (link : Link) (transfer : Transfer) (repeated : Option Packet) (n : Nat)
    (tells : Packet → Prop) (succeeds : Prop) (h : ∀ packet, repeated = some packet → tells packet) :
    StepEffect transfer tells (fun packet => repeated = some packet) succeeds
      ((Exchange.openWindow link transfer.session repeated n).andThen (Stage.ofProgress transfer)) := by
  rcases Exchange.openWindow_cases link transfer.session repeated n with
    ⟨left, ho⟩ | ⟨failure, sent, ho, hsent⟩
  · rw [ho]
    refine ⟨rfl, fun x hx => ?_, fun e p he hp => ?_, fun e _ => rfl, fun hs => ?_⟩
    · simp only [Move.andThen, Stage.ofProgress, List.append_nil] at hx
      obtain ⟨packet, hp, rfl⟩ := List.mem_map.mp hx
      exact ⟨rfl, .inr (h packet (Option.mem_toList.mp hp))⟩
    · injection he with he
      subst he
      exact hp
    · cases hs
  · rw [ho]
    obtain ⟨hsess, hfin, hrep, hpend, hsucc⟩ := of_fail transfer failure.code failure.wireMessage tells
      (fun packet => repeated = some packet) succeeds
    refine ⟨hsess, fun x hx => ?_, hrep, hpend, hsucc⟩
    rcases List.mem_append.mp hx with hx | hx
    · obtain ⟨packet, hp, rfl⟩ := hsent x hx
      exact ⟨rfl, .inr (h packet hp)⟩
    · exact hfin x hx

def Asked (action : Block.Action) (packet : Packet) : Prop :=
  action = .send packet ∨ action = .terminate packet

def Succeeds (action : Block.Action) : Prop :=
  action = .close none ∨ ∃ packet, action = .terminate packet ∧ packet.opcode ≠ .error

theorem eq_of_asked_send {packet asked : Packet} (h : Asked (.send packet) asked) : asked = packet := by
  rcases h with h | h
  · injection h with h
    exact h.symm
  · cases h

theorem eq_of_asked_terminate {packet asked : Packet} (h : Asked (.terminate packet) asked) :
    asked = packet := by
  rcases h with h | h
  · cases h
  · injection h with h
    exact h.symm

theorem not_asked_listen (packet : Packet) : ¬Asked .listen packet := by
  rintro (h | h) <;> cases h

theorem not_asked_close (reason : Option String) (packet : Packet) :
    ¬Asked (.close reason) packet := by
  rintro (h | h) <;> cases h

theorem not_succeeds_send (packet : Packet) : ¬Succeeds (.send packet) := by
  rintro (h | ⟨other, h, -⟩) <;> cases h

theorem not_succeeds_listen : ¬Succeeds .listen := by
  rintro (h | ⟨packet, h, -⟩) <;> cases h

theorem not_succeeds_close (reason : String) : ¬Succeeds (.close (some reason)) := by
  rintro (h | ⟨packet, h, -⟩) <;> cases h

theorem not_succeeds_error (code : ErrorCode) (message : String) :
    ¬Succeeds (.terminate (.error code message)) := by
  rintro (h | ⟨packet, h, hp⟩)
  · cases h
  · cases h
    exact hp rfl

theorem mono {transfer : Transfer} {tells tells' repeats repeats' : Packet → Prop}
    {succeeds succeeds' : Prop} {move : Move (Transfer × Stage)}
    (h : StepEffect transfer tells repeats succeeds move) (hs : ∀ packet, tells packet → tells' packet)
    (hr : ∀ packet, repeats packet → repeats' packet) (hok : succeeds → succeeds') :
    StepEffect transfer tells' repeats' succeeds' move :=
  ⟨h.session, fun x hx => ⟨(h.sent x hx).1, (h.sent x hx).2.imp_right (hs _)⟩,
    fun e p he hp => hr p (h.repeated e p he hp), h.pending, fun hend => hok (h.success hend)⟩

theorem of_ended (transfer next : Transfer) (result : Except TransferFailure Unit)
    (tells repeats : Packet → Prop) (succeeds : Prop) (hs : next.session = transfer.session)
    (hok : result = .ok () → succeeds) :
    StepEffect transfer tells repeats succeeds { state := (next, .ended result) } := by
  refine ⟨hs, fun x hx => absurd hx List.not_mem_nil, fun e p he => ?_, fun e he => ?_, fun hend => ?_⟩
  · cases he
  · cases he
  · injection hend with hend
    exact hok hend

theorem of_act (link : Link) (transfer : Transfer) (action : Block.Action) :
    StepEffect transfer (Asked action) (fun packet => action = .send packet) (Succeeds action)
      (Stage.act link false transfer action) := by
  cases action with
  | send packet =>
    have h := of_openWindow link { transfer with lastPacket := some packet } (some packet)
      Exchange.windows (Asked (.send packet)) (Succeeds (.send packet))
      (fun p hp => .inl (by rw [Option.some.inj hp]))
    exact ⟨h.session, h.sent, fun e p he hp => by rw [Option.some.inj (h.repeated e p he hp)],
      h.pending, h.success⟩
  | listen =>
    have h := of_openWindow link transfer none (if transfer.lastPacket.isSome then Exchange.windows else 1)
      (Asked .listen) (Succeeds .listen) (fun p hp => nomatch hp)
    exact ⟨h.session, h.sent, fun e p he hp => (nomatch h.repeated e p he hp), h.pending, h.success⟩
  | close reason =>
    cases reason with
    | none => exact of_ended transfer _ (.ok ()) _ _ _ rfl fun _ => .inl rfl
    | some reason => exact of_ended transfer _ _ _ _ _ rfl fun hr => by cases hr
  | terminate packet =>
    by_cases hp : packet.opcode = .error
    · cases packet with
      | error code message => exact of_fail transfer code message _ _ _
      | _ => cases hp
    · have hact : Stage.act link false transfer (.terminate packet) =
          Stage.finish { transfer with finalPacket := some packet, phase := .finalAck } := by
        cases packet with
        | error => exact absurd rfl hp
        | _ => rfl
      rw [hact]
      obtain ⟨result, hr, -⟩ :=
        finish_ended { transfer with finalPacket := some packet, phase := .finalAck }
      refine ⟨finish_session _, fun x hx => ?_, fun e p he => ?_, fun e he => ?_,
        fun _ => .inr ⟨packet, rfl, hp⟩⟩
      · obtain ⟨hd, hsaid⟩ := finish_sent _ x hx
        exact ⟨hd, hsaid.imp_right fun h => .inr (by rw [Option.some.inj h])⟩
      · rw [hr] at he
        cases he
      · rw [hr] at he
        cases he

theorem of_expire (link : Link) (transfer : Transfer) (stage : Stage) :
    StepEffect transfer
      (fun packet => ∃ exchange, stage = .waiting exchange ∧ exchange.repeated = some packet)
      (fun packet => ∃ exchange, stage = .waiting exchange ∧ exchange.repeated = some packet)
      (stage = .ended (.ok ())) (stage.expire link transfer) := by
  cases stage with
  | waiting exchange =>
    exact (of_openWindow link transfer exchange.repeated exchange.left
      (fun packet => exchange.repeated = some packet) _ fun _ hp => hp).mono
      (fun packet hp => ⟨exchange, rfl, hp⟩) (fun packet hp => ⟨exchange, rfl, hp⟩) id
  | ended result =>
    exact of_ended transfer transfer result _ _ _ rfl fun hr => by rw [hr]

theorem act_terminate (link : Link) (transfer : Transfer) (packet : Packet)
    (hp : packet.opcode ≠ .error) (hn : transfer.pendingError = none) :
    ∃ last, Stage.act link false transfer (.terminate packet) =
      { state := (last, .ended (.ok ())), sent := [transfer.session.address packet] } := by
  refine ⟨{ transfer with pendingError := none, finalPacket := none, phase := .finished }, ?_⟩
  cases packet with
  | error => exact absurd rfl hp
  | _ => simp [Stage.act, Stage.finish, Transfer.finish, Move.map, hn]

end StepEffect

/-- The peer after a datagram: whoever answers first is the peer from then on. -/
def Peer.hear (peer : Peer) (source : Endpoint) : Peer :=
  match peer with
  | unconfirmed _ => fixed source
  | fixed endpoint => fixed endpoint

def Transfer.hear (transfer : Transfer) (source : Endpoint) : Transfer :=
  { transfer with session := { transfer.session with peer := transfer.session.peer.hear source } }

theorem Transfer.recognize_known (transfer : Transfer) (source : Endpoint)
    (h : (transfer.session.peer.hear source).endpoint = source) :
    transfer.session.recognize source = .ok (transfer.hear source).session := by
  obtain ⟨⟨peer, timeout⟩, phase, path, options, lastPacket, finalPacket, pendingError⟩ := transfer
  cases peer with
  | unconfirmed endpoint => rfl
  | fixed endpoint => exact if_pos h

namespace Run

theorem onDatagram_ended (link : Link) (stopped : Bool) (disk : Disk) (datagram : Datagram) (run : Run)
    (result : Except TransferFailure Unit) (h : run.stage = .ended result) :
    run.onDatagram link stopped disk datagram = { state := (disk, run) } := by
  simp only [onDatagram, receive, h]

theorem receive_known (disk : Disk) (datagram : Datagram)
    (handle : Disk → Packet → Run → Move (Disk × Run)) (run : Run) (exchange : Exchange)
    (hw : run.stage = .waiting exchange)
    (hp : (run.transfer.session.peer.hear datagram.source).endpoint = datagram.source) :
    run.receive disk datagram handle =
      match Packet.decode datagram.bytes with
      | .ok packet => handle disk packet { run with transfer := run.transfer.hear datagram.source }
      | .error malformation =>
        (Stage.finish ((run.transfer.hear datagram.source).failExchange
          (.malformed malformation.message))).map fun next => (disk, ofStage run.party next) := by
  obtain ⟨transfer, party, stage⟩ := run
  simp only at hw hp
  subst hw
  have hr := transfer.recognize_known datagram.source hp
  simp only [receive, Session.read, hr]
  cases Packet.decode datagram.bytes <;> rfl

theorem receive_stranger (disk : Disk) (datagram : Datagram)
    (handle : Disk → Packet → Run → Move (Disk × Run)) (run : Run) (exchange : Exchange)
    (hw : run.stage = .waiting exchange)
    (hp : (run.transfer.session.peer.hear datagram.source).endpoint ≠ datagram.source) :
    run.receive disk datagram handle =
      (Stage.finish (run.transfer.failExchange (.wrongPeer datagram.source))).map fun next =>
        (disk, ofStage run.party next) := by
  obtain ⟨transfer, party, stage⟩ := run
  simp only at hw hp
  subst hw
  have hr : transfer.session.recognize datagram.source = .error (.wrongPeer datagram.source) := by
    cases hpeer : transfer.session.peer with
    | unconfirmed endpoint =>
      rw [hpeer] at hp
      exact absurd rfl hp
    | fixed endpoint =>
      rw [hpeer] at hp
      simp only [Session.recognize, hpeer]
      exact if_neg hp
  simp only [receive, Session.read, hr]

theorem receive_fixed (disk : Disk) (datagram : Datagram)
    (handle : Disk → Packet → Run → Move (Disk × Run)) (run : Run) (exchange : Exchange)
    (hw : run.stage = .waiting exchange)
    (hp : run.transfer.session.peer = .fixed datagram.source) :
    run.receive disk datagram handle =
      match Packet.decode datagram.bytes with
      | .ok packet => handle disk packet run
      | .error malformation =>
        (Stage.finish (run.transfer.failExchange (.malformed malformation.message))).map fun next =>
          (disk, ofStage run.party next) := by
  have hh : run.transfer.hear datagram.source = run.transfer := by
    rw [Transfer.hear, hp, Peer.hear, ← hp]
  rw [receive_known disk datagram handle run exchange hw (by rw [hp]; rfl), hh]

end Run

end Tftp
