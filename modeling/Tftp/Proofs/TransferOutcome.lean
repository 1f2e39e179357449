import Tftp.Proofs.BlockNumber
import Tftp.Proofs.TransferTrace

namespace Tftp.TransferTrace

def Quiet (record : List Entry) : Prop :=
  ∀ packet ∈ said record, packet.opcode ≠ .error

/-- The last that happened is that a short block was acknowledged, and no packet was sent after that
block. -/
def Delivered (size : Nat) (record : List Entry) : Prop :=
  ∃ front n payload, record = front ++ [.heard (.ack n)] ∧
    (said front).getLast? = some (.data n payload) ∧ payload.length < size

def Received (size : Nat) (ack : Packet) (record : List Entry) : Prop :=
  ∃ front n payload, record = front ++ [.heard (.data n payload)] ∧ ack = .ack n ∧ payload.length < size

def Rejected (reason : String) (record : List Entry) : Prop :=
  ∃ front code message, record = front ++ [.heard (.error code message)] ∧
    Block.Action.peerError code message = .close (some reason)

def Succeeded (record : List Entry) : Block.Party → Prop
  | .sender s => Delivered s.blockSize record
  | .receiver r => ∃ front ack, record = front ++ [.sent ack] ∧ Received r.blockSize ack front

/-- What a result tells of the phase and of all that was heard and said. -/
def Accords (record : List Entry) (stopped : Bool) (party : Block.Party) (phase : Phase) :
    Except TransferFailure Unit → Prop
  | .ok () => phase = .finished ∧ Quiet record ∧ Succeeded record party
  | .error (.own code message) =>
    phase = .error ∧ ∃ front, record = front ++ [.sent (.error code message)] ∧ Quiet front
  | .error (.remote reason) => phase = .error ∧ Quiet record ∧ Rejected reason record
  | .error .cancelled =>
    phase = .error ∧ Quiet record ∧ stopped = true ∧ ∀ packet, record.getLast? ≠ some (.sent packet)
  | .error (.fault _) => False

structure Tracks (packets : List Packet) (s : Block.Sender) : Prop where
  number : ∀ n payload, packets.getLast? = some (.data n payload) → n = s.current
  final : s.awaitingFinal = true →
    ∃ payload, packets.getLast? = some (.data s.current payload) ∧ payload.length < s.blockSize

def Tracked (packets : List Packet) (party : Block.Party) : Prop :=
  ∀ s, party = .sender s → Tracks packets s

def Stale (current : UInt16) (record : List Entry) : Prop :=
  ∃ front n count, record = front ++ .heard (.ack n) :: List.replicate count .expired ∧
    Block.order n current = .behind

def Hushed (record : List Entry) (party : Block.Party) : Prop :=
  ∀ s, party = .sender s → Stale s.current record

structure Clean (transfer : Transfer) : Prop where
  final : transfer.finalPacket = none
  pending : transfer.pendingError = none

/-- A transfer that waits. What it repeats is the last that has happened. -/
structure Pending (link : Link) (record : List Entry) (party : Block.Party) (transfer : Transfer)
    (exchange : Exchange) : Prop extends Clean transfer where
  quiet : Quiet record
  tracked : Tracked (said record) party
  repeats : ∀ packet, exchange.repeated = some packet →
    packet.opcode ≠ .error ∧ record.getLast? = some (.sent packet) ∧ Session.send link packet = .ok ()
  hushed : exchange.repeated = none → Hushed record party
  kept : said record ≠ [] → transfer.lastPacket.isSome = true
  windows : said record ≠ [] → exchange.left + idle record + 1 = Exchange.windows

def Coherent (link : Link) (trace : TransferTrace) : Prop :=
  match trace.run.stage with
  | .waiting exchange => Pending link trace.record trace.run.party trace.run.transfer exchange
  | .ended result =>
    Accords trace.record trace.stopped trace.run.party trace.run.transfer.phase result

def Fits (record : List Entry) (party : Block.Party) : Block.Action → Prop
  | .send packet => packet.opcode ≠ .error ∧ Tracked (said record ++ [packet]) party
  | .listen => Tracked (said record) party ∧ Hushed record party
  | .close none => Succeeded record party
  | .close (some reason) => Rejected reason record
  | .terminate packet =>
    packet.opcode ≠ .error → ∃ r, party = .receiver r ∧ Received r.blockSize packet record

theorem tracked_receiver (packets : List Packet) (r : Block.Receiver) : Tracked packets (.receiver r) :=
  fun _ h => nomatch h

theorem fits_refuse (record : List Entry) (party : Block.Party) : Fits record party .refuse :=
  fun h => absurd rfl h

theorem fits_fail (record : List Entry) (party : Block.Party) (fault : Fault) :
    Fits record party (.fail fault) :=
  fun h => absurd rfl h

theorem fits_peerError (record : List Entry) (party : Block.Party) (code : ErrorCode) (message : String) :
    Fits (record ++ [.heard (.error code message)]) party (.peerError code message) :=
  ⟨record, code, message, rfl, rfl⟩

theorem fits_nextBlock (record : List Entry) (disk : Disk) (s : Block.Sender) :
    Fits record (.sender (s.nextBlock disk).1) (s.nextBlock disk).2 := by
  rw [Block.Sender.nextBlock]
  split
  · next cutter payload hnext =>
    refine ⟨fun h => (nomatch h), fun next hs => ?_⟩
    cases hs
    refine ⟨fun n other hlast => ?_, fun hfinal => ⟨payload, List.getLast?_concat, of_decide_eq_true hfinal⟩⟩
    rw [List.getLast?_concat] at hlast
    cases hlast
    rfl
  · exact fits_fail record _ _

theorem fits_onAck (record : List Entry) (disk : Disk) (n : UInt16) (s : Block.Sender)
    (h : Tracks (said record) s) :
    Fits (record ++ [.heard (.ack n)]) (.sender (s.onAck disk n).1) (s.onAck disk n).2 := by
  rw [Block.Sender.onAck]
  split
  · next horder =>
    cases hfinal : s.awaitingFinal with
    | true =>
      obtain ⟨payload, hlast, hshort⟩ := h.final hfinal
      rw [if_pos rfl, (Block.order_eq_expected_iff n s.current).mp horder]
      exact ⟨record, s.current, payload, rfl, hlast, hshort⟩
    | false =>
      rw [if_neg (by decide)]
      exact fits_nextBlock _ disk s
  · next horder =>
    refine ⟨fun next hs => ?_, fun next hs => ?_⟩
    · cases hs
      rw [said_append, said_heard, said_nil, List.append_nil]
      exact h
    · cases hs
      exact ⟨record, n, 0, rfl, horder⟩
  · exact fits_refuse _ _

theorem fits_accept (record : List Entry) (disk : Disk) (payload : Bytes) (r : Block.Receiver) :
    Fits (record ++ [.heard (.data (r.current + 1) payload)]) (.receiver (r.accept disk payload).2.1)
      (r.accept disk payload).2.2 := by
  rw [Block.Receiver.accept]
  split
  · exact fits_refuse _ _
  split
  · exact fits_fail _ _ _
  simp only
  split
  · next hshort =>
    split
    · exact fits_fail _ _ _
    · exact fun _ => ⟨_, rfl, record, _, payload, rfl, rfl, hshort⟩
  · exact ⟨fun h => (nomatch h), tracked_receiver _ _⟩

theorem fits_onData (record : List Entry) (disk : Disk) (n : UInt16) (payload : Bytes) (r : Block.Receiver) :
    Fits (record ++ [.heard (.data n payload)]) (.receiver (r.onData disk n payload).2.1)
      (r.onData disk n payload).2.2 := by
  rw [Block.Receiver.onData]
  split
  · next horder =>
    rw [(Block.order_eq_expected_iff n _).mp horder]
    exact fits_accept record disk payload r
  · exact ⟨fun h => (nomatch h), tracked_receiver _ _⟩
  · exact fits_refuse _ _

theorem fits_onPacket (record : List Entry) (disk : Disk) (packet : Packet) (party : Block.Party)
    (h : Tracked (said record) party) :
    Fits (record ++ [.heard packet]) (party.onPacket disk packet).2.1 (party.onPacket disk packet).2.2 := by
  cases party with
  | sender s =>
    cases packet with
    | ack n => exact fits_onAck record disk n s (h s rfl)
    | error code message => exact fits_peerError record _ code message
    | _ => exact fits_refuse _ _
  | receiver r =>
    cases packet with
    | data n payload => exact fits_onData record disk n payload r
    | error code message => exact fits_peerError record _ code message
    | _ => exact fits_refuse _ _

inductive Fresh : Block.Party → Prop where
  | sending (source : Source) (mode : Mode) (size : Nat) : Fresh (.sending source mode size)
  | receiving (sink : Sink) (mode : Mode) (size : Nat) : Fresh (.receiving sink mode size)

theorem Fresh.tracked {party : Block.Party} (h : Fresh party) {packets : List Packet}
    (hp : ∀ n payload, packets.getLast? ≠ some (.data n payload)) : Tracked packets party := by
  cases h with
  | sending source mode size =>
    intro s hs
    cases hs
    exact ⟨fun n payload hlast => absurd hlast (hp n payload), fun hfinal => nomatch hfinal⟩
  | receiving sink mode size => exact tracked_receiver _ _

theorem fits_start (disk : Disk) {party : Block.Party} (h : Fresh party) (start : Start) :
    Fits start.heard (start.action disk party).2.1 (start.action disk party).2.2 := by
  cases start with
  | first =>
    cases h with
    | sending source mode size =>
      change Fits _ (.sender (Block.Sender.onAck disk 0 _).1) (Block.Sender.onAck disk 0 _).2
      rw [Block.Sender.onAck, Block.order_self]
      exact fits_nextBlock [] disk _
    | receiving sink mode size => exact ⟨fun h => (nomatch h), tracked_receiver _ _⟩
  | optionAck fields => exact ⟨fun h => (nomatch h), h.tracked fun n payload hlast => nomatch hlast⟩
  | answer reply => exact fits_onPacket [] disk reply party (h.tracked fun n payload hlast => nomatch hlast)

/-- What a step leaves, after this record. -/
def Leaves (link : Link) (record : List Entry) (stopped : Bool) (party : Block.Party)
    (move : Move (Transfer × Stage)) : Prop :=
  match move.state.2 with
  | .waiting exchange => Pending link (record ++ entries move.sent) party move.state.1 exchange
  | .ended result => Accords (record ++ entries move.sent) stopped party move.state.1.phase result

theorem quiet_append {record more : List Entry} (h : Quiet record) (hm : Quiet more) :
    Quiet (record ++ more) := by
  intro packet hp
  rw [said_append, List.mem_append] at hp
  exact hp.elim (h packet) (hm packet)

theorem quiet_sent {packets : List Packet} (h : ∀ packet ∈ packets, packet.opcode ≠ .error) :
    Quiet (packets.map .sent) := by
  rw [Quiet, said_map]
  exact h

structure Attentive (record : List Entry) : Prop where
  quiet : Quiet record
  idle : idle record = 0
  last : ∀ packet, record.getLast? ≠ some (.sent packet)

theorem attentive_heard {record : List Entry} (h : Quiet record) (packet : Packet) :
    Attentive (record ++ [.heard packet]) where
  quiet := quiet_append h fun _ hp => nomatch hp
  idle := idle_append record (.heard packet)
  last other := by simp

theorem attentive_start (start : Start) : Attentive start.heard := by
  have hq : Quiet start.heard := by
    rw [Quiet, said_start]
    exact fun packet hp => nomatch hp
  cases start with
  | answer reply => exact ⟨hq, rfl, fun packet h => nomatch h⟩
  | _ => exact ⟨hq, rfl, fun packet h => nomatch h⟩

variable (link : Link) {transfer : Transfer} {record : List Entry} (stopped : Bool) {party : Block.Party}

theorem leaves_ended (transfer : Transfer) {result : Except TransferFailure Unit}
    (h : Accords record stopped party transfer.phase result) :
    Leaves link record stopped party { state := (transfer, .ended result) } := by
  simp only [Leaves, entries_nil, List.append_nil]
  exact h

theorem leaves_fail (transfer : Transfer) (code : ErrorCode) (message : String) (party : Block.Party)
    (hq : Quiet record) : Leaves link record stopped party (Stage.finish (transfer.fail code message)) :=
  ⟨rfl, record, rfl, hq⟩

theorem leaves_window (hc : Clean transfer) (hq : Quiet record) (repeated : Option Packet) (n : Nat)
    (hr : ∀ packet, repeated = some packet → packet.opcode ≠ .error)
    (ht : Tracked (said record ++ repeated.toList) party) (hh : repeated = none → Hushed record party)
    (hk : said record ++ repeated.toList ≠ [] → transfer.lastPacket.isSome = true)
    (hn : said record ++ repeated.toList ≠ [] → n + idle record = Exchange.windows) :
    Leaves link record stopped party
      ((Exchange.openWindow link transfer.session repeated n).andThen (Stage.ofProgress transfer)) := by
  rcases window_cases link transfer repeated n with
    ⟨left, hleft, hsend, hmove⟩ | ⟨code, message, told, htold, hmove⟩
  · have hsaid : said (record ++ repeated.toList.map .sent) = said record ++ repeated.toList := by
      rw [said_append, said_map]
    simp only [hmove, Leaves, entries_map]
    refine ⟨hc, ?_, ?_, fun packet hp => ⟨hr packet hp, ?_, hsend packet hp⟩, fun hnone => ?_, ?_, ?_⟩
    · exact quiet_append hq (quiet_sent fun packet hp => hr packet (Option.mem_toList.mp hp))
    · rw [hsaid]
      exact ht
    · simp only at hp
      rw [hp]
      exact List.getLast?_concat
    · simp only at hnone
      subst hnone
      rw [Option.toList_none, List.map_nil, List.append_nil]
      exact hh rfl
    · rw [hsaid]
      exact hk
    · rw [hsaid, idle_sent]
      intro hne
      have := hn hne
      change left + idle record + 1 = Exchange.windows
      omega
  · simp only [hmove, Leaves, entries_map]
    refine ⟨rfl, record ++ told.map .sent, by rw [List.map_append, List.append_assoc]; rfl, ?_⟩
    exact quiet_append hq (quiet_sent fun packet hp => hr packet (htold packet hp))

theorem leaves_ack (hc : Clean transfer) (hq : Quiet record) {r : Block.Receiver} {n : UInt16}
    (hr : Received r.blockSize (.ack n) record) :
    Leaves link record stopped (.receiver r) (Stage.act link false transfer (.terminate (.ack n))) := by
  have hmove : Stage.act link false transfer (.terminate (.ack n)) =
      { state := ({ transfer with pendingError := none, finalPacket := none, phase := .finished },
          .ended (.ok ()))
        sent := [Packet.ack n].map transfer.session.address } := by
    simp [Stage.act, Stage.finish, Transfer.finish, Move.map, hc.pending]
  simp only [hmove, Leaves, entries_map]
  refine ⟨rfl, quiet_append hq (quiet_sent fun packet hp => ?_), record, .ack n, rfl, hr⟩
  rw [List.mem_singleton.mp hp]
  simp [Packet.opcode]

theorem leaves_act (hc : Clean transfer) (ha : Attentive record)
    (hk : said record ≠ [] → transfer.lastPacket.isSome = true) {action : Block.Action}
    (hf : Fits record party action) :
    Leaves link record stopped party (Stage.act link stopped transfer action) := by
  cases stopped with
  | true =>
    exact leaves_ended link true { transfer with phase := .error } ⟨rfl, ha.quiet, rfl, ha.last⟩
  | false =>
    cases action with
    | send packet =>
      have hc' : Clean { transfer with lastPacket := some packet } := ⟨hc.final, hc.pending⟩
      exact leaves_window link false hc' ha.quiet (some packet) _ (fun p hp => Option.some.inj hp ▸ hf.1) hf.2
        (fun h => nomatch h) (fun _ => rfl) (fun _ => by rw [ha.idle, Nat.add_zero])
    | listen =>
      have hnone : said record ++ (none : Option Packet).toList = said record := List.append_nil _
      refine leaves_window link false hc ha.quiet none _ (fun p hp => nomatch hp) ?_ (fun _ => hf.2) ?_ ?_
      · rw [hnone]
        exact hf.1
      · rw [hnone]
        exact hk
      · rw [hnone]
        intro hne
        rw [ha.idle, if_pos (hk hne), Nat.add_zero]
    | close reason =>
      cases reason with
      | none => exact leaves_ended link false { transfer with phase := .finished } ⟨rfl, ha.quiet, hf⟩
      | some reason =>
        exact leaves_ended link false { transfer with phase := .error } ⟨rfl, ha.quiet, hf⟩
    | terminate packet =>
      by_cases hp : packet.opcode = .error
      · cases packet with
        | error code message => exact leaves_fail link false transfer code message party ha.quiet
        | _ => cases hp
      -- only the ACK of a short block closes a transfer without an ERROR
      · obtain ⟨r, rfl, front, n, payload, hrecord, rfl, hshort⟩ := hf hp
        exact leaves_ack link false hc ha.quiet ⟨front, n, payload, hrecord, rfl, hshort⟩

theorem leaves_expire {exchange : Exchange} (h : Pending link record party transfer exchange) :
    Leaves link (record ++ [.expired]) stopped party
      ((Exchange.openWindow link transfer.session exchange.repeated exchange.left).andThen
        (Stage.ofProgress transfer)) := by
  have hq : Quiet (record ++ [.expired]) := quiet_append h.quiet fun _ hp => nomatch hp
  have hsaid : said (record ++ [.expired]) = said record := by
    rw [said_append, said_expired, said_nil, List.append_nil]
  -- what is sent again is what was sent last
  have hlast : (said record ++ exchange.repeated.toList).getLast? = (said record).getLast? := by
    cases hr : exchange.repeated with
    | none => rw [Option.toList_none, List.append_nil]
    | some packet => rw [said_getLast? (h.repeats packet hr).2.1, Option.toList_some, List.getLast?_concat]
  have hne : said record ++ exchange.repeated.toList ≠ [] → said record ≠ [] := by
    intro hne hnil
    have hnone : (said record).getLast? = none := by rw [hnil, List.getLast?_nil]
    exact hne (List.getLast?_eq_none_iff.mp (hlast.trans hnone))
  refine leaves_window link stopped h.toClean hq _ _ (fun packet hr => (h.repeats packet hr).1) ?_ ?_ ?_ ?_
  · rw [hsaid]
    intro s hs
    obtain ⟨hnumber, hfinal⟩ := h.tracked s hs
    exact ⟨by rw [hlast]; exact hnumber, by rw [hlast]; exact hfinal⟩
  · intro hnone s hs
    obtain ⟨front, n, count, hrecord, horder⟩ := h.hushed hnone s hs
    exact ⟨front, n, count + 1, by rw [hrecord, List.replicate_succ']; simp, horder⟩
  · rw [hsaid]
    exact fun hs => h.kept (hne hs)
  · rw [hsaid, idle_append]
    intro hs
    have := h.windows (hne hs)
    simp only [Entry.tally]
    omega

theorem begin_coherent (disk : Disk) (hc : Clean transfer) (hp : Fresh party) (start : Start) :
    Coherent link (begin link stopped disk transfer party start) := by
  have hleaves := leaves_act link stopped hc (attentive_start start) (fun h => absurd (said_start start) h)
    (fits_start disk hp start)
  rw [Leaves] at hleaves
  rw [Coherent]
  exact hleaves

theorem take_coherent {trace : TransferTrace} {entry : Entry} {move : Move (Transfer × Stage)} (disk : Disk)
    (h : Leaves link (trace.record ++ [entry]) trace.stopped party move) :
    Coherent link (trace.take entry (move.map fun next => (disk, Run.ofStage party next))) := by
  rw [Leaves] at h
  rw [Coherent]
  exact h

theorem step_coherent {trace : TransferTrace} (h : Coherent link trace) (event : Event) :
    Coherent link (trace.step link event) := by
  cases hw : trace.run.stage with
  | ended result =>
    rw [step_ended link hw]
    exact h
  | waiting exchange =>
    have hp : Pending link trace.record trace.run.party trace.run.transfer exchange := by
      rw [Coherent, hw] at h
      exact h
    cases event with
    | datagram datagram =>
      cases hr : (trace.run.transfer.session.read datagram).2 with
      | ok packet =>
        have hc : Clean (trace.received datagram) := ⟨hp.final, hp.pending⟩
        have hkept : said (trace.record ++ [.heard packet]) ≠ [] →
            (trace.received datagram).lastPacket.isSome = true := by
          rw [said_append, said_heard, said_nil, List.append_nil]
          exact hp.kept
        rw [step_packet link hw hr]
        exact take_coherent link _ (leaves_act link trace.stopped hc (attentive_heard hp.quiet packet) hkept
          (fits_onPacket trace.record trace.disk packet trace.run.party hp.tracked))
      | error failure =>
        rw [step_refused link hw hr]
        exact take_coherent link _ (leaves_fail _ _ _ _ _ _ (quiet_append hp.quiet fun _ h => nomatch h))
    | timeout =>
      rw [step_timeout link hw]
      exact take_coherent link _ (leaves_expire link trace.stopped hp)
    | stop =>
      rw [step_stop link hw, Coherent, hw]
      exact hp
    | files disk =>
      rw [step_files link hw, Coherent, hw]
      exact hp

theorem after_coherent {trace : TransferTrace} (h : Coherent link trace) (events : List Event) :
    Coherent link (trace.after link events) := by
  induction events generalizing trace with
  | nil => exact h
  | cons event events ih => exact ih (step_coherent link h event)

/-- What is known of a transfer that is over. -/
structure Outcome (trace : TransferTrace) (result : Except TransferFailure Unit) : Prop where
  accords : Accords trace.record trace.stopped trace.run.party trace.run.transfer.phase result
  finished : trace.run.transfer.phase = .finished ↔ result = .ok ()
  failed : trace.run.transfer.phase = .error ↔ ∃ failure, result = .error failure
  /-- An ERROR has been sent just if this side gave up and could tell the peer. -/
  told : (∃ packet ∈ said trace.record, packet.opcode = .error) ↔
    ∃ code message, result = .error (.own code message)

theorem outcome_of_quiet {trace : TransferTrace} {result : Except TransferFailure Unit}
    (h : Accords trace.record trace.stopped trace.run.party trace.run.transfer.phase result)
    (hq : Quiet trace.record) (hf : trace.run.transfer.phase = .finished ↔ result = .ok ())
    (he : trace.run.transfer.phase = .error ↔ ∃ failure, result = .error failure)
    (hr : ∀ code message, result ≠ .error (.own code message)) : Outcome trace result where
  accords := h
  finished := hf
  failed := he
  told := ⟨fun ⟨packet, hp, hop⟩ => absurd hop (hq packet hp), fun ⟨code, message, h⟩ => absurd h (hr code message)⟩

theorem Accords.outcome {trace : TransferTrace} {result : Except TransferFailure Unit}
    (h : Accords trace.record trace.stopped trace.run.party trace.run.transfer.phase result) :
    Outcome trace result := by
  cases result with
  | ok u => exact outcome_of_quiet h h.2.1 (by simp [h.1]) (by simp [h.1]) (by simp)
  | error failure =>
    cases failure with
    | own code message =>
      obtain ⟨front, hrecord, -⟩ := h.2
      refine ⟨h, by simp [h.1], by simp [h.1], by simp, fun _ => ?_⟩
      exact ⟨.error code message, by simp [hrecord], rfl⟩
    | remote reason => exact outcome_of_quiet h h.2.1 (by simp [h.1]) (by simp [h.1]) (by simp)
    | cancelled => exact outcome_of_quiet h h.2.1 (by simp [h.1]) (by simp [h.1]) (by simp)
    | fault fault => exact h.elim

/-- However a transfer ends, its result, its phase and its last packets agree. -/
theorem outcome_agrees (disk : Disk) (transfer : Transfer) (hc : Clean transfer) (party : Block.Party)
    (hp : Fresh party) (start : Start) (events : List Event) (result : Except TransferFailure Unit)
    (hr : ((begin link stopped disk transfer party start).after link events).run.stage = .ended result) :
    Outcome ((begin link stopped disk transfer party start).after link events) result := by
  have h := after_coherent link (begin_coherent link stopped disk hc hp start) events
  rw [Coherent, hr] at h
  exact h.outcome

def threeOctets : TransferTrace :=
  begin .connected false {}
    { session := .accept { ip := .v4 10 0 0 2, port := 40002 } 1000
      phase := .dataTransfer, path := "three", options := {} }
    (.sending (.pieces [.bytes [97, 98, 99]]) .octet 2) .first

def ackFrom (port block : UInt16) : Event :=
  .datagram ⟨{ ip := .v4 10 0 0 2, port }, (Packet.ack block).encode⟩

theorem threeOctets_agrees :
    (threeOctets.after .connected [.timeout, ackFrom 40002 1, ackFrom 40002 2]).run.stage = .ended (.ok ()) ∧
      Outcome (threeOctets.after .connected [.timeout, ackFrom 40002 1, ackFrom 40002 2]) (.ok ()) :=
  ⟨by rfl, outcome_agrees .connected false {} _ ⟨rfl, rfl⟩ _ (.sending _ _ _) .first _ _ (by rfl)⟩

end Tftp.TransferTrace
