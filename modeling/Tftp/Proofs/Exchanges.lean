import Tftp.Proofs.Windows
import Tftp.Transfer.Basic

namespace Tftp

def Session.sendAndReceive (link : Link) (session : Session) (queue : List Arrival) (now : Nat) (packet : Packet)
    (send : Bool) : Exchange.Wait :=
  Exchange.conduct link session queue now
    (Exchange.openWindow link session (if send then some packet else none) Exchange.windows)

/-- A transfer, and what comes in for it from now on. -/
structure Dialogue where
  transfer : Transfer
  queue : List Arrival
  now : Nat

namespace Dialogue

structure Call where
  pause : Nat := 0
  packet : Option Packet

structure Called where
  dialogue : Dialogue
  reply : Option Packet
  record : List Exchange.Entry

def conclude (transfer : Transfer) : Except ExchangeFailure Packet → Transfer × Option Packet
  | .ok packet => (transfer, some packet)
  | .error failure => (transfer.failExchange failure, none)

def call (link : Link) (dialogue : Dialogue) (call : Call) : Called :=
  let opened := dialogue.transfer.exchange link call.packet
  let wait := Exchange.conduct link opened.state.1.session dialogue.queue (dialogue.now + call.pause)
    ⟨opened.state.2, opened.sent⟩
  let concluded := conclude { opened.state.1 with session := wait.session } wait.result
  { dialogue := { transfer := concluded.1, queue := wait.queue, now := wait.now }
    reply := concluded.2, record := wait.record }

def after (link : Link) (dialogue : Dialogue) (calls : List Call) : Dialogue :=
  calls.foldl (fun dialogue call => (dialogue.call link call).dialogue) dialogue

def given (calls : List Call) : Option Packet :=
  (calls.filterMap Call.packet).getLast?

/-- What a transfer makes of the end of an exchange: it hands on a reply, and notes a failure. -/
inductive Notes (transfer : Transfer) : Except ExchangeFailure Packet → Transfer → Option Packet → Prop where
  | reply (packet : Packet) : Notes transfer (.ok packet) transfer (some packet)
  | timeout :
    Notes transfer (.error .timeout)
      { transfer with pendingError := some (⟨0⟩, "Timeout"), phase := .error } none
  | malformed (detail : String) :
    Notes transfer (.error (.malformed detail))
      { transfer with pendingError := some (⟨4⟩, "Illegal TFTP operation"), phase := .error } none
  | stranger (source : Endpoint) :
    Notes transfer (.error (.wrongPeer source))
      { transfer with pendingError := some (⟨5⟩, "Unknown transfer ID"), phase := .error } none

/-- A call of a transfer that keeps this packet from then on. -/
structure Answered (before : Dialogue) (call : Call) (kept : Packet) (called : Called) : Prop where
  sends : ∀ time transmission, .sent time transmission ∈ called.record →
    call.packet = some transmission.packet ∧ transmission.destination = before.transfer.session.peer.endpoint
  conducted : ∃ wait : Exchange.Wait,
    Exchange.Conducted before.transfer.session before.queue call.packet 3 (before.now + call.pause) wait ∧
      called.record = wait.record ∧ called.dialogue.queue = wait.queue ∧ called.dialogue.now = wait.now ∧
      Notes { before.transfer with session := wait.session, lastPacket := some kept } wait.result
        called.dialogue.transfer called.reply

end Dialogue

namespace Exchange

variable {session : Session} {queue : List Arrival} {repeated : Option Packet}

theorem sent_of_rounds {till n now time : Nat} {transmission : Transmission}
    (h : .sent time transmission ∈ rounds session repeated till n now) :
    ∃ packet, repeated = some packet ∧ transmission = session.address packet := by
  induction n generalizing now with
  | zero => cases h
  | succ n ih =>
    rw [rounds, List.mem_append, List.mem_cons] at h
    rcases h with h | h | h
    · obtain ⟨other, hother, heq⟩ := List.mem_map.mp h
      obtain ⟨packet, hpacket, rfl⟩ := List.mem_map.mp hother
      injection heq with _ heq
      exact ⟨packet, Option.mem_toList.mp hpacket, heq.symm⟩
    · cases h
    · exact ih h

theorem Conducted.sends {wait : Wait} {limit now time : Nat} {transmission : Transmission}
    (h : Conducted session queue repeated limit now wait) (hsent : .sent time transmission ∈ wait.record) :
    repeated = some transmission.packet ∧ transmission.destination = session.peer.endpoint := by
  obtain ⟨n, -, -, hrecord, -⟩ := h.rounds
  rw [hrecord] at hsent
  obtain ⟨packet, hpacket, rfl⟩ := sent_of_rounds hsent
  exact ⟨hpacket, rfl⟩

theorem Conducted.notes {wait : Wait} {limit now : Nat} (h : Conducted session queue repeated limit now wait)
    (transfer : Transfer) : Dialogue.Notes transfer wait.result (Dialogue.conclude transfer wait.result).1
      (Dialogue.conclude transfer wait.result).2 := by
  have hsilent : (∀ arrival ∈ queue.head?, now + limit * session.window < arrival.time) →
      Dialogue.Notes transfer wait.result (Dialogue.conclude transfer wait.result).1
        (Dialogue.conclude transfer wait.result).2 := by
    intro hlate
    rw [(h.silent hlate).2.2.2]
    exact .timeout
  cases queue with
  | nil => exact hsilent fun _ ha => by cases ha
  | cons arrival rest =>
    by_cases hearly : arrival.time ≤ now + limit * session.window
    · obtain ⟨-, -, hhears⟩ := h.heard arrival rest rfl hearly
      obtain ⟨next, later, till, result, record⟩ := wait
      cases hhears with
      | packet => exact .reply _
      | malformed => exact .malformed _
      | stranger => exact .stranger _
    · exact hsilent fun _ ha => Option.some.inj ha ▸ Nat.lt_of_not_le hearly

end Exchange

namespace Dialogue

variable (link : Link)

theorem given_append (calls more : List Call) : given (calls ++ more) = (given more).or (given calls) := by
  rw [given, List.filterMap_append, List.getLast?_append]
  rfl

theorem given_single (call : Call) : given [call] = call.packet := by
  rw [given, List.filterMap_cons]
  cases call.packet <;> rfl

theorem call_lastPacket (dialogue : Dialogue) (call : Call) :
    (dialogue.call link call).dialogue.transfer.lastPacket = call.packet.or dialogue.transfer.lastPacket := by
  have hconclude : ∀ (transfer : Transfer) result,
      (conclude transfer result).1.lastPacket = transfer.lastPacket := by
    intro transfer result
    cases result <;> rfl
  rw [Dialogue.call, hconclude]
  cases call.packet <;> rfl

theorem after_lastPacket (dialogue : Dialogue) (calls : List Call) :
    (dialogue.after link calls).transfer.lastPacket = (given calls).or dialogue.transfer.lastPacket := by
  induction calls generalizing dialogue with
  | nil => rfl
  | cons call calls ih =>
    rw [← List.singleton_append, given_append, given_single, Option.or_assoc, ← call_lastPacket link]
    exact ih _

theorem exists_given {calls : List Call} (h : ∃ call packet, calls.head? = some call ∧ call.packet = some packet) :
    ∃ kept, given calls = some kept := by
  obtain ⟨call, packet, hhead, hpacket⟩ := h
  obtain ⟨rest, rfl⟩ := List.head?_eq_some_iff.mp hhead
  rw [given, List.filterMap_cons, hpacket]
  exact ⟨_, List.getLast?_cons⟩

theorem exchange_eq {transfer : Transfer} {packet : Option Packet} {kept : Packet}
    (h : packet.or transfer.lastPacket = some kept) :
    transfer.exchange link packet =
      (Exchange.openWindow link transfer.session packet Exchange.windows).map
        ({ transfer with lastPacket := some kept }, ·) := by
  cases packet with
  | some packet =>
    cases h
    rfl
  | none =>
    obtain ⟨session, phase, path, options, lastPacket, finalPacket, pendingError⟩ := transfer
    cases h
    rfl

theorem call_answered {dialogue : Dialogue} {call : Call} {kept : Packet}
    (hkept : call.packet.or dialogue.transfer.lastPacket = some kept)
    (hs : ∀ packet, call.packet = some packet → Session.send link packet = .ok ()) :
    Answered dialogue call kept (dialogue.call link call) := by
  have hconducted : Exchange.Conducted dialogue.transfer.session dialogue.queue call.packet 3
      (dialogue.now + call.pause) _ := Exchange.conduct_conducted hs 2 (dialogue.now + call.pause)
  have hcall : dialogue.call link call =
      let wait := Exchange.conduct link dialogue.transfer.session dialogue.queue (dialogue.now + call.pause)
        (Exchange.openWindow link dialogue.transfer.session call.packet Exchange.windows)
      let concluded := conclude { dialogue.transfer with session := wait.session, lastPacket := some kept } wait.result
      { dialogue := { transfer := concluded.1, queue := wait.queue, now := wait.now }
        reply := concluded.2, record := wait.record } := by
    rw [Dialogue.call, exchange_eq link hkept]
    rfl
  rw [hcall]
  exact ⟨fun _ _ hsent => hconducted.sends hsent, _, hconducted, rfl, rfl, rfl, hconducted.notes _⟩

/-- However datagrams come in, an exchange ends in one of its three windows, and a transfer that asks for one
exchange after another keeps in step with what it has been given. The clock adds nothing else: a window that closes
is one that expires, and where all that comes in is there from the start, this is how a script waits. -/
theorem exchanges_coordinate :
    (∀ (session : Session) (queue : List Arrival) (now : Nat) (packet : Packet) (send : Bool),
      (send = true → Session.send link packet = .ok ()) →
      Exchange.Conducted session queue (if send then some packet else none) 3 now
          (session.sendAndReceive link queue now packet send) ∧
        ((session.sendAndReceive link queue now packet send).result = .error .timeout ↔
          ∀ arrival ∈ queue.head?, now + 3 * session.window < arrival.time)) ∧
    (∀ (dialogue : Dialogue) (calls : List Call) (call : Call),
      (∃ first packet, (calls ++ [call]).head? = some first ∧ first.packet = some packet) →
      (∀ packet, call.packet = some packet → Session.send link packet = .ok ()) →
      ∃ kept, given (calls ++ [call]) = some kept ∧
        Answered (dialogue.after link calls) call kept ((dialogue.after link calls).call link call)) ∧
    ∀ (session : Session) (queue : List Arrival) (now : Nat),
      (∀ repeated left, Exchange.heard? session queue now = none →
        Exchange.follow link session queue repeated left now =
          let wait := Exchange.conduct link session queue (now + session.window)
            (Exchange.expire link session { repeated, left })
          { wait with record := .listened now (now + session.window) :: wait.record }) ∧
      ∀ opened, (∀ arrival ∈ queue, arrival.time ≤ now) →
        let wait := Exchange.conduct link session queue now opened
        Script.await link session (queue.map Arrival.datagram) opened =
          { session := wait.session, queue := wait.queue.map Arrival.datagram, result := wait.result
            sent := Exchange.sentIn wait.record, elapsed := (wait.now - now) / 1000000 } := by
  refine ⟨fun session queue now packet send hsend => ?_, fun dialogue calls call hfirst hsend => ?_,
    fun session queue now => ⟨fun repeated left hq => Exchange.follow_expire hq,
      fun opened hq => Exchange.await_conduct now opened hq⟩⟩
  · have hs : ∀ other, (if send then some packet else none) = some other → Session.send link other = .ok () := by
      intro other hother
      cases send with
      | true => exact Option.some.inj hother ▸ hsend rfl
      | false => cases hother
    have hconducted : Exchange.Conducted session queue (if send then some packet else none) 3 now
        (session.sendAndReceive link queue now packet send) := Exchange.conduct_conducted hs 2 now
    exact ⟨hconducted, hconducted.timeout_iff⟩
  · obtain ⟨kept, hkept⟩ := exists_given hfirst
    refine ⟨kept, hkept, call_answered link ?_ hsend⟩
    rw [after_lastPacket, ← Option.or_assoc, ← given_single, ← given_append, hkept, Option.some_or]

def lateAck : Dialogue where
  transfer :=
    { session := .accept { ip := .v4 10 0 0 2, port := 40002 } 1000
      phase := .dataTransfer, path := "note", options := {} }
  queue :=
    [{ time := 1500000000, datagram := ⟨{ ip := .v4 10 0 0 2, port := 40002 }, (Packet.ack 1).encode⟩ },
      { time := 2000000000, datagram := ⟨{ ip := .v4 10 0 0 2, port := 40003 }, (Packet.ack 1).encode⟩ }]
  now := 0

theorem lateAck_coordinates :
    let block := Packet.data 1 [104, 105]
    let calls := [{ packet := some block }]
    Session.send .connected block = .ok () ∧
      (lateAck.transfer.session.sendAndReceive .connected lateAck.queue 0 block true).result ≠ .error .timeout ∧
      given calls = some block ∧
      ∃ kept, given (calls ++ [{ packet := none }]) = some kept ∧
        Answered (lateAck.after .connected calls) { packet := none } kept
          ((lateAck.after .connected calls).call .connected { packet := none }) := by
  intro block calls
  have hsend : Session.send .connected block = .ok () := rfl
  refine ⟨hsend, ?_, rfl, ?_⟩
  · rw [Ne, ((exchanges_coordinate .connected).1 lateAck.transfer.session lateAck.queue 0 block true
      fun _ => hsend).2]
    decide
  · exact (exchanges_coordinate .connected).2.1 lateAck calls { packet := none } ⟨_, block, rfl, rfl⟩
      fun packet hp => by cases hp

end Dialogue

end Tftp
