import Tftp.Proofs.Answers
import Tftp.Proofs.Retransmission
import Tftp.Proofs.Windows

namespace Tftp.TransferTrace

def Entry.CameIn : Entry → Bool
  | heard _ | refused _ => true
  | expired | sent _ => false

def Entry.Closed : Entry → Bool
  | expired => true
  | heard _ | refused _ | sent _ => false

def arrived (record : List Entry) : Nat :=
  record.countP Entry.CameIn

def closed (record : List Entry) : Nat :=
  record.countP Entry.Closed

def carried (link : Link) (record : List Entry) : List Packet :=
  (said record).filter fun packet => link.carries packet.encode.length

def launch (link : Link) (stopped : Bool) (disk : Disk) (transfer : Transfer) (party : Block.Party)
    (action : Block.Action) : TransferTrace :=
  let move := Run.start link stopped transfer party action
  { disk, run := move.state, stopped, record := entries move.sent }

def asks (stopped : Bool) (action : Block.Action) : Nat :=
  match stopped, action with
  | false, .send _ | false, .listen => 1
  | _, _ => 0

def asked (trace : TransferTrace) : Event → Nat
  | .datagram datagram =>
    match trace.run.stage, (trace.run.transfer.session.read datagram).2 with
    | .waiting _, .ok packet => asks trace.stopped (trace.run.party.onPacket trace.disk packet).2.2
    | _, _ => 0
  | .timeout | .stop | .files _ => 0

/-- Whether an event is the ACK of an earlier block, while a sender waits. -/
def stale (trace : TransferTrace) : Event → Bool
  | .datagram datagram =>
    match trace.run.stage, trace.run.party, (trace.run.transfer.session.read datagram).2 with
    | .waiting _, .sender s, .ok (.ack m) => Block.order m s.current = .behind
    | _, _, _ => false
  | .timeout | .stop | .files _ => false

def total (link : Link) (count : TransferTrace → Event → Nat) (trace : TransferTrace) : List Event → Nat
  | [] => 0
  | event :: events => count trace event + total link count (trace.step link event) events

theorem asks_le (stopped : Bool) (action : Block.Action) : asks stopped action ≤ 1 := by
  unfold asks
  split <;> decide

@[simp] theorem arrived_append (record more : List Entry) : arrived (record ++ more) = arrived record + arrived more :=
  List.countP_append

@[simp] theorem closed_append (record more : List Entry) : closed (record ++ more) = closed record + closed more :=
  List.countP_append

@[simp] theorem carried_append (link : Link) (record more : List Entry) :
    carried link (record ++ more) = carried link record ++ carried link more := by
  rw [carried, said_append, List.filter_append]
  rfl

theorem cameIn_counts {entry : Entry} (h : entry.CameIn = true) :
    arrived [entry] = 1 ∧ closed [entry] = 0 ∧ said [entry] = [] ∧ ∀ count, entry.tally count = 0 := by
  cases entry with
  | heard packet => exact ⟨rfl, rfl, rfl, fun _ => rfl⟩
  | refused failure => exact ⟨rfl, rfl, rfl, fun _ => rfl⟩
  | expired => cases h
  | sent packet => cases h

theorem entries_eq (sent : List Transmission) : entries sent = (sent.map Transmission.packet).map .sent := by
  rw [entries, List.map_map]
  rfl

@[simp] theorem said_entries (sent : List Transmission) : said (entries sent) = sent.map Transmission.packet := by
  rw [entries_eq, said_map]

@[simp] theorem arrived_entries (sent : List Transmission) : arrived (entries sent) = 0 := by
  rw [arrived, List.countP_eq_zero]
  intro entry h
  obtain ⟨x, -, rfl⟩ := List.mem_map.mp h
  exact Bool.false_ne_true

@[simp] theorem closed_entries (sent : List Transmission) : closed (entries sent) = 0 := by
  rw [closed, List.countP_eq_zero]
  intro entry h
  obtain ⟨x, -, rfl⟩ := List.mem_map.mp h
  exact Bool.false_ne_true

@[simp] theorem carried_entries (link : Link) (sent : List Transmission) :
    (carried link (entries sent)).length = (link.delivered sent).length := by
  rw [carried, said_entries, List.filter_map, List.length_map]
  rfl

/-- A move that has at most `windows` windows ahead of it. -/
structure Frugal (link : Link) (session : Session) (windows : Nat) (move : Move (Transfer × Stage)) : Prop where
  session : move.state.1.session = session
  leaves : (link.delivered move.sent).length ≤ 1
  waits : ∀ exchange, move.state.2 = .waiting exchange → move.sent.length ≤ 1 ∧ exchange.left + 1 ≤ windows
  tries : move.sent.length ≤ windows + 1

variable (link : Link)

theorem delivered_le (sent : List Transmission) : (link.delivered sent).length ≤ sent.length :=
  List.length_filter_le _ _

theorem not_carries {packet : Packet} {failure : ExchangeFailure} (h : Session.send link packet = .error failure) :
    link.carries packet.encode.length = false := by
  rw [Session.send] at h
  split at h
  · next hr => rw [Link.carries, hr, Option.isNone_some]
  · cases h

theorem Frugal.mono {session : Session} {windows more : Nat} {move : Move (Transfer × Stage)}
    (h : Frugal link session windows move) (hm : windows ≤ more) : Frugal link session more move :=
  ⟨h.session, h.leaves, fun exchange hw => ⟨(h.waits exchange hw).1, Nat.le_trans (h.waits exchange hw).2 hm⟩,
    Nat.le_trans h.tries (Nat.add_le_add_right hm 1)⟩

theorem Frugal.of_ended {session : Session} {next : Transfer} (result : Except TransferFailure Unit)
    {sent : List Transmission} (hn : next.session = session) (hs : sent.length ≤ 1) :
    Frugal link session 0 { state := (next, .ended result), sent } :=
  ⟨hn, Nat.le_trans (delivered_le link sent) hs, fun _ hw => (by cases hw), hs⟩

theorem Frugal.of_finish (transfer : Transfer) : Frugal link transfer.session 0 (Stage.finish transfer) := by
  rw [Stage.finish, Transfer.finish]
  cases transfer.pendingError with
  | some e => exact of_ended link _ rfl (Nat.le_refl 1)
  | none =>
    refine of_ended link _ rfl ?_
    cases transfer.finalPacket with
    | some packet => exact Nat.le_refl 1
    | none => exact Nat.zero_le 1

theorem Frugal.of_openWindow (transfer : Transfer) (repeated : Option Packet) (n : Nat) :
    Frugal link transfer.session n
      ((Exchange.openWindow link transfer.session repeated n).andThen (Stage.ofProgress transfer)) := by
  cases n with
  | zero => exact of_finish link (transfer.failExchange .timeout)
  | succ left =>
    cases repeated with
    | none =>
      refine ⟨rfl, Nat.zero_le 1, fun exchange hw => ⟨Nat.zero_le 1, ?_⟩, Nat.zero_le _⟩
      cases hw
      exact Nat.le_refl _
    | some packet =>
      cases hs : Session.send link packet with
      | ok sent =>
        simp only [Exchange.openWindow, hs, Move.andThen, Stage.ofProgress, List.append_nil]
        refine ⟨rfl, delivered_le link _, fun exchange hw => ⟨Nat.le_refl 1, ?_⟩, Nat.le_add_left 1 _⟩
        cases hw
        exact Nat.le_refl _
      | error failure =>
        have hleft : link.delivered [transfer.session.address packet] = [] :=
          List.filter_cons_of_neg (by rw [Session.address, not_carries link hs]; exact Bool.false_ne_true)
        have hfinish := of_finish link (transfer.failExchange failure)
        simp only [Exchange.openWindow, hs, Move.andThen, Stage.ofProgress]
        refine ⟨hfinish.session, ?_, fun exchange hw => ?_, ?_⟩
        · rw [Link.delivered, List.filter_append, ← Link.delivered, hleft, List.nil_append]
          exact hfinish.leaves
        · exact absurd (hfinish.waits exchange hw).2 (Nat.not_succ_le_zero _)
        · have := hfinish.tries
          rw [List.length_append, List.length_singleton]
          omega

theorem Frugal.of_act (stopped : Bool) (transfer : Transfer) (action : Block.Action) :
    Frugal link transfer.session (3 * asks stopped action) (Stage.act link stopped transfer action) := by
  cases stopped with
  | true => exact of_ended link _ rfl (Nat.zero_le 1)
  | false =>
    cases action with
    | send packet =>
      exact of_openWindow link { transfer with lastPacket := some packet } (some packet) Exchange.windows
    | listen =>
      have hwindows : (if transfer.lastPacket.isSome then Exchange.windows else 1) ≤ 3 * asks false .listen := by
        split <;> decide
      exact (of_openWindow link transfer none _).mono link hwindows
    | close reason => cases reason <;> exact of_ended link _ rfl (Nat.zero_le 1)
    | terminate packet =>
      cases packet with
      | error code message => exact of_finish link (transfer.fail code message)
      | _ => exact of_finish link { transfer with finalPacket := some _, phase := .finalAck }

structure Spent (exchanges : Nat) (record : List Entry) : Prop where
  arrived : exchanges ≤ arrived record + 1
  said : (said record).length ≤ 3 * exchanges + 1
  closed : closed record ≤ 3 * exchanges
  idle : idle record ≤ 3

structure Room (windows exchanges : Nat) (record : List Entry) : Prop where
  arrived : exchanges ≤ arrived record + 1
  said : (said record).length + windows ≤ 3 * exchanges
  closed : closed record + windows ≤ 3 * exchanges
  idle : idle record + windows ≤ 3

/-- The invariant. While a window is open, there is room for the ones left to it, and for its own closing. -/
structure Metered (timeout exchanges : Nat) (trace : TransferTrace) : Prop where
  timeout : trace.run.transfer.session.timeout = timeout
  spent : Spent exchanges trace.record
  room : ∀ exchange, trace.run.stage = .waiting exchange → Room exchange.left exchanges (trace.record ++ [.expired])

theorem idle_entries (record : List Entry) (sent : List Transmission) :
    idle (record ++ entries sent) = idle record := by
  rw [entries_eq, idle_sent]

theorem Frugal.spent {session : Session} {windows exchanges : Nat} {move : Move (Transfer × Stage)}
    {record : List Entry} (hm : Frugal link session windows move) (h : Room windows exchanges record) :
    Spent exchanges (record ++ entries move.sent) ∧
      ∀ exchange, move.state.2 = .waiting exchange →
        Room exchange.left exchanges (record ++ entries move.sent ++ [.expired]) := by
  obtain ⟨harrived, hsaid, hclosed, hidle⟩ := h
  have htries := hm.tries
  have hnow : arrived (record ++ entries move.sent) = arrived record ∧
      closed (record ++ entries move.sent) = closed record ∧
      (said (record ++ entries move.sent)).length = (said record).length + move.sent.length := by
    simp
  obtain ⟨harrivedNow, hclosedNow, hsaidNow⟩ := hnow
  have hidleNow := idle_entries record move.sent
  refine ⟨⟨by omega, by omega, by omega, by omega⟩, fun exchange hw => ?_⟩
  obtain ⟨hsent, hleft⟩ := hm.waits exchange hw
  refine ⟨?_, ?_, ?_, ?_⟩
  · rw [arrived_append]
    omega
  · rw [said_append, said_expired, said_nil, List.append_nil]
    omega
  · rw [closed_append, show closed [Entry.expired] = 1 from rfl]
    omega
  · rw [idle_append, Entry.tally]
    omega

variable {link} in
theorem Frugal.metered {session : Session} {windows timeout exchanges : Nat} {move : Move (Transfer × Stage)}
    {trace : TransferTrace} {entry : Entry} (hm : Frugal link session windows move) (hs : session.timeout = timeout)
    (h : Room windows exchanges (trace.record ++ [entry])) (disk : Disk) (party : Block.Party) :
    Metered timeout exchanges (trace.take entry (move.map fun next => (disk, Run.ofStage party next))) :=
  ⟨(congrArg Session.timeout hm.session).trans hs, (hm.spent link h).1, (hm.spent link h).2⟩

theorem launch_metered (stopped : Bool) (disk : Disk) (transfer : Transfer) (party : Block.Party)
    (action : Block.Action) :
    Metered transfer.session.timeout (asks stopped action) (launch link stopped disk transfer party action) := by
  have hm := Frugal.of_act link stopped transfer action
  have hone := asks_le stopped action
  have hroom : Room (3 * asks stopped action) (asks stopped action) [] :=
    ⟨hone, Nat.le_of_eq (Nat.zero_add _), Nat.le_of_eq (Nat.zero_add _), by rw [show idle [] = 0 from rfl]; omega⟩
  exact ⟨congrArg Session.timeout hm.session, (hm.spent link hroom).1, (hm.spent link hroom).2⟩

theorem Room.heard {left exchanges asked : Nat} {record : List Entry}
    (h : Room left exchanges (record ++ [.expired])) {entry : Entry} (he : entry.CameIn = true) (hone : asked ≤ 1) :
    Room (3 * asked) (exchanges + asked) (record ++ [entry]) := by
  obtain ⟨harrived, hsaid, hclosed, -⟩ := h
  rw [arrived_append, show TransferTrace.arrived [.expired] = 0 from rfl] at harrived
  rw [said_append, said_expired, said_nil, List.append_nil] at hsaid
  rw [closed_append, show TransferTrace.closed [.expired] = 1 from rfl] at hclosed
  obtain ⟨harrivedEntry, hclosedEntry, hsaidEntry, hidleEntry⟩ := cameIn_counts he
  refine ⟨?_, ?_, ?_, ?_⟩
  · rw [arrived_append, harrivedEntry]
    omega
  · rw [said_append, hsaidEntry, List.append_nil]
    omega
  · rw [closed_append, hclosedEntry]
    omega
  · rw [idle_append, hidleEntry]
    omega

inductive Takes (link : Link) (trace : TransferTrace) (exchange : Exchange) : Event → TransferTrace → Prop where
  | datagram (datagram : Datagram) {entry : Entry} {session : Session} {move : Move (Transfer × Stage)} (disk : Disk)
    (party : Block.Party) (he : entry.CameIn = true) (ht : session.timeout = trace.run.transfer.session.timeout)
    (hm : Frugal link session (3 * trace.asked (.datagram datagram)) move) :
    Takes link trace exchange (.datagram datagram)
      (trace.take entry (move.map fun next => (disk, Run.ofStage party next)))
  | timeout {move : Move (Transfer × Stage)} (hm : Frugal link trace.run.transfer.session exchange.left move) :
    Takes link trace exchange .timeout
      (trace.take .expired (move.map fun next => (trace.disk, Run.ofStage trace.run.party next)))
  | stop : Takes link trace exchange .stop { trace with stopped := true }
  | files (disk : Disk) : Takes link trace exchange (.files disk) { trace with disk }

theorem step_takes {trace : TransferTrace} {exchange : Exchange} (hw : trace.run.stage = .waiting exchange)
    (event : Event) : Takes link trace exchange event (trace.step link event) := by
  cases event with
  | datagram datagram =>
    have htimeout := (trace.run.transfer.session.read_hears datagram).timeout_eq
    cases hr : (trace.run.transfer.session.read datagram).2 with
    | ok packet =>
      have hasked : trace.asked (.datagram datagram) =
          asks trace.stopped (trace.run.party.onPacket trace.disk packet).2.2 := by
        simp only [asked, hw, hr]
      have hm := Frugal.of_act link trace.stopped (trace.received datagram)
        (trace.run.party.onPacket trace.disk packet).2.2
      rw [← hasked] at hm
      rw [step_packet link hw hr]
      exact .datagram datagram _ _ rfl htimeout hm
    | error failure =>
      have hm := (Frugal.of_finish link ((trace.received datagram).failExchange failure)).mono link
        (Nat.zero_le (3 * trace.asked (.datagram datagram)))
      rw [step_refused link hw hr]
      exact .datagram datagram _ _ rfl htimeout hm
  | timeout =>
    rw [step_timeout link hw]
    exact .timeout (Frugal.of_openWindow link trace.run.transfer exchange.repeated exchange.left)
  | stop =>
    rw [step_stop link hw]
    exact .stop
  | files disk =>
    rw [step_files link hw]
    exact .files disk

theorem asked_le (trace : TransferTrace) (event : Event) : trace.asked event ≤ 1 := by
  cases event with
  | datagram datagram =>
    rw [asked]
    split
    · exact asks_le _ _
    · exact Nat.zero_le 1
  | _ => exact Nat.zero_le 1

theorem step_metered {trace : TransferTrace} {timeout exchanges : Nat} (h : Metered timeout exchanges trace)
    (event : Event) : Metered timeout (exchanges + trace.asked event) (trace.step link event) := by
  cases hw : trace.run.stage with
  | ended result =>
    have hasked : trace.asked event = 0 := by
      cases event <;> simp only [asked, hw]
    rw [step_ended link hw, hasked]
    exact h
  | waiting exchange =>
    have hroom := h.room exchange hw
    have htakes := step_takes link hw event
    generalize trace.step link event = next at htakes
    cases htakes with
    | datagram datagram disk party he ht hm =>
      exact hm.metered (ht.trans h.timeout) (hroom.heard he (asked_le trace _)) disk party
    | timeout hm => exact hm.metered h.timeout hroom _ _
    | stop => exact ⟨h.timeout, h.spent, h.room⟩
    | files disk => exact ⟨h.timeout, h.spent, h.room⟩

theorem after_metered {trace : TransferTrace} {timeout exchanges : Nat} (h : Metered timeout exchanges trace)
    (events : List Event) :
    Metered timeout (exchanges + total link asked trace events) (trace.after link events) := by
  induction events generalizing trace exchanges with
  | nil => exact h
  | cons event events ih =>
    rw [total, ← Nat.add_assoc]
    exact ih (step_metered link h event)

def Event.Arrives : Event → Bool
  | datagram _ => true
  | timeout | stop | files _ => false

def Event.Closes : Event → Bool
  | timeout => true
  | datagram _ | stop | files _ => false

theorem waiting_of_step {trace : TransferTrace} {event : Event} (h : (trace.step link event).Waiting) :
    trace.Waiting := by
  cases hw : trace.run.stage with
  | ended result =>
    rw [step_ended link hw] at h
    exact h
  | waiting exchange => exact ⟨exchange, hw⟩

theorem waiting_of_after {trace : TransferTrace} {events : List Event} (h : (trace.after link events).Waiting) :
    trace.Waiting := by
  induction events generalizing trace with
  | nil => exact h
  | cons event events ih => exact waiting_of_step link (ih h)

variable {link} in
theorem Takes.counts {trace next : TransferTrace} {exchange : Exchange} {event : Event}
    (h : Takes link trace exchange event next) :
    arrived next.record = arrived trace.record + (if event.Arrives then 1 else 0) ∧
      closed next.record = closed trace.record + if event.Closes then 1 else 0 := by
  cases h with
  | datagram datagram disk party he ht hm =>
    obtain ⟨harrived, hclosed, -, -⟩ := cameIn_counts he
    simp only [take, arrived_append, harrived, arrived_entries, closed_append, hclosed, closed_entries]
    exact ⟨rfl, rfl⟩
  | timeout hm =>
    simp only [take, arrived_append, arrived_entries, closed_append, closed_entries]
    exact ⟨rfl, rfl⟩
  | stop => exact ⟨rfl, rfl⟩
  | files disk => exact ⟨rfl, rfl⟩

theorem after_counts {trace : TransferTrace} {events : List Event} (h : (trace.after link events).Waiting) :
    arrived (trace.after link events).record = arrived trace.record + events.countP Event.Arrives ∧
      closed (trace.after link events).record = closed trace.record + events.countP Event.Closes := by
  induction events generalizing trace with
  | nil => exact ⟨rfl, rfl⟩
  | cons event events ih =>
    obtain ⟨exchange, hw⟩ := waiting_of_step link (waiting_of_after link h)
    obtain ⟨harrived, hclosed⟩ := (step_takes link hw event).counts
    obtain ⟨harrivedLater, hclosedLater⟩ := ih h
    rw [List.countP_cons, List.countP_cons]
    exact ⟨harrivedLater.trans (by omega), hclosedLater.trans (by omega)⟩

theorem idle_timeouts {trace : TransferTrace} {n : Nat} (h : (trace.after link (List.replicate n .timeout)).Waiting) :
    idle (trace.after link (List.replicate n .timeout)).record = idle trace.record + n := by
  induction n generalizing trace with
  | zero => rfl
  | succ n ih =>
    obtain ⟨exchange, hw⟩ := waiting_of_after link h
    have hstep : idle (trace.step link .timeout).record = idle trace.record + 1 := by
      rw [step_timeout link hw]
      simp only [take, idle_entries, idle_append, Entry.tally]
    calc idle ((trace.step link .timeout).after link (List.replicate n .timeout)).record
        = idle (trace.step link .timeout).record + n := ih h
      _ = idle trace.record + (n + 1) := by rw [hstep, Nat.add_assoc, Nat.add_comm 1]

/-- Three windows that close in a row are too many. -/
theorem Metered.ends {trace : TransferTrace} {timeout exchanges : Nat} (h : Metered timeout exchanges trace) :
    ∃ result, (trace.after link (List.replicate 3 .timeout)).run.stage = .ended result := by
  have hlater := after_metered link h (List.replicate 3 .timeout)
  cases hw : (trace.after link (List.replicate 3 .timeout)).run.stage with
  | ended result => exact ⟨result, rfl⟩
  | waiting exchange =>
    have hidle := (hlater.room exchange hw).idle
    rw [idle_append, Entry.tally, idle_timeouts link ⟨exchange, hw⟩] at hidle
    omega

theorem Metered.waits {trace : TransferTrace} {timeout exchanges : Nat} (h : Metered timeout exchanges trace)
    (hw : trace.Waiting) : idle trace.record < 3 ∧ closed trace.record < 3 * (arrived trace.record + 1) := by
  obtain ⟨exchange, hw⟩ := hw
  obtain ⟨-, -, hclosed, hidle⟩ := h.room exchange hw
  have harrived := h.spent.arrived
  rw [closed_append, show TransferTrace.closed [.expired] = 1 from rfl] at hclosed
  rw [idle_append, Entry.tally] at hidle
  omega

variable {link} in
theorem Frugal.carried_le {session : Session} {windows : Nat} {move : Move (Transfer × Stage)}
    (hm : Frugal link session windows move) {entry : Entry} (he : said [entry] = []) (record : List Entry) :
    (carried link (record ++ [entry] ++ entries move.sent)).length ≤ (carried link record).length + 1 := by
  rw [carried_append, List.length_append, carried_entries, carried, said_append, he, List.append_nil]
  exact Nat.add_le_add_left hm.leaves _

variable {link} in
theorem Takes.carried_le {trace next : TransferTrace} {exchange : Exchange} {event : Event}
    (h : Takes link trace exchange event next) :
    (carried link next.record).length ≤
      (carried link trace.record).length + (if event.Arrives then 1 else 0) + if event.Closes then 1 else 0 := by
  cases h with
  | datagram datagram disk party he ht hm => exact hm.carried_le (cameIn_counts he).2.2.1 trace.record
  | timeout hm => exact hm.carried_le rfl trace.record
  | stop => exact Nat.le_refl _
  | files disk => exact Nat.le_refl _

structure Ignored (trace next : TransferTrace) : Prop where
  record : ∃ m, next.record = trace.record ++ [.heard (.ack m)]
  party : next.run.party = trace.run.party
  disk : next.disk = trace.disk

theorem step_stale {trace : TransferTrace} {event : Event} (h : trace.stale event = true) :
    Ignored trace (trace.step link event) := by
  cases event with
  | datagram datagram =>
    rw [stale] at h
    split at h
    · next exchange s m hw hs hr =>
      have horder : Block.order m s.current = .behind := of_decide_eq_true h
      have hack : (Block.Party.sender s).onPacket trace.disk (.ack m) = (trace.disk, .sender s, .listen) := by
        simp only [Block.Party.onPacket, Block.Sender.onPacket, Block.Sender.onAck, horder]
      have hsent : (Stage.act link trace.stopped (trace.received datagram) .listen).sent = [] := by
        cases trace.stopped with
        | true => rfl
        | false =>
          obtain ⟨left, hact⟩ := act_listen link (trace.received datagram)
          rw [hact]
      rw [step_packet link hw hr, hs, hack]
      refine ⟨⟨m, ?_⟩, hs.symm, rfl⟩
      simp only [take, Move.map, hsent]
      exact List.append_nil _
    · cases h
  | timeout => cases h
  | stop => cases h
  | files disk => cases h

theorem step_carried (trace : TransferTrace) (event : Event) :
    let next := trace.step link event
    (carried link next.record).length + (trace.stale event).toNat + arrived trace.record + closed trace.record ≤
      (carried link trace.record).length + arrived next.record + closed next.record := by
  intro next
  cases hw : trace.run.stage with
  | ended result =>
    have hstale : trace.stale event = false := by
      cases event <;> simp only [stale, hw]
    have hnext : next = trace := step_ended link hw event
    rw [hnext, hstale, Bool.toNat_false]
    omega
  | waiting exchange =>
    have htakes : Takes link trace exchange event next := step_takes link hw event
    obtain ⟨harrived, hclosed⟩ := htakes.counts
    have hcarried := htakes.carried_le
    cases hstale : trace.stale event with
    | false =>
      rw [Bool.toNat_false]
      omega
    | true =>
      -- a stale ACK has come in, and nothing leaves for it
      obtain ⟨m, hrecord⟩ := (step_stale link hstale).record
      have hsame : carried link next.record = carried link trace.record := by
        rw [hrecord, carried_append]
        exact List.append_nil _
      have harrives : event.Arrives = true := by
        cases event with
        | datagram datagram => rfl
        | timeout => cases hstale
        | stop => cases hstale
        | files disk => cases hstale
      rw [if_pos harrives] at harrived
      rw [hsame, Bool.toNat_true]
      omega

theorem after_carried (trace : TransferTrace) (events : List Event) :
    let last := trace.after link events
    (carried link last.record).length + total link (fun trace event => (trace.stale event).toNat) trace events +
        arrived trace.record + closed trace.record ≤
      (carried link trace.record).length + arrived last.record + closed last.record := by
  induction events generalizing trace with
  | nil =>
    simp only [after, List.foldl_nil, total]
    omega
  | cons event events ih =>
    have hstep := step_carried link trace event
    have hrest := ih (trace.step link event)
    simp only [total] at hstep hrest ⊢
    change (carried link ((trace.step link event).after link events).record).length + _ + _ + _ ≤
      _ + arrived ((trace.step link event).after link events).record +
        closed ((trace.step link event).after link events).record
    omega

theorem step_carried_le (trace : TransferTrace) (event : Event) :
    (carried link (trace.step link event).record).length ≤ (carried link trace.record).length + 1 := by
  cases hw : trace.run.stage with
  | ended result =>
    rw [step_ended link hw]
    exact Nat.le_succ _
  | waiting exchange =>
    have hcarried := (step_takes link hw event).carried_le
    have hone : (if event.Arrives then 1 else 0) + (if event.Closes then 1 else 0) ≤ 1 := by
      cases event <;> simp [Event.Arrives, Event.Closes]
    omega

/-- What a transfer costs when these events follow its beginning. -/
structure Costs (link : Link) (exchanges : Nat) (start : TransferTrace) (events : List Event) : Prop where
  /-- Once nothing comes in any more, it is over after three windows. -/
  ends : ∃ result, (start.after link (events ++ List.replicate 3 .timeout)).run.stage = .ended result
  /-- Until then, the open window is one of three, and not more have closed than three for the beginning and three
  for each datagram. -/
  waits : (start.after link events).Waiting → idle (start.after link events).record < 3 ∧
    events.countP Event.Closes < 3 * (events.countP Event.Arrives + 1)
  spent : Spent exchanges (start.after link events).record
  said : (said (start.after link events).record).length ≤ 3 * (arrived (start.after link events).record + 1) + 1
  timeout : (start.after link events).run.transfer.session.timeout = start.run.transfer.session.timeout
  /-- One more event makes at most one packet leave. -/
  one : ∀ event, (carried link ((start.after link events).step link event).record).length ≤
    (carried link (start.after link events).record).length + 1
  none : ∀ event, (start.after link events).stale event = true →
    Ignored (start.after link events) ((start.after link events).step link event)
  carried : (carried link (start.after link events).record).length +
      total link (fun trace event => (trace.stale event).toNat) start events ≤
    arrived (start.after link events).record + closed (start.after link events).record + 1

theorem costs_bounded (stopped : Bool) (disk : Disk) (transfer : Transfer) (party : Block.Party)
    (action : Block.Action) (events : List Event) :
    let start := launch link stopped disk transfer party action
    Costs link (asks stopped action + total link asked start events) start events := by
  intro start
  have hstart := launch_metered link stopped disk transfer party action
  have hlater := after_metered link hstart events
  have hrecord : start.record = entries (Stage.act link stopped transfer action).sent := rfl
  have hnone : arrived start.record = 0 ∧ closed start.record = 0 := by
    rw [hrecord]
    exact ⟨arrived_entries _, closed_entries _⟩
  refine ⟨?_, fun hw => ?_, hlater.spent, ?_, ?_, step_carried_le link _, fun event hs => step_stale link hs, ?_⟩
  · rw [after, List.foldl_append]
    exact hlater.ends link
  · obtain ⟨hidle, hlt⟩ := hlater.waits hw
    obtain ⟨harrived, hclosed⟩ := after_counts link hw
    rw [harrived, hclosed, hnone.1, hnone.2, Nat.zero_add, Nat.zero_add] at hlt
    exact ⟨hidle, hlt⟩
  · obtain ⟨hexchanges, hsaid, -, -⟩ := hlater.spent
    exact Nat.le_trans hsaid (Nat.add_le_add_right (Nat.mul_le_mul_left 3 hexchanges) 1)
  · exact hlater.timeout.trans hstart.timeout.symm
  · have hcarried := after_carried link start events
    have hleaves := (Frugal.of_act link stopped transfer action).leaves
    simp only [hnone.1, hnone.2] at hcarried
    rw [hrecord, carried_entries] at hcarried
    omega

/-- Nobody answers: one exchange, and all that it may send. -/
example :
    let silence := threeOctets.after .connected (List.replicate 3 .timeout)
    (said silence.record).length = 3 * (arrived silence.record + 1) + 1 := by
  rfl

end Tftp.TransferTrace
