import Tftp.Proofs.StepEffect

namespace Tftp

inductive TransferTrace.Entry where
  | heard (packet : Packet)
  | refused (failure : ExchangeFailure)
  | expired
  | sent (packet : Packet)
deriving DecidableEq

/-- One transfer from the moment its block exchange begins, and all that has been heard and said so far. -/
structure TransferTrace where
  disk : Disk
  run : Run
  stopped : Bool
  record : List TransferTrace.Entry

namespace TransferTrace

def Entry.ofDatagram (session : Session) (datagram : Datagram) : Entry :=
  match (session.read datagram).2 with
  | .ok packet => heard packet
  | .error failure => refused failure

def Entry.said? : Entry → Option Packet
  | sent packet => some packet
  | _ => none

def Entry.tally (count : Nat) : Entry → Nat
  | heard _ | refused _ => 0
  | expired => count + 1
  | sent _ => count

def said (record : List Entry) : List Packet :=
  record.filterMap Entry.said?

def idle (record : List Entry) : Nat :=
  record.foldl (fun count entry => entry.tally count) 0

def entries (sent : List Transmission) : List Entry :=
  sent.map fun x => .sent x.packet

/-- What the block exchange begins with. -/
inductive Start where
  | first
  | optionAck (fields : List OptionField)
  | answer (reply : Packet)

namespace Start

def action (disk : Disk) (party : Block.Party) : Start → Disk × Block.Party × Block.Action
  | first => party.start disk
  | optionAck fields => (disk, party, .send (.optionAck fields))
  | answer reply => party.onPacket disk reply

def heard : Start → List Entry
  | answer reply => [.heard reply]
  | _ => []

end Start

def begin (link : Link) (stopped : Bool) (disk : Disk) (transfer : Transfer) (party : Block.Party)
    (start : Start) : TransferTrace :=
  let (disk, party, action) := start.action disk party
  let move := Run.start link stopped transfer party action
  { disk, run := move.state, stopped, record := start.heard ++ entries move.sent }

inductive Event where
  | datagram (datagram : Datagram)
  | timeout
  | stop
  | files (disk : Disk)

def take (trace : TransferTrace) (entry : Entry) (move : Move (Disk × Run)) : TransferTrace :=
  { trace with
    disk := move.state.1
    run := move.state.2
    record := trace.record ++ [entry] ++ entries move.sent }

/-- A transfer that is over takes no more notice of anything. -/
def step (link : Link) (trace : TransferTrace) (event : Event) : TransferTrace :=
  match trace.run.stage with
  | .ended _ => trace
  | .waiting _ =>
    match event with
    | .datagram datagram =>
      trace.take (.ofDatagram trace.run.transfer.session datagram)
        (trace.run.onDatagram link trace.stopped trace.disk datagram)
    | .timeout => trace.take .expired ((trace.run.onTimeout link).map (trace.disk, ·))
    | .stop => { trace with stopped := true }
    | .files disk => { trace with disk }

def after (link : Link) (trace : TransferTrace) (events : List Event) : TransferTrace :=
  events.foldl (step link) trace

@[simp] theorem said_append (record more : List Entry) : said (record ++ more) = said record ++ said more :=
  List.filterMap_append

@[simp] theorem said_nil : said [] = [] := rfl

@[simp] theorem said_heard (packet : Packet) (record : List Entry) :
    said (.heard packet :: record) = said record := rfl

@[simp] theorem said_refused (failure : ExchangeFailure) (record : List Entry) :
    said (.refused failure :: record) = said record := rfl

@[simp] theorem said_expired (record : List Entry) : said (.expired :: record) = said record := rfl

@[simp] theorem said_sent (packet : Packet) (record : List Entry) :
    said (.sent packet :: record) = packet :: said record := rfl

@[simp] theorem entries_nil : entries [] = [] := rfl

@[simp] theorem entries_map (session : Session) (packets : List Packet) :
    entries (packets.map session.address) = packets.map .sent := by
  rw [entries, List.map_map]
  rfl

@[simp] theorem said_map (packets : List Packet) : said (packets.map .sent) = packets := by
  rw [said, List.filterMap_map]
  exact List.filterMap_some

theorem said_getLast? {record : List Entry} {packet : Packet} (h : record.getLast? = some (.sent packet)) :
    (said record).getLast? = some packet := by
  obtain ⟨front, rfl⟩ := List.getLast?_eq_some_iff.mp h
  rw [said_append]
  exact List.getLast?_concat

@[simp] theorem idle_append (record : List Entry) (entry : Entry) :
    idle (record ++ [entry]) = entry.tally (idle record) := by
  rw [idle, List.foldl_append]
  rfl

@[simp] theorem idle_sent (record : List Entry) (packets : List Packet) :
    idle (record ++ packets.map .sent) = idle record := by
  induction packets generalizing record with
  | nil => rw [List.map_nil, List.append_nil]
  | cons packet packets ih => rw [List.map_cons, List.append_cons, ih, idle_append, Entry.tally]

theorem said_start (start : Start) : said start.heard = [] := by
  cases start <;> rfl

theorem step_ended (link : Link) {trace : TransferTrace} {result : Except TransferFailure Unit}
    (h : trace.run.stage = .ended result) (event : Event) : trace.step link event = trace := by
  simp only [step, h]

def received (trace : TransferTrace) (datagram : Datagram) : Transfer :=
  { trace.run.transfer with session := (trace.run.transfer.session.read datagram).1 }

theorem step_packet (link : Link) {trace : TransferTrace} {exchange : Exchange} {datagram : Datagram}
    {packet : Packet} (hw : trace.run.stage = .waiting exchange)
    (hr : (trace.run.transfer.session.read datagram).2 = .ok packet) :
    trace.step link (.datagram datagram) =
      trace.take (.heard packet)
        ((Stage.act link trace.stopped (trace.received datagram)
          (trace.run.party.onPacket trace.disk packet).2.2).map fun next =>
            ((trace.run.party.onPacket trace.disk packet).1,
              Run.ofStage (trace.run.party.onPacket trace.disk packet).2.1 next)) := by
  simp only [step, hw, Entry.ofDatagram, Run.onDatagram, Run.receive, hr]
  rfl

theorem step_refused (link : Link) {trace : TransferTrace} {exchange : Exchange} {datagram : Datagram}
    {failure : ExchangeFailure} (hw : trace.run.stage = .waiting exchange)
    (hr : (trace.run.transfer.session.read datagram).2 = .error failure) :
    trace.step link (.datagram datagram) =
      trace.take (.refused failure)
        ((Stage.finish ((trace.received datagram).failExchange failure)).map fun next =>
          (trace.disk, Run.ofStage trace.run.party next)) := by
  simp only [step, hw, Entry.ofDatagram, Run.onDatagram, Run.receive, hr]
  rfl

theorem step_timeout (link : Link) {trace : TransferTrace} {exchange : Exchange}
    (hw : trace.run.stage = .waiting exchange) :
    trace.step link .timeout =
      trace.take .expired
        (((Exchange.openWindow link trace.run.transfer.session exchange.repeated exchange.left).andThen
          (Stage.ofProgress trace.run.transfer)).map fun next =>
            (trace.disk, Run.ofStage trace.run.party next)) := by
  simp only [step, hw, Run.onTimeout]
  rfl

theorem step_stop (link : Link) {trace : TransferTrace} {exchange : Exchange}
    (hw : trace.run.stage = .waiting exchange) :
    trace.step link .stop = { trace with stopped := true } := by
  simp only [step, hw]

theorem step_files (link : Link) {trace : TransferTrace} {exchange : Exchange}
    (hw : trace.run.stage = .waiting exchange) (disk : Disk) :
    trace.step link (.files disk) = { trace with disk } := by
  simp only [step, hw]

variable (link : Link) (transfer : Transfer)

theorem window_cases (repeated : Option Packet) (n : Nat) :
    (∃ left, n = left + 1 ∧ (∀ packet, repeated = some packet → Session.send link packet = .ok ()) ∧
      (Exchange.openWindow link transfer.session repeated n).andThen (Stage.ofProgress transfer) =
        { state := (transfer, .waiting { repeated, left })
          sent := repeated.toList.map transfer.session.address }) ∨
    ∃ code message told, (∀ packet ∈ told, repeated = some packet) ∧
      (Exchange.openWindow link transfer.session repeated n).andThen (Stage.ofProgress transfer) =
        { state := ({ transfer with pendingError := none, phase := .error }, .ended (.error (.own code message)))
          sent := (told ++ [.error code message]).map transfer.session.address } := by
  cases n with
  | zero => exact .inr ⟨_, _, [], fun packet hp => absurd hp List.not_mem_nil, rfl⟩
  | succ left =>
    cases repeated with
    | none => exact .inl ⟨left, rfl, fun packet hp => (nomatch hp), rfl⟩
    | some packet =>
      cases hs : Session.send link packet with
      | ok u =>
        refine .inl ⟨left, rfl, fun p hp => Option.some.inj hp ▸ hs, ?_⟩
        simp [Exchange.openWindow, hs, Move.andThen, Stage.ofProgress]
      | error failure =>
        refine .inr ⟨failure.code, failure.wireMessage, [packet],
          fun p hp => congrArg some (List.mem_singleton.mp hp).symm, ?_⟩
        simp [Exchange.openWindow, hs, Move.andThen, Stage.ofProgress, Stage.finish, Transfer.failExchange,
          Transfer.fail, Transfer.finish, Move.map]

end TransferTrace

end Tftp
