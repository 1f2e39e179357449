import Tftp.Proofs.Openings

namespace Tftp

inductive Correspondent where
  | client (client : Client) (stopped : Bool)
  | connection (connection : Connection)

/-- One side of a transfer, with its files. -/
structure Correspondence where
  disk : Disk
  correspondent : Correspondent

namespace Correspondence

inductive Event where
  | datagram (datagram : Datagram)
  | timeout
  | stop

def ofClient (stopped : Bool) (next : Disk × Client) : Correspondence where
  disk := next.1
  correspondent := .client next.2 stopped

def ofConnection (next : Disk × Connection) : Correspondence where
  disk := next.1
  correspondent := .connection next.2

def step (link : Link) (side : Correspondence) (event : Event) : Move Correspondence :=
  match side.correspondent with
  | .client client stopped =>
    match event with
    | .datagram datagram => (client.onDatagram link stopped side.disk datagram).map (ofClient stopped)
    | .timeout => (client.onTimeout link side.disk).map (ofClient stopped)
    | .stop => { state := ofClient true (side.disk, client) }
  | .connection connection =>
    match event with
    | .datagram datagram => (connection.onDatagram link side.disk datagram).map ofConnection
    | .timeout => (connection.onTimeout link side.disk).map ofConnection
    | .stop => (connection.onShutdown side.disk).map ofConnection

def run (link : Link) (side : Correspondence) : List Event → Move Correspondence
  | [] => { state := side }
  | event :: events => (side.step link event).andThen fun side => side.run link events

def run? (side : Correspondence) : Option Run :=
  match side.correspondent with
  | .client client _ => some client.run
  | .connection connection =>
    match connection.state with
    | .running run => some run
    | .ended _ => none

def result? (side : Correspondence) : Option (Except TransferFailure Unit) :=
  match side.correspondent with
  | .client client _ => client.result?
  | .connection connection =>
    match connection.state with
    | .running _ => none
    | .ended result => some result

inductive Start where
  | client (stopped : Bool) (config : ClientConfig) (disk : Disk) (path : String) (request : Packet)
      (phase : Phase) (party : Block.Party) (ending : Client.Ending)
  | connection (config : ServerConfig) (ports : Admission.Ports) (request : Datagram) (admission : Admission)
      (admitted : Admission.ofDatagram config ports request = .ok admission) (disk : Disk)

namespace Start

def enter (link : Link) : Start → Move Correspondence
  | client stopped config disk path request phase party ending =>
    (Client.transmit link stopped config disk path request phase party ending).map (ofClient stopped)
  | connection _ _ _ admission _ disk => (Connection.serve link disk admission).map ofConnection

def peer : Start → Peer
  | client _ config .. => .unconfirmed config.server
  | connection _ _ request .. => .fixed request.source

def run (link : Link) (start : Start) (events : List Event) : Move Correspondence :=
  (start.enter link).andThen fun side => side.run link events

end Start

end Correspondence

open Correspondence (Event)

def Correspondence.Event.source? : Event → Option Endpoint
  | .datagram ⟨source, _⟩ => some source
  | _ => none

namespace Peer

/-- The peer after these events: whoever is first to answer a request, and the same from then on. -/
def after (peer : Peer) (events : List Event) : Peer :=
  match peer, events.findSome? Event.source? with
  | .unconfirmed _, some source => .fixed source
  | peer, _ => peer

def blank (peer : Peer) : Event → Event
  | .datagram datagram =>
    if datagram.source = peer.endpoint then .datagram datagram else .datagram ⟨datagram.source, []⟩
  | event => event

def view : Peer → List Event → List Event
  | _, [] => []
  | peer, event :: events => (peer.after [event]).blank event :: view (peer.after [event]) events

theorem after_cons (peer : Peer) (event : Event) (events : List Event) :
    peer.after (event :: events) = (peer.after [event]).after events := by
  cases peer with
  | unconfirmed endpoint =>
    cases hs : event.source? with
    | none => simp only [after, List.findSome?_cons, hs, List.findSome?_nil]
    | some source => simp only [after, List.findSome?_cons, hs]
  | fixed endpoint => rfl

theorem after_append (peer : Peer) (events more : List Event) :
    peer.after (events ++ more) = (peer.after events).after more := by
  induction events generalizing peer with
  | nil =>
    cases peer <;> rfl
  | cons event events ih =>
    rw [List.cons_append, after_cons, ih, ← after_cons]

end Peer

namespace Correspondence

/-- A side that waits for this peer. A connection that goes on waits, and a client that is over has
settled its files. -/
structure KeepsTo (peer : Peer) (side : Correspondence) : Prop where
  waits : ∀ run exchange, side.run? = some run → run.stage = .waiting exchange →
    run.transfer.session.peer = peer
  busy : ∀ connection run, side.correspondent = .connection connection → connection.state = .running run →
    ∃ exchange, run.stage = .waiting exchange
  settled : ∀ client stopped result, side.correspondent = .client client stopped →
    client.run.stage = .ended result → client.ending = .keep

theorem KeepsTo.waiting {peer : Peer} {side : Correspondence} (h : side.KeepsTo peer) {connection : Connection}
    (hc : side.correspondent = .connection connection) {run : Run} (hr : side.run? = some run) :
    ∃ exchange, run.stage = .waiting exchange := by
  obtain ⟨state, file, created⟩ := connection
  simp only [run?, hc] at hr
  cases state with
  | ended result => cases hr
  | running waiting =>
    cases hr
    exact h.busy _ run hc rfl

structure KeepingTo (peer : Peer) (move : Move Correspondence) : Prop where
  keepsTo : move.state.KeepsTo peer
  sent : ∀ x ∈ move.sent, x.destination = peer.endpoint

variable {peer : Peer}

theorem keepsTo_client (disk : Disk) (stopped : Bool) (client : Client)
    (h : ∀ exchange, client.run.stage = .waiting exchange → client.run.transfer.session.peer = peer) :
    (ofClient stopped (Client.settle disk client)).KeepsTo peer := by
  rcases Client.settle_cases disk client with ⟨hs, exchange, hw⟩ | ⟨disk', result, hs⟩
  · rw [hs]
    refine ⟨fun run exchange hr hstage => ?_, fun connection run hc => ?_, fun next stopped result hc hover => ?_⟩
    · cases hr
      exact h exchange hstage
    · cases hc
    · cases hc
      rw [hw] at hover
      cases hover
  · rw [hs]
    refine ⟨fun run exchange hr hstage => ?_, fun connection run hc => ?_, fun next stopped result hc hover => ?_⟩
    · cases hr
      cases hstage
    · cases hc
    · cases hc
      rfl

theorem keepsTo_finished (disk : Disk) (stopped : Bool) (client : Client) {result : Except TransferFailure Unit}
    (h : client.run.stage = .ended result) : (ofClient stopped (Client.settle disk client)).KeepsTo peer := by
  refine keepsTo_client disk stopped client fun exchange hs => ?_
  rw [h] at hs
  cases hs

theorem keepsTo_connection (disk : Disk) (file : String) (created : Bool) (run : Run)
    (h : ∀ exchange, run.stage = .waiting exchange → run.transfer.session.peer = peer) :
    (ofConnection (Connection.settle disk file created run)).KeepsTo peer := by
  rcases Connection.settle_cases disk file created run with ⟨hs, exchange, hw⟩ | ⟨disk', created', result, hs⟩
  · rw [hs]
    refine ⟨fun next exchange hr hstage => ?_, fun connection next hc hrun => ?_, fun next stopped result hc => ?_⟩
    · cases hr
      exact h exchange hstage
    · cases hc
      cases hrun
      exact ⟨exchange, hw⟩
    · cases hc
  · rw [hs]
    refine ⟨fun next exchange hr => ?_, fun connection next hc hrun => ?_, fun next stopped result hc => ?_⟩
    · cases hr
    · cases hc
      cases hrun
    · cases hc

theorem keepsTo_ended (disk : Disk) (connection : Connection) (result : Except TransferFailure Unit)
    (h : connection.state = .ended result) : (ofConnection (disk, connection)).KeepsTo peer := by
  refine ⟨fun run exchange hr => ?_, fun next run hc hrun => ?_, fun next stopped result hc => ?_⟩
  · simp only [run?, ofConnection, h] at hr
    cases hr
  · cases hc
    rw [h] at hrun
    cases hrun
  · cases hc

theorem client_datagram (link : Link) (disk : Disk) (client : Client) (stopped : Bool) (datagram : Datagram) :
    (⟨disk, .client client stopped⟩ : Correspondence).step link (.datagram datagram) =
      (client.run.receive disk datagram (client.handle link stopped)).map fun next =>
        ofClient stopped (Client.settle next.1 { client with run := next.2, requesting := false }) := by
  change (client.onDatagram link stopped disk datagram).map (ofClient stopped) = _
  rw [Client.onDatagram_eq]
  rfl

theorem connection_datagram (link : Link) (disk : Disk) (run : Run) (file : String) (created : Bool)
    (datagram : Datagram) :
    (⟨disk, .connection ⟨.running run, file, created⟩⟩ : Correspondence).step link (.datagram datagram) =
      (run.receive disk datagram (Run.onPacket link false)).map fun next =>
        ofConnection (Connection.settle next.1 file created next.2) := rfl

theorem connection_ended (link : Link) (disk : Disk) (result : Except TransferFailure Unit) (file : String)
    (created : Bool) (event : Event) :
    (⟨disk, .connection ⟨.ended result, file, created⟩⟩ : Correspondence).step link event =
      { state := ⟨disk, .connection ⟨.ended result, file, created⟩⟩ } := by
  cases event <;> rfl

theorem after_datagram (peer : Peer) (datagram : Datagram) :
    peer.after [.datagram datagram] = peer.hear datagram.source := by
  cases peer <;> rfl

theorem after_quiet (peer : Peer) {event : Event} (h : event.source? = none) : peer.after [event] = peer := by
  cases peer with
  | unconfirmed endpoint => simp only [Peer.after, List.findSome?_cons, h, List.findSome?_nil]
  | fixed endpoint => rfl

theorem receive_keepsTo {run : Run} {exchange : Exchange} (disk : Disk) (datagram : Datagram)
    {handle : Disk → Packet → Run → Move (Disk × Run)} (hw : run.stage = .waiting exchange)
    (hp : run.transfer.session.peer = peer)
    (hh : ∀ packet next, ∃ session size, session.peer = next.transfer.session.peer ∧
      Run.Speaks session size (handle disk packet next)) :
    (run.receive disk datagram handle).state.2.transfer.session.peer = peer.hear datagram.source ∧
      ∀ x ∈ (run.receive disk datagram handle).sent, x.destination = (peer.hear datagram.source).endpoint := by
  obtain ⟨session, size, hs, hspeaks⟩ := Run.receive_speaks
    (P := fun session _ => session.peer = peer.hear datagram.source) hw (by rw [← hp]; rfl) fun packet => by
      obtain ⟨session, size, hs, hspeaks⟩ := hh packet { run with transfer := run.transfer.hear datagram.source }
      exact ⟨session, size, hs.trans (by rw [← hp]; rfl), hspeaks⟩
  exact ⟨by rw [hspeaks.leaves, hs], fun x hx => by rw [hspeaks.sent x hx, hs]⟩

theorem step_client (link : Link) (disk : Disk) (client : Client) (stopped : Bool)
    (h : (⟨disk, .client client stopped⟩ : Correspondence).KeepsTo peer) (event : Event) :
    KeepingTo (peer.after [event]) ((⟨disk, .client client stopped⟩ : Correspondence).step link event) := by
  cases event with
  | datagram datagram =>
    rw [after_datagram, client_datagram]
    cases hw : client.run.stage with
    | waiting exchange =>
      have hp := h.waits client.run exchange rfl hw
      obtain ⟨hpeer, hsent⟩ := receive_keepsTo disk datagram hw hp fun packet next =>
        client.handle_speaks link stopped disk packet next
      exact ⟨keepsTo_client _ stopped _ fun _ _ => hpeer, hsent⟩
    | ended result =>
      rw [Run.receive, hw]
      exact ⟨keepsTo_finished disk stopped _ hw, fun x hx => absurd hx List.not_mem_nil⟩
  | timeout =>
    rw [after_quiet peer rfl]
    change KeepingTo _ ((client.onTimeout link disk).map (ofClient stopped))
    cases hw : client.run.stage with
    | waiting exchange =>
      have hp := h.waits client.run exchange rfl hw
      have hspeaks := Run.onTimeout_speaks link disk client.run
      refine ⟨keepsTo_client disk stopped _ fun _ _ => ?_, fun x hx => ?_⟩
      · exact (congrArg Session.peer hspeaks.leaves).trans hp
      · exact (hspeaks.sent x hx).trans (congrArg Peer.endpoint hp)
    | ended result =>
      rw [Client.onTimeout, Run.onTimeout_ended link client.run result hw]
      exact ⟨keepsTo_finished disk stopped client hw, fun x hx => absurd hx List.not_mem_nil⟩
  | stop =>
    rw [after_quiet peer rfl]
    refine ⟨⟨h.waits, fun connection run hc => ?_, fun next stopped result hc hs => ?_⟩,
      fun x hx => absurd hx List.not_mem_nil⟩
    · cases hc
    · cases hc
      exact h.settled client _ result rfl hs

theorem step_connection (link : Link) (disk : Disk) (connection : Connection)
    (h : (⟨disk, .connection connection⟩ : Correspondence).KeepsTo peer) (event : Event) :
    KeepingTo (peer.after [event]) ((⟨disk, .connection connection⟩ : Correspondence).step link event) := by
  obtain ⟨state, file, created⟩ := connection
  cases state with
  | ended result =>
    rw [connection_ended]
    exact ⟨keepsTo_ended disk _ result rfl, fun x hx => (nomatch hx)⟩
  | running run =>
    obtain ⟨exchange, hw⟩ := h.busy _ run rfl rfl
    have hp := h.waits run exchange rfl hw
    cases event with
    | datagram datagram =>
      rw [after_datagram, connection_datagram]
      obtain ⟨hpeer, hsent⟩ := receive_keepsTo disk datagram hw hp fun packet next =>
        ⟨_, _, rfl, Run.onPacket_speaks link false disk packet next⟩
      exact ⟨keepsTo_connection _ file created _ fun _ _ => hpeer, hsent⟩
    | timeout =>
      rw [after_quiet peer rfl]
      have hspeaks := Run.onTimeout_speaks link disk run
      refine ⟨keepsTo_connection disk file created _ fun _ _ => ?_, fun x hx => ?_⟩
      · exact (congrArg Session.peer hspeaks.leaves).trans hp
      · exact (hspeaks.sent x hx).trans (congrArg Peer.endpoint hp)
    | stop =>
      rw [after_quiet peer rfl]
      refine ⟨keepsTo_connection disk file created _ fun _ _ => hp, fun x hx => ?_⟩
      rw [List.mem_singleton.mp hx]
      exact congrArg Peer.endpoint hp

theorem step_keepingTo (link : Link) {side : Correspondence} (h : side.KeepsTo peer) (event : Event) :
    KeepingTo (peer.after [event]) (side.step link event) := by
  obtain ⟨disk, correspondent⟩ := side
  cases correspondent with
  | client client stopped => exact step_client link disk client stopped h event
  | connection connection => exact step_connection link disk connection h event

def strange : TransferFailure :=
  .own ⟨5⟩ "Unknown transfer ID"

theorem receive_refuses {run : Run} {exchange : Exchange} (disk : Disk) (datagram : Datagram)
    (handle : Disk → Packet → Run → Move (Disk × Run)) (hw : run.stage = .waiting exchange)
    (h : datagram.source ≠ (run.transfer.session.peer.hear datagram.source).endpoint) :
    run.receive disk datagram handle =
      { state := (disk, {
          transfer := { run.transfer with pendingError := none, phase := .error }
          party := run.party
          stage := .ended (.error strange) })
        sent := [⟨run.transfer.session.peer.endpoint, .error ⟨5⟩ "Unknown transfer ID"⟩] } :=
  Run.receive_stranger disk datagram handle run exchange hw fun he => h he.symm

theorem step_stranger (link : Link) {side : Correspondence} (h : side.KeepsTo peer) {run : Run}
    {exchange : Exchange} (hr : side.run? = some run) (hw : run.stage = .waiting exchange)
    (datagram : Datagram) (hs : datagram.source ≠ (peer.hear datagram.source).endpoint) :
    (side.step link (.datagram datagram)).sent = [⟨peer.endpoint, .error ⟨5⟩ "Unknown transfer ID"⟩] ∧
      (side.step link (.datagram datagram)).state.result? = some (.error strange) := by
  have hp := h.waits run exchange hr hw
  rw [← hp] at hs
  obtain ⟨disk, correspondent⟩ := side
  cases correspondent with
  | client client stopped =>
    cases hr
    rw [client_datagram, receive_refuses disk datagram _ hw hs]
    simp only [Move.map]
    obtain ⟨disk', hsettle⟩ := Client.settle_failed disk
      { client with
        run := {
          transfer := { client.run.transfer with pendingError := none, phase := .error }
          party := client.run.party
          stage := .ended (.error strange) }
        requesting := false }
      strange rfl
    rw [hsettle]
    exact ⟨by rw [hp], rfl⟩
  | connection connection =>
    obtain ⟨state, file, created⟩ := connection
    cases state with
    | ended result => cases hr
    | running run =>
      cases hr
      rw [connection_datagram, receive_refuses disk datagram _ hw hs]
      exact ⟨by rw [← hp]; rfl, rfl⟩

/-- What a stranger says is not looked at. -/
theorem step_blind (link : Link) {side : Correspondence} (h : side.KeepsTo peer) (source : Endpoint)
    (bytes bytes' : Bytes) (hs : source ≠ (peer.hear source).endpoint) :
    side.step link (.datagram ⟨source, bytes⟩) = side.step link (.datagram ⟨source, bytes'⟩) := by
  have hreceive : ∀ run disk handle, side.run? = some run →
      run.receive disk ⟨source, bytes⟩ handle = run.receive disk ⟨source, bytes'⟩ handle := by
    intro run disk handle hr
    cases hw : run.stage with
    | waiting exchange =>
      rw [← h.waits run exchange hr hw] at hs
      rw [receive_refuses disk ⟨source, bytes⟩ handle hw hs, receive_refuses disk ⟨source, bytes'⟩ handle hw hs]
    | ended result => simp only [Run.receive, hw]
  obtain ⟨disk, correspondent⟩ := side
  cases correspondent with
  | client client stopped => rw [client_datagram, client_datagram, hreceive client.run disk _ rfl]
  | connection connection =>
    obtain ⟨state, file, created⟩ := connection
    cases state with
    | ended result => rfl
    | running run => rw [connection_datagram, connection_datagram, hreceive run disk _ rfl]

theorem step_over (link : Link) {side : Correspondence} (h : side.KeepsTo peer) (hr : side.result? ≠ none)
    (event : Event) :
    (side.step link event).sent = [] ∧ (side.step link event).state.disk = side.disk ∧
      (side.step link event).state.result? = side.result? := by
  obtain ⟨disk, correspondent⟩ := side
  cases correspondent with
  | client client stopped =>
    obtain ⟨⟨transfer, party, stage⟩, requesting, ending⟩ := client
    cases stage with
    | waiting exchange => exact absurd rfl hr
    | ended result =>
      have hkeep : ending = .keep := h.settled _ stopped result rfl rfl
      subst hkeep
      cases event with
      | datagram datagram =>
        rw [client_datagram]
        exact ⟨rfl, rfl, rfl⟩
      | timeout => exact ⟨rfl, rfl, rfl⟩
      | stop => exact ⟨rfl, rfl, rfl⟩
  | connection connection =>
    obtain ⟨state, file, created⟩ := connection
    cases state with
    | ended result =>
      rw [connection_ended]
      exact ⟨rfl, rfl, rfl⟩
    | running run => exact absurd rfl hr

theorem settle_transfer (disk : Disk) (stopped : Bool) (client : Client) {next : Run}
    (h : (ofClient stopped (Client.settle disk client)).run? = some next) :
    next.transfer = client.run.transfer := by
  rcases Client.settle_cases disk client with ⟨hs, -⟩ | ⟨disk', result, hs⟩
  · rw [hs] at h
    cases h
    rfl
  · rw [hs] at h
    cases h
    rfl

theorem step_peer (link : Link) {side : Correspondence} (h : side.KeepsTo peer) (event : Event) {run next : Run}
    (hr : side.run? = some run) (hn : (side.step link event).state.run? = some next) :
    next.transfer.session.peer = run.transfer.session.peer ∨
      run.transfer.session.peer = peer ∧ next.transfer.session.peer = peer.after [event] := by
  obtain ⟨disk, correspondent⟩ := side
  cases correspondent with
  | client client stopped =>
    cases hr
    cases event with
    | datagram datagram =>
      rw [client_datagram] at hn
      rw [settle_transfer _ stopped _ hn, after_datagram]
      cases hw : client.run.stage with
      | waiting exchange =>
        have hp := h.waits client.run exchange rfl hw
        obtain ⟨hpeer, -⟩ := receive_keepsTo disk datagram hw hp fun packet next =>
          client.handle_speaks link stopped disk packet next
        -- only here can the first answer fix the peer
        exact .inr ⟨hp, hpeer⟩
      | ended result =>
        rw [Run.receive, hw]
        exact .inl rfl
    | timeout =>
      rw [settle_transfer disk stopped _ hn]
      exact .inl (congrArg Session.peer (Run.onTimeout_speaks link disk client.run).leaves)
    | stop =>
      cases hn
      exact .inl rfl
  | connection connection =>
    obtain ⟨state, file, created⟩ := connection
    cases state with
    | ended result => cases hr
    | running run =>
      cases hr
      obtain ⟨exchange, hw⟩ := h.busy _ run rfl rfl
      have hp := h.waits run exchange rfl hw
      have hc : ∃ connection, ((⟨disk, .connection ⟨.running run, file, created⟩⟩ :
          Correspondence).step link event).state.correspondent = .connection connection := by
        cases event <;> exact ⟨_, rfl⟩
      obtain ⟨connection, hc⟩ := hc
      have hkeepsTo := (step_connection link disk ⟨.running run, file, created⟩ h event).keepsTo
      obtain ⟨later, hlater⟩ := hkeepsTo.waiting hc hn
      exact .inr ⟨hp, hkeepsTo.waits next later hn hlater⟩

theorem enter_client (link : Link) (stopped : Bool) (config : ClientConfig) (disk : Disk) (path : String)
    (request : Packet) (phase : Phase) (party : Block.Party) (ending : Client.Ending) :
    KeepingTo (.unconfirmed config.server)
      ((Client.transmit link stopped config disk path request phase party ending).map (ofClient stopped)) := by
  cases stopped with
  | true => exact ⟨keepsTo_client disk true _ fun _ _ => rfl, fun x hx => (nomatch hx)⟩
  | false =>
    have heffect := StepEffect.of_act link
      { session := .connect config.server config.options.validate.timeout, phase, path
        options := Options.defaults } (.send request)
    refine ⟨keepsTo_client disk false _ fun _ _ => ?_, fun x hx => (heffect.sent x hx).1⟩
    exact congrArg Session.peer heffect.session

theorem enter_connection (link : Link) (disk : Disk) (admission : Admission) :
    KeepingTo admission.transfer.session.peer ((Connection.serve link disk admission).map ofConnection) := by
  rcases Connection.serve_cases link disk admission with
    ⟨code, -, h⟩ | ⟨disk', transfer, created, party, h, hserves⟩
  · rw [h]
    exact ⟨keepsTo_ended disk _ _ rfl, fun x hx => by rw [List.mem_singleton.mp hx]; rfl⟩
  · have heffect := StepEffect.of_act link { transfer with phase := .dataTransfer }
      (Connection.opening transfer party disk').2.2
    have hpeer := (congrArg Session.peer heffect.session).trans hserves.peer
    rw [h, Connection.begin_eq]
    refine ⟨keepsTo_connection _ admission.file created _ fun _ _ => hpeer, fun x hx => ?_⟩
    exact (heffect.sent x hx).1.trans (congrArg Peer.endpoint hserves.peer)

theorem enter_keepingTo (link : Link) (start : Start) : KeepingTo start.peer (start.enter link) := by
  cases start with
  | client stopped config disk path request phase party ending =>
    exact enter_client link stopped config disk path request phase party ending
  | connection config ports request admission admitted disk =>
    obtain ⟨direction, path, mode, fields, -, hkeeps⟩ := Admission.ofDatagram_ok admitted
    have henter := enter_connection link disk admission
    rw [hkeeps.session] at henter
    exact henter

theorem run_keepsTo (link : Link) {side : Correspondence} (h : side.KeepsTo peer) (events : List Event) :
    (side.run link events).state.KeepsTo (peer.after events) := by
  induction events generalizing side peer with
  | nil =>
    have hnil : peer.after [] = peer := by
      cases peer <;> rfl
    rw [hnil]
    exact h
  | cons event events ih =>
    rw [Peer.after_cons]
    exact ih (step_keepingTo link h event).keepsTo

/-- Only what the side may know of the events counts. -/
theorem run_view (link : Link) {side : Correspondence} (h : side.KeepsTo peer) (events : List Event) :
    side.run link events = side.run link (peer.view events) := by
  induction events generalizing side peer with
  | nil => rfl
  | cons event events ih =>
    have hstep : side.step link event = side.step link ((peer.after [event]).blank event) := by
      cases event with
      | datagram datagram =>
        rw [after_datagram, Peer.blank]
        split
        · rfl
        · next hs => exact step_blind link h datagram.source datagram.bytes [] hs
      | timeout => rfl
      | stop => rfl
    have hih := ih (step_keepingTo link h event).keepsTo
    rw [Peer.view, run, run, ← hstep]
    simp only [Move.andThen, hih]

theorem after_changes (start : Peer) (events : List Event) (event : Event)
    (h : (start.after events).after [event] ≠ start.after events) :
    (∃ endpoint, start = .unconfirmed endpoint) ∧ events.findSome? Event.source? = none ∧
      start.after events = start ∧
      ∃ source, event.source? = some source ∧ (start.after events).after [event] = .fixed source := by
  cases start with
  | fixed endpoint => exact absurd rfl h
  | unconfirmed endpoint =>
    cases hs : events.findSome? Event.source? with
    | some source =>
      have hfixed : (Peer.unconfirmed endpoint).after events = .fixed source := by
        simp only [Peer.after, hs]
      rw [hfixed] at h
      exact absurd rfl h
    | none =>
      have hsame : (Peer.unconfirmed endpoint).after events = .unconfirmed endpoint := by
        simp only [Peer.after, hs]
      rw [hsame] at h ⊢
      cases he : event.source? with
      | none => exact absurd (after_quiet _ he) h
      | some source =>
        refine ⟨⟨endpoint, rfl⟩, rfl, rfl, source, rfl, ?_⟩
        simp only [Peer.after, List.findSome?_cons, he]

/-- A transfer that has to do with its peer only. -/
structure Isolated (link : Link) (start : Start) : Prop where
  peer : ∀ events run exchange, (start.run link events).state.run? = some run →
    run.stage = .waiting exchange → run.transfer.session.peer = start.peer.after events
  changes : ∀ events event run next, (start.run link events).state.run? = some run →
    ((start.run link events).state.step link event).state.run? = some next →
    next.transfer.session.peer ≠ run.transfer.session.peer →
    (∃ endpoint, run.transfer.session.peer = .unconfirmed endpoint) ∧
      events.findSome? Event.source? = none ∧
      ∃ source, event.source? = some source ∧ next.transfer.session.peer = .fixed source
  opens : ∀ x ∈ (start.enter link).sent, x.destination = start.peer.endpoint
  sends : ∀ events event, ∀ x ∈ ((start.run link events).state.step link event).sent,
    x.destination = (start.peer.after (events ++ [event])).endpoint
  /-- A packet from anyone else is not handed on. -/
  hears : ∀ events run exchange, (start.run link events).state.run? = some run →
    run.stage = .waiting exchange → ∀ datagram : Datagram,
    datagram.source ≠ (start.peer.after (events ++ [.datagram datagram])).endpoint →
    ∀ disk handle other, run.receive disk datagram handle = run.receive disk datagram other
  refuses : ∀ events run exchange, (start.run link events).state.run? = some run →
    run.stage = .waiting exchange → ∀ datagram : Datagram,
    datagram.source ≠ (start.peer.after (events ++ [.datagram datagram])).endpoint →
    ((start.run link events).state.step link (.datagram datagram)).sent =
        [⟨(start.peer.after events).endpoint, .error ⟨5⟩ "Unknown transfer ID"⟩] ∧
      ((start.run link events).state.step link (.datagram datagram)).state.result? =
        some (.error (.own ⟨5⟩ "Unknown transfer ID"))
  still : ∀ events event, (start.run link events).state.result? ≠ none →
    ((start.run link events).state.step link event).sent = [] ∧
      ((start.run link events).state.step link event).state.disk = (start.run link events).state.disk ∧
      ((start.run link events).state.step link event).state.result? = (start.run link events).state.result?
  blind : ∀ events others, start.peer.view events = start.peer.view others →
    start.run link events = start.run link others

/-- A transfer keeps to the peer that was named, or to the first one that answers, whatever comes in from
anywhere. -/
theorem isolated (link : Link) (start : Start) : Isolated link start := by
  have henter := enter_keepingTo link start
  have hrun : ∀ events, (start.run link events).state.KeepsTo (start.peer.after events) := fun events =>
    run_keepsTo link henter.keepsTo events
  refine ⟨fun events => (hrun events).waits, ?_, henter.sent, ?_, ?_, ?_, ?_, ?_⟩
  · intro events event run next hr hn hne
    obtain ⟨hp, hnext⟩ := (step_peer link (hrun events) event hr hn).resolve_left hne
    rw [hp, hnext] at hne
    obtain ⟨⟨endpoint, he⟩, hnone, hsame, source, hsource, hfixed⟩ := after_changes start.peer events event hne
    exact ⟨⟨endpoint, by rw [hp, hsame, he]⟩, hnone, source, hsource, hnext.trans hfixed⟩
  · intro events event x hx
    rw [Peer.after_append]
    exact (step_keepingTo link (hrun events) event).sent x hx
  · intro events run exchange hr hw datagram hs disk handle other
    rw [Peer.after_append, after_datagram, ← (hrun events).waits run exchange hr hw] at hs
    rw [receive_refuses disk datagram handle hw hs, receive_refuses disk datagram other hw hs]
  · intro events run exchange hr hw datagram hs
    rw [Peer.after_append, after_datagram] at hs
    exact step_stranger link (hrun events) hr hw datagram hs
  · intro events event hr
    exact step_over link (hrun events) hr event
  · intro events others hview
    rw [Start.run, Start.run]
    simp only [Move.andThen, run_view link henter.keepsTo events, run_view link henter.keepsTo others, hview]

end Correspondence

end Tftp
