import Tftp.Proofs.Confinement
import Tftp.Proofs.Openings
import Tftp.Proofs.ServerProcess

namespace Tftp

theorem PortRange.tryPorts_bound_iff (range : PortRange) (last : Fault) (attempts : List Attempt) :
    (∃ port, (range.tryPorts last attempts).result = .ok port) ↔
      ∃ attempt ∈ attempts, attempt.fault = none := by
  induction attempts generalizing last with
  | nil => simp [tryPorts]
  | cons attempt attempts ih =>
    rw [tryPorts]
    cases hf : attempt.fault with
    | none => exact ⟨fun _ => ⟨attempt, List.mem_cons_self, hf⟩, fun _ => ⟨_, rfl⟩⟩
    | some fault =>
      refine (ih fault).trans ⟨?_, ?_⟩
      · rintro ⟨free, hmem, hfree⟩
        exact ⟨free, List.mem_cons_of_mem attempt hmem, hfree⟩
      · rintro ⟨free, hmem, hfree⟩
        rcases List.mem_cons.mp hmem with rfl | hmem
        · rw [hf] at hfree
          cases hfree
        · exact ⟨free, hmem, hfree⟩

/-- Whether a socket can be bound for a transfer. Without a range the system is asked once, and of a range
that holds any port a number of ports are tried. -/
def ServerConfig.Bindable (config : ServerConfig) (ports : Admission.Ports) : Prop :=
  match config.portRange with
  | none => (ports 0).fault = none
  | some range => range.low ≤ range.high ∧ ∃ i < PortRange.maxAttempts, (ports i).fault = none

namespace Admission

theorem bindOne_bound_iff (range : PortRange) (ports : Ports) :
    (∃ port, (range.bindOne ports).result = .ok port) ↔
      range.low ≤ range.high ∧ ∃ i < PortRange.maxAttempts, (ports i).fault = none := by
  rw [PortRange.bindOne]
  by_cases hempty : range.high < range.low
  · have hisEmpty : range.isEmpty = true := decide_eq_true hempty
    rw [if_pos hisEmpty]
    refine ⟨fun ⟨port, hbound⟩ => ?_, fun h => absurd h.1 (Nat.not_le.mpr hempty)⟩
    cases hbound
  · have hisEmpty : ¬range.isEmpty = true := fun h => hempty (of_decide_eq_true h)
    rw [if_neg hisEmpty, PortRange.tryPorts_bound_iff, and_iff_right (Nat.not_lt.mp hempty)]
    simp only [List.mem_map, List.mem_range, exists_exists_and_eq_and]

theorem socketFault?_none_iff (config : ServerConfig) (ports : Ports) :
    socketFault? config ports = none ↔ config.Bindable ports := by
  rw [socketFault?, ServerConfig.Bindable]
  cases config.portRange with
  | none => exact Iff.rfl
  | some range =>
    refine Iff.trans ?_ (bindOne_bound_iff range ports)
    dsimp only
    cases (range.bindOne ports).result with
    | ok port => exact ⟨fun _ => ⟨port, rfl⟩, fun _ => rfl⟩
    | error fault => exact ⟨nofun, nofun⟩

def granted (config : ServerConfig) (client : Endpoint) (direction : Direction) (path mode : String)
    (fields : List OptionField) (file : String) : Admission where
  transfer := {
    session := .accept client (Options.ofFields fields).validate.timeout
    phase := match direction with
      | .download => .receivedReadRequest
      | .upload => .receivedWriteRequest
    path
    options := (Options.ofFields fields).validate }
  direction
  file
  mode
  allowWrites := config.allowWrites
  sizeRequested := (Options.ofFields fields).names Options.Known.tsize.name

/-- What a datagram comes to. The listener has a connection made, or it answers with an ERROR of this code. -/
inductive Verdict (config : ServerConfig) (ports : Ports) (datagram : Datagram) :
    Except ErrorCode Admission → Prop where
  | undecodable (hd : ∀ packet, Packet.decode datagram.bytes ≠ .ok packet) :
    Verdict config ports datagram (.error .illegalOperation)
  | foreign {packet : Packet} (hd : Packet.decode datagram.bytes = .ok packet)
    (hr : packet.opcode ≠ .readRequest) (hw : packet.opcode ≠ .writeRequest) :
    Verdict config ports datagram (.error .illegalOperation)
  | nameless {direction : Direction} {path mode : String} {fields : List OptionField}
    (hd : Packet.decode datagram.bytes = .ok (direction.request path mode fields)) (hn : Nameless path) :
    Verdict config ports datagram (.error .illegalOperation)
  | climbing {direction : Direction} {path mode : String} {fields : List OptionField}
    (hd : Packet.decode datagram.bytes = .ok (direction.request path mode fields)) (hc : Climbs path) :
    Verdict config ports datagram (.error .accessViolation)
  | portless {direction : Direction} {path mode file : String} {fields : List OptionField}
    (hd : Packet.decode datagram.bytes = .ok (direction.request path mode fields))
    (hf : confine config.root path = .ok file) (hp : ¬config.Bindable ports) :
    Verdict config ports datagram (.error .undefined)
  | admitted {direction : Direction} {path mode file : String} {fields : List OptionField}
    (hd : Packet.decode datagram.bytes = .ok (direction.request path mode fields))
    (hf : confine config.root path = .ok file) (hp : config.Bindable ports) :
    Verdict config ports datagram (.ok (granted config datagram.source direction path mode fields file))

variable {config : ServerConfig} {ports : Ports} {datagram : Datagram}

theorem ofPacket_request (config : ServerConfig) (ports : Ports) (client : Endpoint) (direction : Direction)
    (path mode : String) (fields : List OptionField) :
    ofPacket config ports client (direction.request path mode fields) =
      ofRequest config ports client direction path mode fields := by
  cases direction <;> rfl

theorem ofRequest_rejected (client : Endpoint) (direction : Direction) {path : String} (mode : String)
    (fields : List OptionField) {rejection : Rejection} (h : confine config.root path = .error rejection) :
    ofRequest config ports client direction path mode fields = .error rejection := by
  simp only [ofRequest, h]

theorem ofRequest_portless (client : Endpoint) (direction : Direction) {path file : String} (mode : String)
    (fields : List OptionField) (hf : confine config.root path = .ok file) (hp : ¬config.Bindable ports) :
    ∃ failure, ofRequest config ports client direction path mode fields = .error (.socket failure) := by
  cases hs : socketFault? config ports with
  | none => exact absurd ((socketFault?_none_iff config ports).mp hs) hp
  | some fault => exact ⟨.ofFault fault, by simp only [ofRequest, hf, hs]⟩

theorem ofRequest_granted (client : Endpoint) (direction : Direction) {path file : String} (mode : String)
    (fields : List OptionField) (hf : confine config.root path = .ok file) (hp : config.Bindable ports) :
    ofRequest config ports client direction path mode fields =
      .ok (granted config client direction path mode fields file) := by
  simp only [ofRequest, hf, (socketFault?_none_iff config ports).mpr hp]
  rfl

theorem ofDatagram_of_ofPacket {packet : Packet} (hd : Packet.decode datagram.bytes = .ok packet) :
    ofDatagram config ports datagram = (ofPacket config ports datagram.source packet).mapError Rejection.code := by
  simp only [ofDatagram, hd]
  cases ofPacket config ports datagram.source packet <;> rfl

theorem Verdict.eq {outcome : Except ErrorCode Admission} (h : Verdict config ports datagram outcome) :
    ofDatagram config ports datagram = outcome := by
  cases h with
  | undecodable hd =>
    cases hp : Packet.decode datagram.bytes with
    | ok packet => exact absurd hp (hd packet)
    | error malformation => simp only [ofDatagram, hp]
  | @foreign packet hd hr hw =>
    rw [ofDatagram_of_ofPacket hd]
    cases packet with
    | readRequest => exact absurd rfl hr
    | writeRequest => exact absurd rfl hw
    | _ => rfl
  | nameless hd hn =>
    rw [ofDatagram_of_ofPacket hd, ofPacket_request,
      ofRequest_rejected _ _ _ _ (confine_nameless config.root hn)]
    rfl
  | climbing hd hc =>
    rw [ofDatagram_of_ofPacket hd, ofPacket_request,
      ofRequest_rejected _ _ _ _ (confine_climbing config.root hc)]
    rfl
  | @portless direction path mode file fields hd hf hp =>
    obtain ⟨failure, hrefused⟩ := ofRequest_portless datagram.source direction mode fields hf hp
    rw [ofDatagram_of_ofPacket hd, ofPacket_request, hrefused]
    rfl
  | admitted hd hf hp =>
    rw [ofDatagram_of_ofPacket hd, ofPacket_request, ofRequest_granted _ _ _ _ hf hp]
    rfl

theorem request_verdict {direction : Direction} {path mode : String} {fields : List OptionField}
    (hd : Packet.decode datagram.bytes = .ok (direction.request path mode fields)) :
    ∃ outcome, Verdict config ports datagram outcome := by
  by_cases hn : Nameless path
  · exact ⟨_, .nameless hd hn⟩
  by_cases hc : Climbs path
  · exact ⟨_, .climbing hd hc⟩
  have hf := confine_named config.root hn hc
  by_cases hp : config.Bindable ports
  · exact ⟨_, .admitted hd hf hp⟩
  · exact ⟨_, .portless hd hf hp⟩

theorem exists_verdict (config : ServerConfig) (ports : Ports) (datagram : Datagram) :
    ∃ outcome, Verdict config ports datagram outcome := by
  cases hd : Packet.decode datagram.bytes with
  | error malformation =>
    refine ⟨_, .undecodable fun packet hp => ?_⟩
    rw [hd] at hp
    cases hp
  | ok packet =>
    cases packet with
    | readRequest path mode fields =>
      have hrequest : Packet.decode datagram.bytes = .ok (Direction.download.request path mode fields) := hd
      exact request_verdict hrequest
    | writeRequest path mode fields =>
      have hrequest : Packet.decode datagram.bytes = .ok (Direction.upload.request path mode fields) := hd
      exact request_verdict hrequest
    | _ => exact ⟨_, .foreign hd nofun nofun⟩

theorem ofDatagram_eq_iff (config : ServerConfig) (ports : Ports) (datagram : Datagram)
    (outcome : Except ErrorCode Admission) :
    ofDatagram config ports datagram = outcome ↔ Verdict config ports datagram outcome := by
  refine ⟨?_, Verdict.eq⟩
  rintro rfl
  obtain ⟨outcome, h⟩ := exists_verdict config ports datagram
  rw [h.eq]
  exact h

theorem Verdict.congr {others : Ports} (hports : config.Bindable ports ↔ config.Bindable others)
    {outcome : Except ErrorCode Admission} (h : Verdict config ports datagram outcome) :
    Verdict config others datagram outcome := by
  cases h with
  | undecodable hd => exact .undecodable hd
  | foreign hd hr hw => exact .foreign hd hr hw
  | nameless hd hn => exact .nameless hd hn
  | climbing hd hc => exact .climbing hd hc
  | portless hd hf hp => exact .portless hd hf (mt hports.mpr hp)
  | admitted hd hf hp => exact .admitted hd hf (hports.mp hp)

end Admission

theorem confine_ok_iff (root requested : String) :
    (∃ file, confine root requested = .ok file) ↔ ¬Nameless requested ∧ ¬Climbs requested := by
  refine ⟨fun ⟨file, hfile⟩ => ⟨fun hn => ?_, fun hc => ?_⟩, fun ⟨hn, hc⟩ => ⟨_, confine_named root hn hc⟩⟩
  · rw [confine_nameless root hn] at hfile
    cases hfile
  · rw [confine_climbing root hc] at hfile
    cases hfile

theorem ConnectionTask.step_admission (task : ConnectionTask) (disk : Disk) (event : Event) :
    (task.step disk event).state.2.admission = task.admission := by
  cases event with
  | proceed link =>
    rw [step, proceed]
    split
    case h_3 mode hp =>
      rw [make]
      split <;> rfl
    all_goals rfl
  | datagram datagram =>
    rw [step, onDatagram]
    split <;> rfl
  | timeout link =>
    rw [step, onTimeout]
    split <;> rfl
  | cancel =>
    rw [step, onCancel]
    split <;> rfl

namespace ServerProcess

open Admission (Verdict)

variable {config : ServerConfig} {process : ServerProcess} {number : Nat} {task : ConnectionTask}

def admissions (process : ServerProcess) : List Admission :=
  process.pool.tasks.map ConnectionTask.admission

def grant (process : ServerProcess) (admission : Admission) : ServerProcess :=
  { process with pool := { process.pool with tasks := process.pool.tasks ++ [{ admission }] } }

def goesOn (process : ServerProcess) (task : Option Nat) : ServerProcess :=
  { process with loop := process.loop.received task, inbox := process.inbox.tail }

def fromListener (sent : List Server.Sent) : List Transmission :=
  (sent.filter fun x => x.origin = .listener).map Server.Sent.transmission

@[simp] theorem fromListener_append (sent more : List Server.Sent) :
    fromListener (sent ++ more) = fromListener sent ++ fromListener more := by
  rw [fromListener, List.filter_append, List.map_append]
  rfl

theorem fromListener_connection (number : Nat) (sent : List Transmission) :
    fromListener (Server.label (.connection number) sent) = [] := by
  rw [fromListener, Server.label, List.filter_eq_nil_iff.mpr, List.map_nil]
  simp

def answer (config : ServerConfig) (ports : Admission.Ports) (datagram : Datagram) : List Transmission :=
  (reply config ports datagram).map Server.Sent.transmission

def admitted (config : ServerConfig) (ports : Admission.Ports) (datagram : Datagram) : List Admission :=
  match Admission.ofDatagram config ports datagram with
  | .error _ => []
  | .ok admission => [admission]

def hears (process : ServerProcess) : Event → List (Admission.Ports × Datagram)
  | .receive ports => (process.due?.map (ports, ·)).toList
  | _ => []

def heard (config : ServerConfig) : List Event → ServerProcess → List (Admission.Ports × Datagram)
  | [], _ => []
  | event :: events, process => process.hears event ++ heard config events (process.step config event).process

def Event.arrival? : Event → Option Datagram
  | arrive datagram => some datagram
  | _ => none

def arrivals (events : List Event) : List Datagram :=
  events.filterMap Event.arrival?

theorem arrivals_cons (event : Event) (events : List Event) :
    arrivals (event :: events) = event.arrival?.toList ++ arrivals events := by
  simp only [arrivals, List.filterMap_cons]
  cases event.arrival? <;> rfl

/-- What the loop does with the datagrams that it hears. It takes them in the order in which they have arrived, and
the others wait. -/
structure Attends (config : ServerConfig) (heard : List (Admission.Ports × Datagram)) (arrived : List Datagram)
    (process : ServerProcess) (turn : Turn) : Prop where
  answers : fromListener turn.sent = heard.flatMap fun x => answer config x.1 x.2
  admissions : turn.process.admissions = process.admissions ++ heard.flatMap fun x => admitted config x.1 x.2
  inbox : heard.map Prod.snd ++ turn.process.inbox = process.inbox ++ arrived

theorem step_admits {datagram : Datagram} (hd : process.due? = some datagram) {ports : Admission.Ports}
    {admission : Admission} (h : Verdict config ports datagram (.ok admission)) :
    process.step config (.receive ports) =
      { process := (process.grant admission).goesOn (some process.pool.tasks.length) } := by
  simp only [step_receive hd, attend, TaskPool.step, called?, reply, h.eq]
  rfl

theorem step_refuses {datagram : Datagram} (hd : process.due? = some datagram) {ports : Admission.Ports}
    {code : ErrorCode} (h : Verdict config ports datagram (.error code)) :
    process.step config (.receive ports) =
      { process := process.goesOn none, sent := [⟨.listener, datagram.source, .standardError code⟩] } := by
  simp only [step_receive hd, attend, TaskPool.step, called?, reply, h.eq]
  rfl

theorem act_admissions (hat : process.pool.At number task) (done : ConnectionTask.Event) :
    (process.act config number task done).process.admissions = process.admissions := by
  obtain ⟨hlt, hget⟩ := List.getElem?_eq_some_iff.mp hat
  rw [act, admissions, admissions]
  simp only [TaskPool.step_task config hat, List.map_set, ConnectionTask.step_admission]
  rw [← List.map_set, ← hget, List.set_getElem_self]

theorem Attends.of_quiet {turn : Turn} (hsent : fromListener turn.sent = [])
    (hadmissions : turn.process.admissions = process.admissions) (hinbox : turn.process.inbox = process.inbox) :
    Attends config [] [] process turn :=
  ⟨hsent, by rw [hadmissions, List.flatMap_nil, List.append_nil], by rw [hinbox, List.append_nil]; rfl⟩

theorem Stepped.attends_act {event : ConnectionTask.Event} {turn : Turn}
    (h : Stepped config process (.task number event) turn) : Attends config [] [] process turn := by
  cases h with
  | idle => exact .of_quiet rfl rfl rfl
  | act done hat he => exact .of_quiet (fromListener_connection _ _) (act_admissions hat done) rfl

theorem Stepped.attends_loop {step : ServerLoop.Step} {turn : Turn}
    (h : Stepped config process (.loop step) turn) : Attends config [] [] process turn := by
  cases h with
  | idle => exact .of_quiet rfl rfl rfl
  | loop => exact .of_quiet rfl rfl rfl

theorem receive_attends (config : ServerConfig) (process : ServerProcess) (ports : Admission.Ports) :
    Attends config (process.hears (.receive ports)) [] process (process.step config (.receive ports)) := by
  rw [hears]
  cases hd : process.due? with
  | none =>
    have hidle : process.step config (.receive ports) = { process } := by simp only [step, hd]
    rw [hidle]
    exact .of_quiet rfl rfl rfl
  | some datagram =>
    have hinbox : [datagram] ++ process.inbox.tail = process.inbox ++ [] := by
      rw [List.append_nil, List.singleton_append, ← (due?_eq_some hd).2]
    obtain ⟨outcome, h⟩ := Admission.exists_verdict config ports datagram
    cases outcome with
    | ok admission =>
      rw [step_admits hd h]
      refine ⟨?_, ?_, hinbox⟩
      · simp only [Option.map_some, Option.toList_some, List.flatMap_cons, answer, reply, h.eq]
        rfl
      · simp only [Option.map_some, Option.toList_some, List.flatMap_cons, List.flatMap_nil, List.append_nil, admitted,
          h.eq]
        exact List.map_append
    | error code =>
      rw [step_refuses hd h]
      refine ⟨?_, ?_, hinbox⟩
      · simp only [Option.map_some, Option.toList_some, List.flatMap_cons, answer, reply, h.eq]
        rfl
      · simp only [Option.map_some, Option.toList_some, List.flatMap_cons, List.flatMap_nil, List.append_nil, admitted,
          h.eq]
        rfl

theorem step_attends (config : ServerConfig) (process : ServerProcess) (event : Event) :
    Attends config (process.hears event) event.arrival?.toList process (process.step config event) := by
  cases event with
  | tell => exact .of_quiet rfl rfl rfl
  | arrive datagram => exact ⟨rfl, (List.append_nil _).symm, rfl⟩
  | receive ports => exact receive_attends config process ports
  | loop step => exact (step_stepped config process (.loop step)).attends_loop
  | task number event => exact (step_stepped config process (.task number event)).attends_act

theorem Attends.trans {heard later : List (Admission.Ports × Datagram)} {arrived more : List Datagram}
    {first second : Turn} (h : Attends config heard arrived process first)
    (h' : Attends config later more first.process second) :
    Attends config (heard ++ later) (arrived ++ more) process { second with sent := first.sent ++ second.sent } where
  answers := by rw [fromListener_append, h.answers, h'.answers, List.flatMap_append]
  admissions := by rw [h'.admissions, h.admissions, List.flatMap_append, List.append_assoc]
  inbox := by rw [List.map_append, List.append_assoc, h'.inbox, ← List.append_assoc, h.inbox, List.append_assoc]

theorem run_attends (config : ServerConfig) (events : List Event) (process : ServerProcess) :
    Attends config (heard config events process) (arrivals events) process (run config events process) := by
  -- what has been heard, followed by what waits, is what has come in: each step keeps this up
  induction events generalizing process with
  | nil => exact .of_quiet rfl rfl rfl
  | cons event events ih =>
    rw [arrivals_cons]
    exact (step_attends config process event).trans (ih _)

theorem attended (config : ServerConfig) (datagrams : List (Admission.Ports × Datagram)) :
    (datagrams.flatMap fun x => answer config x.1 x.2).length +
      (datagrams.flatMap fun x => admitted config x.1 x.2).length = datagrams.length := by
  induction datagrams with
  | nil => rfl
  | cons x datagrams ih =>
    have hone : (answer config x.1 x.2).length + (admitted config x.1 x.2).length = 1 := by
      rw [answer, reply, admitted]
      cases Admission.ofDatagram config x.1 x.2 <;> rfl
    simp only [List.flatMap_cons, List.length_append, List.length_cons]
    omega

/-- A loop that nobody has told to stop goes back to its socket. -/
theorem exists_listens (config : ServerConfig) (h : process.Sane) (ht : process.told = false) :
    ∃ steps : List ServerLoop.Step, (run config (steps.map .loop) process).process.loop.stage = .selecting := by
  have hcheck : ∀ process : ServerProcess, process.told = false → process.loop.stage = .checking →
      (process.step config (.loop .check)).process.loop.stage = .selecting := by
    intro process ht hs
    have hstep : process.loop.step process.told process.isOver .check =
        some { process.loop with stage := .selecting } := by
      simp only [ServerLoop.step, hs, ht, if_true, Bool.false_eq_true, if_false]
    rw [step_loop hstep]
  cases hs : process.loop.stage with
  | checking => exact ⟨[.check], hcheck process ht hs⟩
  | selecting => exact ⟨[], hs⟩
  | pausing milliseconds =>
    have hresume : process.step config (.loop .resume) =
        { process := { process with loop := { process.loop with stage := .checking } } } := by
      rw [step_loop]
      simp only [ServerLoop.step, hs]
    refine ⟨[.resume, .check], ?_⟩
    simp only [List.map_cons, List.map_nil, run, hresume]
    exact hcheck _ ht rfl
  | joining =>
    rw [h.told (.inl hs)] at ht
    cases ht
  | returned =>
    rw [h.told (.inr hs)] at ht
    cases ht

end ServerProcess

theorem Server.onRequest_admits {server : Server} (hl : server.listening = true) {ports : Admission.Ports}
    {datagram : Datagram} {admission : Admission}
    (h : Admission.Verdict server.config ports datagram (.ok admission)) (link : Link) (disk : Disk) :
    server.onRequest link ports disk datagram = {
      disk := (Connection.serve link disk admission).state.1
      server := { server with
        connections := server.connections ++ [(Connection.serve link disk admission).state.2] }.attend
          (some server.connections.length)
      sent := label (.connection server.connections.length) (Connection.serve link disk admission).sent } := by
  simp only [onRequest, hl, h.eq]
  rfl

theorem Server.onRequest_refuses {server : Server} (hl : server.listening = true) {ports : Admission.Ports}
    {datagram : Datagram} {code : ErrorCode}
    (h : Admission.Verdict server.config ports datagram (.error code)) (link : Link) (disk : Disk) :
    server.onRequest link ports disk datagram =
      { disk, server := server.attend none, sent := [⟨.listener, datagram.source, .standardError code⟩] } := by
  simp only [onRequest, hl, h.eq]
  rfl

/-- How a server with this configuration treats the datagrams that reach its listening socket. -/
structure Dispatches (config : ServerConfig) : Prop where
  /-- Each datagram has one verdict, and nothing goes into it that is not of the datagram, the configuration
  and the ports. -/
  verdict : ∀ ports datagram outcome,
    Admission.ofDatagram config ports datagram = outcome ↔ Admission.Verdict config ports datagram outcome
  names : ∀ path, (∃ file, confine config.root path = .ok file) ↔ ¬Nameless path ∧ ¬Climbs path
  bindable : ∀ ports others datagram, (config.Bindable ports ↔ config.Bindable others) →
    Admission.ofDatagram config ports datagram = Admission.ofDatagram config others datagram
  admits : ∀ (process : ServerProcess) ports datagram admission, process.due? = some datagram →
    Admission.Verdict config ports datagram (.ok admission) → process.step config (.receive ports) =
      { process := (process.grant admission).goesOn (some process.pool.tasks.length) }
  refuses : ∀ (process : ServerProcess) ports datagram code, process.due? = some datagram →
    Admission.Verdict config ports datagram (.error code) → process.step config (.receive ports) =
      { process := process.goesOn none, sent := [⟨.listener, datagram.source, .standardError code⟩] }
  serves : ∀ (server : Server) link ports disk datagram admission, server.config = config →
    server.listening = true → Admission.Verdict config ports datagram (.ok admission) →
      let move := Connection.serve link disk admission
      server.onRequest link ports disk datagram = {
        disk := move.state.1
        server := { server with connections := server.connections ++ [move.state.2] }.attend
          (some server.connections.length)
        sent := Server.label (.connection server.connections.length) move.sent }
  declines : ∀ (server : Server) link ports disk datagram code, server.config = config →
    server.listening = true → Admission.Verdict config ports datagram (.error code) →
      server.onRequest link ports disk datagram =
        { disk, server := server.attend none, sent := [⟨.listener, datagram.source, .standardError code⟩] }
  returns : ∀ (server : Server) task, server.told = false → (server.attend task).listening = true
  /-- Over a whole run the listener answers, and has connections made, datagram by datagram, in the order in which
  they have arrived. -/
  attends : ∀ disk events, ServerProcess.Attends config (ServerProcess.heard config events (.start disk))
    (ServerProcess.arrivals events) (.start disk) (ServerProcess.run config events (.start disk))
  attended : ∀ disk events, (ServerProcess.fromListener (ServerProcess.run config events (.start disk)).sent).length +
    (ServerProcess.run config events (.start disk)).process.admissions.length =
      (ServerProcess.heard config events (.start disk)).length
  listens : ∀ disk events, (ServerProcess.run config events (.start disk)).process.told = false →
    ∃ steps : List ServerLoop.Step, (ServerProcess.run config (steps.map .loop)
      (ServerProcess.run config events (.start disk)).process).process.loop.stage = .selecting

/-- Whatever datagrams come in, from wherever, and whatever the connections do meanwhile. -/
theorem ServerProcess.listener_dispatches (config : ServerConfig) : Dispatches config where
  verdict := Admission.ofDatagram_eq_iff config
  names := confine_ok_iff config.root
  bindable ports others datagram hports := by
    have h := (Admission.ofDatagram_eq_iff config others datagram _).mp rfl
    exact (h.congr hports.symm).eq
  admits process ports datagram admission hd h := step_admits hd h
  refuses process ports datagram code hd h := step_refuses hd h
  serves server link ports disk datagram admission hc hl h := by
    subst hc
    exact Server.onRequest_admits hl h link disk
  declines server link ports disk datagram code hc hl h := by
    subst hc
    exact Server.onRequest_refuses hl h link disk
  returns server task ht := Server.attend_listening ht task
  attends disk events := run_attends config events (start disk)
  attended disk events := by
    obtain ⟨hanswers, hadmissions, -⟩ := run_attends config events (start disk)
    rw [hanswers, hadmissions]
    exact attended config (heard config events (start disk))
  listens disk events ht := exists_listens config (run_sane (sane_start disk) events) ht

namespace ServerProcess

def visitor : Endpoint := { ip := .v4 127 0 0 1, port := 40000 }

def visit (bytes : Bytes) : List Event :=
  [.arrive { source := visitor, bytes }, .loop .check, .receive fun _ => {}]

def visits : List Event :=
  visit (Packet.readRequest "../key" "octet" []).encode ++ visit [0, 9] ++
    visit (Packet.readRequest "//key" "octet" []).encode ++ [.tell, .task 0 .cancel] ++ visit []

theorem visits_dispatched :
    Dispatches { root := "/srv" } ∧
      fromListener (run { root := "/srv" } visits (start {})).sent =
        [⟨visitor, .standardError .accessViolation⟩, ⟨visitor, .standardError .illegalOperation⟩] ∧
      (run { root := "/srv" } visits (start {})).process.admissions.map
        (fun admission => (admission.transfer.session.peer, admission.transfer.path)) =
          [(.fixed visitor, "//key")] ∧
      (run { root := "/srv" } visits (start {})).process.inbox = [⟨visitor, []⟩] := by
  have hdispatches := listener_dispatches { root := "/srv" }
  refine ⟨hdispatches, ?_, ?_, ?_⟩
  · rw [(hdispatches.attends {} visits).answers]
    decide +kernel
  · rw [(hdispatches.attends {} visits).admissions]
    decide +kernel
  · decide +kernel

end ServerProcess

end Tftp
