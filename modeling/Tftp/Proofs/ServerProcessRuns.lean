import Tftp.Proofs.ConnectionTaskRuns
import Tftp.Proofs.ServerProcess

namespace Tftp

namespace Server

inductive Event where
  | request (link : Link) (ports : Admission.Ports) (datagram : Datagram)
  | datagram (link : Link) (number : Nat) (datagram : Datagram)
  | timeout (link : Link) (number : Nat)
  | shutdown

def handle (disk : Disk) (server : Server) : Event → Turn
  | .request link ports datagram => server.onRequest link ports disk datagram
  | .datagram link number datagram => server.onDatagram link number disk datagram
  | .timeout link number => server.onTimeout link number disk
  | .shutdown => server.onShutdown disk

def handleAll : List Event → Disk → Server → Turn
  | [], disk, server => { disk, server }
  | event :: events, disk, server =>
    let turn := server.handle disk event
    let later := handleAll events turn.disk turn.server
    { later with sent := turn.sent ++ later.sent }

variable (link : Link) (number : Nat) (disk : Disk) (server : Server)

@[simp] theorem step_told (next : Disk → Connection → Move (Disk × Connection)) :
    (server.step number disk next).server.told = server.told := by
  rw [step]
  split <;> rfl

@[simp] theorem onRequest_told (ports : Admission.Ports) (datagram : Datagram) :
    (server.onRequest link ports disk datagram).server.told = server.told := by
  rw [onRequest]
  split
  · rfl
  · split <;> rfl

@[simp] theorem giveUp_told (numbers : List Nat) (turn : Turn) :
    (giveUp numbers turn).server.told = turn.server.told := by
  induction numbers generalizing turn with
  | nil => rfl
  | cons number numbers ih => exact (ih _).trans (step_told number turn.disk turn.server _)

theorem handle_told (event : Event) (h : server.told = true) : (server.handle disk event).server.told = true := by
  cases event with
  | request link ports datagram => rw [handle, onRequest_told, h]
  | datagram link number datagram => rw [handle, onDatagram, step_told, h]
  | timeout link number => rw [handle, onTimeout, step_told, h]
  | shutdown => rw [handle, onShutdown, giveUp_told]; rfl

theorem handleAll_told {events : List Event} (h : server.told = true ∨ .shutdown ∈ events) :
    (handleAll events disk server).server.told = true := by
  induction events generalizing disk server with
  | nil => exact h.resolve_right List.not_mem_nil
  | cons event events ih =>
    refine ih _ _ ?_
    rcases h with h | h
    · exact .inl (server.handle_told disk event h)
    · rcases List.mem_cons.mp h with rfl | h
      · rw [handle, onShutdown, giveUp_told]
        exact .inl rfl
      · exact .inr h

end Server

namespace ConnectionTask

variable {task : ConnectionTask} {connection : Connection}

theorem Rests.isOver (h : task.Rests connection) : task.isOver = !connection.isRunning := by
  rw [Rests] at h
  split at h
  · next hp =>
    subst h
    rw [ConnectionTask.isOver, hp]
    rfl
  · next hp =>
    subst h
    rw [ConnectionTask.isOver, hp]
    rfl
  · cases h

theorem effect?_untold (task : ConnectionTask) {event : Event} (h : event ≠ .cancel) :
    task.effect? false event = some event := by
  cases event with
  | cancel => exact absurd rfl h
  | _ => simp only [effect?]

end ConnectionTask

structure TaskPool.Mirrors (disk : Disk) (connections : List Connection) (pool : TaskPool) : Prop where
  disk : pool.disk = disk
  length : pool.tasks.length = connections.length
  rests : ∀ i task connection, pool.At i task → connections[i]? = some connection →
    task.Rests connection

namespace TaskPool

variable {pool : TaskPool} {number : Nat} {disk : Disk} {connections : List Connection}

theorem Mirrors.set (h : pool.Mirrors disk connections) {next : ConnectionTask} {connection : Connection}
    (hr : next.Rests connection) (after : Disk) :
    Mirrors after (connections.set number connection) { disk := after, tasks := pool.tasks.set number next } := by
  refine ⟨rfl, by simp only [List.length_set, h.length], fun i task other hi hc => ?_⟩
  rcases at_set hi with ⟨rfl, rfl⟩ | ⟨hne, hi⟩
  · have hlt := (List.getElem?_eq_some_iff.mp hc).1
    rw [List.length_set] at hlt
    rw [List.getElem?_set_self hlt] at hc
    rwa [← Option.some.inj hc]
  · rw [List.getElem?_set_ne (Ne.symm hne)] at hc
    exact h.rests i task other hi hc

theorem Mirrors.push (h : pool.Mirrors disk connections) {next : ConnectionTask} {connection : Connection}
    (hr : next.Rests connection) (after : Disk) :
    Mirrors after (connections ++ [connection]) { disk := after, tasks := pool.tasks ++ [next] } := by
  refine ⟨rfl, by simp only [List.length_append, h.length, List.length_singleton], fun i task other hi hc => ?_⟩
  by_cases hlt : i < connections.length
  · rw [List.getElem?_append_left hlt] at hc
    rw [← h.length] at hlt
    have hi' : pool.tasks[i]? = some task := (List.getElem?_append_left hlt).symm.trans hi
    exact h.rests i task other hi' hc
  · have hge := Nat.le_of_not_lt hlt
    rw [List.getElem?_append_right hge] at hc
    rw [← h.length] at hge
    have hi' : ([next] : List ConnectionTask)[i - pool.tasks.length]? = some task :=
      (List.getElem?_append_right hge).symm.trans hi
    rw [List.mem_singleton.mp (List.mem_of_getElem? hi'), List.mem_singleton.mp (List.mem_of_getElem? hc)]
    exact hr

end TaskPool

namespace ServerProcess

/-- Small steps lead here, and this is sent in them. -/
def Leads (config : ServerConfig) (process : ServerProcess) (turn : Turn) : Prop :=
  ∃ events, run config events process = turn

def put (process : ServerProcess) (number : Nat) (next : Disk × ConnectionTask) : ServerProcess :=
  { process with pool := { disk := next.1, tasks := process.pool.tasks.set number next.2 } }

variable {config : ServerConfig} {process : ServerProcess} {number : Nat} {task : ConnectionTask}

theorem Leads.refl (config : ServerConfig) (process : ServerProcess) : Leads config process { process } := ⟨[], rfl⟩

theorem Leads.trans {first second : Turn} (h : Leads config process first)
    (h' : Leads config first.process second) :
    Leads config process { second with sent := first.sent ++ second.sent } := by
  obtain ⟨events, rfl⟩ := h
  obtain ⟨more, rfl⟩ := h'
  exact ⟨events ++ more, run_append config events more process⟩

theorem Leads.of_step (config : ServerConfig) (process : ServerProcess) (event : Event) :
    Leads config process (process.step config event) := by
  refine ⟨[event], ?_⟩
  simp only [run, List.append_nil]

theorem Leads.sane {turn : Turn} (h : Leads config process turn) (hs : process.Sane) : turn.process.Sane := by
  obtain ⟨events, rfl⟩ := h
  exact run_sane hs events

theorem put_at (hat : process.pool.At number task) (next : Disk × ConnectionTask) :
    (process.put number next).pool.At number next.2 :=
  List.getElem?_set_self (List.getElem?_eq_some_iff.mp hat).1

theorem put_put (process : ServerProcess) (number : Nat) (first second : Disk × ConnectionTask) :
    (process.put number first).put number second = process.put number second := by
  simp only [put, List.set_set]

theorem put_same (hat : process.pool.At number task) :
    process.put number (process.pool.disk, task) = process := by
  obtain ⟨hlt, hget⟩ := List.getElem?_eq_some_iff.mp hat
  rw [put, ← hget, List.set_getElem_self]

theorem act_leads (config : ServerConfig) (hat : process.pool.At number task) {event done : ConnectionTask.Event}
    (he : task.effect? process.told event = some done) :
    Leads config process
      { process := process.put number (task.step process.pool.disk done).state
        sent := Server.label (.connection number) (task.step process.pool.disk done).sent } := by
  have hstep := Leads.of_step config process (.task number event)
  rw [step_act hat he, act, TaskPool.step_task config hat] at hstep
  exact hstep

theorem settle_leads (config : ServerConfig) (fuel : Nat) (process : ServerProcess) :
    Leads config process
      { process := { process with loop := process.loop.settle process.told process.isOver fuel } } := by
  induction fuel generalizing process with
  | zero => exact .refl config process
  | succ fuel ih =>
    rw [ServerLoop.settle]
    cases hnext : process.loop.next? process.told process.isOver with
    | none => exact .refl config process
    | some step =>
      simp only [Option.bind_some]
      cases hstep : process.loop.step process.told process.isOver step with
      | none => exact .refl config process
      | some next =>
        have hfirst := Leads.of_step config process (.loop step)
        rw [step_loop hstep] at hfirst
        exact hfirst.trans (ih { process with loop := next })

theorem label_append (origin : Server.Origin) (sent more : List Transmission) :
    Server.label origin (sent ++ more) = Server.label origin sent ++ Server.label origin more :=
  List.map_append

theorem drive_leads (config : ServerConfig) (link : Link) (steps : Nat) (ht : process.told = false)
    (hat : process.pool.At number task) :
    Leads config process
      { process := process.put number (ConnectionTask.drive link steps (process.pool.disk, task)).state
        sent :=
          Server.label (.connection number) (ConnectionTask.drive link steps (process.pool.disk, task)).sent } := by
  induction steps generalizing process task with
  | zero =>
    rw [ConnectionTask.drive, put_same hat]
    exact .refl config process
  | succ steps ih =>
    have heffect : task.effect? process.told (.proceed link) = some (.proceed link) := by
      rw [ht]
      exact task.effect?_untold (by simp)
    let next := (task.step process.pool.disk (.proceed link)).state
    have hfirst := act_leads config hat heffect
    have hrest := @ih (process.put number next) next.2 ht (put_at hat next)
    rw [put_put] at hrest
    have hboth := hfirst.trans hrest
    rw [← label_append] at hboth
    exact hboth

theorem settles_leads (config : ServerConfig) (process : ServerProcess) {link : Link} {sent : List Transmission}
    {move : Move (Disk × Connection)} (ht : process.told = false) (hat : process.pool.At number task)
    (h : ConnectionTask.Settles link { state := (process.pool.disk, task), sent } move) :
    ∃ next more, move.sent = sent ++ more ∧ next.Rests move.state.2 ∧ Leads config process
      { process := process.put number (move.state.1, next), sent := Server.label (.connection number) more } := by
  obtain ⟨steps, next, hdrive, hrests⟩ := h
  have hstate : (ConnectionTask.drive link steps (process.pool.disk, task)).state = (move.state.1, next) :=
    congrArg Move.state hdrive
  have hsent : sent ++ (ConnectionTask.drive link steps (process.pool.disk, task)).sent = move.sent :=
    congrArg Move.sent hdrive
  have hleads := drive_leads config link steps ht hat
  rw [hstate] at hleads
  exact ⟨next, _, hsent.symm, hrests, hleads⟩

theorem step_settles (config : ServerConfig) (ht : process.told = false) (hat : process.pool.At number task)
    {event : ConnectionTask.Event} (he : event ≠ .cancel) {link : Link} {move : Move (Disk × Connection)}
    (h : ConnectionTask.Settles link (task.step process.pool.disk event) move) :
    ∃ next, next.Rests move.state.2 ∧ Leads config process
      { process := process.put number (move.state.1, next)
        sent := Server.label (.connection number) move.sent } := by
  have heffect : task.effect? process.told event = some event := by
    rw [ht]
    exact task.effect?_untold he
  let first := task.step process.pool.disk event
  have hfirst := act_leads config hat heffect
  obtain ⟨next, more, hsent, hrests, hleads⟩ :=
    settles_leads config (process.put number first.state) ht (put_at hat first.state) h
  rw [put_put] at hleads
  refine ⟨next, hrests, ?_⟩
  rw [hsent, label_append]
  exact hfirst.trans hleads

theorem cancel_settles (config : ServerConfig) (ht : process.told = true) (hat : process.pool.At number task)
    {connection : Connection} (h : task.Rests connection) :
    ∃ next, next.Rests (connection.onShutdown process.pool.disk).state.2 ∧ Leads config process
      { process := process.put number ((connection.onShutdown process.pool.disk).state.1, next)
        sent := Server.label (.connection number) (connection.onShutdown process.pool.disk).sent } := by
  rw [ConnectionTask.Rests] at h
  split at h
  · next transfer party exchange hp =>
    subst h
    have hcancel : task.effect? process.told .cancel = some .cancel := by
      rw [ht]
      simp only [ConnectionTask.effect?, hp]
    have hgiven : task.step process.pool.disk .cancel =
        (transfer.abort .undefined "Server shutting down").map fun _ =>
          (process.pool.disk, { task with pause := .failed .cancelled }) := by
      simp only [ConnectionTask.step, ConnectionTask.onCancel, ConnectionTask.transfer, hp]
    have hfirst := act_leads config hat hcancel
    rw [hgiven] at hfirst
    let given : ConnectionTask := { task with pause := .failed .cancelled }
    let last : ConnectionTask := { given with pause := .ended (.error .cancelled), created := false }
    let left := if task.created then process.pool.disk.remove task.admission.file else process.pool.disk
    have hproceed : given.effect? process.told (.proceed .connected) = some (.proceed .connected) := by
      rw [ht]
      rfl
    have hsecond : Leads config (process.put number (process.pool.disk, given))
        { process := process.put number (left, last) } := by
      have hact := act_leads config (put_at hat (process.pool.disk, given)) hproceed
      rw [put_put] at hact
      exact hact
    have hboth := hfirst.trans hsecond
    rw [List.append_nil] at hboth
    exact ⟨last, rfl, hboth⟩
  · next result hp =>
    subst h
    refine ⟨task, ?_, ?_⟩
    · rw [ConnectionTask.Rests, hp]
      rfl
    · simp only [Connection.onShutdown, put_same hat]
      exact .refl config process
  · cases h

/-- A server, and the same in small steps. Once it has been told to stop, no connection runs on but those that
are `left` to be given up. -/
structure Mirrors (config : ServerConfig) (left : List Nat) (disk : Disk) (server : Server)
    (process : ServerProcess) : Prop where
  config : server.config = config
  pool : process.pool.Mirrors disk server.connections
  told : process.told = server.told
  loop : process.loop = server.loop
  inbox : process.inbox = []
  sane : process.Sane
  atWork : server.told = true → ∀ number connection, server.connections[number]? = some connection →
    connection.isRunning = true → number ∈ left

variable {left : List Nat} {disk : Disk} {server : Server}

theorem Mirrors.isOver (h : process.Mirrors config left disk server) : process.isOver = server.isOver := by
  funext number
  rw [ServerProcess.isOver, Server.isOver]
  cases hc : server.connections[number]? with
  | none =>
    have hlength := List.getElem?_eq_none_iff.mp hc
    rw [← h.pool.length] at hlength
    rw [List.getElem?_eq_none hlength]
    rfl
  | some connection =>
    have hlt := (List.getElem?_eq_some_iff.mp hc).1
    rw [← h.pool.length] at hlt
    have hat : process.pool.tasks[number]? = some process.pool.tasks[number] := List.getElem?_eq_getElem hlt
    rw [hat]
    exact (h.pool.rests number _ connection hat hc).isOver

theorem Mirrors.settle (h : process.Mirrors config left disk server) :
    ∃ after, Leads config process { process := after } ∧ after.Mirrors config left disk server.settle := by
  have hleads := settle_leads config (2 * server.loop.tasks.length + 3) process
  have hloop : process.loop.settle process.told process.isOver (2 * server.loop.tasks.length + 3) =
      server.settle.loop := by
    rw [h.isOver, h.told, h.loop]
    rfl
  rw [hloop] at hleads
  exact ⟨_, hleads, h.config, h.pool, h.told, rfl, h.inbox, hleads.sane h.sane, h.atWork⟩

/-- A server whose loop waits. Once it has been told to stop, it is done as soon as its connections are. -/
structure Settled (config : ServerConfig) (left : List Nat) (disk : Disk) (server : Server)
    (process : ServerProcess) : Prop extends process.Mirrors config left disk server where
  done : server.told = true → (∀ connection ∈ server.connections, connection.isRunning = false) →
    server.isDone = true

theorem Mirrors.settle_done (h : process.Mirrors config left disk server) (ht : server.told = true)
    (hover : ∀ connection ∈ server.connections, connection.isRunning = false) : server.settle.isDone = true := by
  rw [Server.isDone, Server.settle, ht]
  refine decide_eq_true (ServerLoop.settle_returned _ _ fun number hmem => ?_)
  have hlt := h.sane.live number (h.loop ▸ hmem)
  rw [h.pool.length] at hlt
  simp only [Server.isOver, List.getElem?_eq_getElem hlt, hover _ (List.getElem_mem hlt), Bool.not_false]

theorem Mirrors.settled (h : process.Mirrors config left disk server) :
    ∃ after, Leads config process { process := after } ∧ after.Settled config left disk server.settle := by
  obtain ⟨after, hleads, hmirrors⟩ := h.settle
  exact ⟨after, hleads, hmirrors, h.settle_done⟩

theorem Leads.then_settled {between : ServerProcess} {sent : List Server.Sent}
    (h : Leads config process { process := between, sent }) (hm : between.Mirrors config left disk server) :
    ∃ after, Leads config process { process := after, sent } ∧ after.Settled config left disk server.settle := by
  obtain ⟨after, hrest, hsettled⟩ := hm.settled
  have hboth := h.trans hrest
  rw [List.append_nil] at hboth
  exact ⟨after, hboth, hsettled⟩

theorem Settled.isDone (h : process.Settled config [] disk server) (ht : server.told = true) :
    server.isDone = true := by
  refine h.done ht fun connection hmem => ?_
  obtain ⟨number, hat⟩ := List.mem_iff_getElem?.mp hmem
  rw [Bool.eq_false_iff]
  exact fun hrunning => List.not_mem_nil (h.atWork ht number connection hat hrunning)

theorem onDatagram_idle (link : Link) (disk : Disk) (datagram : Datagram) {connection : Connection}
    (h : connection.isRunning = false) :
    connection.onDatagram link disk datagram = { state := (disk, connection) } := by
  rw [Connection.isRunning] at h
  split at h
  · cases h
  · next hended => rw [Connection.onDatagram, hended]

theorem onTimeout_idle (link : Link) (disk : Disk) {connection : Connection} (h : connection.isRunning = false) :
    connection.onTimeout link disk = { state := (disk, connection) } := by
  rw [Connection.isRunning] at h
  split at h
  · cases h
  · next hended => rw [Connection.onTimeout, hended]

theorem step_leads (h : process.Settled config [] disk server) (event : ConnectionTask.Event)
    (he : event ≠ .cancel) (number : Nat) {link : Link} {next : Disk → Connection → Move (Disk × Connection)}
    (hidle : ∀ connection : Connection, connection.isRunning = false →
      next disk connection = { state := (disk, connection) })
    (hs : ∀ (task : ConnectionTask) (connection : Connection), task.Rests connection →
      ConnectionTask.Settles link (task.step disk event) (next disk connection)) :
    ∃ after, Leads config process { process := after, sent := (server.step number disk next).sent } ∧
      after.Settled config [] (server.step number disk next).disk (server.step number disk next).server := by
  cases hc : server.connections[number]? with
  | none =>
    simp only [Server.step, hc]
    exact ⟨process, .refl config process, h⟩
  | some connection =>
    obtain ⟨hlt, hget⟩ := List.getElem?_eq_some_iff.mp hc
    simp only [Server.step, hc]
    rcases Bool.eq_false_or_eq_true server.told with ht | ht
    · have hended : connection.isRunning = false := by
        rw [Bool.eq_false_iff]
        exact fun hrunning => List.not_mem_nil (h.atWork ht number connection hc hrunning)
      rw [hidle connection hended, ← hget, List.set_getElem_self]
      exact h.toMirrors.settled
    · rw [← h.pool.length] at hlt
      have hat : process.pool.At number process.pool.tasks[number] := List.getElem?_eq_getElem hlt
      have hsettles := hs _ connection (h.pool.rests number _ connection hat hc)
      rw [← h.pool.disk] at hsettles ⊢
      obtain ⟨last, hrests, hleads⟩ := step_settles config (h.told.trans ht) hat he hsettles
      have hmirrors : (process.put number ((next process.pool.disk connection).state.1, last)).Mirrors config []
          (next process.pool.disk connection).state.1
          { server with connections := server.connections.set number (next process.pool.disk connection).state.2 } :=
        ⟨h.config, h.pool.set hrests _, h.told, h.loop, h.inbox, hleads.sane h.sane, fun htold => by
          rw [ht] at htold
          cases htold⟩
      exact hleads.then_settled hmirrors

theorem Settled.told_of_listening (h : process.Settled config [] disk server) (hl : server.listening = true) :
    server.told = false := by
  rw [Bool.eq_false_iff]
  intro ht
  have hselects : server.loop.stage = .selecting := of_decide_eq_true hl
  have hreturned : server.loop.stage = .returned := of_decide_eq_true (h.isDone ht)
  rw [hselects] at hreturned
  cases hreturned

theorem receive_leads (h : process.Settled config [] disk server) (hl : server.listening = true)
    (ports : Admission.Ports) (datagram : Datagram) :
    Leads config process (({ process with inbox := [datagram] } : ServerProcess).attend config ports datagram) := by
  have harrive := Leads.of_step config process (.arrive datagram)
  simp only [step, h.inbox, List.nil_append] at harrive
  let held : ServerProcess := { process with inbox := [datagram] }
  have hselects : held.loop.stage = .selecting := by
    rw [h.loop]
    exact of_decide_eq_true hl
  have hdue : held.due? = some datagram := due?_cons hselects rfl
  have hreceive := Leads.of_step config held (.receive ports)
  rw [step_receive hdue] at hreceive
  exact harrive.trans hreceive

theorem declined_leads (h : process.Settled config [] disk server) (hl : server.listening = true)
    {ports : Admission.Ports} {datagram : Datagram} {code : ErrorCode}
    (hrefused : Admission.ofDatagram config ports datagram = .error code) :
    ∃ after, Leads config process
        { process := after, sent := Server.label .listener [⟨datagram.source, .standardError code⟩] } ∧
      after.Settled config [] disk (server.attend none) := by
  have hreceive := receive_leads h hl ports datagram
  simp only [attend, TaskPool.step, called?, reply, hrefused, List.tail_cons] at hreceive
  have hmirrors : ({ process with loop := process.loop.received none, inbox := [] } : ServerProcess).Mirrors config []
      disk { server with loop := server.loop.received none } :=
    ⟨h.config, h.pool, h.told, by rw [h.loop], rfl, hreceive.sane h.sane, h.atWork⟩
  exact hreceive.then_settled hmirrors

theorem served_leads (h : process.Settled config [] disk server) (hl : server.listening = true) (link : Link)
    {ports : Admission.Ports} {datagram : Datagram} {admission : Admission}
    (hadmitted : Admission.ofDatagram config ports datagram = .ok admission) :
    let number := server.connections.length
    let move := Connection.serve link disk admission
    ∃ after, Leads config process { process := after, sent := Server.label (.connection number) move.sent } ∧
      after.Settled config [] move.state.1
        ({ server with connections := server.connections ++ [move.state.2] }.attend (some number)) := by
  intro number move
  have ht := h.told_of_listening hl
  have hnumber : process.pool.tasks.length = number := h.pool.length
  -- the loop has made the connection, which has done nothing yet
  let joined : ServerProcess := { process with
    pool := { process.pool with tasks := process.pool.tasks ++ [{ admission }] }
    loop := process.loop.received (some number)
    inbox := [] }
  have hreceive : Leads config process { process := joined } := by
    have hattend := receive_leads h hl ports datagram
    simp only [attend, TaskPool.step, called?, reply, hadmitted, List.tail_cons, hnumber] at hattend
    exact hattend
  have hat : joined.pool.At number { admission } := by
    rw [← hnumber]
    exact List.getElem?_concat_length
  -- it is served without a break until it rests
  obtain ⟨next, more, hsent, hrests, hleads⟩ := settles_leads config joined (h.told.trans ht) hat
    (ConnectionTask.serve_settles link process.pool.disk admission)
  have hset : (process.pool.tasks ++ [({ admission } : ConnectionTask)]).set number next =
      process.pool.tasks ++ [next] := by
    simp [← hnumber]
  have hserved := hreceive.trans hleads
  simp only [put, joined, hset, List.nil_append] at hserved
  rw [List.nil_append] at hsent
  rw [h.pool.disk] at hserved hsent hrests
  rw [← hsent] at hserved
  have hmirrors : ({ process with
      pool := { disk := move.state.1, tasks := process.pool.tasks ++ [next] }
      loop := process.loop.received (some number)
      inbox := [] } : ServerProcess).Mirrors config [] move.state.1
      { server with
        connections := server.connections ++ [move.state.2]
        loop := server.loop.received (some number) } :=
    ⟨h.config, h.pool.push hrests _, h.told, by rw [h.loop], rfl, hserved.sane h.sane, fun htold => by
      rw [ht] at htold
      cases htold⟩
  exact hserved.then_settled hmirrors

theorem onRequest_leads (link : Link) (ports : Admission.Ports) (datagram : Datagram)
    (h : process.Settled config [] disk server) :
    ∃ after, Leads config process
        { process := after, sent := (server.onRequest link ports disk datagram).sent } ∧
      after.Settled config [] (server.onRequest link ports disk datagram).disk
        (server.onRequest link ports disk datagram).server := by
  cases hl : server.listening with
  | false =>
    simp only [Server.onRequest, hl]
    exact ⟨process, .refl config process, h⟩
  | true =>
    have hconfig := h.config
    subst hconfig
    cases houtcome : Admission.ofDatagram server.config ports datagram with
    | error code =>
      simp only [Server.onRequest, hl, houtcome]
      exact declined_leads h hl houtcome
    | ok admission =>
      simp only [Server.onRequest, hl, houtcome]
      exact served_leads h hl link houtcome

theorem onShutdown_over (disk : Disk) (connection : Connection) :
    (connection.onShutdown disk).state.2.isRunning = false := by
  rw [Connection.onShutdown]
  split
  · next result hended => rw [Connection.isRunning, hended]
  · rfl

theorem cancel_leads (h : process.Settled config (number :: left) disk server) (ht : server.told = true) :
    ∃ after, Leads config process
        { process := after, sent := (server.step number disk Connection.onShutdown).sent } ∧
      after.Settled config left (server.step number disk Connection.onShutdown).disk
        (server.step number disk Connection.onShutdown).server := by
  cases hc : server.connections[number]? with
  | none =>
    simp only [Server.step, hc]
    refine ⟨process, .refl config process, ⟨⟨h.config, h.pool, h.told, h.loop, h.inbox, h.sane,
      fun htold i connection hi hrunning => ?_⟩, h.done⟩⟩
    rcases List.mem_cons.mp (h.atWork htold i connection hi hrunning) with rfl | hmem
    · rw [hc] at hi
      cases hi
    · exact hmem
  | some connection =>
    obtain ⟨hlt, -⟩ := List.getElem?_eq_some_iff.mp hc
    simp only [Server.step, hc]
    have hlt' := hlt
    rw [← h.pool.length] at hlt'
    have hat : process.pool.At number process.pool.tasks[number] := List.getElem?_eq_getElem hlt'
    obtain ⟨next, hrests, hleads⟩ := cancel_settles config (h.told.trans ht) hat
      (h.pool.rests number _ connection hat hc)
    rw [← h.pool.disk]
    have hmirrors : (process.put number ((connection.onShutdown process.pool.disk).state.1, next)).Mirrors config left
        (connection.onShutdown process.pool.disk).state.1
        { server with
          connections := server.connections.set number (connection.onShutdown process.pool.disk).state.2 } := by
      refine ⟨h.config, h.pool.set hrests _, h.told, h.loop, h.inbox, hleads.sane h.sane,
        fun htold i other hi hrunning => ?_⟩
      -- this one is no longer at work, and no other has changed
      by_cases heq : i = number
      · subst heq
        rw [List.getElem?_set_self hlt] at hi
        cases hi
        rw [onShutdown_over] at hrunning
        cases hrunning
      · rw [List.getElem?_set_ne (Ne.symm heq)] at hi
        exact (List.mem_cons.mp (h.atWork htold i other hi hrunning)).resolve_left heq
    exact hleads.then_settled hmirrors

theorem giveUp_leads (numbers : List Nat) (turn : Server.Turn)
    (h : process.Settled config numbers turn.disk turn.server) (ht : turn.server.told = true) :
    ∃ after sent, Leads config process { process := after, sent } ∧
      (Server.giveUp numbers turn).sent = turn.sent ++ sent ∧
      after.Settled config [] (Server.giveUp numbers turn).disk (Server.giveUp numbers turn).server := by
  -- those that are left to be given up are the only ones at work
  induction numbers generalizing process turn with
  | nil => exact ⟨process, [], .refl config process, (List.append_nil turn.sent).symm, h⟩
  | cons number numbers ih =>
    obtain ⟨between, hfirst, hsettled⟩ := cancel_leads h ht
    let later := turn.server.step number turn.disk Connection.onShutdown
    have htold : later.server.told = true := (turn.server.step_told number turn.disk _).trans ht
    obtain ⟨after, sent, hrest, hsent, hlast⟩ := ih { later with sent := turn.sent ++ later.sent } hsettled htold
    refine ⟨after, later.sent ++ sent, hfirst.trans hrest, ?_, hlast⟩
    rw [← List.append_assoc]
    exact hsent

/-- The server takes no more requests, and its connections are given up one after the other. Then it is done. -/
theorem onShutdown_leads (h : process.Settled config [] disk server) :
    ∃ after, Leads config process { process := after, sent := (server.onShutdown disk).sent } ∧
      after.Settled config [] (server.onShutdown disk).disk (server.onShutdown disk).server := by
  have htell := Leads.of_step config process .tell
  have htold : ({ process with told := true } : ServerProcess).Mirrors config (List.range server.connections.length)
      disk server.tell :=
    ⟨h.config, h.pool, rfl, h.loop, h.inbox, htell.sane h.sane,
      fun _ _ _ hi _ => List.mem_range.mpr (List.getElem?_eq_some_iff.mp hi).1⟩
  obtain ⟨noticed, hnotice, hsettled⟩ := htold.settled
  obtain ⟨after, sent, hleads, hsent, hlast⟩ :=
    giveUp_leads (List.range server.connections.length) { disk, server := server.tell.settle } hsettled rfl
  have hall := (htell.trans hnotice).trans hleads
  rw [List.nil_append] at hsent
  simp only [step, List.append_nil, List.nil_append, ← hsent] at hall
  exact ⟨after, hall, hlast⟩

theorem handle_leads (h : process.Settled config [] disk server) (event : Server.Event) :
    ∃ after, Leads config process { process := after, sent := (server.handle disk event).sent } ∧
      after.Settled config [] (server.handle disk event).disk (server.handle disk event).server := by
  cases event with
  | request link ports datagram => exact onRequest_leads link ports datagram h
  | datagram link number datagram =>
    exact step_leads h (.datagram datagram) (by simp) number
      (fun _ hended => onDatagram_idle link disk datagram hended)
      fun _ _ hrests => ConnectionTask.onDatagram_settles hrests datagram
  | timeout link number =>
    exact step_leads h (.timeout link) (by simp) number (fun _ hended => onTimeout_idle link disk hended)
      fun _ _ hrests => ConnectionTask.onTimeout_settles hrests
  | shutdown => exact onShutdown_leads h

theorem handleAll_leads (h : process.Settled config [] disk server) (events : List Server.Event) :
    ∃ after, Leads config process { process := after, sent := (Server.handleAll events disk server).sent } ∧
      after.Settled config [] (Server.handleAll events disk server).disk
        (Server.handleAll events disk server).server := by
  induction events generalizing process disk server with
  | nil => exact ⟨process, .refl config process, h⟩
  | cons event events ih =>
    obtain ⟨between, hfirst, hsettled⟩ := handle_leads h event
    obtain ⟨after, hrest, hlast⟩ := ih hsettled
    exact ⟨after, hfirst.trans hrest, hlast⟩

/-- A server from its start. -/
theorem start_leads (config : ServerConfig) (disk : Disk) (events : List Server.Event) :
    ∃ after, Leads config (start disk)
        { process := after, sent := (Server.handleAll events disk ({ config } : Server).settle).sent } ∧
      after.Settled config [] (Server.handleAll events disk ({ config } : Server).settle).disk
        (Server.handleAll events disk ({ config } : Server).settle).server := by
  have hstart : (start disk).Mirrors config [] disk { config } := by
    refine ⟨rfl, ⟨rfl, rfl, fun number task connection hat _ => ?_⟩, rfl, rfl, rfl, sane_start disk, by simp⟩
    cases hat
  obtain ⟨first, hfirst, hsettled⟩ := hstart.settled
  obtain ⟨after, hrest, hlast⟩ := handleAll_leads hsettled events
  exact ⟨after, hfirst.trans hrest, hlast⟩

end ServerProcess

end Tftp
