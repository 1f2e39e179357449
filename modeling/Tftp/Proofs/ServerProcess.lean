import Tftp.Proofs.ServerLoop
import Tftp.Proofs.TaskPool

namespace Tftp

/-- A server whose loop and connections take their steps in any order. The word to stop is seen by the loop and by
each connection at a time of its own. -/
structure ServerProcess where
  pool : TaskPool
  told : Bool := false
  loop : ServerLoop := {}
  inbox : List Datagram := []

inductive ServerProcess.Event where
  | tell
  | arrive (datagram : Datagram)
  | receive (ports : Admission.Ports)
  | loop (step : ServerLoop.Step)
  | task (number : Nat) (event : ConnectionTask.Event)

structure ServerProcess.Turn where
  process : ServerProcess
  sent : List Server.Sent := []

/-- What comes of an event for a connection. It is given up only if the server is told to stop, and then it is also
given up instead of its next exchange. -/
def ConnectionTask.effect? (told : Bool) (task : ConnectionTask) (event : Event) : Option Event :=
  match told, task.pause, event with
  | false, _, .cancel => none
  | true, .acting .., .proceed _ => some .cancel
  | _, _, event => some event

def ConnectionTask.isOver (task : ConnectionTask) : Bool :=
  match task.pause with
  | .ended _ => true
  | _ => false

theorem ConnectionTask.over_stays {task : ConnectionTask} (h : task.isOver = true) (disk : Disk) (event : Event) :
    task.step disk event = task.stay disk := by
  rw [isOver] at h
  split at h
  · next result hp =>
    cases event with
    | proceed link => rw [step, proceed, hp]
    | datagram datagram => rw [step, onDatagram, hp]
    | timeout link => rw [step, onTimeout, hp]
    | cancel => rw [step, onCancel, hp]
  · cases h

namespace ServerProcess

def Event.number? : Event → Option Nat
  | task number _ => some number
  | _ => none

theorem Event.eq_of_number? {event : Event} {number : Nat} (h : event.number? = some number) :
    ∃ own, event = .task number own := by
  cases event with
  | task actor own =>
    cases h
    exact ⟨own, rfl⟩
  | _ => cases h

def isOver (process : ServerProcess) (number : Nat) : Bool :=
  process.pool.tasks[number]?.any ConnectionTask.isOver

def reply (config : ServerConfig) (ports : Admission.Ports) (datagram : Datagram) : List Server.Sent :=
  match Admission.ofDatagram config ports datagram with
  | .error code => Server.label .listener [⟨datagram.source, .standardError code⟩]
  | .ok _ => []

def called? (config : ServerConfig) (process : ServerProcess) (ports : Admission.Ports) (datagram : Datagram) :
    Option Nat :=
  match Admission.ofDatagram config ports datagram with
  | .error _ => none
  | .ok _ => some process.pool.tasks.length

def due? (process : ServerProcess) : Option Datagram :=
  if process.loop.stage = .selecting then process.inbox.head? else none

def attend (config : ServerConfig) (process : ServerProcess) (ports : Admission.Ports) (datagram : Datagram) :
    Turn where
  process := { process with
    pool := process.pool.step config (.request ports datagram)
    loop := process.loop.received (process.called? config ports datagram)
    inbox := process.inbox.tail }
  sent := reply config ports datagram

def act (config : ServerConfig) (process : ServerProcess) (number : Nat) (task : ConnectionTask)
    (event : ConnectionTask.Event) : Turn where
  process := { process with pool := process.pool.step config (.task number event) }
  sent := Server.label (.connection number) (task.step process.pool.disk event).sent

/-- What cannot happen in a state changes nothing. -/
def step (config : ServerConfig) (process : ServerProcess) : Event → Turn
  | .tell => { process := { process with told := true } }
  | .arrive datagram => { process := { process with inbox := process.inbox ++ [datagram] } }
  | .receive ports =>
    match process.due? with
    | none => { process }
    | some datagram => process.attend config ports datagram
  | .loop step =>
    match process.loop.step process.told process.isOver step with
    | none => { process }
    | some loop => { process := { process with loop } }
  | .task number event =>
    match process.pool.tasks[number]? with
    | none => { process }
    | some task =>
      match task.effect? process.told event with
      | none => { process }
      | some event => process.act config number task event

def run (config : ServerConfig) : List Event → ServerProcess → Turn
  | [], process => { process }
  | event :: events, process =>
    let turn := process.step config event
    let later := run config events turn.process
    { later with sent := turn.sent ++ later.sent }

def start (disk : Disk) : ServerProcess where
  pool := { disk }

def sentBy (number : Nat) (sent : List Server.Sent) : List Transmission :=
  (sent.filter fun x => x.origin = .connection number).map Server.Sent.transmission

@[simp] theorem sentBy_append (number : Nat) (sent more : List Server.Sent) :
    sentBy number (sent ++ more) = sentBy number sent ++ sentBy number more := by
  rw [sentBy, List.filter_append, List.map_append]
  rfl

theorem sentBy_label (number : Nat) (sent : List Transmission) :
    sentBy number (Server.label (.connection number) sent) = sent := by
  rw [sentBy, Server.label, List.filter_eq_self.mpr, List.map_map]
  · exact List.map_id sent
  · simp

theorem sentBy_other {number : Nat} {origin : Server.Origin} (h : origin ≠ .connection number)
    (sent : List Transmission) : sentBy number (Server.label origin sent) = [] := by
  rw [sentBy, Server.label, List.filter_eq_nil_iff.mpr, List.map_nil]
  simp [h]

variable {config : ServerConfig} {process : ServerProcess} {number : Nat} {task : ConnectionTask}

theorem sentBy_reply (ports : Admission.Ports) (datagram : Datagram) :
    sentBy number (reply config ports datagram) = [] := by
  rw [reply]
  split
  · exact sentBy_other (by simp) _
  · rfl

theorem run_append (config : ServerConfig) (first second : List Event) (process : ServerProcess) :
    run config (first ++ second) process =
      { run config second (run config first process).process with
        sent := (run config first process).sent ++ (run config second (run config first process).process).sent } := by
  induction first generalizing process with
  | nil => rfl
  | cons event first ih => simp only [List.cons_append, run, ih, List.append_assoc]

theorem isOver_eq (h : process.pool.At number task) : process.isOver number = task.isOver := by
  have hlookup : process.pool.tasks[number]? = some task := h
  rw [isOver, hlookup]
  rfl

theorem due?_eq_some {datagram : Datagram} (h : process.due? = some datagram) :
    process.loop.stage = .selecting ∧ process.inbox = datagram :: process.inbox.tail := by
  rw [due?] at h
  split at h
  · next hs =>
    obtain ⟨inbox, hi⟩ := List.head?_eq_some_iff.mp h
    exact ⟨hs, by rw [hi, List.tail_cons]⟩
  · cases h

theorem due?_cons (hs : process.loop.stage = .selecting) {datagram : Datagram} {inbox : List Datagram}
    (hi : process.inbox = datagram :: inbox) : process.due? = some datagram := by
  rw [due?, if_pos hs, hi, List.head?_cons]

theorem step_receive {datagram : Datagram} (h : process.due? = some datagram) (ports : Admission.Ports) :
    process.step config (.receive ports) = process.attend config ports datagram := by
  simp only [step, h]

theorem step_loop {step : ServerLoop.Step} {next : ServerLoop}
    (h : process.loop.step process.told process.isOver step = some next) :
    process.step config (.loop step) = { process := { process with loop := next } } := by
  simp only [ServerProcess.step, h]

theorem step_act (h : process.pool.At number task) {event done : ConnectionTask.Event}
    (he : task.effect? process.told event = some done) :
    process.step config (.task number event) = process.act config number task done := by
  have hlookup : process.pool.tasks[number]? = some task := h
  simp only [step, hlookup, he]

inductive Stepped (config : ServerConfig) (process : ServerProcess) : Event → Turn → Prop where
  | idle (event : Event) : Stepped config process event { process }
  | tell : Stepped config process .tell { process := { process with told := true } }
  | arrive (datagram : Datagram) :
    Stepped config process (.arrive datagram) { process := { process with inbox := process.inbox ++ [datagram] } }
  | receive (ports : Admission.Ports) (datagram : Datagram) (hd : process.due? = some datagram) :
    Stepped config process (.receive ports) (process.attend config ports datagram)
  | loop {step : ServerLoop.Step} {next : ServerLoop}
    (h : ServerLoop.Stepped process.told process.isOver process.loop step next) :
    Stepped config process (.loop step) { process := { process with loop := next } }
  | act {number : Nat} {task : ConnectionTask} {event : ConnectionTask.Event} (done : ConnectionTask.Event)
    (hat : process.pool.At number task) (he : task.effect? process.told event = some done) :
    Stepped config process (.task number event) (process.act config number task done)

theorem step_stepped (config : ServerConfig) (process : ServerProcess) (event : Event) :
    Stepped config process event (process.step config event) := by
  cases event with
  | tell => exact .tell
  | arrive datagram => exact .arrive datagram
  | receive ports =>
    rw [step]
    split
    · exact .idle _
    · next datagram hd => exact .receive ports datagram hd
  | loop step =>
    rw [ServerProcess.step]
    split
    · exact .idle _
    · next h => exact .loop (ServerLoop.step_stepped h)
  | task number event =>
    rw [step]
    split
    · exact .idle _
    · next task hat =>
      split
      · exact .idle _
      · next done he => exact .act done hat he

theorem Stepped.pool {event : Event} {turn : Turn} (h : Stepped config process event turn) :
    turn.process.pool = process.pool ∨ ∃ done, turn.process.pool = process.pool.step config done := by
  cases h with
  | receive ports datagram => exact .inr ⟨.request ports datagram, rfl⟩
  | act done hat he => exact .inr ⟨.task _ done, rfl⟩
  | _ => exact .inl rfl

theorem run_pool (config : ServerConfig) (events : List Event) (process : ServerProcess) :
    ∃ done, (run config events process).process.pool = TaskPool.run config done process.pool := by
  induction events generalizing process with
  | nil => exact ⟨[], rfl⟩
  | cons event events ih =>
    obtain ⟨later, hlater⟩ := ih (process.step config event).process
    rcases (step_stepped config process event).pool with hsame | ⟨done, hdone⟩
    · rw [hsame] at hlater
      exact ⟨later, hlater⟩
    · rw [hdone] at hlater
      exact ⟨done :: later, hlater⟩

theorem run_inv {initial : Disk} (h : process.pool.Inv config initial) (events : List Event) :
    (run config events process).process.pool.Inv config initial := by
  obtain ⟨done, hdone⟩ := run_pool config events process
  rw [hdone]
  exact TaskPool.inv_run h done

theorem Stepped.told {event : Event} {turn : Turn} (h : Stepped config process event turn)
    (hs : process.told = true) : turn.process.told = true := by
  cases h with
  | tell => rfl
  | _ => exact hs

theorem step_told (h : process.told = true) (event : Event) : (process.step config event).process.told = true :=
  (step_stepped config process event).told h

theorem run_told (h : process.told = true) (events : List Event) :
    (run config events process).process.told = true := by
  induction events generalizing process with
  | nil => exact h
  | cons event events ih => exact ih (step_told h event)

theorem act_at (h : process.pool.At number task) (done : ConnectionTask.Event) :
    (process.act config number task done).process.pool.At number
      (task.step process.pool.disk done).state.2 := by
  rw [act]
  simp only [TaskPool.step_task config h]
  exact List.getElem?_set_self (List.getElem?_eq_some_iff.mp h).1

theorem act_at_other {actor : Nat} {other : ConnectionTask} (ha : process.pool.At actor other)
    (h : process.pool.At number task) (hne : actor ≠ number) (done : ConnectionTask.Event) :
    (process.act config actor other done).process.pool.At number task := by
  rw [act]
  simp only [TaskPool.step_task config ha]
  exact (List.getElem?_set_ne hne).trans h

theorem attend_at (h : process.pool.At number task) (ports : Admission.Ports) (datagram : Datagram) :
    (process.attend config ports datagram).process.pool.At number task := by
  simp only [attend, TaskPool.step]
  split
  · exact h
  · exact (List.getElem?_append_left (List.getElem?_eq_some_iff.mp h).1).trans h

theorem step_own (config : ServerConfig) (hat : process.pool.At number task) {event done : ConnectionTask.Event}
    (he : task.effect? process.told event = some done) :
    (process.step config (.task number event)).process.pool.At number
        (task.step process.pool.disk done).state.2 ∧
      sentBy number (process.step config (.task number event)).sent =
        (task.step process.pool.disk done).sent := by
  rw [step_act hat he]
  exact ⟨act_at hat done, sentBy_label number _⟩

/-- What the others do concerns a connection in no way. -/
theorem Stepped.other {event : Event} {turn : Turn} (h : Stepped config process event turn)
    (hat : process.pool.At number task) (hne : event.number? ≠ some number) :
    turn.process.pool.At number task ∧ sentBy number turn.sent = [] := by
  cases h with
  | receive ports datagram => exact ⟨attend_at hat ports datagram, sentBy_reply ports datagram⟩
  | @act actor other event done hactor he =>
    have hne' : actor ≠ number := fun heq => hne (congrArg some heq)
    refine ⟨act_at_other hactor hat hne' done, sentBy_other (fun heq => ?_) _⟩
    injection heq with heq
    exact hne' heq
  | _ => exact ⟨hat, rfl⟩

/-- The loop waits for each connection that is at work, and leaves only once it is told to. -/
structure Sane (process : ServerProcess) : Prop where
  told : process.loop.stage = .joining ∨ process.loop.stage = .returned → process.told = true
  empty : process.loop.stage = .returned → process.loop.tasks = []
  live : ∀ number ∈ process.loop.tasks, number < process.pool.tasks.length
  joins : ∀ number task, process.pool.At number task → task.isOver = false → number ∈ process.loop.tasks

theorem sane_start (disk : Disk) : (start disk).Sane := by
  refine ⟨by simp [start], by simp [start], by simp [start], fun number task hat => ?_⟩
  cases hat

theorem sane_attend (h : process.Sane) (ports : Admission.Ports) (datagram : Datagram) :
    (process.attend config ports datagram).process.Sane := by
  simp only [attend, TaskPool.step, called?]
  cases Admission.ofDatagram config ports datagram with
  | error code =>
    refine ⟨by simp [ServerLoop.received], by simp [ServerLoop.received], ?_, ?_⟩
    · simpa only [ServerLoop.received, Option.toList_none, List.append_nil] using h.live
    · simpa only [ServerLoop.received, Option.toList_none, List.append_nil] using h.joins
  | ok admission =>
    refine ⟨by simp [ServerLoop.received], by simp [ServerLoop.received], fun number hmem => ?_,
      fun number task hat ho => ?_⟩
    · simp only [ServerLoop.received, Option.toList_some, List.mem_append, List.mem_singleton] at hmem
      rw [List.length_append, List.length_singleton]
      rcases hmem with hmem | rfl
      · exact Nat.lt_succ_of_lt (h.live number hmem)
      · exact Nat.lt_succ_self _
    · simp only [ServerLoop.received, Option.toList_some, List.mem_append, List.mem_singleton]
      by_cases hlt : number < process.pool.tasks.length
      · exact .inl (h.joins number task ((List.getElem?_append_left hlt).symm.trans hat) ho)
      · have hbound := (List.getElem?_eq_some_iff.mp hat).1
        rw [List.length_append, List.length_singleton] at hbound
        exact .inr (by omega)

theorem sane_loop (h : process.Sane) {step : ServerLoop.Step} {next : ServerLoop}
    (hs : ServerLoop.Stepped process.told process.isOver process.loop step next) :
    ({ process with loop := next } : ServerProcess).Sane where
  told hend := hs.told_of_joining hend fun hj => h.told (.inl hj)
  empty := hs.empty_of_returned
  live number hmem := h.live number (hs.tasks_subset hmem)
  joins number task hat ho := hs.mem_tasks (h.joins number task hat ho) ((isOver_eq hat).trans ho)

theorem sane_act (h : process.Sane) (hat : process.pool.At number task) (done : ConnectionTask.Event) :
    (process.act config number task done).process.Sane := by
  simp only [act, TaskPool.step_task config hat]
  refine ⟨h.told, h.empty, fun other hmem => ?_, fun other last hlast ho => ?_⟩
  · rw [List.length_set]
    exact h.live other hmem
  · rcases TaskPool.at_set hlast with ⟨rfl, rfl⟩ | ⟨-, hlast⟩
    · refine h.joins other task hat ?_
      rw [Bool.eq_false_iff]
      intro hover
      rw [ConnectionTask.over_stays hover] at ho
      exact Bool.false_ne_true (ho.symm.trans hover)
    · exact h.joins other last hlast ho

theorem Stepped.sane {event : Event} {turn : Turn} (hs : Stepped config process event turn) (h : process.Sane) :
    turn.process.Sane := by
  cases hs with
  | idle => exact h
  | tell => exact ⟨fun _ => rfl, h.empty, h.live, h.joins⟩
  | arrive => exact ⟨h.told, h.empty, h.live, h.joins⟩
  | receive ports datagram => exact sane_attend h ports datagram
  | loop hs => exact sane_loop h hs
  | act done hat => exact sane_act h hat done

theorem run_sane (h : process.Sane) (events : List Event) : (run config events process).process.Sane := by
  induction events generalizing process with
  | nil => exact h
  | cons event events ih => exact ih ((step_stepped config process event).sane h)

end ServerProcess

end Tftp
