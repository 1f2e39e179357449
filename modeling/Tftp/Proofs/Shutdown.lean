import Tftp.Proofs.FileSafety
import Tftp.Proofs.ServerTermination

namespace Tftp

namespace ConnectionTask

/-- A connection that speaks to this client. -/
structure Faces (client : Endpoint) (task : ConnectionTask) : Prop where
  transfer : task.transfer.session.peer = .fixed client
  admission : task.admission.transfer.session.peer = .fixed client

variable {client : Endpoint} {task : ConnectionTask} {disk : Disk}

theorem read_fixed {session : Session} (h : session.peer = .fixed client) (datagram : Datagram) :
    (session.read datagram).1.peer = .fixed client := by
  have hrecognize : session.recognize datagram.source =
      if client = datagram.source then .ok session else .error (.wrongPeer datagram.source) := by
    rw [Session.recognize, h]
  rw [Session.read, hrecognize]
  by_cases hs : client = datagram.source
  · rw [if_pos hs]
    cases Packet.decode datagram.bytes <;> exact h
  · rw [if_neg hs]
    exact h

theorem faces_ofNext (h : task.Faces client) (party : Block.Party) {next : Transfer × Stage}
    (hn : next.1.session.peer = .fixed client) (acknowledged : List Bytes) :
    Faces client { task with pause := .ofNext party next, acknowledged } := by
  obtain ⟨transfer, stage⟩ := next
  cases stage with
  | waiting exchange => exact ⟨hn, h.admission⟩
  | ended result => cases result <;> exact ⟨h.admission, h.admission⟩

theorem faces_pause (h : task.Faces client) {pause : Pause}
    (hp : ({ task with pause } : ConnectionTask).transfer.session.peer = .fixed client) :
    Faces client { task with pause } :=
  ⟨hp, h.admission⟩

theorem faces_take (h : task.Faces client) {transfer : Transfer} (hp : transfer.session.peer = .fixed client)
    (datagram : Datagram) (party : Block.Party) :
    Faces client { task with pause := take disk datagram transfer party } := by
  refine faces_pause h ?_
  have hread := read_fixed hp datagram
  rw [take]
  simp only
  split
  · exact hread
  · split
    · exact hread
    · split <;> exact hread

theorem faces_look (h : task.Faces client) : Faces client { task with pause := look disk task } := by
  refine faces_pause h ?_
  rw [look]
  split
  · exact h.admission
  · split
    · split <;> exact h.admission
    · split
      · exact h.admission
      · split <;> exact h.admission

theorem faces_measure (h : task.Faces client) (mode : Mode) (node : Node) :
    Faces client { task with pause := task.measure disk mode node } := by
  refine faces_pause h ?_
  rw [measure]
  split
  · split
    · split <;> exact h.admission
    · exact h.admission
  · exact h.admission

theorem faces_make (h : task.Faces client) (mode : Mode) : (make disk mode task).2.Faces client := by
  rw [make]
  split <;> exact ⟨h.admission, h.admission⟩

section Receiver

variable (h : task.Faces client) {transfer : Transfer} (hp : transfer.session.peer = .fixed client)
  (receiver : Block.Receiver) (payload : Bytes)

include h hp

theorem faces_store : Faces client { task with pause := (store disk transfer receiver payload).2 } := by
  refine faces_pause h ?_
  rw [store]
  split
  · exact hp
  · simp only
    split <;> exact hp

theorem faces_release : Faces client { task with pause := (release disk transfer receiver payload).2 } := by
  refine faces_pause h ?_
  rw [release]
  simp only
  split <;> exact hp

theorem faces_flush : Faces client { task with pause := (flush disk transfer receiver payload).2 } := by
  refine faces_pause h ?_
  rw [flush]
  split <;> exact hp

end Receiver

theorem faces_proceed (h : task.Faces client) (link : Link) :
    (task.proceed link disk).state.2.Faces client := by
  have hp := h.transfer
  rw [ConnectionTask.transfer] at hp
  rw [proceed]
  cases hpause : task.pause with
  | admitted => exact faces_look h
  | refusing code => exact ⟨h.admission, h.admission⟩
  | vacant mode => exact faces_make h mode
  | opened mode node => exact faces_measure h mode node
  | ready transfer party =>
    rw [hpause] at hp
    exact ⟨hp, h.admission⟩
  | waiting transfer party exchange => exact h
  | storing transfer receiver payload =>
    rw [hpause] at hp
    exact faces_store h hp receiver payload
  | releasing transfer receiver payload =>
    rw [hpause] at hp
    exact faces_release h hp receiver payload
  | flushing transfer receiver payload =>
    rw [hpause] at hp
    exact faces_flush h hp receiver payload
  | acting transfer party action fresh =>
    rw [hpause] at hp
    have hsession := (StepEffect.of_act link transfer action).session
    exact faces_ofNext h party (by rw [hsession]; exact hp) _
  | failed failure => exact ⟨h.admission, h.admission⟩
  | ended result => exact h

theorem faces_step (h : task.Faces client) (event : Event) : (task.step disk event).state.2.Faces client := by
  have hp := h.transfer
  rw [ConnectionTask.transfer] at hp
  cases event with
  | proceed link => exact faces_proceed h link
  | datagram datagram =>
    rw [step, onDatagram]
    split
    · next transfer party exchange hpause =>
      rw [hpause] at hp
      exact faces_take h hp datagram party
    · exact h
  | timeout link =>
    rw [step, onTimeout]
    split
    · next transfer party exchange hpause =>
      rw [hpause] at hp
      have hsession := (StepEffect.of_expire link transfer (.waiting exchange)).session
      exact faces_ofNext h party (by rw [hsession]; exact hp) _
    · exact h
  | cancel =>
    rw [step, onCancel]
    split
    · exact h
    · exact h
    · exact ⟨h.admission, h.admission⟩

/-- A connection that has been given up while it waited, and has told its client. -/
structure GivenUp (made : Option FileId) (task : ConnectionTask) : Prop where
  pause : task.pause = .failed .cancelled ∨ task.pause = .ended (.error .cancelled)
  made : task.made = made

theorem GivenUp.step {made : Option FileId} (h : task.GivenUp made) (disk : Disk) (event : Event) :
    (task.step disk event).sent = [] ∧ (task.step disk event).state.2.GivenUp made := by
  obtain ⟨hp | hp, hmade⟩ := h
  · cases event with
    | proceed link =>
      rw [ConnectionTask.step, proceed, hp]
      exact ⟨rfl, .inr rfl, hmade⟩
    | datagram datagram =>
      rw [ConnectionTask.step, onDatagram, hp]
      exact ⟨rfl, .inl hp, hmade⟩
    | timeout link =>
      rw [ConnectionTask.step, onTimeout, hp]
      exact ⟨rfl, .inl hp, hmade⟩
    | cancel =>
      rw [ConnectionTask.step, onCancel, hp]
      exact ⟨rfl, .inl hp, hmade⟩
  · have hover : task.isOver = true := by
      rw [isOver, hp]
    rw [over_stays hover disk event]
    exact ⟨rfl, .inr hp, hmade⟩

theorem GivenUp.effect? {made : Option FileId} (h : task.GivenUp made) (event : Event) :
    task.effect? true event = some event := by
  rcases h.pause with hp | hp <;> cases event <;> simp only [ConnectionTask.effect?, hp]

theorem GivenUp.ended {made : Option FileId} (h : task.GivenUp made) (ho : task.isOver = true) :
    task.pause = .ended (.error .cancelled) := by
  rcases h.pause with hp | hp
  · rw [isOver, hp] at ho
    cases ho
  · exact hp

def isWaiting (task : ConnectionTask) : Bool :=
  match task.pause with
  | .waiting .. => true
  | _ => false

theorem cancel_waiting (h : task.isWaiting = true) (hf : task.Faces client) (disk : Disk) :
    task.effect? true .cancel = some .cancel ∧
      (task.step disk .cancel).sent = [⟨client, .error ⟨0⟩ "Server shutting down"⟩] ∧
      (task.step disk .cancel).state.2.GivenUp task.made := by
  have hpeer := hf.transfer
  rw [isWaiting] at h
  split at h
  · next transfer party exchange hp =>
    refine ⟨by simp only [ConnectionTask.effect?, hp], ?_, ?_⟩
    · simp only [step, onCancel, hp, Move.map, Transfer.abort, Session.address, hpeer]
      rfl
    · simp only [step, onCancel, hp, Move.map]
      exact ⟨.inl rfl, rfl⟩
  · cases h

end ConnectionTask

namespace ServerProcess

variable {config : ServerConfig} {initial : Disk} {process : ServerProcess} {number : Nat} {task : ConnectionTask}
  {client : Endpoint}

theorem act_faces (hat : process.pool.At number task) (done : ConnectionTask.Event)
    (h : ∀ i task, process.pool.At i task → ∃ client, task.Faces client) :
    ∀ i task, (process.act config number task done).process.pool.At i task → ∃ client, task.Faces client := by
  intro i other hother
  simp only [act, TaskPool.step_task config hat] at hother
  rcases TaskPool.at_set hother with ⟨rfl, rfl⟩ | ⟨-, hother⟩
  · obtain ⟨client, hfaces⟩ := h i task hat
    exact ⟨client, ConnectionTask.faces_step hfaces done⟩
  · exact h i other hother

theorem Stepped.faces {event : Event} {turn : Turn} (hs : Stepped config process event turn)
    (h : ∀ i task, process.pool.At i task → ∃ client, task.Faces client) :
    ∀ i task, turn.process.pool.At i task → ∃ client, task.Faces client := by
  cases hs with
  | receive ports request =>
    intro i task hat
    simp only [attend, TaskPool.step] at hat
    split at hat
    · exact h i task hat
    · next admission hadmission =>
      rcases TaskPool.at_admit hat with hat | rfl
      · exact h i task hat
      · obtain ⟨_, _, _, _, _, hkeeps⟩ := Admission.ofDatagram_ok hadmission
        have hpeer := congrArg Session.peer hkeeps.session
        exact ⟨request.source, hpeer, hpeer⟩
  | act done hat he => exact act_faces hat done h
  | _ => exact h

theorem run_faces (h : ∀ i task, process.pool.At i task → ∃ client, task.Faces client) (events : List Event) :
    ∀ i task, (run config events process).process.pool.At i task → ∃ client, task.Faces client := by
  induction events generalizing process with
  | nil => exact h
  | cons event events ih => exact ih ((step_stepped config process event).faces h)

theorem run_served (config : ServerConfig) (initial : Disk) (before : List Event)
    (hat : (run config before (start initial)).process.pool.At number task) :
    ∃ ports request, request ∈ arrivals before ∧ Admission.ofDatagram config ports request = .ok task.admission ∧
      task.Faces request.source := by
  have hattends := run_attends config before (start initial)
  have hmem : task.admission ∈ (run config before (start initial)).process.admissions :=
    List.mem_map_of_mem (List.mem_of_getElem? hat)
  rw [hattends.admissions] at hmem
  obtain ⟨⟨ports, request⟩, hheard, hmade⟩ := List.mem_flatMap.mp (hmem : task.admission ∈ [] ++ _)
  have hadmission : Admission.ofDatagram config ports request = .ok task.admission := by
    simp only [admitted] at hmade
    split at hmade
    · cases hmade
    · next admission hok => rw [hok, List.mem_singleton.mp hmade]
  have harrived : request ∈ arrivals before := by
    have hinbox : (heard config before (start initial)).map Prod.snd ++ _ = [] ++ arrivals before := hattends.inbox
    rw [List.nil_append] at hinbox
    rw [← hinbox]
    exact List.mem_append_left _ (List.mem_map_of_mem hheard)
  have hnone : ∀ i task, (start initial).pool.At i task → ∃ client, task.Faces client := by
    intro i task hat
    cases hat
  obtain ⟨client, hfaces⟩ := run_faces hnone before number task hat
  obtain ⟨_, _, _, _, _, hkeeps⟩ := Admission.ofDatagram_ok hadmission
  have hpeer := hfaces.admission.symm.trans (congrArg Session.peer hkeeps.session)
  injection hpeer with hclient
  exact ⟨ports, request, harrived, hadmission, hclient ▸ hfaces⟩

theorem Stepped.deaf (ht : process.told = true) (hs : process.loop.stage ≠ .selecting) {event : Event} {turn : Turn}
    (h : Stepped config process event turn) : process.hears event = [] ∧ turn.process.loop.stage ≠ .selecting := by
  have hdue : process.due? = none := by
    rw [due?, if_neg hs]
  have hhears : process.hears event = [] := by
    cases event with
    | receive ports =>
      rw [hears, hdue]
      rfl
    | _ => rfl
  refine ⟨hhears, ?_⟩
  cases h with
  | receive ports datagram hd =>
    rw [hdue] at hd
    cases hd
  | loop hstep =>
    rw [ht] at hstep
    exact hstep.deaf hs
  | _ => exact hs

theorem run_deaf (config : ServerConfig) (ht : process.told = true) (hs : process.loop.stage ≠ .selecting)
    (events : List Event) : heard config events process = [] := by
  induction events generalizing process with
  | nil => rfl
  | cons event events ih =>
    obtain ⟨hnow, hnext⟩ := (step_stepped config process event).deaf ht hs
    rw [heard, hnow, ih (step_told ht event) hnext]
    rfl

theorem run_unattended (ht : process.told = true) (hs : process.loop.stage ≠ .selecting) (events : List Event) :
    heard config events process = [] ∧ fromListener (run config events process).sent = [] ∧
      (run config events process).process.admissions = process.admissions := by
  have hdeaf := run_deaf config ht hs events
  have hattends := run_attends config events process
  rw [hdeaf] at hattends
  exact ⟨hdeaf, hattends.answers, hattends.admissions.trans (List.append_nil _)⟩

theorem step_hears (config : ServerConfig) {event : Event} (h : process.hears event ≠ []) :
    (process.step config event).process.loop.stage ≠ .selecting ∧ (process.hears event).length = 1 := by
  cases event with
  | receive ports =>
    rw [hears] at h ⊢
    cases hd : process.due? with
    | none =>
      rw [hd] at h
      exact absurd rfl h
    | some datagram =>
      rw [step_receive hd]
      refine ⟨fun hs => ?_, rfl⟩
      cases hs
  | _ => exact absurd rfl h

/-- After the word to stop the loop hears one more datagram at most. -/
theorem run_lastHeard (config : ServerConfig) (ht : process.told = true) (events : List Event) :
    (heard config events process).length ≤ 1 := by
  induction events generalizing process with
  | nil => exact Nat.zero_le 1
  | cons event events ih =>
    rw [heard]
    by_cases hnow : process.hears event = []
    · rw [hnow]
      exact ih (step_told ht event)
    · obtain ⟨hnext, hone⟩ := step_hears config hnow
      rw [run_deaf config (step_told ht event) hnext, List.append_nil, hone]

theorem run_late (ht : process.told = true) (hinbox : process.inbox ≠ []) (events : List Event) :
    ∀ x ∈ heard config events process, x.2 ∈ process.inbox := by
  intro x hx
  -- if one is heard, it is the oldest of those that wait
  have hone := run_lastHeard config ht events
  obtain ⟨oldest, others, hwait⟩ := List.exists_cons_of_ne_nil hinbox
  have horder := (run_attends config events process).inbox
  cases hheard : heard config events process with
  | nil =>
    rw [hheard] at hx
    cases hx
  | cons first rest =>
    rw [hheard] at hone hx horder
    have hrest : rest = [] := List.length_eq_zero_iff.mp (Nat.le_zero.mp (Nat.le_of_succ_le_succ hone))
    rw [hrest, List.mem_singleton] at hx
    rw [hwait, List.map_cons, List.cons_append, List.cons_append] at horder
    rw [hx, (List.cons.inj horder).1, hwait]
    exact List.mem_cons_self

theorem run_givenUp (config : ServerConfig) {made : Option FileId} (ht : process.told = true)
    (hat : process.pool.At number task) (h : task.GivenUp made) (events : List Event) :
    sentBy number (run config events process).sent = [] ∧
      ∃ last, (run config events process).process.pool.At number last ∧ last.GivenUp made := by
  induction events generalizing process task with
  | nil => exact ⟨rfl, task, hat, h⟩
  | cons event events ih =>
    rw [run, sentBy_append]
    by_cases hown : event.number? = some number
    · obtain ⟨own, rfl⟩ := Event.eq_of_number? hown
      have heffect : task.effect? process.told own = some own := by
        rw [ht]
        exact h.effect? own
      obtain ⟨hsilent, hstays⟩ := h.step process.pool.disk own
      obtain ⟨hnext, hsaid⟩ := step_own config hat heffect
      obtain ⟨hsent, hlast⟩ := ih (step_told ht _) hnext hstays
      refine ⟨?_, hlast⟩
      rw [hsent, hsaid, hsilent]
      rfl
    · obtain ⟨hkept, hquiet⟩ := (step_stepped config process event).other hat hown
      obtain ⟨hsent, hlast⟩ := ih (step_told ht event) hkept h
      refine ⟨?_, hlast⟩
      rw [hsent, hquiet]
      rfl

/-- No datagram comes in for a connection, and no window of it closes, before it is given up. -/
def Undisturbed (number : Nat) : List Event → Prop
  | [] => True
  | .task actor .cancel :: events => actor = number ∨ Undisturbed number events
  | .task actor (.datagram _) :: events => actor ≠ number ∧ Undisturbed number events
  | .task actor (.timeout _) :: events => actor ≠ number ∧ Undisturbed number events
  | _ :: events => Undisturbed number events

theorem Undisturbed.tail {event : Event} {events : List Event} (h : Undisturbed number (event :: events))
    (hc : event ≠ .task number .cancel) : Undisturbed number events := by
  cases event with
  | task actor own =>
    cases own with
    | cancel => exact h.resolve_left fun heq => hc (by rw [heq])
    | datagram | timeout => exact h.2
    | proceed => exact h
  | _ => exact h

theorem Undisturbed.head (config : ServerConfig) {event : Event} {events : List Event}
    (h : Undisturbed number (event :: events)) (hc : event ≠ .task number .cancel)
    (hat : process.pool.At number task) (hw : task.isWaiting = true) :
    (process.step config event).process.pool.At number task ∧
      sentBy number (process.step config event).sent = [] := by
  by_cases hown : event.number? = some number
  · obtain ⟨own, rfl⟩ := Event.eq_of_number? hown
    cases own with
    | cancel => exact absurd rfl hc
    | datagram | timeout => exact absurd rfl h.1
    | proceed link =>
      rw [ConnectionTask.isWaiting] at hw
      split at hw
      · next transfer party exchange hp =>
        have heffect : task.effect? process.told (.proceed link) = some (.proceed link) := by
          cases process.told <;> simp only [ConnectionTask.effect?, hp]
        have hstay : task.step process.pool.disk (.proceed link) = task.stay process.pool.disk := by
          rw [ConnectionTask.step, ConnectionTask.proceed, hp]
        have hown := step_own config hat heffect
        rw [hstay] at hown
        exact hown
      · cases hw
  · exact (step_stepped config process event).other hat hown

theorem run_undisturbed (config : ServerConfig) (ht : process.told = true) (hat : process.pool.At number task)
    (hw : task.isWaiting = true) (hf : task.Faces client) {events : List Event} (h : Undisturbed number events) :
    sentBy number (run config events process).sent = [] ∧ (run config events process).process.pool.At number task ∨
      sentBy number (run config events process).sent = [⟨client, .error ⟨0⟩ "Server shutting down"⟩] ∧
        ∃ last, (run config events process).process.pool.At number last ∧ last.GivenUp task.made := by
  induction events generalizing process with
  | nil => exact .inl ⟨rfl, hat⟩
  | cons event events ih =>
    rw [run, sentBy_append]
    -- until it is given up the connection stays as it is, and from then on `GivenUp` holds of it
    by_cases hcancel : event = .task number .cancel
    · subst hcancel
      obtain ⟨heffect, hsent, hgiven⟩ := ConnectionTask.cancel_waiting hw hf process.pool.disk
      rw [← ht] at heffect
      obtain ⟨hnext, hsaid⟩ := step_own config hat heffect
      obtain ⟨hquiet, hlast⟩ := run_givenUp config (step_told ht _) hnext hgiven events
      refine .inr ⟨?_, hlast⟩
      rw [hquiet, hsaid, hsent]
      rfl
    · obtain ⟨hkept, hquiet⟩ := h.head config hcancel hat hw
      rw [hquiet, List.nil_append]
      exact ih (step_told ht event) hkept (h.tail hcancel)

theorem Sane.ended (h : process.Sane) (hr : process.loop.stage = .returned) (hat : process.pool.At number task) :
    task.isOver = true := by
  cases ho : task.isOver with
  | true => rfl
  | false =>
    have hmem := h.joins number task hat ho
    rw [h.empty hr] at hmem
    cases hmem

theorem Stepped.returned (hs : process.Sane) (hr : process.loop.stage = .returned) {event : Event} {turn : Turn}
    (h : Stepped config process event turn) : turn.sent = [] ∧ turn.process.loop.stage = .returned := by
  cases h with
  | receive ports datagram hd =>
    rw [(due?_eq_some hd).1] at hr
    cases hr
  | loop hstep => exact absurd hr hstep.not_returned
  | act done hat he =>
    have hstay := ConnectionTask.over_stays (hs.ended hr hat) process.pool.disk done
    rw [ServerProcess.act, hstay]
    exact ⟨rfl, hr⟩
  | _ => exact ⟨rfl, hr⟩

theorem run_returned (hs : process.Sane) (hr : process.loop.stage = .returned) (events : List Event) :
    (run config events process).sent = [] ∧ (run config events process).process.loop.stage = .returned := by
  induction events generalizing process with
  | nil => exact ⟨rfl, hr⟩
  | cons event events ih =>
    have hstepped := step_stepped config process event
    obtain ⟨hsent, hnext⟩ := hstepped.returned hs hr
    obtain ⟨hlater, hlast⟩ := ih (hstepped.sane hs) hnext
    refine ⟨?_, hlast⟩
    rw [run, hsent, hlater]
    rfl

def Gone (made : Option FileId) (disk : Disk) : Prop :=
  ∀ id, made = some id → ∀ place, disk.node? place ≠ some (.file id)

/-- What has become of a connection that waited for its client and has made a file, or none. -/
structure Departs (client : Endpoint) (number : Nat) (made : Option FileId) (turn : Turn) : Prop where
  sent : sentBy number turn.sent = [] ∨
    sentBy number turn.sent = [⟨client, .error ⟨0⟩ "Server shutting down"⟩]
  /-- Before it is over it says it, and takes its file away. -/
  ended : ∀ last, turn.process.pool.At number last → last.isOver = true →
    sentBy number turn.sent = [⟨client, .error ⟨0⟩ "Server shutting down"⟩] ∧
      last.pause = .ended (.error .cancelled) ∧ Gone made turn.process.pool.disk
  returned : turn.process.loop.stage = .returned →
    sentBy number turn.sent = [⟨client, .error ⟨0⟩ "Server shutting down"⟩] ∧ Gone made turn.process.pool.disk

theorem gone_of_cancelled (hi : process.pool.Inv config initial) (hat : process.pool.At number task)
    (hp : task.pause = .ended (.error .cancelled)) : Gone task.made process.pool.disk := by
  intro id hm place hn
  have hleft := TaskPool.left_iff (hi.owns number task hat) (hi.sane number task hat) hp
  obtain ⟨-, hok⟩ := hleft.mp ⟨id, hm, place, hn⟩
  cases hok

theorem departs (hi : process.pool.Inv config initial) (hs : process.Sane) (ht : process.told = true)
    (hat : process.pool.At number task) (hw : task.isWaiting = true) (hf : task.Faces client) {later : List Event}
    (h : Undisturbed number later) : Departs client number task.made (run config later process) := by
  have hover : ∀ last, (run config later process).process.pool.At number last → last.isOver = true →
      sentBy number (run config later process).sent = [⟨client, .error ⟨0⟩ "Server shutting down"⟩] ∧
        last.pause = .ended (.error .cancelled) ∧ Gone task.made (run config later process).process.pool.disk := by
    intro last hlast ho
    -- a connection that has not been given up still waits, and is not over
    rcases run_undisturbed config ht hat hw hf h with ⟨-, hsame⟩ | ⟨hsent, given, hgivenAt, hgiven⟩
    · have heq : last = task := Option.some.inj (hlast.symm.trans hsame)
      rw [heq, ConnectionTask.isOver] at ho
      rw [ConnectionTask.isWaiting] at hw
      split at hw
      · next hp =>
        rw [hp] at ho
        cases ho
      · cases hw
    · have heq : last = given := Option.some.inj (hlast.symm.trans hgivenAt)
      rw [← heq] at hgiven
      have hended := hgiven.ended ho
      rw [← hgiven.made]
      exact ⟨hsent, hended, gone_of_cancelled (run_inv hi later) hlast hended⟩
  refine ⟨?_, hover, fun hr => ?_⟩
  · exact (run_undisturbed config ht hat hw hf h).imp And.left And.left
  · obtain ⟨last, hlast⟩ : ∃ last, (run config later process).process.pool.At number last := by
      rcases run_undisturbed config ht hat hw hf h with ⟨-, hsame⟩ | ⟨-, given, hgivenAt, -⟩
      · exact ⟨task, hsame⟩
      · exact ⟨given, hgivenAt⟩
    obtain ⟨hsent, -, hgone⟩ := hover last hlast ((run_sane hs later).ended hr hlast)
    exact ⟨hsent, hgone⟩

def tell (process : ServerProcess) : ServerProcess :=
  { process with told := true }

/-- How a server winds down that has come this far by these events, and is now told to stop. -/
structure WindsDown (config : ServerConfig) (initial : Disk) (before : List Event) (process : ServerProcess) :
    Prop where
  attends : ∀ later, Attends config (heard config later process) (arrivals later) process (run config later process)
  /-- If it was waiting for datagrams at that moment, it may hear one more before it sees that it is to stop. -/
  lastHeard : ∀ later, (heard config later process).length ≤ if process.loop.stage = .selecting then 1 else 0
  late : ∀ later, process.inbox ≠ [] → ∀ x ∈ heard config later process, x.2 ∈ process.inbox
  /-- Once it no longer waits for datagrams, it hears none: it answers nothing, and no connection is added. -/
  deaf : ∀ sooner later, (run config sooner process).process.loop.stage ≠ .selecting →
    heard config later (run config sooner process).process = [] ∧
      fromListener (run config later (run config sooner process).process).sent = [] ∧
      (run config later (run config sooner process).process).process.admissions =
        (run config sooner process).process.admissions
  /-- Each connection that waits takes leave of the client whose request it serves, unless something else comes
  first. -/
  farewell : ∀ number task, process.pool.At number task → task.isWaiting = true →
    ∃ ports request, request ∈ arrivals before ∧ Admission.ofDatagram config ports request = .ok task.admission ∧
      ∀ later, Undisturbed number later →
        Departs request.source number task.made (run config later process)
  returned : ∀ later, (run config later process).process.loop.stage = .returned →
    (∀ number task, (run config later process).process.pool.At number task → ∃ result, task.pause = .ended result) ∧
      ∀ more, (run config more (run config later process).process).sent = []
  /-- It can always do its part to return, and it does so in a bounded number of steps whatever their order. -/
  returns : ∀ later, ∃ more, (∀ event ∈ more, event.Own) ∧
    (run config more (run config later process).process).process.loop.stage = .returned
  goesOn : ∀ later, (run config later process).process.loop.stage ≠ .returned → ∃ event, event.Own ∧
    ((run config later process).process.step config event).process ≠ (run config later process).process
  bounded : ∃ bound, ∀ later, Effective config later process → later.length ≤ bound + (arrivals later).length
  whole : ∀ events : List Server.Event,
    let turn := Server.handleAll events initial (Server.settle { config })
    ∃ steps, (run config steps (start initial)).sent = turn.sent ∧
      (run config steps (start initial)).process.Mirrors config [] turn.disk turn.server ∧
      (.shutdown ∈ events → turn.server.isDone = true)

def bareRoot : Disk where
  nodes := [(["srv"], .directory)]

def uploads (port : UInt16) : List Event :=
  [.loop .check, .arrive (TaskPool.rival port), .receive fun _ => {}]

def twoUploads : List Event :=
  uploads 40000 ++ List.replicate 4 (.task 0 (.proceed .connected)) ++ uploads 40001 ++ [.loop .check]

def winding : List Event :=
  [.arrive (TaskPool.rival 40002), .loop .notice, .task 1 .cancel, .task 0 .cancel, .receive fun _ => {},
    .task 0 (.proceed .connected), .loop (.join 0), .task 1 (.proceed .connected), .loop (.join 1), .loop .leave]

end ServerProcess

end Tftp
