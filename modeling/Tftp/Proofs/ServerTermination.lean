import Mathlib.Algebra.Ring.Nat
import Tftp.Proofs.Dispatch

namespace Tftp

namespace ConnectionTask

/-- An upper bound for the steps that a connection takes until it is over, once the server is to stop. -/
def Pause.weight : Pause → Nat
  | .ended _ => 0
  | .failed _ => 1
  | .refusing _ | .acting .. => 2
  | .flushing .. | .ready .. => 3
  | .releasing .. | .vacant _ | .opened .. => 4
  | .storing .. | .admitted => 5
  | .waiting _ _ exchange => 6 + exchange.left

variable {task : ConnectionTask} {disk : Disk}

theorem look_weight (disk : Disk) (task : ConnectionTask) : (look disk task).weight ≤ 4 := by
  rw [look]
  split
  · exact (by decide : 2 ≤ 4)
  · split
    · split
      · exact (by decide : 2 ≤ 4)
      · exact Nat.le_refl 4
    · split
      · exact (by decide : 2 ≤ 4)
      · split
        · exact (by decide : 2 ≤ 4)
        · exact Nat.le_refl 4

theorem make_weight (disk : Disk) (mode : Mode) (task : ConnectionTask) : (make disk mode task).2.pause.weight ≤ 3 := by
  rw [make]
  split
  · exact (by decide : 2 ≤ 3)
  · exact Nat.le_refl 3

theorem measure_weight (disk : Disk) (mode : Mode) (node : Node) (task : ConnectionTask) :
    (measure disk mode node task).weight ≤ 3 := by
  simp only [measure]
  split
  · split
    · split
      · exact (by decide : 2 ≤ 3)
      · exact Nat.le_refl 3
    · exact Nat.le_refl 3
  · exact Nat.le_refl 3

theorem store_weight (transfer : Transfer) (receiver : Block.Receiver) (payload : Bytes) :
    (store disk transfer receiver payload).2.weight ≤ 4 := by
  rw [store]
  split
  · exact (by decide : 2 ≤ 4)
  · simp only
    split
    · exact Nat.le_refl 4
    · exact (by decide : 2 ≤ 4)

theorem release_weight (transfer : Transfer) (receiver : Block.Receiver) (payload : Bytes) :
    (release disk transfer receiver payload).2.weight ≤ 3 := by
  rw [release]
  simp only
  split
  · exact (by decide : 2 ≤ 3)
  · exact Nat.le_refl 3

theorem flush_weight (transfer : Transfer) (receiver : Block.Receiver) (payload : Bytes) :
    (flush disk transfer receiver payload).2.weight = 2 := by
  rw [flush]
  split <;> rfl

theorem take_weight (disk : Disk) (datagram : Datagram) (transfer : Transfer) (party : Block.Party) :
    (take disk datagram transfer party).weight ≤ 5 := by
  rw [take]
  simp only
  split
  · exact (by decide : 2 ≤ 5)
  · split
    · exact (by decide : 2 ≤ 5)
    · split
      · exact Nat.le_refl 5
      · exact (by decide : 2 ≤ 5)

theorem finish_weight (party : Block.Party) (transfer : Transfer) :
    (Pause.ofNext party (Stage.finish transfer).state).weight ≤ 1 := by
  rw [Stage.finish, Transfer.finish]
  split
  · exact Nat.le_refl 1
  · exact Nat.zero_le 1

theorem openWindow_left {link : Link} {session : Session} {repeated : Option Packet} {left : Nat} {exchange : Exchange}
    (h : (Exchange.openWindow link session repeated left).state = .waiting exchange) : exchange.left < left := by
  cases left with
  | zero => cases h
  | succ left =>
    cases repeated with
    | none =>
      cases h
      exact Nat.lt_succ_self left
    | some packet =>
      rw [Exchange.openWindow] at h
      split at h
      · cases h
        exact Nat.lt_succ_self left
      · cases h

theorem expire_weight (link : Link) (transfer : Transfer) (party : Block.Party) (exchange : Exchange) :
    (Pause.ofNext party (Stage.expire link transfer (.waiting exchange)).state).weight < 6 + exchange.left := by
  simp only [Stage.expire, Exchange.expire, Move.andThen]
  cases hopen : (Exchange.openWindow link transfer.session exchange.repeated exchange.left).state with
  | waiting next => exact Nat.add_lt_add_left (openWindow_left hopen) 6
  | failed failure => exact Nat.lt_of_le_of_lt (finish_weight party _) (by omega)

theorem effect?_acting {event : Event} {link : Link} (h : task.effect? true event = some (.proceed link))
    {transfer : Transfer} {party : Block.Party} {action : Block.Action} {fresh : Option Bytes} :
    task.pause ≠ .acting transfer party action fresh := by
  intro hp
  cases event <;> simp [effect?, hp] at h

theorem proceed_weight (link : Link) (disk : Disk) (hp : ∀ transfer party action fresh,
      task.pause ≠ .acting transfer party action fresh) :
    (task.proceed link disk).state = (disk, task) ∨
      (task.proceed link disk).state.2.pause.weight < task.pause.weight := by
  rw [proceed]
  cases hpause : task.pause with
  | admitted => exact .inr (Nat.lt_succ_of_le (look_weight disk task))
  | refusing code => exact .inr (by decide : 0 < 2)
  | vacant mode => exact .inr (Nat.lt_succ_of_le (make_weight disk mode task))
  | opened mode node => exact .inr (Nat.lt_succ_of_le (measure_weight disk mode node task))
  | ready transfer party => exact .inr (Nat.lt_succ_self 2)
  | waiting transfer party exchange => exact .inl rfl
  | storing transfer receiver payload => exact .inr (Nat.lt_succ_of_le (store_weight transfer receiver payload))
  | releasing transfer receiver payload => exact .inr (Nat.lt_succ_of_le (release_weight transfer receiver payload))
  | flushing transfer receiver payload =>
    exact .inr (Nat.lt_succ_of_le (Nat.le_of_eq (flush_weight transfer receiver payload)))
  | acting transfer party action fresh => exact absurd hpause (hp transfer party action fresh)
  | failed failure => exact .inr Nat.zero_lt_one
  | ended result => exact .inl rfl

theorem step_weight {event done : Event} (he : task.effect? true event = some done) (disk : Disk) :
    (task.step disk done).state = (disk, task) ∨
      (task.step disk done).state.2.pause.weight < task.pause.weight := by
  cases done with
  | proceed link => exact proceed_weight link disk fun _ _ _ _ => effect?_acting he
  | datagram datagram =>
    rw [step, onDatagram]
    cases hpause : task.pause with
    | waiting transfer party exchange =>
      have hle := take_weight disk datagram transfer party
      exact .inr (Nat.lt_of_le_of_lt hle (by simp only [Pause.weight]; omega))
    | _ => exact .inl rfl
  | timeout link =>
    rw [step, onTimeout]
    cases hpause : task.pause with
    | waiting transfer party exchange => exact .inr (expire_weight link transfer party exchange)
    | _ => exact .inl rfl
  | cancel =>
    rw [step, onCancel]
    cases hpause : task.pause with
    | failed | ended => exact .inl rfl
    | _ => exact .inr (by simp only [Move.map, Pause.weight]; omega)

end ConnectionTask

/-- An upper bound for the steps of the loop until it returns. A loop that still waits for datagrams may make a
connection of one. -/
def ServerLoop.weight (loop : ServerLoop) : Nat :=
  match loop.stage with
  | .returned => 0
  | .joining => 1 + loop.tasks.length
  | .checking => 2 + loop.tasks.length
  | .pausing _ => 3 + loop.tasks.length
  | .selecting => 9 + loop.tasks.length

theorem ServerLoop.Stepped.weight {ended : Nat → Bool} {loop next : ServerLoop} {step : Step}
    (h : Stepped true ended loop step next) : next.weight < loop.weight := by
  cases h with
  | check hs => simp [ServerLoop.weight, hs]
  | notice _ hs =>
    rcases hs with hs | ⟨milliseconds, hs⟩ <;> simp only [ServerLoop.weight, hs] <;> omega
  | fail hs milliseconds failures => simp only [ServerLoop.weight, hs]; omega
  | resume milliseconds hs => simp only [ServerLoop.weight, hs]; omega
  | joinAny task hm ho hs =>
    simp only [ServerLoop.weight, hs, List.length_erase_of_mem hm]
    omega
  | joinLast task hm ho hs =>
    have hpos := List.length_pos_of_mem hm
    simp only [ServerLoop.weight, hs, List.length_erase_of_mem hm]
    omega
  | leave hs ht => simp [ServerLoop.weight, hs, ht]

theorem sum_set_lt {α : Type} {weight : α → Nat} {items : List α} {number : Nat} {old new : α}
    (h : items[number]? = some old) (hlt : weight new < weight old) :
    ((items.set number new).map weight).sum < (items.map weight).sum := by
  induction items generalizing number with
  | nil => cases h
  | cons item items ih =>
    cases number with
    | zero =>
      cases h
      simp only [List.set_cons_zero, List.map_cons, List.sum_cons]
      omega
    | succ number =>
      have hrest := ih h
      simp only [List.set_cons_succ, List.map_cons, List.sum_cons]
      omega

namespace ServerProcess

variable {config : ServerConfig} {process : ServerProcess} {number : Nat} {task : ConnectionTask}

def weight (process : ServerProcess) : Nat :=
  (process.pool.tasks.map fun task => task.pause.weight).sum + process.loop.weight

theorem attend_weight {ports : Admission.Ports} {datagram : Datagram} (hd : process.due? = some datagram) :
    (process.attend config ports datagram).process.weight < process.weight := by
  have hs := (due?_eq_some hd).1
  simp only [attend, TaskPool.step, called?, weight]
  cases Admission.ofDatagram config ports datagram with
  | error code =>
    simp only [ServerLoop.weight, ServerLoop.received, hs, Option.toList_none, List.append_nil]
    omega
  | ok admission =>
    simp only [ServerLoop.weight, ServerLoop.received, hs, Option.toList_some, List.length_append, List.map_append,
      List.sum_append, List.map_cons, List.map_nil, List.sum_singleton, List.length_singleton,
      ConnectionTask.Pause.weight]
    omega

/-- Once a server is told to stop, each step that changes anything is a step towards the end, unless it is a
datagram that comes in. -/
theorem Stepped.weight (ht : process.told = true) {event : Event} {turn : Turn}
    (h : Stepped config process event turn) :
    turn.process = process ∨ turn.process.weight < process.weight ∨
      (∃ datagram, event = .arrive datagram) ∧ turn.process.weight = process.weight := by
  cases h with
  | idle => exact .inl rfl
  | tell =>
    rw [← ht]
    exact .inl rfl
  | arrive datagram => exact .inr (.inr ⟨⟨datagram, rfl⟩, rfl⟩)
  | receive ports datagram hd => exact .inr (.inl (attend_weight hd))
  | loop hs =>
    rw [ht] at hs
    exact .inr (.inl (Nat.add_lt_add_left hs.weight _))
  | act done hat he =>
    rw [ht] at he
    rw [ServerProcess.act, TaskPool.step_task config hat]
    rcases ConnectionTask.step_weight he process.pool.disk with hsame | hlt
    · obtain ⟨hbound, hget⟩ := List.getElem?_eq_some_iff.mp hat
      rw [hsame, ← hget, List.set_getElem_self]
      exact .inl rfl
    · exact .inr (.inl (Nat.add_lt_add_right (sum_set_lt hat hlt) _))

def Effective (config : ServerConfig) : List Event → ServerProcess → Prop
  | [], _ => True
  | event :: events, process =>
    (process.step config event).process ≠ process ∧ Effective config events (process.step config event).process

inductive Event.Own : Event → Prop where
  | loop (step : ServerLoop.Step) : Own (.loop step)
  | proceed (number : Nat) (link : Link) : Own (.task number (.proceed link))
  | cancel (number : Nat) : Own (.task number .cancel)

theorem effective_bounded (ht : process.told = true) {events : List Event} (h : Effective config events process) :
    events.length + (run config events process).process.weight ≤ process.weight + (arrivals events).length := by
  -- each step takes weight off the server, but for arrivals, which leave it as it is and are counted
  induction events generalizing process with
  | nil => exact Nat.le_of_eq (Nat.add_comm _ _)
  | cons event events ih =>
    obtain ⟨hchanges, hrest⟩ := h
    have hle := ih (step_told ht event) hrest
    have hrun : (run config (event :: events) process).process =
        (run config events (process.step config event).process).process := rfl
    rw [hrun, arrivals_cons, List.length_cons, List.length_append]
    rcases (step_stepped config process event).weight ht with hsame | hlt | ⟨⟨datagram, rfl⟩, heq⟩
    · exact absurd hsame hchanges
    · omega
    · rw [heq] at hle
      simp only [Event.arrival?, Option.toList_some, List.length_singleton]
      omega

theorem effective_of_loop {step : ServerLoop.Step} {next : ServerLoop}
    (h : process.loop.step process.told process.isOver step = some next) (hne : next ≠ process.loop) :
    (process.step config (.loop step)).process ≠ process := by
  rw [step_loop h]
  exact fun heq => hne (congrArg ServerProcess.loop heq)

theorem effective_of_task (hat : process.pool.At number task) {event done : ConnectionTask.Event}
    (he : task.effect? process.told event = some done)
    (hne : (task.step process.pool.disk done).state.2 ≠ task) :
    (process.step config (.task number event)).process ≠ process := by
  intro heq
  have hnext := (step_own config hat he).1
  rw [heq] at hnext
  exact hne (Option.some.inj (hnext.symm.trans hat))

theorem exists_task_step (ht : process.told = true) (hat : process.pool.At number task) (ho : task.isOver = false) :
    ∃ event, event.Own ∧ (process.step config event).process ≠ process := by
  by_cases hf : ∃ failure, task.pause = .failed failure
  · obtain ⟨failure, hp⟩ := hf
    have he : task.effect? process.told (.proceed .connected) = some (.proceed .connected) := by
      rw [ht]
      simp only [ConnectionTask.effect?, hp]
    refine ⟨.task number (.proceed .connected), .proceed number .connected, effective_of_task hat he fun heq => ?_⟩
    have hpause := congrArg ConnectionTask.pause heq
    simp only [ConnectionTask.step, ConnectionTask.proceed, hp] at hpause
    cases hpause
  · have he : task.effect? process.told .cancel = some .cancel := by
      rw [ht]
      cases hp : task.pause <;> simp only [ConnectionTask.effect?, hp]
    refine ⟨.task number .cancel, .cancel number, effective_of_task hat he fun heq => hf ?_⟩
    have hpause := congrArg ConnectionTask.pause heq
    rw [ConnectionTask.step, ConnectionTask.onCancel] at hpause
    split at hpause
    · next failure hp => exact ⟨failure, hp⟩
    · next result hp =>
      rw [ConnectionTask.isOver, hp] at ho
      cases ho
    · exact ⟨.cancelled, hpause.symm⟩

/-- As long as a server that is to stop has not returned, it has something to do. -/
theorem exists_own_step (config : ServerConfig) (hs : process.Sane) (ht : process.told = true)
    (hr : process.loop.stage ≠ .returned) : ∃ event, event.Own ∧ (process.step config event).process ≠ process := by
  have hloop : ∀ step next, process.loop.step process.told process.isOver step = some next → next ≠ process.loop →
      ∃ event, event.Own ∧ (process.step config event).process ≠ process := fun step next h hne =>
    ⟨.loop step, .loop step, effective_of_loop h hne⟩
  cases hstage : process.loop.stage with
  | checking =>
    refine hloop .check { process.loop with stage := .joining } (by simp [ServerLoop.step, hstage, ht]) fun heq => ?_
    rw [← heq] at hstage
    cases hstage
  | selecting | pausing =>
    refine hloop .notice { process.loop with stage := .joining } (by simp [ServerLoop.step, hstage, ht]) fun heq => ?_
    rw [← heq] at hstage
    cases hstage
  | returned => exact absurd hstage hr
  | joining =>
    cases htasks : process.loop.tasks with
    | nil =>
      refine hloop .leave { process.loop with stage := .returned } (by simp [ServerLoop.step, hstage, htasks])
        fun heq => ?_
      rw [← heq] at hstage
      cases hstage
    | cons number tasks =>
      have hmem : number ∈ process.loop.tasks := by rw [htasks]; exact List.mem_cons_self
      obtain ⟨task, hat⟩ : ∃ task, process.pool.At number task :=
        ⟨_, List.getElem?_eq_getElem (hs.live number hmem)⟩
      cases ho : task.isOver with
      | false => exact exists_task_step ht hat ho
      | true =>
        have hover : process.isOver number = true := (isOver_eq hat).trans ho
        refine hloop (.join number) { process.loop with tasks := process.loop.tasks.erase number } ?_ fun heq => ?_
        · simp [ServerLoop.step, hstage, hmem, hover]
        · have hlength := congrArg (fun loop => loop.tasks.length) heq
          have hpos := List.length_pos_of_mem hmem
          simp only [List.length_erase_of_mem hmem] at hlength
          omega

theorem exists_return (config : ServerConfig) (hs : process.Sane) (ht : process.told = true) :
    ∃ events, (∀ event ∈ events, event.Own) ∧ (run config events process).process.loop.stage = .returned := by
  -- a step of its own that changes anything takes weight off the server
  induction hw : process.weight using Nat.strongRecOn generalizing process with
  | _ weight ih =>
    by_cases hr : process.loop.stage = .returned
    · exact ⟨[], by simp, hr⟩
    · obtain ⟨event, hown, hchanges⟩ := exists_own_step config hs ht hr
      have hstepped := step_stepped config process event
      have hlt : (process.step config event).process.weight < weight := by
        rcases hstepped.weight ht with hsame | hlt | ⟨⟨datagram, rfl⟩, -⟩
        · exact absurd hsame hchanges
        · exact hw ▸ hlt
        · cases hown
      obtain ⟨events, howns, hreturns⟩ := ih _ hlt (hstepped.sane hs) (step_told ht event) rfl
      refine ⟨event :: events, fun other hother => ?_, hreturns⟩
      rcases List.mem_cons.mp hother with rfl | hother
      · exact hown
      · exact howns other hother

end ServerProcess

end Tftp
