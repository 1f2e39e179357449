import Tftp.Proofs.ConnectionTask
import Tftp.Proofs.Frame

namespace Tftp.ConnectionTask

/-- The next small steps, and nothing else in between. -/
def drive (link : Link) : Nat → Disk × ConnectionTask → Move (Disk × ConnectionTask)
  | 0, state => { state }
  | steps + 1, state => (state.2.proceed link state.1).andThen (drive link steps)

def Rests (task : ConnectionTask) (connection : Connection) : Prop :=
  match task.pause with
  | .waiting transfer party exchange => connection = {
      state := .running { transfer, party, stage := .waiting exchange }
      file := task.admission.file
      created := task.created }
  | .ended result => connection = {
      state := .ended result
      file := task.admission.file
      created := task.created }
  | _ => False

/-- After this step the small steps come to what the one step of a connection comes to. -/
def Settles (link : Link) (first : Move (Disk × ConnectionTask)) (move : Move (Disk × Connection)) : Prop :=
  ∃ steps task, first.andThen (drive link steps) = { state := (move.state.1, task), sent := move.sent } ∧
    task.Rests move.state.2

variable {link : Link} {disk : Disk} {task : ConnectionTask} {move : Move (Disk × Connection)}

theorem Settles.of_rests {connection : Connection} {sent : List Transmission} (h : task.Rests connection) :
    Settles link { state := (disk, task), sent } { state := (disk, connection), sent } := by
  refine ⟨0, task, ?_, h⟩
  simp only [Move.andThen, drive, List.append_nil]

theorem Settles.of_proceed {disk' : Disk} {task' : ConnectionTask} {sent more : List Transmission}
    (hp : task.proceed link disk = { state := (disk', task'), sent := more })
    (h : Settles link { state := (disk', task'), sent := sent ++ more } move) :
    Settles link { state := (disk, task), sent } move := by
  obtain ⟨steps, last, hd, hr⟩ := h
  refine ⟨steps + 1, last, ?_, hr⟩
  rw [← hd]
  simp only [Move.andThen, drive, hp, List.append_assoc]

theorem Settles.of_rest {disk' : Disk} {task' : ConnectionTask} {sent : List Transmission}
    (hp : task.proceed link disk = { state := (disk', task') })
    (h : Settles link { state := (disk', task'), sent } move) :
    Settles link { state := (disk, task), sent } move := by
  refine Settles.of_proceed hp ?_
  rw [List.append_nil]
  exact h

theorem settles_ofNext (party : Block.Party) (next : Transfer × Stage) (sent : List Transmission)
    (hp : task.pause = .ofNext party next) :
    Settles link { state := (disk, task), sent }
      { state := Connection.settle disk task.admission.file task.created (.ofStage party next), sent } := by
  obtain ⟨transfer, stage⟩ := next
  cases stage with
  | waiting exchange =>
    refine .of_rests ?_
    rw [Rests, hp]
    rfl
  | ended result =>
    cases result with
    | ok done =>
      refine .of_rests ?_
      rw [Rests, hp]
      rfl
    | error failure =>
      have hproceed : task.proceed link disk = { state :=
          (if task.created then disk.remove task.admission.file else disk,
            { task with pause := .ended (.error failure), created := false }) } := by
        rw [proceed, hp]
        rfl
      exact .of_rest hproceed (.of_rests rfl)

theorem settles_acting (task : ConnectionTask) (transfer : Transfer) (party : Block.Party) (action : Block.Action)
    (fresh : Option Bytes) :
    Settles link { state := (disk, { task with pause := .acting transfer party action fresh }) }
      ((Run.start link false transfer party action).map
        (Connection.settle disk task.admission.file task.created)) := by
  refine .of_proceed rfl ?_
  exact settles_ofNext party (Stage.act link false transfer action).state _ rfl

theorem settles_refusing (code : ErrorCode) (hp : task.pause = .refusing code)
    (hc : task.created = false) :
    Settles link { state := (disk, task) } (Connection.refuse disk task.admission code) := by
  have hproceed : task.proceed link disk =
      (task.admission.transfer.failWith code).finish.map fun next =>
        (disk, { task with pause := .ended next.2 }) := by
    rw [proceed, hp]
  refine .of_proceed hproceed (.of_rests ?_)
  simp only [Rests, hc]

theorem settles_ready (transfer : Transfer) (party : Block.Party) (created : Bool)
    (hp : task.pause = .ready transfer party) (hc : task.created = created) :
    Settles link { state := (disk, task) }
      (Connection.begin link disk task.admission transfer created party) := by
  subst hc
  have hproceed : task.proceed link disk =
      { state := (disk, { task with pause := opening disk transfer party }) } := by
    rw [proceed, hp]
    rfl
  refine .of_rest hproceed ?_
  have hstart := (Block.Party.start_kept disk party).1
  rw [Connection.begin, opening]
  cases transfer.options.anyAccepted with
  | true => exact settles_acting task _ _ _ none
  | false =>
    simp only [Bool.false_eq_true, if_false, hstart]
    exact settles_acting task _ _ _ none

theorem settles_opened (mode : Mode) (node : Node) (hp : task.pause = .opened mode node)
    (hc : task.created = false) (hopen : disk.openRead task.admission.file = .ok node) :
    Settles link { state := (disk, task) } (Connection.serveDownload link disk task.admission mode) := by
  have hproceed : task.proceed link disk =
      { state := (disk, { task with pause := task.measure disk mode node }) } := by
    rw [proceed, hp]
    rfl
  refine .of_rest hproceed ?_
  simp only [Connection.serveDownload, hopen, measure]
  cases task.admission.transfer.options.anyAccepted with
  | false => exact settles_ready _ _ false rfl hc
  | true =>
    cases task.admission.sizeRequested with
    | false => exact settles_ready _ _ false rfl hc
    | true =>
      cases disk.size task.admission.file with
      | error fault => exact settles_refusing _ rfl hc
      | ok size => exact settles_ready _ _ false rfl hc

theorem settles_vacant (mode : Mode) (hp : task.pause = .vacant mode) (hc : task.created = false)
    (hw : task.admission.allowWrites = true) (hfree : disk.pathExists task.admission.file = false) :
    Settles link { state := (disk, task) } (Connection.serveUpload link disk task.admission mode) := by
  have hproceed : task.proceed link disk = { state := task.make disk mode } := by
    rw [proceed, hp]
  simp only [Connection.serveUpload, hw, hfree]
  cases hcreate : disk.createNew task.admission.file with
  | error fault =>
    rw [make, hcreate] at hproceed
    exact .of_rest hproceed (settles_refusing _ rfl hc)
  | ok made =>
    obtain ⟨disk', id⟩ := made
    rw [make, hcreate] at hproceed
    exact .of_rest hproceed (settles_ready _ _ true rfl rfl)

/-- A request that is served without a break. -/
theorem serve_settles (link : Link) (disk : Disk) (admission : Admission) :
    Settles link { state := (disk, { admission }) } (Connection.serve link disk admission) := by
  have hproceed : ({ admission } : ConnectionTask).proceed link disk =
      { state := (disk, { admission, pause := look disk { admission } }) } := rfl
  refine .of_rest hproceed ?_
  rw [Connection.serve, look]
  cases hmode : Mode.parse? admission.mode with
  | none => exact settles_refusing _ rfl rfl
  | some mode =>
    cases hdirection : admission.direction with
    | download =>
      cases hopen : disk.openRead admission.file with
      | error fault =>
        simp only [Connection.serveDownload, hopen]
        exact settles_refusing _ rfl rfl
      | ok node => exact settles_opened mode node rfl rfl hopen
    | upload =>
      cases hwrites : admission.allowWrites with
      | false =>
        simp only [Connection.serveUpload, hwrites]
        exact settles_refusing _ rfl rfl
      | true =>
        cases hfree : disk.pathExists admission.file with
        | true =>
          simp only [Connection.serveUpload, hwrites, hfree]
          exact settles_refusing _ rfl rfl
        | false => exact settles_vacant mode rfl rfl hwrites hfree

def concluded (link : Link) (task : ConnectionTask) (transfer : Transfer)
    (next : Disk × Block.Receiver × Block.Action) : Move (Disk × Connection) :=
  (Run.start link false transfer (.receiver next.2.1) next.2.2).map
    (Connection.settle next.1 task.admission.file task.created)

def finished (disk : Disk) (receiver : Block.Receiver) : Disk × Block.Receiver × Block.Action :=
  match receiver.store.finish disk with
  | (disk, store, .error fault) => (disk, { receiver with store }, .fail fault)
  | (disk, store, .ok ()) => (disk, { receiver with store }, .terminate (.ack receiver.current))

theorem accept_eq_finished {written : Disk} {receiver : Block.Receiver} {store : Store} {payload : Bytes}
    (hlong : ¬receiver.blockSize < payload.length) (hshort : payload.length < receiver.blockSize)
    (hw : receiver.store.write disk payload = (written, store, .ok ())) :
    receiver.accept disk payload =
      finished written { receiver with store, current := receiver.current + 1 } := by
  cases hfinish : store.finish written with
  | mk disk rest =>
    obtain ⟨last, result⟩ := rest
    cases result with
    | error fault =>
      simp only [Block.Receiver.accept, if_neg hlong, hw, if_pos hshort, finished, hfinish]
    | ok done =>
      simp only [Block.Receiver.accept, if_neg hlong, hw, if_pos hshort, finished, hfinish]

theorem settles_releasing (transfer : Transfer) (receiver : Block.Receiver) (payload : Bytes)
    (hp : task.pause = .releasing transfer receiver payload) :
    Settles link { state := (disk, task) } (task.concluded link transfer (finished disk receiver)) := by
  have hproceed : task.proceed link disk = task.rest (release disk transfer receiver payload) := by
    rw [proceed, hp]
  rw [finished, Store.finish]
  cases hput : receiver.store.release.1.put disk receiver.store.release.2 with
  | mk written rest =>
    obtain ⟨store, result⟩ := rest
    cases result with
    | error fault =>
      simp only [release, hput] at hproceed ⊢
      exact .of_rest hproceed (settles_acting task _ _ _ none)
    | ok done =>
      simp only [release, hput] at hproceed ⊢
      refine .of_rest hproceed ?_
      have hproceed' :
          ({ task with pause := .flushing transfer { receiver with store } payload } : ConnectionTask).proceed link
            written = task.rest (flush written transfer { receiver with store } payload) := rfl
      cases hflush : store.sink.flush written with
      | mk flushed result =>
        simp only [flush, hflush] at hproceed'
        cases result with
        | error fault => exact .of_rest hproceed' (settles_acting task _ _ _ none)
        | ok done => exact .of_rest hproceed' (settles_acting task _ _ _ (some payload))

theorem settles_storing (transfer : Transfer) (receiver : Block.Receiver) (payload : Bytes)
    (hp : task.pause = .storing transfer receiver payload)
    (hlong : ¬receiver.blockSize < payload.length) :
    Settles link { state := (disk, task) }
      (task.concluded link transfer (receiver.accept disk payload)) := by
  have hproceed : task.proceed link disk = task.rest (store disk transfer receiver payload) := by
    rw [proceed, hp]
  cases hwrite : receiver.store.write disk payload with
  | mk written rest =>
    obtain ⟨store, result⟩ := rest
    cases result with
    | error fault =>
      simp only [ConnectionTask.store, hwrite] at hproceed
      simp only [Block.Receiver.accept, if_neg hlong, hwrite]
      exact .of_rest hproceed (settles_acting task _ _ _ none)
    | ok done =>
      simp only [ConnectionTask.store, hwrite] at hproceed
      by_cases hshort : payload.length < receiver.blockSize
      · rw [if_pos hshort] at hproceed
        rw [accept_eq_finished hlong hshort hwrite]
        exact .of_rest hproceed (settles_releasing _ _ payload rfl)
      · rw [if_neg hshort] at hproceed
        simp only [Block.Receiver.accept, if_neg hlong, hwrite, if_neg hshort]
        exact .of_rest hproceed (settles_acting task _ _ _ (some payload))

theorem onDatagram_settles {connection : Connection} (h : task.Rests connection) (datagram : Datagram) :
    Settles link (task.step disk (.datagram datagram)) (connection.onDatagram link disk datagram) := by
  simp only [step, onDatagram]
  rw [Rests] at h
  split at h
  · next transfer party exchange hp =>
    subst h
    rw [hp]
    cases hread : transfer.session.read datagram with
    | mk session result =>
      simp only [Connection.onDatagram, Run.onDatagram, Run.receive, take, hread, rest]
      cases result with
      | error failure => exact settles_acting task _ _ _ none
      | ok packet =>
        simp only [Run.onPacket]
        cases party with
        | sender sender =>
          simp only [Block.Party.onPacket]
          exact settles_acting task _ _ _ none
        | receiver receiver =>
          simp only [Block.Party.onPacket]
          cases hdue : receiver.due? packet with
          | some payload =>
            obtain ⟨haccept, hlong⟩ := Block.Receiver.onPacket_due disk hdue
            rw [haccept]
            exact settles_storing _ _ payload rfl hlong
          | none =>
            obtain ⟨action, hidle, -⟩ := Block.Receiver.onPacket_idle disk hdue
            rw [hidle]
            exact settles_acting task _ _ _ none
  · next result hp =>
    subst h
    rw [hp]
    refine .of_rests ?_
    rw [Rests, hp]
  · cases h

theorem onTimeout_settles {connection : Connection} (h : task.Rests connection) :
    Settles link (task.step disk (.timeout link)) (connection.onTimeout link disk) := by
  simp only [step, onTimeout]
  rw [Rests] at h
  split at h
  · next transfer party exchange hp =>
    subst h
    rw [hp]
    exact settles_ofNext party (Stage.expire link transfer (.waiting exchange)).state _ rfl
  · next result hp =>
    subst h
    rw [hp]
    refine .of_rests ?_
    rw [Rests, hp]
  · cases h

end Tftp.ConnectionTask
