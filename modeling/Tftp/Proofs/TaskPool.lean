import Tftp.Proofs.ConnectionTaskSafety

namespace Tftp

/-- The connections of a server, which take their steps in any order. Several may be asked for the same file, and any
of them may be given up at any moment. -/
structure TaskPool where
  disk : Disk
  tasks : List ConnectionTask := []

inductive TaskPool.Event where
  | request (ports : Admission.Ports) (datagram : Datagram)
  | task (number : Nat) (event : ConnectionTask.Event)

namespace TaskPool

def Event.number? : Event → Option Nat
  | request .. => none
  | task number _ => some number

def step (config : ServerConfig) (pool : TaskPool) : Event → TaskPool
  | .request ports datagram =>
    match Admission.ofDatagram config ports datagram with
    | .error _ => pool
    | .ok admission => { pool with tasks := pool.tasks ++ [{ admission }] }
  | .task number event =>
    match pool.tasks[number]? with
    | none => pool
    | some task =>
      let (disk, task) := (task.step pool.disk event).state
      { disk, tasks := pool.tasks.set number task }

def run (config : ServerConfig) : List Event → TaskPool → TaskPool
  | [], pool => pool
  | event :: events, pool => run config events (pool.step config event)

def At (pool : TaskPool) (number : Nat) (task : ConnectionTask) : Prop :=
  pool.tasks[number]? = some task

/-- What is kept all along: each connection is sane, and no file is made by two of them. -/
structure Inv (config : ServerConfig) (initial : Disk) (pool : TaskPool) : Prop where
  sound : pool.disk.Sound
  grown : initial.contents.size ≤ pool.disk.contents.size
  old : ∀ id, id < initial.contents.size → Disk.SameFile id initial pool.disk
  owns : ∀ i task, pool.At i task → task.Owns pool.disk
  sane : ∀ i task, pool.At i task → task.Sane pool.disk
  writes : ∀ i task, pool.At i task → task.admission.allowWrites = config.allowWrites
  new : ∀ i task id, pool.At i task → task.made = some id → initial.contents.size ≤ id
  single : ∀ i j task other id, pool.At i task → pool.At j other → task.made = some id →
    other.made = some id → i = j
  origin : ∀ place id, pool.disk.node? place = some (.file id) →
    id < initial.contents.size ∨ ∃ i task, pool.At i task ∧ task.made = some id
  readOnly : config.allowWrites = false → pool.disk = initial

variable {config : ServerConfig} {initial : Disk} {pool : TaskPool}

theorem inv_start (hs : initial.Sound) : Inv config initial { disk := initial } := by
  refine ⟨hs, Nat.le_refl _, fun id _ => Disk.SameFile.refl id initial, ?_, ?_, ?_, ?_, ?_,
    fun place id hn => .inl (hs place id hn), fun _ => rfl⟩
  all_goals simp [At]

theorem writes_of_request {ports : Admission.Ports} {client : Endpoint} {direction : Direction}
    {path mode : String} {fields : List OptionField} {admission : Admission}
    (h : Admission.ofRequest config ports client direction path mode fields = .ok admission) :
    admission.allowWrites = config.allowWrites := by
  simp only [Admission.ofRequest] at h
  split at h
  · cases h
  split at h
  · cases h
  cases h
  rfl

theorem writes_of_datagram {ports : Admission.Ports} {datagram : Datagram} {admission : Admission}
    (h : Admission.ofDatagram config ports datagram = .ok admission) :
    admission.allowWrites = config.allowWrites := by
  simp only [Admission.ofDatagram] at h
  split at h
  · cases h
  next packet hdecode =>
  split at h
  · next admission' hof =>
    cases h
    simp only [Admission.ofPacket] at hof
    split at hof
    · exact writes_of_request hof
    · exact writes_of_request hof
    · cases hof
  · cases h

theorem at_admit {admission : Admission} {i : Nat} {task : ConnectionTask}
    (h : ({ pool with tasks := pool.tasks ++ [{ admission }] } : TaskPool).At i task) :
    pool.At i task ∨ task = { admission } := by
  simp only [At, List.getElem?_append] at h ⊢
  split at h
  · exact .inl h
  · refine .inr ?_
    have hmem := List.mem_of_getElem? h
    exact List.mem_singleton.mp hmem

theorem inv_admit (h : Inv config initial pool) {admission : Admission}
    (hw : admission.allowWrites = config.allowWrites) :
    Inv config initial { pool with tasks := pool.tasks ++ [{ admission }] } := by
  refine ⟨h.sound, h.grown, h.old, fun i task hat => ?_, fun i task hat => ?_, fun i task hat => ?_,
    fun i task id hat hm => ?_, fun i j task other id hi hj hm hm' => ?_, fun place id hn => ?_, h.readOnly⟩
  · rcases at_admit hat with hat | rfl
    · exact h.owns i task hat
    · rfl
  · rcases at_admit hat with hat | rfl
    · exact h.sane i task hat
    · exact ⟨rfl, rfl⟩
  · rcases at_admit hat with hat | rfl
    · exact h.writes i task hat
    · exact hw
  · rcases at_admit hat with hat | rfl
    · exact h.new i task id hat hm
    · cases hm
  · rcases at_admit hi with hi | rfl
    · rcases at_admit hj with hj | rfl
      · exact h.single i j task other id hi hj hm hm'
      · cases hm'
    · cases hm
  · refine (h.origin place id hn).imp_right fun ⟨i, task, hat, hm⟩ => ⟨i, task, ?_, hm⟩
    have hlt := (List.getElem?_eq_some_iff.mp hat).1
    exact (List.getElem?_append_left hlt).trans hat

theorem at_set {disk : Disk} {number i : Nat} {next task : ConnectionTask}
    (h : ({ disk, tasks := pool.tasks.set number next } : TaskPool).At i task) :
    i = number ∧ task = next ∨ i ≠ number ∧ pool.At i task := by
  simp only [At, List.getElem?_set] at h ⊢
  split at h
  · next heq =>
    split at h
    · cases h
      exact .inl ⟨heq.symm, rfl⟩
    · cases h
  · next hne => exact .inr ⟨fun he => hne he.symm, h⟩

theorem step_task (config : ServerConfig) {number : Nat} {task : ConnectionTask} (hat : pool.At number task)
    (event : ConnectionTask.Event) :
    pool.step config (.task number event) = {
      disk := (task.step pool.disk event).state.1
      tasks := pool.tasks.set number (task.step pool.disk event).state.2 } := by
  have hlookup : pool.tasks[number]? = some task := hat
  simp only [step, hlookup]

variable {number : Nat} {task : ConnectionTask} {disk : Disk} {next : ConnectionTask}

/-- What one connection makes, writes or takes away belongs to no other. -/
theorem made_ne (h : Inv config initial pool) (hat : pool.At number task)
    (hs : ConnectionTask.Stepped pool.disk task (disk, next)) {i : Nat} {other : ConnectionTask} (hi : pool.At i other)
    (hne : i ≠ number) (id : FileId) (hm : other.made = some id) : next.made ≠ some id := by
  intro hnext
  rcases hs.made with hsame | ⟨-, hnew⟩
  · exact hne (h.single i number other task id hi hat hm (hsame.symm.trans hnext))
  · have hid : some pool.disk.contents.size = some id := hnew.symm.trans hnext
    have hlt := (h.owns i other hi).valid id hm
    rw [← Option.some.inj hid] at hlt
    exact absurd hlt (Nat.lt_irrefl _)

theorem made_new (h : Inv config initial pool) (hat : pool.At number task)
    (hs : ConnectionTask.Stepped pool.disk task (disk, next)) (id : FileId) (hm : next.made = some id) :
    initial.contents.size ≤ id := by
  rcases hs.made with hsame | ⟨-, hnew⟩
  · exact h.new number task id hat (hsame.symm.trans hm)
  · have hid : some pool.disk.contents.size = some id := hnew.symm.trans hm
    rw [← Option.some.inj hid]
    exact h.grown

theorem inv_set (h : Inv config initial pool) (hat : pool.At number task)
    (hs : ConnectionTask.Stepped pool.disk task (disk, next)) :
    Inv config initial { disk, tasks := pool.tasks.set number next } := by
  have hchanges : Disk.Changes next.made pool.disk disk := hs.changes
  have hadmission : next.admission = task.admission := hs.admission
  have howns : next.Owns disk := hs.owns
  have hlt : number < pool.tasks.length := (List.getElem?_eq_some_iff.mp hat).1
  have hself : ({ disk, tasks := pool.tasks.set number next } : TaskPool).At number next :=
    List.getElem?_set_self hlt
  refine {
    sound := hchanges.sound h.sound
    grown := Nat.le_trans h.grown hchanges.grown
    old := fun id hid => ?old
    owns := fun i other hi => ?owns
    sane := fun i other hi => ?sane
    writes := fun i other hi => ?writes
    new := fun i other id hi hm => ?new
    single := fun i j first second id hi hj hm hm' => ?single
    origin := fun place id hn => ?origin
    readOnly := fun hread => ?readOnly }
  case old =>
    refine (h.old id hid).trans (hchanges.others id (Nat.lt_of_lt_of_le hid h.grown) fun hm => ?_)
    exact absurd hid (Nat.not_lt.mpr (made_new h hat hs id hm))
  case owns =>
    rcases at_set hi with ⟨rfl, rfl⟩ | ⟨hne, hi⟩
    · exact howns
    · exact (h.owns i other hi).kept hchanges (made_ne h hat hs hi hne)
  case sane =>
    rcases at_set hi with ⟨rfl, rfl⟩ | ⟨hne, hi⟩
    · exact hs.sane
    · refine (h.sane i other hi).kept (fun id hm => ?_) hchanges.grown
      exact (hchanges.others id ((h.owns i other hi).valid id hm) (made_ne h hat hs hi hne id hm)).content
  case writes =>
    rcases at_set hi with ⟨rfl, rfl⟩ | ⟨hne, hi⟩
    · rw [hadmission]
      exact h.writes _ task hat
    · exact h.writes i other hi
  case new =>
    rcases at_set hi with ⟨rfl, rfl⟩ | ⟨hne, hi⟩
    · exact made_new h hat hs id hm
    · exact h.new i other id hi hm
  case single =>
    rcases at_set hi with ⟨rfl, rfl⟩ | ⟨hne, hfirst⟩
    · rcases at_set hj with ⟨rfl, rfl⟩ | ⟨hne, hsecond⟩
      · rfl
      · exact absurd hm (made_ne h hat hs hsecond hne id hm')
    · rcases at_set hj with ⟨rfl, rfl⟩ | ⟨-, hsecond⟩
      · exact absurd hm' (made_ne h hat hs hfirst hne id hm)
      · exact h.single i j first second id hfirst hsecond hm hm'
  case origin =>
    rcases hchanges.named place id hn with hn | hm
    · refine (h.origin place id hn).imp_right fun ⟨i, other, hi, hm⟩ => ?_
      by_cases heq : i = number
      · -- what this connection has made it keeps on answering for
        subst heq
        have hsame : other = task := Option.some.inj (hi.symm.trans hat)
        subst hsame
        refine ⟨i, next, hself, ?_⟩
        rcases hs.made with hmade | ⟨hnone, -⟩
        · exact hmade.trans hm
        · rw [hm] at hnone
          cases hnone
      · exact ⟨i, other, (List.getElem?_set_ne (Ne.symm heq)).trans hi, hm⟩
    · exact .inr ⟨number, next, hself, hm⟩
  case readOnly =>
    have hmade : next.made = none := by
      cases hm : next.made with
      | none => rfl
      | some id =>
        have hwrites := howns.writes id hm
        rw [hadmission, h.writes number task hat, hread] at hwrites
        cases hwrites
    rw [hchanges.idle hmade]
    exact h.readOnly hread

theorem inv_step (h : Inv config initial pool) (event : Event) :
    Inv config initial (pool.step config event) := by
  cases event with
  | request ports datagram =>
    simp only [step]
    split
    · exact h
    · next admission hadmission => exact inv_admit h (writes_of_datagram hadmission)
  | task number event =>
    cases hlookup : pool.tasks[number]? with
    | none =>
      simp only [step, hlookup]
      exact h
    | some task =>
      rw [step_task config hlookup event]
      exact inv_set h hlookup (ConnectionTask.step_stepped event h.sound (h.owns _ _ hlookup) (h.sane _ _ hlookup))

theorem inv_run (h : Inv config initial pool) (events : List Event) :
    Inv config initial (run config events pool) := by
  induction events generalizing pool with
  | nil => exact h
  | cons event events ih => exact ih (inv_step h event)

end TaskPool

end Tftp
