import Tftp.Proofs.ServerProcessRuns

namespace Tftp.TaskPool

variable {config : ServerConfig} {initial : Disk} {pool : TaskPool} {task : ConnectionTask}

/-- The files that were there are safe, and every other file is safe with the one connection that has
made it. -/
structure Safe (config : ServerConfig) (initial : Disk) (pool : TaskPool) : Prop where
  old : ∀ place id, initial.node? place = some (.file id) →
    pool.disk.node? place = some (.file id) ∧ pool.disk.content id = initial.content id
  origin : ∀ place id, pool.disk.node? place = some (.file id) →
    initial.node? place = some (.file id) ∨ ∃ i task, pool.At i task ∧ task.made = some id
  single : ∀ i j task other id, pool.At i task → pool.At j other → task.made = some id →
    other.made = some id → i = j
  /-- Only its maker's steps write a file, or give it a name or take it. -/
  alone : ∀ event i task id, pool.At i task → task.made = some id → event.number? ≠ some i →
    Disk.SameFile id pool.disk (pool.step config event).disk
  /-- A file is left by an upload that has gone well, and by nothing else. -/
  left : ∀ i task result, pool.At i task → task.pause = .ended result →
    ((∃ id, task.made = some id ∧ ∃ place, pool.disk.node? place = some (.file id)) ↔
      task.admission.direction = .upload ∧ result = .ok ())
  complete : ∀ i task, pool.At i task → task.pause = .ended (.ok ()) →
    task.admission.direction = .upload → ∃ id mode, task.made = some id ∧
      Mode.parse? task.admission.mode = some mode ∧
      pool.disk.openRead task.admission.file = .ok (.file id) ∧
      (pool.disk.content id).toList = mode.hostForm task.acknowledged.flatten
  readOnly : config.allowWrites = false → pool.disk = initial

theorem left_iff (ho : task.Owns pool.disk) (h : task.Sane pool.disk)
    {result : Except TransferFailure Unit} (hp : task.pause = .ended result) :
    (∃ id, task.made = some id ∧ ∃ place, pool.disk.node? place = some (.file id)) ↔
      task.admission.direction = .upload ∧ result = .ok () := by
  rw [ConnectionTask.Sane, hp] at h
  rw [ConnectionTask.Owns] at ho
  constructor
  · rintro ⟨id, hm, place, hn⟩
    rw [hm] at ho
    obtain ⟨hu, -, -, home, -, -, hnamed⟩ := ho
    refine ⟨hu, ?_⟩
    cases result with
    | ok done => rfl
    | error failure =>
      have hcreated := ((hnamed place).mp hn).2
      rw [show task.created = false from h] at hcreated
      cases hcreated
  · rintro ⟨hu, rfl⟩
    obtain ⟨id, mode, ⟨hm, hcreated, -⟩, -⟩ := h hu
    rw [hm] at ho
    obtain ⟨-, -, -, home, -, -, hnamed⟩ := ho
    exact ⟨id, hm, home, (hnamed home).mpr ⟨rfl, hcreated⟩⟩

theorem completed (ho : task.Owns pool.disk) (h : task.Sane pool.disk)
    (hp : task.pause = .ended (.ok ())) (hu : task.admission.direction = .upload) :
    ∃ id mode, task.made = some id ∧ Mode.parse? task.admission.mode = some mode ∧
      pool.disk.openRead task.admission.file = .ok (.file id) ∧
      (pool.disk.content id).toList = mode.hostForm task.acknowledged.flatten := by
  rw [ConnectionTask.Sane, hp] at h
  obtain ⟨id, mode, ⟨hm, hcreated, hmode⟩, hcontent⟩ := h hu
  rw [ConnectionTask.Owns, hm] at ho
  obtain ⟨-, -, -, home, hname, ha, hnamed⟩ := ho
  exact ⟨id, mode, hm, hmode, Disk.openRead_eq hname ha ((hnamed home).mpr ⟨rfl, hcreated⟩), hcontent⟩

theorem step_alone (h : Inv config initial pool) (event : Event) {i : Nat} {id : FileId}
    (hi : pool.At i task) (hm : task.made = some id) (hne : event.number? ≠ some i) :
    Disk.SameFile id pool.disk (pool.step config event).disk := by
  cases event with
  | request ports datagram =>
    simp only [step]
    split <;> exact Disk.SameFile.refl id pool.disk
  | task number event =>
    cases hlookup : pool.tasks[number]? with
    | none =>
      simp only [step, hlookup]
      exact Disk.SameFile.refl id pool.disk
    | some actor =>
      have hstepped :=
        ConnectionTask.step_stepped event h.sound (h.owns _ _ hlookup) (h.sane _ _ hlookup)
      have hother : i ≠ number := fun he => hne (congrArg some he.symm)
      rw [step_task config hlookup event]
      exact hstepped.changes.others id ((h.owns i task hi).valid id hm)
        (made_ne h hlookup hstepped hi hother id hm)

theorem Inv.safe (h : Inv config initial pool) (hs : initial.Sound) : Safe config initial pool := by
  refine ⟨fun place id hn => ?_, fun place id hn => ?_, h.single, fun event i task id => step_alone h event,
    fun i task result hat => left_iff (h.owns i task hat) (h.sane i task hat),
    fun i task hat => completed (h.owns i task hat) (h.sane i task hat), h.readOnly⟩
  · have hsame := h.old id (hs place id hn)
    exact ⟨(hsame.names place).mpr hn, hsame.content⟩
  · exact (h.origin place id hn).imp_left fun hlt => ((h.old id hlt).names place).mp hn

/-- Whatever requests come in, whatever packets arrive, whatever writes and flushes fail, and in
whatever order the connections take their steps and are given up: the files are safe. The files of a server that
does the work of each event at once are those of such a run. -/
theorem files_safe (config : ServerConfig) (initial : Disk) (hs : initial.Sound) :
    (∀ events, Safe config initial (run config events { disk := initial })) ∧
      ∀ events : List Server.Event,
        let turn := Server.handleAll events initial (Server.settle { config })
        ∃ steps, (run config steps { disk := initial }).Mirrors turn.disk turn.server.connections := by
  refine ⟨fun events => (inv_run (inv_start hs) events).safe hs, fun events => ?_⟩
  obtain ⟨after, ⟨small, hsmall⟩, hsettled⟩ := ServerProcess.start_leads config initial events
  obtain ⟨steps, hsteps⟩ := ServerProcess.run_pool config small (.start initial)
  refine ⟨steps, ?_⟩
  rw [hsmall] at hsteps
  have hpool : after.pool = run config steps { disk := initial } := hsteps
  rw [← hpool]
  exact hsettled.pool

def sharedDisk : Disk where
  nodes := [(["srv"], .directory), (["srv", "old"], .file 0)]
  contents := #[#[1, 2]]
  outlook := [some ⟨1, ⟨.storageFull, "No space left on device"⟩⟩]

def rival (port : UInt16) : Datagram where
  source := { ip := .v4 127 0 0 1, port }
  bytes := (Packet.writeRequest "new" "octet" []).encode

def rivalry : List Event :=
  [.request (fun _ => {}) (rival 40000), .request (fun _ => {}) (rival 40001),
    .task 0 (.proceed .connected), .task 1 (.proceed .connected), .task 1 (.proceed .connected),
    .task 0 (.proceed .connected), .task 0 .cancel, .task 1 (.proceed .unreachable)]

theorem rivalry_safe :
    Safe { root := "/srv" } sharedDisk (run { root := "/srv" } rivalry { disk := sharedDisk }) ∧
      (run { root := "/srv" } rivalry { disk := sharedDisk }).disk.content 0 = #[1, 2] := by
  have hsound : sharedDisk.Sound := by
    intro place id hn
    simp only [Disk.node?, sharedDisk, List.lookup_cons, List.lookup_nil] at hn
    split at hn
    · cases hn
    split at hn
    · cases hn
    split at hn
    · cases hn
      decide
    · cases hn
  have hsafe := (files_safe { root := "/srv" } sharedDisk hsound).1 rivalry
  exact ⟨hsafe, (hsafe.old ["srv", "old"] 0 rfl).2⟩

end Tftp.TaskPool
