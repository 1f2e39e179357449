import Tftp.Proofs.ConnectionTask
import Tftp.Proofs.FileChanges
import Tftp.Proofs.StepEffect

namespace Tftp

theorem StepEffect.not_waits_terminate (packet : Packet) :
    ¬(Block.Action.terminate packet = .listen ∨ ∃ sent, Block.Action.terminate packet = .send sent) := by
  rintro (h | ⟨sent, h⟩) <;> cases h

theorem StepEffect.not_waits_close (reason : Option String) :
    ¬(Block.Action.close reason = .listen ∨ ∃ sent, Block.Action.close reason = .send sent) := by
  rintro (h | ⟨sent, h⟩) <;> cases h

theorem Sink.Stores.kept {before after : Disk} {bytes : Bytes} {sink : Sink} {id : FileId}
    (h : sink.Stores before bytes) (hf : sink.file? = some id)
    (hc : after.content id = before.content id) (hs : before.contents.size ≤ after.contents.size) :
    sink.Stores after bytes := by
  cases sink with
  | memory m => cases hf
  | file k offset =>
    cases hf
    obtain ⟨hi, hb, ho⟩ := h
    exact ⟨Nat.lt_of_lt_of_le hi hs, by rw [hc, hb], ho⟩

namespace ConnectionTask

structure Made (disk : Disk) (admission : Admission) (created : Bool) (id : FileId) : Prop where
  upload : admission.direction = .upload
  writes : admission.allowWrites = true
  valid : id < disk.contents.size
  named : ∃ place, disk.Names admission.file place ∧ disk.access place = .ok () ∧
    ∀ p, disk.node? p = some (.file id) ↔ p = place ∧ created = true

/-- A connection answers for the file that it has made, as long as the file is there. -/
def Owns (disk : Disk) (task : ConnectionTask) : Prop :=
  match task.made with
  | none => task.created = false
  | some id => Made disk task.admission task.created id

def Fills (mode : Mode) (id : FileId) (task : ConnectionTask) : Prop :=
  task.made = some id ∧ task.created = true ∧ Mode.parse? task.admission.mode = some mode

/-- A party at work. What has arrived is in the file, but for a CR held back. -/
def Keeps (disk : Disk) (arrived : Bytes) (party : Block.Party) (task : ConnectionTask) : Prop :=
  match party with
  | .sender _ => task.admission.direction = .download
  | .receiver receiver => ∃ id mode, task.Fills mode id ∧ receiver.store.sink.file? = some id ∧
      receiver.store.Stores disk mode arrived

def Completes (disk : Disk) (arrived : Bytes) (task : ConnectionTask) : Prop :=
  task.admission.direction = .upload →
    ∃ id mode, task.Fills mode id ∧ (disk.content id).toList = mode.hostForm arrived

def Fresh (task : ConnectionTask) : Prop :=
  task.made = none ∧ task.acknowledged = []

/-- What holds of a connection wherever it pauses. -/
def Sane (disk : Disk) (task : ConnectionTask) : Prop :=
  match task.pause with
  | .admitted | .refusing _ => task.Fresh
  | .vacant mode => task.Fresh ∧ task.admission.direction = .upload ∧
      task.admission.allowWrites = true ∧ Mode.parse? task.admission.mode = some mode
  | .opened _ _ => task.Fresh ∧ task.admission.direction = .download
  | .ready _ party => task.acknowledged = [] ∧ task.Keeps disk [] party
  | .waiting _ party _ => task.Keeps disk task.acknowledged.flatten party
  | .storing _ receiver _ => task.Keeps disk task.acknowledged.flatten (.receiver receiver)
  | .releasing _ receiver payload =>
      task.Keeps disk (task.acknowledged.flatten ++ payload) (.receiver receiver)
  | .flushing _ receiver payload => ∃ id mode, task.Fills mode id ∧ receiver.store.sink.file? = some id ∧
      receiver.store.sink.Stores disk (mode.hostForm (task.acknowledged.flatten ++ payload))
  | .acting _ party action fresh =>
      ((action = .listen ∨ ∃ packet, action = .send packet) →
        task.Keeps disk (task.acknowledged ++ fresh.toList).flatten party) ∧
      (StepEffect.Succeeds action → task.Completes disk (task.acknowledged ++ fresh.toList).flatten)
  | .failed _ => True
  | .ended (.ok ()) => task.Completes disk task.acknowledged.flatten
  | .ended (.error _) => task.created = false

section Others

variable {before after : Disk} {task : ConnectionTask}

theorem Owns.valid {disk : Disk} (h : task.Owns disk) (id : FileId) (hm : task.made = some id) :
    id < disk.contents.size := by
  rw [Owns, hm] at h
  exact h.valid

theorem Owns.writes {disk : Disk} (h : task.Owns disk) (id : FileId) (hm : task.made = some id) :
    task.admission.allowWrites = true := by
  rw [Owns, hm] at h
  exact h.writes

theorem Owns.kept {own : Option FileId} (h : task.Owns before) (hc : Disk.Changes own before after)
    (hne : ∀ id, task.made = some id → own ≠ some id) : task.Owns after := by
  rw [Owns] at h ⊢
  cases hm : task.made with
  | none => rwa [hm] at h
  | some id =>
    rw [hm] at h
    obtain ⟨hu, hw, hv, place, hname, ha, hnamed⟩ := h
    have hsame := hc.others id hv (hne id hm)
    refine ⟨hu, hw, Nat.lt_of_lt_of_le hv hc.grown, place, hname.sameTree hc.tree,
      (Disk.access_congr hc.barred place).trans ha, fun p => ?_⟩
    rw [hsame.names]
    exact hnamed p

variable (hs : ∀ id, task.made = some id → after.content id = before.content id)
  (hg : before.contents.size ≤ after.contents.size)

include hs hg

theorem Keeps.kept {arrived : Bytes} {party : Block.Party} (h : task.Keeps before arrived party) :
    task.Keeps after arrived party := by
  cases party with
  | sender s => exact h
  | receiver r =>
    obtain ⟨id, mode, hfills, hfile, hd, hsink⟩ := h
    exact ⟨id, mode, hfills, hfile, hd, hsink.kept hfile (hs id hfills.1) hg⟩

omit hg in
theorem Completes.kept {arrived : Bytes} (h : task.Completes before arrived) :
    task.Completes after arrived := by
  intro hu
  obtain ⟨id, mode, hfills, hcontent⟩ := h hu
  refine ⟨id, mode, hfills, ?_⟩
  rw [hs id hfills.1]
  exact hcontent

theorem Sane.kept (h : task.Sane before) : task.Sane after := by
  rw [Sane] at h ⊢
  cases hp : task.pause with
  | admitted | refusing code | vacant mode | opened mode node | failed failure =>
    rw [hp] at h
    exact h
  | ready transfer party =>
    rw [hp] at h
    exact ⟨h.1, h.2.kept hs hg⟩
  | waiting transfer party exchange =>
    rw [hp] at h
    exact Keeps.kept hs hg h
  | storing transfer receiver payload | releasing transfer receiver payload =>
    rw [hp] at h
    exact Keeps.kept hs hg h
  | flushing transfer receiver payload =>
    rw [hp] at h
    obtain ⟨id, mode, hfills, hfile, hsink⟩ := h
    exact ⟨id, mode, hfills, hfile, hsink.kept hfile (hs id hfills.1) hg⟩
  | acting transfer party action fresh =>
    rw [hp] at h
    exact ⟨fun hc => (h.1 hc).kept hs hg, fun hok => (h.2 hok).kept hs⟩
  | ended result =>
    rw [hp] at h
    cases result with
    | ok done => exact Completes.kept hs h
    | error failure => exact h

end Others

/-- What one step of a connection makes of the files and of itself. -/
structure Stepped (disk : Disk) (task : ConnectionTask) (next : Disk × ConnectionTask) : Prop where
  admission : next.2.admission = task.admission
  changes : Disk.Changes next.2.made disk next.1
  made : next.2.made = task.made ∨ task.made = none ∧ next.2.made = some disk.contents.size
  owns : next.2.Owns next.1
  sane : next.2.Sane next.1

variable {disk : Disk} {task : ConnectionTask}

theorem Stepped.of_pause (ho : task.Owns disk) (pause : Pause) (acknowledged : List Bytes)
    (h : Sane disk { task with pause, acknowledged }) :
    Stepped disk task (disk, { task with pause, acknowledged }) :=
  ⟨rfl, .refl disk task.made ho.valid, .inl rfl, ho, h⟩

theorem Stepped.stay (ho : task.Owns disk) (h : task.Sane disk) : Stepped disk task (disk, task) :=
  .of_pause ho task.pause task.acknowledged h

theorem Stepped.of_write {disk' : Disk} {id : FileId} (ho : task.Owns disk) (hm : task.made = some id)
    (hk : Disk.KeptFor (some id) disk disk') (pause : Pause)
    (h : Sane disk' { task with pause }) : Stepped disk task (disk', { task with pause }) := by
  have hc := Disk.Changes.of_keptBut hk (ho.valid id hm)
  have hnode : ∀ p, disk'.node? p = disk.node? p := fun p => by simp only [Disk.node?, hk.nodes]
  refine ⟨rfl, hm ▸ hc, .inl rfl, ?_, h⟩
  rw [Owns, hm] at ho
  rw [Owns]
  simp only [hm]
  obtain ⟨hu, hw, hv, place, hname, ha, hnamed⟩ := ho
  refine ⟨hu, hw, Nat.lt_of_lt_of_le hv hc.grown, place, hname.sameTree hc.tree,
    (Disk.access_congr hc.barred place).trans ha, fun p => ?_⟩
  rw [hnode]
  exact hnamed p

theorem look_sane (h : task.Fresh) : Sane disk { task with pause := task.look disk } := by
  rw [look]
  split
  · exact h
  next mode hmode =>
  split
  · next hdirection =>
    split
    · exact h
    · exact ⟨h, hdirection⟩
  · next hdirection =>
    split
    · exact h
    next hwrites =>
    split
    · exact h
    · exact ⟨h, hdirection, by simpa using hwrites, hmode⟩

theorem measure_sane (h : task.Fresh) (hd : task.admission.direction = .download) (mode : Mode) (node : Node) :
    Sane disk { task with pause := task.measure disk mode node } := by
  rw [measure]
  split
  · split
    · split
      · exact h
      · exact ⟨h.2, hd⟩
    · exact ⟨h.2, hd⟩
  · exact ⟨h.2, hd⟩

theorem Keeps.acts_sender {sender next : Block.Sender} {arrived : Bytes} (h : task.Keeps disk arrived (.sender sender))
    (transfer : Transfer) (action : Block.Action) (fresh : Option Bytes) :
    Sane disk { task with pause := .acting transfer (.sender next) action fresh } := by
  have hd : task.admission.direction = .download := h
  refine ⟨fun _ => hd, fun _ hu => ?_⟩
  have hup : task.admission.direction = .upload := hu
  rw [hd] at hup
  cases hup

theorem Keeps.acts_send {party : Block.Party} (h : task.Keeps disk task.acknowledged.flatten party)
    (transfer : Transfer) (packet : Packet) :
    Sane disk { task with pause := .acting transfer party (.send packet) none } := by
  refine ⟨fun _ => ?_, fun hok => ?_⟩
  · rw [Option.toList_none, List.append_nil]
    exact h
  · exact absurd hok (StepEffect.not_succeeds_send packet)

theorem acts_error (transfer : Transfer) (party : Block.Party) (code : ErrorCode) (message : String) :
    Sane disk { task with pause := .acting transfer party (.terminate (.error code message)) none } :=
  ⟨fun h => absurd h (StepEffect.not_waits_terminate _),
    fun h => absurd h (StepEffect.not_succeeds_error code message)⟩

theorem acts_peerError (transfer : Transfer) (party : Block.Party) (code : ErrorCode) (message : String) :
    Sane disk { task with pause := .acting transfer party (.peerError code message) none } :=
  ⟨fun h => absurd h (StepEffect.not_waits_close _), fun h => absurd h (StepEffect.not_succeeds_close _)⟩

theorem opening_sane (transfer : Transfer) (party : Block.Party) (h : task.Keeps disk [] party)
    (ha : task.acknowledged = []) : Sane disk { task with pause := opening disk transfer party } := by
  have hkeeps : task.Keeps disk task.acknowledged.flatten party := by
    rw [ha]
    exact h
  rw [opening]
  cases transfer.options.anyAccepted with
  | true => exact hkeeps.acts_send _ _
  | false =>
    cases party with
    | sender s => exact h.acts_sender _ _ none
    | receiver r => exact hkeeps.acts_send _ _

theorem make_stepped (hs : disk.Sound) (mode : Mode) (hfresh : task.Fresh) (ho : task.Owns disk)
    (hu : task.admission.direction = .upload) (hw : task.admission.allowWrites = true)
    (hm : Mode.parse? task.admission.mode = some mode) : Stepped disk task (task.make disk mode) := by
  cases hcreate : disk.createNew task.admission.file with
  | error fault =>
    simp only [make, hcreate]
    exact .of_pause ho _ task.acknowledged hfresh
  | ok made =>
    obtain ⟨place, hname, ha, hvacant, rfl⟩ := Disk.createNew_ok hcreate
    have hmade := Disk.made_addFile ha hvacant
    have hnamed : ∀ p, (disk.addFile place).1.node? p = some (.file disk.contents.size) ↔
        p = place ∧ true = true := by
      intro p
      rw [Disk.node?_addFile_new hs hvacant]
      simp
    simp only [make, hcreate]
    refine ⟨rfl, .of_addFile hvacant, .inr ⟨hfresh.1, rfl⟩,
      ⟨hu, hw, hmade.valid, place, hname.sameTree hmade.tree, ha, hnamed⟩, hfresh.2, ?_⟩
    refine ⟨disk.contents.size, mode, ⟨rfl, rfl, hm⟩, ?_, Store.stores_ofMode mode hmade.stores⟩
    rw [Store.ofMode_sink]
    rfl

theorem store_stepped (transfer : Transfer) (receiver : Block.Receiver) (payload : Bytes) (ho : task.Owns disk)
    (h : task.Keeps disk task.acknowledged.flatten (.receiver receiver)) :
    Stepped disk task (task.rest (store disk transfer receiver payload)).state := by
  obtain ⟨id, mode, hfills, hfile, hstores⟩ := h
  obtain ⟨hkept, hfile'⟩ := Store.write_kept disk payload receiver.store
  rw [hfile] at hkept hfile'
  cases hwrite : receiver.store.write disk payload with
  | mk written rest =>
    obtain ⟨store', result⟩ := rest
    rw [hwrite] at hkept hfile'
    simp only [ConnectionTask.rest, store, hwrite]
    cases result with
    | error fault =>
      exact .of_write ho hfills.1 hkept _ (acts_error _ _ _ _)
    | ok done =>
      have hstores' := Store.write_stores hstores hwrite
      by_cases hshort : payload.length < receiver.blockSize
      · simp only [if_pos hshort]
        exact .of_write ho hfills.1 hkept _ ⟨id, mode, hfills, hfile', hstores'⟩
      · simp only [if_neg hshort]
        refine .of_write ho hfills.1 hkept _ ⟨fun _ => ⟨id, mode, hfills, hfile', ?_⟩, fun hok => ?_⟩
        · simpa using hstores'
        · exact absurd hok (StepEffect.not_succeeds_send _)

theorem release_stepped (transfer : Transfer) (receiver : Block.Receiver) (payload : Bytes) (ho : task.Owns disk)
    (h : task.Keeps disk (task.acknowledged.flatten ++ payload) (.receiver receiver)) :
    Stepped disk task (task.rest (release disk transfer receiver payload)).state := by
  obtain ⟨id, mode, hfills, hfile, hstores⟩ := h
  obtain ⟨hkept, hfile'⟩ := Store.put_kept disk receiver.store.release.2 receiver.store.release.1
  rw [Store.release_sink, hfile] at hkept hfile'
  cases hput : receiver.store.release.1.put disk receiver.store.release.2 with
  | mk written rest =>
    obtain ⟨store', result⟩ := rest
    rw [hput] at hkept hfile'
    simp only [ConnectionTask.rest, release, hput]
    cases result with
    | error fault =>
      exact .of_write ho hfills.1 hkept _ (acts_error _ _ _ _)
    | ok done =>
      exact .of_write ho hfills.1 hkept _ ⟨id, mode, hfills, hfile', Store.release_stores hstores hput⟩

theorem flush_stepped (transfer : Transfer) (receiver : Block.Receiver) (payload : Bytes) (ho : task.Owns disk)
    (h : ∃ id mode, task.Fills mode id ∧ receiver.store.sink.file? = some id ∧
      receiver.store.sink.Stores disk (mode.hostForm (task.acknowledged.flatten ++ payload))) :
    Stepped disk task (task.rest (flush disk transfer receiver payload)).state := by
  obtain ⟨id, mode, hfills, hfile, hstores⟩ := h
  have hkept := Sink.flush_kept disk receiver.store.sink
  have hstores' := Sink.flush_stores hstores
  rw [hfile] at hkept
  cases hflush : receiver.store.sink.flush disk with
  | mk flushed result =>
    rw [hflush] at hkept hstores'
    simp only [ConnectionTask.rest, flush, hflush]
    cases result with
    | error fault =>
      exact .of_write ho hfills.1 hkept _ (acts_error _ _ _ _)
    | ok done =>
      refine .of_write ho hfills.1 hkept _ ⟨fun hgo => absurd hgo (StepEffect.not_waits_terminate _),
        fun _ _ => ⟨id, mode, hfills, ?_⟩⟩
      rw [hstores'.content_of_file hfile]
      simp

theorem failed_stepped (failure : TransferFailure) (ho : task.Owns disk) :
    Stepped disk task (if task.created then disk.remove task.admission.file else disk,
      { task with pause := .ended (.error failure), created := false }) := by
  have hmade := ho
  rw [Owns] at hmade
  cases hc : task.created with
  | false =>
    have howns : Owns disk { task with pause := .ended (.error failure), created := false } := by
      rw [Owns, hc] at ho
      exact ho
    exact ⟨rfl, .refl disk task.made ho.valid, .inl rfl, howns, rfl⟩
  | true =>
    cases hm : task.made with
    | none =>
      rw [hm, hc] at hmade
      cases hmade
    | some id =>
      rw [hm] at hmade
      obtain ⟨hu, hw, hv, place, hname, ha, hnamed⟩ := hmade
      have hplace : ∀ p, disk.node? p = some (.file id) ↔ p = place := by
        intro p
        rw [hnamed, hc]
        simp
      obtain ⟨hremove, hgone⟩ := Disk.remove_named hname hplace
      have hchanges := Disk.Changes.of_removeNode ((hplace place).mpr rfl) hv
      simp only [if_true, hremove]
      refine ⟨rfl, hchanges, .inl hm.symm,
        ⟨hu, hw, hv, place, hname.sameTree hchanges.tree, ha, fun p => ?_⟩, rfl⟩
      refine ⟨fun hp => absurd hp (hgone p), fun hp => ?_⟩
      cases hp.2

theorem act_stepped (link : Link) (transfer : Transfer) (party : Block.Party) (action : Block.Action)
    (fresh : Option Bytes) (ho : task.Owns disk)
    (hkeeps : (action = .listen ∨ ∃ packet, action = .send packet) →
      task.Keeps disk (task.acknowledged ++ fresh.toList).flatten party)
    (hcompletes : StepEffect.Succeeds action →
      task.Completes disk (task.acknowledged ++ fresh.toList).flatten) :
    Stepped disk task (disk, { task with
      pause := .ofNext party (Stage.act link false transfer action).state
      acknowledged := task.acknowledged ++ fresh.toList }) := by
  refine .of_pause ho _ _ ?_
  have hwaits := @StepEffect.waits_act link false transfer action
  have hsuccess := (StepEffect.of_act link transfer action).success
  generalize (Stage.act link false transfer action).state = next at hwaits hsuccess
  obtain ⟨last, stage⟩ := next
  cases stage with
  | waiting exchange => exact hkeeps (hwaits rfl)
  | ended result =>
    cases result with
    | ok done => exact hcompletes (hsuccess rfl)
    | error failure => trivial

theorem take_sane (datagram : Datagram) (transfer : Transfer) (party : Block.Party)
    (h : task.Keeps disk task.acknowledged.flatten party) :
    Sane disk { task with pause := take disk datagram transfer party } := by
  cases hread : transfer.session.read datagram with
  | mk session result =>
    simp only [take, hread]
    cases result with
    | error failure => exact acts_error _ _ _ _
    | ok packet =>
      cases party with
      | sender s => exact h.acts_sender _ _ none
      | receiver r =>
        simp only [Block.Party.onPacket]
        cases hdue : r.due? packet with
        | some payload => exact h
        | none =>
          obtain ⟨action, hidle, rfl | rfl | ⟨code, message, rfl⟩⟩ := Block.Receiver.onPacket_idle disk hdue
          · rw [hidle]
            exact h.acts_send _ _
          · rw [hidle]
            exact acts_error _ _ _ _
          · rw [hidle]
            exact acts_peerError _ _ _ _

theorem onTimeout_stepped (link : Link) (ho : task.Owns disk) (h : task.Sane disk) :
    Stepped disk task (task.onTimeout link disk).state := by
  rw [onTimeout]
  split
  · next transfer party exchange hp =>
    rw [Sane, hp] at h
    refine .of_pause ho _ task.acknowledged ?_
    have hsuccess := (StepEffect.of_expire link transfer (.waiting exchange)).success
    generalize (Stage.expire link transfer (.waiting exchange)).state = next at hsuccess
    obtain ⟨last, stage⟩ := next
    cases stage with
    | waiting exchange => exact h
    | ended result =>
      cases result with
      | ok done => cases hsuccess rfl
      | error failure => trivial
  · exact .stay ho h

theorem refusing_sane (code : ErrorCode) (h : task.Fresh) (ho : task.Owns disk) :
    Sane disk { task with pause := .ended (task.admission.transfer.failWith code).finish.state.2 } := by
  rw [Owns, h.1] at ho
  exact ho

theorem proceed_stepped (link : Link) (hs : disk.Sound) (ho : task.Owns disk) (h : task.Sane disk) :
    Stepped disk task (task.proceed link disk).state := by
  have hsane := h
  rw [Sane] at h
  cases hp : task.pause with
  | admitted =>
    rw [hp] at h
    simp only [proceed, hp]
    exact .of_pause ho _ task.acknowledged (look_sane h)
  | refusing code =>
    rw [hp] at h
    simp only [proceed, hp]
    exact .of_pause ho _ task.acknowledged (refusing_sane code h ho)
  | vacant mode =>
    -- the only step that makes a file
    rw [hp] at h
    obtain ⟨hfresh, hu, hw, hm⟩ := h
    simp only [proceed, hp]
    exact make_stepped hs mode hfresh ho hu hw hm
  | opened mode node =>
    rw [hp] at h
    simp only [proceed, hp]
    exact .of_pause ho _ task.acknowledged (measure_sane h.1 h.2 mode node)
  | ready transfer party =>
    rw [hp] at h
    simp only [proceed, hp]
    exact .of_pause ho _ task.acknowledged (opening_sane transfer party h.2 h.1)
  | storing transfer receiver payload =>
    rw [hp] at h
    simp only [proceed, hp]
    exact store_stepped transfer receiver payload ho h
  | releasing transfer receiver payload =>
    rw [hp] at h
    simp only [proceed, hp]
    exact release_stepped transfer receiver payload ho h
  | flushing transfer receiver payload =>
    rw [hp] at h
    simp only [proceed, hp]
    exact flush_stepped transfer receiver payload ho h
  | acting transfer party action fresh =>
    rw [hp] at h
    simp only [proceed, hp]
    exact act_stepped link transfer party action fresh ho h.1 h.2
  | failed failure =>
    simp only [proceed, hp]
    exact failed_stepped failure ho
  | waiting transfer party exchange | ended result =>
    simp only [proceed, hp]
    exact .stay ho hsane

/-- No step harms a file of somebody else, and each keeps its own in order. -/
theorem step_stepped (event : Event) (hs : disk.Sound) (ho : task.Owns disk) (h : task.Sane disk) :
    Stepped disk task (task.step disk event).state := by
  cases event with
  | proceed link => exact proceed_stepped link hs ho h
  | timeout link => exact onTimeout_stepped link ho h
  | datagram datagram =>
    rw [step, onDatagram]
    split
    · next transfer party exchange hp =>
      rw [Sane, hp] at h
      exact .of_pause ho _ task.acknowledged (take_sane datagram transfer party h)
    · exact .stay ho h
  | cancel =>
    rw [step, onCancel]
    split
    · exact .stay ho h
    · exact .stay ho h
    · exact .of_pause ho (.failed .cancelled) task.acknowledged trivial

end ConnectionTask

end Tftp
