import Tftp.Proofs.Blocks
import Tftp.Proofs.Dispatch
import Tftp.Proofs.ConnectionTaskRuns
import Tftp.Proofs.Offers
import Tftp.Proofs.Terms

namespace Tftp

open Letter

/-- What a connection sees of the files, in the order in which it looks. -/
structure Views where
  looked : Disk
  tried : Disk
  read : Disk

def Views.amid (first second third : Disk → Disk) (disk : Disk) : Views where
  looked := first disk
  tried := second (first disk)
  read := third (second (first disk))

namespace Request

structure Opens (request : Request) (views : Views) (mode : Mode) (node : Node) : Prop where
  mode : SameName request.mode mode.name
  direction : request.direction = .download
  opened : views.looked.openRead request.file = .ok node

structure Invites (request : Request) (views : Views) (mode : Mode) : Prop where
  mode : SameName request.mode mode.name
  direction : request.direction = .upload
  writable : request.writable = true
  free : views.looked.pathExists request.file = false

structure Makes (request : Request) (views : Views) (mode : Mode) : Prop extends Invites request views mode where
  made : ∃ disk id, views.tried.createNew request.file = .ok (disk, id)

/-- The packet that a connection sends first. -/
inductive FirstReply (request : Request) (views : Views) : Packet → Prop where
  | foreign (hm : ∀ mode : Mode, ¬SameName request.mode mode.name) :
    FirstReply request views (.standardError .illegalOperation)
  | unopened {mode : Mode} {fault : Fault} (hm : SameName request.mode mode.name)
    (hd : request.direction = .download) (ho : views.looked.openRead request.file = .error fault)
    (hc : ErrorCode.ofFault fault.kind ≠ .undefined) :
    FirstReply request views (.standardError (.ofFault fault.kind))
  | unfound {mode : Mode} {fault : Fault} (hm : SameName request.mode mode.name)
    (hd : request.direction = .download) (ho : views.looked.openRead request.file = .error fault)
    (hc : ErrorCode.ofFault fault.kind = .undefined) :
    FirstReply request views (.standardError .fileNotFound)
  | readOnly {mode : Mode} (hm : SameName request.mode mode.name) (hd : request.direction = .upload)
    (hw : request.writable = false) :
    FirstReply request views (.standardError .accessViolation)
  | taken {mode : Mode} (hm : SameName request.mode mode.name) (hd : request.direction = .upload)
    (hw : request.writable = true) (he : views.looked.pathExists request.file = true) :
    FirstReply request views (.standardError .fileAlreadyExists)
  /-- Someone else was faster. -/
  | outrun {mode : Mode} {fault : Fault} (hi : request.Invites views mode)
    (hc : views.tried.createNew request.file = .error fault) (hk : fault.kind = .alreadyExists) :
    FirstReply request views (.standardError .fileAlreadyExists)
  | unmade {mode : Mode} {fault : Fault} (hi : request.Invites views mode)
    (hc : views.tried.createNew request.file = .error fault) (hk : fault.kind ≠ .alreadyExists) :
    FirstReply request views (.standardError .accessViolation)
  /-- The client is to be told a size that cannot be found out. -/
  | unmeasured {mode : Mode} {node : Node} {fault : Fault} (ho : request.Opens views mode node)
    (ha : request.Accepts) (hn : request.Names "tsize") (hs : views.tried.size request.file = .error fault) :
    FirstReply request views (.standardError .fileNotFound)
  | offered {mode : Mode} {offer : List OptionField}
    (hs : (∃ node, request.Opens views mode node) ∨ request.Makes views mode) (ha : request.Accepts)
    (ho : request.Offers views.tried offer) :
    FirstReply request views (.optionAck offer)
  | block {mode : Mode} {id : FileId} (ho : request.Opens views mode (.file id)) (ha : ¬request.Accepts) :
    FirstReply request views (.data 1 ((mode.wireForm (views.read.content id).toList).take 512))
  | unread {mode : Mode} {node : Node} {fault : Fault} (ho : request.Opens views mode node)
    (ha : ¬request.Accepts) (hr : ((Source.ofNode node).read views.read 512).2 = .error fault) :
    FirstReply request views (.standardError (.ofFault fault.kind))
  | ready {mode : Mode} (hm : request.Makes views mode) (ha : ¬request.Accepts) :
    FirstReply request views (.ack 0)

/-- These packets are sent to the client, and the first of them is the one that it should be. -/
structure Answered (request : Request) (views : Views) (client : Endpoint) (sent : List Transmission) : Prop where
  speaks : ∃ packet, sent.head? = some ⟨client, packet⟩
  first : ∀ packet, sent.head? = some ⟨client, packet⟩ ↔ request.FirstReply views packet

structure Reaches (request : Request) (client : Endpoint) (admission : Admission) : Prop
    extends admission.Keeps client request.direction request.fields where
  file : admission.file = request.file
  mode : admission.mode = request.mode
  writable : admission.allowWrites = request.writable

end Request

theorem Mode.parse?_eq_some_iff {text : String} {mode : Mode} :
    Mode.parse? text = some mode ↔ SameName text mode.name := by
  have hapart : ¬SameName netascii.name octet.name := by decide
  rw [parse?]
  split
  · next hn =>
    cases mode with
    | netascii => exact ⟨fun _ => hn, fun _ => rfl⟩
    | octet => exact ⟨nofun, fun ho => absurd (hn.symm.trans ho) hapart⟩
  · next hn =>
    split
    · next ho =>
      cases mode with
      | netascii => exact ⟨nofun, fun h => absurd h hn⟩
      | octet => exact ⟨fun _ => ho, fun _ => rfl⟩
    · next ho =>
      cases mode with
      | netascii => exact ⟨nofun, fun h => absurd h hn⟩
      | octet => exact ⟨nofun, fun h => absurd h ho⟩

theorem Mode.parse?_eq_none_iff {text : String} :
    Mode.parse? text = none ↔ ∀ mode : Mode, ¬SameName text mode.name := by
  simp only [← parse?_eq_some_iff, Option.eq_none_iff_forall_ne_some, ne_eq]

namespace Request

variable {request : Request} {views : Views} {mode : Mode}

theorem firstReply_offered (hs : (∃ node, request.Opens views mode node) ∨ request.Makes views mode)
    (ha : request.Accepts) : ∃ packet, request.FirstReply views packet := by
  by_cases hn : request.direction = .download ∧ request.Names "tsize"
  · cases hsize : views.tried.size request.file with
    | ok size => exact ⟨_, .offered hs ha (offers_sized hn.1 hn.2 hsize)⟩
    | error fault =>
      rcases hs with ⟨node, ho⟩ | hm
      · exact ⟨_, .unmeasured ho ha hn.2 hsize⟩
      · rw [hm.direction] at hn
        cases hn.1
  · exact ⟨_, .offered hs ha (offers_validated (not_and.mp hn))⟩

theorem firstReply_download (hm : SameName request.mode mode.name) (hd : request.direction = .download) :
    ∃ packet, request.FirstReply views packet := by
  cases ho : views.looked.openRead request.file with
  | error fault =>
    by_cases hc : ErrorCode.ofFault fault.kind = .undefined
    · exact ⟨_, .unfound hm hd ho hc⟩
    · exact ⟨_, .unopened hm hd ho hc⟩
  | ok node =>
    by_cases ha : request.Accepts
    · exact firstReply_offered (.inl ⟨node, hm, hd, ho⟩) ha
    cases node with
    | file id => exact ⟨_, .block ⟨hm, hd, ho⟩ ha⟩
    | directory => exact ⟨_, .unread ⟨hm, hd, ho⟩ ha rfl⟩

theorem firstReply_upload (hm : SameName request.mode mode.name) (hd : request.direction = .upload) :
    ∃ packet, request.FirstReply views packet := by
  cases hw : request.writable with
  | false => exact ⟨_, .readOnly hm hd hw⟩
  | true =>
    cases he : views.looked.pathExists request.file with
    | true => exact ⟨_, .taken hm hd hw he⟩
    | false =>
      have hi : request.Invites views mode := ⟨hm, hd, hw, he⟩
      cases hc : views.tried.createNew request.file with
      | error fault =>
        by_cases hk : fault.kind = .alreadyExists
        · exact ⟨_, .outrun hi hc hk⟩
        · exact ⟨_, .unmade hi hc hk⟩
      | ok made =>
        have hmakes : request.Makes views mode := ⟨hi, made.1, made.2, hc⟩
        by_cases ha : request.Accepts
        · exact firstReply_offered (.inr hmakes) ha
        · exact ⟨_, .ready hmakes ha⟩

theorem exists_firstReply (request : Request) (views : Views) : ∃ packet, request.FirstReply views packet := by
  cases hm : Mode.parse? request.mode with
  | none => exact ⟨_, .foreign (Mode.parse?_eq_none_iff.mp hm)⟩
  | some mode =>
    have hmode := Mode.parse?_eq_some_iff.mp hm
    cases hd : request.direction with
    | download => exact firstReply_download hmode hd
    | upload => exact firstReply_upload hmode hd

theorem Answered.of_firstReply {client : Endpoint} {sent : List Transmission}
    (h : ∀ packet, request.FirstReply views packet → sent.head? = some ⟨client, packet⟩) :
    request.Answered views client sent := by
  obtain ⟨packet, hp⟩ := request.exists_firstReply views
  refine ⟨⟨packet, h packet hp⟩, fun other => ⟨fun ho => ?_, h other⟩⟩
  rw [h packet hp] at ho
  injection ho with ho
  injection ho with _ ho
  rw [← ho]
  exact hp

end Request

inductive Block.Action.Begins : Action → Packet → Prop where
  | send (packet : Packet) : Begins (.send packet) packet
  | fail (fault : Fault) : Begins (.fail fault) (.standardError (.ofFault fault.kind))

theorem Stage.act_head {action : Block.Action} {packet : Packet} (link : Link) (transfer : Transfer)
    (h : action.Begins packet) :
    (act link false transfer action).sent.head? = some ⟨transfer.session.peer.endpoint, packet⟩ := by
  cases h with
  | send packet =>
    obtain ⟨more, hsent⟩ := exchange_sends link transfer packet
    have hact : act link false transfer (.send packet) = exchange link transfer (some packet) := rfl
    rw [hact, hsent]
    rfl
  | fail fault => rfl

namespace Block.Party

theorem start_file (disk : Disk) (mode : Mode) (id : FileId) {size : Nat} (hs : 0 < size) :
    ((sending (.ofNode (.file id)) mode size).start disk).2.2 =
      .send (.data 1 ((mode.wireForm (disk.content id).toList).take size)) := by
  have hat : Sender.At disk mode size (mode.wireForm (disk.content id).toList) 0
      { cutter := { source := .file id 0, mode }, blockSize := size } := Sender.at_zero List.drop_zero
  obtain ⟨next, hnext, -⟩ := Sender.onAck_due hs hat (Nat.succ_pos _)
  have haction := congrArg Prod.snd hnext
  rw [payload, Nat.add_sub_cancel, Nat.zero_mul, List.drop_zero] at haction
  exact haction

theorem start_unread {disk : Disk} {node : Node} {fault : Fault} (mode : Mode)
    (h : ((Source.ofNode node).read disk 512).2 = .error fault) :
    ((sending (.ofNode node) mode 512).start disk).2.2 = .fail fault := by
  cases node with
  | file id => cases h
  | directory =>
    cases h
    have hnext : ({ source := .directory, mode } : Cutter).next disk 512 =
        ({ source := .directory, mode }, .error ⟨.isADirectory, "Is a directory"⟩) := rfl
    simp only [sending, Source.ofNode, start, Sender.onAck, order_self, Sender.nextBlock, hnext]
    rfl

end Block.Party

namespace ConnectionTask

/-- Steps of a connection, with what others do to the files before each of them. -/
def amid (link : Link) : List (Disk → Disk) → Disk × ConnectionTask → Move (Disk × ConnectionTask)
  | [], state => { state }
  | change :: changes, state => (state.2.proceed link (change state.1)).andThen (amid link changes)

variable {link : Link} {change : Disk → Disk} {changes : List (Disk → Disk)} {disk disk' : Disk}
  {task task' : ConnectionTask}

theorem amid_quiet (h : task.proceed link (change disk) = { state := (disk', task') }) :
    (amid link (change :: changes) (disk, task)).sent = (amid link changes (disk', task')).sent := by
  simp only [amid, Move.andThen, h, List.nil_append]

theorem amid_head {x : Transmission} (h : (task.proceed link (change disk)).sent.head? = some x) :
    (amid link (change :: changes) (disk, task)).sent.head? = some x := by
  rw [amid, Move.andThen, List.head?_append, h]
  rfl

theorem drive_eq_amid (link : Link) (steps : Nat) (state : Disk × ConnectionTask) :
    drive link steps state = amid link (List.replicate steps id) state := by
  induction steps generalizing state with
  | zero => rfl
  | succ steps ih =>
    rw [drive, List.replicate_succ, amid, funext ih]
    rfl

theorem drive_add (link : Link) (steps more : Nat) (state : Disk × ConnectionTask) :
    drive link (steps + more) state = (drive link steps state).andThen (drive link more) := by
  induction steps generalizing state with
  | zero => rw [Nat.zero_add]; rfl
  | succ steps ih =>
    rw [Nat.succ_add, drive, drive]
    simp only [Move.andThen, ih, List.append_assoc]

theorem drive_rests {connection : Connection} (h : task.Rests connection) (steps : Nat) :
    drive link steps (disk, task) = { state := (disk, task) } := by
  have hstay : task.proceed link disk = { state := (disk, task) } := by
    rw [Rests] at h
    split at h
    · next hp =>
      rw [proceed, hp]
      rfl
    · next hp =>
      rw [proceed, hp]
      rfl
    · cases h
  induction steps with
  | zero => rfl
  | succ steps ih =>
    rw [drive, hstay, Move.andThen, ih]
    rfl

theorem head_refusing {code : ErrorCode} (hp : task.pause = .refusing code) :
    (amid link (change :: changes) (disk, task)).sent.head? =
      some ⟨task.admission.transfer.session.peer.endpoint, .standardError code⟩ := by
  refine amid_head ?_
  rw [proceed, hp]
  rfl

theorem head_ready {transfer : Transfer} {party : Block.Party} {second : Disk → Disk} {packet : Packet}
    (hp : task.pause = .ready transfer party)
    (ha : (Connection.opening transfer party (change disk)).2.2.Begins packet) :
    (amid link (change :: second :: changes) (disk, task)).sent.head? =
      some ⟨transfer.session.peer.endpoint, packet⟩ := by
  have hopen : task.proceed link (change disk) = { state := (change disk, { task with
      pause := .acting { transfer with phase := .dataTransfer }
        (Connection.opening transfer party (change disk)).2.1
        (Connection.opening transfer party (change disk)).2.2 none }) } := by
    rw [proceed, hp]
    rfl
  rw [amid_quiet hopen]
  exact amid_head (Stage.act_head link _ ha)

theorem head_offering {transfer : Transfer} {party : Block.Party} {second : Disk → Disk}
    (hp : task.pause = .ready transfer party) (ha : transfer.options.anyAccepted = true) :
    (amid link (change :: second :: changes) (disk, task)).sent.head? =
      some ⟨transfer.session.peer.endpoint, .optionAck transfer.options.accepted.fields⟩ := by
  refine head_ready hp ?_
  rw [Connection.opening, if_pos ha]
  exact .send _

theorem head_starting {transfer : Transfer} {party : Block.Party} {second : Disk → Disk} {packet : Packet}
    (hp : task.pause = .ready transfer party) (ha : ¬transfer.options.anyAccepted = true)
    (hs : (party.start (change disk)).2.2.Begins packet) :
    (amid link (change :: second :: changes) (disk, task)).sent.head? =
      some ⟨transfer.session.peer.endpoint, packet⟩ := by
  refine head_ready hp ?_
  rw [Connection.opening, if_neg ha]
  exact hs

end ConnectionTask

namespace Request

variable {link : Link} {request : Request} {client : Endpoint} {admission : Admission} {mode : Mode} {node : Node}
  {views : Views} {disk : Disk} {packet : Packet}

theorem Reaches.endpoint (hr : request.Reaches client admission) :
    admission.transfer.session.peer.endpoint = client := by
  rw [hr.session]
  rfl

theorem Reaches.accepts_iff (hr : request.Reaches client admission) :
    admission.transfer.options.anyAccepted = true ↔ request.Accepts := by
  rw [hr.options, Accepts]

theorem Reaches.sized_iff (hr : request.Reaches client admission) :
    admission.sizeRequested = true ↔ request.Names "tsize" := by
  rw [hr.sizeRequested]
  exact names_iff "tsize" request

theorem Reaches.look_foreign (hr : request.Reaches client admission)
    (hm : ∀ mode : Mode, ¬SameName request.mode mode.name) :
    ConnectionTask.look disk { admission } = .refusing .illegalOperation := by
  simp only [ConnectionTask.look, hr.mode, Mode.parse?_eq_none_iff.mpr hm]

theorem Reaches.look_unopened (hr : request.Reaches client admission) (hm : SameName request.mode mode.name)
    (hd : request.direction = .download) {fault : Fault} (ho : disk.openRead request.file = .error fault) :
    ConnectionTask.look disk { admission } = .refusing (Connection.openCode fault) := by
  simp only [ConnectionTask.look, hr.mode, Mode.parse?_eq_some_iff.mpr hm, hr.direction, hd, hr.file, ho]

theorem Reaches.look_opened (hr : request.Reaches client admission) (ho : request.Opens views mode node) :
    ConnectionTask.look views.looked { admission } = .opened mode node := by
  simp only [ConnectionTask.look, hr.mode, Mode.parse?_eq_some_iff.mpr ho.mode, hr.direction, ho.direction, hr.file,
    ho.opened]

theorem Reaches.look_upload (hr : request.Reaches client admission) (hm : SameName request.mode mode.name)
    (hd : request.direction = .upload) :
    ConnectionTask.look disk { admission } =
      if !request.writable then .refusing .accessViolation
      else if disk.pathExists request.file then .refusing .fileAlreadyExists
      else .vacant mode := by
  simp only [ConnectionTask.look, hr.mode, Mode.parse?_eq_some_iff.mpr hm, hr.direction, hd, hr.file, hr.writable]

theorem Reaches.measure_unmeasured (task : ConnectionTask) (hr : request.Reaches client task.admission)
    (ha : request.Accepts) (hn : request.Names "tsize") {fault : Fault} (hs : disk.size request.file = .error fault) :
    task.measure disk mode node = .refusing .fileNotFound := by
  simp only [ConnectionTask.measure, hr.accepts_iff.mpr ha, hr.sized_iff.mpr hn, hr.file, hs, if_true]

theorem Reaches.measure_offered (task : ConnectionTask) (hr : request.Reaches client task.admission)
    (hd : request.direction = .download) (ha : request.Accepts) {offer : List OptionField}
    (ho : request.Offers disk offer) :
    ∃ transfer party, task.measure disk mode node = .ready transfer party ∧
      transfer.session.peer.endpoint = client ∧ transfer.options.anyAccepted = true ∧
      transfer.options.accepted.fields = offer := by
  have hany := hr.accepts_iff.mpr ha
  by_cases hn : request.Names "tsize"
  · obtain ⟨size, hs, -⟩ := ho.told hd hn
    simp only [ConnectionTask.measure, hany, hr.sized_iff.mpr hn, hr.file, hs, if_true]
    refine ⟨_, _, rfl, hr.endpoint, ?_, ?_⟩
    · rw [hr.options]
      exact Options.anyAccepted_setAccepted _ size
    · rw [hr.options]
      exact (offers_sized hd hn hs).unique ho
  · simp only [ConnectionTask.measure, hany, if_neg (mt hr.sized_iff.mp hn), if_true]
    refine ⟨_, _, rfl, hr.endpoint, hany, ?_⟩
    rw [hr.options]
    exact (offers_validated fun _ => hn).unique ho

theorem Reaches.measure_plain (task : ConnectionTask) (hr : request.Reaches client task.admission)
    (ha : ¬request.Accepts) :
    task.measure disk mode node = .ready task.admission.transfer (.sending (.ofNode node) mode 512) := by
  have hsize : task.admission.transfer.options.blockSize = 512 := by
    rw [hr.options]
    exact (Options.terms_of_none_accepted _ (Bool.eq_false_iff.mpr ha)).1
  simp only [ConnectionTask.measure, if_neg (mt hr.accepts_iff.mp ha), hsize]

variable {first second third fourth : Disk → Disk} {later : List (Disk → Disk)}

theorem Reaches.head_refused (hr : request.Reaches client admission) {code : ErrorCode}
    (hl : ConnectionTask.look (first disk) { admission } = .refusing code) :
    (ConnectionTask.amid link (first :: second :: later) (disk, { admission })).sent.head? =
      some ⟨client, .standardError code⟩ := by
  rw [ConnectionTask.amid_quiet rfl, ← hr.endpoint]
  exact ConnectionTask.head_refusing hl

theorem Reaches.sent_opened (hr : request.Reaches client admission)
    (ho : request.Opens (.amid first second third disk) mode node) :
    (ConnectionTask.amid link (first :: second :: later) (disk, { admission })).sent =
      (ConnectionTask.amid link later (second (first disk), {
        admission
        pause :=
          ConnectionTask.measure (second (first disk)) mode node { admission, pause := .opened mode node } })).sent := by
  have hl : ConnectionTask.look (first disk) { admission } = .opened mode node := (hr.look_opened ho :)
  have hmeasure : ({ admission, pause := .opened mode node } : ConnectionTask).proceed link (second (first disk)) =
      { state := (second (first disk), {
          admission
          pause :=
            ConnectionTask.measure (second (first disk)) mode node { admission, pause := .opened mode node } }) } :=
    rfl
  rw [ConnectionTask.amid_quiet rfl, hl, ConnectionTask.amid_quiet hmeasure]

theorem Reaches.sent_invited (hr : request.Reaches client admission)
    (hi : request.Invites (.amid first second third disk) mode) :
    (ConnectionTask.amid link (first :: second :: later) (disk, { admission })).sent =
      (ConnectionTask.amid link later
        (ConnectionTask.make (second (first disk)) mode { admission, pause := .vacant mode })).sent := by
  have hl : ConnectionTask.look (first disk) { admission } = .vacant mode := by
    rw [hr.look_upload hi.mode hi.direction, hi.writable]
    exact if_neg (Bool.eq_false_iff.mp hi.free)
  rw [ConnectionTask.amid_quiet rfl, hl]
  exact ConnectionTask.amid_quiet rfl

theorem Reaches.head_unmade (hr : request.Reaches client admission)
    (hi : request.Invites (.amid first second third disk) mode) {fault : Fault}
    (hc : (second (first disk)).createNew request.file = .error fault) :
    (ConnectionTask.amid link (first :: second :: third :: later) (disk, { admission })).sent.head? =
      some ⟨client, .standardError (if fault.kind = .alreadyExists then .fileAlreadyExists else .accessViolation)⟩ := by
  rw [hr.sent_invited hi, ConnectionTask.make, hr.file, hc, ← hr.endpoint]
  exact ConnectionTask.head_refusing rfl

theorem Reaches.sent_made (hr : request.Reaches client admission)
    (hm : request.Makes (.amid first second third disk) mode) :
    ∃ task disk' party, (ConnectionTask.amid link (first :: second :: later) (disk, { admission })).sent =
        (ConnectionTask.amid link later (disk', task)).sent ∧
      task.pause = .ready admission.transfer (.receiver party) := by
  obtain ⟨hi, disk', id, hc⟩ := hm
  have hc' : (second (first disk)).createNew request.file = .ok (disk', id) := hc
  rw [hr.sent_invited hi, ConnectionTask.make, hr.file, hc']
  exact ⟨_, _, _, rfl, rfl⟩

theorem FirstReply.head (hr : request.Reaches client admission)
    (h : request.FirstReply (.amid first second third disk) packet) :
    (ConnectionTask.amid link (first :: second :: third :: fourth :: later) (disk, { admission })).sent.head? =
      some ⟨client, packet⟩ := by
  cases h with
  | foreign hm => exact hr.head_refused (hr.look_foreign hm)
  | unopened hm hd ho hc =>
    exact hr.head_refused ((hr.look_unopened hm hd ho).trans (congrArg _ (if_neg hc)))
  | unfound hm hd ho hc =>
    exact hr.head_refused ((hr.look_unopened hm hd ho).trans (congrArg _ (if_pos hc)))
  | readOnly hm hd hw =>
    refine hr.head_refused ?_
    rw [hr.look_upload hm hd, hw]
    rfl
  | taken hm hd hw he =>
    refine hr.head_refused ?_
    rw [hr.look_upload hm hd, hw]
    exact if_pos he
  | outrun hi hc hk =>
    rw [hr.head_unmade hi hc, if_pos hk]
  | unmade hi hc hk =>
    rw [hr.head_unmade hi hc, if_neg hk]
  | unmeasured ho ha hn hs =>
    rw [hr.sent_opened ho, ← hr.endpoint]
    exact ConnectionTask.head_refusing (Reaches.measure_unmeasured _ hr ha hn hs)
  | @offered mode offer hs ha ho =>
    rcases hs with ⟨node, hopens⟩ | hm
    · obtain ⟨transfer, party, hready, rfl, hany, rfl⟩ :=
        Reaches.measure_offered { admission, pause := .opened mode node } hr hopens.direction ha ho
      rw [hr.sent_opened hopens]
      exact ConnectionTask.head_offering hready hany
    · obtain ⟨task, disk', party, hsent, hready⟩ := hr.sent_made hm
      have hupload : ¬request.direction = .download := by
        rw [hm.direction]
        exact nofun
      rw [hsent, ← hr.endpoint, ← (offers_validated fun hd => absurd hd hupload).unique ho, ← hr.options]
      exact ConnectionTask.head_offering hready (hr.accepts_iff.mpr ha)
  | @block mode id ho ha =>
    rw [hr.sent_opened ho, ← hr.endpoint]
    refine ConnectionTask.head_starting (Reaches.measure_plain _ hr ha) (mt hr.accepts_iff.mp ha) ?_
    rw [Block.Party.start_file _ mode id (by decide)]
    exact .send _
  | @unread mode node fault ho ha hu =>
    have hfail : ((Block.Party.sending (.ofNode node) mode 512).start (third (second (first disk)))).2.2 =
        .fail fault := Block.Party.start_unread mode hu
    rw [hr.sent_opened ho, ← hr.endpoint]
    refine ConnectionTask.head_starting (Reaches.measure_plain _ hr ha) (mt hr.accepts_iff.mp ha) ?_
    rw [hfail]
    exact .fail fault
  | ready hm ha =>
    obtain ⟨task, disk', party, hsent, hready⟩ := hr.sent_made hm
    rw [hsent, ← hr.endpoint]
    exact ConnectionTask.head_starting hready (mt hr.accepts_iff.mp ha) (.send _)

theorem Reaches.amid_answered (hr : request.Reaches client admission) (link : Link) (disk : Disk)
    (first second third fourth : Disk → Disk) (later : List (Disk → Disk)) :
    request.Answered (.amid first second third disk) client
      (ConnectionTask.amid link (first :: second :: third :: fourth :: later) (disk, { admission })).sent :=
  .of_firstReply fun _ h => h.head hr

theorem Reaches.serve_answered (hr : request.Reaches client admission) (link : Link) (disk : Disk) :
    request.Answered ⟨disk, disk, disk⟩ client (Connection.serve link disk admission).sent := by
  obtain ⟨steps, task, hdrive, hrests⟩ := ConnectionTask.serve_settles link disk admission
  have hserve : ConnectionTask.drive link steps (disk, { admission }) = {
      state := ((Connection.serve link disk admission).state.1, task)
      sent := (Connection.serve link disk admission).sent } := hdrive
  have hmore := ConnectionTask.drive_add link steps 4 (disk, { admission })
  rw [hserve, Move.andThen, ConnectionTask.drive_rests hrests, List.append_nil, ConnectionTask.drive_eq_amid] at hmore
  have hanswered := hr.amid_answered link disk id id id id (List.replicate steps id)
  have hsame : (ConnectionTask.amid link (List.replicate (steps + 4) id) (disk, { admission })).sent =
      (Connection.serve link disk admission).sent := by rw [hmore]
  rw [← hsame]
  exact hanswered

end Request

namespace Request

def curious : Datagram where
  source := ServerProcess.visitor
  bytes := (Packet.readRequest "greeting" "OcTeT" [⟨"TSIZE", "?"⟩, ⟨"BlkSize", "01024"⟩]).encode

def greeted : Disk :=
  ({} : Disk).put ["srv", "greeting"] [104, 105]

/-- A file that the server may not read. -/
def forbidden : Disk :=
  { greeted with barred := [(["srv", "greeting"], ⟨.permissionDenied, "Permission denied"⟩)] }

def curiosity : Request where
  direction := .download
  file := "/srv/greeting"
  mode := "OcTeT"
  fields := [⟨"TSIZE", "?"⟩, ⟨"BlkSize", "01024"⟩]
  writable := true

end Request

end Tftp
