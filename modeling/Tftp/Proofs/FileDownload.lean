import Tftp.Proofs.FileChanges
import Tftp.Proofs.Isolation
import Tftp.Proofs.PartialPaths

namespace Tftp

open Correspondence (Event)

/-- A client at work, with its files and the packets that it has heard from its server. -/
structure FileDownload where
  disk : Disk
  client : Client
  stopped : Bool
  heard : List Packet := []

namespace FileDownload

/-- What a packet adds to a file of which some blocks are there: the block that is due counts, and nothing
else does. -/
def turn (reached : UInt16 × Bytes) : Packet → UInt16 × Bytes
  | .data n payload => if n = reached.1 + 1 then (n, reached.2 ++ payload) else reached
  | _ => reached

def progress (heard : List Packet) : UInt16 × Bytes :=
  heard.foldl turn (0, [])

/-- What these packets bring of a file, in wire form. -/
def received (heard : List Packet) : Bytes :=
  (progress heard).2

def hears (run : Run) (datagram : Datagram) : List Packet :=
  match run.stage, (run.transfer.session.read datagram).2 with
  | .waiting _, .ok packet => [packet]
  | _, _ => []

def start (stopped : Bool) (opened : Move (Disk × Client)) : FileDownload where
  disk := opened.state.1
  client := opened.state.2
  stopped

def step (link : Link) (download : FileDownload) : Event → FileDownload
  | .datagram datagram =>
    let next := (download.client.onDatagram link download.stopped download.disk datagram).state
    { download with
      disk := next.1
      client := next.2
      heard := download.heard ++ hears download.client.run datagram }
  | .timeout =>
    let next := (download.client.onTimeout link download.disk).state
    { download with disk := next.1, client := next.2 }
  | .stop => { download with stopped := true }

def after (link : Link) (download : FileDownload) (events : List Event) : FileDownload :=
  events.foldl (step link) download

end FileDownload

open FileDownload (turn)

namespace Block

structure Receiver.StoresHeard (disk : Disk) (mode : Mode) (reached : UInt16 × Bytes) (receiver : Receiver) : Prop where
  current : receiver.current = reached.1
  store : receiver.store.Stores disk mode reached.2

namespace Receiver

structure Leaves (mode : Mode) (reached : UInt16 × Bytes) (next : Disk × Receiver × Action) : Prop where
  storesHeard : (∃ packet, next.2.2 = .send packet) → next.2.1.StoresHeard next.1 mode reached
  stored : StepEffect.Succeeds next.2.2 → next.2.1.store.sink.Stores next.1 (mode.hostForm reached.2)
  speaks : next.2.2 ≠ .listen

theorem leaves_terminate (mode : Mode) (reached : UInt16 × Bytes) (disk : Disk) (r : Receiver)
    (code : ErrorCode) (message : String) : Leaves mode reached (disk, r, .terminate (.error code message)) :=
  ⟨by simp, fun h => absurd h (StepEffect.not_succeeds_error code message), by simp⟩

theorem leaves_send {mode : Mode} {reached : UInt16 × Bytes} {disk : Disk} {r : Receiver}
    (h : r.StoresHeard disk mode reached) (packet : Packet) : Leaves mode reached (disk, r, .send packet) :=
  ⟨fun _ => h, fun h => absurd h (StepEffect.not_succeeds_send packet), by simp⟩

variable {disk : Disk} {mode : Mode} {reached : UInt16 × Bytes} {r : Receiver}

theorem accept_leaves (h : r.StoresHeard disk mode reached) (payload : Bytes) :
    Leaves mode (r.current + 1, reached.2 ++ payload) (r.accept disk payload) := by
  rw [accept]
  split
  · exact leaves_terminate ..
  split
  · exact leaves_terminate ..
  next written store hwrite =>
  have hstores := Store.write_stores h.store hwrite
  simp only
  split
  · split
    · exact leaves_terminate ..
    · next finished last hfinish =>
      exact ⟨by simp, fun _ => Store.finish_stores hstores hfinish, by simp⟩
  · exact leaves_send ⟨rfl, hstores⟩ _

theorem onPacket_leaves (h : r.StoresHeard disk mode reached) (packet : Packet) :
    Leaves mode (turn reached packet) (r.onPacket disk packet) := by
  cases packet with
  | data n payload =>
    rw [turn, ← h.current]
    change Leaves _ _ (r.onData disk n payload)
    rw [onData]
    by_cases hn : n = r.current + 1
    · rw [if_pos hn, hn, order_self]
      exact accept_leaves h payload
    · rw [if_neg hn]
      have ho : order n (r.current + 1) ≠ .expected := fun ho => hn ((order_eq_expected_iff _ _).mp ho)
      split
      · next he => exact absurd he ho
      · exact leaves_send h _
      · exact leaves_terminate ..
  | error code message =>
    exact ⟨by simp [onPacket, Action.peerError], fun h => absurd h (StepEffect.not_succeeds_close _),
      by simp [onPacket, Action.peerError]⟩
  | _ => exact leaves_terminate ..

end Receiver

end Block

namespace Run

/-- A run that has gathered in a file all that has come in its turn, and has changed nothing else since the
file was made. -/
structure StoresHeard (made : Disk) (id : FileId) (mode : Mode) (reached : UInt16 × Bytes) (next : Disk × Run) :
    Prop where
  kept : Disk.KeptBut id made next.1
  file : next.2.party.file? = some id
  waits : ∀ exchange, next.2.stage = .waiting exchange →
    ∃ r, next.2.party = .receiver r ∧ r.StoresHeard next.1 mode reached
  stored : next.2.stage = .ended (.ok ()) → (next.1.content id).toList = mode.hostForm reached.2

variable {made disk : Disk} {id : FileId} {mode : Mode} {reached : UInt16 × Bytes}
  (link : Link) (stopped : Bool) (run : Run)

theorem storesHeard_act (transfer : Transfer) {next : Disk × Block.Receiver × Block.Action}
    (h : Block.Receiver.Leaves mode reached next) (hk : Disk.KeptBut id made next.1)
    (hf : next.2.1.store.sink.file? = some id) :
    StoresHeard made id mode reached
      (next.1, ofStage (.receiver next.2.1) (Stage.act link stopped transfer next.2.2).state) where
  kept := hk
  file := hf
  waits exchange hw := by
    obtain hlisten | hsend := StepEffect.waits_act hw
    · exact absurd hlisten h.speaks
    · exact ⟨_, rfl, h.storesHeard hsend⟩
  stored hend :=
    (h.stored ((StepEffect.of_stoppable link stopped transfer _).success hend)).content_of_file hf

theorem storesHeard_onPacket {r : Block.Receiver} (hk : Disk.KeptBut id made disk) (hp : run.party = .receiver r)
    (hf : run.party.file? = some id) (h : r.StoresHeard disk mode reached) (packet : Packet) :
    StoresHeard made id mode (turn reached packet) (run.onPacket link stopped disk packet).state := by
  obtain ⟨hkept, hfile⟩ := Block.Party.onPacket_kept disk packet run.party
  rw [hf] at hkept hfile
  rw [hp] at hkept hfile
  rw [onPacket, hp]
  exact storesHeard_act link stopped run.transfer (Block.Receiver.onPacket_leaves h packet) (hk.trans hkept) hfile

theorem storesHeard_optionAck {r : Block.Receiver} (hk : Disk.KeptBut id made disk) (hp : run.party = .receiver r)
    (hf : run.party.file? = some id) (h : r.StoresHeard disk mode reached) (fields : List OptionField) :
    StoresHeard made id mode reached (Client.onReply link stopped disk (.optionAck fields) run).state := by
  rw [hp] at hf
  have hr : Block.Receiver.StoresHeard disk mode reached
      { r with blockSize := (Options.ofFields fields).validate.blockSize } := ⟨h.current, h.store⟩
  rw [Client.onReply, hp]
  exact storesHeard_act link stopped _ (Block.Receiver.leaves_send hr (.ack 0)) hk hf

theorem storesHeard_handle {client : Client} {r : Block.Receiver} (hk : Disk.KeptBut id made disk)
    (hp : run.party = .receiver r) (hf : run.party.file? = some id) (h : r.StoresHeard disk mode reached)
    (packet : Packet) :
    StoresHeard made id mode (turn reached packet) (client.handle link stopped disk packet run).state := by
  rw [Client.handle]
  split
  · by_cases ho : packet.opcode = .optionAck
    · cases packet with
      | optionAck fields => exact storesHeard_optionAck link stopped run hk hp hf h fields
      | _ => cases ho
    · rw [Client.onReply_block link stopped disk packet run ho]
      refine storesHeard_onPacket link stopped _ hk ?_ ?_ h packet
      · exact hp
      · exact hf
  · exact storesHeard_onPacket link stopped run hk hp hf h packet

theorem storesHeard_datagram {client : Client} {exchange : Exchange}
    (h : StoresHeard made id mode reached (disk, client.run)) (hw : client.run.stage = .waiting exchange)
    (datagram : Datagram) :
    StoresHeard made id mode ((FileDownload.hears client.run datagram).foldl turn reached)
      (client.run.receive disk datagram (client.handle link stopped)).state := by
  obtain ⟨r, hp, hr⟩ := h.waits exchange hw
  simp only [FileDownload.hears, receive, hw]
  cases hread : (client.run.transfer.session.read datagram).2 with
  | ok packet =>
    refine storesHeard_handle link stopped _ h.kept ?_ ?_ hr packet
    · exact hp
    · exact h.file
  | error failure =>
    obtain ⟨result, hended, hok⟩ := StepEffect.finish_ended
      (({ client.run.transfer with session := (client.run.transfer.session.read datagram).1 } :
        Transfer).failExchange failure)
    refine ⟨h.kept, h.file, fun later hl => ?_, fun hl => ?_⟩
    · cases hended.symm.trans hl
    · cases hended.symm.trans hl
      cases hok.mp rfl

theorem storesHeard_timeout {exchange : Exchange} (h : StoresHeard made id mode reached (disk, run))
    (hw : run.stage = .waiting exchange) : StoresHeard made id mode reached (disk, (run.onTimeout link).state) where
  kept := h.kept
  file := h.file
  waits _ _ := h.waits exchange hw
  stored hend := by
    have hok := (StepEffect.of_expire link run.transfer run.stage).success hend
    rw [hw] at hok
    cases hok

end Run

namespace FileDownload

structure Opened (before made : Disk) (dest gathered : String) (origin : Place) (id : FileId) : Prop where
  path : partialPath dest = .ok gathered
  names : before.Names gathered origin
  file : Disk.Made before made origin id
  others : Disk.SameBut origin id before made
  own : before.node? origin = some (.file id) ∨ ∀ place, before.node? place ≠ some (.file id)

structure Landed (before : Disk) (origin place : Place) (id : FileId) (bytes : Bytes) (disk : Disk) : Prop where
  file : disk.node? place = some (.file id)
  content : (disk.content id).toList = bytes
  gone : disk.node? origin = none
  nodes : ∀ p, p ≠ origin → p ≠ place → disk.node? p = before.node? p
  contents : ∀ k, k ≠ id → disk.content k = before.content k

/-- What a download does to the files. -/
structure Atomic (before : Disk) (dest gathered : String) (origin : Place) (id : FileId) (mode : Mode)
    (download : FileDownload) : Prop where
  apart : ∀ place, before.Names dest place → origin ≠ place
  own : before.node? origin = some (.file id) ∨ ∀ place, before.node? place ≠ some (.file id)
  running : download.client.result? = none → Disk.SameBut origin id before download.disk
  /-- Only a file that cannot be given its name stays where it was gathered. -/
  failed : ∀ failure, download.client.result? = some (.error failure) →
    Disk.SameBut origin id before download.disk ∧ (download.disk.node? origin = none ∨
      ∃ fault, failure = .fault fault ∧ download.disk.rename gathered dest = .error fault)
  done : download.client.result? = some (.ok ()) →
    ∃ place, before.Names dest place ∧ before.isDirectory place = false ∧
      Landed before origin place id (mode.hostForm (received download.heard)) download.disk

variable {before made disk : Disk} {dest gathered : String} {origin : Place} {id : FileId}

theorem Opened.node (h : Opened before made dest gathered origin id) (hk : Disk.KeptBut id made disk) :
    disk.node? origin = some (.file id) := by
  rw [Disk.node?, hk.nodes]
  exact h.file.node

theorem Opened.tree (h : Opened before made dest gathered origin id) (hk : Disk.KeptBut id made disk) :
    Disk.SameTree before disk :=
  h.file.tree.trans (Disk.sameTree_of_nodes hk.nodes)

theorem Opened.kept (h : Opened before made dest gathered origin id) (hk : Disk.KeptBut id made disk) :
    Disk.SameBut origin id before disk :=
  h.others.trans (.of_keptBut hk origin)

theorem Opened.removed (h : Opened before made dest gathered origin id) (hk : Disk.KeptBut id made disk) :
    Disk.SameBut origin id before (disk.remove gathered) ∧ (disk.remove gathered).node? origin = none := by
  have hne := h.names.ne_nil
  rw [Disk.remove_eq (h.names.sameTree (h.tree hk)), h.node hk]
  refine ⟨(h.kept hk).trans (.of_removeNode disk id hne), ?_⟩
  rw [Disk.node?_removeNode disk hne, if_pos rfl]

theorem Opened.renamed {renamed : Disk} {bytes : Bytes} (h : Opened before made dest gathered origin id)
    (hk : Disk.KeptBut id made disk) (hc : (disk.content id).toList = bytes)
    (hr : disk.rename gathered dest = .ok renamed) :
    ∃ place, before.Names dest place ∧ before.isDirectory place = false ∧
      Landed before origin place id bytes renamed := by
  have htree := h.tree hk
  have hback : Disk.SameTree disk before := fun p => (htree p).symm
  obtain ⟨place, hplace, hfree, rfl⟩ := Disk.rename_ok (h.names.sameTree htree) (h.node hk) hr
  have hnames := hplace.sameTree hback
  have hapart := Disk.ne_of_partialPath h.path hnames h.names
  have hmoved := Disk.node?_moveNode disk h.names.ne_nil hplace.ne_nil (.file id)
  refine ⟨place, hnames, (hback place).trans hfree, ?_, hc, ?_, fun p ho hp => ?_, (h.kept hk).contents⟩
  · rw [hmoved, if_pos rfl]
  · rw [hmoved, if_neg hapart, if_pos rfl]
  · rw [hmoved, if_neg hp, if_neg ho]
    exact (h.kept hk).nodes p ho

/-- What holds of a download at every moment. -/
structure Keeps (before made : Disk) (dest gathered : String) (origin : Place) (id : FileId) (mode : Mode)
    (download : FileDownload) : Prop where
  waits : ∀ exchange, download.client.run.stage = .waiting exchange →
    download.client.ending = .replace gathered dest ∧
      Run.StoresHeard made id mode (progress download.heard) (download.disk, download.client.run)
  settled : ∀ result, download.client.run.stage = .ended result → download.client.ending = .keep
  atomic : Atomic before dest gathered origin id mode download

variable {mode : Mode} {client : Client}

theorem keeps_settle (h : Opened before made dest gathered origin id) (stopped : Bool) (heard : List Packet)
    (he : client.ending = .replace gathered dest)
    (hg : Run.StoresHeard made id mode (progress heard) (disk, client.run)) :
    Keeps before made dest gathered origin id mode
      ⟨(Client.settle disk client).1, (Client.settle disk client).2, stopped, heard⟩ := by
  have hapart : ∀ place, before.Names dest place → origin ≠ place := fun place hplace =>
    Disk.ne_of_partialPath h.path hplace h.names
  obtain ⟨run, requesting, ending⟩ := client
  simp only at he hg
  subst he
  cases hw : run.stage with
  | waiting exchange =>
    simp only [Client.settle, hw]
    refine ⟨fun _ _ => ⟨rfl, hg⟩, fun result hr => ?_, hapart, h.own, fun _ => h.kept hg.kept,
      fun failure hr => ?_, fun hr => ?_⟩
    · cases hw.symm.trans hr
    · simp [Client.result?, hw] at hr
    · simp [Client.result?, hw] at hr
  | ended result =>
    cases result with
    | ok u =>
      cases hr : disk.rename gathered dest with
      | ok renamed =>
        simp only [Client.settle, hw, Client.Ending.apply, hr]
        refine ⟨by simp, fun _ _ => rfl, hapart, h.own, by simp [Client.result?], by simp [Client.result?],
          fun _ => h.renamed hg.kept (hg.stored hw) hr⟩
      | error fault =>
        simp only [Client.settle, hw, Client.Ending.apply, hr]
        refine ⟨by simp, fun _ _ => rfl, hapart, h.own, by simp [Client.result?], fun failure hs => ?_,
          by simp [Client.result?]⟩
        cases hs
        exact ⟨h.kept hg.kept, .inr ⟨fault, rfl, hr⟩⟩
    | error failure =>
      obtain ⟨hsame, hgone⟩ := h.removed hg.kept
      simp only [Client.settle, hw, Client.Ending.apply]
      exact ⟨by simp, fun _ _ => rfl, hapart, h.own, by simp [Client.result?],
        fun _ _ => ⟨hsame, .inl hgone⟩, by simp [Client.result?]⟩

variable (link : Link)

theorem Keeps.of_ended {download : FileDownload} (h : Keeps before made dest gathered origin id mode download)
    {result : Except TransferFailure Unit} (hw : download.client.run.stage = .ended result) {next : Client}
    (hn : next.run.stage = .ended result) (he : next.ending = .keep) :
    Keeps before made dest gathered origin id mode { download with client := next } := by
  have hresult : next.result? = download.client.result? := by
    rw [Client.result?, Client.result?, hw, hn]
  refine ⟨fun exchange hs => ?_, fun _ _ => he, h.atomic.apart, h.atomic.own, ?_, ?_, ?_⟩
  · cases hn.symm.trans hs
  · rw [hresult]
    exact h.atomic.running
  · rw [hresult]
    exact h.atomic.failed
  · rw [hresult]
    exact h.atomic.done

theorem settle_ended (disk : Disk) (client : Client) {result : Except TransferFailure Unit}
    (hw : client.run.stage = .ended result) (he : client.ending = .keep) :
    ∃ next, Client.settle disk client = (disk, next) ∧ next.run.stage = .ended result ∧ next.ending = .keep := by
  simp only [Client.settle, hw, he, Client.Ending.apply]
  exact ⟨_, rfl, rfl, rfl⟩

theorem step_keeps (h : Opened before made dest gathered origin id) {download : FileDownload}
    (hk : Keeps before made dest gathered origin id mode download) (event : Event) :
    Keeps before made dest gathered origin id mode (download.step link event) := by
  obtain ⟨disk, client, stopped, heard⟩ := download
  cases hw : client.run.stage with
  | waiting exchange =>
    obtain ⟨he, hg⟩ := hk.waits exchange hw
    cases event with
    | datagram datagram =>
      have hnext := Run.storesHeard_datagram link stopped hg hw datagram
      rw [progress, ← List.foldl_append] at hnext
      rw [step, Client.onDatagram_eq]
      refine keeps_settle h stopped _ ?_ hnext
      exact he
    | timeout =>
      refine keeps_settle h stopped heard ?_ (Run.storesHeard_timeout link _ hg hw)
      exact he
    | stop => exact ⟨hk.waits, hk.settled, { hk.atomic with }⟩
  | ended result =>
    have he := hk.settled result hw
    cases event with
    | datagram datagram =>
      have hreceive : client.run.receive disk datagram (client.handle link stopped) =
          { state := (disk, client.run) } := by
        simp only [Run.receive, hw]
      have hsilent : hears client.run datagram = [] := by
        rw [hears, hw]
      obtain ⟨next, hsettle, hn, hkeep⟩ := settle_ended disk { client with requesting := false } hw he
      simp only [step, Client.onDatagram_eq, hreceive, Move.map, hsettle, hsilent, List.append_nil]
      exact hk.of_ended hw hn hkeep
    | timeout =>
      obtain ⟨next, hsettle, hn, hkeep⟩ := settle_ended disk client hw he
      simp only [step, Client.onTimeout, Run.onTimeout_ended link client.run result hw, Move.map, hsettle]
      exact hk.of_ended hw hn hkeep
    | stop => exact ⟨hk.waits, hk.settled, { hk.atomic with }⟩

theorem after_keeps (h : Opened before made dest gathered origin id) {download : FileDownload}
    (hk : Keeps before made dest gathered origin id mode download) (events : List Event) :
    Keeps before made dest gathered origin id mode (download.after link events) := by
  induction events generalizing download with
  | nil => exact hk
  | cons event events ih => exact ih (step_keeps link h hk event)

theorem start_keeps (h : Opened before made dest gathered origin id) (stopped : Bool) (config : ClientConfig)
    (remote : String) :
    Keeps before made dest gathered origin id config.mode
      (start stopped (Client.downloadTo link stopped config made remote (.file id 0) (.replace gathered dest))) := by
  rw [Client.downloadTo, Client.transmit]
  refine keeps_settle h stopped [] rfl ⟨Disk.KeptBut.refl id made, ?_, fun _ _ => ⟨_, rfl, rfl, ?_⟩, fun hend => ?_⟩
  · cases config.mode <;> rfl
  · exact Store.stores_ofMode config.mode h.file.stores
  · cases stopped with
    | true => cases hend
    | false =>
      have hsent := (StepEffect.of_act link _ (.send _)).success hend
      exact absurd hsent (StepEffect.not_succeeds_send _)

/-- A download leaves behind the whole file at its destination and nothing else, or nothing at all, whatever
comes in and whenever it is stopped. The one exception is a whole file that cannot be given its name. -/
theorem download_atomic (stopped : Bool) (config : ClientConfig) (before : Disk) (hs : before.Sound)
    (remote dest : String) (opened : Move (Disk × Client))
    (h : Client.download link stopped config before remote dest = .ok opened) (events : List Event) :
    ∃ gathered origin id, partialPath dest = .ok gathered ∧ before.Names gathered origin ∧
      Atomic before dest gathered origin id config.mode ((start stopped opened).after link events) := by
  rw [Client.download] at h
  split at h
  · cases h
  next gathered hpath =>
  split at h
  · cases h
  next made id hcreate =>
  cases h
  obtain ⟨origin, hnames, hmade, hothers, hown⟩ := Disk.create_made hs hcreate
  have hopened : Opened before made dest gathered origin id := ⟨hpath, hnames, hmade, hothers, hown⟩
  exact ⟨gathered, origin, id, hpath, hnames,
    (after_keeps link hopened (start_keeps link hopened stopped config remote) events).atomic⟩

def office : ClientConfig where
  server := { ip := .v4 10 0 0 2, port := 69 }

def note : Event :=
  .datagram ⟨{ ip := .v4 10 0 0 2, port := 50000 }, (Packet.data 1 [110, 101, 119]).encode⟩

def noteDisk : Disk where
  nodes := [(["copy"], .file 0)]
  contents := #[#[111, 108, 100]]

theorem note_atomic : ∃ opened, Client.download .connected false office noteDisk "note" "copy" = .ok opened ∧
    ((start false opened).after .connected [note]).client.result? = some (.ok ()) ∧
    ∃ gathered origin id, partialPath "copy" = .ok gathered ∧ noteDisk.Names gathered origin ∧
      Atomic noteDisk "copy" gathered origin id .octet ((start false opened).after .connected [note]) := by
  have hsound : noteDisk.Sound := by
    intro place id hn
    simp only [Disk.node?, noteDisk, List.lookup_cons, List.lookup_nil] at hn
    split at hn
    · cases hn
    split at hn <;> cases hn
    decide
  exact ⟨_, rfl, by rfl, download_atomic .connected false office noteDisk hsound "note" "copy" _ rfl [note]⟩

/-- The destination is a directory, where no file can take its place. The transfer goes well, the download
fails, and the file that it made stays. -/
theorem directory_litters :
    ∃ opened, Client.download .connected false office { nodes := [(["d"], .directory)] } "note" "d" = .ok opened ∧
      ((start false opened).after .connected [note]).client.result? =
        some (.error (.fault ⟨.isADirectory, "Is a directory"⟩)) ∧
      ((start false opened).after .connected [note]).disk.file? ["d.part"] = some #[110, 101, 119] :=
  ⟨_, rfl, by rfl, by decide +kernel⟩

end FileDownload

end Tftp
