import Tftp.Proofs.Answers
import Tftp.Proofs.Handshake

namespace Tftp

structure Admission.Keeps (client : Endpoint) (direction : Direction) (fields : List OptionField)
    (admission : Admission) : Prop where
  session : admission.transfer.session = .accept client (Options.ofFields fields).validate.timeout
  options : admission.transfer.options = (Options.ofFields fields).validate
  direction : admission.direction = direction
  sizeRequested : admission.sizeRequested = (Options.ofFields fields).names Options.Known.tsize.name

theorem Admission.ofDatagram_ok {config : ServerConfig} {ports : Ports} {datagram : Datagram}
    {admission : Admission} (h : ofDatagram config ports datagram = .ok admission) :
    ∃ direction path mode fields, Packet.decode datagram.bytes = .ok (direction.request path mode fields) ∧
      admission.Keeps datagram.source direction fields := by
  have hrequest : ∀ direction path mode fields,
      ofRequest config ports datagram.source direction path mode fields = .ok admission →
      admission.Keeps datagram.source direction fields := by
    intro direction path mode fields h
    simp only [ofRequest] at h
    split at h
    · cases h
    split at h
    · cases h
    · cases h
      exact ⟨rfl, rfl, rfl, rfl⟩
  simp only [ofDatagram] at h
  split at h
  · cases h
  · next packet hd =>
    split at h
    · next admitted hp =>
      cases h
      cases packet with
      | readRequest path mode fields => exact ⟨.download, path, mode, fields, hd, hrequest _ _ _ _ hp⟩
      | writeRequest path mode fields => exact ⟨.upload, path, mode, fields, hd, hrequest _ _ _ _ hp⟩
      | _ => cases hp
    · cases h

namespace Connection

/-- The options that a request is served with. Whoever asks for the size of a file is told, if anything is
accepted. -/
def Offers (disk : Disk) (admission : Admission) (options : Options) : Prop :=
  if admission.direction = .download ∧ admission.sizeRequested = true ∧
      admission.transfer.options.anyAccepted = true then
    ∃ size, disk.size admission.file = .ok size ∧
      options = admission.transfer.options.setAccepted Options.Known.tsize.name size
  else options = admission.transfer.options

structure Serves (disk : Disk) (admission : Admission) (transfer : Transfer) (party : Block.Party) : Prop where
  offers : Offers disk admission transfer.options
  peer : transfer.session.peer = admission.transfer.session.peer
  timeout : transfer.session.timeout = admission.transfer.session.timeout ∨
    transfer.session.timeout = transfer.options.timeout
  size : party.blockSize = admission.transfer.options.blockSize

/-- Why a request is refused, and with which code. -/
inductive Refuses (disk : Disk) (admission : Admission) : ErrorCode → Prop where
  | mode (hm : Mode.parse? admission.mode = none) : Refuses disk admission .illegalOperation
  | unopened {fault : Fault} (hd : admission.direction = .download)
    (ho : disk.openRead admission.file = .error fault) : Refuses disk admission (openCode fault)
  | unmeasured {fault : Fault} (hd : admission.direction = .download)
    (ha : admission.transfer.options.anyAccepted = true) (hr : admission.sizeRequested = true)
    (hs : disk.size admission.file = .error fault) : Refuses disk admission .fileNotFound
  | readOnly (hd : admission.direction = .upload) (hw : admission.allowWrites = false) :
    Refuses disk admission .accessViolation
  | taken (hd : admission.direction = .upload) (he : disk.pathExists admission.file = true) :
    Refuses disk admission .fileAlreadyExists
  | outrun {fault : Fault} (hd : admission.direction = .upload)
    (hc : disk.createNew admission.file = .error fault) (hk : fault.kind = .alreadyExists) :
    Refuses disk admission .fileAlreadyExists
  | unmade {fault : Fault} (hd : admission.direction = .upload)
    (hc : disk.createNew admission.file = .error fault) (hk : fault.kind ≠ .alreadyExists) :
    Refuses disk admission .accessViolation

theorem serves_same {disk : Disk} {admission : Admission} {party : Block.Party}
    (h : ¬(admission.direction = .download ∧ admission.sizeRequested = true ∧
      admission.transfer.options.anyAccepted = true))
    (hsize : party.blockSize = admission.transfer.options.blockSize) :
    Serves disk admission admission.transfer party :=
  ⟨by rw [Offers, if_neg h], rfl, .inl rfl, hsize⟩

theorem serveDownload_cases (link : Link) (disk : Disk) (admission : Admission) (mode : Mode)
    (hd : admission.direction = .download) :
    (∃ code, Refuses disk admission code ∧ serveDownload link disk admission mode = refuse disk admission code) ∨
      ∃ transfer party, serveDownload link disk admission mode = begin link disk admission transfer false party ∧
        Serves disk admission transfer party := by
  rw [serveDownload]
  simp only
  split
  · next fault hopen => exact .inl ⟨_, .unopened hd hopen, rfl⟩
  · next node hopen =>
    cases ha : admission.transfer.options.anyAccepted with
    | false =>
      rw [if_neg (by decide)]
      exact .inr ⟨_, _, rfl, serves_same (fun h => by rw [ha] at h; cases h.2.2) rfl⟩
    | true =>
      rw [if_pos rfl]
      cases hr : admission.sizeRequested with
      | false =>
        rw [if_neg (by decide)]
        refine .inr ⟨_, _, rfl, ?_, rfl, .inr rfl, rfl⟩
        rw [Offers, if_neg fun h => by rw [hr] at h; cases h.2.1]
        rfl
      | true =>
        rw [if_pos rfl]
        split
        · next fault hs => exact .inl ⟨_, .unmeasured hd ha hr hs, rfl⟩
        · next size hs =>
          refine .inr ⟨_, _, rfl, ?_, rfl, .inr rfl, rfl⟩
          rw [Offers, if_pos ⟨hd, hr, ha⟩]
          exact ⟨size, hs, rfl⟩

theorem serveUpload_cases (link : Link) (disk : Disk) (admission : Admission) (mode : Mode)
    (hd : admission.direction = .upload) :
    (∃ code, Refuses disk admission code ∧ serveUpload link disk admission mode = refuse disk admission code) ∨
      ∃ disk' party, serveUpload link disk admission mode =
          begin link disk' admission admission.transfer true party ∧
        Serves disk admission admission.transfer party := by
  rw [serveUpload]
  cases hw : admission.allowWrites with
  | false => exact .inl ⟨_, .readOnly hd hw, rfl⟩
  | true =>
    rw [if_neg (by decide)]
    split
    · next he => exact .inl ⟨_, .taken hd he, rfl⟩
    · split
      · next fault hc =>
        by_cases hk : fault.kind = .alreadyExists
        · exact .inl ⟨_, .outrun hd hc hk, by rw [if_pos hk]⟩
        · exact .inl ⟨_, .unmade hd hc hk, by rw [if_neg hk]⟩
      · exact .inr ⟨_, _, rfl, serves_same (fun h => by rw [hd] at h; cases h.1) rfl⟩

/-- A request is refused with an ERROR, or served. -/
theorem serve_cases (link : Link) (disk : Disk) (admission : Admission) :
    (∃ code, Refuses disk admission code ∧ serve link disk admission = refuse disk admission code) ∨
      ∃ disk' transfer created party,
        serve link disk admission = begin link disk' admission transfer created party ∧
          Serves disk admission transfer party := by
  rw [serve]
  split
  · next hm => exact .inl ⟨_, .mode hm, rfl⟩
  · next mode hm =>
    cases hd : admission.direction with
    | download =>
      rcases serveDownload_cases link disk admission mode hd with h | ⟨transfer, party, h, hs⟩
      · exact .inl h
      · exact .inr ⟨disk, transfer, false, party, h, hs⟩
    | upload =>
      rcases serveUpload_cases link disk admission mode hd with h | ⟨disk', party, h, hs⟩
      · exact .inl h
      · exact .inr ⟨disk', admission.transfer, true, party, h, hs⟩

/-- What may be said before anything has been heard from the client. -/
def Permits (options : Options) (packet : Packet) : Prop :=
  packet.opcode = .error ∨
    if options.anyAccepted then packet = .optionAck options.accepted.fields else packet.opcode ≠ .optionAck

structure Unanswered (options : Options) (session : Session) (size : Nat) (run : Run) : Prop where
  session : run.transfer.session = session
  size : run.party.blockSize = size
  waits : ∃ exchange, run.stage = .waiting exchange
  repeats : ∀ exchange packet, run.stage = .waiting exchange → exchange.repeated = some packet →
    Permits options packet

def opening (transfer : Transfer) (party : Block.Party) (disk : Disk) : Disk × Block.Party × Block.Action :=
  if transfer.options.anyAccepted then
    (disk, party, .send (.optionAck transfer.options.accepted.fields))
  else party.start disk

theorem opening_blockSize (transfer : Transfer) (party : Block.Party) (disk : Disk) :
    (opening transfer party disk).2.1.blockSize = party.blockSize := by
  rw [opening]
  split
  · rfl
  · exact party.start_blockSize disk

theorem opening_permitted (transfer : Transfer) (party : Block.Party) (disk : Disk) (packet : Packet)
    (h : StepEffect.Asked (opening transfer party disk).2.2 packet) : Permits transfer.options packet := by
  rw [opening] at h
  rw [Permits]
  split at h
  · next ha =>
    rw [if_pos ha]
    exact .inr (StepEffect.eq_of_asked_send h)
  · next ha =>
    rw [if_neg ha]
    exact .inr ((party.start_optionless disk).offerless packet h)

variable (link : Link) (disk : Disk) (admission : Admission) (transfer : Transfer) (created : Bool)
  (party : Block.Party)

theorem begin_eq : begin link disk admission transfer created party =
    (Run.start link false { transfer with phase := .dataTransfer } (opening transfer party disk).2.1
      (opening transfer party disk).2.2).map
        (settle (opening transfer party disk).1 admission.file created) := rfl

theorem begin_permitted :
    (∀ x ∈ (begin link disk admission transfer created party).sent,
      x.destination = transfer.session.peer.endpoint ∧ Permits transfer.options x.packet) ∧
    ∀ run, (begin link disk admission transfer created party).state.2.state = .running run →
      Unanswered transfer.options transfer.session party.blockSize run := by
  have heffect := StepEffect.of_act link { transfer with phase := .dataTransfer } (opening transfer party disk).2.2
  rw [begin_eq]
  refine ⟨fun x hx => ?_, fun run hr => ?_⟩
  · obtain ⟨hd, hsaid⟩ := heffect.sent x hx
    exact ⟨hd, hsaid.elim .inl (opening_permitted transfer party disk x.packet)⟩
  · obtain ⟨rfl, hwaits⟩ := run_of_settle hr
    exact ⟨heffect.session, opening_blockSize transfer party disk, hwaits, fun exchange packet hw hp =>
      opening_permitted transfer party disk packet (.inl (heffect.repeated exchange packet hw hp))⟩

theorem begin_optionAck (h : transfer.options.anyAccepted = true) :
    ∃ more, (begin link disk admission transfer created party).sent =
      ⟨transfer.session.peer.endpoint, .optionAck transfer.options.accepted.fields⟩ :: more := by
  have haction : (opening transfer party disk).2.2 = .send (.optionAck transfer.options.accepted.fields) := by
    rw [opening, if_pos h]
  rw [begin_eq, haction]
  exact Stage.exchange_sends link { transfer with phase := .dataTransfer } _

end Connection

end Tftp
