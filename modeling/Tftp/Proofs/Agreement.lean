import Tftp.Proofs.LossySystemRuns

namespace Tftp

/-- The terms that a transfer goes by. -/
structure Run.Follows (terms : Options) (run : Run) : Prop where
  blockSize : run.party.blockSize = terms.blockSize
  timeout : run.transfer.session.timeout = terms.timeout

structure Client.Transfers (client : Client) : Prop where
  answered : client.requesting = false
  sound : ∀ failure, client.run.stage ≠ .ended (.error failure)

/-- What is open between a client and a server, when these terms are theirs. -/
structure LossySystem.Agrees (terms : Options) (system : LossySystem) : Prop where
  server : ∀ connection ∈ system.server.connections, ∀ run, connection.state = .running run → run.Follows terms
  client : system.client.Transfers → system.client.run.Follows terms
  alike : ∀ connection ∈ system.server.connections, ∀ run, connection.state = .running run →
    system.client.Transfers → system.client.run.party.blockSize = run.party.blockSize
  /-- Terms that nobody had to be told. -/
  bare : terms.anyAccepted = false → terms.blockSize = 512 ∧ terms.timeout = 5000 ∧
    system.client.run.Follows terms ∧ ∀ x ∈ system.told, x.transmission.packet.opcode ≠ .optionAck

structure Connection.Opens (disk : Disk) (client : Endpoint) (direction : Direction) (fields : List OptionField)
    (file : String) (opened : Move (Disk × Connection)) : Prop where
  follows : ∀ run, opened.state.2.state = .running run → run.Follows (Options.ofFields fields).validate
  /-- An OACK comes first. Read again it echoes the terms, and it tells the size of the file. -/
  offers : (Options.ofFields fields).validate.anyAccepted = true → ∃ accepted more,
    opened.sent = ⟨client, .optionAck accepted⟩ :: more ∧
    Packet.decode (Packet.optionAck accepted).encode = .ok (.optionAck accepted) ∧
    (Options.ofFields fields).validate.Echoes accepted ∧
    (direction = .download → (Options.ofFields fields).names Options.Known.tsize.name = true →
      ∀ size, disk.size file = .ok size → size ≤ 4294967295 →
        (Options.ofFields accepted).validate.transferSize = size)
  silent : (Options.ofFields fields).validate.anyAccepted = false →
    ∀ x ∈ opened.sent, x.packet.opcode ≠ .optionAck

theorem Connection.serve_opens (link : Link) (disk : Disk) {admission : Admission} {client : Endpoint}
    {direction : Direction} {fields : List OptionField} (h : admission.Keeps client direction fields) :
    (∃ code, Refuses disk admission code ∧ serve link disk admission = refuse disk admission code) ∨
      Opens disk client direction fields admission.file (serve link disk admission) := by
  rcases serve_cases link disk admission with hr | ⟨disk', transfer, created, party, hs, hserves⟩
  · exact .inl hr
  · have hbears := bears_of_offers hserves.offers h.options
    have hpeer : transfer.session.peer.endpoint = client := by
      rw [hserves.peer, h.session]
      rfl
    obtain ⟨hsent, hrunning⟩ := begin_permitted link disk' admission transfer created party
    rw [hs]
    refine .inr ⟨fun run hr => ?_, fun ha => ?_, fun ha x hx => ?_⟩
    · have hfirst := hrunning run hr
      refine ⟨hfirst.size.trans (by rw [hserves.size, h.options]), ?_⟩
      rw [hfirst.session]
      rcases hserves.timeout with hk | hk
      · rw [hk, h.session]
        rfl
      · rw [hk, hbears.timeout]
    · obtain ⟨more, hfirst⟩ := begin_optionAck link disk' admission transfer created party
        (hbears.anyAccepted.trans ha)
      rw [hpeer] at hfirst
      refine ⟨transfer.options.accepted.fields, more, hfirst, ?_, hbears.echoes, ?_⟩
      · exact Packet.decode_encode (.optionAck _) hbears.echoes.plain
      · intro hd hn size hsize hle
        exact (transferSize_of_offers hserves.offers h.options (h.direction.trans hd) (h.sizeRequested.trans hn) ha
          hsize hle).1
    · rcases (hsent x hx).2 with he | hp
      · rw [he]
        decide
      · rw [hbears.anyAccepted, ha, if_neg (by decide)] at hp
        exact hp

namespace Client

variable {link : Link} {stopped : Bool} {config : ClientConfig} {remote : String} {direction : Direction}
  {options : Options} {opened : Move (Disk × Client)}

theorem Starts.transmits (h : Starts link stopped config remote direction options opened) :
    (∃ disk phase party ending, party.blockSize = 512 ∧
      opened = transmit link stopped config disk remote (direction.request remote config.mode.name options.fields)
        phase party ending) ∧
    config.options.validate.timeout = options.validate.timeout := by
  cases h with
  | downloadTo disk sink ending => exact ⟨⟨disk, _, _, ending, rfl, rfl⟩, rfl⟩
  | download disk dest opened h =>
    rw [Client.download] at h
    split at h
    · cases h
    split at h
    · cases h
    · cases h
      exact ⟨⟨_, _, _, _, rfl, rfl⟩, rfl⟩
  | upload disk source => exact ⟨⟨disk, _, _, _, rfl, rfl⟩, rfl⟩
  | uploadFile disk src node opened hn h =>
    rw [Client.uploadFile, hn] at h
    cases h
    exact ⟨⟨disk, _, _, _, rfl, rfl⟩, (timeout_sizedOptions config.options (disk.nodeSize node)).symm⟩

end Client

theorem Packet.fields_of_request {direction : Direction} {remote path mode : String} {given : Mode}
    {options fields : List OptionField} (hplain : ∀ option ∈ options, option.Plain)
    (h : decode (direction.request remote given.name options).encode = .ok (direction.request path mode fields)) :
    ∃ earlier, fields = earlier ++ options := by
  have hoptions : Wire.decodeOptions (Field.encode remote ++ Field.encode given.name ++ Wire.encodeOptions options) =
      .ok (⟨path, mode⟩ :: fields) := by
    rw [decode_eq_decodeBody] at h
    cases direction with
    | download =>
      obtain ⟨_, _, _, hread, heq⟩ := (Wire.decodeBody_readRequest _ _).mp h
      cases heq
      exact hread
    | upload =>
      obtain ⟨_, _, _, hread, heq⟩ := (Wire.decodeBody_writeRequest _ _).mp h
      cases heq
      exact hread
  obtain ⟨first, earlier, hfields⟩ :=
    Wire.suffix_of_decodeOptions remote given.name options _ given.plain_name hplain hoptions
  exact ⟨earlier, (List.cons.inj hfields).2⟩

namespace LossySystem

open Options (ofFields)

def Negotiation.ofRequest (ends : Ends) (direction : Direction) (remote path mode : String) (given : Mode)
    (options : Options) (fields : List OptionField) (hplain : ∀ field ∈ options.fields, field.Plain)
    (hread : Packet.decode (direction.request remote given.name options.fields).encode =
      .ok (direction.request path mode fields)) : Negotiation where
  ends
  request := direction.request remote given.name options.fields
  terms := (ofFields fields).validate
  patience := options.validate.timeout
  settles := by
    intro direction' path' mode' fields' h
    rw [hread] at h
    cases direction <;> cases direction' <;> cases h <;> rfl
  bare := by
    intro hnone
    obtain ⟨hsize, htimeout⟩ := Options.terms_of_none_accepted (ofFields fields) hnone
    refine ⟨hsize, htimeout, ?_⟩
    obtain ⟨earlier, rfl⟩ := Packet.fields_of_request hplain hread
    have hentries : ofFields (earlier ++ options.fields) =
        ⟨(ofFields earlier).entries ++ (ofFields options.fields).entries⟩ := by
      simp only [ofFields, List.map_append]
    rw [hentries] at hnone
    rw [← Options.validate_ofFields options]
    exact Options.timeout_of_none_accepted (ofFields earlier).entries (ofFields options.fields) hnone

namespace Negotiation

variable {negotiation : Negotiation}

theorem transmit_asks (link : Link) (stopped : Bool) (config : ClientConfig) (disk : Disk) (path : String)
    (phase : Phase) (party : Block.Party) (ending : Client.Ending) (hserver : config.server = negotiation.ends.listener)
    (hpatience : config.options.validate.timeout = negotiation.patience) (hsize : party.blockSize = 512) :
    negotiation.Asks (Client.transmit link stopped config disk path negotiation.request phase party ending).state.2 ∧
    ∀ x ∈ (Client.transmit link stopped config disk path negotiation.request phase party ending).sent,
      negotiation.Sends true x := by
  let transfer : Transfer :=
    { session := .connect config.server config.options.validate.timeout, phase, path, options := .defaults }
  have heffect : StepEffect transfer (StepEffect.Asked (.send negotiation.request))
      (fun packet => Block.Action.send negotiation.request = .send packet)
      (StepEffect.Succeeds (.send negotiation.request))
      (if stopped then { state := (transfer, .ended (.error .cancelled)) }
        else Stage.exchange link transfer (some negotiation.request)) := by
    cases stopped with
    | false => exact StepEffect.of_act link transfer (.send negotiation.request)
    | true => exact StepEffect.of_ended transfer transfer _ _ _ _ rfl fun h => by cases h
  have hsession : transfer.session = .connect negotiation.ends.listener negotiation.patience := by
    rw [← hserver, ← hpatience]
  refine ⟨asks_settle disk ⟨heffect.session.trans hsession, hsize, fun exchange packet hw hp => ?_,
    fun result hs => ?_⟩, fun x hx => ?_⟩
  · have hsent := heffect.repeated exchange packet hw hp
    injection hsent with hsent
    exact hsent.symm
  · cases result with
    | error failure => exact ⟨failure, rfl⟩
    | ok u => exact absurd (heffect.success hs) (StepEffect.not_succeeds_send _)
  · obtain ⟨hd, hsaid⟩ := heffect.sent x hx
    rw [hsession] at hd
    exact ⟨fun _ => hd, fun _ => (hsaid.imp_right StepEffect.eq_of_asked_send).symm⟩

theorem start_inv (link : Link) (stopped : Bool) (config : ClientConfig) (disk : Disk) (path : String)
    (phase : Phase) (party : Block.Party) (ending : Client.Ending) (hserver : config.server = negotiation.ends.listener)
    (hpatience : config.options.validate.timeout = negotiation.patience) (hsize : party.blockSize = 512)
    (server : ServerConfig) (serverDisk : Disk) :
    negotiation.Inv (start stopped
      (Client.transmit link stopped config disk path negotiation.request phase party ending) server serverDisk) := by
  obtain ⟨hasks, hsends⟩ := transmit_asks link stopped config disk path phase party ending hserver hpatience hsize
  have hr : (start stopped (Client.transmit link stopped config disk path negotiation.request phase party ending)
      server serverDisk).client.requesting = true := (Client.settle_keeps _ _).2.2
  refine ⟨⟨fun number connection run hc => (nomatch hc), fun x hx => (nomatch hx)⟩, fun _ => hasks, fun hf => ?_,
    fun x hx => ?_⟩
  · rw [hr] at hf
    cases hf
  · rw [hr]
    exact hsends x hx

theorem Inv.agrees {system : LossySystem} (h : negotiation.Inv system) : system.Agrees negotiation.terms := by
  have hserver : ∀ connection ∈ system.server.connections, ∀ run, connection.state = .running run →
      run.Follows negotiation.terms := by
    intro connection hc run hr
    obtain ⟨number, hn⟩ := List.mem_iff_getElem?.mp hc
    have hbound := h.talks.running number connection run hn hr
    exact ⟨hbound.size, by rw [hbound.session]⟩
  have hclient : system.client.Transfers → system.client.run.Follows negotiation.terms := by
    intro ht
    obtain ⟨⟨number, hsession⟩, hsize⟩ := (h.follows ht.answered).settled ht.sound
    exact ⟨hsize, by rw [hsession]⟩
  refine ⟨hserver, hclient, fun connection hc run hr ht => ?_, fun ha => ?_⟩
  · rw [(hclient ht).blockSize, (hserver connection hc run hr).blockSize]
  · obtain ⟨hsize, htimeout, hpatience⟩ := negotiation.bare ha
    have hfollows : system.client.run.party.blockSize = 512 ∧ system.client.run.transfer.session.timeout = 5000 := by
      cases hr : system.client.requesting with
      | true =>
        have hasks := h.asks hr
        rw [hasks.session, hasks.size]
        exact ⟨rfl, hpatience⟩
      | false =>
        obtain ⟨hwait, hblocks⟩ := (h.follows hr).bare ha
        exact ⟨hblocks, hwait⟩
    refine ⟨hsize, htimeout, ⟨hfollows.1.trans hsize.symm, hfollows.2.trans htimeout.symm⟩, fun x hx => ?_⟩
    rcases (h.talks.told x hx).1 with he | hu
    · rw [he]
      decide
    · rw [ha, if_neg (by decide)] at hu
      exact hu

end Negotiation

/-- The terms are those that the server reads from the request. Whoever is asked answers with them or refuses,
and whatever happens afterwards both sides keep to them. -/
theorem negotiation_agrees {link : Link} {stopped : Bool} {config : ClientConfig} {remote : String}
    {direction : Direction} {options : Options} {opened : Move (Disk × Client)} (ends : Ends)
    (hstart : Client.Starts link stopped config remote direction options opened)
    (hplain : ∀ field ∈ options.fields, field.Plain) (hserver : config.server = ends.listener)
    {path mode : String} {fields : List OptionField}
    (hread : Packet.decode (direction.request remote config.mode.name options.fields).encode =
      .ok (direction.request path mode fields)) (server : ServerConfig) :
    (Plain remote → fields = options.fields) ∧
    (∀ ports link' disk admission, Admission.ofDatagram server ports
          ⟨ends.client, (direction.request remote config.mode.name options.fields).encode⟩ = .ok admission →
        (∃ code, Connection.Refuses disk admission code ∧
            Connection.serve link' disk admission = Connection.refuse disk admission code) ∨
          Connection.Opens disk ends.client direction fields admission.file
            (Connection.serve link' disk admission)) ∧
    ∀ serverDisk events,
      ((start stopped opened server serverDisk).run link ends events).Agrees (ofFields fields).validate := by
  refine ⟨fun hremote => ?_, fun ports link' disk admission ha => ?_, fun serverDisk events => ?_⟩
  · have hrequest := direction.request_plain config.mode hremote hplain
    rw [Packet.decode_encode _ hrequest] at hread
    cases direction <;> cases hread <;> rfl
  · obtain ⟨direction', path', mode', fields', hdecode, hkeeps⟩ := Admission.ofDatagram_ok ha
    have hsame : direction' = direction ∧ fields' = fields := by
      rw [hread] at hdecode
      cases direction <;> cases direction' <;> cases hdecode <;> exact ⟨rfl, rfl⟩
    obtain ⟨rfl, rfl⟩ := hsame
    exact Connection.serve_opens link' disk hkeeps
  · obtain ⟨⟨disk, phase, party, ending, hsize, rfl⟩, htimeout⟩ := hstart.transmits
    let negotiation := Negotiation.ofRequest ends direction remote path mode config.mode options fields hplain hread
    have hinv : negotiation.Inv _ :=
      negotiation.start_inv link stopped config disk remote phase party ending hserver htimeout hsize server serverDisk
    exact (Negotiation.run_inv link events hinv).agrees

def localEnds : Ends where
  client := { ip := .v4 127 0 0 1, port := 40000 }
  listener := { ip := .v4 127 0 0 1, port := 69 }
  transfer := fun number => { ip := .v4 127 0 0 1, port := .ofNat (20000 + number % 1000) }
  transfer_ne_listener := by
    intro number h
    have hport : (UInt16.ofNat (20000 + number % 1000)).toNat = 69 :=
      congrArg (fun endpoint : Endpoint => endpoint.port.toNat) h
    rw [UInt16.toNat_ofNat'] at hport
    omega

def waveringConfig : ClientConfig where
  server := localEnds.listener
  options := .ofFields [⟨"BlkSize", "8"⟩, ⟨"tsize", "0"⟩, ⟨"blksize", "016"⟩, ⟨"timeout", "never"⟩]

def wavering : LossySystem :=
  (start false (Client.downloadTo .connected false waveringConfig {} "/note" (.file 0 0) .keep) { root := "/srv" }
    { nodes := [(["srv"], .directory), (["srv", "note"], .file 0)], contents := #[#[97, 13, 98, 10]] }).run
    .connected localEnds
    [.request 0 fun _ => {}, .clientTimeout, .request 1 fun _ => {}, .serverTimeout 0, .answer 2, .reply 0 2]

def offering : LossySystem :=
  (start false (Client.upload .connected false waveringConfig waveringConfig.options {} (.pieces [.bytes [97]]) "/note")
    { root := "/srv" } { nodes := [(["srv"], .directory)] }).run
    .connected localEnds [.request 0 fun _ => {}, .answer 0]

theorem wavering_agrees : wavering.Agrees (ofFields waveringConfig.options.fields).validate ∧
    wavering.client.run.party.blockSize = 16 ∧ wavering.server.connections.length = 2 ∧
    offering.Agrees (ofFields waveringConfig.options.fields).validate ∧ offering.client.run.party.blockSize = 16 ∧
    offering.told.map (fun x => x.transmission.packet) = [.optionAck [⟨"blksize", "16"⟩, ⟨"tsize", "0"⟩]] := by
  have hplain : ∀ field ∈ waveringConfig.options.fields, field.Plain := by decide
  have hread : ∀ direction : Direction, Packet.decode _ = .ok _ := fun direction => Packet.decode_encode _
    (direction.request_plain waveringConfig.mode (by decide : Plain "/note") hplain)
  obtain ⟨-, -, hwavering⟩ := negotiation_agrees localEnds
    (.downloadTo {} (.file 0 0) .keep : Client.Starts .connected false waveringConfig "/note" .download
      waveringConfig.options _) hplain rfl (hread .download) { root := "/srv" }
  obtain ⟨-, -, hoffering⟩ := negotiation_agrees localEnds
    (.upload {} (.pieces [.bytes [97]]) : Client.Starts .connected false waveringConfig "/note" .upload
      waveringConfig.options _) hplain rfl (hread .upload) { root := "/srv" }
  exact ⟨hwavering _ _, by decide +kernel, by decide +kernel, hoffering _ _, by decide +kernel, by decide +kernel⟩

end LossySystem

end Tftp
