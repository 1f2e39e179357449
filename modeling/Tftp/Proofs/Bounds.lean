import Tftp.Proofs.Agreement
import Tftp.Proofs.Isolation
import Tftp.Proofs.Steady

namespace Tftp

theorem Options.validate_within (options : Options) :
    (8 ≤ options.validate.blockSize ∧ options.validate.blockSize ≤ 65464) ∧
      1000 ≤ options.validate.timeout ∧ options.validate.timeout ≤ 255000 := by
  obtain ⟨x, y, z, hv, hs⟩ := validate_settled options
  rw [hv, hs.listed.blockSize, hs.listed.window]
  have htimeout : 1 ≤ y.value ∧ y.value ≤ 255 := hs.timeout.within
  exact ⟨hs.blksize.within, by omega⟩

theorem Connection.blockSize_of_offers {disk : Disk} {admission : Admission} {options requested : Options}
    (h : Offers disk admission options) (ha : admission.transfer.options = requested.validate) :
    options.blockSize = requested.validate.blockSize := by
  obtain ⟨x, y, z, hv, hs⟩ := Options.validate_settled requested
  rw [hv] at ha
  rw [Offers, ha] at h
  rw [hv]
  split at h
  · obtain ⟨size, -, rfl⟩ := h
    rw [hs.listed.setAccepted size, (hs.listed.withSize size).blockSize, hs.listed.blockSize]
  · rw [h]

inductive Terms : Option (List OptionField) → Options → Nat → Nat → Prop where
  | unset (config : Options) : Terms none Options.defaults config.validate.timeout 512
  | agreed {fields : List OptionField} {options : Options}
    (hb : options.blockSize = (Options.ofFields fields).validate.blockSize)
    (ht : options.timeout = (Options.ofFields fields).validate.timeout) :
    Terms (some fields) options options.timeout options.blockSize

theorem Terms.within {agreed : Option (List OptionField)} {options : Options} {timeout size : Nat}
    (h : Terms agreed options timeout size) : (8 ≤ size ∧ size ≤ 65464) ∧ 1000 ≤ timeout ∧ timeout ≤ 255000 := by
  cases h with
  | unset config => exact ⟨by decide, config.validate_within.2⟩
  | agreed hb ht =>
    rw [hb, ht]
    exact Options.validate_within _

def Datagram.requested (datagram : Datagram) : List OptionField :=
  match Packet.decode datagram.bytes with
  | .ok (.readRequest _ _ fields) | .ok (.writeRequest _ _ fields) => fields
  | _ => []

def Client.adopts? (client : Client) (datagram : Datagram) : Option (List OptionField) :=
  match client.run.stage with
  | .ended _ => none
  | .waiting _ =>
    match (client.run.transfer.session.read datagram).2 with
    | .ok (.optionAck fields) => if client.requesting then some fields else none
    | _ => none

namespace Correspondence

def adopts? (side : Correspondence) (event : Event) : Option (List OptionField) :=
  match side.correspondent, event with
  | .client client _, .datagram datagram => client.adopts? datagram
  | _, _ => none

/-- What may become of a client that is started or of a request that is admitted: the options that have been
negotiated, the side and all that it has sent. The link may come and go, and so may files. -/
inductive Reached : Option (List OptionField) → Correspondence → List Transmission → Prop where
  | client {link : Link} {stopped : Bool} {config : ClientConfig} {remote : String} {direction : Direction}
    {options : Options} {opened : Move (Disk × Client)}
    (h : Client.Starts link stopped config remote direction options opened) :
    Reached none (ofClient stopped opened.state) opened.sent
  | connection (link : Link) (disk : Disk) {config : ServerConfig} {ports : Admission.Ports} {request : Datagram}
    {admission : Admission} (h : Admission.ofDatagram config ports request = .ok admission) :
    Reached (some request.requested) (ofConnection (Connection.serve link disk admission).state)
      (Connection.serve link disk admission).sent
  | step (link : Link) {agreed : Option (List OptionField)} {side : Correspondence} {sent : List Transmission}
    (h : Reached agreed side sent) (event : Event) :
    Reached ((side.adopts? event).or agreed) (side.step link event).state (sent ++ (side.step link event).sent)
  | files {agreed : Option (List OptionField)} {side : Correspondence} {sent : List Transmission}
    (h : Reached agreed side sent) (disk : Disk) : Reached agreed { side with disk } sent

/-- The invariant. A connection that is over has no terms any more. -/
def Bound (agreed : Option (List OptionField)) (side : Correspondence) : Prop :=
  ∀ run, side.run? = some run → ∃ options timeout size, Terms agreed options timeout size ∧
    run.Within options timeout size

structure Bounded (agreed : Option (List OptionField)) (move : Move Correspondence) : Prop where
  bound : move.state.Bound agreed
  sent : ∀ x ∈ move.sent, x.packet.Fits 65464

variable {agreed : Option (List OptionField)} {options : Options} {timeout size : Nat}

theorem fits_of_steady (ht : Terms agreed options timeout size) {move : Move (Disk × Run)}
    (h : Run.Steady options timeout size move) : ∀ x ∈ move.sent, x.packet.Fits 65464 :=
  fun x hx block payload hp => Nat.le_trans (h.sent x hx block payload hp) ht.within.1.2

theorem bounded_client (ht : Terms agreed options timeout size) (stopped requesting : Bool) (ending : Client.Ending)
    {move : Move (Disk × Run)} (h : Run.Steady options timeout size move) :
    Bounded agreed (move.map fun next =>
      ofClient stopped (Client.settle next.1 { run := next.2, requesting, ending })) := by
  refine ⟨fun run hrun => ⟨options, timeout, size, ht, ?_⟩, fits_of_steady ht h⟩
  obtain ⟨ho, htimeout, hblocks, hrepeats⟩ := h.within
  rcases Client.settle_cases move.state.1 { run := move.state.2, requesting, ending } with
    ⟨hs, -⟩ | ⟨disk', result, hs⟩
  · simp only [Move.map, hs] at hrun
    cases hrun
    exact ⟨ho, htimeout, hblocks, hrepeats⟩
  · simp only [Move.map, hs] at hrun
    cases hrun
    exact ⟨ho, htimeout, hblocks, fun exchange packet hw => by cases hw⟩

theorem bounded_connection (ht : Terms agreed options timeout size) (file : String) (created : Bool)
    {move : Move (Disk × Run)} (h : Run.Steady options timeout size move) :
    Bounded agreed (move.map fun next => ofConnection (Connection.settle next.1 file created next.2)) := by
  refine ⟨fun run hrun => ⟨options, timeout, size, ht, ?_⟩, fits_of_steady ht h⟩
  have hstate : (Connection.settle move.state.1 file created move.state.2).2.state = .running run := by
    simp only [Move.map, ofConnection, run?] at hrun
    split at hrun
    · next hstate =>
      cases hrun
      exact hstate
    · cases hrun
  obtain ⟨rfl, -⟩ := Connection.run_of_settle hstate
  exact h.within

theorem starts_bounded {link : Link} {stopped : Bool} {config : ClientConfig} {remote : String} {direction : Direction}
    {asked : Options} {opened : Move (Disk × Client)}
    (h : Client.Starts link stopped config remote direction asked opened) :
    Bounded none (opened.map (ofClient stopped)) := by
  obtain ⟨⟨disk, phase, party, ending, hsize, rfl⟩, -⟩ := h.transmits
  have hrequest : (direction.request remote config.mode.name asked.fields).Fits party.blockSize := by
    refine Packet.fits_of_opcode ?_
    cases direction <;> exact fun h => by cases h
  have hterms : Terms none Options.defaults config.options.validate.timeout party.blockSize := by
    rw [hsize]
    exact .unset config.options
  let transfer : Transfer :=
    { session := .connect config.server config.options.validate.timeout, phase, path := remote
      options := Options.defaults }
  cases stopped with
  | true =>
    have hsteady : Run.Steady Options.defaults config.options.validate.timeout party.blockSize
        { state := (disk, .ofStage party (transfer, .ended (.error .cancelled))) } :=
      ⟨⟨rfl, rfl, rfl, fun exchange packet hw => by cases hw⟩, fun x hx => absurd hx List.not_mem_nil⟩
    exact bounded_client hterms true true ending hsteady
  | false =>
    exact bounded_client hterms false true ending
      (Run.act_steady link false transfer disk (Block.Action.fits_send hrequest))

theorem refuse_bounded (disk : Disk) (admission : Admission) (code : ErrorCode) :
    Bounded agreed ((Connection.refuse disk admission code).map ofConnection) := by
  refine ⟨fun run hrun => (by cases hrun), fun x hx => ?_⟩
  have hx' : x ∈ [admission.transfer.session.address (.error code code.message)] := hx
  rw [List.mem_singleton.mp hx']
  exact Packet.fits_of_opcode fun h => by cases h

theorem serve_bounded (link : Link) (disk : Disk) {config : ServerConfig} {ports : Admission.Ports}
    {request : Datagram} {admission : Admission} (h : Admission.ofDatagram config ports request = .ok admission) :
    Bounded (some request.requested) ((Connection.serve link disk admission).map ofConnection) := by
  obtain ⟨direction, path, mode, fields, hdecode, hkeeps⟩ := Admission.ofDatagram_ok h
  have hfields : request.requested = fields := by
    rw [Datagram.requested, hdecode]
    cases direction <;> rfl
  rcases Connection.serve_cases link disk admission with ⟨code, -, hr⟩ | ⟨disk', transfer, created, party, hs, hserves⟩
  · rw [hr]
    exact refuse_bounded disk admission code
  · have hblocks := Connection.blockSize_of_offers hserves.offers hkeeps.options
    have htimeout := (Connection.bears_of_offers hserves.offers hkeeps.options).timeout
    have hwindow : transfer.session.timeout = transfer.options.timeout := by
      rcases hserves.timeout with hk | hk
      · rw [hk, hkeeps.session, htimeout]
        rfl
      · exact hk
    have hsize : party.blockSize = transfer.options.blockSize := by
      rw [hserves.size, hkeeps.options, hblocks]
    have hopening := Connection.opening_blockSize transfer party disk'
    have hfits : (Connection.opening transfer party disk').2.2.Fits
        (Connection.opening transfer party disk').2.1.blockSize := by
      rw [hopening, Connection.opening]
      split
      · exact Block.Action.fits_send (Packet.fits_of_opcode fun h => by cases h)
      · exact party.start_fits disk'
    have hsteady := Run.act_steady link false { transfer with phase := .dataTransfer }
      (Connection.opening transfer party disk').1 hfits
    have hterms : Terms (some request.requested) transfer.options transfer.session.timeout
        (Connection.opening transfer party disk').2.1.blockSize := by
      rw [hfields, hopening, hwindow, hsize]
      exact .agreed hblocks htimeout
    rw [hs, Connection.begin_eq]
    exact bounded_connection hterms admission.file created hsteady

theorem onReply_steady {fields : List OptionField} (link : Link) (stopped : Bool) (disk : Disk) (run : Run) :
    Run.Steady (Options.ofFields fields).validate (Options.ofFields fields).validate.timeout
      (Options.ofFields fields).validate.blockSize (Client.onReply link stopped disk (.optionAck fields) run) := by
  have hsize : ((run.party.setBlockSize (Options.ofFields fields).validate.blockSize).start disk).2.1.blockSize =
      (Options.ofFields fields).validate.blockSize := by
    rw [Block.Party.start_blockSize, Block.Party.setBlockSize_blockSize]
  have hfits := (run.party.setBlockSize (Options.ofFields fields).validate.blockSize).start_fits disk
  rw [Block.Party.setBlockSize_blockSize, ← hsize] at hfits
  have hsteady := Run.act_steady link stopped
    ({ run.transfer with phase := .dataTransfer }.setOptions (Options.ofFields fields).validate)
    ((run.party.setBlockSize (Options.ofFields fields).validate.blockSize).start disk).1 hfits
  rw [hsize] at hsteady
  exact hsteady

theorem handle_steady (link : Link) (stopped : Bool) (disk : Disk) {client : Client} {packet : Packet} {run : Run}
    (h : run.Within options timeout size) (hp : client.requesting = true → packet.opcode ≠ .optionAck) :
    Run.Steady options timeout size (client.handle link stopped disk packet run) := by
  rw [Client.handle]
  cases hc : client.requesting with
  | false => exact Run.onPacket_steady link stopped disk packet h
  | true =>
    rw [if_pos rfl, Client.onReply_block link stopped disk packet run (hp hc)]
    exact Run.onPacket_steady link stopped disk packet ⟨h.options, h.timeout, h.blocks, h.repeats⟩

theorem handle_bounded (link : Link) (stopped : Bool) (disk : Disk) {client : Client} {packet : Packet} {run : Run}
    {datagram : Datagram} {exchange : Exchange} (hw : client.run.stage = .waiting exchange)
    (hr : (client.run.transfer.session.read datagram).2 = .ok packet) (ht : Terms agreed options timeout size)
    (h : run.Within options timeout size) :
    ∃ options timeout size, Terms ((client.adopts? datagram).or agreed) options timeout size ∧
      Run.Steady options timeout size (client.handle link stopped disk packet run) := by
  rw [Client.adopts?, hw]
  simp only [hr]
  by_cases hoffer : client.requesting = true ∧ packet.opcode = .optionAck
  · obtain ⟨hc, hp⟩ := hoffer
    cases packet with
    | optionAck fields =>
      rw [Client.handle, if_pos hc]
      simp only [if_pos hc, Option.some_or]
      exact ⟨_, _, _, .agreed rfl rfl, onReply_steady link stopped disk run⟩
    | _ => cases hp
  · have hother : client.requesting = true → packet.opcode ≠ .optionAck := fun hc hp => hoffer ⟨hc, hp⟩
    refine ⟨options, timeout, size, ?_, handle_steady link stopped disk h hother⟩
    split
    · next fields hfields =>
      cases hfields
      rw [if_neg fun hc => hother hc rfl]
      exact ht
    · exact ht

theorem step_bounded_client (link : Link) (disk : Disk) (client : Client) (stopped : Bool)
    (h : (⟨disk, .client client stopped⟩ : Correspondence).Bound agreed) (event : Event) :
    Bounded (((⟨disk, .client client stopped⟩ : Correspondence).adopts? event).or agreed)
      ((⟨disk, .client client stopped⟩ : Correspondence).step link event) := by
  obtain ⟨options, timeout, size, ht, hwithin⟩ := h client.run rfl
  cases event with
  | timeout => exact bounded_client ht stopped client.requesting client.ending (Run.onTimeout_steady link disk hwithin)
  | stop => exact ⟨h, fun x hx => absurd hx List.not_mem_nil⟩
  | datagram datagram =>
    rw [client_datagram]
    change Bounded ((client.adopts? datagram).or agreed) _
    cases hw : client.run.stage with
    | ended result =>
      have hnone : client.adopts? datagram = none := by
        simp only [Client.adopts?, hw]
      have hsame : client.run.receive disk datagram (client.handle link stopped) = { state := (disk, client.run) } := by
        simp only [Run.receive, hw]
      rw [hnone, hsame]
      exact bounded_client ht stopped false client.ending ⟨hwithin, fun x hx => absurd hx List.not_mem_nil⟩
    | waiting exchange =>
      rcases Run.receive_cases disk datagram (client.handle link stopped) hw with
        ⟨packet, hr, he⟩ | ⟨failure, hr, he⟩
      · obtain ⟨options, timeout, size, hterms, hsteady⟩ :=
          handle_bounded link stopped disk hw hr ht (hwithin.read datagram)
        rw [he]
        exact bounded_client hterms stopped false client.ending hsteady
      · have hnone : client.adopts? datagram = none := by
          simp only [Client.adopts?, hw, hr]
        rw [hnone, he]
        exact bounded_client ht stopped false client.ending (Run.refused_steady disk datagram failure hwithin)

theorem step_bounded_connection (link : Link) (disk : Disk) (connection : Connection)
    (h : (⟨disk, .connection connection⟩ : Correspondence).Bound agreed) (event : Event) :
    Bounded agreed ((⟨disk, .connection connection⟩ : Correspondence).step link event) := by
  obtain ⟨state, file, created⟩ := connection
  cases state with
  | ended result =>
    rw [connection_ended]
    exact ⟨h, fun x hx => absurd hx List.not_mem_nil⟩
  | running run =>
    obtain ⟨options, timeout, size, ht, hwithin⟩ := h run rfl
    cases event with
    | datagram datagram =>
      exact bounded_connection ht file created (Run.onDatagram_steady link false disk datagram hwithin)
    | timeout => exact bounded_connection ht file created (Run.onTimeout_steady link disk hwithin)
    | stop =>
      have hsteady : Run.Steady options timeout size ((run.transfer.abort .undefined "Server shutting down").map
          fun transfer => (disk, { run with transfer, stage := .ended (.error .cancelled) })) := by
        refine ⟨⟨hwithin.options, hwithin.timeout, hwithin.blocks, fun exchange packet hw => by cases hw⟩,
          fun x hx => ?_⟩
        rw [List.mem_singleton.mp hx]
        exact Packet.fits_of_opcode fun h => by cases h
      exact bounded_connection ht file created hsteady

theorem step_bounded {side : Correspondence} (link : Link) (h : side.Bound agreed) (event : Event) :
    Bounded ((side.adopts? event).or agreed) (side.step link event) := by
  obtain ⟨disk, correspondent⟩ := side
  cases correspondent with
  | client client stopped => exact step_bounded_client link disk client stopped h event
  | connection connection => exact step_bounded_connection link disk connection h event

theorem reached_bounded {side : Correspondence} {sent : List Transmission} (h : Reached agreed side sent) :
    Bounded agreed { state := side, sent } := by
  induction h with
  | client h => exact starts_bounded h
  | connection link disk h => exact serve_bounded link disk h
  | step link h event ih =>
    have hstep := step_bounded link ih.bound event
    refine ⟨hstep.bound, fun x hx => ?_⟩
    rcases List.mem_append.mp hx with hx | hx
    · exact ih.sent x hx
    · exact hstep.sent x hx
  | files h disk ih => exact ⟨fun run hrun => ih.bound run hrun, ih.sent⟩

/-- A transfer that these fields may have been negotiated for. -/
structure InBounds (agreed : Option (List OptionField)) (run : Run) : Prop where
  blockSize : 8 ≤ run.party.blockSize ∧ run.party.blockSize ≤ 65464
  timeout : 1000 ≤ run.transfer.session.timeout ∧ run.transfer.session.timeout ≤ 255000
  /-- What has been negotiated is what is recorded, and what is done. -/
  agrees : ∀ fields, agreed = some fields →
    run.party.blockSize = run.transfer.options.blockSize ∧
      run.transfer.session.timeout = run.transfer.options.timeout ∧
      run.transfer.options.blockSize = (Options.ofFields fields).validate.blockSize ∧
      run.transfer.options.timeout = (Options.ofFields fields).validate.timeout
  unset : agreed = none → run.transfer.options = Options.defaults ∧ run.party.blockSize = 512

theorem inBounds_of_terms {run : Run} (ht : Terms agreed options timeout size)
    (h : run.Within options timeout size) : InBounds agreed run := by
  obtain ⟨rfl, rfl, rfl, -⟩ := h
  refine ⟨ht.within.1, ht.within.2, fun fields hfields => ?_, fun hnone => ?_⟩
  · subst hfields
    generalize htimeout : run.transfer.session.timeout = timeout at ht
    generalize hsize : run.party.blockSize = size at ht
    cases ht with
    | agreed hb hw => exact ⟨rfl, rfl, hb, hw⟩
  · subst hnone
    generalize hoptions : run.transfer.options = options at ht
    generalize htimeout : run.transfer.session.timeout = timeout at ht
    generalize hsize : run.party.blockSize = size at ht
    cases ht with
    | unset config => exact ⟨rfl, rfl⟩

/-- Whatever a peer asks for or answers, and whatever options a client has, a transfer stays in bounds, and each
DATA packet that it sends fits a datagram. -/
theorem stays_inBounds {side : Correspondence} {sent : List Transmission} (h : Reached agreed side sent) :
    (∀ run, side.run? = some run → InBounds agreed run) ∧
      ∀ x ∈ sent, ∀ block payload, x.packet = .data block payload →
        x.packet.encode.length ≤ 65468 ∧ Session.send .connected x.packet = .ok () := by
  have hbounded := reached_bounded h
  refine ⟨fun run hrun => ?_, fun x hx block payload hp => ?_⟩
  · obtain ⟨options, timeout, size, ht, hwithin⟩ := hbounded.bound run hrun
    exact inBounds_of_terms ht hwithin
  · have hpayload := hbounded.sent x hx block payload hp
    have hlength : x.packet.encode.length ≤ 65468 := by
      rw [hp, Packet.length_encode_data]
      omega
    exact ⟨hlength, Session.send_fits x.packet (Nat.le_trans hlength (by decide))⟩

def wildOffer : List OptionField :=
  [⟨"blksize", "16"⟩, ⟨"timeout", "0"⟩, ⟨"BlkSize", "65465"⟩]

def wildUpload : Move (Disk × Client) :=
  Client.upload .connected false
    { server := { ip := .v4 127 0 0 1, port := 69 }, options := .ofFields [⟨"timeout", "255"⟩] }
    (.ofFields [⟨"timeout", "255"⟩]) {} (.pieces [.bytes [97, 98, 99]]) "note"

def wildAnswer : Event :=
  .datagram ⟨{ ip := .v4 127 0 0 1, port := 20000 }, (Packet.optionAck wildOffer).encode⟩

theorem wildOffer_inBounds :
    let side := ((ofClient false wildUpload.state).step .connected wildAnswer).state
    (∃ run, side.run? = some run ∧ InBounds (some wildOffer) run ∧ run.party.blockSize = 512 ∧
      run.transfer.session.timeout = 5000) ∧
    ∃ x ∈ ((ofClient false wildUpload.state).step .connected wildAnswer).sent,
      x.packet = .data 1 [97, 98, 99] ∧ x.packet.encode.length ≤ 65468 := by
  intro side
  have hstart : Client.Starts .connected false _ "note" .upload _ wildUpload := .upload {} _
  have hadopts : ((ofClient false wildUpload.state).adopts? wildAnswer).or none = some wildOffer := by
    decide +kernel
  have hreached := (Reached.client hstart).step .connected wildAnswer
  rw [hadopts] at hreached
  obtain ⟨hruns, hsent⟩ := stays_inBounds hreached
  have hblock : ⟨{ ip := .v4 127 0 0 1, port := 20000 }, .data 1 [97, 98, 99]⟩ ∈
      ((ofClient false wildUpload.state).step .connected wildAnswer).sent := by
    decide +kernel
  refine ⟨⟨_, rfl, hruns _ rfl, by decide +kernel, by decide +kernel⟩, _, hblock, rfl, ?_⟩
  exact (hsent _ (List.mem_append_right _ hblock) _ _ rfl).1

end Correspondence

end Tftp
