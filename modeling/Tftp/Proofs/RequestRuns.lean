import Tftp.Proofs.Isolation

namespace Tftp

def Transmission.Echoes (first x : Transmission) : Prop :=
  x.packet.Optionless ∨ x = first

namespace Correspondence

/-- A client that has nothing else to repeat when its window closes. -/
inductive Insists (first : Transmission) : Correspondence → Prop where
  | client {disk : Disk} {client : Client} {stopped : Bool}
    (h : ∀ exchange packet, client.run.stage = .waiting exchange → exchange.repeated = some packet →
      first.Echoes (client.run.transfer.session.address packet)) :
    Insists first ⟨disk, .client client stopped⟩

structure Insisting (first : Transmission) (move : Move Correspondence) : Prop where
  insists : move.state.Insists first
  sent : ∀ x ∈ move.sent, first.Echoes x

variable {first : Transmission}

theorem insists_settle (disk : Disk) (stopped : Bool) (client : Client)
    (h : ∀ exchange packet, client.run.stage = .waiting exchange → exchange.repeated = some packet →
      first.Echoes (client.run.transfer.session.address packet)) :
    (ofClient stopped (Client.settle disk client)).Insists first := by
  rcases Client.settle_cases disk client with ⟨hs, -⟩ | ⟨disk', result, hs⟩
  · rw [hs]
    exact .client h
  · rw [hs]
    exact .client nofun

theorem insisting_of_effect {transfer : Transfer} {tells repeats : Packet → Prop} {succeeds : Prop}
    {move : Move (Transfer × Stage)} (h : StepEffect transfer tells repeats succeeds move)
    (ht : ∀ packet, tells packet → first.Echoes (transfer.session.address packet))
    (hr : ∀ packet, repeats packet → first.Echoes (transfer.session.address packet))
    (disk : Disk) (stopped requesting : Bool) (party : Block.Party) (ending : Client.Ending) :
    Insisting first (move.map fun next =>
      ofClient stopped (Client.settle disk { run := .ofStage party next, requesting, ending })) := by
  refine ⟨insists_settle disk stopped _ fun exchange packet hw hp => ?_, fun x hx => ?_⟩
  · have hrepeat := hr packet (h.repeated exchange packet hw hp)
    rw [← h.session] at hrepeat
    exact hrepeat
  · obtain ⟨hd, hsaid⟩ := h.sent x hx
    rcases hsaid with he | htell
    · exact .inl (.inr (.inr he))
    · have hx : transfer.session.address x.packet = x := by
        rw [Session.address, ← hd]
      exact hx ▸ ht x.packet htell

theorem insisting_transmit (link : Link) (stopped : Bool) (config : ClientConfig) (disk : Disk) (path : String)
    (request : Packet) (phase : Phase) (party : Block.Party) (ending : Client.Ending) :
    Insisting ⟨config.server, request⟩
      ((Client.transmit link stopped config disk path request phase party ending).map (ofClient stopped)) := by
  cases stopped with
  | true => exact ⟨insists_settle disk true _ nofun, nofun⟩
  | false =>
    have heffect := StepEffect.of_act link
      { session := .connect config.server config.options.validate.timeout, phase, path
        options := Options.defaults } (.send request)
    refine insisting_of_effect heffect (fun packet hp => .inr ?_) (fun packet hp => .inr ?_) disk false true party
      ending
    · rw [StepEffect.eq_of_asked_send hp]
      rfl
    · cases hp
      rfl

theorem step_insists (link : Link) {side : Correspondence} (h : side.Insists first) (event : Event) :
    Insisting first (side.step link event) := by
  cases h with
  | @client disk client stopped h =>
    cases event with
    | datagram datagram =>
      rw [client_datagram]
      cases hs : client.run.stage with
      | ended result =>
        have hquiet : client.run.receive disk datagram (client.handle link stopped) =
            { state := (disk, client.run) } := by
          simp only [Run.receive, hs]
        rw [hquiet]
        refine ⟨insists_settle disk stopped _ fun exchange packet hw => ?_, fun x hx => absurd hx List.not_mem_nil⟩
        rw [hs] at hw
        cases hw
      | waiting exchange =>
        -- An answer leaves nothing of the request to repeat.
        have hmove := Run.receive_optionless datagram hs fun packet run =>
          client.handle_optionless link stopped disk packet run
        exact ⟨insists_settle _ stopped _ fun exchange packet hw hp => .inl (hmove.repeated exchange packet hw hp),
          fun x hx => .inl (hmove.sent x hx)⟩
    | timeout =>
      have heffect := StepEffect.of_expire link client.run.transfer client.run.stage
      have hrepeat : ∀ packet, (∃ exchange, client.run.stage = .waiting exchange ∧ exchange.repeated = some packet) →
          first.Echoes (client.run.transfer.session.address packet) := by
        rintro packet ⟨exchange, hw, hp⟩
        exact h exchange packet hw hp
      exact insisting_of_effect heffect hrepeat hrepeat disk stopped client.requesting client.run.party client.ending
    | stop => exact ⟨.client h, fun x hx => absurd hx List.not_mem_nil⟩

theorem run_insists (link : Link) {side : Correspondence} (h : side.Insists first) (events : List Event) :
    Insisting first (side.run link events) := by
  induction events generalizing side with
  | nil => exact ⟨h, nofun⟩
  | cons event events ih =>
    obtain ⟨hnext, hsent⟩ := step_insists link h event
    obtain ⟨hlast, hlater⟩ := ih hnext
    exact ⟨hlast, fun x hx => (List.mem_append.mp hx).elim (hsent x) (hlater x)⟩

end Correspondence

namespace Client

/-- A client that begins with this request to the server, unless it has been stopped, and asks nobody for anything
else. -/
structure Requests (link : Link) (stopped : Bool) (server : Endpoint) (request : Packet)
    (opened : Move (Disk × Client)) : Prop where
  first : stopped = false → ∃ more, opened.sent = ⟨server, request⟩ :: more
  only : ∀ events, ∀ x ∈ ((opened.map (Correspondence.ofClient stopped)).andThen fun side =>
    side.run link events).sent, x.packet.Optionless ∨ x = ⟨server, request⟩

theorem transmit_requests (link : Link) (stopped : Bool) (config : ClientConfig) (disk : Disk) (path : String)
    (request : Packet) (phase : Phase) (party : Block.Party) (ending : Ending) :
    Requests link stopped config.server request
      (transmit link stopped config disk path request phase party ending) := by
  refine ⟨fun hs => ?_, fun events x hx => ?_⟩
  · subst hs
    exact Stage.exchange_sends link _ request
  · obtain ⟨hnext, hsent⟩ :=
      Correspondence.insisting_transmit link stopped config disk path request phase party ending
    exact (List.mem_append.mp hx).elim (hsent x) ((Correspondence.run_insists link hnext events).sent x)

end Client

end Tftp
