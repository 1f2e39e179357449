import Tftp.Proofs.TransferOutcome

namespace Tftp.TransferTrace

theorem onPacket_sender (disk : Disk) (packet : Packet) (s : Block.Sender) :
    ∃ next, (Block.Party.onPacket disk packet (.sender s)).2.1 = .sender next :=
  ⟨(s.onPacket disk packet).1, rfl⟩

theorem begin_sender (link : Link) (stopped : Bool) (disk : Disk) (transfer : Transfer) (s : Block.Sender)
    (start : Start) : ∃ next, (begin link stopped disk transfer (.sender s) start).run.party = .sender next := by
  cases start <;> exact ⟨_, rfl⟩

theorem step_sender (link : Link) {trace : TransferTrace} (h : ∃ s, trace.run.party = .sender s) (event : Event) :
    ∃ next, (trace.step link event).run.party = .sender next := by
  cases hw : trace.run.stage with
  | ended result =>
    rw [step_ended link hw]
    exact h
  | waiting exchange =>
    cases event with
    | datagram datagram =>
      cases hr : (trace.run.transfer.session.read datagram).2 with
      | ok packet =>
        obtain ⟨s, hs⟩ := h
        rw [step_packet link hw hr, hs]
        exact onPacket_sender trace.disk packet s
      | error failure =>
        rw [step_refused link hw hr]
        exact h
    | timeout =>
      rw [step_timeout link hw]
      exact h
    | stop =>
      rw [step_stop link hw]
      exact h
    | files disk =>
      rw [step_files link hw]
      exact h

theorem after_sender (link : Link) {trace : TransferTrace} (h : ∃ s, trace.run.party = .sender s)
    (events : List Event) : ∃ next, (trace.after link events).run.party = .sender next := by
  induction events generalizing trace with
  | nil => exact h
  | cons event events ih => exact ih (step_sender link h event)

def Waiting (trace : TransferTrace) : Prop :=
  ∃ exchange, trace.run.stage = .waiting exchange

/-- What a sender does while it waits for the ACK of the block that it has sent last. -/
structure Persists (link : Link) (n : UInt16) (payload : Bytes) (trace : TransferTrace) : Prop where
  idle : idle trace.record ≤ 2
  again : TransferTrace.idle trace.record < 2 → ¬Stale n trace.record →
    (trace.step link .timeout).record = trace.record ++ [.expired, .sent (.data n payload)] ∧
      (trace.step link .timeout).Waiting
  silent : TransferTrace.idle trace.record < 2 → Stale n trace.record →
    (trace.step link .timeout).record = trace.record ++ [.expired] ∧ (trace.step link .timeout).Waiting
  ends : TransferTrace.idle trace.record = 2 →
    (trace.step link .timeout).record = trace.record ++ [.expired, .sent (.error ⟨0⟩ "Timeout")] ∧
      (trace.step link .timeout).run.stage = .ended (.error (.own ⟨0⟩ "Timeout"))
  ignores : ∀ datagram m, (trace.run.transfer.session.read datagram).2 = .ok (.ack m) →
    Block.order m n = .behind → trace.stopped = false →
    (trace.step link (.datagram datagram)).record = trace.record ++ [.heard (.ack m)] ∧
      (trace.step link (.datagram datagram)).run.party = trace.run.party ∧
      (trace.step link (.datagram datagram)).disk = trace.disk ∧
      (trace.step link (.datagram datagram)).Waiting

variable (link : Link)

theorem step_again {trace : TransferTrace} {left : Nat} {packet : Packet}
    (hw : trace.run.stage = .waiting { repeated := some packet, left := left + 1 })
    (hs : Session.send link packet = .ok ()) :
    (trace.step link .timeout).record = trace.record ++ [.expired, .sent packet] ∧
      (trace.step link .timeout).Waiting := by
  rw [step_timeout link hw]
  simp only [Exchange.openWindow, hs, Move.andThen, Stage.ofProgress, take, Move.map, List.append_assoc]
  exact ⟨rfl, _, rfl⟩

theorem step_silent {trace : TransferTrace} {left : Nat}
    (hw : trace.run.stage = .waiting { repeated := none, left := left + 1 }) :
    (trace.step link .timeout).record = trace.record ++ [.expired] ∧ (trace.step link .timeout).Waiting := by
  rw [step_timeout link hw]
  exact ⟨List.append_nil _, _, rfl⟩

theorem step_last {trace : TransferTrace} {repeated : Option Packet}
    (hw : trace.run.stage = .waiting { repeated, left := 0 }) :
    (trace.step link .timeout).record = trace.record ++ [.expired, .sent (.error ⟨0⟩ "Timeout")] ∧
      (trace.step link .timeout).run.stage = .ended (.error (.own ⟨0⟩ "Timeout")) := by
  rw [step_timeout link hw]
  exact ⟨List.append_assoc .., rfl⟩

theorem act_listen (transfer : Transfer) : ∃ left, Stage.act link false transfer .listen =
    { state := (transfer, .waiting { repeated := none, left }) } := by
  simp only [Stage.act, if_neg Bool.false_ne_true, Stage.exchange, Transfer.exchange]
  cases transfer.lastPacket <;> exact ⟨_, rfl⟩

theorem step_ignored {trace : TransferTrace} {exchange : Exchange} {s : Block.Sender} {datagram : Datagram}
    {m : UInt16} (hw : trace.run.stage = .waiting exchange) (hs : trace.run.party = .sender s)
    (hr : (trace.run.transfer.session.read datagram).2 = .ok (.ack m))
    (horder : Block.order m s.current = .behind) (hstop : trace.stopped = false) :
    (trace.step link (.datagram datagram)).record = trace.record ++ [.heard (.ack m)] ∧
      (trace.step link (.datagram datagram)).run.party = trace.run.party ∧
      (trace.step link (.datagram datagram)).disk = trace.disk ∧
      (trace.step link (.datagram datagram)).Waiting := by
  have hack : (Block.Party.sender s).onPacket trace.disk (.ack m) = (trace.disk, .sender s, .listen) := by
    simp only [Block.Party.onPacket, Block.Sender.onPacket, Block.Sender.onAck, horder]
  obtain ⟨left, hact⟩ := act_listen link (trace.received datagram)
  rw [step_packet link hw hr, hs, hack, hstop, hact]
  exact ⟨List.append_nil _, rfl, rfl, _, rfl⟩

theorem Stale.getLast?_ne {n : UInt16} {record : List Entry} (h : Stale n record) (packet : Packet) :
    record.getLast? ≠ some (.sent packet) := by
  obtain ⟨front, m, count, rfl, -⟩ := h
  cases count with
  | zero => simp
  | succ count =>
    rw [List.replicate_succ', ← List.cons_append, ← List.append_assoc, List.getLast?_concat]
    exact fun h => nomatch h

theorem Pending.persists {trace : TransferTrace} {exchange : Exchange} {s : Block.Sender} {n : UInt16}
    {payload : Bytes} (h : Pending link trace.record trace.run.party trace.run.transfer exchange)
    (hw : trace.run.stage = .waiting exchange) (hs : trace.run.party = .sender s)
    (hlast : (said trace.record).getLast? = some (.data n payload)) : Persists link n payload trace := by
  have hcurrent : n = s.current := (h.tracked s hs).number n payload hlast
  have hsaid : said trace.record ≠ [] := fun hnil => by
    rw [hnil] at hlast
    cases hlast
  have hwindows := h.windows hsaid
  rw [Exchange.windows] at hwindows
  obtain ⟨repeated, left⟩ := exchange
  simp only at hwindows
  refine ⟨by omega, fun hidle hstale => ?_, fun hidle hstale => ?_, fun hidle => ?_, fun datagram m hr hm hstop => ?_⟩
  · cases repeated with
    | none => exact absurd (hcurrent ▸ h.hushed rfl s hs) hstale
    | some packet =>
      obtain ⟨-, hsent, hcarried⟩ := h.repeats packet rfl
      have hpacket := said_getLast? hsent
      rw [hlast] at hpacket
      cases hpacket
      obtain ⟨rest, rfl⟩ : ∃ rest, left = rest + 1 := ⟨left - 1, by omega⟩
      exact step_again link hw hcarried
  · cases repeated with
    | none =>
      obtain ⟨rest, rfl⟩ : ∃ rest, left = rest + 1 := ⟨left - 1, by omega⟩
      exact step_silent link hw
    | some packet => exact absurd (h.repeats packet rfl).2.1 (hstale.getLast?_ne packet)
  · obtain rfl : left = 0 := by omega
    exact step_last link hw
  · rw [hcurrent] at hm
    exact step_ignored link hw hs hr hm hstop

/-- In every trace a sender keeps sending the block that is waited for, unless an old ACK silences it. -/
theorem block_persists (stopped : Bool) (disk : Disk) (transfer : Transfer) (hc : Clean transfer)
    (source : Source) (mode : Mode) (size : Nat) (start : Start) (events : List Event) (n : UInt16)
    (payload : Bytes) :
    let trace := (begin link stopped disk transfer (.sending source mode size) start).after link events
    trace.Waiting → (said trace.record).getLast? = some (.data n payload) →
      Persists link n payload trace := by
  intro trace hwaiting hlast
  have hcoherent := after_coherent link
    (begin_coherent link stopped disk hc (.sending source mode size) start) events
  obtain ⟨exchange, hw⟩ := hwaiting
  obtain ⟨s, hs⟩ := after_sender link (begin_sender link stopped disk transfer _ start) events
  rw [Coherent, hw] at hcoherent
  exact hcoherent.persists link hw hs hlast

theorem threeOctets_persists :
    (threeOctets.after .connected [.timeout]).Waiting ∧
      (said (threeOctets.after .connected [.timeout]).record).getLast? = some (.data 1 [97, 98]) ∧
      Persists .connected 1 [97, 98] (threeOctets.after .connected [.timeout]) :=
  ⟨⟨_, rfl⟩, rfl, block_persists .connected false {} _ ⟨rfl, rfl⟩ _ _ _ .first [.timeout] _ _ ⟨_, rfl⟩ rfl⟩

/-- Block 1 is not acknowledged, and no window has closed yet. Without the old ACK it is sent again, and with
it never. -/
theorem threeOctets_silenced :
    (said (threeOctets.after .connected [ackFrom 40002 0]).record).getLast? = some (.data 1 [97, 98]) ∧
      idle (threeOctets.after .connected [ackFrom 40002 0]).record = 0 ∧
      (threeOctets.after .connected [.timeout]).record =
        [.sent (.data 1 [97, 98]), .expired, .sent (.data 1 [97, 98])] ∧
      (threeOctets.after .connected [ackFrom 40002 0, .timeout]).record =
        [.sent (.data 1 [97, 98]), .heard (.ack 0), .expired] ∧
      (threeOctets.after .connected [ackFrom 40002 0, .timeout, .timeout, .timeout]).record =
        [.sent (.data 1 [97, 98]), .heard (.ack 0), .expired, .expired, .expired,
          .sent (.error ⟨0⟩ "Timeout")] :=
  ⟨by rfl, by rfl, by rfl, by rfl, by rfl⟩

end Tftp.TransferTrace
