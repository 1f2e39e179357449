import Tftp.Block.Party
import Tftp.Proofs.Blocks

namespace Tftp.Block

namespace Action

def ends : Action → Bool
  | close _ | terminate _ => true
  | send _ | listen => false

def sent? : Action → Option Packet
  | send packet => some packet
  | _ => none

end Action

namespace Sender

def hear (disk : Disk) (sender : Sender) (packets : List Packet) : Sender × List Action :=
  Transducer.run (fun s packet => ((s.onPacket disk packet).1, [(s.onPacket disk packet).2])) sender packets

/-- What a sender that has handed out the first blocks does with the next packet. -/
structure InTurn (disk : Disk) (size : Nat) (wire : Bytes) (handed : Nat) (sender : Sender) : Prop where
  next : handed < count size wire →
    (sender.onPacket disk (.ack (.ofNat handed))).2 =
      .send (.data (.ofNat (handed + 1)) (payload size wire (handed + 1)))
  only : ∀ packet sent, (sender.onPacket disk packet).2 = .send sent →
    packet = .ack (.ofNat handed) ∧ handed < count size wire
  done : ∀ packet, (sender.onPacket disk packet).2 = .close none ↔
    packet = .ack (.ofNat handed) ∧ handed = count size wire
  stale : ∀ number, Behind number (.ofNat handed) → sender.onPacket disk (.ack number) = (sender, .listen)
  early : ∀ number, Ahead number (.ofNat handed) →
    sender.onPacket disk (.ack number) = (sender, .terminate (.standardError .illegalOperation))
  stray : ∀ packet, packet.opcode ≠ .ack → packet.opcode ≠ .error →
    sender.onPacket disk packet = (sender, .terminate (.standardError .illegalOperation))
  gaveUp : ∀ code message, ∃ reason, sender.onPacket disk (.error code message) = (sender, .close (some reason))

variable {disk : Disk} {mode : Mode} {size handed : Nat} {wire : Bytes} {sender : Sender}

theorem hear_cons (disk : Disk) (sender : Sender) (packet : Packet) (packets : List Packet) :
    sender.hear disk (packet :: packets) =
      (((sender.onPacket disk packet).1.hear disk packets).1,
        (sender.onPacket disk packet).2 :: ((sender.onPacket disk packet).1.hear disk packets).2) := by
  rw [hear, Transducer.run_cons]
  rfl

theorem At.stale (h : sender.At disk mode size wire handed) {number : UInt16}
    (hb : Behind number (.ofNat handed)) : sender.onPacket disk (.ack number) = (sender, .listen) := by
  rw [← order_eq_behind_iff, ← h.current] at hb
  simp only [onPacket, onAck, hb]

theorem At.early (h : sender.At disk mode size wire handed) {number : UInt16}
    (ha : Ahead number (.ofNat handed)) : sender.onPacket disk (.ack number) = (sender, .refuse) := by
  rw [← order_eq_ahead_iff, ← h.current] at ha
  simp only [onPacket, onAck, ha]

inductive Reacts (disk : Disk) (mode : Mode) (size : Nat) (wire : Bytes) (handed : Nat) (sender : Sender) :
    Packet → Sender × Action → Prop where
  | next {next : Sender} (hn : handed < count size wire) (hat : next.At disk mode size wire (handed + 1)) :
    Reacts disk mode size wire handed sender (.ack (.ofNat handed))
      (next, .send (.data (.ofNat (handed + 1)) (payload size wire (handed + 1))))
  | done (hn : handed = count size wire) :
    Reacts disk mode size wire handed sender (.ack (.ofNat handed)) (sender, .close none)
  | stale {number : UInt16} (hne : number ≠ .ofNat handed) :
    Reacts disk mode size wire handed sender (.ack number) (sender, .listen)
  | refuse (packet : Packet) : Reacts disk mode size wire handed sender packet (sender, .refuse)
  | gaveUp (code : ErrorCode) (message : String) :
    Reacts disk mode size wire handed sender (.error code message) (sender, .peerError code message)

theorem At.reacts (hs : 0 < size) (h : sender.At disk mode size wire handed) (packet : Packet) :
    Reacts disk mode size wire handed sender packet (sender.onPacket disk packet) := by
  cases packet with
  | ack number =>
    rcases order_cases number (.ofNat handed) with rfl | hb | ha
    · rcases Nat.lt_or_eq_of_le h.bound with hn | hn
      · obtain ⟨next, hnext, hat⟩ := onAck_due hs h hn
        rw [onPacket, hnext]
        exact .next hn hat
      · rw [onPacket, onAck_final h hn]
        exact .done hn
    · rw [h.stale hb]
      exact .stale hb.ne
    · rw [h.early ha]
      exact .refuse _
  | error code message => exact .gaveUp code message
  | _ => exact .refuse _

theorem At.inTurn (hs : 0 < size) (h : sender.At disk mode size wire handed) :
    sender.InTurn disk size wire handed := by
  refine ⟨fun hn => ?_, fun packet sent ha => ?_, fun packet => ⟨fun ha => ?_, ?_⟩, fun number => h.stale,
    fun number => h.early, fun packet hack herror => ?_, fun code message => ⟨_, rfl⟩⟩
  · obtain ⟨next, hnext, -⟩ := onAck_due hs h hn
    exact congrArg Prod.snd hnext
  · have hr := h.reacts hs packet
    generalize sender.onPacket disk packet = outcome at hr ha
    cases hr with
    | next hn hat => exact ⟨rfl, hn⟩
    | _ => cases ha
  · have hr := h.reacts hs packet
    generalize sender.onPacket disk packet = outcome at hr ha
    cases hr with
    | done hn => exact ⟨rfl, hn⟩
    | _ => cases ha
  · rintro ⟨rfl, hn⟩
    exact congrArg Prod.snd (onAck_final h hn)
  · cases packet with
    | ack number => exact absurd rfl hack
    | error code message => exact absurd rfl herror
    | _ => rfl

theorem hear_at (hs : 0 < size) (h : sender.At disk mode size wire handed) (packets : List Packet)
    (hopen : ∀ action ∈ (sender.hear disk packets).2, action.ends = false) :
    ∃ last, (sender.hear disk packets).1.At disk mode size wire last ∧
      dataPackets size wire handed ++ (sender.hear disk packets).2.filterMap Action.sent? =
        dataPackets size wire last := by
  induction packets generalizing sender handed with
  | nil => exact ⟨handed, h, List.append_nil _⟩
  | cons packet packets ih =>
    rw [hear_cons] at hopen ⊢
    have hfirst : (sender.onPacket disk packet).2.ends = false := hopen _ List.mem_cons_self
    have hrest := fun action hmem => hopen action (List.mem_cons_of_mem _ hmem)
    have hr := h.reacts hs packet
    generalize sender.onPacket disk packet = outcome at hr hfirst hrest ⊢
    cases hr with
    | next hn hat =>
      obtain ⟨last, hlast, hsent⟩ := ih hat hrest
      refine ⟨last, hlast, ?_⟩
      rw [dataPackets_succ, List.append_assoc] at hsent
      exact hsent
    | stale => exact ih h hrest
    -- all other reactions end the exchange
    | _ => cases hfirst

theorem hear_acks (hs : 0 < size) (h : sender.At disk mode size wire 0) (n : Nat) (hn : n ≤ count size wire) :
    ∃ last, sender.hear disk ((List.range n).map fun i => .ack (.ofNat i)) =
        (last, (dataPackets size wire n).map .send) ∧ last.At disk mode size wire n := by
  induction n with
  | zero => exact ⟨sender, rfl, h⟩
  | succ n ih =>
    obtain ⟨last, hheard, hat⟩ := ih (Nat.le_of_succ_le hn)
    obtain ⟨next, hnext, hat'⟩ := onAck_due hs hat hn
    refine ⟨next, ?_, hat'⟩
    rw [hear] at hheard
    rw [List.range_succ, List.map_append, hear, Transducer.run_append, hheard, dataPackets_succ, List.map_append]
    simp only [List.map_cons, List.map_nil, Transducer.run_cons, Transducer.run_nil, onPacket, hnext,
      List.append_nil]

/-- All that a sender of this wire form hands out. -/
structure HandsOut (disk : Disk) (size : Nat) (wire : Bytes) (sender : Sender) : Prop where
  /-- As long as no packet has ended the exchange, all that is sent are the first blocks, in order and each
  once. -/
  first : ∀ packets, (∀ action ∈ (sender.hear disk packets).2, action.ends = false) →
    ∃ handed ≤ count size wire, (sender.hear disk packets).2.filterMap Action.sent? = dataPackets size wire handed ∧
      (sender.hear disk packets).1.InTurn disk size wire handed
  all : (sender.hear disk ((List.range (count size wire)).map fun i => .ack (.ofNat i))).2 =
    (dataPackets size wire (count size wire)).map .send
  short : ∀ number, 0 < number → number ≤ count size wire →
    (payload size wire number).length ≤ size ∧
      ((payload size wire number).length < size ↔ number = count size wire)

/-- However a source is read and whatever comes in, its wire form is handed out block by block. To open the
exchange is to answer ACK 0. -/
theorem hands_out_in_turn (disk : Disk) (mode : Mode) (size : Nat) (hs : 0 < size) (source : Source)
    (content : Bytes) (hd : source.Delivers disk content) :
    HandsOut disk size (mode.wireForm content) { cutter := { source, mode }, blockSize := size } ∧
      (Party.sending source mode size).start disk = (Party.sending source mode size).onPacket disk (.ack 0) := by
  have hzero : At disk mode size (mode.wireForm content) 0 { cutter := { source, mode }, blockSize := size } :=
    at_zero hd
  refine ⟨⟨fun packets hopen => ?_, ?_, fun number hpos hle => ⟨length_payload_le number, ?_⟩⟩, rfl⟩
  · obtain ⟨last, hat, hsent⟩ := hear_at hs hzero packets hopen
    exact ⟨last, hat.bound, hsent, hat.inTurn hs⟩
  · obtain ⟨last, hheard, -⟩ := hear_acks hs hzero (count size (mode.wireForm content)) (Nat.le_refl _)
    exact congrArg Prod.snd hheard
  · obtain ⟨before, rfl⟩ : ∃ before, number = before + 1 := ⟨number - 1, by omega⟩
    exact length_payload_lt_iff hs before hle

def twoReads : Sender where
  cutter := { source := .pieces [.bytes [10], .bytes [], .bytes [97]], mode := .netascii }
  blockSize := 2

theorem twoReads_handsOut :
    HandsOut {} 2 [13, 10, 97] twoReads ∧
      (twoReads.hear {} [.ack 0, .ack 65535, .ack 1, .ack 2]).2 =
        [.send (.data 1 [13, 10]), .listen, .send (.data 2 [97]), .close none] :=
  ⟨(hands_out_in_turn {} .netascii 2 (by decide) (.pieces [.bytes [10], .bytes [], .bytes [97]]) [10, 97]
    ⟨[[10], [], [97]], rfl, rfl⟩).1, by decide⟩

end Sender

end Tftp.Block
