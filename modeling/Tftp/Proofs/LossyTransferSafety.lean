import Tftp.Proofs.LossyTransfer

namespace Tftp

namespace LossyTransfer

variable (setup : Setup)

/-- What an end that has come to block `n` may have sent. -/
def Setup.Says : Side → Nat → Packet → Prop
  | .sender, n, .data block bytes =>
    0 < n ∧ n ≤ setup.total ∧ block = .ofNat n ∧ bytes = Block.payload setup.size setup.wire n
  | .receiver, n, .ack block => block = .ofNat n
  | _, _, .error .. | _, _, .optionAck _ => True
  | _, _, _ => False

theorem says_error (side : Side) (n : Nat) (packet : Packet) (h : packet.opcode = .error) :
    setup.Says side n packet := by
  cases packet with
  | error => cases side <;> trivial
  | _ => cases h

def Setup.SenderAt (station : Station) : Prop :=
  ∃ sender, station.run.party = .sender sender ∧
    sender.At station.disk setup.mode setup.size setup.wire station.blocks

def Setup.ReceiverAt (station : Station) : Prop :=
  ∃ receiver, station.run.party = .receiver receiver ∧
    receiver.At station.disk setup.mode setup.size setup.wire station.blocks ∧
    ∀ exchange, station.run.stage = .waiting exchange → station.run.transfer.pendingError = none

structure Setup.ReceiverDone (station : Station) : Prop where
  blocks : station.blocks = setup.total
  sink : ∃ receiver, station.run.party = .receiver receiver ∧
    receiver.store.sink.Holds station.disk (setup.mode.hostForm setup.wire)
  stage : station.run.stage = .ended (.ok ())

structure Setup.Advance (side : Side) (before : Station) (move : Move (Disk × Run)) : Prop where
  session : (before.take move).run.transfer.session = before.run.transfer.session
  sent : ∀ x ∈ move.sent, setup.Says side (before.take move).blocks x.packet
  repeats : ∀ exchange packet, (before.take move).run.stage = .waiting exchange →
    exchange.repeated = some packet → setup.Says side (before.take move).blocks packet

def Setup.Honest (n : Nat) (parcel : Parcel) : Prop :=
  parcel.stamp ≤ n ∧ ∃ packet, parcel.datagram = ⟨setup.ends parcel.goal.other, packet.encode⟩ ∧
    setup.Says parcel.goal.other parcel.stamp packet

/-- What holds of both ends and of every datagram on the way. -/
structure Setup.Invariant (system : LossyTransfer) : Prop where
  sendingPeer : system.sender.run.transfer.session.peer = .fixed (setup.ends .receiver)
  receivingPeer : system.receiver.run.transfer.session.peer = .fixed (setup.ends .sender)
  sending : setup.SenderAt system.sender
  receiving : setup.ReceiverAt system.receiver ∨ setup.ReceiverDone system.receiver
  behind : system.receiver.blocks ≤ system.sender.blocks
  ahead : system.sender.blocks ≤ system.receiver.blocks + 1
  repeats : ∀ side exchange packet, (system.station side).run.stage = .waiting exchange →
    exchange.repeated = some packet → setup.Says side (system.station side).blocks packet
  flying : ∀ parcel ∈ system.flying,
    setup.Honest (system.station parcel.goal.other).blocks parcel
  receivingOk : system.receiver.run.stage = .ended (.ok ()) → setup.ReceiverDone system.receiver
  sendingOk : system.sender.run.stage = .ended (.ok ()) → setup.ReceiverDone system.receiver

variable {setup}

theorem moved_self (party : Block.Party) : party.moved party = 0 :=
  if_pos rfl

theorem moved_succ (before after : Block.Party) (n : Nat) (hb : before.current = .ofNat n)
    (ha : after.current = .ofNat (n + 1)) : before.moved after = 1 := by
  have hne : after.current ≠ before.current := by
    rw [hb, ha]
    exact (Block.ofNat_ne_ofNat n (n + 1) (Nat.lt_succ_self n) (by omega)).symm
  exact if_neg hne

theorem Advance.of_effect {side : Side} {before : Station} {disk : Disk} {party : Block.Party}
    {move : Move (Transfer × Stage)} {tells repeats : Packet → Prop} {succeeds : Prop} {n : Nat}
    (h : StepEffect before.run.transfer tells repeats succeeds move)
    (hn : before.blocks + before.run.party.moved party = n)
    (htells : ∀ packet, tells packet → setup.Says side n packet)
    (hrepeats : ∀ packet, repeats packet → setup.Says side n packet) :
    setup.Advance side before (move.map fun next => (disk, Run.ofStage party next)) := by
  subst hn
  refine ⟨h.session, fun x hx => ?_, fun e p he hp => hrepeats p (h.repeated e p he hp)⟩
  rcases (h.sent x hx).2 with hx | hx
  · exact says_error setup side _ x.packet hx
  · exact htells x.packet hx

theorem Advance.of_act (link : Link) {side : Side} {before : Station} {disk : Disk}
    {party : Block.Party} (action : Block.Action) {n : Nat}
    (hn : before.blocks + before.run.party.moved party = n)
    (hasked : ∀ packet, StepEffect.Asked action packet → setup.Says side n packet) :
    setup.Advance side before ((Stage.act link false before.run.transfer action).map fun next =>
      (disk, Run.ofStage party next)) :=
  Advance.of_effect (StepEffect.of_act link before.run.transfer action) hn hasked
    fun packet hp => hasked packet (.inl hp)

theorem take_ended (setup : Setup) (side : Side) {before : Station} {result : Except TransferFailure Unit}
    (h : before.run.stage = .ended result) :
    before.take { state := (before.disk, before.run) } = before ∧
      setup.Advance side before { state := (before.disk, before.run) } := by
  have ht : before.take { state := (before.disk, before.run) } = before := by
    simp only [Station.take, moved_self, Nat.add_zero]
  refine ⟨ht, by rw [ht], fun x hx => absurd hx List.not_mem_nil, fun e p he => ?_⟩
  rw [ht, h] at he
  cases he

def Idle (action : Block.Action) : Prop :=
  action = .listen ∨ action = .refuse ∨ ∃ reason, action = .close (some reason)

theorem Idle.asked {action : Block.Action} (h : Idle action) {packet : Packet}
    (hp : StepEffect.Asked action packet) : packet.opcode = .error := by
  rcases h with rfl | rfl | ⟨reason, rfl⟩
  · exact absurd hp (StepEffect.not_asked_listen packet)
  · rw [StepEffect.eq_of_asked_terminate hp]
    rfl
  · exact absurd hp (StepEffect.not_asked_close _ packet)

theorem Idle.not_succeeds {action : Block.Action} (h : Idle action) :
    ¬StepEffect.Succeeds action := by
  rcases h with rfl | rfl | ⟨reason, rfl⟩
  · exact StepEffect.not_succeeds_listen
  · exact StepEffect.not_succeeds_error _ _
  · exact StepEffect.not_succeeds_close reason

theorem read_says_receiver {i : Nat} {packet read : Packet} (hs : setup.Says .receiver i packet)
    (hd : Packet.decode packet.encode = .ok read) :
    read = .ack (.ofNat i) ∨ read.opcode = .error ∨ read.opcode = .optionAck := by
  have ho := Packet.opcode_of_decode_encode packet read hd
  cases packet with
  | ack block =>
    rw [Packet.decode_encode (.ack block) trivial] at hd
    cases hd
    exact .inl (congrArg Packet.ack hs)
  | error => exact .inr (.inl ho)
  | optionAck => exact .inr (.inr ho)
  | readRequest => exact hs.elim
  | writeRequest => exact hs.elim
  | data => exact hs.elim

theorem sender_idle (disk : Disk) (sender : Block.Sender) (packet : Packet)
    (h : packet.opcode = .error ∨ packet.opcode = .optionAck) :
    ∃ action, sender.onPacket disk packet = (sender, action) ∧ Idle action := by
  cases packet with
  | error code message => exact ⟨_, rfl, .inr (.inr ⟨_, rfl⟩)⟩
  | optionAck fields => exact ⟨_, rfl, .inr (.inl rfl)⟩
  | _ => simp [Packet.opcode] at h

/-- What a datagram from the receiver does to the sender: `i` blocks were stored when it was sent. -/
structure Setup.SenderHeard (setup : Setup) (before : Station) (i : Nat) (move : Move (Disk × Run)) :
    Prop where
  advance : setup.Advance .sender before move
  sender : setup.SenderAt (before.take move)
  blocks : (before.take move).blocks = before.blocks ∨
    (before.take move).blocks = before.blocks + 1 ∧ i = before.blocks
  success : (before.take move).run.stage = .ended (.ok ()) →
    before.run.stage = .ended (.ok ()) ∨ before.blocks = setup.total ∧ i = before.blocks

theorem SenderHeard.of_still {before : Station} {sender : Block.Sender} {i : Nat}
    {move : Move (Transfer × Stage)} {tells repeats : Packet → Prop} {succeeds : Prop}
    (hp : before.run.party = .sender sender)
    (hat : sender.At before.disk setup.mode setup.size setup.wire before.blocks)
    (h : StepEffect before.run.transfer tells repeats succeeds move)
    (htells : ∀ packet, tells packet → setup.Says .sender before.blocks packet)
    (hrepeats : ∀ packet, repeats packet → setup.Says .sender before.blocks packet)
    (hok : succeeds → before.run.stage = .ended (.ok ()) ∨
      before.blocks = setup.total ∧ i = before.blocks) :
    setup.SenderHeard before i
      (move.map fun next => (before.disk, Run.ofStage (.sender sender) next)) := by
  have hm : before.run.party.moved (.sender sender) = 0 := by rw [hp, moved_self]
  have hb : before.blocks + before.run.party.moved (.sender sender) = before.blocks := by
    rw [hm, Nat.add_zero]
  exact ⟨Advance.of_effect h hb htells hrepeats,
    ⟨sender, rfl, by simpa only [Station.take, Move.map, Run.ofStage, hm, Nat.add_zero] using hat⟩,
    .inl hb, fun hend => hok (h.success hend)⟩

theorem SenderHeard.of_act (link : Link) {before : Station} {sender : Block.Sender} {i : Nat}
    (hp : before.run.party = .sender sender)
    (hat : sender.At before.disk setup.mode setup.size setup.wire before.blocks) (action : Block.Action)
    (htells : ∀ packet, StepEffect.Asked action packet → setup.Says .sender before.blocks packet)
    (hfails : ¬StepEffect.Succeeds action) :
    setup.SenderHeard before i ((Stage.act link false before.run.transfer action).map fun next =>
      (before.disk, Run.ofStage (.sender sender) next)) :=
  SenderHeard.of_still hp hat (StepEffect.of_act link before.run.transfer action) htells
    (fun packet ha => htells packet (.inl ha)) (fun hs => absurd hs hfails)

theorem sender_acked (link : Link) (before : Station) (sender : Block.Sender)
    (hp : before.run.party = .sender sender)
    (hat : sender.At before.disk setup.mode setup.size setup.wire before.blocks) :
    setup.SenderHeard before before.blocks ((Stage.act link false before.run.transfer
      (sender.onAck before.disk (.ofNat before.blocks)).2).map fun next =>
        (before.disk, Run.ofStage (.sender (sender.onAck before.disk (.ofNat before.blocks)).1) next)) := by
  rcases Nat.lt_or_eq_of_le hat.bound with hlt | heq
  · obtain ⟨next, hnext, hat'⟩ := Block.Sender.onAck_due setup.size_pos hat hlt
    rw [hnext]
    have hm : before.run.party.moved (.sender next) = 1 := by
      rw [hp]
      exact moved_succ _ _ before.blocks hat.current hat'.current
    have hb : before.blocks + before.run.party.moved (.sender next) = before.blocks + 1 := by
      rw [hm]
    refine ⟨Advance.of_act link _ hb fun p ha => ?_, ⟨next, rfl, ?_⟩, .inr ⟨hb, rfl⟩, fun hend => ?_⟩
    · rw [StepEffect.eq_of_asked_send ha]
      exact ⟨Nat.succ_pos _, hlt, rfl, rfl⟩
    · simpa only [Station.take, Move.map, Run.ofStage, hm] using hat'
    · exact absurd ((StepEffect.of_act link before.run.transfer _).success hend)
        (StepEffect.not_succeeds_send _)
  · rw [Block.Sender.onAck_final hat heq]
    refine SenderHeard.of_still hp hat (StepEffect.of_act link before.run.transfer (.close none))
      (fun p ha => absurd ha (StepEffect.not_asked_close none p)) (fun p ha => ?_)
      (fun _ => .inr ⟨heq, rfl⟩)
    cases ha

theorem sender_hears (link : Link) (before : Station) (h : setup.SenderAt before)
    (hpeer : before.run.transfer.session.peer = .fixed (setup.ends .receiver)) (i : Nat)
    (packet : Packet) (hs : setup.Says .receiver i packet) (hi : i ≤ before.blocks)
    (hnear : before.blocks < i + 65536) :
    setup.SenderHeard before i (before.run.onDatagram link false before.disk
      ⟨setup.ends .receiver, packet.encode⟩) := by
  obtain ⟨sender, hp, hat⟩ := h
  cases hw : before.run.stage with
  | ended result =>
    obtain ⟨ht, hadv⟩ := take_ended setup .sender hw
    rw [Run.onDatagram_ended link false before.disk _ before.run result hw]
    exact ⟨hadv, by rw [ht]; exact ⟨sender, hp, hat⟩, .inl (by rw [ht]),
      fun hend => .inl (by rwa [ht] at hend)⟩
  | waiting exchange =>
    rw [Run.onDatagram, Run.receive_fixed before.disk _ _ before.run exchange hw hpeer]
    cases hd : Packet.decode packet.encode with
    | error malformation =>
      simp only [hp]
      exact SenderHeard.of_still hp hat
        (StepEffect.of_fail before.run.transfer _ _ (fun _ => False) (fun _ => False) False)
        (fun _ h => h.elim) (fun _ h => h.elim) (fun h => h.elim)
    | ok read =>
      simp only [Run.onPacket, Block.Party.onPacket, hp]
      -- an answer that leaves the sender as it is
      have still : ∀ action, sender.onPacket before.disk read = (sender, action) → Idle action →
          setup.SenderHeard before i ((Stage.act link false before.run.transfer
            (sender.onPacket before.disk read).2).map fun next =>
              (before.disk, Run.ofStage (.sender (sender.onPacket before.disk read).1) next)) := by
        intro action ha hidle
        rw [ha]
        exact SenderHeard.of_act link hp hat action (fun p hp => says_error setup _ _ p (hidle.asked hp))
          hidle.not_succeeds
      -- the ACK of the last block brings the next one, any other is behind
      rcases read_says_receiver hs hd with rfl | hother
      · rcases Nat.lt_or_eq_of_le hi with hlt | rfl
        · rcases Block.Sender.onAck_stale hat i hlt hnear with ha | ha
          · exact still _ ha (.inl rfl)
          · exact still _ ha (.inr (.inl rfl))
        · exact sender_acked link before sender hp hat
      · obtain ⟨action, ha, hidle⟩ := sender_idle before.disk sender read hother
        exact still action ha hidle

theorem read_says_sender {j : Nat} {packet read : Packet} (hs : setup.Says .sender j packet)
    (hd : Packet.decode packet.encode = .ok read) :
    (0 < j ∧ j ≤ setup.total ∧ read = .data (.ofNat j) (Block.payload setup.size setup.wire j)) ∨
      read.opcode = .error ∨ read.opcode = .optionAck := by
  have ho := Packet.opcode_of_decode_encode packet read hd
  cases packet with
  | data block bytes =>
    rw [Packet.decode_encode (.data block bytes) trivial] at hd
    cases hd
    obtain ⟨hpos, hle, rfl, rfl⟩ := hs
    exact .inl ⟨hpos, hle, rfl⟩
  | error => exact .inr (.inl ho)
  | optionAck => exact .inr (.inr ho)
  | readRequest => exact hs.elim
  | writeRequest => exact hs.elim
  | ack => exact hs.elim

theorem receiver_idle (disk : Disk) (receiver : Block.Receiver) (packet : Packet)
    (h : packet.opcode = .error ∨ packet.opcode = .optionAck) :
    ∃ action, receiver.onPacket disk packet = (disk, receiver, action) ∧ Idle action := by
  cases packet with
  | error code message => exact ⟨_, rfl, .inr (.inr ⟨_, rfl⟩)⟩
  | optionAck fields => exact ⟨_, rfl, .inr (.inl rfl)⟩
  | _ => simp [Packet.opcode] at h

/-- What a datagram from the sender does to the receiver: `j` blocks were handed out when it was
sent. -/
structure Setup.ReceiverHeard (setup : Setup) (before : Station) (j : Nat)
    (move : Move (Disk × Run)) : Prop where
  advance : setup.Advance .receiver before move
  receiver : setup.ReceiverAt (before.take move) ∨ setup.ReceiverDone (before.take move)
  blocks : (before.take move).blocks = before.blocks ∨
    (before.take move).blocks = before.blocks + 1 ∧ j = before.blocks + 1
  success : (before.take move).run.stage = .ended (.ok ()) → setup.ReceiverDone (before.take move)
  done : setup.ReceiverDone before → before.take move = before

theorem Setup.ReceiverDone.not_waiting {station : Station} (h : setup.ReceiverDone station)
    {exchange : Exchange} : station.run.stage ≠ .waiting exchange := by
  rw [h.stage]
  exact fun h => nomatch h

theorem ReceiverHeard.of_still {before : Station} {receiver : Block.Receiver} {j : Nat}
    {exchange : Exchange} {move : Move (Transfer × Stage)} {tells repeats : Packet → Prop}
    (hw : before.run.stage = .waiting exchange) (hp : before.run.party = .receiver receiver)
    (hat : receiver.At before.disk setup.mode setup.size setup.wire before.blocks)
    (hn : before.run.transfer.pendingError = none)
    (h : StepEffect before.run.transfer tells repeats False move)
    (htells : ∀ packet, tells packet → setup.Says .receiver before.blocks packet)
    (hrepeats : ∀ packet, repeats packet → setup.Says .receiver before.blocks packet) :
    setup.ReceiverHeard before j
      (move.map fun next => (before.disk, Run.ofStage (.receiver receiver) next)) := by
  have hm : before.run.party.moved (.receiver receiver) = 0 := by rw [hp, moved_self]
  have hb : before.blocks + before.run.party.moved (.receiver receiver) = before.blocks := by
    rw [hm, Nat.add_zero]
  exact ⟨Advance.of_effect h hb htells hrepeats,
    .inl ⟨receiver, rfl, by simpa only [Station.take, Move.map, Run.ofStage, hm, Nat.add_zero] using hat,
      fun e he => (h.pending e he).trans hn⟩,
    .inl hb, fun hend => (h.success hend).elim, fun hdone => absurd hw hdone.not_waiting⟩

theorem ReceiverHeard.of_act (link : Link) {before : Station} {receiver : Block.Receiver} {j : Nat}
    {exchange : Exchange} (hw : before.run.stage = .waiting exchange)
    (hp : before.run.party = .receiver receiver)
    (hat : receiver.At before.disk setup.mode setup.size setup.wire before.blocks)
    (hn : before.run.transfer.pendingError = none) (action : Block.Action)
    (htells : ∀ packet, StepEffect.Asked action packet → setup.Says .receiver before.blocks packet)
    (hfails : ¬StepEffect.Succeeds action) :
    setup.ReceiverHeard before j ((Stage.act link false before.run.transfer action).map fun next =>
      (before.disk, Run.ofStage (.receiver receiver) next)) :=
  ReceiverHeard.of_still hw hp hat hn
    ((StepEffect.of_act link before.run.transfer action).mono (fun _ => id) (fun _ => id) hfails)
    htells (fun packet ha => htells packet (.inl ha))

theorem ReceiverHeard.of_ended {before : Station} {j : Nat} {result : Except TransferFailure Unit}
    (hw : before.run.stage = .ended result)
    (h : setup.ReceiverAt before ∨ setup.ReceiverDone before)
    (hok : before.run.stage = .ended (.ok ()) → setup.ReceiverDone before) :
    setup.ReceiverHeard before j { state := (before.disk, before.run) } := by
  obtain ⟨ht, hadv⟩ := take_ended setup .receiver hw
  refine ⟨hadv, by rwa [ht], .inl (by rw [ht]), fun hend => ?_, fun _ => ht⟩
  rw [ht] at hend ⊢
  exact hok hend

theorem receiver_stores (link : Link) (before : Station) (receiver : Block.Receiver) {exchange : Exchange}
    (hw : before.run.stage = .waiting exchange) (hp : before.run.party = .receiver receiver)
    (hat : receiver.At before.disk setup.mode setup.size setup.wire before.blocks)
    (hn : before.run.transfer.pendingError = none) (hle : before.blocks + 1 ≤ setup.total) :
    setup.ReceiverHeard before (before.blocks + 1) ((Stage.act link false before.run.transfer
      (receiver.onData before.disk (.ofNat (before.blocks + 1))
        (Block.payload setup.size setup.wire (before.blocks + 1))).2.2).map fun next =>
          ((receiver.onData before.disk (.ofNat (before.blocks + 1))
              (Block.payload setup.size setup.wire (before.blocks + 1))).1,
            Run.ofStage (.receiver (receiver.onData before.disk (.ofNat (before.blocks + 1))
              (Block.payload setup.size setup.wire (before.blocks + 1))).2.1) next)) := by
  have hb : ∀ next : Block.Receiver, next.current = .ofNat (before.blocks + 1) →
      before.blocks + before.run.party.moved (.receiver next) = before.blocks + 1 := by
    intro next hnext
    rw [hp, moved_succ (.receiver receiver) (.receiver next) before.blocks hat.current hnext]
  rcases Nat.lt_or_eq_of_le hle with hlt | heq
  · obtain ⟨disk, next, hnext, hat'⟩ := Block.Receiver.onData_due setup.size_pos hat hlt
    rw [hnext]
    have hblocks := hb next hat'.current
    have heffect := StepEffect.of_act link before.run.transfer (.send (.ack (.ofNat (before.blocks + 1))))
    refine ⟨Advance.of_act link _ hblocks fun p ha => ?_, .inl ⟨next, rfl, ?_, fun e he => ?_⟩,
      .inr ⟨hblocks, rfl⟩, fun hend => ?_, fun hdone => absurd hw hdone.not_waiting⟩
    · exact StepEffect.eq_of_asked_send ha ▸ rfl
    · simpa only [Station.take, Move.map, Run.ofStage, hblocks] using hat'
    · exact (heffect.pending e he).trans hn
    · exact absurd (heffect.success hend) (StepEffect.not_succeeds_send _)
  · obtain ⟨disk, next, hnext, hcurrent, -, hsink⟩ := Block.Receiver.onData_last setup.size_pos hat heq
    rw [hnext]
    have hblocks := hb next hcurrent
    obtain ⟨last, hact⟩ := StepEffect.act_terminate link before.run.transfer
      (.ack (.ofNat (before.blocks + 1))) (fun hop => by cases hop) hn
    have hdone : setup.ReceiverDone (before.take ((Stage.act link false before.run.transfer
        (.terminate (.ack (.ofNat (before.blocks + 1))))).map fun stage =>
          (disk, Run.ofStage (.receiver next) stage))) := by
      rw [hact]
      exact ⟨hblocks.trans heq, ⟨next, rfl, hsink⟩, rfl⟩
    refine ⟨Advance.of_act link _ hblocks fun p ha => ?_, .inr hdone, .inr ⟨hblocks, rfl⟩, fun _ => hdone,
      fun hdone => absurd hw hdone.not_waiting⟩
    exact StepEffect.eq_of_asked_terminate ha ▸ rfl

theorem receiver_hears (link : Link) (before : Station)
    (h : setup.ReceiverAt before ∨ setup.ReceiverDone before)
    (hok : before.run.stage = .ended (.ok ()) → setup.ReceiverDone before)
    (hpeer : before.run.transfer.session.peer = .fixed (setup.ends .sender)) (j : Nat)
    (packet : Packet) (hs : setup.Says .sender j packet) (hj : j ≤ before.blocks + 1)
    (hnear : before.blocks < setup.total → before.blocks + 1 < j + 65536) :
    setup.ReceiverHeard before j (before.run.onDatagram link false before.disk
      ⟨setup.ends .sender, packet.encode⟩) := by
  cases hw : before.run.stage with
  | ended result =>
    rw [Run.onDatagram_ended link false before.disk _ before.run result hw]
    exact ReceiverHeard.of_ended hw h hok
  | waiting exchange =>
    obtain ⟨receiver, hp, hat, hpend⟩ := h.resolve_right fun hdone => hdone.not_waiting hw
    have hn := hpend exchange hw
    rw [Run.onDatagram, Run.receive_fixed before.disk _ _ before.run exchange hw hpeer]
    cases hd : Packet.decode packet.encode with
    | error malformation =>
      simp only [hp]
      exact ReceiverHeard.of_still hw hp hat hn
        (StepEffect.of_fail before.run.transfer _ _ (fun _ => False) (fun _ => False) False)
        (fun _ h => h.elim) (fun _ h => h.elim)
    | ok read =>
      simp only [Run.onPacket, Block.Party.onPacket, hp]
      -- an answer that leaves the receiver as it is
      have still : ∀ action, receiver.onPacket before.disk read = (before.disk, receiver, action) →
          (∀ p, StepEffect.Asked action p → setup.Says .receiver before.blocks p) →
          ¬StepEffect.Succeeds action →
          setup.ReceiverHeard before j ((Stage.act link false before.run.transfer
            (receiver.onPacket before.disk read).2.2).map fun next =>
              ((receiver.onPacket before.disk read).1,
                Run.ofStage (.receiver (receiver.onPacket before.disk read).2.1) next)) := by
        intro action ha htells hfails
        rw [ha]
        exact ReceiverHeard.of_act link hw hp hat hn action htells hfails
      have idle : ∀ action, receiver.onPacket before.disk read = (before.disk, receiver, action) →
          Idle action → _ := fun action ha hidle =>
        still action ha (fun p hp => says_error setup _ _ p (hidle.asked hp)) hidle.not_succeeds
      -- the block after those stored is due, any other is behind
      rcases read_says_sender hs hd with ⟨hpos, hle, rfl⟩ | hother
      · rcases Nat.lt_or_eq_of_le hj with hlt | rfl
        · rcases Block.Receiver.onData_stale hat j _ hlt (hnear hat.bound) with ha | ha
          · refine still _ ha (fun p hp => ?_) (StepEffect.not_succeeds_send _)
            exact StepEffect.eq_of_asked_send hp ▸ rfl
          · exact idle _ ha (.inr (.inl rfl))
        · exact receiver_stores link before receiver hw hp hat hn hle
      · obtain ⟨action, ha, hidle⟩ := receiver_idle before.disk receiver read hother
        exact idle action ha hidle

theorem sender_expires (link : Link) (before : Station) (h : setup.SenderAt before)
    (hrepeats : ∀ exchange packet, before.run.stage = .waiting exchange →
      exchange.repeated = some packet → setup.Says .sender before.blocks packet) (i : Nat) :
    setup.SenderHeard before i ((before.run.onTimeout link).map fun run => (before.disk, run)) := by
  obtain ⟨sender, hp, hat⟩ := h
  have hagain : ∀ p, (∃ e, before.run.stage = .waiting e ∧ e.repeated = some p) →
      setup.Says .sender before.blocks p := by
    rintro p ⟨e, he, hr⟩
    exact hrepeats e p he hr
  have hstill := SenderHeard.of_still (i := i) hp hat
    (StepEffect.of_expire link before.run.transfer before.run.stage)
    hagain hagain .inl
  rw [← hp] at hstill
  exact hstill

theorem receiver_expires (link : Link) (before : Station)
    (h : setup.ReceiverAt before ∨ setup.ReceiverDone before)
    (hok : before.run.stage = .ended (.ok ()) → setup.ReceiverDone before)
    (hrepeats : ∀ exchange packet, before.run.stage = .waiting exchange →
      exchange.repeated = some packet → setup.Says .receiver before.blocks packet) (j : Nat) :
    setup.ReceiverHeard before j ((before.run.onTimeout link).map fun run => (before.disk, run)) := by
  cases hw : before.run.stage with
  | ended result =>
    have he : (before.run.onTimeout link).map (fun run => (before.disk, run)) =
        { state := (before.disk, before.run) } := by
      simp only [Run.onTimeout, hw, Stage.expire, Move.map, Run.ofStage]
      rw [← hw]
    rw [he]
    exact ReceiverHeard.of_ended hw h hok
  | waiting exchange =>
    obtain ⟨receiver, hp, hat, hpend⟩ := h.resolve_right fun hdone => hdone.not_waiting hw
    have hagain : ∀ p, (∃ e, before.run.stage = .waiting e ∧ e.repeated = some p) →
        setup.Says .receiver before.blocks p := by
      rintro p ⟨e, he, hr⟩
      exact hrepeats e p he hr
    have hstill := ReceiverHeard.of_still (j := j) hw hp hat (hpend exchange hw)
      ((StepEffect.of_expire link before.run.transfer before.run.stage).mono (fun _ => id) (fun _ => id)
        fun hend => by
          rw [hw] at hend
          cases hend)
      hagain hagain
    rw [← hp] at hstill
    exact hstill

theorem sender_enters (link : Link) (opening : Opening) (before : Station)
    (h : setup.SenderAt before) (hb : before.blocks = 0) :
    setup.SenderHeard before 0 (opening.enter link before.disk before.run) := by
  obtain ⟨sender, hp, hat⟩ := h
  -- an opening that hands out nothing
  have still : ∀ action, (∀ p, StepEffect.Asked action p → setup.Says .sender before.blocks p) →
      ¬StepEffect.Succeeds action → setup.SenderHeard before 0
        ((Stage.act link false before.run.transfer action).map fun next =>
          (before.disk, Run.ofStage before.run.party next)) := by
    intro action htells hfails
    rw [hp]
    exact SenderHeard.of_act link hp hat action htells hfails
  cases opening with
  | first =>
    have hacked := sender_acked link before sender hp hat
    rw [hb] at hacked
    simp only [Opening.enter, Block.Party.start, hp]
    exact hacked
  | optionAck fields =>
    refine still _ (fun p ha => ?_) (StepEffect.not_succeeds_send _)
    rw [StepEffect.eq_of_asked_send ha]
    trivial
  | listen =>
    exact still _ (fun p ha => absurd ha (StepEffect.not_asked_listen p)) StepEffect.not_succeeds_listen

theorem receiver_enters (link : Link) (opening : Opening) (before : Station) (exchange : Exchange)
    (hw : before.run.stage = .waiting exchange) (h : setup.ReceiverAt before)
    (hb : before.blocks = 0) :
    setup.ReceiverHeard before 0 (opening.enter link before.disk before.run) := by
  obtain ⟨receiver, hp, hat, hpend⟩ := h
  have still : ∀ action, (∀ p, StepEffect.Asked action p → setup.Says .receiver before.blocks p) →
      ¬StepEffect.Succeeds action → setup.ReceiverHeard before 0
        ((Stage.act link false before.run.transfer action).map fun next =>
          (before.disk, Run.ofStage before.run.party next)) := by
    intro action htells hfails
    rw [hp]
    exact ReceiverHeard.of_act link hw hp hat (hpend exchange hw) action htells hfails
  cases opening with
  | first =>
    have hacked := still (.send (.ack 0)) (fun p ha => ?_) (StepEffect.not_succeeds_send _)
    · simp only [Opening.enter, Block.Party.start, hp]
      rw [hp] at hacked
      exact hacked
    · rw [StepEffect.eq_of_asked_send ha, hb]
      rfl
  | optionAck fields =>
    refine still _ (fun p ha => ?_) (StepEffect.not_succeeds_send _)
    rw [StepEffect.eq_of_asked_send ha]
    trivial
  | listen =>
    exact still _ (fun p ha => absurd ha (StepEffect.not_asked_listen p)) StepEffect.not_succeeds_listen

theorem mem_ship (link : Link) (ends : Side → Endpoint) (side : Side) (stamp : Nat)
    (sent : List Transmission) (parcel : Parcel) (h : parcel ∈ ship link ends side stamp sent) :
    parcel.goal = side.other ∧ parcel.stamp = stamp ∧
      ∃ x ∈ sent, parcel.datagram = ⟨ends side, x.packet.encode⟩ := by
  obtain ⟨x, hx, rfl⟩ := List.mem_map.mp h
  exact ⟨rfl, rfl, x, (List.mem_filter.mp (List.mem_filter.mp hx).1).1, rfl⟩

theorem honest_of_ship {link : Link} {side : Side} {before : Station} {move : Move (Disk × Run)}
    (h : setup.Advance side before move) (parcel : Parcel)
    (hp : parcel ∈ ship link setup.ends side (before.take move).blocks move.sent) :
    parcel.goal = side.other ∧ setup.Honest (before.take move).blocks parcel := by
  obtain ⟨hg, hstamp, x, hx, hd⟩ := mem_ship _ _ _ _ _ parcel hp
  have hother : parcel.goal.other = side := by
    rw [hg]
    cases side <;> rfl
  refine ⟨hg, Nat.le_of_eq hstamp, x.packet, ?_, ?_⟩
  · rw [hother, hd]
  · rw [hother, hstamp]
    exact h.sent x hx

theorem Setup.Honest.mono {n m : Nat} {parcel : Parcel} (h : setup.Honest n parcel) (hnm : n ≤ m) :
    setup.Honest m parcel :=
  ⟨Nat.le_trans h.1 hnm, h.2⟩

/-- What the sender hears or does on its own keeps the invariant, if it has heard of no block that
is not stored. -/
theorem accept_sender (link : Link) (system : LossyTransfer) (move : Move (Disk × Run)) (i : Nat)
    (h : setup.Invariant system) (hheard : setup.SenderHeard system.sender i move)
    (hi : i ≤ system.receiver.blocks) :
    setup.Invariant (accept link setup.ends system .sender move) := by
  obtain ⟨hadv, hat, hblocks, hsucc⟩ := hheard
  have hle : system.sender.blocks ≤ (system.sender.take move).blocks := by
    rcases hblocks with hb | ⟨hb, -⟩ <;> omega
  refine ⟨?_, h.receivingPeer, hat, h.receiving, ?_, ?_, fun side e p he hp => ?_,
    fun parcel hp => ?_, h.receivingOk, fun hend => ?_⟩
  · rw [← h.sendingPeer]
    exact congrArg Session.peer hadv.session
  · exact Nat.le_trans h.behind hle
  · have ha := h.ahead
    show (system.sender.take move).blocks ≤ system.receiver.blocks + 1
    rcases hblocks with hb | ⟨hb, hib⟩ <;> omega
  · cases side with
    | sender => exact hadv.repeats e p he hp
    | receiver => exact h.repeats .receiver e p he hp
  · rcases List.mem_append.mp hp with hold | hnew
    · have hh := h.flying parcel hold
      cases hg : parcel.goal with
      | sender =>
        rw [hg] at hh
        exact hh
      | receiver =>
        rw [hg] at hh
        exact hh.mono hle
    · obtain ⟨hg, hh⟩ := honest_of_ship hadv parcel hnew
      rw [hg]
      exact hh
  · rcases hsucc hend with hbefore | ⟨htotal, hib⟩
    · exact h.sendingOk hbefore
    · refine h.receiving.resolve_left fun ⟨receiver, _, hrat, _⟩ => ?_
      have hb : system.receiver.blocks < setup.total := hrat.bound
      omega

theorem accept_receiver (link : Link) (system : LossyTransfer) (move : Move (Disk × Run)) (j : Nat)
    (h : setup.Invariant system) (hheard : setup.ReceiverHeard system.receiver j move)
    (hj : j ≤ system.sender.blocks) :
    setup.Invariant (accept link setup.ends system .receiver move) := by
  obtain ⟨hadv, hat, hblocks, hsucc, hdone⟩ := hheard
  have hle : system.receiver.blocks ≤ (system.receiver.take move).blocks := by
    rcases hblocks with hb | ⟨hb, -⟩ <;> omega
  refine ⟨h.sendingPeer, ?_, h.sending, hat, ?_, ?_, fun side e p he hp => ?_,
    fun parcel hp => ?_, hsucc, fun hend => ?_⟩
  · rw [← h.receivingPeer]
    exact congrArg Session.peer hadv.session
  · have hb := h.behind
    show (system.receiver.take move).blocks ≤ system.sender.blocks
    rcases hblocks with hb | ⟨hb, hjb⟩ <;> omega
  · exact Nat.le_trans h.ahead (Nat.succ_le_succ hle)
  · cases side with
    | sender => exact h.repeats .sender e p he hp
    | receiver => exact hadv.repeats e p he hp
  · rcases List.mem_append.mp hp with hold | hnew
    · have hh := h.flying parcel hold
      cases hg : parcel.goal with
      | sender =>
        rw [hg] at hh
        exact hh.mono hle
      | receiver =>
        rw [hg] at hh
        exact hh
    · obtain ⟨hg, hh⟩ := honest_of_ship hadv parcel hnew
      rw [hg]
      exact hh
  · have hover := h.sendingOk hend
    show setup.ReceiverDone (system.receiver.take move)
    rwa [hdone hover]

theorem invariant_of_flying (system : LossyTransfer) (flying : List Parcel)
    (h : setup.Invariant system) (hf : ∀ parcel ∈ flying, parcel ∈ system.flying) :
    setup.Invariant { system with flying } :=
  { sendingPeer := h.sendingPeer
    receivingPeer := h.receivingPeer
    sending := h.sending
    receiving := h.receiving
    behind := h.behind
    ahead := h.ahead
    repeats := fun side => match side with
      | .sender => h.repeats .sender
      | .receiver => h.repeats .receiver
    flying := fun parcel hp => by
      have hh := h.flying parcel (hf parcel hp)
      cases hg : parcel.goal <;> rw [hg] at hh <;> exact hh
    receivingOk := h.receivingOk
    sendingOk := h.sendingOk }

theorem step_invariant (link : Link) (system : LossyTransfer) (event : Event)
    (h : setup.Invariant system) (hnear : system.Timely event ∨ setup.total ≤ 65535) :
    setup.Invariant (step link setup.ends system event) := by
  cases event with
  | lose place =>
    exact invariant_of_flying system _ h fun parcel hp => List.mem_of_mem_eraseIdx hp
  | copy place =>
    refine invariant_of_flying system _ h fun parcel hp => ?_
    rcases List.mem_append.mp hp with hp | hp
    · exact hp
    · exact List.mem_of_getElem? (Option.mem_toList.mp hp)
  | expire side =>
    cases side with
    | sender =>
      exact accept_sender link system _ 0 h
        (sender_expires link system.sender h.sending (h.repeats .sender) 0) (Nat.zero_le _)
    | receiver =>
      exact accept_receiver link system _ 0 h
        (receiver_expires link system.receiver h.receiving h.receivingOk (h.repeats .receiver) 0)
        (Nat.zero_le _)
  | deliver place =>
    cases hp : system.flying[place]? with
    | none => simpa only [step, hp] using h
    | some parcel =>
      obtain ⟨goal, datagram, stamp⟩ := parcel
      obtain ⟨hstamp, packet, hd, htells⟩ := h.flying _ (List.mem_of_getElem? hp)
      have htimely : system.due goal < stamp + 65536 ∨ setup.total ≤ 65535 :=
        hnear.imp_left fun ht => ht _ hp
      have hrest := invariant_of_flying system (system.flying.eraseIdx place) h
        fun parcel hp => List.mem_of_mem_eraseIdx hp
      replace hd : datagram = ⟨setup.ends goal.other, packet.encode⟩ := hd
      subst hd
      simp only [step, hp]
      cases goal with
      | sender =>
        obtain ⟨sender, -, hat⟩ := h.sending
        have hbound : system.sender.blocks ≤ setup.total := hat.bound
        -- less than a circle lies between the two, so the number of the ACK tells its block
        have hlt : system.sender.blocks < stamp + 65536 := htimely.elim id fun hsmall => by omega
        refine accept_sender link _ _ stamp hrest ?_ hstamp
        exact sender_hears link system.sender h.sending h.sendingPeer stamp packet htells
          (Nat.le_trans hstamp h.behind) hlt
      | receiver =>
        have hlt : system.receiver.blocks < setup.total →
            system.receiver.blocks + 1 < stamp + 65536 :=
          fun hb => htimely.elim id fun hsmall => by omega
        refine accept_receiver link _ _ stamp hrest ?_ hstamp
        exact receiver_hears link system.receiver h.receiving h.receivingOk h.receivingPeer stamp
          packet htells (Nat.le_trans hstamp h.ahead) hlt

theorem start_invariant (link : Link) (setup : Setup) : setup.Invariant (start link setup) := by
  have hfresh : setup.Invariant
      { sender := .fresh setup.sendingDisk setup.sending (.sending setup.source setup.mode setup.size)
        receiver := .fresh setup.receivingDisk setup.receiving
          (.receiving setup.sink setup.mode setup.size)
        flying := [] } := by
    refine ⟨setup.sending_peer, setup.receiving_peer,
      ⟨_, rfl, Block.Sender.at_zero setup.delivers⟩,
      .inl ⟨_, rfl, Block.Receiver.at_zero setup.empty, fun _ _ => setup.receiving_fresh⟩,
      Nat.le_refl 0, Nat.zero_le 1, fun side e p he hp => ?_, fun parcel hp => absurd hp List.not_mem_nil,
      fun hend => (nomatch hend), fun hend => (nomatch hend)⟩
    cases side <;> cases he <;> cases hp
  have hopened := accept_sender link _ _ 0 hfresh
    (sender_enters link setup.sendingOpening _ hfresh.sending rfl) (Nat.le_refl 0)
  have hlistening : setup.ReceiverAt (.fresh setup.receivingDisk setup.receiving
      (.receiving setup.sink setup.mode setup.size)) :=
    hfresh.receiving.resolve_right fun hdone => hdone.not_waiting rfl
  exact accept_receiver link _ _ 0 hopened
    (receiver_enters link setup.receivingOpening _ _ rfl hlistening rfl) (Nat.zero_le _)

theorem run_invariant (link : Link) (system : LossyTransfer) (events : List Event)
    (h : setup.Invariant system)
    (hnear : TimelyRun link setup.ends system events ∨ setup.total ≤ 65535) :
    setup.Invariant (run link setup.ends system events) := by
  induction events generalizing system with
  | nil => exact h
  | cons event events ih =>
    exact ih _ (step_invariant link system event h (hnear.imp_left And.left))
      (hnear.imp_left And.right)

variable (setup) in
/-- The blocks that are stored are the first of those handed out, which are ahead by one at most, and
a success means that all of them are stored. -/
structure Setup.Safe (system : LossyTransfer) : Prop where
  behind : system.receiver.blocks ≤ system.sender.blocks
  ahead : system.sender.blocks ≤ system.receiver.blocks + 1
  bounded : system.sender.blocks ≤ setup.total
  stored : ∃ sink held, system.receiver.run.party.sink? = some sink ∧
    (held = [] ∨ setup.mode = .netascii ∧ held = [Netascii.cr]) ∧
    (sink.stored system.receiver.disk).toList ++ held =
      setup.mode.hostForm ((List.range system.receiver.blocks).flatMap fun i =>
        Block.payload setup.size setup.wire (i + 1))
  received : system.receiver.run.stage = .ended (.ok ()) →
    system.receiver.blocks = setup.total ∧ ∃ sink, system.receiver.run.party.sink? = some sink ∧
      (sink.stored system.receiver.disk).toList = setup.content
  handed : system.sender.run.stage = .ended (.ok ()) →
    system.sender.blocks = setup.total ∧ system.receiver.run.stage = .ended (.ok ())

theorem Setup.ReceiverAt.stored {station : Station} (h : setup.ReceiverAt station) :
    ∃ sink held, station.run.party.sink? = some sink ∧
      (held = [] ∨ setup.mode = .netascii ∧ held = [Netascii.cr]) ∧
      (sink.stored station.disk).toList ++ held =
        setup.mode.hostForm (setup.wire.take (station.blocks * setup.size)) := by
  obtain ⟨receiver, hp, hat, -⟩ := h
  refine ⟨receiver.store.sink, setup.mode.heldBack (setup.wire.take (station.blocks * setup.size)),
    by rw [hp]; rfl, Mode.heldBack_cases setup.mode _, ?_⟩
  rw [hat.store.stores.sink.stored_eq, Mode.landed_append_heldBack]

theorem Setup.ReceiverDone.content {station : Station} (h : setup.ReceiverDone station) :
    ∃ sink, station.run.party.sink? = some sink ∧
      (sink.stored station.disk).toList = setup.content := by
  obtain ⟨-, ⟨receiver, hp, hsink⟩, -⟩ := h
  refine ⟨receiver.store.sink, by rw [hp]; rfl, ?_⟩
  rw [hsink.stores.stored_eq, Setup.wire, Mode.hostForm_wireForm]

theorem Setup.Invariant.safe {system : LossyTransfer} (h : setup.Invariant system) :
    setup.Safe system := by
  obtain ⟨sender, -, hat⟩ := h.sending
  refine ⟨h.behind, h.ahead, hat.bound, ?_, fun hend => ?_, fun hend => ?_⟩
  · rw [Block.flatMap_payload]
    rcases h.receiving with hr | hdone
    · exact hr.stored
    · obtain ⟨sink, hs, hc⟩ := hdone.content
      refine ⟨sink, [], hs, .inl rfl, ?_⟩
      rw [List.append_nil, hc, hdone.blocks, Setup.total, Block.take_count setup.size_pos, Setup.wire,
        Mode.hostForm_wireForm]
  · have hdone := h.receivingOk hend
    exact ⟨hdone.blocks, hdone.content⟩
  · have hdone := h.sendingOk hend
    have hb := h.behind
    have hbound : system.sender.blocks ≤ setup.total := hat.bound
    rw [hdone.blocks] at hb
    exact ⟨Nat.le_antisymm hbound hb, hdone.stage⟩

/-- Whatever the network does, and whenever windows close, nothing is stored twice, out of turn or
not at all, unless a datagram comes so late that its block number has been used again. -/
theorem run_safe (link : Link) (setup : Setup) (events : List Event)
    (hnear : TimelyRun link setup.ends (start link setup) events ∨ setup.total ≤ 65535) :
    setup.Safe (run link setup.ends (start link setup) events) :=
  (run_invariant link (start link setup) events (start_invariant link setup) hnear).safe

def shortLine : Setup where
  ends
    | .sender => { ip := .v4 10 0 0 1, port := 40001 }
    | .receiver => { ip := .v4 10 0 0 2, port := 40002 }
  mode := .netascii
  size := 2
  size_pos := Nat.two_pos
  content := [97, 13, 98, 10]
  sendingDisk := {}
  source := .pieces [.bytes [97], .bytes [], .bytes [13, 98, 10]]
  delivers := ⟨[[97], [], [13, 98, 10]], rfl, rfl⟩
  receivingDisk := {}
  sink := .memory {}
  empty := ⟨rfl, rfl, rfl⟩
  sending :=
    { session := .accept { ip := .v4 10 0 0 2, port := 40002 } 1000
      phase := .receivedReadRequest, path := "line", options := {} }
  sending_peer := rfl
  receiving :=
    { session := .accept { ip := .v4 10 0 0 1, port := 40001 } 1000
      phase := .sentReadRequest, path := "line", options := {} }
  receiving_peer := rfl
  receiving_fresh := rfl
  sendingOpening := .first
  receivingOpening := .listen

theorem shortLine_safe :
    shortLine.total ≤ 65535 ∧
      shortLine.Safe (run .connected shortLine.ends (start .connected shortLine)
        ([.copy 0, .deliver 0, .deliver 0, .lose 0] ++ List.replicate 12 (.deliver 0))) ∧
      (run .connected shortLine.ends (start .connected shortLine)
        ([.copy 0, .deliver 0, .deliver 0, .lose 0] ++ List.replicate 12 (.deliver 0))).sender.run.stage =
          .ended (.ok ()) :=
  ⟨by decide, run_safe .connected shortLine _ (.inr (by decide)), by rfl⟩

end LossyTransfer

end Tftp
