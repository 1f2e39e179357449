import Tftp.Proofs.TransferOutcome
import Tftp.Proofs.LossyTransfer
import Tftp.Proofs.Traffic

namespace Tftp

namespace Block

def Sender.gives (disk : Disk) (packet : Packet) (sender : Sender) : Bool :=
  match (sender.onPacket disk packet).2 with
  | .send (.data _ _) => true
  | _ => false

def Receiver.takes (disk : Disk) (packet : Packet) (receiver : Receiver) : Bool :=
  match packet with
  | .data number payload =>
    number = receiver.current + 1 && payload.length ≤ receiver.blockSize &&
      (receiver.store.write disk payload).2.2.toBool
  | _ => false

def Party.gain (disk : Disk) (packet : Packet) : Party → Nat
  | sender s => (s.gives disk packet).toNat
  | receiver r => (r.takes disk packet).toNat

/-- A sender that has handed out so many blocks in all, and knows them by their numbers. -/
structure Sender.InStep (handed : Nat) (sender : Sender) : Prop where
  current : sender.current = .ofNat handed
  due : ∀ disk, sender.onPacket disk (.ack (.ofNat handed)) =
    if sender.awaitingFinal then (sender, .close none) else sender.nextBlock disk
  next : ∀ disk number payload, (sender.nextBlock disk).2 = .send (.data number payload) →
    number = .ofNat (handed + 1)
  earlier : ∀ disk block, block < handed → handed ≤ block + 32768 →
    sender.onPacket disk (.ack (.ofNat block)) = (sender, .listen)
  later : ∀ disk block, handed < block → block < handed + 32768 →
    sender.onPacket disk (.ack (.ofNat block)) = (sender, .refuse)

/-- A receiver that has stored so many blocks in all, and knows them by their numbers. -/
structure Receiver.InStep (stored : Nat) (receiver : Receiver) : Prop where
  current : receiver.current = .ofNat stored
  due : ∀ disk payload, receiver.onPacket disk (.data (.ofNat (stored + 1)) payload) = receiver.accept disk payload
  earlier : ∀ disk block payload, block < stored + 1 → stored + 1 ≤ block + 32768 →
    receiver.onPacket disk (.data (.ofNat block) payload) = (disk, receiver, .send (.ack (.ofNat stored)))
  later : ∀ disk block payload, stored + 1 < block → block < stored + 1 + 32768 →
    receiver.onPacket disk (.data (.ofNat block) payload) = (disk, receiver, .refuse)

def Party.InStep (blocks : Nat) : Party → Prop
  | sender s => s.InStep blocks
  | receiver r => r.InStep blocks

theorem Sender.nextBlock_current (disk : Disk) (sender : Sender) :
    (∃ next payload, sender.nextBlock disk = (next, .send (.data (sender.current + 1) payload)) ∧
        next.current = sender.current + 1) ∨
      ∃ next fault, sender.nextBlock disk = (next, .fail fault) ∧ next.current = sender.current := by
  rw [nextBlock]
  cases sender.cutter.next disk sender.blockSize with
  | mk cutter result =>
    cases result with
    | ok payload => exact .inl ⟨_, payload, rfl, rfl⟩
    | error fault => exact .inr ⟨_, fault, rfl, rfl⟩

theorem Sender.onPacket_current (disk : Disk) (packet : Packet) (sender : Sender) :
    (sender.onPacket disk packet).1.current = sender.current + .ofNat (sender.gives disk packet).toNat := by
  have hkept : sender.current = sender.current + .ofNat 0 := (UInt16.add_zero _).symm
  rw [gives]
  cases packet with
  | ack number =>
    rw [onPacket, onAck]
    split
    · split
      · exact hkept
      · rcases sender.nextBlock_current disk with ⟨next, payload, hnext, hcurrent⟩ | ⟨next, fault, hnext, hcurrent⟩
        · rw [hnext]
          exact hcurrent
        · rw [hnext]
          exact hcurrent.trans hkept
    · exact hkept
    · exact hkept
  | _ => exact hkept

theorem Receiver.accept_current (disk : Disk) (payload : Bytes) (receiver : Receiver) :
    (receiver.accept disk payload).2.1.current = receiver.current +
      .ofNat (decide (payload.length ≤ receiver.blockSize) &&
        (receiver.store.write disk payload).2.2.toBool).toNat := by
  have hkept : receiver.current = receiver.current + .ofNat 0 := (UInt16.add_zero _).symm
  rw [accept]
  split
  · next hlong =>
    rw [decide_eq_false (Nat.not_le.mpr hlong)]
    exact hkept
  · next hle =>
    rw [decide_eq_true (Nat.not_lt.mp hle), Bool.true_and]
    split
    · next hwrite =>
      rw [hwrite]
      exact hkept
    · next hwrite =>
      rw [hwrite]
      -- a block that is stored counts, also if it is the last and closing the file fails
      simp only
      split
      · split <;> rfl
      · rfl

theorem Receiver.onPacket_current (disk : Disk) (packet : Packet) (receiver : Receiver) :
    (receiver.onPacket disk packet).2.1.current =
      receiver.current + .ofNat (receiver.takes disk packet).toNat := by
  have hkept : receiver.current = receiver.current + .ofNat 0 := (UInt16.add_zero _).symm
  cases packet with
  | data number payload =>
    rw [onPacket, onData, takes]
    by_cases hdue : number = receiver.current + 1
    · rw [hdue, order_self, decide_eq_true rfl, Bool.true_and]
      exact receiver.accept_current disk payload
    · rw [decide_eq_false hdue, Bool.false_and, Bool.false_and]
      split
      · next ho => exact absurd ((order_eq_expected_iff _ _).mp ho) hdue
      · exact hkept
      · exact hkept
  | _ => exact hkept

theorem Party.onPacket_current (disk : Disk) (packet : Packet) (party : Party) :
    (party.onPacket disk packet).2.1.current = party.current + .ofNat (party.gain disk packet) := by
  cases party with
  | sender s => exact s.onPacket_current disk packet
  | receiver r => exact r.onPacket_current disk packet

theorem Party.start_current (disk : Disk) {party : Party} (hp : TransferTrace.Fresh party) :
    (party.start disk).2.1.current = party.current + .ofNat (party.gain disk (.ack 0)) := by
  cases hp with
  | sending source mode size => exact Sender.onPacket_current disk (.ack 0) _
  | receiving sink mode size => rfl

theorem Sender.inStep {handed : Nat} {sender : Sender} (h : sender.current = .ofNat handed) :
    sender.InStep handed := by
  refine ⟨h, fun disk => ?_, fun disk number payload hnext => ?_, fun disk block hlt hnear => ?_,
    fun disk block hlt hnear => ?_⟩
  · rw [onPacket, onAck, h, order_self]
  · rcases sender.nextBlock_current disk with ⟨next, cut, hcut, -⟩ | ⟨next, fault, hcut, -⟩
    · rw [hcut] at hnext
      cases hnext
      rw [h, ofNat_succ]
    · rw [hcut] at hnext
      cases hnext
  · rw [onPacket, onAck, h, order_of_lt block handed hlt hnear]
  · rw [onPacket, onAck, h, order_of_gt block handed hlt hnear]

theorem Receiver.inStep {stored : Nat} {receiver : Receiver} (h : receiver.current = .ofNat stored) :
    receiver.InStep stored := by
  refine ⟨h, fun disk payload => ?_, fun disk block payload hlt hnear => ?_,
    fun disk block payload hlt hnear => ?_⟩
  · rw [onPacket, onData, h, ← ofNat_succ, order_self]
  · rw [onPacket, onData, h, ← ofNat_succ, order_of_lt block (stored + 1) hlt hnear]
  · rw [onPacket, onData, h, ← ofNat_succ, order_of_gt block (stored + 1) hlt hnear]

theorem Party.inStep {blocks : Nat} {party : Party} (h : party.current = .ofNat blocks) : party.InStep blocks := by
  cases party with
  | sender s => exact Sender.inStep h
  | receiver r => exact Receiver.inStep h

end Block

namespace TransferTrace

def Start.gain (disk : Disk) (party : Block.Party) : Start → Nat
  | first => party.gain disk (.ack 0)
  | optionAck _ => 0
  | answer reply => party.gain disk reply

def gain (trace : TransferTrace) : Event → Nat
  | .datagram datagram =>
    match trace.run.stage, (trace.run.transfer.session.read datagram).2 with
    | .waiting _, .ok packet => trace.run.party.gain trace.disk packet
    | _, _ => 0
  | .timeout | .stop | .files _ => 0

theorem begin_current (link : Link) (stopped : Bool) (disk : Disk) (transfer : Transfer) {party : Block.Party}
    (hp : Fresh party) (start : Start) :
    (begin link stopped disk transfer party start).run.party.current = .ofNat (start.gain disk party) := by
  have hzero : party.current = 0 := by cases hp <;> rfl
  have haction : (start.action disk party).2.1.current = party.current + .ofNat (start.gain disk party) := by
    cases start with
    | first => exact Block.Party.start_current disk hp
    | optionAck fields => exact (UInt16.add_zero _).symm
    | answer reply => exact party.onPacket_current disk reply
  rw [hzero, UInt16.zero_add] at haction
  exact haction

theorem step_current (link : Link) (trace : TransferTrace) (event : Event) :
    (trace.step link event).run.party.current = trace.run.party.current + .ofNat (trace.gain event) := by
  have hkept : trace.run.party.current = trace.run.party.current + .ofNat 0 := (UInt16.add_zero _).symm
  cases hw : trace.run.stage with
  | ended result =>
    have hgain : trace.gain event = 0 := by cases event <;> simp only [gain, hw]
    rw [step_ended link hw, hgain]
    exact hkept
  | waiting exchange =>
    cases event with
    | datagram datagram =>
      cases hr : (trace.run.transfer.session.read datagram).2 with
      | ok packet =>
        rw [step_packet link hw hr, gain, hw, hr]
        exact trace.run.party.onPacket_current trace.disk packet
      | error failure =>
        rw [step_refused link hw hr, gain, hw, hr]
        exact hkept
    | timeout =>
      rw [step_timeout link hw]
      exact hkept
    | stop =>
      rw [step_stop link hw]
      exact hkept
    | files disk =>
      rw [step_files link hw]
      exact hkept

/-- The number goes up by one for every block that is moved, and starts again at 0 after 65535. -/
theorem after_current (link : Link) (trace : TransferTrace) (events : List Event) :
    (trace.after link events).run.party.current =
      trace.run.party.current + .ofNat (total link gain trace events) := by
  induction events generalizing trace with
  | nil => exact (UInt16.add_zero _).symm
  | cons event events ih =>
    rw [after, List.foldl_cons, ← after, ih, step_current, total, UInt16.ofNat_add, UInt16.add_assoc]

/-- Up to half a circle the order of two numbers is that of their blocks, and no two blocks that are not whole
circles apart share a number. In every trace, with any number of blocks, each end knows the blocks by theirs. -/
theorem numbers_tell_blocks :
    (∀ i j : Nat, -32768 ≤ (i : Int) - j → (i : Int) - j ≤ 32767 →
      (Block.order (.ofNat i) (.ofNat j) = .expected ↔ i = j) ∧
        (Block.order (.ofNat i) (.ofNat j) = .behind ↔ i < j) ∧
          (Block.order (.ofNat i) (.ofNat j) = .ahead ↔ j < i)) ∧
      (∀ i j : Nat, Block.order (.ofNat i) (.ofNat j) = .expected ↔ i % 65536 = j % 65536) ∧
        ∀ (link : Link) (stopped : Bool) (disk : Disk) (transfer : Transfer) (party : Block.Party),
          Fresh party → ∀ (start : Start) (events : List Event),
            let trace := begin link stopped disk transfer party start
            (trace.after link events).run.party.InStep (start.gain disk party + total link gain trace events) := by
  refine ⟨fun i j hlow hhigh => ?_, Block.order_expected_iff_mod,
    fun link stopped disk transfer party hp start events => ?_⟩
  · rcases Nat.lt_trichotomy i j with hlt | rfl | hgt
    · rw [Block.order_of_lt i j hlt (by omega)]
      simp only [reduceCtorEq, true_iff, false_iff]
      omega
    · rw [Block.order_self]
      simp
    · rw [Block.order_of_gt i j hgt (by omega)]
      simp only [reduceCtorEq, true_iff, false_iff]
      omega
  · apply Block.Party.inStep
    rw [after_current, begin_current link stopped disk transfer hp start, UInt16.ofNat_add]

theorem threeOctets_tells :
    Block.order (.ofNat 65537) (.ofNat 65535) = .ahead ∧ Block.order (.ofNat 0) (.ofNat 32768) = .behind ∧
      (threeOctets.after .connected [.timeout, ackFrom 40002 0, ackFrom 40002 1]).run.party.InStep 2 :=
  ⟨(numbers_tell_blocks.1 65537 65535 (by decide) (by decide)).2.2.mpr (by decide),
    (numbers_tell_blocks.1 0 32768 (by decide) (by decide)).2.1.mpr (by decide),
    numbers_tell_blocks.2.2 .connected false {}
      { session := .accept { ip := .v4 10 0 0 2, port := 40002 } 1000
        phase := .dataTransfer, path := "three", options := {} }
      (.sending (.pieces [.bytes [97, 98, 99]]) .octet 2) (.sending _ _ _) .first
      [.timeout, ackFrom 40002 0, ackFrom 40002 1]⟩

/-- Half a circle after another, a block is taken for an earlier one. -/
example : Block.order (.ofNat 32768) (.ofNat 0) = .behind := by decide

end TransferTrace

end Tftp
