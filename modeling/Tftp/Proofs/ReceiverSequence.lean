import Tftp.Proofs.Blocks
import Tftp.Proofs.SenderSequence

namespace Tftp

def Sink.close (disk : Disk) (held : Bytes) (sink : Sink) : Disk × Sink × Except Fault Unit :=
  match sink.write disk held with
  | (disk, sink, .ok ()) => ((sink.flush disk).1, sink, (sink.flush disk).2)
  | failed => failed

def Sink.takeIn (disk : Disk) (octets : Bytes) (ending : Option Bytes) (sink : Sink) :
    Disk × Sink × Except Fault Unit :=
  match sink.write disk octets, ending with
  | (disk, sink, .ok ()), some held => sink.close disk held
  | outcome, _ => outcome

/-- The sink holds what is known of the host form: all of it, or all but a CR that waits for its partner. -/
def Sink.Reflects (disk : Disk) (mode : Mode) (wire : Bytes) (sink : Sink) : Prop :=
  ∃ held, (held = [] ∨ mode = .netascii ∧ held = [Netascii.cr]) ∧
    (sink.stored disk).toList ++ held = mode.hostForm wire

namespace Store

variable {disk disk' : Disk} {mode : Mode} {arrived : Bytes} {store : Store} {sink' : Sink}
  {result : Except Fault Unit}

theorem Stores.reflects (h : store.Stores disk mode arrived) : store.sink.Reflects disk mode arrived := by
  refine ⟨mode.heldBack arrived, mode.heldBack_cases arrived, ?_⟩
  rw [h.sink.stored_eq, Mode.landed_append_heldBack]

theorem write_eq (h : store.Stores disk mode arrived) (payload : Bytes)
    (hw : store.sink.write disk ((mode.landed (arrived ++ payload)).drop (mode.landed arrived).length) =
      (disk', sink', result)) :
    store.write disk payload = (disk', { (store.unpack payload).1 with sink := sink' }, result) := by
  obtain ⟨-, hlanded⟩ := unpack_decoder h payload
  rw [← hlanded, List.drop_left] at hw
  simp only [write, put, unpack_sink, hw]

theorem finish_eq (h : store.Stores disk mode arrived)
    (hc : store.sink.close disk (mode.heldBack arrived) = (disk', sink', result)) :
    store.finish disk = (disk', { store.release.1 with sink := sink' }, result) := by
  rw [Sink.close, ← release_heldBack h] at hc
  obtain ⟨released, last, outcome, hw⟩ :
      ∃ released last outcome, store.sink.write disk store.release.2 = (released, last, outcome) := ⟨_, _, _, rfl⟩
  rw [hw] at hc
  simp only [finish, put, release_sink, hw]
  cases outcome <;> cases hc <;> rfl

end Store

namespace Block

def added? (size : Nat) (blocks : List Bytes) : Packet → Option Bytes
  | .data number payload =>
    if number = .ofNat (blocks.length + 1) ∧ payload.length ≤ size then some payload else none
  | _ => none

def taken (size : Nat) (packets : List Packet) : List Bytes :=
  packets.foldl (fun blocks packet => blocks ++ (added? size blocks packet).toList) []

def delivery (disk : Disk) (mode : Mode) (size : Nat) (blocks : List Bytes) (payload : Bytes) (sink : Sink) :
    Disk × Sink × Except Fault Unit :=
  let arrived := blocks.flatten ++ payload
  sink.takeIn disk ((mode.landed arrived).drop (mode.landed blocks.flatten).length)
    (if payload.length < size then some (mode.heldBack arrived) else none)

namespace Receiver

def hear (disk : Disk) (receiver : Receiver) (packets : List Packet) : (Disk × Receiver) × List Action :=
  Transducer.run (fun (state : Disk × Receiver) packet =>
    let outcome := state.2.onPacket state.1 packet
    ((outcome.1, outcome.2.1), [outcome.2.2])) (disk, receiver) packets

/-- A receiver that has taken in these blocks. -/
structure Took (disk : Disk) (mode : Mode) (size : Nat) (blocks : List Bytes) (receiver : Receiver) : Prop where
  current : receiver.current = .ofNat blocks.length
  blockSize : receiver.blockSize = size
  store : receiver.store.Stores disk mode blocks.flatten

variable {disk : Disk} {mode : Mode} {size : Nat} {blocks : List Bytes} {receiver : Receiver}

theorem hear_cons (disk : Disk) (receiver : Receiver) (packet : Packet) (packets : List Packet) :
    receiver.hear disk (packet :: packets) =
      let outcome := receiver.onPacket disk packet
      ((outcome.2.1.hear outcome.1 packets).1, outcome.2.2 :: (outcome.2.1.hear outcome.1 packets).2) := by
  rw [hear, Transducer.run_cons]
  rfl

/-- What a packet can bring about. -/
inductive Reacts (disk : Disk) (mode : Mode) (size : Nat) (blocks : List Bytes) (receiver : Receiver) :
    Packet → Disk × Receiver × Action → Prop where
  | full {disk' : Disk} {next : Receiver} {payload : Bytes} (hlength : payload.length = size)
    (hsink : delivery disk mode size blocks payload receiver.store.sink = (disk', next.store.sink, .ok ()))
    (htook : next.Took disk' mode size (blocks ++ [payload])) :
    Reacts disk mode size blocks receiver (.data (.ofNat (blocks.length + 1)) payload)
      (disk', next, .send (.ack (.ofNat (blocks.length + 1))))
  | last {disk' : Disk} {next : Receiver} {payload : Bytes} (hlength : payload.length < size)
    (hsink : delivery disk mode size blocks payload receiver.store.sink = (disk', next.store.sink, .ok ()))
    (hstores : next.store.sink.Stores disk' (mode.hostForm (blocks ++ [payload]).flatten)) :
    Reacts disk mode size blocks receiver (.data (.ofNat (blocks.length + 1)) payload)
      (disk', next, .terminate (.ack (.ofNat (blocks.length + 1))))
  | failed {disk' : Disk} {next : Receiver} {payload : Bytes} {fault : Fault} (hlength : payload.length ≤ size)
    (hsink : delivery disk mode size blocks payload receiver.store.sink = (disk', next.store.sink, .error fault)) :
    Reacts disk mode size blocks receiver (.data (.ofNat (blocks.length + 1)) payload)
      (disk', next, .fail fault)
  | behind {number : UInt16} {payload : Bytes} (hne : number ≠ .ofNat (blocks.length + 1)) :
    Reacts disk mode size blocks receiver (.data number payload)
      (disk, receiver, .send (.ack (.ofNat blocks.length)))
  | refuse {packet : Packet} (hnone : added? size blocks packet = none) :
    Reacts disk mode size blocks receiver packet (disk, receiver, .refuse)
  | gaveUp (code : ErrorCode) (message : String) :
    Reacts disk mode size blocks receiver (.error code message) (disk, receiver, .peerError code message)

theorem Took.accept (h : receiver.Took disk mode size blocks) {payload : Bytes} (hle : payload.length ≤ size) :
    Reacts disk mode size blocks receiver (.data (.ofNat (blocks.length + 1)) payload)
      (receiver.accept disk payload) := by
  have hflat : (blocks ++ [payload]).flatten = blocks.flatten ++ payload := by
    rw [List.flatten_append, List.flatten_singleton]
  have hcurrent : receiver.current + 1 = .ofNat (blocks.length + 1) := by rw [h.current, ofNat_succ]
  rw [Receiver.accept, h.blockSize, if_neg (Nat.not_lt.mpr hle)]
  obtain ⟨written, sink, result, hw⟩ :
      ∃ written sink result, receiver.store.sink.write disk ((mode.landed (blocks.flatten ++ payload)).drop
        (mode.landed blocks.flatten).length) = (written, sink, result) := ⟨_, _, _, rfl⟩
  have hwrite := Store.write_eq h.store payload hw
  rw [hwrite]
  cases result with
  | error fault => exact .failed hle (by simp only [delivery, Sink.takeIn, hw])
  | ok u =>
    have hstores := Store.write_stores h.store hwrite
    simp only [hcurrent]
    split
    · next hlt =>
      obtain ⟨closed, last, result, hclose⟩ :
          ∃ closed last result, sink.close written (mode.heldBack (blocks.flatten ++ payload)) =
            (closed, last, result) := ⟨_, _, _, rfl⟩
      have hfinish := Store.finish_eq hstores hclose
      have hsink : delivery disk mode size blocks payload receiver.store.sink = (closed, last, result) := by
        simp only [delivery, Sink.takeIn, hw, if_pos hlt, hclose]
      rw [hfinish]
      cases result with
      | error fault => exact .failed hle hsink
      | ok u =>
        have hfinal := Store.finish_stores hstores hfinish
        rw [← hflat] at hfinal
        exact .last hlt hsink hfinal
    · next hge =>
      have hlength : payload.length = size := Nat.le_antisymm hle (Nat.not_lt.mp hge)
      refine .full hlength (by simp only [delivery, Sink.takeIn, hw, if_neg hge]) ⟨?_, rfl, ?_⟩
      · rw [List.length_append]
        rfl
      · rw [hflat]
        exact hstores

theorem added_none {number : UInt16} (hne : number ≠ .ofNat (blocks.length + 1)) (payload : Bytes) :
    added? size blocks (.data number payload) = none := by
  rw [added?, if_neg fun h => hne h.1]

theorem Took.behind (h : receiver.Took disk mode size blocks) {number : UInt16} (payload : Bytes)
    (hb : Behind number (.ofNat (blocks.length + 1))) :
    receiver.onPacket disk (.data number payload) = (disk, receiver, .send (.ack (.ofNat blocks.length))) := by
  rw [← order_eq_behind_iff, ofNat_succ, ← h.current] at hb
  simp only [onPacket, onData, hb]
  rw [h.current]

theorem Took.ahead (h : receiver.Took disk mode size blocks) {number : UInt16} (payload : Bytes)
    (ha : Ahead number (.ofNat (blocks.length + 1))) :
    receiver.onPacket disk (.data number payload) = (disk, receiver, .refuse) := by
  rw [← order_eq_ahead_iff, ofNat_succ, ← h.current] at ha
  simp only [onPacket, onData, ha]

theorem Took.due (h : receiver.Took disk mode size blocks) (payload : Bytes) :
    receiver.onPacket disk (.data (.ofNat (blocks.length + 1)) payload) = receiver.accept disk payload := by
  simp only [onPacket, onData, h.current, ← ofNat_succ, order_self]

theorem Took.oversized (h : receiver.Took disk mode size blocks) {payload : Bytes} (hlong : size < payload.length) :
    receiver.onPacket disk (.data (.ofNat (blocks.length + 1)) payload) = (disk, receiver, .refuse) := by
  rw [h.due, Receiver.accept, h.blockSize, if_pos hlong]

theorem Took.reacts (h : receiver.Took disk mode size blocks) (packet : Packet) :
    Reacts disk mode size blocks receiver packet (receiver.onPacket disk packet) := by
  cases packet with
  | data number payload =>
    rcases order_cases number (.ofNat (blocks.length + 1)) with rfl | hb | ha
    · rcases Nat.lt_or_ge size payload.length with hlong | hle
      · rw [h.oversized hlong]
        exact .refuse (by rw [added?, if_neg fun h => Nat.not_lt.mpr h.2 hlong])
      · rw [h.due]
        exact h.accept hle
    · rw [h.behind payload hb]
      exact .behind hb.ne
    · rw [h.ahead payload ha]
      exact .refuse (added_none ha.ne payload)
  | error code message => exact .gaveUp code message
  | _ => exact .refuse rfl

theorem added_due {payload : Bytes} (hle : payload.length ≤ size) :
    added? size blocks (.data (.ofNat (blocks.length + 1)) payload) = some payload := by
  rw [added?, if_pos ⟨rfl, hle⟩]

theorem hear_took (h : receiver.Took disk mode size blocks) (packets : List Packet)
    (hopen : ∀ action ∈ (receiver.hear disk packets).2, action.ends = false) :
    (receiver.hear disk packets).1.2.Took (receiver.hear disk packets).1.1 mode size
      (packets.foldl (fun blocks packet => blocks ++ (added? size blocks packet).toList) blocks) := by
  induction packets generalizing disk receiver blocks with
  | nil => exact h
  | cons packet packets ih =>
    rw [hear_cons] at hopen ⊢
    have hfirst : (receiver.onPacket disk packet).2.2.ends = false := hopen _ List.mem_cons_self
    have hrest := fun action hmem => hopen action (List.mem_cons_of_mem _ hmem)
    have hr := h.reacts packet
    generalize receiver.onPacket disk packet = outcome at hr hfirst hrest ⊢
    rw [List.foldl_cons]
    cases hr with
    | full hlength hsink htook =>
      rw [added_due (Nat.le_of_eq hlength)]
      exact ih htook hrest
    | behind hne =>
      rw [added_none hne, Option.toList_none, List.append_nil]
      exact ih h hrest
    -- all other reactions end the exchange
    | _ => cases hfirst

/-- How the next block is taken in once it has been `delivered` to the sink: it is acknowledged if the sink has taken
it, and otherwise the sender is told of the failure. -/
structure TakesIn (mode : Mode) (size : Nat) (blocks : List Bytes) (payload : Bytes)
    (delivered : Disk × Sink × Except Fault Unit) (outcome : Disk × Receiver × Action) : Prop where
  files : outcome.1 = delivered.1
  sink : outcome.2.1.store.sink = delivered.2.1
  full : payload.length = size → delivered.2.2 = .ok () →
    outcome.2.2 = .send (.ack (.ofNat (blocks.length + 1))) ∧
      outcome.2.1.store.sink.Reflects outcome.1 mode (blocks ++ [payload]).flatten
  last : payload.length < size → delivered.2.2 = .ok () →
    outcome.2.2 = .terminate (.ack (.ofNat (blocks.length + 1))) ∧
      (outcome.2.1.store.sink.stored outcome.1).toList = mode.hostForm (blocks ++ [payload]).flatten
  failed : ∀ fault, delivered.2.2 = .error fault →
    outcome.2.2 = .terminate (.standardError (.ofFault fault.kind))

structure InTurn (disk : Disk) (mode : Mode) (size : Nat) (blocks : List Bytes) (receiver : Receiver) : Prop where
  stored : receiver.store.sink.Reflects disk mode blocks.flatten
  due : ∀ payload, payload.length ≤ size → TakesIn mode size blocks payload
    (delivery disk mode size blocks payload receiver.store.sink)
    (receiver.onPacket disk (.data (.ofNat (blocks.length + 1)) payload))
  oversized : ∀ payload, size < payload.length →
    receiver.onPacket disk (.data (.ofNat (blocks.length + 1)) payload) =
      (disk, receiver, .terminate (.standardError .illegalOperation))
  behind : ∀ number payload, Behind number (.ofNat (blocks.length + 1)) →
    receiver.onPacket disk (.data number payload) = (disk, receiver, .send (.ack (.ofNat blocks.length)))
  ahead : ∀ number payload, Ahead number (.ofNat (blocks.length + 1)) →
    receiver.onPacket disk (.data number payload) =
      (disk, receiver, .terminate (.standardError .illegalOperation))
  stray : ∀ packet, packet.opcode ≠ .data → packet.opcode ≠ .error →
    receiver.onPacket disk packet = (disk, receiver, .terminate (.standardError .illegalOperation))
  gaveUp : ∀ code message, ∃ reason,
    receiver.onPacket disk (.error code message) = (disk, receiver, .close (some reason))

theorem Took.takesIn (h : receiver.Took disk mode size blocks) {payload : Bytes} (hle : payload.length ≤ size) :
    TakesIn mode size blocks payload (delivery disk mode size blocks payload receiver.store.sink)
      (receiver.onPacket disk (.data (.ofNat (blocks.length + 1)) payload)) := by
  have hr := h.accept hle
  rw [h.due]
  generalize receiver.accept disk payload = outcome at hr
  cases hr with
  | full hlength hsink htook =>
    rw [hsink]
    exact ⟨rfl, rfl, fun _ _ => ⟨rfl, htook.store.reflects⟩, fun hlt => absurd hlength (Nat.ne_of_lt hlt),
      fun _ hf => nomatch hf⟩
  | last hlength hsink hstores =>
    rw [hsink]
    exact ⟨rfl, rfl, fun heq => absurd heq (Nat.ne_of_lt hlength), fun _ _ => ⟨rfl, hstores.stored_eq⟩,
      fun _ hf => nomatch hf⟩
  | failed hlength hsink =>
    rw [hsink]
    refine ⟨rfl, rfl, fun _ hok => (nomatch hok), fun _ hok => (nomatch hok), fun fault hf => ?_⟩
    cases hf
    rfl
  | behind hne => exact absurd rfl hne
  | refuse hnone =>
    rw [added_due hle] at hnone
    cases hnone

theorem Took.inTurn (h : receiver.Took disk mode size blocks) : receiver.InTurn disk mode size blocks := by
  refine ⟨h.store.reflects, fun payload => h.takesIn, fun payload => h.oversized, fun number => h.behind,
    fun number => h.ahead, fun packet hdata herror => ?_, fun code message => ⟨_, rfl⟩⟩
  cases packet with
  | data number payload => exact absurd rfl hdata
  | error code message => exact absurd rfl herror
  | _ => rfl

/-- Whatever packets come in, and whenever the sink fails: as long as none has ended the exchange, the blocks that
came in their turn have been taken in, and the next packet meets a receiver that waits for the next of them. -/
theorem takes_in_turn (disk : Disk) (mode : Mode) (size : Nat) (sink : Sink) (hs : sink.Stores disk [])
    (packets : List Packet)
    (hopen : ∀ action ∈ (hear disk { store := .ofMode sink mode, blockSize := size } packets).2,
      action.ends = false) :
    (hear disk { store := .ofMode sink mode, blockSize := size } packets).1.2.InTurn
      (hear disk { store := .ofMode sink mode, blockSize := size } packets).1.1 mode size (taken size packets) :=
  (hear_took ⟨rfl, rfl, Store.stores_ofMode mode hs⟩ packets hopen).inTurn

def narrow : Sink :=
  .memory { limit := some 3, overflow := ⟨.storageFull, "No space left on device"⟩ }

def cramped : Receiver where
  store := .ofMode narrow .netascii
  blockSize := 2

def splitLine : List Packet :=
  [.data 1 [97, 13], .data 1 [97, 13], .data 2 [10, 98]]

theorem splitLine_inTurn :
    (cramped.hear {} splitLine).1.2.InTurn (cramped.hear {} splitLine).1.1 .netascii 2 [[97, 13], [10, 98]] ∧
      (cramped.hear {} (splitLine ++ [.data 3 [99]])).2 =
        [.send (.ack 1), .send (.ack 1), .send (.ack 2),
          .terminate (.error ⟨3⟩ "Disk full or allocation exceeded")] :=
  ⟨takes_in_turn {} .netascii 2 narrow rfl splitLine (by decide), by decide⟩

end Receiver

end Block

end Tftp
