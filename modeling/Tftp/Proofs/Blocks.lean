import Tftp.Block.Receiver
import Tftp.Block.Sender
import Tftp.Proofs.BlockNumber
import Tftp.Proofs.Reading
import Tftp.Proofs.Storing

namespace Tftp.Block

/-- What block `number`, counted from 1, carries of a wire form cut into blocks of `size` octets. -/
def payload (size : Nat) (wire : Bytes) (number : Nat) : Bytes :=
  (wire.drop ((number - 1) * size)).take size

/-- All blocks but the last are full. The last is short and may be empty. -/
def count (size : Nat) (wire : Bytes) : Nat :=
  wire.length / size + 1

variable {size : Nat} {wire : Bytes}

theorem take_succ (n : Nat) :
    wire.take (n * size) ++ payload size wire (n + 1) = wire.take ((n + 1) * size) := by
  rw [payload, Nat.add_sub_cancel, Nat.add_mul, Nat.one_mul, List.take_add]

theorem flatMap_payload (n : Nat) :
    ((List.range n).flatMap fun i => payload size wire (i + 1)) = wire.take (n * size) := by
  induction n with
  | zero => simp
  | succ n ih => rw [List.range_succ, List.flatMap_append, ih, List.flatMap_singleton, take_succ]

theorem count_mul_gt (hs : 0 < size) : wire.length < count size wire * size := by
  rw [count, Nat.mul_comm]
  exact Nat.lt_mul_div_succ wire.length hs

theorem take_count (hs : 0 < size) : wire.take (count size wire * size) = wire :=
  List.take_of_length_le (Nat.le_of_lt (count_mul_gt hs))

theorem mul_le_length (n : Nat) (hn : n < count size wire) : n * size ≤ wire.length :=
  Nat.le_trans (Nat.mul_le_mul_right size (Nat.le_of_lt_succ hn)) (Nat.div_mul_le_self wire.length size)

theorem length_payload_le (n : Nat) : (payload size wire n).length ≤ size := by
  rw [payload, List.length_take]
  exact Nat.min_le_left _ _

theorem length_payload_lt_iff (hs : 0 < size) (n : Nat) (hn : n < count size wire) :
    (payload size wire (n + 1)).length < size ↔ n + 1 = count size wire := by
  have hle := mul_le_length n hn
  rw [payload, Nat.add_sub_cancel, List.length_take, List.length_drop]
  constructor
  · intro h
    have hlt : wire.length < (n + 1) * size := by
      rw [Nat.add_mul, Nat.one_mul]
      omega
    have hd := (Nat.div_lt_iff_lt_mul hs).mpr hlt
    simp only [count] at hn ⊢
    omega
  · intro h
    have hlt : wire.length < count size wire * size := count_mul_gt hs
    rw [← h, Nat.add_mul, Nat.one_mul] at hlt
    omega

def dataPackets (size : Nat) (wire : Bytes) (n : Nat) : List Packet :=
  (List.range n).map fun i => .data (.ofNat (i + 1)) (payload size wire (i + 1))

def ackPackets (n : Nat) : List Packet :=
  (List.range n).map fun i => .ack (.ofNat (i + 1))

theorem dataPackets_succ (n : Nat) :
    dataPackets size wire (n + 1) =
      dataPackets size wire n ++ [.data (.ofNat (n + 1)) (payload size wire (n + 1))] := by
  rw [dataPackets, List.range_succ, List.map_append]
  rfl

theorem ackPackets_succ (n : Nat) : ackPackets (n + 1) = ackPackets n ++ [.ack (.ofNat (n + 1))] := by
  rw [ackPackets, List.range_succ, List.map_append]
  rfl

/-- A sender that has handed out the first `handed` blocks. -/
structure Sender.At (disk : Disk) (mode : Mode) (size : Nat) (wire : Bytes) (handed : Nat)
    (sender : Sender) : Prop where
  current : sender.current = .ofNat handed
  blockSize : sender.blockSize = size
  cutter : sender.cutter.Yields disk mode (wire.drop (handed * size))
  final : sender.awaitingFinal = true ↔ handed = count size wire
  bound : handed ≤ count size wire

namespace Sender

variable {disk : Disk} {mode : Mode} {handed : Nat} {sender : Sender}

theorem at_zero {content : Bytes} {source : Source} (h : source.Delivers disk content) :
    ({ cutter := { source, mode }, blockSize := size } : Sender).At disk mode size
      (mode.wireForm content) 0 := by
  refine ⟨rfl, rfl, ⟨rfl, content, h, ?_, fun he => (nomatch he)⟩, ?_, Nat.zero_le _⟩
  · rw [Nat.zero_mul, List.drop_zero]
    rfl
  · exact ⟨fun he => (nomatch he), fun he => absurd he (Nat.succ_ne_zero _).symm⟩

theorem nextBlock_at (hs : 0 < size) (h : sender.At disk mode size wire handed)
    (hn : handed < count size wire) :
    ∃ next, sender.nextBlock disk =
        (next, .send (.data (.ofNat (handed + 1)) (payload size wire (handed + 1)))) ∧
      next.At disk mode size wire (handed + 1) := by
  obtain ⟨hc, hb, hy, -, -⟩ := h
  obtain ⟨cutter, hnext, hyields⟩ := Cutter.next_yields disk mode _ size sender.cutter hy
  have hp : (wire.drop (handed * size)).take size = payload size wire (handed + 1) := by
    rw [payload, Nat.add_sub_cancel]
  have hd : (wire.drop (handed * size)).drop size = wire.drop ((handed + 1) * size) := by
    rw [List.drop_drop, Nat.add_mul, Nat.one_mul]
  rw [hp] at hnext
  rw [hd] at hyields
  have hcur : sender.current + 1 = .ofNat (handed + 1) := by rw [hc, ofNat_succ]
  refine ⟨{ sender with
      cutter, current := .ofNat (handed + 1)
      awaitingFinal := (payload size wire (handed + 1)).length < size }, ?_, ⟨rfl, hb, hyields, ?_, hn⟩⟩
  · simp only [nextBlock, hb, hnext, hcur]
  · simpa using length_payload_lt_iff hs handed hn

theorem onAck_due (hs : 0 < size) (h : sender.At disk mode size wire handed)
    (hn : handed < count size wire) :
    ∃ next, sender.onAck disk (.ofNat handed) =
        (next, .send (.data (.ofNat (handed + 1)) (payload size wire (handed + 1)))) ∧
      next.At disk mode size wire (handed + 1) := by
  have hw : sender.awaitingFinal ≠ true := fun hw => Nat.ne_of_lt hn (h.final.mp hw)
  obtain ⟨next, hnext, hat⟩ := nextBlock_at hs h hn
  exact ⟨next, by simp only [onAck, h.current, order_self, if_neg hw, hnext], hat⟩

theorem onAck_final (h : sender.At disk mode size wire handed) (hn : handed = count size wire) :
    sender.onAck disk (.ofNat handed) = (sender, .close none) := by
  simp only [onAck, h.current, order_self, if_pos (h.final.mpr hn)]

theorem onAck_stale (h : sender.At disk mode size wire handed) (i : Nat) (hi : i < handed)
    (hnear : handed < i + 65536) :
    sender.onAck disk (.ofNat i) = (sender, .listen) ∨ sender.onAck disk (.ofNat i) = (sender, .refuse) := by
  have ho := order_stale i handed hi hnear
  simp only [onAck, h.current]
  split
  · next heq => exact absurd heq ho
  · exact .inl rfl
  · exact .inr rfl

end Sender

/-- A receiver that has stored the first `stored` blocks and waits for more. -/
structure Receiver.At (disk : Disk) (mode : Mode) (size : Nat) (wire : Bytes) (stored : Nat)
    (receiver : Receiver) : Prop where
  current : receiver.current = .ofNat stored
  blockSize : receiver.blockSize = size
  store : receiver.store.Holds disk mode (wire.take (stored * size))
  bound : stored < count size wire

namespace Receiver

variable {disk : Disk} {mode : Mode} {stored : Nat} {receiver : Receiver}

theorem at_zero {sink : Sink} (h : sink.Holds disk []) :
    ({ store := .ofMode sink mode, blockSize := size } : Receiver).At disk mode size wire 0 := by
  refine ⟨rfl, rfl, ?_, Nat.succ_pos _⟩
  rw [Nat.zero_mul, List.take_zero]
  exact ⟨Store.stores_ofMode mode h.stores, by rw [Store.ofMode_sink]; exact h.willing⟩

theorem accept_write (h : receiver.At disk mode size wire stored) :
    ∃ disk' store, receiver.store.write disk (payload size wire (stored + 1)) = (disk', store, .ok ()) ∧
      store.Holds disk' mode (wire.take ((stored + 1) * size)) := by
  rw [← take_succ stored]
  exact Store.write_holds disk mode _ _ receiver.store h.store

theorem onData_due (hs : 0 < size) (h : receiver.At disk mode size wire stored)
    (hn : stored + 1 < count size wire) :
    ∃ disk' next, receiver.onData disk (.ofNat (stored + 1)) (payload size wire (stored + 1)) =
        (disk', next, .send (.ack (.ofNat (stored + 1)))) ∧
      next.At disk' mode size wire (stored + 1) := by
  obtain ⟨disk', store, hw, hholds⟩ := accept_write h
  have hle : ¬size < (payload size wire (stored + 1)).length := Nat.not_lt.mpr (length_payload_le _)
  have hfull : ¬(payload size wire (stored + 1)).length < size := fun hlt =>
    Nat.ne_of_lt hn ((length_payload_lt_iff hs stored h.bound).mp hlt)
  refine ⟨disk', { receiver with store, current := .ofNat (stored + 1) }, ?_, rfl, h.blockSize, hholds, hn⟩
  simp only [onData, h.current, ← ofNat_succ, order_self, accept, h.blockSize, if_neg hle, hw,
    if_neg hfull]

theorem onData_last (hs : 0 < size) (h : receiver.At disk mode size wire stored)
    (hn : stored + 1 = count size wire) :
    ∃ disk' next, receiver.onData disk (.ofNat (stored + 1)) (payload size wire (stored + 1)) =
        (disk', next, .terminate (.ack (.ofNat (stored + 1)))) ∧
      next.current = .ofNat (stored + 1) ∧ next.blockSize = size ∧
      next.store.sink.Holds disk' (mode.hostForm wire) := by
  obtain ⟨written, store, hw, hholds⟩ := accept_write h
  have hle : ¬size < (payload size wire (stored + 1)).length := Nat.not_lt.mpr (length_payload_le _)
  have hshort := (length_payload_lt_iff hs stored h.bound).mpr hn
  rw [hn, take_count hs] at hholds
  obtain ⟨disk', last, hf, hsink⟩ := Store.finish_holds written mode wire store hholds
  refine ⟨disk', { receiver with store := last, current := .ofNat (stored + 1) }, ?_, rfl, h.blockSize, hsink⟩
  simp only [onData, h.current, ← ofNat_succ, order_self, accept, h.blockSize, if_neg hle, hw,
    if_pos hshort, hf]

theorem onData_stale (h : receiver.At disk mode size wire stored) (j : Nat) (bytes : Bytes)
    (hj : j < stored + 1) (hnear : stored + 1 < j + 65536) :
    receiver.onData disk (.ofNat j) bytes = (disk, receiver, .send (.ack (.ofNat stored))) ∨
      receiver.onData disk (.ofNat j) bytes = (disk, receiver, .refuse) := by
  have ho := order_stale j (stored + 1) hj hnear
  simp only [onData, h.current, ← ofNat_succ]
  split
  · next heq => exact absurd heq ho
  · exact .inl rfl
  · exact .inr rfl

end Receiver

end Tftp.Block
