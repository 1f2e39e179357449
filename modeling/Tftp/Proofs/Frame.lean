import Tftp.Proofs.Storing
import Tftp.Transfer.Run

namespace Tftp

def Disk.KeptFor (file : Option FileId) (before after : Disk) : Prop :=
  match file with
  | none => after = before
  | some id => Disk.KeptBut id before after

theorem Disk.KeptFor.refl (file : Option FileId) (disk : Disk) : Disk.KeptFor file disk disk := by
  cases file with
  | none => rfl
  | some id => exact Disk.KeptBut.refl id disk

theorem Disk.KeptFor.trans {file : Option FileId} {first second third : Disk}
    (h : Disk.KeptFor file first second) (h' : Disk.KeptFor file second third) :
    Disk.KeptFor file first third := by
  cases file with
  | none => exact Eq.trans h' h
  | some id => exact Disk.KeptBut.trans h h'

theorem Disk.KeptFor.nodes {file : Option FileId} {before after : Disk}
    (h : Disk.KeptFor file before after) : after.nodes = before.nodes := by
  cases file with
  | none => exact congrArg Disk.nodes h
  | some id => exact Disk.KeptBut.nodes h

theorem Disk.KeptFor.barred {file : Option FileId} {before after : Disk}
    (h : Disk.KeptFor file before after) : after.barred = before.barred := by
  cases file with
  | none => exact congrArg Disk.barred h
  | some id => exact Disk.KeptBut.barred h

namespace Sink

def file? : Sink → Option FileId
  | memory _ => none
  | file id _ => some id

theorem Stores.content_of_file {disk : Disk} {bytes : Bytes} {sink : Sink} {id : FileId}
    (h : sink.Stores disk bytes) (hf : sink.file? = some id) : (disk.content id).toList = bytes := by
  cases sink with
  | memory m => cases hf
  | file k offset =>
    cases hf
    exact h.2.1

theorem write_kept (disk : Disk) (bytes : Bytes) (sink : Sink) :
    Disk.KeptFor sink.file? disk (sink.write disk bytes).1 ∧
      (sink.write disk bytes).2.1.file? = sink.file? := by
  cases sink with
  | memory m => exact ⟨rfl, rfl⟩
  | file id offset => exact ⟨Disk.kept_write disk id offset bytes, rfl⟩

theorem flush_kept (disk : Disk) (sink : Sink) : Disk.KeptFor sink.file? disk (sink.flush disk).1 := by
  cases sink with
  | memory m =>
    simp only [flush]
    split <;> rfl
  | file id offset => exact Disk.kept_flush disk id

end Sink

namespace Store

theorem put_kept (disk : Disk) (bytes : Bytes) (store : Store) :
    Disk.KeptFor store.sink.file? disk (store.put disk bytes).1 ∧
      (store.put disk bytes).2.1.sink.file? = store.sink.file? :=
  Sink.write_kept disk bytes store.sink

theorem write_kept (disk : Disk) (payload : Bytes) (store : Store) :
    Disk.KeptFor store.sink.file? disk (store.write disk payload).1 ∧
      (store.write disk payload).2.1.sink.file? = store.sink.file? := by
  rw [← unpack_sink store payload]
  exact put_kept disk (store.unpack payload).2 (store.unpack payload).1

theorem finish_kept (disk : Disk) (store : Store) :
    Disk.KeptFor store.sink.file? disk (store.finish disk).1 ∧
      (store.finish disk).2.1.sink.file? = store.sink.file? := by
  have hs := release_sink store
  obtain ⟨hput, hfile⟩ := put_kept disk store.release.2 store.release.1
  rw [finish]
  simp only
  rw [hs] at hput hfile
  split
  · next written last hw =>
    rw [hw] at hput hfile
    refine ⟨hput.trans ?_, hfile⟩
    rw [← hfile]
    exact Sink.flush_kept written last.sink
  · exact ⟨hput, hfile⟩

end Store

namespace Block

theorem Receiver.accept_kept (disk : Disk) (payload : Bytes) (receiver : Receiver) :
    Disk.KeptFor receiver.store.sink.file? disk (receiver.accept disk payload).1 ∧
      (receiver.accept disk payload).2.1.store.sink.file? = receiver.store.sink.file? := by
  obtain ⟨hw, hf⟩ := Store.write_kept disk payload receiver.store
  rw [accept]
  split
  · exact ⟨Disk.KeptFor.refl _ disk, rfl⟩
  split
  · next written store fault heq =>
    rw [heq] at hw hf
    exact ⟨hw, hf⟩
  · next written store heq =>
    rw [heq] at hw hf
    obtain ⟨hl, hfl⟩ := Store.finish_kept written store
    rw [hf] at hl hfl
    simp only
    split
    · split
      · next finished last fault heq' =>
        rw [heq'] at hl hfl
        exact ⟨hw.trans hl, hfl⟩
      · next finished last heq' =>
        rw [heq'] at hl hfl
        exact ⟨hw.trans hl, hfl⟩
    · exact ⟨hw, hf⟩

namespace Party

def file? : Party → Option FileId
  | sender _ => none
  | receiver r => r.store.sink.file?

theorem onPacket_kept (disk : Disk) (packet : Packet) (party : Party) :
    Disk.KeptFor party.file? disk (party.onPacket disk packet).1 ∧
      (party.onPacket disk packet).2.1.file? = party.file? := by
  cases party with
  | sender s => exact ⟨rfl, rfl⟩
  | receiver r =>
    have hstay := Disk.KeptFor.refl r.store.sink.file? disk
    cases packet with
    | data block payload =>
      simp only [onPacket, Receiver.onPacket, Receiver.onData, file?]
      split
      · exact Receiver.accept_kept disk payload r
      · exact ⟨hstay, rfl⟩
      · exact ⟨hstay, rfl⟩
    | _ => exact ⟨hstay, rfl⟩

theorem start_kept (disk : Disk) (party : Party) :
    (party.start disk).1 = disk ∧ (party.start disk).2.1.file? = party.file? := by
  cases party with
  | sender s => exact ⟨rfl, rfl⟩
  | receiver r => exact ⟨rfl, rfl⟩

end Party

end Block

namespace Run

/-- A datagram changes at most the file that is being received. -/
theorem onDatagram_kept (link : Link) (stopped : Bool) (disk : Disk) (datagram : Datagram) (run : Run) :
    Disk.KeptFor run.party.file? disk (run.onDatagram link stopped disk datagram).state.1 ∧
      (run.onDatagram link stopped disk datagram).state.2.party.file? = run.party.file? := by
  have hstay := Disk.KeptFor.refl run.party.file? disk
  rw [onDatagram, receive]
  split
  · exact ⟨hstay, rfl⟩
  · simp only
    split
    · next packet hread => exact Block.Party.onPacket_kept disk packet run.party
    · exact ⟨hstay, rfl⟩

end Run

end Tftp
