import Tftp.Proofs.Contents
import Tftp.Proofs.Netascii
import Tftp.Stream.Store

namespace Tftp

namespace Sink

def Stores (disk : Disk) (bytes : Bytes) : Sink → Prop
  | memory m => m.stored.toList = bytes
  | file id offset =>
    id < disk.contents.size ∧ (disk.content id).toList = bytes ∧ offset = bytes.length

def Willing (disk : Disk) : Sink → Prop
  | memory m => m.limit = none ∧ m.flushFault = none
  | file .. => disk.Calm

structure Holds (disk : Disk) (bytes : Bytes) (sink : Sink) : Prop where
  stores : sink.Stores disk bytes
  willing : sink.Willing disk

theorem Stores.stored_eq {disk : Disk} {bytes : Bytes} {sink : Sink} (h : sink.Stores disk bytes) :
    (sink.stored disk).toList = bytes := by
  cases sink with
  | memory m => exact h
  | file id offset => exact h.2.1

variable {disk disk' : Disk} {bytes more : Bytes} {sink sink' : Sink}

theorem write_stores (h : sink.Stores disk bytes) (hw : sink.write disk more = (disk', sink', .ok ())) :
    sink'.Stores disk' (bytes ++ more) := by
  cases sink with
  | memory m =>
    simp only [write, Memory.write] at hw
    split at hw
    · cases hw
      simpa [Stores] using h
    split at hw
    · cases hw
      simpa [Stores] using h
    · cases hw
  | file id offset =>
    obtain ⟨hi, hc, rfl⟩ := h
    have hkept := Disk.kept_write disk id bytes.length more
    simp only [write, Prod.mk.injEq] at hw
    obtain ⟨rfl, rfl, hr⟩ := hw
    refine ⟨?_, Disk.content_write_end hi hc (Prod.ext rfl hr), (List.length_append ..).symm⟩
    rw [hkept.size]
    exact hi

theorem write_willing (disk : Disk) (more : Bytes) (sink : Sink) (h : sink.Willing disk) :
    ∃ disk' sink', sink.write disk more = (disk', sink', .ok ()) ∧ sink'.Willing disk' := by
  cases sink with
  | memory m => exact ⟨disk, .memory { m with stored := m.stored ++ more }, by simp [write, Memory.write, h.1], h⟩
  | file id offset =>
    obtain ⟨next, hw, hcalm⟩ := Disk.write_calm disk id offset more h
    exact ⟨next, .file id (offset + more.length), by simp only [write, hw], hcalm⟩

theorem flush_stores (h : sink.Stores disk bytes) : sink.Stores (sink.flush disk).1 bytes := by
  cases sink with
  | memory m => exact h
  | file id offset =>
    obtain ⟨hi, hc, ho⟩ := h
    have hsame := Disk.flush_contents disk
    simp only [Stores, flush, Disk.content, hsame]
    exact ⟨hi, hc, ho⟩

theorem flush_willing (disk : Disk) (sink : Sink) (h : sink.Willing disk) :
    ∃ disk', sink.flush disk = (disk', .ok ()) ∧ sink.Willing disk' := by
  cases sink with
  | memory m => exact ⟨disk, by simp [flush, h.2], h⟩
  | file id offset => exact Disk.flush_calm disk h

end Sink

namespace Store

def decoderAt : Mode → Bytes → Option Netascii.Decoder
  | .octet, _ => none
  | .netascii, arrived => some (({} : Netascii.Decoder).decode arrived).1

/-- The payloads so far come to `arrived`, and all but a CR held back is stored. -/
structure Stores (disk : Disk) (mode : Mode) (arrived : Bytes) (store : Store) : Prop where
  decoder : store.decoder = decoderAt mode arrived
  sink : store.sink.Stores disk (mode.landed arrived)

structure Holds (disk : Disk) (mode : Mode) (arrived : Bytes) (store : Store) : Prop where
  stores : store.Stores disk mode arrived
  willing : store.sink.Willing disk

theorem stores_ofMode {disk : Disk} {sink : Sink} (mode : Mode) (h : sink.Stores disk []) :
    (ofMode sink mode).Stores disk mode [] := by
  cases mode with
  | octet => exact ⟨rfl, h⟩
  | netascii => exact ⟨rfl, h⟩

theorem ofMode_sink (sink : Sink) (mode : Mode) : (ofMode sink mode).sink = sink := by
  cases mode <;> rfl

variable {disk disk' : Disk} {mode : Mode} {arrived payload : Bytes} {store store' : Store}

theorem unpack_decoder (h : store.Stores disk mode arrived) (payload : Bytes) :
    (store.unpack payload).1.decoder = decoderAt mode (arrived ++ payload) ∧
      mode.landed arrived ++ (store.unpack payload).2 = mode.landed (arrived ++ payload) := by
  have hd := h.decoder
  cases mode with
  | octet =>
    simp only [decoderAt] at hd
    rw [unpack, hd]
    exact ⟨hd, rfl⟩
  | netascii =>
    simp only [decoderAt] at hd
    rw [unpack, hd, decoderAt, Mode.landed, Mode.landed, Netascii.Decoder.decode_append]
    exact ⟨rfl, rfl⟩

theorem release_heldBack (h : store.Stores disk mode arrived) : store.release.2 = mode.heldBack arrived := by
  have hd := h.decoder
  cases mode with
  | octet =>
    simp only [decoderAt] at hd
    simp only [release, hd, Mode.heldBack]
  | netascii =>
    simp only [decoderAt] at hd
    simp only [release, hd, Mode.heldBack]

theorem unpack_sink (store : Store) (payload : Bytes) : (store.unpack payload).1.sink = store.sink := by
  rw [unpack]
  split <;> rfl

theorem release_sink (store : Store) : store.release.1.sink = store.sink := by
  rw [release]
  split <;> rfl

theorem put_stores {bytes more : Bytes} (h : store.sink.Stores disk bytes)
    (hp : store.put disk more = (disk', store', .ok ())) :
    store'.sink.Stores disk' (bytes ++ more) ∧ store'.decoder = store.decoder := by
  simp only [put, Prod.mk.injEq] at hp
  obtain ⟨rfl, rfl, hr⟩ := hp
  exact ⟨Sink.write_stores h (Prod.ext rfl (Prod.ext rfl hr)), rfl⟩

theorem put_willing (disk : Disk) (bytes : Bytes) (store : Store) (h : store.sink.Willing disk) :
    ∃ disk' store', store.put disk bytes = (disk', store', .ok ()) ∧ store'.sink.Willing disk' := by
  obtain ⟨disk', sink', hw, hwilling⟩ := Sink.write_willing disk bytes store.sink h
  exact ⟨disk', { store with sink := sink' }, by simp only [put, hw], hwilling⟩

theorem write_stores (h : store.Stores disk mode arrived)
    (hw : store.write disk payload = (disk', store', .ok ())) : store'.Stores disk' mode (arrived ++ payload) := by
  obtain ⟨hdecoder, hlanded⟩ := unpack_decoder h payload
  have hs := h.sink
  rw [← unpack_sink store payload] at hs
  have hput : (store.unpack payload).1.put disk (store.unpack payload).2 = (disk', store', .ok ()) := hw
  obtain ⟨hs', hd'⟩ := put_stores hs hput
  rw [hlanded] at hs'
  exact ⟨hd'.trans hdecoder, hs'⟩

theorem write_holds (disk : Disk) (mode : Mode) (arrived payload : Bytes) (store : Store)
    (h : store.Holds disk mode arrived) :
    ∃ disk' store', store.write disk payload = (disk', store', .ok ()) ∧
      store'.Holds disk' mode (arrived ++ payload) := by
  have hwilling := h.willing
  rw [← unpack_sink store payload] at hwilling
  obtain ⟨disk', store', hw, hwilling'⟩ := put_willing disk (store.unpack payload).2 _ hwilling
  exact ⟨disk', store', hw, write_stores h.stores hw, hwilling'⟩

/-- What is held back at the end completes the host form. -/
theorem release_stores (h : store.Stores disk mode arrived)
    (hp : store.release.1.put disk store.release.2 = (disk', store', .ok ())) :
    store'.sink.Stores disk' (mode.hostForm arrived) := by
  have hs := h.sink
  rw [← release_sink store] at hs
  have hs' := (put_stores hs hp).1
  rw [release_heldBack h, Mode.landed_append_heldBack] at hs'
  exact hs'

theorem finish_stores (h : store.Stores disk mode arrived) (hf : store.finish disk = (disk', store', .ok ())) :
    store'.sink.Stores disk' (mode.hostForm arrived) := by
  rw [finish] at hf
  simp only at hf
  split at hf
  · next written last hp =>
    have hflushed := Sink.flush_stores (release_stores h hp)
    simp only [Prod.mk.injEq] at hf
    obtain ⟨rfl, rfl, -⟩ := hf
    exact hflushed
  · next hfailed =>
    rw [hf] at hfailed
    exact absurd rfl (hfailed disk' store')

theorem finish_holds (disk : Disk) (mode : Mode) (arrived : Bytes) (store : Store)
    (h : store.Holds disk mode arrived) :
    ∃ disk' store', store.finish disk = (disk', store', .ok ()) ∧
      store'.sink.Holds disk' (mode.hostForm arrived) := by
  have hwilling := h.willing
  rw [← release_sink store] at hwilling
  obtain ⟨written, last, hp, hwilling'⟩ := put_willing disk store.release.2 store.release.1 hwilling
  obtain ⟨flushed, hf, hwilling''⟩ := Sink.flush_willing written last.sink hwilling'
  have hstores := Sink.flush_stores (release_stores h.stores hp)
  rw [hf] at hstores
  exact ⟨flushed, last, by simp only [finish, hp, hf], hstores, hwilling''⟩

end Store

end Tftp
