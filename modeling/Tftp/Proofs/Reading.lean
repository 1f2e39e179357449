import Tftp.Proofs.Netascii
import Tftp.Stream.Cutter

namespace Tftp

theorem drop_length_take (bytes : Bytes) (n : Nat) : bytes.drop (bytes.take n).length = bytes.drop n := by
  have h : (bytes.take n ++ bytes.drop n).drop (bytes.take n).length = bytes.drop n := List.drop_left
  rwa [List.take_append_drop] at h

namespace Source

def Piece.octets : Piece → Bytes
  | .bytes part => part
  | .failure _ => []

def Piece.fault? : Piece → Option Fault
  | .bytes _ => none
  | .failure fault => some fault

def octets (disk : Disk) : Source → Bytes
  | pieces list => list.flatMap Piece.octets
  | file id offset => (disk.content id).toList.drop offset
  | directory => []

def FailsWith (faults : List Fault) : Source → Prop
  | pieces list => faults <+: list.filterMap Piece.fault?
  | file .. => faults = []
  | directory => ∀ fault ∈ faults, fault = ⟨.isADirectory, "Is a directory"⟩

theorem failsWith_nil (source : Source) : source.FailsWith [] := by
  cases source with
  | pieces list => exact List.nil_prefix
  | file id offset => rfl
  | directory => exact nofun

/-- What a read can come to. -/
inductive Reads (disk : Disk) (source : Source) : Source × Except Fault Bytes → Prop where
  | found {next : Source} {bytes : Bytes} (hne : bytes ≠ [])
    (ho : source.octets disk = bytes ++ next.octets disk)
    (hf : ∀ faults, next.FailsWith faults → source.FailsWith faults) :
    Reads disk source (next, .ok bytes)
  | ended {next : Source} (ho : source.octets disk = []) (hn : next.octets disk = [])
    (hf : ∀ faults, next.FailsWith faults → source.FailsWith faults) :
    Reads disk source (next, .ok [])
  | failed {next : Source} {fault : Fault} (ho : next.octets disk = source.octets disk)
    (hf : ∀ faults, next.FailsWith faults → source.FailsWith (fault :: faults)) :
    Reads disk source (next, .error fault)

theorem Reads.congr {disk : Disk} {source other : Source} {outcome : Source × Except Fault Bytes}
    (h : Reads disk source outcome) (ho : other.octets disk = source.octets disk)
    (hf : ∀ faults, source.FailsWith faults → other.FailsWith faults) : Reads disk other outcome := by
  cases h with
  | found hne hs hn => exact .found hne (ho.trans hs) fun faults h => hf faults (hn faults h)
  | ended hs hn hl => exact .ended (ho.trans hs) hn fun faults h => hf faults (hl faults h)
  | failed hs hn => exact .failed (hs.trans ho.symm) fun faults h => hf _ (hn faults h)

theorem readPieces_reads (disk : Disk) {space : Nat} (hs : 0 < space) (list : List Piece) :
    Reads disk (pieces list) (pieces (readPieces space list).1, (readPieces space list).2) := by
  induction list with
  | nil => exact .ended rfl rfl fun _ h => h
  | cons piece list ih =>
    cases piece with
    | failure fault => exact .failed rfl fun faults h => List.cons_prefix_cons.mpr ⟨rfl, h⟩
    | bytes part =>
      by_cases hp : part = []
      · subst hp
        rw [readPieces, if_pos rfl]
        exact ih.congr rfl fun _ h => h
      · rw [readPieces, if_neg hp]
        refine .found (fun ht => ?_) ?_ fun _ h => h
        · rcases List.take_eq_nil_iff.mp ht with h | h
          · omega
          · exact hp h
        · change part ++ _ = part.take space ++ (part.drop space ++ _)
          rw [← List.append_assoc, List.take_append_drop]

theorem read_reads (disk : Disk) {space : Nat} (hs : 0 < space) (source : Source) :
    Reads disk source (source.read disk space) := by
  cases source with
  | pieces list => exact readPieces_reads disk hs list
  | directory => exact .failed rfl fun faults h => List.forall_mem_cons.mpr ⟨rfl, h⟩
  | file id offset =>
    let rest := (disk.content id).toList.drop offset
    have hr : disk.read id offset space = rest.take space := by
      simp [Disk.read, rest, Array.toList_extract, List.extract_eq_take_drop]
    have hn : (file id (offset + (rest.take space).length)).octets disk = rest.drop space := by
      rw [octets, ← List.drop_drop, drop_length_take]
    rw [read, hr]
    by_cases ht : rest.take space = []
    · rw [ht]
      have hrest : rest = [] := by
        rcases List.take_eq_nil_iff.mp ht with h | h
        · omega
        · exact h
      exact .ended hrest hrest fun _ h => h
    · exact .found ht (by rw [hn, List.take_append_drop]; rfl) fun _ h => h

def Delivers (disk : Disk) (bytes : Bytes) : Source → Prop
  | pieces list => ∃ parts : List Bytes, list = parts.map Piece.bytes ∧ parts.flatten = bytes
  | file id offset => (disk.content id).toList.drop offset = bytes
  | directory => False

theorem delivers_iff (disk : Disk) (bytes : Bytes) (source : Source) :
    source.Delivers disk bytes ↔
      source.octets disk = bytes ∧ ∀ faults, source.FailsWith faults → faults = [] := by
  cases source with
  | pieces list =>
    constructor
    · rintro ⟨parts, rfl, rfl⟩
      have hnone : (parts.map Piece.bytes).filterMap Piece.fault? = [] := by
        refine List.filterMap_eq_nil_iff.mpr fun piece hp => ?_
        obtain ⟨part, -, rfl⟩ := List.mem_map.mp hp
        rfl
      refine ⟨?_, fun faults h => ?_⟩
      · rw [octets, List.flatMap_map]
        exact List.flatMap_id'
      · rw [FailsWith, hnone] at h
        exact List.prefix_nil.mp h
    · rintro ⟨ho, hf⟩
      have hnone : list.filterMap Piece.fault? = [] := hf _ (List.prefix_refl _)
      have hsame : list.map (Piece.bytes ∘ Piece.octets) = list.map id := by
        refine List.map_congr_left fun piece hp => ?_
        have hp' := List.filterMap_eq_nil_iff.mp hnone piece hp
        cases piece with
        | bytes part => rfl
        | failure fault => cases hp'
      refine ⟨list.map Piece.octets, by rw [List.map_map, hsame, List.map_id], ?_⟩
      rw [← ho, octets, List.flatMap_def]
  | file id offset => exact ⟨fun h => ⟨h, fun _ hf => hf⟩, fun h => h.1⟩
  | directory =>
    refine ⟨False.elim, fun h => ?_⟩
    cases h.2 [⟨.isADirectory, "Is a directory"⟩] fun fault hf => List.mem_singleton.mp hf

end Source

namespace Cutter

/-- The wire form that the blocks to come are cut from. -/
structure Holds (disk : Disk) (mode : Mode) (wire : Bytes) (cutter : Cutter) : Prop where
  form : cutter.mode = mode
  rest : wire = cutter.pending ++ mode.wireForm (cutter.source.octets disk)
  ended : cutter.exhausted = true → cutter.source.octets disk = []

inductive Fills (disk : Disk) (mode : Mode) (wire : Bytes) (size : Nat) (cutter : Cutter) :
    Cutter × Except Fault Unit → Prop where
  | filled {next : Cutter} (hh : next.Holds disk mode wire)
    (hf : ∀ faults, next.source.FailsWith faults → cutter.source.FailsWith faults)
    (hx : cutter.exhausted = true → next.exhausted = true)
    (he : size ≤ next.pending.length ∨ next.exhausted = true) :
    Fills disk mode wire size cutter (next, .ok ())
  | failed {next : Cutter} {fault : Fault} (hh : next.Holds disk mode wire)
    (hf : ∀ faults, next.source.FailsWith faults → cutter.source.FailsWith (fault :: faults))
    (hx : cutter.exhausted = false) :
    Fills disk mode wire size cutter (next, .error fault)

/-- Each read that finds something makes up for one unit of fuel. -/
theorem fill_fills {disk : Disk} {mode : Mode} {wire : Bytes} {size fuel : Nat} {cutter : Cutter}
    (h : cutter.Holds disk mode wire) (hf : size ≤ cutter.pending.length + fuel) :
    Fills disk mode wire size cutter (cutter.fill disk size fuel) := by
  induction fuel generalizing cutter with
  | zero => exact .filled h (fun _ h => h) (fun h => h) (.inl hf)
  | succ fuel ih =>
    rw [fill]
    by_cases hstop : size ≤ cutter.pending.length ∨ cutter.exhausted = true
    · rw [if_pos (by simpa using hstop)]
      exact .filled h (fun _ h => h) (fun h => h) hstop
    · rw [if_neg (by simpa using hstop)]
      obtain ⟨hp, hx⟩ := not_or.mp hstop
      have hs : 0 < max size leastSpace := by simp only [leastSpace]; omega
      have hr := cutter.source.read_reads disk hs
      generalize cutter.source.read disk (max size leastSpace) = outcome at hr
      cases hr with
      | @found next bytes hne ho hn =>
        -- what has been found makes up for the unit of fuel
        obtain ⟨b, got, rfl⟩ := List.exists_cons_of_ne_nil hne
        have hl := mode.length_le_wireForm (b :: got)
        have hlater := @ih
          { cutter with source := next, pending := cutter.pending ++ cutter.mode.wireForm (b :: got) }
          ⟨h.form, by rw [h.rest, ho, h.form, Mode.wireForm_append, List.append_assoc], fun he => absurd he hx⟩
          (by
            rw [List.length_append, h.form]
            rw [List.length_cons] at hl
            omega)
        simp only
        generalize fill disk size fuel _ = outcome at hlater ⊢
        cases hlater with
        | filled hh hf hx he => exact .filled hh (fun faults hl => hn faults (hf faults hl)) hx he
        | failed hh hf hx => exact .failed hh (fun faults hl => hn _ (hf faults hl)) hx
      | @ended next ho hn hf' =>
        refine .filled ⟨h.form, ?_, fun _ => hn⟩ hf' (fun _ => rfl) (.inr rfl)
        rw [h.rest, ho, hn]
      | failed ho hn =>
        refine .failed ⟨h.form, ?_, fun he => absurd he hx⟩ hn (Bool.not_eq_true _ ▸ hx)
        rw [h.rest, ho]

/-- What a call for a block can come to: the first octets of what is left, or a fault that leaves it all. -/
inductive Answers (disk : Disk) (mode : Mode) (wire : Bytes) (size : Nat) (cutter : Cutter) :
    Cutter × Except Fault Bytes → Prop where
  | cut {next : Cutter} (hh : next.Holds disk mode (wire.drop size))
    (hf : ∀ faults, next.source.FailsWith faults → cutter.source.FailsWith faults)
    (hx : cutter.exhausted = true ∨ wire.length < size → next.exhausted = true) :
    Answers disk mode wire size cutter (next, .ok (wire.take size))
  | failed {next : Cutter} {fault : Fault} (hh : next.Holds disk mode wire)
    (hf : ∀ faults, next.source.FailsWith faults → cutter.source.FailsWith (fault :: faults))
    (hx : cutter.exhausted = false) :
    Answers disk mode wire size cutter (next, .error fault)

theorem next_answers {disk : Disk} {mode : Mode} {wire : Bytes} {cutter : Cutter} (size : Nat)
    (h : cutter.Holds disk mode wire) : Answers disk mode wire size cutter (cutter.next disk size) := by
  have hfill := fill_fills h (Nat.le_add_left size cutter.pending.length)
  rw [next]
  generalize cutter.fill disk size size = outcome at hfill
  cases hfill with
  | failed hh hf hx => exact .failed hh hf hx
  | @filled filled hh hf hx he =>
    have hend : filled.exhausted = true → wire = filled.pending := by
      intro hxf
      rw [hh.rest, hh.ended hxf, Mode.wireForm_nil, List.append_nil]
    have htake : filled.pending.take size = wire.take size := by
      rcases he with hl | hxf
      · rw [hh.rest, List.take_append_of_le_length hl]
      · rw [hend hxf]
    have hdrop : wire.drop size = filled.pending.drop size ++ mode.wireForm (filled.source.octets disk) := by
      rcases he with hl | hxf
      · rw [hh.rest, List.drop_append_of_le_length hl]
      · rw [hh.ended hxf, Mode.wireForm_nil, List.append_nil, hend hxf]
    simp only [htake]
    refine .cut ⟨hh.form, hdrop, hh.ended⟩ hf fun hor => ?_
    rcases hor with hxc | hshort
    · exact hx hxc
    · refine he.resolve_left fun hl => ?_
      rw [hh.rest, List.length_append] at hshort
      omega

structure Yields (disk : Disk) (mode : Mode) (wire : Bytes) (cutter : Cutter) : Prop where
  form : cutter.mode = mode
  rest : ∃ bytes, cutter.source.Delivers disk bytes ∧ wire = cutter.pending ++ mode.wireForm bytes ∧
    (cutter.exhausted = true → bytes = [])

theorem yields_iff (disk : Disk) (mode : Mode) (wire : Bytes) (cutter : Cutter) :
    cutter.Yields disk mode wire ↔
      cutter.Holds disk mode wire ∧ ∀ faults, cutter.source.FailsWith faults → faults = [] := by
  constructor
  · rintro ⟨hm, bytes, hd, hw, he⟩
    obtain ⟨rfl, hf⟩ := (Source.delivers_iff disk bytes cutter.source).mp hd
    exact ⟨⟨hm, hw, he⟩, hf⟩
  · rintro ⟨⟨hm, hw, he⟩, hf⟩
    exact ⟨hm, _, (Source.delivers_iff disk _ cutter.source).mpr ⟨rfl, hf⟩, hw, he⟩

theorem next_yields (disk : Disk) (mode : Mode) (wire : Bytes) (size : Nat) (cutter : Cutter)
    (h : cutter.Yields disk mode wire) :
    ∃ next, cutter.next disk size = (next, .ok (wire.take size)) ∧
      next.Yields disk mode (wire.drop size) := by
  obtain ⟨hh, hsound⟩ := (yields_iff disk mode wire cutter).mp h
  have ha := next_answers size hh
  generalize cutter.next disk size = outcome at ha
  cases ha with
  | cut hh hf => exact ⟨_, rfl, (yields_iff ..).mpr ⟨hh, fun faults hl => hsound faults (hf faults hl)⟩⟩
  | failed hh hf => cases hsound _ (hf [] (Source.failsWith_nil _))

end Cutter

end Tftp
