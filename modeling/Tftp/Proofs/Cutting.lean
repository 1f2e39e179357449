import Mathlib.Algebra.Ring.Nat
import Mathlib.Data.List.SplitLengths
import Tftp.Proofs.Reading

namespace Tftp.Cutter

def calls (disk : Disk) (cutter : Cutter) (sizes : List Nat) : Cutter × List (Except Fault Bytes) :=
  Transducer.run (fun reader size => ((reader.next disk size).1, [(reader.next disk size).2])) cutter sizes

def granted (sizes : List Nat) (answers : List (Except Fault Bytes)) : List Nat :=
  ((sizes.zip answers).filter fun call => call.2.isOk).map Prod.fst

def delivered (answers : List (Except Fault Bytes)) : Bytes :=
  (answers.filterMap Except.toOption).flatten

def fault? : Except Fault Bytes → Option Fault
  | .ok _ => none
  | .error fault => some fault

def RanShort (sizes : List Nat) (answers : List (Except Fault Bytes)) : Prop :=
  ∃ call ∈ sizes.zip answers, ∃ block, call.2 = .ok block ∧ block.length < call.1

/-- What a reader has answered so far, and what it answers to the next call. -/
structure Lossless (disk : Disk) (source : Source) (wire : Bytes) (sizes : List Nat)
    (answers : List (Except Fault Bytes)) (reader : Cutter) : Prop where
  /-- The blocks depend on nothing but the wire form and the sizes of the calls that brought one. -/
  blocks : answers.filterMap Except.toOption = (granted sizes answers).splitLengths wire
  first : delivered answers <+: wire
  next : ∀ size block, (reader.next disk size).2 = .ok block →
    block = (wire.drop (delivered answers).length).take size
  short : ∀ size block, (reader.next disk size).2 = .ok block →
    block.length = size ∨ block.length < size ∧ delivered answers ++ block = wire
  failed : ∀ size fault, (reader.next disk size).2 = .error fault → ∀ later block,
    ((reader.next disk size).1.next disk later).2 = .ok block →
    block = (wire.drop (delivered answers).length).take later
  /-- The calls that fail tell of the reads that fail, in order and of each once. -/
  faults : source.FailsWith (answers.filterMap fault?)
  exhausted : delivered answers = wire → ∀ size, (reader.next disk size).2 = .ok [] ∨
    ∃ fault, (reader.next disk size).2 = .error fault ∧ source.FailsWith (answers.filterMap fault? ++ [fault])
  /-- Once a block has come out short there is nothing more to come, and no call fails. -/
  ended : RanShort sizes answers → delivered answers = wire ∧ ∀ size, (reader.next disk size).2 = .ok []

structure Progress (disk : Disk) (mode : Mode) (wire : Bytes) (cutter : Cutter) (sizes : List Nat)
    (answers : List (Except Fault Bytes)) (reader : Cutter) : Prop where
  holds : reader.Holds disk mode (wire.drop (granted sizes answers).sum)
  blocks : answers.filterMap Except.toOption = (granted sizes answers).splitLengths wire
  faults : ∀ later, reader.source.FailsWith later → cutter.source.FailsWith (answers.filterMap fault? ++ later)
  kept : cutter.exhausted = true → reader.exhausted = true
  ended : RanShort sizes answers → reader.exhausted = true ∧ wire.length < (granted sizes answers).sum

variable {disk : Disk} {mode : Mode} {wire : Bytes} {cutter reader : Cutter} {size : Nat} {sizes : List Nat}
  {answers : List (Except Fault Bytes)}

theorem calls_cons (disk : Disk) (cutter : Cutter) (size : Nat) (sizes : List Nat) :
    cutter.calls disk (size :: sizes) =
      (((cutter.next disk size).1.calls disk sizes).1,
        (cutter.next disk size).2 :: ((cutter.next disk size).1.calls disk sizes).2) := by
  rw [calls, Transducer.run_cons]
  rfl

theorem flatten_splitLengths_eq_take (sizes : List Nat) (wire : Bytes) :
    (sizes.splitLengths wire).flatten = wire.take sizes.sum := by
  induction sizes generalizing wire with
  | nil => rfl
  | cons size sizes ih => rw [List.splitLengths_cons, List.flatten_cons, ih, List.sum_cons, List.take_add]

theorem RanShort.of_cons {answer : Except Fault Bytes} (h : RanShort (size :: sizes) (answer :: answers)) :
    (∃ block, answer = .ok block ∧ block.length < size) ∨ RanShort sizes answers := by
  obtain ⟨call, hmem, hshort⟩ := h
  rcases List.mem_cons.mp hmem with rfl | hmem
  · exact .inl hshort
  · exact .inr ⟨call, hmem, hshort⟩

theorem calls_progress (h : cutter.Holds disk mode wire) (sizes : List Nat) :
    Progress disk mode wire cutter sizes (cutter.calls disk sizes).2 (cutter.calls disk sizes).1 := by
  -- on the calls: what the first one leaves of the wire form is what the others are made on
  induction sizes generalizing cutter wire with
  | nil => exact ⟨h, rfl, fun _ h => h, fun h => h, fun ⟨_, hmem, _⟩ => absurd hmem List.not_mem_nil⟩
  | cons size sizes ih =>
    rw [calls_cons]
    have ha := next_answers size h
    generalize cutter.next disk size = outcome at ha
    cases ha with
    | @cut next hh hf hx =>
      obtain ⟨hlast, hblocks, hfaults, hkept, hended⟩ := ih hh
      have hgranted : granted (size :: sizes) (.ok (wire.take size) :: (next.calls disk sizes).2) =
          size :: granted sizes (next.calls disk sizes).2 := rfl
      refine ⟨?_, ?_, fun later hl => hf _ (hfaults later hl), fun h => hkept (hx (.inl h)), fun hran => ?_⟩
      · rw [hgranted, List.sum_cons, ← List.drop_drop]
        exact hlast
      · rw [hgranted, List.splitLengths_cons, ← hblocks]
        rfl
      · rw [hgranted, List.sum_cons]
        rcases hran.of_cons with ⟨block, hb, hshort⟩ | hran
        · cases hb
          rw [List.length_take] at hshort
          exact ⟨hkept (hx (.inr (by omega))), by omega⟩
        · obtain ⟨hexhausted, hlt⟩ := hended hran
          rw [List.length_drop] at hlt
          exact ⟨hexhausted, by omega⟩
    | @failed next fault hh hf hx =>
      obtain ⟨hlast, hblocks, hfaults, hkept, hended⟩ := ih hh
      refine ⟨hlast, hblocks, fun later hl => hf _ (hfaults later hl), fun h => ?_, fun hran => ?_⟩
      · rw [hx] at h
        cases h
      · rcases hran.of_cons with ⟨block, hb, -⟩ | hran
        · cases hb
        · exact hended hran

theorem Progress.delivered_eq (h : Progress disk mode wire cutter sizes answers reader) :
    delivered answers = wire.take (granted sizes answers).sum := by
  rw [delivered, h.blocks, flatten_splitLengths_eq_take]

theorem Progress.rest_eq (h : Progress disk mode wire cutter sizes answers reader) :
    wire.drop (granted sizes answers).sum = wire.drop (delivered answers).length := by
  rw [h.delivered_eq, drop_length_take]

theorem Progress.delivered_append (h : Progress disk mode wire cutter sizes answers reader) :
    delivered answers ++ wire.drop (delivered answers).length = wire := by
  rw [← h.rest_eq, h.delivered_eq, List.take_append_drop]

theorem Holds.block_eq (h : reader.Holds disk mode wire) {block : Bytes}
    (hb : (reader.next disk size).2 = .ok block) : block = wire.take size := by
  have ha := next_answers size h
  generalize reader.next disk size = outcome at ha hb
  cases ha with
  | cut => exact (Except.ok.inj hb).symm
  | failed => cases hb

theorem Holds.after_fault (h : reader.Holds disk mode wire) {fault : Fault}
    (hb : (reader.next disk size).2 = .error fault) :
    (reader.next disk size).1.Holds disk mode wire ∧ reader.source.FailsWith [fault] ∧ reader.exhausted = false := by
  have ha := next_answers size h
  generalize reader.next disk size = outcome at ha hb
  cases ha with
  | cut => cases hb
  | failed hh hf hx =>
    cases hb
    exact ⟨hh, hf [] (Source.failsWith_nil _), hx⟩

theorem Holds.answer_nil (h : reader.Holds disk mode []) (size : Nat) :
    (reader.next disk size).2 = .ok [] ∨ ∃ fault, (reader.next disk size).2 = .error fault := by
  cases ha : (reader.next disk size).2 with
  | ok block => exact .inl (by rw [h.block_eq ha, List.take_nil])
  | error fault => exact .inr ⟨fault, rfl⟩

theorem Progress.lossless (h : Progress disk mode wire cutter sizes answers reader) :
    Lossless disk cutter.source wire sizes answers reader := by
  have hholds := h.holds
  rw [h.rest_eq] at hholds
  have hall := h.delivered_append
  have hnil : delivered answers = wire → reader.Holds disk mode [] := by
    intro he
    rwa [he, List.drop_length] at hholds
  refine ⟨h.blocks, ⟨_, hall⟩, fun size block hb => hholds.block_eq hb, fun size block hb => ?_,
    fun size fault hb later block hl => (hholds.after_fault hb).1.block_eq hl, ?_, fun he size => ?_, fun hran => ?_⟩
  · rw [hholds.block_eq hb]
    rcases Nat.lt_or_ge (wire.drop (delivered answers).length).length size with hlt | hle
    · rw [List.take_of_length_le (Nat.le_of_lt hlt)]
      exact .inr ⟨hlt, hall⟩
    · exact .inl (List.length_take_of_le hle)
  · have hf := h.faults [] (Source.failsWith_nil _)
    rwa [List.append_nil] at hf
  · rcases (hnil he).answer_nil size with hok | ⟨fault, hb⟩
    · exact .inl hok
    · exact .inr ⟨fault, hb, h.faults [fault] (hholds.after_fault hb).2.1⟩
  · obtain ⟨hexhausted, hlt⟩ := h.ended hran
    have he : delivered answers = wire := by
      rw [h.delivered_eq, List.take_of_length_le (Nat.le_of_lt hlt)]
    refine ⟨he, fun size => ((hnil he).answer_nil size).resolve_right fun ⟨fault, hb⟩ => ?_⟩
    rw [(hholds.after_fault hb).2.2] at hexhausted
    cases hexhausted

theorem holds_source (disk : Disk) (mode : Mode) (source : Source) :
    ({ source, mode } : Cutter).Holds disk mode (mode.wireForm (source.octets disk)) :=
  ⟨rfl, rfl, nofun⟩

theorem length_calls (disk : Disk) (cutter : Cutter) (sizes : List Nat) :
    (cutter.calls disk sizes).2.length = sizes.length := by
  induction sizes generalizing cutter with
  | nil => rfl
  | cons size sizes ih => rw [calls_cons, List.length_cons, List.length_cons, ih]

theorem calls_yields (h : cutter.Yields disk mode wire) (sizes : List Nat) :
    (cutter.calls disk sizes).2 = (sizes.splitLengths wire).map .ok := by
  induction sizes generalizing cutter wire with
  | nil => rfl
  | cons size sizes ih =>
    obtain ⟨next, hnext, hyields⟩ := next_yields disk mode wire size cutter h
    rw [calls_cons, hnext, ih hyields, List.splitLengths_cons, List.map_cons]

/-- Whoever reads a source block by block gets its wire form, without a gap and without a repetition. Where no
read fails, it makes no difference how the source is cut. -/
theorem cuts_losslessly (disk : Disk) (mode : Mode) (source : Source) (sizes : List Nat) :
    (calls disk { source, mode } sizes).2.length = sizes.length ∧
      Lossless disk source (mode.wireForm (source.octets disk)) sizes
        (calls disk { source, mode } sizes).2 (calls disk { source, mode } sizes).1 ∧
      ∀ content, source.Delivers disk content →
        (calls disk { source, mode } sizes).2 = (sizes.splitLengths (mode.wireForm content)).map .ok := by
  refine ⟨length_calls disk _ sizes, (calls_progress (holds_source disk mode source) sizes).lossless, ?_⟩
  intro content hd
  exact calls_yields ⟨rfl, content, hd, rfl, fun h => by cases h⟩ sizes

def brokenRead : Source :=
  .pieces [.bytes [97, 10], .failure ⟨.other, "injected"⟩, .bytes [], .bytes [13]]

theorem brokenRead_losslessly :
    (calls {} { source := brokenRead, mode := .netascii } [2, 3, 3, 0, 4]).2 =
        [.ok [97, 13], .error ⟨.other, "injected"⟩, .ok [10, 13, 0], .ok [], .ok []] ∧
      Lossless {} brokenRead (Mode.netascii.wireForm [97, 10, 13]) [2, 3, 3, 0, 4]
        (calls {} { source := brokenRead, mode := .netascii } [2, 3, 3, 0, 4]).2
        (calls {} { source := brokenRead, mode := .netascii } [2, 3, 3, 0, 4]).1 ∧
      (calls {} { source := .pieces [.bytes [97], .bytes [10, 13]], mode := .netascii } [2, 3, 4]).2 =
        [.ok [97, 13], .ok [10, 13, 0], .ok []] :=
  ⟨by decide, (cuts_losslessly {} .netascii brokenRead [2, 3, 3, 0, 4]).2.1,
    (cuts_losslessly {} .netascii (.pieces [.bytes [97], .bytes [10, 13]]) [2, 3, 4]).2.2 [97, 10, 13]
      ⟨[[97], [10, 13]], rfl, rfl⟩⟩

/-- A read can still fail when all octets have been delivered, as long as the end has not been seen. -/
theorem fault_after_last :
    let reader : Cutter := { source := .pieces [.bytes [97, 98], .failure ⟨.other, "injected"⟩], mode := .octet }
    delivered (reader.calls {} [2]).2 = reader.mode.wireForm (reader.source.octets {}) ∧
      ((reader.calls {} [2]).1.next {} 2).2 = .error ⟨.other, "injected"⟩ := by
  decide

end Tftp.Cutter
