import Tftp.Proofs.Codec

namespace Tftp.Field

theorem induct {motive : Bytes → Prop} (rest : ∀ bytes, 0 ∉ bytes → motive bytes)
    (ended : ∀ field bytes, 0 ∉ field → motive bytes → motive (field ++ 0 :: bytes)) (bytes : Bytes) :
    motive bytes := by
  by_cases hz : 0 ∈ bytes
  · obtain ⟨field, more, he, hf⟩ := List.eq_append_cons_of_mem hz
    have hlt : more.length < bytes.length := by
      rw [he, List.length_append, List.length_cons]
      omega
    rw [he]
    exact ended field more hf (induct rest ended more)
  · exact rest bytes hz
termination_by bytes.length

theorem split_rest (bytes : Bytes) (h : 0 ∉ bytes) : split bytes = { ended := [], tail := bytes } := by
  simp only [split, run_step_plain [] bytes h, List.append_nil, List.reverse_reverse]

theorem split_join (bytes : Bytes) :
    ((split bytes).ended.flatMap fun field => field ++ [0]) ++ (split bytes).tail = bytes := by
  induction bytes using induct with
  | rest bytes h => simp only [split_rest bytes h, List.flatMap_nil, List.nil_append]
  | ended field bytes h ih =>
    rw [split_ended field bytes h, List.flatMap_cons, List.append_assoc, ih, List.append_assoc,
      List.singleton_append]

theorem zero_notMem_ended (bytes : Bytes) : ∀ field ∈ (split bytes).ended, 0 ∉ field := by
  induction bytes using induct with
  | rest bytes h => simp only [split_rest bytes h, List.not_mem_nil, false_implies, implies_true]
  | ended field bytes h ih =>
    rw [split_ended field bytes h]
    exact List.forall_mem_cons.mpr ⟨h, ih⟩

theorem length_ended (bytes : Bytes) : (split bytes).ended.length = bytes.count 0 := by
  induction bytes using induct with
  | rest bytes h => rw [split_rest bytes h, List.count_eq_zero.mpr h, List.length_nil]
  | ended field bytes h ih =>
    rw [split_ended field bytes h, List.length_cons, ih, List.count_append, List.count_eq_zero.mpr h,
      List.count_cons_self, Nat.zero_add]

theorem tail_eq_nil_iff (bytes : Bytes) :
    (split bytes).tail = [] ↔ bytes = [] ∨ bytes.getLast? = some 0 := by
  induction bytes using induct with
  | rest bytes h =>
    rw [split_rest bytes h]
    refine ⟨.inl, fun hb => hb.resolve_right fun hl => h (List.mem_of_getLast? hl)⟩
  | ended field bytes h ih =>
    rw [split_ended field bytes h]
    simp only [ih, List.getLast?_append, List.getLast?_cons, List.append_eq_nil_iff]
    cases bytes with
    | nil => simp
    | cons b bytes => simp [List.getLast?_cons]

theorem split_append (bytes more : Bytes) (h : (split bytes).tail = []) :
    split (bytes ++ more) = { split more with ended := (split bytes).ended ++ (split more).ended } := by
  induction bytes using induct with
  | rest bytes hz =>
    rw [split_rest bytes hz] at h
    cases h
    rfl
  | ended field bytes hz ih =>
    rw [split_ended field bytes hz] at h
    rw [List.append_assoc, List.cons_append, split_ended field _ hz, split_ended field bytes hz, ih h]
    rfl

theorem tail_encode (s : String) : (split (encode s)).tail = [] :=
  (tail_eq_nil_iff _).mpr (.inr List.getLast?_concat)

theorem flatMap_encode_decode (fields : List Bytes) (h : ∀ field ∈ fields, ∃ s, Utf8.encode s = field) :
    (fields.map Utf8.decode).flatMap encode = fields.flatMap fun field => field ++ [0] := by
  have hone : ∀ field ∈ fields, encode (Utf8.decode field) = field ++ [0] := by
    intro field hf
    obtain ⟨s, rfl⟩ := h field hf
    rw [Utf8.decode_encode, encode]
  rw [List.flatMap_map, List.flatMap_def, List.flatMap_def, List.map_congr_left hone]

end Tftp.Field
