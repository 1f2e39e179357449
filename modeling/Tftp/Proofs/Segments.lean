import Tftp.Disk.Path

namespace Tftp.Path

theorem splitChars_ne_nil (cs : List Char) : splitChars cs ≠ [] := by
  cases cs with
  | nil => simp [splitChars]
  | cons c cs =>
    rw [splitChars]
    split
    · simp
    · split <;> simp

theorem splitChars_plain (cs : List Char) (h : '/' ∉ cs) : splitChars cs = [cs] := by
  induction cs with
  | nil => rfl
  | cons c cs ih =>
    have hc : c ≠ '/' := fun hc => h (hc ▸ List.mem_cons_self)
    rw [splitChars, if_neg hc, ih fun hm => h (List.mem_cons_of_mem c hm)]

theorem splitChars_slash (cs ds : List Char) :
    splitChars (cs ++ '/' :: ds) = splitChars cs ++ splitChars ds := by
  induction cs with
  | nil => simp [splitChars]
  | cons c cs ih =>
    rw [List.cons_append, splitChars, splitChars, ih]
    split
    · rfl
    · cases hs : splitChars cs with
      | nil => exact absurd hs (splitChars_ne_nil cs)
      | cons segment segments => rfl

theorem notMem_of_mem_splitChars (cs segment : List Char) (h : segment ∈ splitChars cs) :
    '/' ∉ segment := by
  induction cs generalizing segment with
  | nil =>
    rw [splitChars, List.mem_singleton] at h
    simp [h]
  | cons c cs ih =>
    rw [splitChars] at h
    split at h
    · rcases List.mem_cons.mp h with rfl | h
      · simp
      · exact ih segment h
    · next hc =>
      split at h
      · next hs => exact absurd hs (splitChars_ne_nil cs)
      · next first others hs =>
        rw [hs] at ih
        rcases List.mem_cons.mp h with rfl | h
        · intro hm
          rcases List.mem_cons.mp hm with hm | hm
          · exact hc hm.symm
          · exact ih first List.mem_cons_self hm
        · exact ih segment (List.mem_cons_of_mem first h)

theorem segments_parse (s : String) :
    (parse s).segments = segmentsOf s.toList ∨
      ∃ cs, s.toList = '/' :: cs ∧ (parse s).segments = segmentsOf cs := by
  rw [parse]
  split
  · next cs hs => exact .inr ⟨cs, hs, rfl⟩
  · exact .inl rfl

theorem notMem_of_mem_segments (s segment : String) (h : segment ∈ (parse s).segments) :
    '/' ∉ segment.toList := by
  have hmem : ∀ cs, segment ∈ segmentsOf cs → '/' ∉ segment.toList := by
    intro cs hm
    obtain ⟨chars, hc, rfl⟩ := List.mem_map.mp hm
    rw [String.toList_ofList]
    exact notMem_of_mem_splitChars cs chars hc
  rcases segments_parse s with hs | ⟨cs, -, hs⟩
  · exact hmem _ (hs ▸ h)
  · exact hmem _ (hs ▸ h)

end Tftp.Path
