import Tftp.Proofs.Openings

namespace Tftp

namespace Options

/-- An OACK that brings these terms to whoever adopts it. -/
structure Echoes (terms : Options) (accepted : List OptionField) : Prop where
  plain : ∀ field ∈ accepted, field.Plain
  blockSize : (ofFields accepted).validate.blockSize = terms.blockSize
  timeout : (ofFields accepted).validate.timeout = terms.timeout
  blksizeAccepted : (ofFields accepted).validate.isAccepted Known.blksize.name =
    terms.isAccepted Known.blksize.name
  timeoutAccepted : (ofFields accepted).validate.isAccepted Known.timeout.name =
    terms.isAccepted Known.timeout.name

variable {x y z z' : Entry}

theorem Listed.window (h : Listed x y z) : (⟨[x, y, z]⟩ : Options).timeout = y.value * 1000 := by
  rw [Options.timeout, h.timeoutSeconds]

theorem Listed.echoes (h : Listed x y z) (h' : Listed x y z') :
    Echoes ⟨[x, y, z]⟩ (⟨[x, y, z']⟩ : Options).accepted.fields := by
  have hv := h'.validate_accepted
  have he := h'.echo
  refine ⟨h'.plain_accepted, ?_, ?_, ?_, ?_⟩
  · rw [hv, he.blockSize, h.blockSize]
  · rw [hv, he.window, h.window]
  · rw [hv, he.isAccepted.1, h.isAccepted.1]
  · rw [hv, he.isAccepted.2.1, h.isAccepted.2.1]

theorem terms_of_none_accepted (options : Options) (h : options.validate.anyAccepted = false) :
    options.validate.blockSize = 512 ∧ options.validate.timeout = 5000 := by
  obtain ⟨x, y, z, hv, hs⟩ := validate_settled options
  rw [hv] at h ⊢
  rw [anyAccepted, List.any_cons, List.any_cons, Bool.or_eq_false_iff, Bool.or_eq_false_iff] at h
  rw [hs.listed.blockSize, hs.listed.window, hs.blksize.fallback h.1, hs.timeout.fallback h.2.1]
  exact ⟨rfl, rfl⟩

theorem timeout_of_none_accepted (earlier : List Entry) (options : Options)
    (h : (⟨earlier ++ options.entries⟩ : Options).validate.anyAccepted = false) :
    options.validate.timeout = 5000 := by
  have hnone : (Known.timeout.hear (earlier ++ options.entries)).accepted = false := by
    simp only [validate, anyAccepted, Known.all, List.map_cons, List.any_cons, Bool.or_eq_false_iff] at h
    exact h.2.1
  obtain ⟨x, y, z, hv, hs⟩ := validate_settled options
  have hy : Known.timeout.hear options.entries = y := by
    have he := congrArg Options.entries hv
    exact (List.cons.inj (List.cons.inj he).2).1
  rw [Known.hear_append hnone] at hy
  rw [hv, hs.listed.window, ← hy]
  rfl

end Options

namespace Client

theorem timeout_sizedOptions (options : Options) (size : Nat) :
    (sizedOptions options size).validate.timeout = options.validate.timeout := by
  rw [sizedOptions]
  split
  · obtain ⟨x, y, z, hv, hs⟩ := Options.validate_settled options
    obtain ⟨x', y', z', hv', hs'⟩ := Options.validate_settled
      (options.insert Options.Known.tsize.name (toString size))
    have hy := (List.cons.inj (List.cons.inj (congrArg Options.entries hv)).2).1
    have hy' := (List.cons.inj (List.cons.inj (congrArg Options.entries hv')).2).1
    have hput : y' = y := by
      rw [← hy, ← hy']
      exact Options.Known.hear_put (Options.Known.other_name (by decide)) options.entries
    rw [hv, hv', hs.listed.window, hs'.listed.window, hput]
  · rfl

end Client

namespace Connection

open Options (Known Listed)

structure Bears (terms options : Options) : Prop where
  anyAccepted : options.anyAccepted = terms.anyAccepted
  timeout : options.timeout = terms.timeout
  echoes : terms.Echoes options.accepted.fields

theorem bears_of_offers {disk : Disk} {admission : Admission} {options requested : Options}
    (h : Offers disk admission options) (ha : admission.transfer.options = requested.validate) :
    Bears requested.validate options := by
  obtain ⟨x, y, z, hv, hs⟩ := Options.validate_settled requested
  rw [hv] at ha
  rw [Offers, ha] at h
  rw [hv]
  split at h
  · next hasked =>
    obtain ⟨size, -, rfl⟩ := h
    have hsized := hs.listed.withSize size
    rw [hs.listed.setAccepted size]
    refine ⟨?_, by rw [hsized.window, hs.listed.window], hs.listed.echoes hsized⟩
    rw [hasked.2.2]
    simp [Options.anyAccepted]
  · rw [h]
    exact ⟨rfl, rfl, hs.listed.echoes hs.listed⟩

theorem transferSize_of_offers {disk : Disk} {admission : Admission} {options requested : Options} {size : Nat}
    (h : Offers disk admission options) (ha : admission.transfer.options = requested.validate)
    (hd : admission.direction = .download) (hr : admission.sizeRequested = true)
    (hany : requested.validate.anyAccepted = true) (hsize : disk.size admission.file = .ok size)
    (hle : size ≤ 4294967295) :
    (Options.ofFields options.accepted.fields).validate.transferSize = size ∧
      (Options.ofFields options.accepted.fields).validate.isAccepted Known.tsize.name = true := by
  obtain ⟨x, y, z, hv, hs⟩ := Options.validate_settled requested
  rw [Offers, if_pos ⟨hd, hr, ha ▸ hany⟩] at h
  obtain ⟨size', hsize', rfl⟩ := h
  rw [hsize] at hsize'
  cases hsize'
  rw [ha, hv, hs.listed.setAccepted size]
  have hsized := hs.listed.withSize size
  have htold : Known.tsize.Settled ⟨z.name, toString size, size, true⟩ :=
    ⟨hs.tsizeName, rfl, ⟨Nat.zero_le _, hle⟩, fun h => by cases h⟩
  rw [hsized.validate_accepted, Known.echo_settled htold, hsized.transferSize, hsized.isAccepted.2.2]
  exact ⟨rfl, rfl⟩

end Connection

end Tftp
