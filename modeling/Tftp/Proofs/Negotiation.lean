import Tftp.Net.Link
import Tftp.Options.Policy
import Tftp.Proofs.Numerals

namespace Tftp.Options

open Letter

/-- An entry that a known option can come out with. -/
structure Known.Settled (known : Known) (entry : Entry) : Prop where
  name : entry.name = known.name
  text : entry.text = toString entry.value
  within : known.least ≤ entry.value ∧ entry.value ≤ known.greatest
  fallback : entry.accepted = false → entry.value = known.default

namespace Known

theorem settled_unset (known : Known) : known.Settled known.unset := by
  refine ⟨rfl, rfl, ?_, fun _ => rfl⟩
  cases known <;> decide

theorem settled_settle (known : Known) (text : String) : known.Settled (known.settle text) := by
  rw [settle]
  split
  · split
    · next hwithin => exact ⟨rfl, rfl, hwithin, fun h => by cases h⟩
    · exact settled_unset known
  · exact settled_unset known

theorem other_name {known other : Known} (h : known ≠ other) : ¬SameName known.name other.name := by
  cases known <;> cases other <;> first | exact absurd rfl h | decide

theorem plain_name (known : Known) : Plain known.name := by
  cases known <;> decide

theorem skip_others (known : Known) (requested : List Entry) (entry : Entry)
    (h : ∀ request ∈ requested, ¬SameName request.name known.name) :
    requested.foldl (fun entry request =>
      if SameName request.name known.name then known.settle request.text else entry) entry = entry := by
  induction requested with
  | nil => rfl
  | cons request requested ih =>
    rw [List.foldl_cons, if_neg (h request List.mem_cons_self)]
    exact ih fun r hr => h r (List.mem_cons_of_mem request hr)

theorem settled_foldl (known : Known) (requested : List Entry) (entry : Entry) (h : known.Settled entry) :
    known.Settled (requested.foldl (fun entry request =>
      if SameName request.name known.name then known.settle request.text else entry) entry) := by
  induction requested generalizing entry with
  | nil => exact h
  | cons request requested ih =>
    rw [List.foldl_cons]
    apply ih
    by_cases hr : SameName request.name known.name
    · rw [if_pos hr]
      exact settled_settle known request.text
    · rwa [if_neg hr]

theorem settled_hear (known : Known) (requested : List Entry) : known.Settled (known.hear requested) :=
  settled_foldl known requested known.unset (settled_unset known)

theorem settle_text {known : Known} {entry : Entry} (h : known.Settled entry) (ha : entry.accepted = true) :
    known.settle entry.text = entry := by
  have hg : known.greatest ≤ Decimal.maxUInt64 := by cases known <;> decide
  have hr := Decimal.read_toString Decimal.maxUInt64 entry.value (Nat.le_trans h.within.2 hg)
  have heq : entry = ⟨known.name, toString entry.value, entry.value, true⟩ := by
    rw [← h.name, ← h.text, ← ha]
  rw [settle, h.text, hr]
  simp only [if_pos h.within]
  exact heq.symm

theorem eq_unset {known : Known} {entry : Entry} (h : known.Settled entry) (ha : entry.accepted = false) :
    entry = known.unset := by
  have heq : entry = ⟨known.name, toString known.default, known.default, false⟩ := by
    rw [← h.name, ← h.fallback ha, ← h.text, ← ha]
  exact heq

def echo (known : Known) (entry : Entry) : Entry :=
  if entry.accepted then known.settle entry.text else known.unset

theorem hear_accepted {known : Known} (before after : List Entry) {entry : Entry}
    (hn : entry.name = known.name) (hb : ∀ e ∈ before, ¬SameName e.name known.name)
    (ha : ∀ e ∈ after, ¬SameName e.name known.name) :
    known.hear ((before ++ entry :: after).filter Entry.accepted) = known.echo entry := by
  have hsame : SameName entry.name known.name := by
    rw [hn]
  have hb' := known.skip_others (before.filter Entry.accepted) known.unset fun e he => hb e (List.mem_filter.mp he).1
  have ha' := fun start =>
    known.skip_others (after.filter Entry.accepted) start fun e he => ha e (List.mem_filter.mp he).1
  rw [hear, List.filter_append, List.foldl_append, hb', List.filter_cons, echo]
  cases entry.accepted with
  | true => rw [if_pos rfl, if_pos rfl, List.foldl_cons, if_pos hsame, ha']
  | false => rw [if_neg (by decide), if_neg (by decide), ha']

theorem settled_echo (known : Known) (entry : Entry) : known.Settled (known.echo entry) := by
  rw [echo]
  split
  · exact settled_settle known entry.text
  · exact settled_unset known

theorem echo_settled {known : Known} {entry : Entry} (h : known.Settled entry) : known.echo entry = entry := by
  rw [echo]
  cases ha : entry.accepted with
  | true => exact settle_text h ha
  | false => exact (eq_unset h ha).symm

/-- What is asked for last decides, whatever has been asked for before. -/
theorem hear_append {known : Known} {earlier requested : List Entry}
    (h : (known.hear (earlier ++ requested)).accepted = false) : known.hear requested = known.unset := by
  rw [hear, List.foldl_append] at h
  generalize earlier.foldl _ known.unset = entry at h
  rw [hear]
  induction requested generalizing entry with
  | nil => rfl
  | cons request requested ih =>
    rw [List.foldl_cons] at h ⊢
    by_cases hr : SameName request.name known.name
    · rw [if_pos hr] at h ⊢
      exact eq_unset (settled_foldl known requested _ (settled_settle known request.text)) h
    · rw [if_neg hr] at h ⊢
      exact ih entry h

theorem hear_put {known : Known} {entry : Entry} (hne : ¬SameName entry.name known.name)
    (requested : List Entry) : known.hear (put entry requested) = known.hear requested := by
  rw [hear, hear]
  generalize known.unset = start
  induction requested generalizing start with
  | nil => rw [put, List.foldl_cons, if_neg hne]
  | cons request requested ih =>
    rw [put]
    split
    · next hs =>
      have hr : ¬SameName request.name known.name := fun h => hne (hs.symm.trans h)
      rw [List.foldl_cons, List.foldl_cons, if_neg hr, if_neg hr]
    · rw [List.foldl_cons, List.foldl_cons, ih]

end Known

theorem validate_ofFields (options : Options) : (ofFields options.fields).validate = options.validate := by
  simp only [validate, ofFields, fields, Known.hear, List.map_map, List.foldl_map, Function.comp_def]

/-- The known options, all three and settled. The size of a file may be any that a file can have. -/
structure Settled (blksize timeout tsize : Entry) : Prop where
  blksize : Known.blksize.Settled blksize
  timeout : Known.timeout.Settled timeout
  tsizeName : tsize.name = Known.tsize.name
  tsizeText : tsize.text = toString tsize.value
  tsizeBound : tsize.value < UInt64.size

theorem validate_settled (options : Options) :
    ∃ x y z, options.validate = ⟨[x, y, z]⟩ ∧ Settled x y z := by
  have hx := Known.settled_hear .blksize options.entries
  have hy := Known.settled_hear .timeout options.entries
  have hz := Known.settled_hear .tsize options.entries
  refine ⟨_, _, _, rfl, hx, hy, hz.name, hz.text, ?_⟩
  exact Nat.lt_of_le_of_lt hz.within.2 (by decide)

structure Listed (blksize timeout tsize : Entry) : Prop where
  blksize : Known.blksize.Settled blksize
  timeout : Known.timeout.Settled timeout
  tsizeName : tsize.name = Known.tsize.name
  tsizeText : tsize.text = toString tsize.value

variable {x y z : Entry}

theorem Settled.listed (h : Settled x y z) : Listed x y z :=
  ⟨h.blksize, h.timeout, h.tsizeName, h.tsizeText⟩

theorem Listed.find (h : Listed x y z) :
    (⟨[x, y, z]⟩ : Options).find? Known.blksize.name = some x ∧
      (⟨[x, y, z]⟩ : Options).find? Known.timeout.name = some y ∧
      (⟨[x, y, z]⟩ : Options).find? Known.tsize.name = some z := by
  simp only [find?, List.find?_cons, h.blksize.name, h.timeout.name, h.tsizeName]
  exact ⟨rfl, rfl, rfl⟩

theorem Listed.setAccepted (h : Listed x y z) (size : Nat) :
    (⟨[x, y, z]⟩ : Options).setAccepted Known.tsize.name size =
      ⟨[x, y, ⟨z.name, toString size, size, true⟩]⟩ := by
  have hx : ¬SameName x.name Known.tsize.name := by
    rw [h.blksize.name]
    decide
  have hy : ¬SameName y.name Known.tsize.name := by
    rw [h.timeout.name]
    decide
  have hz : SameName z.name Known.tsize.name := by
    rw [h.tsizeName]
  simp only [Options.setAccepted, put, if_neg hx, if_neg hy, if_pos hz]

theorem Listed.withSize (h : Listed x y z) (size : Nat) : Listed x y ⟨z.name, toString size, size, true⟩ :=
  ⟨h.blksize, h.timeout, h.tsizeName, rfl⟩

theorem setAccepted_settled (h : Settled x y z) (size : Nat) (hs : size < UInt64.size) :
    ∃ z', (⟨[x, y, z]⟩ : Options).setAccepted Known.tsize.name size = ⟨[x, y, z']⟩ ∧
      Settled x y z' :=
  ⟨_, h.listed.setAccepted size, h.blksize, h.timeout, h.tsizeName, rfl, hs⟩

theorem Listed.blockSize (h : Listed x y z) : (⟨[x, y, z]⟩ : Options).blockSize = x.value := by
  rw [Options.blockSize, valueOrDefault, value?, h.find.1, Option.map_some, Option.getD_some]

theorem Listed.timeoutSeconds (h : Listed x y z) : (⟨[x, y, z]⟩ : Options).timeoutSeconds = y.value := by
  rw [Options.timeoutSeconds, valueOrDefault, value?, h.find.2.1, Option.map_some, Option.getD_some]

theorem Listed.transferSize (h : Listed x y z) : (⟨[x, y, z]⟩ : Options).transferSize = z.value := by
  rw [Options.transferSize, valueOrDefault, value?, h.find.2.2, Option.map_some, Option.getD_some]

theorem Listed.isAccepted (h : Listed x y z) :
    (⟨[x, y, z]⟩ : Options).isAccepted Known.blksize.name = x.accepted ∧
      (⟨[x, y, z]⟩ : Options).isAccepted Known.timeout.name = y.accepted ∧
      (⟨[x, y, z]⟩ : Options).isAccepted Known.tsize.name = z.accepted := by
  simp only [Options.isAccepted, h.find, Option.any_some, and_self]

theorem blockSize_settled (h : Settled x y z) : (⟨[x, y, z]⟩ : Options).blockSize = x.value :=
  h.listed.blockSize

/-- What whoever is told of the accepted options makes of them. -/
theorem Listed.validate_accepted (h : Listed x y z) :
    (ofFields (⟨[x, y, z]⟩ : Options).accepted.fields).validate = ⟨[x, y, Known.tsize.echo z]⟩ := by
  have hx : ∀ known : Known, .blksize ≠ known → ∀ e ∈ [x], ¬SameName e.name known.name := by
    intro known hne e he
    rw [List.mem_singleton.mp he, h.blksize.name]
    exact Known.other_name hne
  have hy : ∀ known : Known, .timeout ≠ known → ∀ e ∈ [y], ¬SameName e.name known.name := by
    intro known hne e he
    rw [List.mem_singleton.mp he, h.timeout.name]
    exact Known.other_name hne
  have hz : ∀ known : Known, .tsize ≠ known → ∀ e ∈ [z], ¬SameName e.name known.name := by
    intro known hne e he
    rw [List.mem_singleton.mp he, h.tsizeName]
    exact Known.other_name hne
  have hboth : ∀ {known : Known} {first second : Entry}, (∀ e ∈ [first], ¬SameName e.name known.name) →
      (∀ e ∈ [second], ¬SameName e.name known.name) → ∀ e ∈ [first, second], ¬SameName e.name known.name :=
    fun h h' => List.forall_mem_append.mpr ⟨h, h'⟩
  have hblksize := Known.hear_accepted [] [y, z] h.blksize.name (fun e he => (nomatch he))
    (hboth (hy _ (by decide)) (hz _ (by decide)))
  have htimeout := Known.hear_accepted [x] [z] h.timeout.name (hx _ (by decide)) (hz _ (by decide))
  have htsize := Known.hear_accepted [x, y] [] h.tsizeName (hboth (hx _ (by decide)) (hy _ (by decide)))
    fun e he => (nomatch he)
  rw [Known.echo_settled h.blksize] at hblksize
  rw [Known.echo_settled h.timeout] at htimeout
  rw [validate_ofFields]
  change (⟨[Known.blksize.hear (([] ++ [x, y, z]).filter Entry.accepted),
    Known.timeout.hear (([x] ++ [y, z]).filter Entry.accepted),
    Known.tsize.hear (([x, y] ++ [z]).filter Entry.accepted)]⟩ : Options) = _
  rw [hblksize, htimeout, htsize]

theorem Listed.echo (h : Listed x y z) : Listed x y (Known.tsize.echo z) :=
  have hs := Known.settled_echo .tsize z
  ⟨h.blksize, h.timeout, hs.name, hs.text⟩

theorem blockSize_accepted (h : Settled x y z) :
    (ofFields (⟨[x, y, z]⟩ : Options).accepted.fields).validate.blockSize =
      (⟨[x, y, z]⟩ : Options).blockSize := by
  rw [h.listed.validate_accepted, h.listed.echo.blockSize, h.listed.blockSize]

theorem value_of_none_accepted (h : Settled x y z)
    (hn : (⟨[x, y, z]⟩ : Options).anyAccepted = false) : x.value = Known.blksize.default := by
  have hx : x.accepted = false := by
    rw [anyAccepted, List.any_cons, Bool.or_eq_false_iff] at hn
    exact hn.1
  exact h.blksize.fallback hx

theorem Listed.field_accepted (h : Listed x y z) (field : OptionField)
    (hf : field ∈ (⟨[x, y, z]⟩ : Options).accepted.fields) :
    ∃ (known : Known) (value : Nat), field = ⟨known.name, toString value⟩ ∧
      (value ≤ known.greatest ∨ value = z.value) := by
  obtain ⟨entry, he, rfl⟩ := List.mem_map.mp hf
  have hmem := (List.mem_filter.mp he).1
  rcases List.mem_cons.mp hmem with rfl | hmem
  · exact ⟨.blksize, entry.value, by rw [h.blksize.name, h.blksize.text], .inl h.blksize.within.2⟩
  rcases List.mem_cons.mp hmem with rfl | hmem
  · exact ⟨.timeout, entry.value, by rw [h.timeout.name, h.timeout.text], .inl h.timeout.within.2⟩
  · rw [List.mem_singleton.mp hmem]
    exact ⟨.tsize, z.value, by rw [h.tsizeName, h.tsizeText], .inr rfl⟩

theorem Listed.plain_accepted (h : Listed x y z) (field : OptionField)
    (hf : field ∈ (⟨[x, y, z]⟩ : Options).accepted.fields) : field.Plain := by
  obtain ⟨known, value, rfl, -⟩ := h.field_accepted field hf
  exact ⟨known.plain_name, plain_toString value⟩

theorem field_accepted (h : Settled x y z) (field : OptionField)
    (hf : field ∈ (⟨[x, y, z]⟩ : Options).accepted.fields) :
    ∃ (known : Known) (value : Nat), field = ⟨known.name, toString value⟩ ∧ value < UInt64.size := by
  obtain ⟨known, value, hfield, hv⟩ := h.listed.field_accepted field hf
  have hgreatest : known.greatest < UInt64.size := by cases known <;> decide
  refine ⟨known, value, hfield, ?_⟩
  rcases hv with hle | rfl
  · exact Nat.lt_of_le_of_lt hle hgreatest
  · exact h.tsizeBound

theorem insert_plain {options : Options} {name text : String}
    (h : ∀ field ∈ options.fields, field.Plain) (hn : Plain name) (ht : Plain text) :
    ∀ field ∈ (options.insert name text).fields, field.Plain := by
  obtain ⟨entries⟩ := options
  simp only [fields, insert, List.forall_mem_map] at h ⊢
  induction entries with
  | nil =>
    intro entry he
    rw [List.mem_singleton.mp he]
    exact ⟨hn, ht⟩
  | cons first entries ih =>
    obtain ⟨hfirst, hrest⟩ := List.forall_mem_cons.mp h
    rw [put]
    split
    · exact List.forall_mem_cons.mpr ⟨⟨hfirst.name, ht⟩, hrest⟩
    · exact List.forall_mem_cons.mpr ⟨hfirst, ih hrest⟩

theorem length_accepted_le (x y z : Entry) :
    (⟨[x, y, z]⟩ : Options).accepted.fields.length ≤ 3 := by
  rw [fields, List.length_map]
  exact List.length_filter_le Entry.accepted [x, y, z]

theorem length_optionAck_le (h : Settled x y z) :
    (Packet.optionAck (⟨[x, y, z]⟩ : Options).accepted.fields).encode.length ≤ Link.maxPayload := by
  have hone : ∀ field ∈ (⟨[x, y, z]⟩ : Options).accepted.fields,
      (Wire.encodeOption field).length ≤ 110 := by
    intro field hf
    obtain ⟨known, value, rfl, hv⟩ := field_accepted h field hf
    have hname : (Utf8.encode known.name).length ≤ 7 := by cases known <;> decide
    have htext := length_encode_toString_le value 20 (by decide) (Nat.lt_trans hv (by decide))
    simp only [Wire.encodeOption, Field.encode, List.length_append, List.length_singleton]
    omega
  have hall : ∀ fields : List OptionField, (∀ field ∈ fields, (Wire.encodeOption field).length ≤ 110) →
      (Wire.encodeOptions fields).length ≤ 110 * fields.length := by
    intro fields hf
    induction fields with
    | nil => exact Nat.le_refl 0
    | cons field fields ih =>
      have hfirst := hf field List.mem_cons_self
      have hrest := ih fun f hm => hf f (List.mem_cons_of_mem field hm)
      simp only [Wire.encodeOptions, List.flatMap_cons, List.length_append, List.length_cons] at hrest ⊢
      omega
  have hbody := hall _ hone
  have hlen := length_accepted_le x y z
  rw [Packet.encode, Wire.encodeBody, List.length_append, Wire.encodeWord]
  simp only [List.length_cons, List.length_nil, Link.maxPayload]
  omega

/-- Options that can be sent in an OACK, and that have whoever adopts them use this block size. -/
structure Adopts (accepted : List OptionField) (size : Nat) : Prop where
  plain : ∀ field ∈ accepted, field.Plain
  fits : (Packet.optionAck accepted).encode.length ≤ Link.maxPayload
  size : (ofFields accepted).validate.blockSize = size

theorem adopts_accepted (h : Settled x y z) :
    Adopts (⟨[x, y, z]⟩ : Options).accepted.fields x.value :=
  ⟨h.listed.plain_accepted, length_optionAck_le h, (blockSize_accepted h).trans (blockSize_settled h)⟩

theorem blockSize_within (options : Options) :
    0 < options.validate.blockSize ∧ options.validate.blockSize ≤ Known.blksize.greatest := by
  obtain ⟨x, y, z, hv, hs⟩ := validate_settled options
  rw [hv, blockSize_settled hs]
  exact ⟨Nat.lt_of_lt_of_le (by decide) hs.blksize.within.1, hs.blksize.within.2⟩

end Tftp.Options
