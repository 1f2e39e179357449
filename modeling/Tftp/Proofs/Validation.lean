import Tftp.Proofs.Negotiation

namespace Tftp.Options

open Letter

/-- Of all requests of this name, whatever the case of its letters, this is the last. -/
def LastNamed (name : String) (requested : List Entry) (request : Entry) : Prop :=
  ∃ before after, requested = before ++ request :: after ∧ SameName request.name name ∧
    ∀ later ∈ after, ¬SameName later.name name

/-- The last request of this name asks for a number that fits a word of sixty-four bits and lies in the range. -/
def Asks (name : String) (least greatest : Nat) (requested : List Entry) (value : Nat) : Prop :=
  ∃ request, LastNamed name requested request ∧ Decimal.Numeral request.text value ∧
    value ≤ Decimal.maxUInt64 ∧ least ≤ value ∧ value ≤ greatest

/-- What an option comes out with. -/
inductive Decided (name : String) (default least greatest : Nat) (requested : List Entry) : Entry → Prop where
  | taken {value : Nat} (h : Asks name least greatest requested value) :
    Decided name default least greatest requested ⟨name, toString value, value, true⟩
  | kept (h : ∀ value, ¬Asks name least greatest requested value) :
    Decided name default least greatest requested ⟨name, toString default, default, false⟩

/-- Requests that differ in unknown options, and in the order of options with different names. -/
inductive Alike : List Entry → List Entry → Prop where
  | refl (requested : List Entry) : Alike requested requested
  | unknown (before after : List Entry) {request : Entry}
    (h : ∀ name ∈ ["blksize", "timeout", "tsize"], ¬SameName request.name name) :
    Alike (before ++ after) (before ++ request :: after)
  | swap (before after : List Entry) {first second : Entry} (h : ¬SameName first.name second.name) :
    Alike (before ++ first :: second :: after) (before ++ second :: first :: after)
  | symm {requested other : List Entry} (h : Alike requested other) : Alike other requested
  | trans {requested between other : List Entry} (h : Alike requested between) (h' : Alike between other) :
    Alike requested other

theorem lastNamed_or_none (name : String) (requested : List Entry) :
    (∃ request, LastNamed name requested request) ∨ ∀ request ∈ requested, ¬SameName request.name name := by
  induction requested with
  | nil => exact .inr nofun
  | cons first requested ih =>
    rcases ih with ⟨request, before, after, rfl, hn, hl⟩ | hnone
    · exact .inl ⟨request, first :: before, after, rfl, hn, hl⟩
    · by_cases hf : SameName first.name name
      · exact .inl ⟨first, [], requested, rfl, hf, hnone⟩
      · exact .inr (List.forall_mem_cons.mpr ⟨hf, hnone⟩)

namespace Known

variable {known : Known} {requested other : List Entry}

theorem hear_lastNamed {request : Entry} (h : LastNamed known.name requested request) :
    known.hear requested = known.settle request.text := by
  obtain ⟨before, after, rfl, hn, hl⟩ := h
  rw [hear, List.foldl_append, List.foldl_cons, if_pos hn, known.skip_others after _ hl]

theorem hear_unnamed (h : ∀ request ∈ requested, ¬SameName request.name known.name) :
    known.hear requested = known.unset :=
  known.skip_others requested known.unset h

theorem settle_numeral {text : String} {value : Nat} (hn : Decimal.Numeral text value)
    (hv : value ≤ Decimal.maxUInt64) (hr : known.least ≤ value ∧ value ≤ known.greatest) :
    known.settle text = ⟨known.name, toString value, value, true⟩ := by
  simp only [settle, (Decimal.read_ok_iff Decimal.maxUInt64 value text).mpr ⟨hn, hv⟩, if_pos hr]

theorem settle_else {text : String} (h : ∀ value, Decimal.Numeral text value → value ≤ Decimal.maxUInt64 →
    ¬(known.least ≤ value ∧ value ≤ known.greatest)) : known.settle text = known.unset := by
  rw [settle]
  split
  · next value hread =>
    obtain ⟨hn, hv⟩ := (Decimal.read_ok_iff Decimal.maxUInt64 value text).mp hread
    exact if_neg (h value hn hv)
  · rfl

theorem hear_asks {value : Nat} (h : Asks known.name known.least known.greatest requested value) :
    known.hear requested = ⟨known.name, toString value, value, true⟩ := by
  obtain ⟨request, hlast, hn, hv, hr⟩ := h
  rw [hear_lastNamed hlast, settle_numeral hn hv hr]

theorem hear_decided (known : Known) (requested : List Entry) :
    Decided known.name known.default known.least known.greatest requested (known.hear requested) := by
  by_cases ha : ∃ value, Asks known.name known.least known.greatest requested value
  · obtain ⟨value, hasks⟩ := ha
    rw [hear_asks hasks]
    exact .taken hasks
  · have hnone : ∀ value, ¬Asks known.name known.least known.greatest requested value := fun value h => ha ⟨value, h⟩
    have hunset : known.hear requested = known.unset := by
      rcases lastNamed_or_none known.name requested with ⟨request, hlast⟩ | hun
      · rw [hear_lastNamed hlast]
        exact settle_else fun value hn hv hr => hnone value ⟨request, hlast, hn, hv, hr⟩
      · exact hear_unnamed hun
    rw [hunset]
    exact .kept hnone

theorem name_mem (known : Known) : known.name ∈ ["blksize", "timeout", "tsize"] := by
  cases known <;> decide

theorem hear_alike (known : Known) (h : Alike requested other) : known.hear requested = known.hear other := by
  induction h with
  | refl => rfl
  | unknown before after h =>
    rw [hear, hear, List.foldl_append, List.foldl_append, List.foldl_cons, if_neg (h known.name known.name_mem)]
  | @swap before after first second h =>
    rw [hear, hear, List.foldl_append, List.foldl_append]
    simp only [List.foldl_cons]
    by_cases hf : SameName first.name known.name
    · have hs : ¬SameName second.name known.name := fun hs => h (hf.trans hs.symm)
      simp only [if_pos hf, if_neg hs]
    · rw [if_neg hf, if_neg hf]
  | symm h ih => exact ih.symm
  | trans h h' ih ih' => exact ih.trans ih'

end Known

theorem listed_hear (requested : List Entry) :
    Listed (Known.blksize.hear requested) (Known.timeout.hear requested) (Known.tsize.hear requested) := by
  have hz := Known.settled_hear .tsize requested
  exact ⟨Known.settled_hear .blksize requested, Known.settled_hear .timeout requested, hz.name, hz.text⟩

theorem validate_accepted_validate (options : Options) :
    options.validate.accepted.validate = options.validate := by
  have h := (listed_hear options.entries).validate_accepted
  rw [Known.echo_settled (Known.settled_hear .tsize options.entries), validate_ofFields] at h
  exact h

/-- The three known options come out in their own order, and each is decided by the last request that names it. -/
theorem validate_lastNamed (options : Options) :
    (∃ blksize timeout tsize, options.validate = ⟨[blksize, timeout, tsize]⟩ ∧
      Decided "blksize" 512 8 65464 options.entries blksize ∧
      Decided "timeout" 5 1 255 options.entries timeout ∧
      Decided "tsize" 0 0 4294967295 options.entries tsize) ∧
    (∀ other, Alike options.entries other → (⟨other⟩ : Options).validate = options.validate) ∧
    options.validate.accepted.validate = options.validate := by
  refine ⟨⟨_, _, _, rfl, Known.hear_decided .blksize options.entries, Known.hear_decided .timeout options.entries,
    Known.hear_decided .tsize options.entries⟩, fun other h => ?_, validate_accepted_validate options⟩
  simp only [validate, Known.hear_alike _ h]

def secondThoughts : List Entry :=
  [⟨"blksize", "1024", 0, false⟩, ⟨"windowsize", "8", 0, false⟩, ⟨"BlkSize", "18446744073709551616", 0, false⟩,
    ⟨"TIMEOUT", "+007", 0, false⟩]

theorem secondThoughts_lastNamed :
    (⟨secondThoughts⟩ : Options).validate =
        ⟨[⟨"blksize", "512", 512, false⟩, ⟨"timeout", "7", 7, true⟩, ⟨"tsize", "0", 0, false⟩]⟩ ∧
      (⟨[⟨"blksize", "1024", 0, false⟩, ⟨"TIMEOUT", "+007", 0, false⟩,
        ⟨"BlkSize", "18446744073709551616", 0, false⟩]⟩ : Options).validate =
        (⟨secondThoughts⟩ : Options).validate := by
  refine ⟨by decide, (validate_lastNamed ⟨secondThoughts⟩).2.1 _ ?_⟩
  have hunknown : Alike secondThoughts [⟨"blksize", "1024", 0, false⟩,
      ⟨"BlkSize", "18446744073709551616", 0, false⟩, ⟨"TIMEOUT", "+007", 0, false⟩] :=
    .symm (.unknown [⟨"blksize", "1024", 0, false⟩] _ (by decide))
  exact hunknown.trans (.swap [⟨"blksize", "1024", 0, false⟩] [] (by decide))

end Tftp.Options
