import Mathlib.Data.List.Nodup
import Mathlib.Logic.Function.Basic
import Tftp.Proofs.Openings
import Tftp.Proofs.Validation

namespace Tftp

open Letter

namespace Options

theorem Known.hear_told (known : Known) (requested : List Entry) (text : String) :
    (known.hear requested).accepted = true ∧ text = (known.hear requested).text ↔
      ∃ value, Asks known.name known.least known.greatest requested value ∧ text = toString value := by
  constructor
  · rintro ⟨ha, ht⟩
    have hd := known.hear_decided requested
    generalize known.hear requested = entry at ha ht hd
    cases hd with
    | taken hasks => exact ⟨_, hasks, ht⟩
    | kept => cases ha
  · rintro ⟨value, hasks, rfl⟩
    rw [hear_asks hasks]
    exact ⟨rfl, rfl⟩

def Listing (entry : Known → Entry) : Prop :=
  ∀ known, (entry known).name = known.name

theorem listing_hear (requested : List Entry) : Listing fun known => known.hear requested :=
  fun known => (known.settled_hear requested).name

variable {entry : Known → Entry}

theorem Listing.update (h : Listing entry) (known : Known) (text : String) (value : Nat) (accepted : Bool) :
    Listing (Function.update entry known ⟨known.name, text, value, accepted⟩) := by
  intro other
  by_cases ho : other = known
  · subst ho
    rw [Function.update_self]
  · rw [Function.update_of_ne ho]
    exact h other

theorem Listing.mem_accepted (h : Listing entry) (known : Known) (text : String) :
    ⟨known.name, text⟩ ∈ (⟨Known.all.map entry⟩ : Options).accepted.fields ↔
      (entry known).accepted = true ∧ text = (entry known).text := by
  constructor
  · intro hmem
    obtain ⟨found, hfound, heq⟩ := List.mem_map.mp hmem
    obtain ⟨hin, ha⟩ := List.mem_filter.mp hfound
    obtain ⟨other, -, rfl⟩ := List.mem_map.mp hin
    injection heq with hname htext
    have hsame : other = known := by
      by_contra hne
      refine Known.other_name hne ?_
      rw [← h other, hname]
    subst hsame
    exact ⟨ha, htext.symm⟩
  · rintro ⟨ha, rfl⟩
    have hin : known ∈ Known.all := by cases known <;> decide
    exact List.mem_map.mpr ⟨entry known, List.mem_filter.mpr ⟨List.mem_map_of_mem hin, ha⟩, by rw [h known]⟩

theorem Listing.order_accepted (h : Listing entry) :
    ((⟨Known.all.map entry⟩ : Options).accepted.fields.map OptionField.name).Sublist (Known.all.map Known.name) := by
  have hnames : Known.all.map Known.name = (Known.all.map entry).map Entry.name := by
    rw [List.map_map]
    exact List.map_congr_left fun known _ => (h known).symm
  rw [hnames, accepted, fields, List.map_map]
  exact List.filter_sublist.map Entry.name

theorem Listing.known_accepted (h : Listing entry) {field : OptionField}
    (hf : field ∈ (⟨Known.all.map entry⟩ : Options).accepted.fields) : ∃ known : Known, field.name = known.name := by
  obtain ⟨known, -, hn⟩ := List.mem_map.mp (h.order_accepted.subset (List.mem_map_of_mem hf))
  exact ⟨known, hn.symm⟩

theorem setAccepted_validate (options : Options) (size : Nat) :
    options.validate.setAccepted Known.tsize.name size =
      ⟨Known.all.map (Function.update (fun known => known.hear options.entries) .tsize
        ⟨Known.tsize.name, toString size, size, true⟩)⟩ := by
  have h := (listed_hear options.entries).setAccepted size
  rw [(Known.settled_hear .tsize options.entries).name] at h
  exact h

theorem anyAccepted_setAccepted (options : Options) (size : Nat) :
    (options.validate.setAccepted Known.tsize.name size).anyAccepted = true := by
  rw [setAccepted_validate]
  have hin : Known.tsize ∈ Known.all := by decide
  exact List.any_eq_true.mpr ⟨_, List.mem_map_of_mem hin, by rw [Function.update_self]⟩

end Options

structure Request where
  direction : Direction
  file : String
  mode : String
  fields : List OptionField
  writable : Bool

namespace Request

open Options (Known Entry Asks Listing)

variable {request : Request} {disk : Disk} {offer : List OptionField}

def entries (request : Request) : List Entry :=
  (Options.ofFields request.fields).entries

def Accepts (request : Request) : Prop :=
  (Options.ofFields request.fields).validate.anyAccepted = true

def Names (name : String) (request : Request) : Prop :=
  ∃ field ∈ request.fields, SameName field.name name

/-- The options of an OACK, with the size that the file has on this disk. -/
structure Offers (request : Request) (disk : Disk) (offer : List OptionField) : Prop where
  order : (offer.map OptionField.name).Sublist ["blksize", "timeout", "tsize"]
  named : ∀ field ∈ offer, request.Names field.name
  asked : ∀ (known : Known) text, known ≠ .tsize ∨ request.direction = .upload →
    (⟨known.name, text⟩ ∈ offer ↔
      ∃ value, Asks known.name known.least known.greatest request.entries value ∧ text = toString value)
  told : request.direction = .download → request.Names "tsize" →
    ∃ size, disk.size request.file = .ok size ∧ ⟨"tsize", toString size⟩ ∈ offer

theorem names_of_asks {name : String} {least greatest value : Nat}
    (h : Asks name least greatest request.entries value) : request.Names name := by
  obtain ⟨asked, ⟨before, after, hsplit, hn, -⟩, -⟩ := h
  have hmem : asked ∈ request.entries := by
    rw [hsplit]
    exact List.mem_append_right before List.mem_cons_self
  obtain ⟨field, hf, rfl⟩ := List.mem_map.mp hmem
  exact ⟨field, hf, hn⟩

theorem names_iff (name : String) (request : Request) :
    (Options.ofFields request.fields).names name = true ↔ request.Names name := by
  simp only [Options.names, Options.ofFields, List.any_map, List.any_eq_true, Function.comp, decide_eq_true_eq, Names]

theorem offers_listed {entry : Known → Entry} (hl : Listing entry)
    (hheard : ∀ known, (known = .tsize → request.direction = .download → ¬request.Names "tsize") →
      entry known = known.hear request.entries)
    (htold : request.direction = .download → request.Names "tsize" → ∃ size, disk.size request.file = .ok size ∧
      entry .tsize = ⟨Known.tsize.name, toString size, size, true⟩) :
    request.Offers disk (⟨Known.all.map entry⟩ : Options).accepted.fields := by
  refine ⟨hl.order_accepted, fun field hf => ?_, fun known text hk => ?_, fun hd hn => ?_⟩
  · obtain ⟨known, hk⟩ := hl.known_accepted hf
    obtain ⟨name, text⟩ := field
    subst hk
    by_contra hnot
    have htext := (hl.mem_accepted known text).mp hf
    rw [hheard known fun hk _ hn => hnot (hk ▸ hn), known.hear_told] at htext
    obtain ⟨value, hasks, -⟩ := htext
    exact hnot (names_of_asks hasks)
  · rw [hl.mem_accepted, hheard known fun hk' hd => ?_, known.hear_told]
    rcases hk with hne | hu
    · exact absurd hk' hne
    · rw [hd] at hu
      cases hu
  · obtain ⟨size, hs, he⟩ := htold hd hn
    exact ⟨size, hs, (hl.mem_accepted .tsize _).mpr (by rw [he]; exact ⟨rfl, rfl⟩)⟩

theorem offers_validated (hs : request.direction = .download → ¬request.Names "tsize") :
    request.Offers disk (Options.ofFields request.fields).validate.accepted.fields :=
  offers_listed (Options.listing_hear request.entries) (fun _ _ => rfl) fun hd hn => absurd hn (hs hd)

theorem offers_sized {size : Nat} (hd : request.direction = .download) (hn : request.Names "tsize")
    (hs : disk.size request.file = .ok size) :
    request.Offers disk
      ((Options.ofFields request.fields).validate.setAccepted Known.tsize.name size).accepted.fields := by
  have hl := (Options.listing_hear request.entries).update .tsize (toString size) size true
  rw [Options.setAccepted_validate]
  refine offers_listed hl (fun known hk => ?_) fun _ _ => ⟨size, hs, Function.update_self ..⟩
  exact Function.update_of_ne (fun ht => hk ht hd hn) ..

theorem Offers.nodup (h : request.Offers disk offer) : (offer.map OptionField.name).Nodup :=
  h.order.nodup (by decide)

theorem Offers.text_eq (h : request.Offers disk offer) {field other : OptionField} (hf : field ∈ offer)
    (ho : other ∈ offer) (hn : field.name = other.name) : field = other :=
  List.inj_on_of_nodup_map h.nodup hf ho hn

theorem Offers.subset {other : List OptionField} (h : request.Offers disk offer) (h' : request.Offers disk other) :
    offer ⊆ other := by
  intro field hf
  have hname : field.name ∈ Known.all.map Known.name := h.order.subset (List.mem_map_of_mem hf)
  obtain ⟨known, -, hk⟩ := List.mem_map.mp hname
  obtain ⟨name, text⟩ := field
  subst hk
  by_cases hsize : known = .tsize ∧ request.direction = .download
  · obtain ⟨rfl, hd⟩ := hsize
    have hn := h.named _ hf
    obtain ⟨size, hs, hmem⟩ := h.told hd hn
    obtain ⟨size', hs', hmem'⟩ := h'.told hd hn
    rw [hs] at hs'
    cases hs'
    rw [h.text_eq hf hmem rfl]
    exact hmem'
  · have hkind : known ≠ .tsize ∨ request.direction = .upload := by
      rcases not_and_or.mp hsize with hne | hd
      · exact .inl hne
      · cases hdir : request.direction with
        | download => exact absurd hdir hd
        | upload => exact .inr rfl
    exact (h'.asked known text hkind).mpr ((h.asked known text hkind).mp hf)

/-- No other options can be told: the order is that of the names in the alphabet. -/
theorem Offers.unique {other : List OptionField} (h : request.Offers disk offer) (h' : request.Offers disk other) :
    offer = other := by
  have hsorted : ∀ {offer}, request.Offers disk offer → offer.Pairwise fun a b => a.name < b.name := fun h =>
    List.pairwise_map.mp (List.Pairwise.sublist h.order (by decide))
  have hperm : offer.Perm other :=
    (List.perm_ext_iff_of_nodup (.of_map _ h.nodup) (.of_map _ h'.nodup)).mpr fun _ =>
      ⟨fun hf => h.subset h' hf, fun hf => h'.subset h hf⟩
  exact hperm.eq_of_pairwise (fun a b _ _ hab hba => absurd hba (String.lt_asymm hab)) (hsorted h) (hsorted h')

end Request

end Tftp
