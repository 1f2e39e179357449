import Tftp.Proofs.RequestRuns
import Tftp.Proofs.Validation

namespace Tftp

open Letter

namespace Options

def Distinct (options : Options) : Prop :=
  (options.entries.map Entry.name).Pairwise fun name other => ¬SameName name other

/-- The ways to get options from others. Options are inserted in place or while they are being built up. -/
inductive Edit where
  | insert (name text : String)
  | setAccepted (name : String) (value : Nat)
  | validate
  | accepted

def Edit.apply (options : Options) : Edit → Options
  | insert name text => options.insert name text
  | setAccepted name value => options.setAccepted name value
  | validate => options.validate
  | accepted => options.accepted

def edit (options : Options) (edits : List Edit) : Options :=
  edits.foldl Edit.apply options

/-- The one entry of that name has been overwritten, and has kept its place and its spelling, or there was none and it
comes last. Everything else is as it was. -/
inductive Updates (entry : Entry) : List Entry → List Entry → Prop where
  | inPlace {before after : List Entry} {old : Entry} (h : SameName old.name entry.name)
    (ho : ∀ other ∈ before ++ after, ¬SameName other.name entry.name) :
    Updates entry (before ++ old :: after) (before ++ { entry with name := old.name } :: after)
  | last {entries : List Entry} (h : ∀ other ∈ entries, ¬SameName other.name entry.name) :
    Updates entry entries (entries ++ [entry])

/-- An entry has been stored under its name. -/
structure Stores (entry : Entry) (options next : Options) : Prop where
  updates : Updates entry options.entries next.entries
  value : ∀ name, SameName name entry.name → next.value? name = some entry.value
  accepted : ∀ name, SameName name entry.name → next.isAccepted name = entry.accepted
  others : ∀ name, ¬SameName name entry.name → next.find? name = options.find? name

variable {entry : Entry} {entries next : List Entry}

theorem updates_put (h : (⟨entries⟩ : Options).Distinct) : Updates entry entries (put entry entries) := by
  induction entries with
  | nil => exact .last nofun
  | cons first entries ih =>
    obtain ⟨hfirst, hrest⟩ := List.pairwise_cons.mp h
    rw [put]
    split
    · next hsame =>
      refine @Updates.inPlace entry [] entries first hsame fun other ho hother => ?_
      exact hfirst other.name (List.mem_map_of_mem ho) (hsame.trans hother.symm)
    · next hother =>
      have hput := ih hrest
      generalize put entry entries = next at hput ⊢
      cases hput with
      | @inPlace before after old hs ho =>
        exact @Updates.inPlace entry (first :: before) after old hs (List.forall_mem_cons.mpr ⟨hother, ho⟩)
      | last ho => exact @Updates.last entry (first :: entries) (List.forall_mem_cons.mpr ⟨hother, ho⟩)

theorem Updates.distinct (h : Updates entry entries next) (hd : (⟨entries⟩ : Options).Distinct) :
    (⟨next⟩ : Options).Distinct := by
  cases h with
  | inPlace hs ho =>
    rw [Distinct, List.map_append, List.map_cons] at hd ⊢
    exact hd
  | last ho =>
    rw [Distinct, List.map_append, List.map_singleton]
    refine List.pairwise_append.mpr ⟨hd, List.pairwise_singleton _ _, fun name hn => ?_⟩
    obtain ⟨other, hother, rfl⟩ := List.mem_map.mp hn
    exact List.forall_mem_singleton.mpr (ho other hother)

theorem find_none {name : String} (h : ∀ other ∈ entries, ¬SameName other.name name) :
    (⟨entries⟩ : Options).find? name = none :=
  List.find?_eq_none.mpr fun other ho => by
    rw [decide_eq_true_eq]
    exact h other ho

theorem find_append (entries more : List Entry) (name : String) : (⟨entries ++ more⟩ : Options).find? name =
    ((⟨entries⟩ : Options).find? name).or ((⟨more⟩ : Options).find? name) :=
  List.find?_append

theorem find_cons_same {first : Entry} {name : String} (h : SameName first.name name) :
    (⟨first :: entries⟩ : Options).find? name = some first :=
  List.find?_cons_of_pos (decide_eq_true h)

theorem find_cons_other {first : Entry} {name : String} (h : ¬SameName first.name name) :
    (⟨first :: entries⟩ : Options).find? name = (⟨entries⟩ : Options).find? name :=
  List.find?_cons_of_neg (by rwa [decide_eq_true_eq])

theorem Updates.find_same (h : Updates entry entries next) {name : String} (hn : SameName name entry.name) :
    ∃ spelling, (⟨next⟩ : Options).find? name = some { entry with name := spelling } := by
  cases h with
  | @inPlace before after old hs ho =>
    refine ⟨old.name, ?_⟩
    rw [find_append, find_none fun other hother hsame =>
      ho other (List.mem_append_left after hother) (hsame.trans hn)]
    exact find_cons_same (hs.trans hn.symm)
  | last ho =>
    refine ⟨entry.name, ?_⟩
    rw [find_append, find_none fun other hother hsame => ho other hother (hsame.trans hn)]
    exact find_cons_same hn.symm

theorem Updates.find_other (h : Updates entry entries next) {name : String} (hn : ¬SameName name entry.name) :
    (⟨next⟩ : Options).find? name = (⟨entries⟩ : Options).find? name := by
  cases h with
  | @inPlace before after old hs ho =>
    have hold : ¬SameName old.name name := fun hsame => hn (hsame.symm.trans hs)
    rw [find_append, find_append, find_cons_other hold]
    exact congrArg _ (find_cons_other hold)
  | last ho =>
    rw [find_append, find_cons_other fun hsame => hn hsame.symm]
    exact Option.or_none

theorem Updates.stores {options next : Options} (h : Updates entry options.entries next.entries) :
    Stores entry options next := by
  refine ⟨h, fun name hn => ?_, fun name hn => ?_, fun name hn => h.find_other hn⟩
  · obtain ⟨spelling, hfind⟩ := h.find_same hn
    rw [value?, hfind]
    rfl
  · obtain ⟨spelling, hfind⟩ := h.find_same hn
    rw [isAccepted, hfind]
    rfl

theorem insert_stores {options : Options} (h : options.Distinct) (name text : String) :
    Stores { name, text } options (options.insert name text) :=
  (updates_put h).stores

theorem setAccepted_stores {options : Options} (h : options.Distinct) (name : String) (value : Nat) :
    Stores { name, text := toString value, value, accepted := true } options (options.setAccepted name value) :=
  (updates_put h).stores

theorem names_distinct : (Known.all.map Known.name).Pairwise fun name other => ¬SameName name other := by
  decide

theorem distinct_defaults : defaults.Distinct :=
  names_distinct

theorem distinct_validate (options : Options) : options.validate.Distinct := by
  have hnames : options.validate.entries.map Entry.name = Known.all.map Known.name := by
    rw [validate, List.map_map]
    exact List.map_congr_left fun known _ => (Known.settled_hear known options.entries).name
  rw [Distinct, hnames]
  exact names_distinct

theorem distinct_accepted {options : Options} (h : options.Distinct) : options.accepted.Distinct :=
  h.sublist (List.filter_sublist.map Entry.name)

theorem Edit.distinct {options : Options} (h : options.Distinct) (change : Edit) : (change.apply options).Distinct := by
  cases change with
  | insert name text => exact (insert_stores h name text).updates.distinct h
  | setAccepted name value => exact (setAccepted_stores h name value).updates.distinct h
  | validate => exact distinct_validate options
  | accepted => exact distinct_accepted h

theorem edit_distinct {options : Options} (h : options.Distinct) (edits : List Edit) :
    (options.edit edits).Distinct := by
  induction edits generalizing options with
  | nil => exact h
  | cons change edits ih => exact ih (change.distinct h)

theorem sizedOptions_fields {options : Options} (h : options.Distinct) (hn : options.names "tsize" = true)
    (size : Nat) : ∃ before old after, options.fields = before ++ old :: after ∧ SameName old.name "tsize" ∧
      (∀ other ∈ before ++ after, ¬SameName other.name "tsize") ∧
      (Client.sizedOptions options size).fields = before ++ ⟨old.name, toString size⟩ :: after := by
  obtain ⟨entries⟩ := options
  have hsized : Client.sizedOptions ⟨entries⟩ size = (⟨entries⟩ : Options).insert "tsize" (toString size) := if_pos hn
  have hupdates := (insert_stores h "tsize" (toString size)).updates
  rw [hsized]
  generalize (⟨entries⟩ : Options).insert "tsize" (toString size) = next at hupdates ⊢
  obtain ⟨next⟩ := next
  cases hupdates with
  | @inPlace before after old hs ho =>
    refine ⟨before.map fun entry => ⟨entry.name, entry.text⟩, ⟨old.name, old.text⟩,
      after.map fun entry => ⟨entry.name, entry.text⟩, ?_, hs, fun other hother => ?_, ?_⟩
    · exact List.map_append
    · rw [← List.map_append] at hother
      obtain ⟨entry, hentry, rfl⟩ := List.mem_map.mp hother
      exact ho entry hentry
    · exact List.map_append
  | last ho =>
    obtain ⟨other, hother, hsame⟩ := List.any_eq_true.mp hn
    exact absurd (of_decide_eq_true hsame) (ho other hother)

/-- However options have been put together, no two of them have one name; storing an option overwrites the one of that
name, in its place, or adds one at the end, and touches no other; and of options that name a size an upload asks for
the same options in the same order, with the size of the file for the size. -/
theorem edit_stores (start : Options) (hstart : start = {} ∨ start = defaults) (edits : List Edit) :
    (start.edit edits).Distinct ∧
    (∀ name text, Stores { name, text } (start.edit edits) ((start.edit edits).insert name text)) ∧
    (∀ name value, Stores { name, text := toString value, value, accepted := true } (start.edit edits)
      ((start.edit edits).setAccepted name value)) ∧
    ∀ config : ClientConfig, config.options = start.edit edits → config.options.names "tsize" = true →
      ∀ link stopped disk src remote node, disk.openRead src = .ok node →
      ∃ opened before old after, Client.uploadFile link stopped config disk src remote = .ok opened ∧
        config.options.fields = before ++ old :: after ∧ SameName old.name "tsize" ∧
        (∀ other ∈ before ++ after, ¬SameName other.name "tsize") ∧
        Client.Requests link stopped config.server (.writeRequest remote config.mode.name
          (before ++ ⟨old.name, toString (disk.nodeSize node)⟩ :: after)) opened := by
  have hd : (start.edit edits).Distinct := by
    refine edit_distinct ?_ edits
    rcases hstart with rfl | rfl
    · exact List.Pairwise.nil
    · exact distinct_defaults
  refine ⟨hd, insert_stores hd, setAccepted_stores hd, fun config hc hn link stopped disk src remote node hnode => ?_⟩
  obtain ⟨before, old, after, hfields, hsame, hother, hsized⟩ :=
    sizedOptions_fields (hc ▸ hd) hn (disk.nodeSize node)
  refine ⟨_, before, old, after, by rw [Client.uploadFile, hnode], hfields, hsame, hother, ?_⟩
  rw [← hsized]
  exact Client.transmit_requests link stopped config disk remote _ .sentWriteRequest _ .keep

def spelledTwice : Options :=
  ({} : Options).edit [.insert "TSize" "0", .insert "blksize" "1024", .insert "tsize" "7"]

theorem edit_stores_spelledTwice :
    spelledTwice.entries = [⟨"TSize", "7", 0, false⟩, ⟨"blksize", "1024", 0, false⟩] ∧ spelledTwice.Distinct ∧
    (spelledTwice.setAccepted "BLKSIZE" 512).value? "BlkSize" = some 512 ∧
    ∃ opened, Client.uploadFile .connected false ⟨⟨.v4 10 0 0 1, 69, 0⟩, .octet, spelledTwice⟩
        { nodes := [(["f"], .file 0)], contents := #[#[1, 2, 3]] } "f" "g" = .ok opened ∧
      ∃ before old after, spelledTwice.fields = before ++ old :: after ∧ SameName old.name "tsize" ∧
        Client.Requests .connected false ⟨.v4 10 0 0 1, 69, 0⟩
          (.writeRequest "g" "octet" (before ++ ⟨old.name, "3"⟩ :: after)) opened := by
  obtain ⟨hd, -, haccept, hupload⟩ := edit_stores {} (.inl rfl) [.insert "TSize" "0", .insert "blksize" "1024",
    .insert "tsize" "7"]
  refine ⟨by decide, hd, (haccept "BLKSIZE" 512).value "BlkSize" (by decide), ?_⟩
  obtain ⟨opened, before, old, after, hopened, hfields, hsame, -, hrequests⟩ :=
    hupload ⟨⟨.v4 10 0 0 1, 69, 0⟩, .octet, spelledTwice⟩ rfl (by decide) .connected false
      { nodes := [(["f"], .file 0)], contents := #[#[1, 2, 3]] } "f" "g" (.file 0) (by rfl)
  exact ⟨opened, hopened, before, old, after, hfields, hsame, hrequests⟩

end Options

end Tftp
