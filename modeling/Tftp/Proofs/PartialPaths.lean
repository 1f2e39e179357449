import Tftp.Client.Partial
import Tftp.Proofs.BelowRoot
import Tftp.Proofs.Paths

namespace Tftp

namespace Path

structure Ordinary (name : String) : Prop where
  nonempty : name ≠ ""
  notHere : name ≠ "."
  notUp : name ≠ ".."
  plain : '/' ∉ name.toList

theorem componentOf?_eq_none_iff (segment : String) : componentOf? segment = none ↔ idle segment = true := by
  rw [componentOf?]
  split
  · next hidle => exact ⟨fun _ => hidle, fun _ => rfl⟩
  · next hidle =>
    refine ⟨fun h => ?_, fun h => absurd h hidle⟩
    split at h <;> cases h

theorem idle_eq_true_iff (segment : String) : idle segment = true ↔ segment = "" ∨ segment = "." := by
  rw [idle, Bool.or_eq_true, decide_eq_true_iff, decide_eq_true_iff]

theorem componentOf?_eq_name_iff (segment name : String) :
    componentOf? segment = some (.name name) ↔ segment = name ∧ name ≠ "" ∧ name ≠ "." ∧ name ≠ ".." := by
  rw [componentOf?]
  split
  · next hidle =>
    refine ⟨fun h => (by cases h), ?_⟩
    rintro ⟨rfl, hempty, hdot, -⟩
    exact absurd ((idle_eq_true_iff _).mp hidle) (not_or.mpr ⟨hempty, hdot⟩)
  · next hidle =>
    rw [idle_eq_true_iff, not_or] at hidle
    split
    · next hup =>
      refine ⟨fun h => (by cases h), ?_⟩
      rintro ⟨rfl, -, -, hne⟩
      exact absurd hup hne
    · next hup =>
      constructor
      · intro h
        cases h
        exact ⟨rfl, hidle.1, hidle.2, hup⟩
      · rintro ⟨rfl, -⟩
        rfl

theorem Ordinary.component {name : String} (h : Ordinary name) : componentOf? name = some (.name name) :=
  (componentOf?_eq_name_iff name name).mpr ⟨rfl, h.nonempty, h.notHere, h.notUp⟩

theorem Ordinary.withPart {name : String} (h : Ordinary name) : Ordinary (name ++ ".part") := by
  have hne : ∀ short : String, short.length < 5 → name ++ ".part" ≠ short := by
    rintro _ hshort rfl
    rw [String.length_append] at hshort
    exact absurd (Nat.le_add_left 5 name.length) (Nat.not_le.mpr hshort)
  refine ⟨hne "" (by decide), hne "." (by decide), hne ".." (by decide), ?_⟩
  rw [String.toList_append, List.mem_append, not_or]
  exact ⟨h.plain, by decide⟩

structure EndsIn (text name : String) : Prop where
  ordinary : Ordinary name
  parts : ∃ (front : List Char) (marks : List (List Char)), text.toList = front ++ name.toList ++ marks.flatten ∧
    (front = [] ∨ front.getLast? = some '/') ∧ ∀ mark ∈ marks, mark = ['/'] ∨ mark = ['/', '.']

theorem components_parse (s : String) : (parse s).components = (parse s).opening ++ componentsOf s.toList := by
  rw [components]
  rcases segments_parse s with hs | ⟨cs, hcs, hs⟩
  · rw [hs]
    rfl
  · rw [hs, hcs, componentsOf_cons]
    rfl

theorem opening_ne_name (path : Path) (name : String) : path.opening.getLast? ≠ some (.name name) := by
  rw [opening]
  split
  · simp
  · split <;> simp

theorem getLast?_components_iff (s name : String) :
    (parse s).components.getLast? = some (.name name) ↔ (componentsOf s.toList).getLast? = some (.name name) := by
  rw [components_parse, List.getLast?_append, Option.or_eq_some_iff]
  refine ⟨fun h => h.resolve_right fun hopening => opening_ne_name _ name hopening.2, .inl⟩

theorem componentsOf_marks (cs : List Char) {marks : List (List Char)}
    (hm : ∀ mark ∈ marks, mark = ['/'] ∨ mark = ['/', '.']) : componentsOf (cs ++ marks.flatten) = componentsOf cs := by
  induction marks generalizing cs with
  | nil => rw [List.flatten_nil, List.append_nil]
  | cons mark marks ih =>
    have hmark : componentsOf (cs ++ mark) = componentsOf cs := by
      rcases hm mark List.mem_cons_self with rfl | rfl
      · exact (componentsOf_slash cs []).trans (List.append_nil _)
      · exact (componentsOf_slash cs ['.']).trans (List.append_nil _)
    rw [List.flatten_cons, ← List.append_assoc, ih _ fun m h => hm m (List.mem_cons_of_mem _ h), hmark]

theorem componentsOf_name {name : String} (h : Ordinary name) : componentsOf name.toList = [.name name] := by
  rw [componentsOf, segmentsOf, splitChars_plain _ h.plain, List.map_singleton, String.ofList_toList,
    List.filterMap_cons, h.component, List.filterMap_nil]

theorem getLast?_components {path : Path} {name : String} (h : path.segments.getLast? = some name)
    (hn : Ordinary name) : path.components.getLast? = some (.name name) := by
  obtain ⟨front, hs⟩ := List.getLast?_eq_some_iff.mp h
  rw [components, hs, List.filterMap_append, List.filterMap_cons, hn.component, List.filterMap_nil,
    ← List.append_assoc, List.getLast?_concat]

theorem exists_of_getLast?_filterMap {α β : Type} {f : α → Option β} {l : List α} {b : β}
    (h : (l.filterMap f).getLast? = some b) :
    ∃ front a back, l = front ++ a :: back ∧ f a = some b ∧ ∀ x ∈ back, f x = none := by
  obtain ⟨before, hb⟩ := List.getLast?_eq_some_iff.mp h
  obtain ⟨front, rest, rfl, -, hrest⟩ := List.filterMap_eq_append_iff.mp hb
  obtain ⟨skipped, a, back, rfl, -, ha, hback⟩ := List.filterMap_eq_cons_iff.mp hrest
  exact ⟨front ++ skipped, a, back, (List.append_assoc ..).symm, ha, List.filterMap_eq_nil_iff.mp hback⟩

theorem intercalate_slash (before : List (List Char)) (segment : List Char) (back : List (List Char)) :
    ['/'].intercalate (before ++ segment :: back) =
      (before.map (· ++ ['/'])).flatten ++ segment ++ (back.map ('/' :: ·)).flatten := by
  induction before with
  | nil =>
    induction back generalizing segment with
    | nil => simp
    | cons next back ih => simpa using ih next
  | cons first before ih =>
    rw [List.cons_append, List.intercalate_cons_of_ne_nil (by simp), ih]
    simp

theorem endsIn_iff (text name : String) :
    EndsIn text name ↔ (parse text).components.getLast? = some (.name name) := by
  rw [getLast?_components_iff]
  constructor
  · rintro ⟨hname, front, marks, htext, hfront, hmarks⟩
    have hend : ∀ cs : List Char, cs = [] ∨ cs.getLast? = some '/' →
        (componentsOf (cs ++ name.toList)).getLast? = some (.name name) := by
      rintro cs (rfl | hslash)
      · rw [List.nil_append, componentsOf_name hname]
        rfl
      · obtain ⟨before, rfl⟩ := List.getLast?_eq_some_iff.mp hslash
        rw [List.append_assoc, List.singleton_append, componentsOf_slash, componentsOf_name hname,
          List.getLast?_concat]
    rw [htext, componentsOf_marks _ hmarks]
    exact hend front hfront
  · intro h
    rw [componentsOf, segmentsOf, List.filterMap_map] at h
    obtain ⟨before, segment, back, hsplit, hname, hback⟩ := exists_of_getLast?_filterMap h
    obtain ⟨rfl, hempty, hdot, hup⟩ := (componentOf?_eq_name_iff _ _).mp hname
    have hslash : '/' ∉ segment := notMem_of_mem_splitChars text.toList segment (hsplit ▸ by simp)
    have htext : text.toList = ['/'].intercalate (before ++ segment :: back) := by
      rw [← hsplit, splitChars_eq, List.intercalate_splitOn]
    refine ⟨⟨hempty, hdot, hup, by rwa [String.toList_ofList]⟩, _, _,
      by rw [htext, intercalate_slash, String.toList_ofList], ?_, fun mark hmark => ?_⟩
    · rcases List.eq_nil_or_concat before with rfl | ⟨front, last, rfl⟩
      · exact .inl rfl
      · exact .inr (by simp)
    · obtain ⟨cs, hcs, rfl⟩ := List.mem_map.mp hmark
      rcases (idle_eq_true_iff _).mp ((componentOf?_eq_none_iff _).mp (hback cs hcs)) with he | he
      · exact .inl (by rw [show cs = [] from String.ofList_inj.mp he])
      · exact .inr (by rw [show cs = ['.'] from String.ofList_inj.mp he])

/-- What is left of a path when segments that lead nowhere are taken from its end. -/
structure Shortens (path shortened : Path) : Prop where
  rooted : shortened.rooted = path.rooted
  opening : shortened.opening = path.opening
  rest : ∃ back, path.segments = shortened.segments ++ back ∧ ∀ segment ∈ back, idle segment = true

theorem trim_shortens (path : Path) : path.Shortens path.trim := by
  obtain ⟨rooted, segments⟩ := path
  cases segments with
  | nil => exact ⟨rfl, rfl, [], rfl, fun _ h => nomatch h⟩
  | cons first others =>
    have hsplit : others = (others.reverse.dropWhile idle).reverse ++ (others.reverse.takeWhile idle).reverse := by
      rw [← List.reverse_append, List.takeWhile_append_dropWhile, List.reverse_reverse]
    have hidle : ∀ segment ∈ (others.reverse.takeWhile idle).reverse, idle segment = true :=
      fun segment h => List.mem_takeWhile_imp (List.mem_reverse.mp h)
    rw [trim]
    simp only
    split
    · next hnil =>
      rw [hnil, List.nil_append] at hsplit
      split
      · next hfirst =>
        rw [Bool.or_eq_true, Bool.and_eq_true, decide_eq_true_iff, decide_eq_true_iff] at hfirst
        refine ⟨rfl, ?_, first :: others, rfl, fun segment h => ?_⟩
        · rcases hfirst with rfl | ⟨-, rfl⟩
          · cases rooted <;> rfl
          · rfl
        · rcases List.mem_cons.mp h with rfl | h
          · exact (idle_eq_true_iff _).mpr (hfirst.imp_right And.left)
          · exact hidle segment (hsplit ▸ h)
      · exact ⟨rfl, rfl, others, rfl, fun segment h => hidle segment (hsplit ▸ h)⟩
    · exact ⟨rfl, rfl, _, congrArg (first :: ·) hsplit, hidle⟩

theorem trim_segments {path : Path} {front back : List String} {name : String}
    (hs : path.segments = front ++ name :: back) (hname : idle name = false)
    (hback : ∀ segment ∈ back, idle segment = true) : path.trim.segments = front ++ [name] := by
  obtain ⟨rooted, segments⟩ := path
  simp only at hs
  subst hs
  have hreverse : ∀ segment ∈ back.reverse, idle segment = true := fun segment h =>
    hback segment (List.mem_reverse.mp h)
  cases front with
  | nil =>
    have hnone : (back.reverse.dropWhile idle).reverse = [] := by
      rw [List.dropWhile_eq_nil_iff.mpr hreverse, List.reverse_nil]
    have hkept : ¬(decide (name = "") || (decide (name = ".") && rooted)) = true := by
      rw [idle, Bool.or_eq_false_iff] at hname
      simp [hname.1, hname.2]
    simp only [trim, List.nil_append, hnone, if_neg hkept]
  | cons first front =>
    have hsome : ((front ++ name :: back).reverse.dropWhile idle).reverse = front ++ [name] := by
      rw [List.reverse_append, List.reverse_cons, List.append_assoc, List.dropWhile_append_of_pos hreverse,
        List.singleton_append, List.dropWhile_cons_of_neg (by rw [hname]; exact Bool.false_ne_true),
        List.reverse_cons, List.reverse_reverse]
    simp only [trim, List.cons_append, hsome]
    split
    · next hnil => simp at hnil
    · rfl

theorem Shortens.components {path shortened : Path} (h : path.Shortens shortened) :
    path.components = shortened.components := by
  obtain ⟨back, hs, hback⟩ := h.rest
  have hnone : back.filterMap componentOf? = [] :=
    List.filterMap_eq_nil_iff.mpr fun segment hm => componentOf?_idle (hback segment hm)
  rw [Path.components, Path.components, h.opening, hs, List.filterMap_append, hnone, List.append_nil]

def extend (path : Path) (name : String) : Path :=
  { path with segments := path.segments ++ [name] }

theorem components_extend (path : Path) {name : String} (h : Ordinary name) :
    (path.extend name).components = path.components ++ [.name name] := by
  have hopening : (path.extend name).opening = path.opening := by
    cases hs : path.segments with
    | nil => simp [extend, opening, hs, h.notHere]
    | cons first others => simp [extend, opening, hs]
  rw [components, components, hopening, extend, List.filterMap_append, List.filterMap_cons, h.component,
    List.filterMap_nil, List.append_assoc]

/-- A path that ends in this name, and `parent` is what stands before it. -/
structure Lies (path parent : Path) (name : String) : Prop where
  segments : ∃ front back, path.segments = front ++ name :: back ∧ (∀ segment ∈ back, idle segment = true) ∧
    ({ path with segments := front } : Path).Shortens parent
  renamed : ∀ new, path.withFileName new = parent.extend new

theorem exists_lies {path : Path} {name : String} (h : path.components.getLast? = some (.name name)) :
    ∃ parent, path.Lies parent name := by
  rw [components, List.getLast?_append, Option.or_eq_some_iff] at h
  have hlast := h.resolve_right fun hopening => opening_ne_name path name hopening.2
  obtain ⟨front, segment, back, hs, hname, hback⟩ := exists_of_getLast?_filterMap hlast
  obtain ⟨rfl, hempty, hdot, -⟩ := (componentOf?_eq_name_iff _ _).mp hname
  have hidle : ∀ segment ∈ back, idle segment = true := fun segment hm =>
    (componentOf?_eq_none_iff segment).mp (hback segment hm)
  have htrim : path.trim.segments.dropLast = front := by
    rw [trim_segments hs (by rw [idle, decide_eq_false hempty, decide_eq_false hdot]; rfl) hidle,
      List.dropLast_concat]
  refine ⟨_, ⟨front, back, hs, hidle, trim_shortens _⟩, fun new => ?_⟩
  rw [withFileName, htrim]
  rfl

theorem Lies.components {path parent : Path} {name : String} (h : path.Lies parent name) (hn : Ordinary name) :
    path.components = parent.components ++ [.name name] := by
  obtain ⟨front, back, hs, hback, hparent⟩ := h.segments
  have hend : path.Shortens (({ path with segments := front } : Path).extend name) := by
    refine ⟨rfl, ?_, back, by rw [hs, extend, List.append_assoc, List.singleton_append], hback⟩
    rw [opening, opening, hs]
    cases front <;> rfl
  rw [hend.components, components_extend _ hn, hparent.components]

structure Legible (path : Path) : Prop where
  nonempty : path.segments ≠ []
  plain : ∀ segment ∈ path.segments, '/' ∉ segment.toList
  first : path.rooted = false → path.segments.head? ≠ some ""

theorem segmentsOf_intercalate {segments : List String} (hne : segments ≠ [])
    (hplain : ∀ segment ∈ segments, '/' ∉ segment.toList) :
    segmentsOf ("/".intercalate segments).toList = segments := by
  have hsplit : (['/'].intercalate (segments.map String.toList)).splitOn '/' = segments.map String.toList := by
    refine List.splitOn_intercalate '/' (fun cs hcs => ?_) (by simpa using hne)
    obtain ⟨segment, hs, rfl⟩ := List.mem_map.mp hcs
    exact hplain segment hs
  rw [String.toList_intercalate, segmentsOf, splitChars_eq, show "/".toList = ['/'] from rfl, hsplit, List.map_map]
  exact List.map_id'' (fun segment => String.ofList_toList) segments

theorem head?_segmentsOf_slash (cs : List Char) : (segmentsOf ('/' :: cs)).head? = some "" := rfl

theorem Legible.parse_text {path : Path} (h : path.Legible) : parse path.text = path := by
  obtain ⟨rooted, segments⟩ := path
  have hsegments := segmentsOf_intercalate h.nonempty h.plain
  cases rooted with
  | true =>
    have htext : (text ⟨true, segments⟩).toList = '/' :: ("/".intercalate segments).toList := by
      rw [text, if_pos rfl, String.toList_append, show "/".toList = ['/'] from rfl, List.singleton_append]
    rw [parse, htext]
    exact congrArg (Path.mk true) hsegments
  | false =>
    have htext : text ⟨false, segments⟩ = "/".intercalate segments := String.empty_append
    rw [parse, htext]
    split
    · next cs hcs =>
      have hhead := head?_segmentsOf_slash cs
      rw [← hcs, hsegments] at hhead
      exact absurd hhead (h.first rfl)
    · exact congrArg (Path.mk false) hsegments

theorem segments_parse_empty {s : String} (hrooted : (parse s).rooted = false)
    (hhead : (parse s).segments.head? = some "") : (parse s).segments = [""] := by
  rw [parse] at hrooted hhead ⊢
  split at hrooted
  · cases hrooted
  next hslash =>
  simp only at hhead ⊢
  cases hs : s.toList with
  | nil => rfl
  | cons c cs =>
    have hc : c ≠ '/' := fun hc => hslash cs (by rw [hs, hc])
    obtain ⟨segment, segments, hsplit⟩ := List.exists_cons_of_ne_nil (splitChars_ne_nil cs)
    have hfirst : (segmentsOf (c :: cs)).head? = some (String.ofList (c :: segment)) := by
      rw [segmentsOf, splitChars, if_neg hc, hsplit]
      rfl
    rw [hs, hfirst] at hhead
    exact absurd (String.ofList_inj.mp (Option.some.inj hhead)) (List.cons_ne_nil c segment)

theorem Lies.legible {s : String} {parent : Path} {name new : String} (h : (parse s).Lies parent name)
    (hnew : Ordinary new) : (parent.extend new).Legible := by
  obtain ⟨front, back, hs, -, hparent⟩ := h.segments
  obtain ⟨rest, hfront, -⟩ := hparent.rest
  simp only at hfront
  refine ⟨by simp [extend], fun segment hm => ?_, fun hrooted hhead => ?_⟩
  · rcases List.mem_append.mp hm with hm | hm
    · exact notMem_of_mem_segments s segment (by rw [hs, hfront]; simp [hm])
    · rw [List.mem_singleton.mp hm]
      exact hnew.plain
  · cases hp : parent.segments with
    | nil =>
      rw [extend, hp] at hhead
      exact hnew.nonempty (Option.some.inj hhead)
    | cons first others =>
      rw [extend, hp] at hhead
      have hfirst : first = "" := Option.some.inj hhead
      have hsegments := segments_parse_empty (hparent.rooted.symm.trans hrooted) (by
        rw [hs, hfront, hp, hfirst]
        rfl)
      rw [hs, hfront, hp] at hsegments
      simp at hsegments

theorem Lies.parse_renamed {s : String} {parent : Path} {name new : String} (h : (parse s).Lies parent name)
    (hnew : Ordinary new) : parse ((parse s).withFileName new).text = parent.extend new := by
  rw [h.renamed new]
  exact (h.legible hnew).parse_text

end Path

namespace Disk

theorem walk_dots {disk : Disk} {dots : List String} (hd : ∀ dot ∈ dots, dot = ".") {place last : Place}
    (h : dots.foldlM disk.enter place = .ok last) : last = place := by
  induction dots with
  | nil =>
    cases h
    rfl
  | cons dot dots ih =>
    rw [List.foldlM_cons] at h
    cases he : disk.enter place dot with
    | error fault =>
      rw [he] at h
      cases h
    | ok next =>
      obtain ⟨-, hcases⟩ := (enter_ok_iff disk place next dot).mp he
      rcases hcases with ⟨-, rfl⟩ | ⟨hne, -⟩ | ⟨hne, -⟩
      · rw [he] at h
        exact ih (fun d hm => hd d (List.mem_cons_of_mem _ hm)) h
      · exact absurd (hd dot List.mem_cons_self) hne
      · exact absurd (hd dot List.mem_cons_self) hne

theorem walk_shortened {disk : Disk} {front kept back : List String} (hf : front = kept ++ back)
    (hb : ∀ segment ∈ back, Path.idle segment = true) {place last : Place}
    (h : (front.filter fun segment => segment ≠ "").foldlM disk.enter place = .ok last) :
    (kept.filter fun segment => segment ≠ "").foldlM disk.enter place = .ok last := by
  rw [hf, List.filter_append, List.foldlM_append] at h
  cases hk : (kept.filter fun segment => segment ≠ "").foldlM disk.enter place with
  | error fault =>
    rw [hk] at h
    cases h
  | ok middle =>
    rw [hk] at h
    rw [walk_dots (fun dot hm => ?_) h]
    obtain ⟨hdot, hne⟩ := List.mem_filter.mp hm
    exact ((Path.idle_eq_true_iff dot).mp (hb dot hdot)).resolve_left (of_decide_eq_true hne)

theorem Names.last {disk : Disk} {path : String} {place : Place} (h : disk.Names path place) :
    ∃ parent name, place = parent ++ [name] ∧ (Path.parse path).segments.getLast? = some name ∧ Path.Ordinary name := by
  obtain ⟨route, hr, ht, hs, -⟩ := h
  obtain ⟨name, hl, hdot, hup, rfl⟩ := target_eq_some ht
  have hslash : (Path.parse path).segments.getLast? ≠ some "" := by
    have := hr.slash
    rw [hs] at this
    exact of_decide_eq_false this.symm
  have hlast : (steps path).getLast? = some name := hr.last.symm.trans hl
  have hsegment : (Path.parse path).segments.getLast? = some name := by
    cases hseg : (Path.parse path).segments.getLast? with
    | none =>
      rw [List.getLast?_eq_none_iff] at hseg
      rw [steps, hseg] at hlast
      cases hlast
    | some segment =>
      obtain ⟨front, hf⟩ := List.getLast?_eq_some_iff.mp hseg
      have hne : segment ≠ "" := by
        rintro rfl
        exact hslash hseg
      rw [steps, hf, List.filter_append, List.filter_cons, if_pos (by simp [hne]), List.filter_nil,
        List.getLast?_concat] at hlast
      rw [hlast]
  have hempty : name ≠ "" := by simpa using (List.mem_filter.mp (List.mem_of_getLast? hlast)).2
  exact ⟨route.parent, name, rfl, hsegment, hempty, hdot, hup,
    Path.notMem_of_mem_segments path name (List.mem_of_getLast? hsegment)⟩

theorem Names.directory {disk : Disk} {path : String} {place : Place} (h : disk.Names path place)
    {front : List String} {name : String} (hs : (Path.parse path).segments = front ++ [name]) (hne : name ≠ "") :
    ∃ directory, (front.filter fun segment => segment ≠ "").foldlM disk.enter [] = .ok directory ∧
      place = directory ++ [name] := by
  obtain ⟨route, hr, ht, -, -⟩ := h
  obtain ⟨last, hlast, -, -, rfl⟩ := target_eq_some ht
  have hsteps : steps path = (front.filter fun segment => segment ≠ "") ++ [name] := by
    rw [steps, hs, List.filter_append, List.filter_cons, if_pos (by simp [hne]), List.filter_nil]
  have hwalk := hr.walk
  rw [hr.last, hsteps, List.getLast?_concat] at hlast
  rw [hsteps, List.dropLast_concat] at hwalk
  exact ⟨route.parent, hwalk, by rw [Option.some.inj hlast]⟩

theorem Names.segments_eq {disk : Disk} {path : String} {place : Place} (h : disk.Names path place)
    {front back : List String} {name : String} (hs : (Path.parse path).segments = front ++ name :: back)
    (hback : ∀ segment ∈ back, Path.idle segment = true) : (Path.parse path).segments = front ++ [name] := by
  obtain ⟨-, last, -, hlast, hordinary⟩ := h.last
  rcases List.eq_nil_or_concat back with rfl | ⟨others, segment, rfl⟩
  · exact hs
  · rw [hs, List.concat_eq_append, ← List.cons_append, ← List.append_assoc, List.getLast?_concat] at hlast
    rw [← Option.some.inj hlast] at hordinary
    exact absurd ((Path.idle_eq_true_iff segment).mp (hback segment (by simp)))
      (not_or.mpr ⟨hordinary.nonempty, hordinary.notHere⟩)

theorem Names.beside {disk : Disk} {dest gathered : String} {place origin : Place} {parent : Path}
    {name new : String} (hlies : (Path.parse dest).Lies parent name) (hname : Path.Ordinary name)
    (hnew : Path.Ordinary new) (hgathered : Path.parse gathered = parent.extend new) (hd : disk.Names dest place)
    (hg : disk.Names gathered origin) : ∃ directory, place = directory ++ [name] ∧ origin = directory ++ [new] := by
  obtain ⟨front, back, hs, hback, hparent⟩ := hlies.segments
  obtain ⟨rest, hfront, hrest⟩ := hparent.rest
  obtain ⟨directory, hwalk, hplace⟩ := hd.directory (hd.segments_eq hs hback) hname.nonempty
  obtain ⟨other, hother, horigin⟩ := hg.directory (congrArg Path.segments hgathered) hnew.nonempty
  rw [walk_shortened hfront hrest hwalk] at hother
  cases hother
  exact ⟨directory, hplace, horigin⟩

end Disk

theorem partialPath_eq_ok_iff (dest gathered : String) :
    partialPath dest = .ok gathered ↔
      ∃ name, (Path.parse dest).components.getLast? = some (.name name) ∧
        gathered = ((Path.parse dest).withFileName (name ++ ".part")).text := by
  rw [partialPath, Path.fileName?]
  cases hlast : (Path.parse dest).components.getLast? with
  | none => simp
  | some component => cases component <;> simp [eq_comm]

/-- A file beside another: in the same directory, under its name with `.part` after it. -/
structure Beside (dest gathered : String) : Prop where
  components : ∃ parent name, Path.EndsIn dest name ∧
    (Path.parse dest).components = parent ++ [.name name] ∧
      (Path.parse gathered).components = parent ++ [.name (name ++ ".part")]
  differs : gathered ≠ dest
  places : ∀ (disk : Disk) (place origin : Place), disk.Names dest place → disk.Names gathered origin →
    ∃ directory name, place = directory ++ [name] ∧ origin = directory ++ [name ++ ".part"]

theorem partialPath_beside {dest gathered : String} (h : partialPath dest = .ok gathered) : Beside dest gathered := by
  obtain ⟨name, hlast, rfl⟩ := (partialPath_eq_ok_iff dest gathered).mp h
  have hends := (Path.endsIn_iff dest name).mpr hlast
  have hpart := hends.ordinary.withPart
  obtain ⟨parent, hlies⟩ := Path.exists_lies hlast
  have hparse := hlies.parse_renamed hpart
  have hdest := hlies.components hends.ordinary
  have hgathered := Path.components_extend parent hpart
  rw [← hparse] at hgathered
  refine ⟨⟨_, name, hends, hdest, hgathered⟩, fun heq => ?_, fun disk place origin hd hg => ?_⟩
  · rw [heq, hdest] at hgathered
    have hname : name = name ++ ".part" := by simpa using hgathered
    simpa using congrArg String.length hname
  · obtain ⟨directory, hplace, horigin⟩ := Disk.Names.beside hlies hends.ordinary hpart hparse hd hg
    exact ⟨directory, name, hplace, horigin⟩

theorem Disk.Names.partialPath_eq {disk : Disk} {dest : String} {place : Place} (h : disk.Names dest place) :
    ∃ parent name, place = parent ++ [name] ∧ '/' ∉ name.toList ∧
      partialPath dest = .ok ((Path.parse dest).withFileName (name ++ ".part")).text := by
  obtain ⟨parent, name, hplace, hsegment, hname⟩ := h.last
  refine ⟨parent, name, hplace, hname.plain, ?_⟩
  exact (partialPath_eq_ok_iff dest _).mpr ⟨name, Path.getLast?_components hsegment hname, rfl⟩

theorem Disk.ne_of_partialPath {disk : Disk} {dest gathered : String} {place origin : Place}
    (hp : partialPath dest = .ok gathered) (hdest : disk.Names dest place)
    (hgathered : disk.Names gathered origin) : origin ≠ place := by
  obtain ⟨directory, name, rfl, rfl⟩ := (partialPath_beside hp).places disk place origin hdest hgathered
  intro heq
  simp at heq

theorem Beside.components_eq {dest other gathered taken : String} (h : Beside dest gathered)
    (h' : Beside other taken) (heq : (Path.parse gathered).components = (Path.parse taken).components) :
    (Path.parse dest).components = (Path.parse other).components := by
  obtain ⟨parent, name, -, hdest, hgathered⟩ := h.components
  obtain ⟨parent', name', -, hother, htaken⟩ := h'.components
  rw [hgathered, htaken] at heq
  obtain ⟨hparent, hlast⟩ := List.append_inj' heq rfl
  have hpart : name ++ ".part" = name' ++ ".part" := by simpa using hlast
  rw [hdest, hother, hparent, (String.append_left_inj ".part").mp hpart]

theorem Beside.place_eq {dest other gathered taken : String} (h : Beside dest gathered) (h' : Beside other taken)
    {disk : Disk} {place place' origin : Place} (hdest : disk.Names dest place) (hother : disk.Names other place')
    (hgathered : disk.Names gathered origin) (htaken : disk.Names taken origin) : place = place' := by
  obtain ⟨directory, name, rfl, horigin⟩ := h.places disk place origin hdest hgathered
  obtain ⟨directory', name', rfl, horigin'⟩ := h'.places disk place' origin hother htaken
  obtain ⟨hdirectory, hlast⟩ := List.append_inj' (horigin.symm.trans horigin') rfl
  have hpart : name ++ ".part" = name' ++ ".part" := by simpa using hlast
  rw [hdirectory, (String.append_left_inj ".part").mp hpart]

/-- A download can be gathered just if its destination ends in an ordinary name. It is then gathered beside the
destination, and downloads that are gathered in one file are meant for one file. -/
theorem partialPath_apart :
    (∀ dest, (∃ gathered, partialPath dest = .ok gathered) ↔ ∃ name, Path.EndsIn dest name) ∧
      (∀ dest gathered, partialPath dest = .ok gathered → Beside dest gathered) ∧
        ∀ dest other gathered taken, partialPath dest = .ok gathered → partialPath other = .ok taken →
          ((Path.parse gathered).components = (Path.parse taken).components →
            (Path.parse dest).components = (Path.parse other).components) ∧
            ∀ (disk : Disk) (place place' origin : Place), disk.Names dest place → disk.Names other place' →
              disk.Names gathered origin → disk.Names taken origin → place = place' := by
  refine ⟨fun dest => ?_, fun dest gathered h => partialPath_beside h, fun dest other gathered taken h h' => ?_⟩
  · simp only [partialPath_eq_ok_iff, Path.endsIn_iff]
    exact ⟨fun ⟨_, name, hlast, _⟩ => ⟨name, hlast⟩, fun ⟨name, hlast⟩ => ⟨_, name, hlast, rfl⟩⟩
  · exact ⟨(partialPath_beside h).components_eq (partialPath_beside h'),
      fun disk place place' origin => (partialPath_beside h).place_eq (partialPath_beside h')⟩

def inbox : Disk :=
  { nodes := [(["in"], .directory)] }

theorem note_apart :
    Beside "in/./note" "in/note.part" ∧
      (Path.parse "in/./note").components = (Path.parse "in//note").components ∧
        ∃ place place', inbox.Names "in/./note" place ∧ inbox.Names "in//note" place' ∧ place = place' := by
  have hfirst : partialPath "in/./note" = .ok "in/note.part" := by decide
  have hsecond : partialPath "in//note" = .ok "in/note.part" := by decide
  have hnote : inbox.Names "in/./note" ["in", "note"] :=
    ⟨_, (Disk.route_ok_iff inbox _ _).mp rfl, rfl, rfl, rfl⟩
  have hspelled : inbox.Names "in//note" ["in", "note"] :=
    ⟨_, (Disk.route_ok_iff inbox _ _).mp rfl, rfl, rfl, rfl⟩
  have hgathered : inbox.Names "in/note.part" ["in", "note.part"] :=
    ⟨_, (Disk.route_ok_iff inbox _ _).mp rfl, rfl, rfl, rfl⟩
  obtain ⟨hcomponents, hplaces⟩ := partialPath_apart.2.2 _ _ _ _ hfirst hsecond
  exact ⟨partialPath_apart.2.1 _ _ hfirst, hcomponents rfl, _, _, hnote, hspelled,
    hplaces inbox _ _ _ hnote hspelled hgathered hgathered⟩

example : partialPath "in/./note/./" = .ok "in/note.part" := by decide

end Tftp
