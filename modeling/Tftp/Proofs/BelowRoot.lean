import Tftp.Proofs.Confinement
import Tftp.Proofs.Segments

namespace Tftp

namespace Path

def walk (path : Path) : List Component :=
  path.components.filter fun component => component ≠ .here

/-- Goes on from a place by the name alone: `..` gives up the name before it. At the top it leads nowhere. -/
def follow (place : List Component) : Component → List Component
  | .top => [.top]
  | .here => place
  | .up =>
    match place.getLast? with
    | some (.name _) => place.dropLast
    | some .top => place
    | _ => place ++ [.up]
  | .name s => place ++ [.name s]

/-- Where a path leads if nothing on the way is a link. -/
def lexical (path : Path) : List Component :=
  path.components.foldl follow []

def namesIn (text : String) : List String :=
  ((text.toList.splitOn '/').map String.ofList).filter fun segment => !idle segment

theorem componentOf?_idle {segment : String} (h : idle segment = true) : componentOf? segment = none :=
  if_pos h

theorem componentOf?_ne_here (segment : String) : componentOf? segment ≠ some .here := by
  rw [componentOf?]
  split
  · exact fun h => by cases h
  split <;> exact fun h => by cases h

theorem walk_eq (path : Path) :
    path.walk = (if path.rooted then [.top] else []) ++ path.segments.filterMap componentOf? := by
  have hopening : path.opening.filter (fun component => component ≠ .here) =
      if path.rooted then [.top] else [] := by
    rw [opening]
    split
    · rfl
    split <;> rfl
  have hsegments : (path.segments.filterMap componentOf?).filter (fun component => component ≠ .here) =
      path.segments.filterMap componentOf? := by
    refine List.filter_eq_self.mpr fun component hc => ?_
    obtain ⟨segment, -, hs⟩ := List.mem_filterMap.mp hc
    refine decide_eq_true fun hhere => componentOf?_ne_here segment ?_
    rw [hs, hhere]
  rw [walk, components, List.filter_append, hopening, hsegments]

theorem lexical_eq (path : Path) : path.lexical = path.walk.foldl follow [] := by
  have hskip : ∀ (components : List Component) (place : List Component),
      components.foldl follow place =
        (components.filter fun component => component ≠ .here).foldl follow place := by
    intro components
    induction components with
    | nil => exact fun _ => rfl
    | cons component components ih =>
      intro place
      cases component <;> exact ih _
  exact hskip path.components []

theorem foldl_follow_names (names : List String) (place : List Component) :
    (names.map Component.name).foldl follow place = place ++ names.map Component.name := by
  induction names generalizing place with
  | nil => exact (List.append_nil place).symm
  | cons name names ih => rw [List.map_cons, List.foldl_cons, ih, follow, ← List.append_cons]

def componentsOf (cs : List Char) : List Component :=
  (segmentsOf cs).filterMap componentOf?

theorem componentsOf_nil : componentsOf [] = [] := rfl

theorem componentsOf_slash (cs ds : List Char) :
    componentsOf (cs ++ '/' :: ds) = componentsOf cs ++ componentsOf ds := by
  rw [componentsOf, segmentsOf, splitChars_slash, List.map_append, List.filterMap_append]
  rfl

theorem componentsOf_cons (cs : List Char) : componentsOf ('/' :: cs) = componentsOf cs :=
  componentsOf_slash [] cs

theorem componentsOf_dropWhile (cs : List Char) :
    componentsOf (cs.dropWhile fun c => decide (c = '/')) = componentsOf cs := by
  induction cs with
  | nil => rfl
  | cons c cs ih =>
    rw [List.dropWhile_cons]
    by_cases hc : c = '/'
    · rw [if_pos (decide_eq_true hc), ih, hc, componentsOf_cons]
    · rw [if_neg fun h => hc (of_decide_eq_true h)]

theorem walk_parse (s : String) :
    (parse s).walk = (if s.toList.head? = some '/' then [.top] else []) ++ componentsOf s.toList := by
  rw [walk_eq, parse]
  split
  · next cs hs =>
    rw [hs, componentsOf_cons]
    rfl
  · next hs =>
    have hhead : ¬s.toList.head? = some '/' := fun hhead => by
      obtain ⟨cs, hcs⟩ := List.head?_eq_some_iff.mp hhead
      exact hs cs hcs
    rw [if_neg Bool.false_ne_true, if_neg hhead]
    rfl

theorem componentsOf_names {s : String} (h : ¬Climbs s) :
    componentsOf s.toList = (namesIn s).map Component.name := by
  have hnames : ∀ segments : List String, ".." ∉ segments →
      segments.filterMap componentOf? = (segments.filter fun segment => !idle segment).map Component.name := by
    intro segments hup
    induction segments with
    | nil => rfl
    | cons segment segments ih =>
      obtain ⟨hsegment, hrest⟩ := not_or.mp (mt List.mem_cons.mpr hup)
      rw [List.filterMap_cons, List.filter_cons, ih hrest]
      cases hidle : idle segment with
      | true => rw [componentOf?_idle hidle, Bool.not_true, if_neg Bool.false_ne_true]
      | false =>
        have hname : componentOf? segment = some (.name segment) := by
          rw [componentOf?, hidle, if_neg Bool.false_ne_true, if_neg (Ne.symm hsegment)]
        rw [hname, Bool.not_false, if_pos rfl, List.map_cons]
  rw [componentsOf, segmentsOf, splitChars_eq]
  refine hnames _ fun hup => h ?_
  obtain ⟨cs, hcs, hs⟩ := List.mem_map.mp hup
  rw [Climbs, show ['.', '.'] = cs by rw [← String.toList_ofList (l := cs), hs]; rfl]
  exact hcs

theorem walk_join {root relative : String} (hr : relative.toList.head? ≠ some '/')
    (hs : relative.startsWith "/" = false) :
    (parse (join root relative)).walk = (parse root).walk ++ componentsOf relative.toList := by
  by_cases hempty : root = ""
  · have hjoin : join root relative = relative := by simp [join, hs, hempty]
    rw [hjoin, walk_parse, hempty, if_neg hr]
    rfl
  obtain ⟨c, cs, hcs⟩ := List.exists_cons_of_ne_nil fun h => hempty (String.toList_inj.mp h)
  have hhead : ∀ more, (root.toList ++ more).head? = root.toList.head? := fun more => by
    rw [hcs, List.cons_append, List.head?_cons, List.head?_cons]
  rw [walk_parse, walk_parse, join, hs, if_neg Bool.false_ne_true]
  split
  · next hend =>
    -- the slash at the end of the root parts the two
    have hslash : root.endsWith "/" = true :=
      (Bool.or_eq_true_iff.mp hend).resolve_left fun h => hempty (String.isEmpty_iff.mp h)
    rw [String.endsWith_eq_endsWith_toSlice, String.Slice.endsWith_string_iff, String.copy_toSlice] at hslash
    obtain ⟨front, hfront⟩ := hslash
    have hroot : root.toList = front ++ '/' :: [] := hfront.symm
    have hfile : componentsOf (root.toList ++ relative.toList) =
        componentsOf root.toList ++ componentsOf relative.toList := by
      rw [hroot, List.append_assoc, List.cons_append, List.nil_append, componentsOf_slash, componentsOf_slash,
        componentsOf_nil, List.append_nil]
    rw [String.toList_append, hhead, hfile, List.append_assoc]
  · have hfile : componentsOf (root.toList ++ '/' :: relative.toList) =
        componentsOf root.toList ++ componentsOf relative.toList := componentsOf_slash _ _
    rw [String.toList_append, String.toList_append, List.append_assoc, hhead, List.append_assoc, ← hfile]
    rfl

end Path

/-- A file below the root, as the requested name says. -/
structure Below (root requested file : String) : Prop where
  joined : ∃ (slashes : Nat) (name : String), requested.toList = List.replicate slashes '/' ++ name.toList ∧
    name.toList.head? ≠ some '/' ∧ file = Path.join root name
  ordinary : ∀ name ∈ Path.namesIn requested, name ≠ "" ∧ name ≠ "." ∧ name ≠ ".." ∧ '/' ∉ name.toList
  walk : (Path.parse file).walk = (Path.parse root).walk ++ (Path.namesIn requested).map .name
  /-- Going by names alone, the way stays below the place that the root leads to. -/
  lexical : (Path.parse file).lexical = (Path.parse root).lexical ++ (Path.namesIn requested).map .name

theorem relativeName_strips (requested : String) :
    ∃ slashes, requested.toList = List.replicate slashes '/' ++ (relativeName requested).toList := by
  let front := requested.toList.takeWhile fun c => decide (c = '/')
  have hfront : front = List.replicate front.length '/' := by
    refine List.eq_replicate_iff.mpr ⟨rfl, fun c hc => ?_⟩
    have hslash := List.mem_takeWhile_imp hc
    exact of_decide_eq_true hslash
  refine ⟨front.length, ?_⟩
  rw [← hfront, relativeName, String.toList_ofList, List.takeWhile_append_dropWhile]

theorem namesIn_ordinary {requested name : String} (hc : ¬Climbs requested)
    (hn : name ∈ Path.namesIn requested) : name ≠ "" ∧ name ≠ "." ∧ name ≠ ".." ∧ '/' ∉ name.toList := by
  obtain ⟨hsegment, hidle⟩ := List.mem_filter.mp hn
  obtain ⟨cs, hcs, rfl⟩ := List.mem_map.mp hsegment
  rw [Bool.not_eq_true', Path.idle, Bool.or_eq_false_iff] at hidle
  refine ⟨of_decide_eq_false hidle.1, of_decide_eq_false hidle.2, fun hup => hc ?_, ?_⟩
  · rw [Climbs, show ['.', '.'] = cs by rw [← String.toList_ofList (l := cs), hup]; rfl]
    exact hcs
  · rw [String.toList_ofList]
    exact Path.notMem_of_mem_splitChars requested.toList cs (Path.splitChars_eq _ ▸ hcs)

theorem below_join (root : String) {requested : String} (hc : ¬Climbs requested) :
    Below root requested (Path.join root (relativeName requested)) := by
  obtain ⟨slashes, hslashes⟩ := relativeName_strips requested
  have hhead := relativeName_head requested
  have hnames : Path.componentsOf (relativeName requested).toList = (Path.namesIn requested).map .name := by
    rw [relativeName, String.toList_ofList, Path.componentsOf_dropWhile, Path.componentsOf_names hc]
  have hwalk : (Path.parse (Path.join root (relativeName requested))).walk = (Path.parse root).walk ++
      Path.componentsOf (relativeName requested).toList := Path.walk_join hhead (relativeName_unrooted requested)
  rw [hnames] at hwalk
  refine ⟨⟨slashes, _, hslashes, hhead, rfl⟩, fun name hn => namesIn_ordinary hc hn, hwalk, ?_⟩
  rw [Path.lexical_eq, Path.lexical_eq, hwalk, List.foldl_append, Path.foldl_follow_names]

/-- A requested name is refused if it is nameless, forbidden if it climbs, and otherwise stays below the root. -/
theorem confine_stays_below (root requested : String) :
    ((∃ detail, confine root requested = .error (.badRequest detail)) ↔ Nameless requested) ∧
      ((∃ detail, confine root requested = .error (.forbidden detail)) ↔ Climbs requested) ∧
      ((∃ file, confine root requested = .ok file ∧ Below root requested file) ↔
        ¬Nameless requested ∧ ¬Climbs requested) := by
  by_cases hn : Nameless requested
  · have hc : ¬Climbs requested := fun hc => hc.named hn
    simp [confine_nameless root hn, hn, hc]
  by_cases hc : Climbs requested
  · simp [confine_climbing root hc, hn, hc]
  · simp [confine_named root hn hc, hn, hc, below_join root hc]

example : (Path.parse "/srv/../srv/..x/.../note").lexical =
    [.top, .name "srv", .name "..x", .name "...", .name "note"] := by decide +kernel

end Tftp
