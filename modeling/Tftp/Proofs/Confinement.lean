import Tftp.Server.Confine
import Mathlib.Data.List.TakeWhile

namespace Tftp

theorem relativeName_head (requested : String) : (relativeName requested).toList.head? ≠ some '/' := by
  rw [relativeName, String.toList_ofList]
  intro hslash
  have hhead := List.head?_dropWhile_not (fun c => decide (c = '/')) requested.toList
  rw [hslash] at hhead
  exact absurd hhead (by decide)

theorem relativeName_unrooted (requested : String) :
    (relativeName requested).startsWith "/" = false := by
  rw [← Bool.not_eq_true, String.startsWith_string_iff]
  rintro ⟨rest, hrest⟩
  exact relativeName_head requested (congrArg List.head? hrest.symm)

theorem confine_below {root requested : String} (hroot : root.endsWith "/" = false)
    (hempty : relativeName requested ≠ "")
    (hup : (Path.parse (relativeName requested)).components.contains .up = false) :
    confine root requested = .ok
      (if root.isEmpty then root ++ relativeName requested else root ++ "/" ++ relativeName requested) := by
  simp only [confine, if_neg hempty, hup, Path.join, relativeName_unrooted, hroot, Bool.or_false,
    Bool.false_eq_true, if_false]

namespace Path

theorem splitChars_eq (cs : List Char) : splitChars cs = cs.splitOn '/' := by
  induction cs with
  | nil => rfl
  | cons c cs ih =>
    rw [splitChars, List.splitOn_cons_eq_if_modifyHead, ih]
    by_cases hc : c = '/'
    · rw [if_pos hc, if_pos (beq_iff_eq.mpr hc)]
    · rw [if_neg hc, if_neg (fun h => hc (beq_iff_eq.mp h))]
      cases hs : cs.splitOn '/' with
      | nil => exact absurd hs (List.splitOn_ne_nil '/' cs)
      | cons segment segments => rfl

theorem componentOf?_up {segment : String} : componentOf? segment = some .up ↔ segment = ".." := by
  rw [componentOf?]
  split
  · next hidle =>
    refine ⟨nofun, ?_⟩
    rintro rfl
    exact absurd hidle (by decide)
  split
  · next hup => exact ⟨fun _ => hup, fun _ => rfl⟩
  · next hup => exact ⟨nofun, fun h => absurd h hup⟩

theorem up_mem_components {path : Path} : .up ∈ path.components ↔ ".." ∈ path.segments := by
  have hopening : .up ∉ path.opening := by
    rw [opening]
    split
    · simp
    split <;> simp
  simp only [components, List.mem_append, hopening, false_or, List.mem_filterMap, componentOf?_up,
    exists_eq_right]

theorem parse_unrooted {s : String} (h : s.toList.head? ≠ some '/') :
    parse s = { rooted := false, segments := segmentsOf s.toList } := by
  rw [parse]
  split
  · next cs hcs =>
    rw [hcs] at h
    exact absurd rfl h
  · rfl

theorem mem_splitOn_dropWhile {segment : List Char} (h : segment ≠ []) (cs : List Char) :
    segment ∈ (cs.dropWhile fun c => decide (c = '/')).splitOn '/' ↔ segment ∈ cs.splitOn '/' := by
  induction cs with
  | nil => rfl
  | cons c cs ih =>
    rw [List.dropWhile_cons]
    by_cases hc : c = '/'
    · rw [if_pos (decide_eq_true hc), ih, List.splitOn_cons_eq_if_modifyHead, if_pos (beq_iff_eq.mpr hc),
        List.mem_cons, or_iff_right h]
    · rw [if_neg fun h => hc (of_decide_eq_true h)]

end Path

/-- A name that is empty, or made of slashes alone. -/
def Nameless (requested : String) : Prop :=
  ∀ c ∈ requested.toList, c = '/'

/-- A name with a component `..`. -/
def Climbs (requested : String) : Prop :=
  ['.', '.'] ∈ requested.toList.splitOn '/'

instance (requested : String) : Decidable (Nameless requested) :=
  inferInstanceAs (Decidable (∀ c ∈ requested.toList, c = '/'))

instance (requested : String) : Decidable (Climbs requested) :=
  inferInstanceAs (Decidable (['.', '.'] ∈ requested.toList.splitOn '/'))

theorem relativeName_empty_iff {requested : String} : relativeName requested = "" ↔ Nameless requested := by
  rw [relativeName, ← String.toList_inj, String.toList_ofList]
  refine List.dropWhile_eq_nil_iff.trans ?_
  simp only [Nameless, decide_eq_true_eq]

theorem relativeName_up_iff {requested : String} :
    (Path.parse (relativeName requested)).components.contains .up = true ↔ Climbs requested := by
  rw [List.contains_iff_mem, Path.up_mem_components, Path.parse_unrooted (relativeName_head requested)]
  simp only [Path.segmentsOf, Path.splitChars_eq, List.mem_map, relativeName, String.toList_ofList]
  constructor
  · rintro ⟨segment, hmem, hup⟩
    have hsegment : segment = ['.', '.'] := by
      rw [← String.toList_ofList (l := segment), hup]
      rfl
    rw [hsegment] at hmem
    exact (Path.mem_splitOn_dropWhile (List.cons_ne_nil _ _) _).mp hmem
  · intro hclimbs
    exact ⟨['.', '.'], (Path.mem_splitOn_dropWhile (List.cons_ne_nil _ _) _).mpr hclimbs, rfl⟩

theorem Climbs.named {requested : String} (h : Climbs requested) : ¬Nameless requested := by
  intro hnameless
  have hup := relativeName_up_iff.mpr h
  rw [relativeName_empty_iff.mpr hnameless] at hup
  exact absurd hup (by decide)

variable (root : String) {requested : String}

theorem confine_nameless (h : Nameless requested) :
    confine root requested = .error (.badRequest "Empty file name") := by
  simp only [confine, if_pos (relativeName_empty_iff.mpr h)]

theorem confine_climbing (h : Climbs requested) : confine root requested =
    .error (.forbidden ("Refusing path outside of the server root: \"" ++ requested ++ "\"")) := by
  simp only [confine, if_neg (mt relativeName_empty_iff.mp h.named), if_pos (relativeName_up_iff.mpr h)]

theorem confine_named (hn : ¬Nameless requested) (hc : ¬Climbs requested) :
    confine root requested = .ok (Path.join root (relativeName requested)) := by
  simp only [confine, if_neg (mt relativeName_empty_iff.mp hn), if_neg (mt relativeName_up_iff.mp hc)]

end Tftp
