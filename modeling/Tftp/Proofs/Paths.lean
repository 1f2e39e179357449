import Tftp.Proofs.Contents

namespace Tftp.Disk

/-- The same directories. Whatever becomes of files, a path is followed in the same way. -/
def SameTree (before after : Disk) : Prop :=
  ∀ place, after.isDirectory place = before.isDirectory place

theorem SameTree.refl (disk : Disk) : SameTree disk disk := fun _ => rfl

theorem SameTree.trans {first second third : Disk} (h : SameTree first second)
    (h' : SameTree second third) : SameTree first third :=
  fun place => (h' place).trans (h place)

theorem sameTree_of_nodes {before after : Disk} (h : after.nodes = before.nodes) :
    SameTree before after := by
  intro place
  have hn : after.node? place = before.node? place := by
    simp only [node?, h]
  simp only [isDirectory, hn]

theorem enter_ok_iff (disk : Disk) (place next : Place) (segment : String) :
    disk.enter place segment = .ok next ↔ disk.isDirectory place = true ∧
      (segment = "." ∧ next = place ∨ segment ≠ "." ∧ segment = ".." ∧ next = place.dropLast ∨
        segment ≠ "." ∧ segment ≠ ".." ∧ ¬maxName < segment.utf8ByteSize ∧
          (disk.node? (place ++ [segment])).isSome = true ∧ next = place ++ [segment]) := by
  rw [enter]
  cases hd : disk.isDirectory place with
  | false => simp
  | true =>
    by_cases hdot : segment = "."
    · simp [hdot, @eq_comm _ next]
    by_cases hup : segment = ".."
    · simp [hup, @eq_comm _ next]
    by_cases hlong : maxName < segment.utf8ByteSize
    · simp [hdot, hup, hlong]
    by_cases hsome : (disk.node? (place ++ [segment])).isSome = true
    · simp [hdot, hup, hlong, hsome, @eq_comm _ next]
    · simp [hdot, hup, hlong, hsome]

theorem isSome_of_isDirectory {disk : Disk} {place : Place} (h : disk.isDirectory place = true) :
    (disk.node? place).isSome = true := by
  rw [of_decide_eq_true h]
  rfl

variable {before after : Disk}

theorem enter_sameTree (h : SameTree before after) {place next : Place} {segment : String}
    (he : before.enter place segment = .ok next) (hn : before.isDirectory next = true) :
    after.enter place segment = .ok next := by
  obtain ⟨hplace, hcases⟩ := (enter_ok_iff before place next segment).mp he
  refine (enter_ok_iff after place next segment).mpr ⟨(h place).trans hplace, ?_⟩
  rcases hcases with hdot | hup | ⟨hdot, hup, hshort, -, rfl⟩
  · exact .inl hdot
  · exact .inr (.inl hup)
  · have hsome := isSome_of_isDirectory ((h (place ++ [segment])).trans hn)
    exact .inr (.inr ⟨hdot, hup, hshort, hsome, rfl⟩)

theorem isDirectory_of_walk {disk : Disk} {place last : Place} (steps : List String)
    (h : steps.foldlM disk.enter place = .ok last) (hl : disk.isDirectory last = true) :
    disk.isDirectory place = true := by
  cases steps with
  | nil =>
    cases h
    exact hl
  | cons step steps =>
    rw [List.foldlM_cons] at h
    cases he : disk.enter place step with
    | error fault =>
      rw [he] at h
      cases h
    | ok next => exact ((enter_ok_iff disk place next step).mp he).1

theorem walk_sameTree (h : SameTree before after) (steps : List String) {place last : Place}
    (hw : steps.foldlM before.enter place = .ok last) (hl : before.isDirectory last = true) :
    steps.foldlM after.enter place = .ok last := by
  induction steps generalizing place with
  | nil => exact hw
  | cons step steps ih =>
    rw [List.foldlM_cons] at hw ⊢
    cases he : before.enter place step with
    | error fault =>
      rw [he] at hw
      cases hw
    | ok next =>
      rw [he] at hw
      rw [enter_sameTree h he (isDirectory_of_walk steps hw hl)]
      exact ih hw

def steps (path : String) : List String :=
  (Path.parse path).segments.filter fun segment => segment ≠ ""

/-- What has to hold for a path to be followed. -/
structure Follows (disk : Disk) (path : String) (route : Route) : Prop where
  plain : path.toList.contains '\x00' = false
  nonempty : path.isEmpty = false
  short : ¬maxPath < path.utf8ByteSize
  walk : (steps path).dropLast.foldlM disk.enter [] = .ok route.parent
  directory : disk.isDirectory route.parent = true
  last : route.last = (steps path).getLast?
  slash : route.slash = decide ((Path.parse path).segments.getLast? = some "")

theorem route_ok_iff (disk : Disk) (path : String) (route : Route) :
    disk.route path = .ok route ↔ disk.Follows path route := by
  obtain ⟨parent, last, slash⟩ := route
  constructor
  · intro h
    simp only [Disk.route, bind, Except.bind, throw, throwThe, MonadExceptOf.throw, pure, Except.pure] at h
    split at h
    · cases h
    next hp =>
    split at h
    · cases h
    next hn =>
    split at h
    · cases h
    next hs =>
    split at h
    · cases h
    next place hw =>
    split at h
    · cases h
    next hd =>
    cases h
    exact ⟨by simpa using hp, by simpa using hn, hs, hw, by simpa using hd, rfl, rfl⟩
  · intro ⟨hp, hn, hs, hw, hd, hl, hsl⟩
    rw [steps] at hw
    simp only [Disk.route, bind, Except.bind, throw, throwThe, MonadExceptOf.throw, pure, Except.pure,
      hp, hn, if_neg hs, hw, hd]
    simp_all [steps]

theorem Follows.sameTree {path : String} {route : Route} (h : SameTree before after)
    (hr : before.Follows path route) : after.Follows path route :=
  ⟨hr.plain, hr.nonempty, hr.short, walk_sameTree h _ hr.walk hr.directory,
    (h route.parent).trans hr.directory, hr.last, hr.slash⟩

/-- The path ends in the ordinary name of something in a directory that is there, whether or not
that something is there too. -/
def Names (disk : Disk) (path : String) (place : Place) : Prop :=
  ∃ route, disk.Follows path route ∧ route.target? = some place ∧ route.slash = false ∧
    route.tooLong = false

theorem Names.sameTree {path : String} {place : Place} (h : SameTree before after)
    (hn : before.Names path place) : after.Names path place := by
  obtain ⟨route, hr, hrest⟩ := hn
  exact ⟨route, hr.sameTree h, hrest⟩

theorem target_eq_some {route : Route} {place : Place} (h : route.target? = some place) :
    ∃ name, route.last = some name ∧ name ≠ "." ∧ name ≠ ".." ∧ place = route.parent ++ [name] := by
  rw [Route.target?] at h
  split at h
  · next name hl =>
    split at h
    · cases h
    · next hne =>
      cases h
      simp only [Bool.or_eq_true, decide_eq_true_eq, not_or] at hne
      exact ⟨name, hl, hne.1, hne.2, rfl⟩
  · cases h

theorem Names.ne_nil {disk : Disk} {path : String} {place : Place} (h : disk.Names path place) :
    place ≠ [] := by
  obtain ⟨route, -, ht, -⟩ := h
  obtain ⟨name, -, -, -, rfl⟩ := target_eq_some ht
  simp

theorem find_eq {disk : Disk} {path : String} {place : Place} (h : disk.Names path place) :
    disk.find path =
      if (disk.node? place).isSome then .ok place
      else .error ⟨.notFound, "No such file or directory"⟩ := by
  obtain ⟨route, hr, ht, hs, hl⟩ := h
  obtain ⟨name, hlast, hdot, hup, rfl⟩ := target_eq_some ht
  have hshort : ¬maxName < name.utf8ByteSize := by
    simpa [Route.tooLong, hlast] using hl
  have he : disk.enter route.parent name =
      if (disk.node? (route.parent ++ [name])).isSome then .ok (route.parent ++ [name])
      else .error ⟨.notFound, "No such file or directory"⟩ := by
    rw [enter, hr.directory, if_neg hdot, if_neg hup, if_neg hshort]
    rfl
  simp only [find, (route_ok_iff disk path route).mpr hr, hlast, bind, Except.bind, he, hs]
  cases (disk.node? (route.parent ++ [name])).isSome <;> rfl

theorem pathExists_eq {disk : Disk} {path : String} {place : Place} (h : disk.Names path place) :
    disk.pathExists path = (disk.node? place).isSome := by
  rw [pathExists, find_eq h]
  cases (disk.node? place).isSome <;> rfl

theorem access_congr {before after : Disk} (h : after.barred = before.barred) (place : Place) :
    after.access place = before.access place := by
  rw [access, access, h]

theorem openRead_eq {disk : Disk} {path : String} {place : Place} {node : Node}
    (h : disk.Names path place) (ha : disk.access place = .ok ()) (hn : disk.node? place = some node) :
    disk.openRead path = .ok node := by
  simp only [openRead, find_eq h, ha, hn, Option.isSome_some, if_true, bind, Except.bind]
  rfl

theorem size_of_openRead {disk : Disk} {path : String} {node : Node}
    (h : disk.openRead path = .ok node) : disk.size path = .ok (disk.nodeSize node) := by
  simp only [openRead, size, bind, Except.bind] at h ⊢
  split at h
  · cases h
  split at h
  · cases h
  split at h
  · cases h
    rfl
  · cases h

theorem remove_eq {disk : Disk} {path : String} {place : Place} (h : disk.Names path place) :
    disk.remove path =
      match disk.node? place with
      | some (.file _) => disk.removeNode place
      | _ => disk := by
  rw [remove, find_eq h]
  cases hn : disk.node? place with
  | none => rfl
  | some node => cases node <;> simp [hn]

theorem slot_eq_ok {disk : Disk} {path : String} {special : Fault} {slot : Slot}
    (h : disk.slot path special = .ok slot) :
    ∃ place, disk.Names path place ∧
      slot = match disk.node? place with
        | none => .vacant place
        | some node => .taken place node := by
  simp only [Disk.slot, bind, Except.bind] at h
  split at h
  · cases h
  next route hr =>
  split at h
  · next place ht =>
    simp only [throw, throwThe, MonadExceptOf.throw, pure, Except.pure] at h
    split at h
    · cases h
    next hs =>
    split at h
    · cases h
    next hl =>
    refine ⟨place, ⟨route, (route_ok_iff disk path route).mp hr, ht, by simpa using hs, by simpa using hl⟩, ?_⟩
    cases hn : disk.node? place with
    | none =>
      rw [hn] at h
      cases h
      rfl
    | some node =>
      rw [hn] at h
      cases h
      rfl
  · cases h

theorem slot_of_names {disk : Disk} {path : String} {place : Place} (special : Fault)
    (h : disk.Names path place) :
    disk.slot path special = .ok (match disk.node? place with
      | none => .vacant place
      | some node => .taken place node) := by
  obtain ⟨route, hr, ht, hs, hl⟩ := h
  simp only [Disk.slot, (route_ok_iff disk path route).mpr hr, bind, Except.bind, ht, hs, hl,
    pure, Except.pure]
  cases disk.node? place <;> rfl

theorem createNew_eq {disk : Disk} {path : String} {place : Place} (h : disk.Names path place)
    (ha : disk.access place = .ok ()) (hn : disk.node? place = none) :
    disk.createNew path = .ok (disk.addFile place) := by
  simp only [createNew, slot_of_names _ h, ha, hn, bind, Except.bind]
  rfl

theorem rename_eq {disk : Disk} {old new : String} {origin place : Place} {node : Node}
    (ho : disk.Names old origin) (hp : disk.Names new place) (hn : disk.node? origin = some node)
    (hd : disk.isDirectory place = false) :
    disk.rename old new = .ok (disk.moveNode origin place node) := by
  obtain ⟨source, hs, hst, hss, hsl⟩ := ho
  obtain ⟨goal, hg, hgt, hgs, hgl⟩ := hp
  simp only [rename, (route_ok_iff disk old source).mpr hs, (route_ok_iff disk new goal).mpr hg, bind,
    Except.bind, hst, hgt, hn, hgl, hss, hgs, hd]
  rfl

theorem node?_addNode (disk : Disk) (place : Place) (node : Node) (p : Place) :
    (disk.addNode place node).node? p = (disk.node? p).or (if p = place then some node else none) := by
  rw [node?, node?, addNode]
  by_cases hnil : p = []
  · simp [hnil]
  · simp only [if_neg hnil, List.lookup_append, List.lookup_cons, List.lookup_nil]
    by_cases heq : p = place
    · simp [heq]
    · simp [heq, beq_false_of_ne heq]

theorem node?_addFile {disk : Disk} {place : Place} (h : disk.node? place = none) (p : Place) :
    (disk.addFile place).1.node? p =
      if p = place then some (.file disk.contents.size) else disk.node? p := by
  have hadd := node?_addNode disk place (.file disk.contents.size) p
  change (disk.addNode place (.file disk.contents.size)).node? p = _
  rw [hadd]
  by_cases heq : p = place
  · rw [heq, h]
    simp
  · simp [heq]

theorem node?_removeNode (disk : Disk) {place : Place} (hp : place ≠ []) (p : Place) :
    (disk.removeNode place).node? p = if p = place then none else disk.node? p := by
  have hl : ∀ nodes : List (Place × Node),
      (nodes.filter fun entry => entry.1 ≠ place).lookup p = if p = place then none else nodes.lookup p := by
    intro nodes
    induction nodes with
    | nil => simp
    | cons entry nodes ih =>
      obtain ⟨q, node⟩ := entry
      by_cases hq : q = place
      · subst hq
        rw [List.filter_cons, if_neg (by simp), ih, List.lookup_cons]
        by_cases heq : p = q
        · simp [heq]
        · simp [heq, beq_false_of_ne heq]
      · rw [List.filter_cons, if_pos (by simp [hq]), List.lookup_cons, List.lookup_cons, ih]
        by_cases heq : p = q
        · simp [heq, hq]
        · simp only [beq_false_of_ne heq]
  rw [node?, node?, removeNode]
  by_cases hnil : p = []
  · subst hnil
    simp [Ne.symm hp]
  · simp only [if_neg hnil]
    exact hl disk.nodes

theorem node?_moveNode (disk : Disk) {origin place : Place} (ho : origin ≠ []) (hp : place ≠ []) (node : Node)
    (p : Place) : (disk.moveNode origin place node).node? p =
      if p = place then some node else if p = origin then none else disk.node? p := by
  have hadd := node?_addNode ((disk.removeNode origin).removeNode place) place node p
  have hmove : (disk.moveNode origin place node).node? p =
    (((disk.removeNode origin).removeNode place).addNode place node).node? p := rfl
  rw [hmove, hadd, node?_removeNode _ hp, node?_removeNode _ ho]
  by_cases heq : p = place
  · rw [if_pos heq, if_pos heq, if_pos heq]
    rfl
  · rw [if_neg heq, if_neg heq, if_neg heq, Option.or_none]

theorem access_moveNode {disk : Disk} {origin : Place} (place : Place) (node : Node)
    (h : disk.access origin = .ok ()) : (disk.moveNode origin place node).access place = .ok () := by
  have horigin : disk.barred.lookup origin = none := by
    rw [access] at h
    split at h
    · cases h
    · assumption
  have hplace : (disk.barred.filter fun entry => entry.1 ≠ origin && entry.1 ≠ place).lookup place = none := by
    refine List.lookup_eq_none_iff.mpr fun entry hmem => ?_
    have hne := (List.mem_filter.mp hmem).2
    simp only [ne_eq, Bool.and_eq_true, decide_eq_true_eq] at hne
    exact bne_iff_ne.mpr (Ne.symm hne.2)
  rw [access, moveNode]
  simp only [horigin, Option.map_none, Option.toList_none, List.nil_append]
  rw [hplace]

theorem content_addFile (disk : Disk) (place : Place) (k : FileId) :
    (disk.addFile place).1.content k = disk.content k := by
  simp only [addFile, addNode, content, Array.getD_eq_getD_getElem?, Array.getElem?_push]
  split
  · next heq => simp [heq]
  · rfl

theorem sameTree_addFile {disk : Disk} {place : Place} (h : disk.node? place = none) :
    SameTree disk (disk.addFile place).1 := by
  intro p
  simp only [isDirectory, node?_addFile h p]
  by_cases heq : p = place
  · simp [heq, h]
  · simp [heq]

theorem sameTree_removeNode {disk : Disk} {place : Place} (h : disk.isDirectory place = false) :
    SameTree disk (disk.removeNode place) := by
  have hp : place ≠ [] := by
    rintro rfl
    cases h
  intro p
  by_cases heq : p = place
  · rw [heq, h, isDirectory, node?_removeNode disk hp, if_pos rfl]
    rfl
  · simp only [isDirectory, node?_removeNode disk hp, if_neg heq]

theorem sameTree_addNode {disk : Disk} {place : Place} (h : disk.node? place = none) (id : FileId) :
    SameTree disk (disk.addNode place (.file id)) := by
  intro p
  simp only [isDirectory, node?_addNode]
  by_cases heq : p = place
  · simp [heq, h]
  · simp [heq]

/-- Every name of a file stands for one that is there. -/
def Sound (disk : Disk) : Prop :=
  ∀ place id, disk.node? place = some (.file id) → id < disk.contents.size

structure Made (before after : Disk) (place : Place) (id : FileId) : Prop where
  node : after.node? place = some (.file id)
  accessible : after.access place = .ok ()
  valid : id < after.contents.size
  empty : after.content id = #[]
  tree : SameTree before after
  outlook : after.outlook = before.outlook

theorem made_addFile {disk : Disk} {place : Place} (ha : disk.access place = .ok ())
    (h : disk.node? place = none) : Made disk (disk.addFile place).1 place disk.contents.size := by
  refine ⟨?_, ha, ?_, ?_, sameTree_addFile h, rfl⟩
  · rw [node?_addFile h, if_pos rfl]
  · simp [addFile, addNode]
  · rw [content_addFile]
    simp [content]

theorem made_truncate {disk : Disk} {place : Place} {id : FileId} (hs : disk.Sound)
    (ha : disk.access place = .ok ()) (h : disk.node? place = some (.file id)) :
    Made disk (disk.truncate id) place id := by
  have hvalid := hs place id h
  refine ⟨h, ha, ?_, content_truncate disk id hvalid, sameTree_of_nodes rfl, rfl⟩
  simpa [truncate] using hvalid

theorem access_ok {α : Type} {disk : Disk} {place : Place} {made next : α}
    (h : (disk.access place).bind (fun _ => .ok made) = .ok next) : disk.access place = .ok () ∧ made = next := by
  cases ha : disk.access place with
  | error fault =>
    rw [ha] at h
    cases h
  | ok done =>
    rw [ha] at h
    cases h
    exact ⟨rfl, rfl⟩

theorem create_cases {disk : Disk} {path : String} {made : Disk × FileId} (h : disk.create path = .ok made) :
    ∃ place, disk.Names path place ∧ disk.access place = .ok () ∧
      (disk.node? place = none ∧ made = disk.addFile place ∨
        ∃ id, disk.node? place = some (.file id) ∧ made = (disk.truncate id, id)) := by
  simp only [create, bind, Except.bind] at h
  split at h
  · cases h
  next slot hslot =>
  obtain ⟨place, hname, hcases⟩ := slot_eq_ok hslot
  refine ⟨place, hname, ?_⟩
  cases hn : disk.node? place with
  | none =>
    rw [hn] at hcases
    subst hcases
    dsimp only at h
    obtain ⟨ha, hmade⟩ := access_ok h
    cases hmade
    exact ⟨ha, .inl ⟨rfl, rfl⟩⟩
  | some node =>
    rw [hn] at hcases
    subst hcases
    cases node with
    | directory => cases h
    | file k =>
      dsimp only at h
      obtain ⟨ha, hmade⟩ := access_ok h
      cases hmade
      exact ⟨ha, .inr ⟨k, rfl, rfl⟩⟩

theorem create_ok {disk disk' : Disk} {path : String} {id : FileId} (hs : disk.Sound)
    (h : disk.create path = .ok (disk', id)) :
    ∃ place, disk.Names path place ∧ Made disk disk' place id := by
  obtain ⟨place, hname, ha, ⟨hn, hmade⟩ | ⟨k, hn, hmade⟩⟩ := create_cases h
  · cases hmade
    exact ⟨place, hname, made_addFile ha hn⟩
  · cases hmade
    exact ⟨place, hname, made_truncate hs ha hn⟩

theorem rename_moves {disk : Disk} {old new : String} {origin place : Place} {id : FileId}
    (ho : disk.Names old origin) (hp : disk.Names new place) (hne : origin ≠ place)
    (ha : disk.access origin = .ok ()) (hn : disk.node? origin = some (.file id))
    (hd : disk.isDirectory place = false) :
    ∃ disk', disk.rename old new = .ok disk' ∧ disk'.openRead new = .ok (.file id) ∧
      disk'.pathExists old = false ∧ disk'.contents = disk.contents := by
  have hfile : disk.isDirectory origin = false := by
    rw [isDirectory, hn]
    rfl
  have hfirst := sameTree_removeNode hfile
  have hsecond := sameTree_removeNode ((hfirst place).trans hd)
  have hfree : ((disk.removeNode origin).removeNode place).node? place = none := by
    rw [node?_removeNode _ hp.ne_nil, if_pos rfl]
  have htree : SameTree disk (disk.moveNode origin place (.file id)) :=
    (hfirst.trans hsecond).trans (sameTree_addNode hfree id)
  refine ⟨_, rename_eq ho hp hn hd, openRead_eq (hp.sameTree htree) (access_moveNode place (.file id) ha) ?_, ?_, rfl⟩
  · rw [node?_moveNode disk ho.ne_nil hp.ne_nil, if_pos rfl]
  · rw [pathExists_eq (ho.sameTree htree), node?_moveNode disk ho.ne_nil hp.ne_nil, if_neg hne, if_pos rfl]
    rfl

theorem rename_ok {disk renamed : Disk} {old new : String} {origin : Place} {node : Node}
    (ho : disk.Names old origin) (hn : disk.node? origin = some node) (h : disk.rename old new = .ok renamed) :
    ∃ place, disk.Names new place ∧ disk.isDirectory place = false ∧
      renamed = disk.moveNode origin place node := by
  obtain ⟨source, hs, hst, hss, hsl⟩ := ho
  simp only [rename, (route_ok_iff disk old source).mpr hs, bind, Except.bind, hst, hn, hss, throw, throwThe,
    MonadExceptOf.throw, pure, Except.pure] at h
  split at h
  · cases h
  next goal hg =>
  split at h
  · next place hp =>
    split at h
    · cases h
    next hlong =>
    split at h
    · cases h
    next hslash =>
    split at h
    · cases h
    next hfree =>
    cases h
    refine ⟨place, ⟨goal, (route_ok_iff disk new goal).mp hg, hp, ?_, ?_⟩, ?_, rfl⟩
    · simpa using hslash
    · simpa using hlong
    · simpa using hfree
  · cases h

end Tftp.Disk
