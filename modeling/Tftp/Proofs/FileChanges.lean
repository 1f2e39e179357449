import Tftp.Proofs.Frame
import Tftp.Proofs.Paths

namespace Tftp.Disk

structure SameFile (id : FileId) (before after : Disk) : Prop where
  names : ∀ place, after.node? place = some (.file id) ↔ before.node? place = some (.file id)
  content : after.content id = before.content id

theorem SameFile.refl (id : FileId) (disk : Disk) : SameFile id disk disk :=
  ⟨fun _ => Iff.rfl, rfl⟩

theorem SameFile.trans {id : FileId} {first second third : Disk} (h : SameFile id first second)
    (h' : SameFile id second third) : SameFile id first third :=
  ⟨fun place => (h'.names place).trans (h.names place), h'.content.trans h.content⟩

/-- At most one file has been made, written or taken away. -/
structure Changes (own : Option FileId) (before after : Disk) : Prop where
  tree : SameTree before after
  barred : after.barred = before.barred
  grown : before.contents.size ≤ after.contents.size
  others : ∀ id, id < before.contents.size → own ≠ some id → SameFile id before after
  idle : own = none → after = before
  named : ∀ place id, after.node? place = some (.file id) →
    before.node? place = some (.file id) ∨ own = some id
  valid : ∀ id, own = some id → id < after.contents.size

variable {before after disk : Disk} {own : Option FileId} {id : FileId} {place : Place}

theorem Changes.refl (disk : Disk) (own : Option FileId) (h : ∀ id, own = some id → id < disk.contents.size) :
    Changes own disk disk :=
  ⟨SameTree.refl disk, rfl, Nat.le_refl _, fun id _ _ => SameFile.refl id disk, fun _ => rfl,
    fun _ _ hn => .inl hn, h⟩

theorem Changes.sound (h : Changes own before after) (hs : before.Sound) : after.Sound := by
  intro place id hn
  rcases h.named place id hn with hn | rfl
  · exact Nat.lt_of_lt_of_le (hs place id hn) h.grown
  · exact h.valid id rfl

theorem Changes.of_keptBut (h : KeptBut id before after) (hi : id < before.contents.size) :
    Changes (some id) before after := by
  have hn : ∀ place, after.node? place = before.node? place := fun place => by
    simp only [node?, h.nodes]
  refine ⟨sameTree_of_nodes h.nodes, h.barred, Nat.le_of_eq h.size.symm, fun k _ hk => ⟨fun place => ?_, ?_⟩,
    (fun hi => by cases hi), fun place k hk => .inl ?_, fun k hk => ?_⟩
  · rw [hn]
  · exact h.others k fun he => hk (congrArg some he.symm)
  · rw [← hn]
    exact hk
  · cases hk
    rw [h.size]
    exact hi

theorem node?_addFile_new (hs : disk.Sound) (hn : disk.node? place = none) (p : Place) :
    (disk.addFile place).1.node? p = some (.file disk.contents.size) ↔ p = place := by
  rw [node?_addFile hn]
  by_cases hp : p = place
  · simp [hp]
  · rw [if_neg hp]
    refine ⟨fun h => ?_, fun h => absurd h hp⟩
    exact absurd (hs p _ h) (Nat.lt_irrefl _)

theorem Changes.of_addFile (hn : disk.node? place = none) :
    Changes (some disk.contents.size) disk (disk.addFile place).1 := by
  refine ⟨sameTree_addFile hn, rfl, ?_, fun k hk _ => ⟨fun p => ?_, content_addFile disk place k⟩,
    (fun hi => by cases hi), fun p k hp => ?_, fun k hk => ?_⟩
  · simp [addFile, addNode]
  · rw [node?_addFile hn]
    by_cases hp : p = place
    · rw [if_pos hp, hp, hn]
      simp [Nat.ne_of_gt hk]
    · rw [if_neg hp]
  · rw [node?_addFile hn] at hp
    split at hp
    · cases hp
      exact .inr rfl
    · exact .inl hp
  · cases hk
    simp [addFile, addNode]

theorem Changes.of_removeNode (hn : disk.node? place = some (.file id)) (hi : id < disk.contents.size) :
    Changes (some id) disk (disk.removeNode place) := by
  have hfile : disk.isDirectory place = false := by
    rw [isDirectory, hn]
    rfl
  have hp : place ≠ [] := by
    rintro rfl
    cases hn
  refine ⟨sameTree_removeNode hfile, rfl, Nat.le_refl _, fun k _ hk => ⟨fun p => ?_, rfl⟩, (fun hi => by cases hi),
    fun p k hpk => .inl ?_, fun k hk => ?_⟩
  · rw [node?_removeNode disk hp]
    by_cases heq : p = place
    · rw [if_pos heq, heq, hn]
      refine ⟨fun h => ?_, fun h => ?_⟩
      · cases h
      · cases h
        exact absurd rfl hk
    · rw [if_neg heq]
  · rw [node?_removeNode disk hp] at hpk
    split at hpk
    · cases hpk
    · exact hpk
  · cases hk
    exact hi

theorem Made.stores {made : Disk} (h : Made disk made place id) : (Sink.file id 0).Stores made [] :=
  ⟨h.valid, by rw [h.empty], rfl⟩

theorem Made.holds {made : Disk} (h : Made disk made place id) (hc : disk.Calm) :
    (Sink.file id 0).Holds made [] :=
  ⟨h.stores, fun mishap hm => hc mishap (h.outlook ▸ hm)⟩

theorem createNew_ok {path : String} {made : Disk × FileId} (h : disk.createNew path = .ok made) :
    ∃ place, disk.Names path place ∧ disk.access place = .ok () ∧ disk.node? place = none ∧
      made = disk.addFile place := by
  simp only [createNew, bind, Except.bind] at h
  split at h
  · cases h
  next slot hslot =>
  obtain ⟨place, hname, hcases⟩ := slot_eq_ok hslot
  refine ⟨place, hname, ?_⟩
  cases hn : disk.node? place with
  | none =>
    rw [hn] at hcases
    subst hcases
    dsimp only at h
    obtain ⟨ha, hmade⟩ := access_ok h
    exact ⟨ha, rfl, hmade.symm⟩
  | some node =>
    rw [hn] at hcases
    subst hcases
    cases h

theorem remove_named {path : String} (h : disk.Names path place)
    (hn : ∀ p, disk.node? p = some (.file id) ↔ p = place) :
    disk.remove path = disk.removeNode place ∧ ∀ p, (disk.removeNode place).node? p ≠ some (.file id) := by
  constructor
  · rw [remove_eq h, (hn place).mpr rfl]
  · intro p hp
    rw [node?_removeNode disk h.ne_nil] at hp
    split at hp
    · cases hp
    · next hne => exact hne ((hn p).mp hp)

structure SameBut (place : Place) (id : FileId) (before after : Disk) : Prop where
  nodes : ∀ p, p ≠ place → after.node? p = before.node? p
  contents : ∀ k, k ≠ id → after.content k = before.content k

theorem SameBut.trans {first second third : Disk} (h : SameBut place id first second)
    (h' : SameBut place id second third) : SameBut place id first third :=
  ⟨fun p hp => (h'.nodes p hp).trans (h.nodes p hp), fun k hk => (h'.contents k hk).trans (h.contents k hk)⟩

theorem SameBut.of_keptBut (h : KeptBut id before after) (place : Place) : SameBut place id before after :=
  ⟨fun p _ => by simp only [node?, h.nodes], h.others⟩

theorem SameBut.of_removeNode (disk : Disk) (id : FileId) (hp : place ≠ []) :
    SameBut place id disk (disk.removeNode place) :=
  ⟨fun p hne => by rw [node?_removeNode disk hp, if_neg hne], fun _ _ => rfl⟩

theorem create_made {path : String} {made : Disk} (hs : disk.Sound) (h : disk.create path = .ok (made, id)) :
    ∃ place, disk.Names path place ∧ Made disk made place id ∧ SameBut place id disk made ∧
      (disk.node? place = some (.file id) ∨ ∀ p, disk.node? p ≠ some (.file id)) := by
  obtain ⟨place, hname, ha, ⟨hn, hmade⟩ | ⟨k, hn, hmade⟩⟩ := create_cases h
  · obtain ⟨rfl, rfl⟩ := Prod.mk.inj hmade
    refine ⟨place, hname, made_addFile ha hn, ⟨fun p hp => ?_, fun k _ => content_addFile disk place k⟩,
      .inr fun p hp => ?_⟩
    · exact (node?_addFile hn p).trans (if_neg hp)
    · exact absurd (hs p _ hp) (Nat.lt_irrefl _)
  · cases hmade
    exact ⟨place, hname, made_truncate hs ha hn,
      ⟨fun _ _ => rfl, fun j hj => content_modify_ne disk id j _ hj⟩, .inl hn⟩

end Tftp.Disk
