import Tftp.Disk.Basic

namespace Tftp.Disk

def Calm (disk : Disk) : Prop :=
  ∀ mishap ∈ disk.outlook, mishap = none

/-- Nothing has changed but what one file holds, and the outlook. -/
structure KeptBut (id : FileId) (before after : Disk) : Prop where
  nodes : after.nodes = before.nodes
  barred : after.barred = before.barred
  size : after.contents.size = before.contents.size
  others : ∀ k, k ≠ id → after.content k = before.content k

theorem KeptBut.refl (id : FileId) (disk : Disk) : KeptBut id disk disk :=
  ⟨rfl, rfl, rfl, fun _ _ => rfl⟩

theorem KeptBut.trans {id : FileId} {first second third : Disk} (h : KeptBut id first second)
    (h' : KeptBut id second third) : KeptBut id first third :=
  ⟨h'.nodes.trans h.nodes, h'.barred.trans h.barred, h'.size.trans h.size,
    fun k hk => (h'.others k hk).trans (h.others k hk)⟩

theorem content_modify (disk : Disk) (id k : FileId) (f : Array UInt8 → Array UInt8)
    (hi : id < disk.contents.size) :
    ({ disk with contents := disk.contents.modify id f } : Disk).content k =
      if k = id then f (disk.content id) else disk.content k := by
  simp only [content, Array.getD_eq_getD_getElem?, Array.getElem?_modify]
  by_cases hk : k = id
  · subst hk
    simp [hi]
  · rw [if_neg (Ne.symm hk), if_neg hk]

theorem content_modify_ne (disk : Disk) (id k : FileId) (f : Array UInt8 → Array UInt8)
    (hk : k ≠ id) :
    ({ disk with contents := disk.contents.modify id f } : Disk).content k = disk.content k := by
  simp only [content, Array.getD_eq_getD_getElem?, Array.getElem?_modify, if_neg (Ne.symm hk)]

theorem kept_lay (disk : Disk) (id : FileId) (offset : Nat) (bytes : Bytes) :
    KeptBut id disk (disk.lay id offset bytes) :=
  ⟨rfl, rfl, Array.size_modify, fun k hk => content_modify_ne disk id k _ hk⟩

theorem overlay_end (content : Array UInt8) (bytes : Bytes) :
    (overlay content content.toList.length bytes).toList = content.toList ++ bytes := by
  simp [overlay]

theorem content_lay_end (disk : Disk) (id : FileId) (stored bytes : Bytes)
    (hi : id < disk.contents.size) (hc : (disk.content id).toList = stored) :
    ((disk.lay id stored.length bytes).content id).toList = stored ++ bytes := by
  subst hc
  rw [lay, content_modify disk id id _ hi, if_pos rfl, overlay_end]

theorem content_truncate (disk : Disk) (id : FileId) (hi : id < disk.contents.size) :
    (disk.truncate id).content id = #[] := by
  rw [truncate, content_modify disk id id _ hi, if_pos rfl]

theorem foresee_disk (disk : Disk) (id : FileId) : KeptBut id disk disk.foresee.1 := by
  unfold foresee
  split
  · exact KeptBut.refl id disk
  · exact ⟨rfl, rfl, rfl, fun _ _ => rfl⟩

theorem foresee_calm (disk : Disk) (h : disk.Calm) :
    ∃ next, disk.foresee = (next, none) ∧ next.Calm := by
  unfold foresee
  split
  · exact ⟨disk, rfl, h⟩
  · next mishap outlook heq =>
    have hm : mishap = none := h mishap (by rw [heq]; exact List.mem_cons_self)
    exact ⟨{ disk with outlook }, by rw [hm],
      fun m hmem => h m (by rw [heq]; exact List.mem_cons_of_mem _ hmem)⟩

theorem kept_write (disk : Disk) (id : FileId) (offset : Nat) (bytes : Bytes) :
    KeptBut id disk (disk.write id offset bytes).1 := by
  have hf := foresee_disk disk id
  unfold write
  split
  · exact KeptBut.refl id disk
  · split
    · next heq => rw [heq] at hf; exact hf.trans (kept_lay _ id offset bytes)
    · next heq => rw [heq] at hf; exact hf.trans (kept_lay _ id offset _)

theorem kept_flush (disk : Disk) (id : FileId) : KeptBut id disk disk.flush.1 := by
  have hf := foresee_disk disk id
  unfold flush
  split
  · next heq => rw [heq] at hf; exact hf
  · next heq => rw [heq] at hf; exact hf

theorem foresee_contents (disk : Disk) : disk.foresee.1.contents = disk.contents := by
  unfold foresee
  split <;> rfl

theorem content_write_end {disk next : Disk} {id : FileId} {stored bytes : Bytes}
    (hi : id < disk.contents.size) (hc : (disk.content id).toList = stored)
    (hw : disk.write id stored.length bytes = (next, .ok ())) :
    (next.content id).toList = stored ++ bytes := by
  by_cases hb : bytes = []
  · rw [write, if_pos hb] at hw
    cases hw
    rw [hb, List.append_nil, hc]
  · have hsame := foresee_contents disk
    rw [write, if_neg hb] at hw
    split at hw
    · next seen hf =>
      cases hw
      rw [hf] at hsame
      apply content_lay_end seen id stored bytes
      · rwa [hsame]
      · rwa [content, hsame]
    · cases hw

theorem write_calm (disk : Disk) (id : FileId) (offset : Nat) (bytes : Bytes) (hk : disk.Calm) :
    ∃ next, disk.write id offset bytes = (next, .ok ()) ∧ next.Calm := by
  by_cases hb : bytes = []
  · exact ⟨disk, by rw [write, if_pos hb], hk⟩
  · obtain ⟨seen, hf, hcalm⟩ := foresee_calm disk hk
    exact ⟨seen.lay id offset bytes, by rw [write, if_neg hb, hf], hcalm⟩

theorem flush_contents (disk : Disk) : disk.flush.1.contents = disk.contents := by
  have hf := foresee_contents disk
  unfold flush
  split
  · next heq => rwa [heq] at hf
  · next heq => rwa [heq] at hf

theorem flush_calm (disk : Disk) (hk : disk.Calm) : ∃ next, disk.flush = (next, .ok ()) ∧ next.Calm := by
  obtain ⟨seen, hf, hcalm⟩ := foresee_calm disk hk
  exact ⟨seen, by rw [flush, hf], hcalm⟩

end Tftp.Disk
