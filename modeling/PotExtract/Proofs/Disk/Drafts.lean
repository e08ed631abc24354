import PotExtract.Proofs.Disk.ReplacedFiles

/-! Drafts. A draft stands where nothing stood before, and whatever is done with it is done at its
place: taken away, it leaves the disk it was made on, and moved, it puts its bytes on that disk. -/

namespace PotExtract

variable {host : Host} {d d' : Disk}

/-- A host that refuses nothing. -/
def Host.IsObliging (host : Host) : Prop :=
  ∀ d request, host.refuses d request = none

theorem Host.isObliging_default : Host.IsObliging {} := fun _ _ => rfl

@[simp] theorem Host.answer_eq_ok {α : Type} {request : Request} {x : Except DiskError α} {a : α} :
    host.answer d request x = .ok a ↔ host.refuses d request = none ∧ x = .ok a := by
  unfold Host.answer
  split
  · next hrefused => simp [hrefused]
  · next hnone => simp [hnone]

theorem Host.IsObliging.answer_eq {α : Type} (h : host.IsObliging) (request : Request)
    (x : Except DiskError α) : host.answer d request x = x := by
  rw [Host.answer, h]

namespace Disk

variable {q : List String}

theorem forall_ne_of_node?_eq_none (h : d.node? q = none) : ∀ n ∈ d.nodes, n.1 ≠ q := by
  unfold node? at h
  split at h
  · cases h
  · intro n hn heq
    have hkey := List.lookup_eq_none_iff.1 h n hn
    rw [heq] at hkey
    simp at hkey

theorem put_put (node node' : DiskNode) : (d.put q node).put q node' = d.put q node' := by
  simp [put, List.filter_append, List.filter_filter]

theorem remove_put (h : d.node? q = none) (node : DiskNode) : (d.put q node).remove q = d := by
  have hkept : d.nodes.filter (fun n => n.1 != q) = d.nodes := by
    rw [List.filter_eq_self]
    intro n hn
    rw [bne_iff_ne]
    exact forall_ne_of_node?_eq_none h n hn
  simp [put, remove, List.filter_append, hkept]

/-- A disk that is another one with a draft on it, where nothing stood before. -/
structure Draft.IsOn (draft : Draft) (bytes : List UInt8) (d d' : Disk) : Prop where
  place : draft.place ≠ []
  free : d.node? draft.place = none
  disk : d' = d.put draft.place (.file bytes)

variable {draft : Draft} {bytes : List UInt8}

theorem isOn_createDraft {directory : String}
    (h : d.createDraft directory host = .ok (d', draft)) : draft.IsOn [] d d' := by
  unfold createDraft at h
  obtain ⟨-, h⟩ := Host.answer_eq_ok.1 h
  obtain ⟨place, -, h⟩ := bind_eq_ok.1 h
  obtain ⟨next, -, h⟩ := bind_eq_ok.1 h
  obtain ⟨rfl, rfl⟩ := Prod.mk.inj (Except.ok.inj h)
  exact ⟨by simp, (host.newName d next).2, rfl⟩

theorem exists_of_hasDirectory {path : String} (h : d.hasDirectory path) :
    ∃ place, d.place path = .ok place ∧ d.node? place = some .directory := by
  rw [hasDirectory, nodeAt?, beq_iff_eq] at h
  split at h
  · next place hplace => exact ⟨place, hplace, h⟩
  · cases h

theorem exists_createDraft {directory : String} (hhost : host.IsObliging)
    (h : d.hasDirectory directory) : ∃ made, d.createDraft directory host = .ok made := by
  obtain ⟨place, hplace, hnode⟩ := exists_of_hasDirectory h
  have hdot : d.step place "." = .ok place := step_dot.2 ⟨hnode, rfl⟩
  rw [createDraft, hhost.answer_eq, hplace]
  show ∃ made, (d.step place "." >>= _) = Except.ok made
  rw [hdot]
  exact ⟨_, rfl⟩

theorem writeDraft_eq (hhost : host.IsObliging) (draft : Draft) (text : List UInt8) :
    d.writeDraft draft text host = (d.put draft.place (.file text), .ok ()) := by
  rw [writeDraft, hhost]

namespace Draft.IsOn

theorem writeDraft (h : draft.IsOn bytes d d') (text : List UInt8) (host : Host) :
    ∃ bytes, draft.IsOn bytes d (d'.writeDraft draft text host).1 := by
  unfold Disk.writeDraft
  dsimp only
  split
  · exact ⟨_, h.place, h.free, by rw [h.disk, put_put]⟩
  · exact ⟨_, h.place, h.free, by rw [h.disk, put_put]⟩

/-- A request to write that is not refused leaves the whole text. -/
theorem of_writeDraft_eq {text : List UInt8} {d'' : Disk} (h : draft.IsOn bytes d d')
    (hwrite : d'.writeDraft draft text host = (d'', .ok ())) : draft.IsOn text d d'' := by
  unfold Disk.writeDraft at hwrite
  dsimp only at hwrite
  split at hwrite
  · cases hwrite
  · obtain ⟨rfl, -⟩ := Prod.mk.inj hwrite
    exact ⟨h.place, h.free, by rw [h.disk, put_put]⟩

theorem remove (h : draft.IsOn bytes d d') : d'.remove draft.place = d := by
  rw [h.disk, remove_put h.free]

theorem readAt (h : draft.IsOn bytes d d') : d'.readAt draft.place = .ok bytes := by
  rw [Disk.readAt, h.disk, node?_put h.place, if_pos rfl]

theorem readDraft (h : draft.IsOn bytes d d') :
    d'.readDraft draft host = host.answer d' (.readFile draft.path) (textOf bytes) := by
  rw [Disk.readDraft, h.readAt]
  rfl

theorem moveDraft (h : draft.IsOn bytes d d') (path : String) :
    d'.moveDraft draft path host =
      host.answer d' (.moveFile draft.path path) (d.replaceFile path bytes) := by
  rw [Disk.moveDraft, h.readAt, h.remove]
  rfl

end Draft.IsOn

end Disk

end PotExtract
