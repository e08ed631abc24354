import PotExtract.Po.Storage
import PotExtract.Proofs.Disk.Drafts

/-! Saving by way of a draft. Whichever step fails, the draft is gone again, so that of all that a
failed save has done only new directories are left; a save that does not fail puts the whole text in
its place. -/

namespace PotExtract.Po

open Text

variable {d d' : Disk} {clock : Clock} {c : Catalog} {h : Header} {path : String} {host : Host}
  {draft : Disk.Draft}

/-- Wherever it ends, filling a draft only changes the draft. -/
theorem exists_isOn_fillDraft {bytes : List UInt8} (hdraft : draft.IsOn bytes d d') (clock : Clock)
    (c : Catalog) (h : Header) (host : Host) :
    ∃ bytes, draft.IsOn bytes d (fillDraft d' draft clock c h host).1 := by
  have hplain := hdraft.writeDraft (encodeUtf8 (plainText c h clock)) host
  unfold fillDraft
  split
  · next heq =>
    rw [heq] at hplain
    exact hplain
  next heq =>
  rw [heq] at hplain
  split
  · exact hplain
  next text _ =>
  obtain ⟨_, hplain⟩ := hplain
  have hdecorated := hplain.writeDraft (encodeUtf8 (decorateHeader h clock text)) host
  split
  · next heq =>
    rw [heq] at hdecorated
    exact hdecorated
  · next heq =>
    rw [heq] at hdecorated
    exact hdecorated

/-- A draft that is filled without a failure has the whole text. -/
theorem isOn_of_fillDraft_eq {bytes : List UInt8} {d'' : Disk} (hdraft : draft.IsOn bytes d d')
    (hfill : fillDraft d' draft clock c h host = (d'', .ok ())) :
    draft.IsOn (encodeUtf8 (templateText c h clock)) d d'' := by
  unfold fillDraft at hfill
  split at hfill
  · cases hfill
  next hplain =>
  have hplain := hdraft.of_writeDraft_eq hplain
  split at hfill
  · cases hfill
  next text hread =>
  rw [hplain.readDraft, Host.answer_eq_ok, Disk.textOf_encodeUtf8] at hread
  obtain rfl := Except.ok.inj hread.2
  split at hfill
  · cases hfill
  next hdecorated =>
  obtain ⟨rfl, -⟩ := Prod.mk.inj hfill
  exact hplain.of_writeDraft_eq hdecorated

theorem exists_fillDraft_eq {bytes : List UInt8} (hhost : host.IsObliging)
    (hdraft : draft.IsOn bytes d d') :
    ∃ d'', fillDraft d' draft clock c h host = (d'', .ok ()) := by
  have hplain := hdraft.of_writeDraft_eq
    (Disk.writeDraft_eq hhost draft (encodeUtf8 (plainText c h clock)))
  rw [fillDraft, Disk.writeDraft_eq hhost]
  dsimp only
  rw [hplain.readDraft, hhost.answer_eq, Disk.textOf_encodeUtf8]
  dsimp only
  rw [Disk.writeDraft_eq hhost]
  exact ⟨_, rfl⟩

/-- A failure leaves the disk as it was, and otherwise the whole text has been put at the path. -/
theorem replaceCatalog_cases (d : Disk) (clock : Clock) (c : Catalog) (h : Header) (path : String)
    (host : Host) :
    (∃ e, replaceCatalog d clock c h path host = (d, .error e)) ∨
      ∃ d', replaceCatalog d clock c h path host = (d', .ok .written) ∧
        d.replaceFile path (encodeUtf8 (templateText c h clock)) = .ok d' := by
  unfold replaceCatalog
  split
  · exact .inl ⟨_, rfl⟩
  next hcreate =>
  have hdraft := Disk.isOn_createDraft hcreate
  split
  · next hfill =>
    left
    obtain ⟨bytes, hfailed⟩ := exists_isOn_fillDraft hdraft clock c h host
    rw [hfill] at hfailed
    exact ⟨_, by rw [hfailed.remove]⟩
  next hfill =>
  have hfilled := isOn_of_fillDraft_eq hdraft hfill
  split
  · left
    exact ⟨_, by rw [hfilled.remove]⟩
  · next hmove =>
    right
    rw [hfilled.moveDraft, Host.answer_eq_ok] at hmove
    exact ⟨_, rfl, hmove.2⟩

/-- A host that refuses nothing lets a catalog be put wherever a file can be put, and nowhere else. -/
theorem replaceCatalog_eq (hhost : host.IsObliging)
    (hdirectory : d.hasDirectory (directoryOf path)) :
    replaceCatalog d clock c h path host =
      match d.replaceFile path (encodeUtf8 (templateText c h clock)) with
      | .error e => (d, .error (.notReplaced path e))
      | .ok d' => (d', .ok .written) := by
  obtain ⟨⟨d₁, draft⟩, hcreate⟩ := Disk.exists_createDraft hhost hdirectory
  have hdraft := Disk.isOn_createDraft hcreate
  obtain ⟨d₂, hfill⟩ := exists_fillDraft_eq hhost hdraft
  have hfilled : draft.IsOn (encodeUtf8 (templateText c h clock)) d d₂ :=
    isOn_of_fillDraft_eq hdraft hfill
  rw [replaceCatalog, hcreate]
  dsimp only
  rw [hfill]
  dsimp only
  rw [hfilled.moveDraft, hhost.answer_eq]
  cases d.replaceFile path (encodeUtf8 (templateText c h clock)) with
  | error e =>
    dsimp only
    rw [hfilled.remove]
  | ok made => rfl

/-- What a failed save leaves is the disk with the directories above the file. -/
theorem writeCatalog_cases (d : Disk) (clock : Clock) (c : Catalog) (h : Header) (path : String)
    (host : Host) :
    (∃ e, writeCatalog d clock c h path host =
        ((d.makeDirectories (directoryOf path) host).1, .error e)) ∨
      ∃ made d', d.makeDirectories (directoryOf path) host = (made, .ok ()) ∧
        writeCatalog d clock c h path host = (d', .ok .written) ∧
        made.replaceFile path (encodeUtf8 (templateText c h clock)) = .ok d' := by
  unfold writeCatalog
  rcases hmake : d.makeDirectories (directoryOf path) host with ⟨made, _ | _⟩
  case error e => exact .inl ⟨_, rfl⟩
  case ok =>
    rcases replaceCatalog_cases made clock c h path host with ⟨e, hfailed⟩ | ⟨d', hdone, hreplace⟩
    · exact .inl ⟨e, hfailed⟩
    · exact .inr ⟨made, d', rfl, hdone, hreplace⟩

theorem save_cases (d : Disk) (clock : Clock) (c : Catalog) (h : Header) (path : String)
    (host : Host) :
    (∃ e, isCurrent d c path host = .error e ∧ save d clock c h path host = (d, .error e)) ∨
      (isCurrent d c path host = .ok true ∧ save d clock c h path host = (d, .ok .unchanged)) ∨
      isCurrent d c path host = .ok false ∧
        save d clock c h path host = writeCatalog d clock c h path host := by
  unfold save
  cases isCurrent d c path host with
  | error e => exact .inl ⟨e, rfl, rfl⟩
  | ok current =>
    cases current with
    | true => exact .inr (.inl ⟨rfl, rfl⟩)
    | false => exact .inr (.inr ⟨rfl, rfl⟩)

/-- A host that refuses nothing has a catalog written that the file does not say already, if a file
can be put there. -/
theorem save_eq {made : Disk} (hhost : host.IsObliging)
    (hcurrent : isCurrent d c path host = .ok false)
    (hmade : d.makeDirectories (directoryOf path) host = (made, .ok ()))
    (hdirectory : made.hasDirectory (directoryOf path)) :
    save d clock c h path host =
      match made.replaceFile path (encodeUtf8 (templateText c h clock)) with
      | .error e => (made, .error (.notReplaced path e))
      | .ok d' => (d', .ok .written) := by
  unfold save
  simp only [hcurrent]
  unfold writeCatalog
  simp only [hmade]
  exact replaceCatalog_eq hhost hdirectory

end PotExtract.Po
