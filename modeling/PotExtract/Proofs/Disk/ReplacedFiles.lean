import Mathlib.Data.List.TakeWhile
import PotExtract.Proofs.Disk.Steps
import PotExtract.Proofs.Text.Lines
import PotExtract.Proofs.Text.Utf8

/-! A file that takes the place of another one is found at its path, and has the bytes that were
written. -/

namespace PotExtract.Disk

open Text

variable {d d' : Disk} {p q : List String} {node : DiskNode}

theorem lookup_put (nodes : List (List String × DiskNode)) :
    (nodes.filter (fun n => n.1 != q) ++ [(q, node)]).lookup p =
      if p = q then some node else nodes.lookup p := by
  induction nodes with
  | nil =>
    by_cases h : p = q
    · simp [h]
    · simp [List.lookup_cons, beq_false_of_ne h, h]
  | cons n nodes ih =>
    obtain ⟨r, other⟩ := n
    by_cases hr : r = q
    · rw [List.filter_cons_of_neg (by simp [hr]), ih]
      by_cases hp : p = q
      · rw [if_pos hp, if_pos hp]
      · have hne : (p == r) = false := beq_false_of_ne (by rwa [hr])
        rw [if_neg hp, if_neg hp, List.lookup_cons, hne]
    · rw [List.filter_cons_of_pos (by simp [hr]), List.cons_append, List.lookup_cons, ih,
        List.lookup_cons]
      by_cases hp : p = r
      · have hne : p ≠ q := by rwa [hp]
        simp [hp, hr]
      · rw [beq_false_of_ne hp]

theorem node?_put (hq : q ≠ []) :
    (d.put q node).node? p = if p = q then some node else d.node? p := by
  cases p with
  | nil => simp [node?, hq.symm]
  | cons name p =>
    show (d.nodes.filter (fun n => n.1 != q) ++ [(q, node)]).lookup (name :: p) = _
    rw [lookup_put]
    rfl

/-- A step is still possible once a file stands where there is no directory. -/
theorem step_put {place next : List String} {piece : String} {bytes : List UInt8} (hq : q ≠ [])
    (hnode : d.node? q ≠ some .directory) (h : d.step place piece = .ok next) :
    (d.put q (.file bytes)).step place piece = .ok next := by
  obtain ⟨hplace, hnext, hthere⟩ := step_eq_ok_iff.1 h
  have hne : place ≠ q := by
    rintro rfl
    exact hnode hplace
  have hsome : (d.node? next).isSome → ((d.put q (.file bytes)).node? next).isSome := by
    intro hsome
    rw [node?_put hq]
    split
    · rfl
    · exact hsome
  rw [step_eq_ok_iff, node?_put hq, if_neg hne]
  exact ⟨hplace, hnext, hthere.imp_right (.imp_right (.imp_right hsome))⟩

theorem foldlM_step_put {pieces place next : List String} {bytes : List UInt8} (hq : q ≠ [])
    (hnode : d.node? q ≠ some .directory) (h : pieces.foldlM d.step place = .ok next) :
    pieces.foldlM (d.put q (.file bytes)).step place = .ok next := by
  induction pieces generalizing place with
  | nil => exact h
  | cons piece pieces ih =>
    rw [List.foldlM_cons, bind_eq_ok] at h
    obtain ⟨middle, hstep, hrest⟩ := h
    rw [List.foldlM_cons, step_put hq hnode hstep]
    exact ih hrest

/-- A path that does not end in a slash ends in a piece. -/
theorem exists_pieces_eq {path : String} (hne : path ≠ "")
    (hslash : Path.endsInSlash path = false) :
    ∃ before last, Path.pieces path = before ++ [last] ∧ last ≠ "" := by
  have hsplit : path.toList.splitOn '/' ≠ [] := by simp
  refine ⟨((path.toList.splitOn '/').dropLast).map String.ofList,
    String.ofList ((path.toList.splitOn '/').getLast hsplit), ?_, ?_⟩
  · rw [Path.pieces, ← List.map_singleton, ← List.map_append, List.dropLast_concat_getLast]
  · intro hlast
    have hlast : (path.toList.splitOn '/').getLast? = some [] := by
      rw [List.getLast?_eq_some_getLast hsplit]
      simpa using hlast
    rcases getLast?_splitOn hlast with hnil | hend
    · exact hne (by simpa using hnil)
    · simp [Path.endsInSlash, hend] at hslash

theorem node?_of_slot_eq_ok {path last : String} {place : List String}
    (h : d.slot path = .ok (place, last)) : d.node? place = some .directory := by
  unfold slot at h
  split at h
  · cases h
  split at h
  · obtain ⟨rfl, -⟩ := Prod.mk.inj (Except.ok.inj h)
    rfl
  · obtain ⟨directory, -, h⟩ := bind_eq_ok.1 h
    obtain ⟨place', hdot, h⟩ := bind_eq_ok.1 h
    obtain ⟨rfl, -⟩ := Prod.mk.inj (Except.ok.inj h)
    obtain ⟨hnode, rfl⟩ := step_dot.1 hdot
    exact hnode

/-- The slot of a path is reached by the pieces in front of the last one that is not empty. -/
theorem exists_pieces_of_slot {path last : String} {place : List String}
    (h : d.slot path = .ok (place, last)) (hdot : last ≠ ".") :
    path ≠ "" ∧ ∃ before behind, Path.pieces path = before ++ last :: behind ∧ last ≠ "" ∧
      (∀ piece ∈ behind, piece = "") ∧ before.foldlM d.step (d.start path) = .ok place := by
  unfold slot at h
  split at h
  · cases h
  next hne =>
  split at h
  · exact absurd (Prod.mk.inj (Except.ok.inj h)).2.symm hdot
  next last' before hpieces =>
  obtain ⟨directory, hbefore, h⟩ := bind_eq_ok.1 h
  obtain ⟨place', hstep, h⟩ := bind_eq_ok.1 h
  obtain ⟨rfl, rfl⟩ := Prod.mk.inj (Except.ok.inj h)
  obtain ⟨-, rfl⟩ := step_dot.1 hstep
  refine ⟨hne, before.reverse, ((Path.pieces path).reverse.takeWhile (· == "")).reverse, ?_, ?_, ?_,
    hbefore⟩
  · have hwhole := List.takeWhile_append_dropWhile
      (p := (· == "")) (l := (Path.pieces path).reverse)
    rw [hpieces] at hwhole
    simpa using (congrArg List.reverse hwhole).symm
  · rintro rfl
    have hhead := List.head?_dropWhile_not (· == "") (Path.pieces path).reverse
    rw [hpieces] at hhead
    simp at hhead
  · intro piece hpiece
    simpa using List.mem_takeWhile_imp (List.mem_reverse.1 hpiece)

/-- The slot of a path that does not end in a slash is the directory in front of its last piece. -/
theorem exists_of_slot_eq_ok {path last : String} {place : List String}
    (hslash : Path.endsInSlash path = false) (h : d.slot path = .ok (place, last))
    (hdot : last ≠ ".") :
    path ≠ "" ∧ ∃ before, Path.pieces path = before ++ [last] ∧ last ≠ "" ∧
      before.foldlM d.step (d.start path) = .ok place := by
  obtain ⟨hne, before, behind, hpieces, hlast, hbehind, hbefore⟩ := exists_pieces_of_slot h hdot
  obtain ⟨before', last', hpieces', hlast'⟩ := exists_pieces_eq hne hslash
  have hnil : behind = [] := by
    rcases List.eq_nil_or_concat behind with hnil | ⟨front, piece, hconcat⟩
    · exact hnil
    · have hpiece := hbehind piece (by simp [hconcat])
      rw [hconcat, List.concat_eq_append, ← List.cons_append, ← List.append_assoc,
        hpieces'] at hpieces
      obtain ⟨-, hsame⟩ := List.append_inj' hpieces rfl
      exact absurd ((List.cons.inj hsame).1.trans hpiece) hlast'
  rw [hnil] at hpieces
  exact ⟨hne, before, hpieces, hlast, hbefore⟩

/-- A file that is put into a directory is found by its name. -/
theorem step_put_self {place : List String} {name : String} {bytes : List UInt8}
    (hplace : d.node? place = some .directory) (hempty : name ≠ "") (hdot : name ≠ ".")
    (hup : name ≠ "..") :
    (d.put (place ++ [name]) (.file bytes)).step place name = .ok (place ++ [name]) := by
  have hq : place ++ [name] ≠ [] := by simp
  have hne : place ≠ place ++ [name] := by simp
  rw [step_eq_ok_iff, node?_put hq, if_neg hne, node?_put hq, if_pos rfl]
  exact ⟨hplace, (walk_of_name hempty hdot hup).symm, .inr (.inr (.inr rfl))⟩

/-- A file that is put at a path is the node of the place that the path leads to. -/
theorem exists_of_replaceFile {path : String} {bytes : List UInt8}
    (h : d.replaceFile path bytes = .ok d') :
    ∃ q, q ≠ [] ∧ d' = d.put q (.file bytes) ∧ d'.place path = .ok q := by
  obtain ⟨⟨directory, last⟩, hslot, h⟩ := bind_eq_ok.1 h
  dsimp only at h
  split at h
  · cases h
  next hdots =>
  split at h
  · cases h
  next hslash =>
  split at h
  · cases h
  next hnode =>
  obtain rfl := Except.ok.inj h
  rw [not_or] at hdots
  have hdirectory := node?_of_slot_eq_ok hslot
  obtain ⟨hne, before, hpieces, hlast, hbefore⟩ :=
    exists_of_slot_eq_ok (by simpa using hslash) hslot hdots.1
  have hq : directory ++ [last] ≠ [] := by simp
  let disk := d.put (directory ++ [last]) (.file bytes)
  have hway : before.foldlM disk.step (disk.start path) = .ok directory :=
    foldlM_step_put hq hnode hbefore
  refine ⟨directory ++ [last], hq, rfl, ?_⟩
  show disk.place path = _
  rw [place, if_neg hne, hpieces, List.foldlM_append, hway]
  show [last].foldlM disk.step directory = _
  rw [List.foldlM_cons, step_put_self hdirectory hlast hdots.1 hdots.2]
  rfl

/-- What was written is read at the path of the file. -/
theorem read_replaceFile {path : String} {bytes : List UInt8}
    (h : d.replaceFile path bytes = .ok d') :
    d'.nodeAt? path = some (.file bytes) ∧ d'.read path = .ok bytes := by
  obtain ⟨q, hq, rfl, hplace⟩ := exists_of_replaceFile h
  have hfile : (d.put q (.file bytes)).node? q = some (.file bytes) := by
    rw [node?_put hq, if_pos rfl]
  constructor
  · rw [nodeAt?, hplace]
    exact hfile
  · rw [read, hplace]
    show readAt _ q = _
    rw [readAt, hfile]

theorem hasFile_replaceFile {path : String} {bytes : List UInt8}
    (h : d.replaceFile path bytes = .ok d') : d'.hasFile path := by
  rw [hasFile, (read_replaceFile h).1]

theorem textOf_encodeUtf8 (text : List Char) : textOf (encodeUtf8 text) = .ok text := by
  rw [textOf, decodeUtf8_encodeUtf8]

theorem readText_replaceFile {path : String} {text : List Char}
    (h : d.replaceFile path (encodeUtf8 text) = .ok d') : d'.readText path = .ok text := by
  rw [readText, (read_replaceFile h).2]
  exact textOf_encodeUtf8 text

end PotExtract.Disk
