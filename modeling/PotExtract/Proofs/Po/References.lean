import PotExtract.Po.Record
import PotExtract.Proofs.Text.Numerals
import PotExtract.Proofs.Text.Trim
import PotExtract.Proofs.Text.Words

/-! The references of an entry: its occurrences on one line, with spaces between them. Neither white
space in the name of a file nor a number at its end is marked as part of the name, so the line is
read as the occurrences that it was written for exactly if no name is like that. -/

namespace PotExtract

open Text

theorem Text.cutLast?_append_cons {c : Char} {b : List Char} (h : c ∉ b) (a : List Char) :
    cutLast? c (a ++ c :: b) = some (a, b) := by
  have hreverse : (a ++ c :: b).reverse = b.reverse ++ c :: a.reverse := by simp
  rw [cutLast?, hreverse, cut?_append_cons (by simpa using h)]
  simp

theorem Text.cutLast?_eq_some {c : Char} {s a b : List Char} (h : cutLast? c s = some (a, b)) :
    s = a ++ c :: b := by
  obtain ⟨⟨x, y⟩, hcut, he⟩ := Option.map_eq_some_iff.1 h
  cases he
  rw [← List.reverse_inj, cut?_eq_some hcut]
  simp

/-- A number has no colon among its digits. -/
theorem Text.colon_not_mem_of_readNat? {s : List Char} {n : Nat} (h : readNat? s = some n) :
    ':' ∉ s := by
  have hdigits : ∀ t, readDigits 10 limit64 0 t = .ok n → ':' ∉ t := fun t ht hmem =>
    absurd (isAlphanum_of_readDigits ht ':' hmem) (by decide)
  unfold readNat? at h
  have hread : readNumeral 10 limit64 s = .ok n := by
    cases hs : readNumeral 10 limit64 s with
    | error e => rw [hs] at h; cases h
    | ok m => rw [hs] at h; cases h; rfl
  rw [readNumeral.eq_def] at hread
  split at hread
  · cases hread
  · cases hread
  · have := hdigits _ hread
    simpa using this
  · exact hdigits _ hread

namespace Occurrence

variable {o : Occurrence} {s name digits : List Char} {n : Nat}

/-- A text that is taken for the name of a file with a line. -/
def EndsInLine (s : List Char) : Prop :=
  ∃ name digits n, name ≠ [] ∧ s = name ++ ':' :: digits ∧ readNat? digits = some n

theorem ofReference_of_line (hname : name ≠ []) (hdigits : readNat? digits = some n) :
    ofReference (String.ofList (name ++ ':' :: digits)) = ⟨String.ofList name, some n⟩ := by
  obtain ⟨c, rest, rfl⟩ := List.exists_cons_of_ne_nil hname
  have hcut := cutLast?_append_cons (colon_not_mem_of_readNat? hdigits) (c :: rest)
  unfold ofReference
  rw [String.toList_ofList, hcut]
  simp only [hdigits]

theorem ofReference_of_not_endsInLine (h : ¬ EndsInLine s) :
    ofReference (String.ofList s) = ⟨String.ofList s, none⟩ := by
  unfold ofReference
  rw [String.toList_ofList]
  split
  · next c file digits hcut =>
    split
    · next n hdigits =>
      exact absurd ⟨c :: file, digits, n, List.cons_ne_nil _ _, cutLast?_eq_some hcut, hdigits⟩ h
    · rfl
  · rfl

/-- The name that is read is the start of the reference. -/
theorem exists_file_ofReference (s : List Char) :
    ∃ rest, s = (ofReference (String.ofList s)).file.toList ++ rest := by
  by_cases h : EndsInLine s
  · obtain ⟨name, digits, n, hname, rfl, hdigits⟩ := h
    rw [ofReference_of_line hname hdigits]
    exact ⟨':' :: digits, by simp⟩
  · rw [ofReference_of_not_endsInLine h]
    exact ⟨[], by simp⟩

theorem toList_reference (o : Occurrence) : o.reference.toList =
    o.file.toList ++ o.line.elim [] fun n => ':' :: Nat.toDigits 10 n := by
  unfold reference
  cases o.line with
  | none => simp
  | some n => simp [toString, Nat.repr]

/-- A single reference is read as the occurrence it was written for, unless the name of a file
without a line is taken for one with a line. -/
theorem ofReference_reference_iff (hfile : o.file ≠ "") (hline : ∀ n ∈ o.line, n < limit64) :
    ofReference o.reference = o ↔ (o.line = none → ¬ EndsInLine o.file.toList) := by
  obtain ⟨file, line⟩ := o
  have hfile' : file.toList ≠ [] := by simpa using hfile
  rw [← String.ofList_toList (s := reference ⟨file, line⟩), toList_reference]
  cases line with
  | none =>
    rw [Option.elim_none, List.append_nil]
    constructor
    · rintro hread - ⟨name, digits, n, hname, hs, hdigits⟩
      have hs' : (⟨file, none⟩ : Occurrence).file.toList = name ++ ':' :: digits := hs
      rw [hs', ofReference_of_line hname hdigits] at hread
      cases hread
    · intro hnot
      rw [ofReference_of_not_endsInLine (hnot rfl), String.ofList_toList]
  | some n =>
    have hdigits : readNat? (Nat.toDigits 10 n) = some n := by
      rw [readNat?, readNumeral_toDigits (by decide) (by decide) (hline n rfl)]
      rfl
    rw [Option.elim_some, ofReference_of_line hfile' hdigits, String.ofList_toList]
    exact ⟨fun _ => nofun, fun _ => rfl⟩

/-- An occurrence that its reference tells, also among others on a line. -/
structure IsLegible (o : Occurrence) : Prop where
  noBlank : ∀ c ∈ o.file.toList, isBlank c = false
  noLine : o.line = none → ¬ EndsInLine o.file.toList

theorem endsInLine_iff : EndsInLine s ↔ (ofReference (String.ofList s)).line ≠ none := by
  constructor
  · rintro ⟨name, digits, n, hname, rfl, hdigits⟩
    rw [ofReference_of_line hname hdigits]
    exact Option.some_ne_none n
  · intro hline
    by_contra hnot
    rw [ofReference_of_not_endsInLine hnot] at hline
    exact hline rfl

instance : DecidablePred EndsInLine := fun _ => decidable_of_iff _ endsInLine_iff.symm

instance : DecidablePred IsLegible := fun o =>
  decidable_of_iff (o.file.toList.all (!isBlank ·) ∧ (o.line = none → ¬ EndsInLine o.file.toList))
    ⟨fun h => ⟨by simpa using h.1, h.2⟩, fun h => ⟨by simpa using h.noBlank, h.noLine⟩⟩

theorem words_reference (hfile : o.file ≠ "") (hblank : ∀ c ∈ o.file.toList, isBlank c = false) :
    words o.reference.toList = [o.reference.toList] := by
  rw [toList_reference]
  apply words_eq_singleton
  · simp [hfile]
  · intro c hc
    rcases List.mem_append.1 hc with hc | hc
    · exact hblank c hc
    · cases hline : o.line with
      | none => simp [hline] at hc
      | some n =>
        rw [hline, Option.elim_some] at hc
        rcases List.mem_cons.1 hc with rfl | hc
        · decide
        · exact isBlank_of_isAlphanum (isAlphanum_of_mem_toDigits hc)

theorem isBlank_of_mem_file {w : List Char} (h : ∀ c ∈ w, isBlank c = false) :
    ∀ c ∈ (ofReference (String.ofList w)).file.toList, isBlank c = false := by
  intro c hc
  obtain ⟨rest, hrest⟩ := exists_file_ofReference w
  apply h
  rw [hrest]
  exact List.mem_append_left rest hc

end Occurrence

namespace Po

variable {e : Entry}

/-- What is read of the references of an entry are the words of each, one after the other. -/
theorem occurrences_toEntry_ofEntry (e : Entry) : (Record.ofEntry e).toEntry.occurrences =
    (e.occurrences.flatMap fun o => words o.reference.toList).map fun w =>
      Occurrence.ofReference (String.ofList w) := by
  have hsource : (Record.ofEntry e).source.toList =
      [' '].intercalate (e.occurrences.map fun o => o.reference.toList) := by
    rw [Record.ofEntry, String.toList_intercalate, List.map_map]
    rfl
  rw [Record.toEntry, hsource, words_intercalate (by decide), List.flatMap_map]

/-- Without white space in the names, each occurrence is read from its own reference. -/
theorem occurrences_of_noBlank (hfile : ∀ o ∈ e.occurrences, o.file ≠ "")
    (hblank : ∀ o ∈ e.occurrences, ∀ c ∈ o.file.toList, isBlank c = false) :
    (Record.ofEntry e).toEntry.occurrences =
      e.occurrences.map fun o => Occurrence.ofReference o.reference := by
  have hwords : ∀ o ∈ e.occurrences, words o.reference.toList = [o.reference.toList] :=
    fun o ho => Occurrence.words_reference (hfile o ho) (hblank o ho)
  rw [occurrences_toEntry_ofEntry, List.flatMap_congr hwords, ← List.map_eq_flatMap, List.map_map]
  refine List.map_congr_left fun o _ => ?_
  simp

/-- A name that is read has no white space, as it is part of a word. -/
theorem noBlank_of_read (h : (Record.ofEntry e).toEntry.occurrences = e.occurrences) :
    ∀ o ∈ e.occurrences, ∀ c ∈ o.file.toList, isBlank c = false := by
  intro o ho
  rw [← h, occurrences_toEntry_ofEntry] at ho
  obtain ⟨w, hw, rfl⟩ := List.mem_map.1 ho
  obtain ⟨p, -, hw⟩ := List.mem_flatMap.1 hw
  exact Occurrence.isBlank_of_mem_file (of_mem_words hw).2

/-- The occurrences of an entry are read from their references as they were written exactly if no
name of a file has white space, and none that stands without a line ends like one with a line. -/
theorem occurrences_toEntry_ofEntry_iff (hfile : ∀ o ∈ e.occurrences, o.file ≠ "")
    (hline : ∀ o ∈ e.occurrences, ∀ n ∈ o.line, n < limit64) :
    (Record.ofEntry e).toEntry.occurrences = e.occurrences ↔ ∀ o ∈ e.occurrences, o.IsLegible := by
  have hone : ∀ o ∈ e.occurrences, Occurrence.ofReference o.reference = o ↔
      (o.line = none → ¬ Occurrence.EndsInLine o.file.toList) := fun o ho =>
    Occurrence.ofReference_reference_iff (hfile o ho) (hline o ho)
  have hall : (e.occurrences.map fun o => Occurrence.ofReference o.reference) = e.occurrences ↔
      ∀ o ∈ e.occurrences, Occurrence.ofReference o.reference = o := by
    simpa using List.map_inj_left (l := e.occurrences) (g := id)
  constructor
  · intro hread o ho
    have hblank := noBlank_of_read hread
    rw [occurrences_of_noBlank hfile hblank, hall] at hread
    exact ⟨hblank o ho, (hone o ho).1 (hread o ho)⟩
  · intro hlegible
    rw [occurrences_of_noBlank hfile fun o ho => (hlegible o ho).noBlank, hall]
    exact fun o ho => (hone o ho).2 (hlegible o ho).noLine

/-- Two lines of a file, a drive in front of a name, a colon without a number behind it, a number
without a name in front of it, and a sign that is no digit. -/
theorem occurrences_toEntry_ofEntry_colons :
    let e : Entry := { id := "cow", occurrences := [⟨"a.py", some 3⟩, ⟨"a.py", some 12⟩,
      ⟨"C:/tpl/b.pt", none⟩, ⟨"c:", some 0⟩, ⟨":7", none⟩, ⟨"d:5:-1", none⟩] }
    (∀ o ∈ e.occurrences, o.file ≠ "") ∧
      (∀ o ∈ e.occurrences, ∀ n ∈ o.line, n < limit64) ∧
      (Record.ofEntry e).source = "a.py:3 a.py:12 C:/tpl/b.pt c::0 :7 d:5:-1" ∧
      (Record.ofEntry e).toEntry.occurrences = e.occurrences := by
  intro e
  have hfile : ∀ o ∈ e.occurrences, o.file ≠ "" := by decide
  have hline : ∀ o ∈ e.occurrences, ∀ n ∈ o.line, n < limit64 := by decide
  have hlegible : ∀ o ∈ e.occurrences, o.IsLegible := by decide +kernel
  exact ⟨hfile, hline, by decide +kernel, (occurrences_toEntry_ofEntry_iff hfile hline).2 hlegible⟩

/-- A name with a space is read as two, and the end of a name without a line as its line. -/
theorem occurrences_toEntry_ofEntry_ne :
    let e : Entry := { id := "cow", occurrences := [⟨"my file.py", some 3⟩] }
    let bare : Entry := { id := "cow", occurrences := [⟨"a:5", none⟩] }
    (Record.ofEntry e).toEntry.occurrences = [⟨"my", none⟩, ⟨"file.py", some 3⟩] ∧
      (Record.ofEntry e).toEntry.occurrences ≠ e.occurrences ∧
      (Record.ofEntry bare).toEntry.occurrences = [⟨"a", some 5⟩] ∧
      (Record.ofEntry bare).toEntry.occurrences ≠ bare.occurrences := by
  decide +kernel

end Po

end PotExtract
