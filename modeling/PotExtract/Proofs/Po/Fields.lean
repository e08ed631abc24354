import PotExtract.Po.Reader
import PotExtract.Po.Writer

/-! A field is read as it was written. Its text is escaped, cut at line feeds and wrapped at spaces,
and what the lines hold between their quotes is put together and unescaped again. -/

namespace PotExtract.Po

open Text

/-! ### Escapes -/

theorem escapeChar_cases (c : Char) :
    (escapeChar c = [c] ∧ c ≠ '\\' ∧ c ≠ '\n') ∨
      ∃ d, escapeChar c = ['\\', d] ∧ d ≠ '\n' ∧ escapedChar? d = some c := by
  unfold escapeChar
  split
  · exact .inr ⟨'\\', rfl, by decide, rfl⟩
  · exact .inr ⟨'"', rfl, by decide, rfl⟩
  · exact .inr ⟨'n', rfl, by decide, rfl⟩
  · exact .inr ⟨'r', rfl, by decide, rfl⟩
  · exact .inr ⟨'t', rfl, by decide, rfl⟩
  · next hslash _ hfeed _ _ => exact .inl ⟨rfl, hslash, hfeed⟩

theorem unescapeStrict_cons {c : Char} (hc : c ≠ '\\') (s : List Char) :
    unescapeStrict (c :: s) = (c :: ·) <$> unescapeStrict s := by
  rw [unescapeStrict.eq_def]
  split
  · next h => cases h
  · next h => exact absurd (List.cons.inj h).1 hc
  · next h => exact absurd (List.cons.inj h).1 hc
  · next h =>
    obtain ⟨rfl, rfl⟩ := List.cons.inj h
    rfl

theorem unescapeStrict_escape (s : List Char) : unescapeStrict (escape s) = .ok s := by
  induction s with
  | nil => rfl
  | cons c s ih =>
    show unescapeStrict (escapeChar c ++ escape s) = _
    rcases escapeChar_cases c with ⟨h, hslash, -⟩ | ⟨d, h, -, hd⟩ <;> rw [h]
    · rw [List.singleton_append, unescapeStrict_cons hslash, ih]
      rfl
    · rw [List.cons_append, List.singleton_append, unescapeStrict, hd, ih]
      rfl

theorem not_mem_escape (s : List Char) : '\n' ∉ escape s := by
  intro h
  obtain ⟨c, -, hc⟩ := List.mem_flatMap.1 h
  rcases escapeChar_cases c with ⟨hwritten, -, hfeed⟩ | ⟨d, hwritten, hd, -⟩ <;> rw [hwritten] at hc
  · exact hfeed (List.mem_singleton.1 hc).symm
  · simp [hd.symm] at hc

/-! ### Lines of a text -/

theorem flatten_cutLines (s : List Char) : (cutLines s).flatten = s := by
  fun_induction cutLines s with
  | case1 => rfl
  | case2 s ih => simp [ih]
  | case3 => rfl
  | case4 c d s _ hnil ih =>
    rw [hnil] at ih
    cases ih
  | case5 c d s line lines _ hcons ih =>
    rw [hcons] at ih ⊢
    show c :: (line ++ lines.flatten) = _
    rw [← List.flatten_cons, ih]

theorem flatten_cutSpaces (s : List Char) : (cutSpaces s).flatten = s := by
  induction s with
  | nil => rfl
  | cons c s ih =>
    rw [cutSpaces]
    split
    · next hc => rw [List.flatten_cons, ih, hc, List.singleton_append]
    · cases hs : cutSpaces s with
      | nil =>
        rw [hs] at ih
        simp [← ih]
      | cons word words =>
        rw [hs] at ih
        simp [← ih]

theorem flatten_fill (line : List Char) (words : List (List Char)) :
    (fill line words).flatten = line ++ words.flatten := by
  induction words generalizing line with
  | nil => simp [fill]
  | cons word words ih =>
    rw [fill]
    split
    · rw [ih, List.flatten_cons, List.append_assoc]
    · rw [List.flatten_cons, ih, List.flatten_cons]

theorem flatten_wrap (line : List Char) : (wrap line).flatten = line := by
  have h := flatten_cutSpaces line
  unfold wrap
  cases hwords : cutSpaces line with
  | nil => simpa [hwords] using h
  | cons word words =>
    rw [hwords] at h
    rw [flatten_fill, ← List.flatten_cons, h]

/-- The lines of an escaped text are that text. -/
theorem flatten_wrap_cutLines (s : List Char) : ((cutLines s).flatMap wrap).flatten = s := by
  have h : ∀ ls : List (List Char), (ls.flatMap wrap).flatten = ls.flatten := by
    intro ls
    induction ls with
    | nil => rfl
    | cons l ls ih =>
      rw [List.flatMap_cons, List.flatten_append, flatten_wrap, ih, List.flatten_cons]
  rw [h, flatten_cutLines]

/-! ### Reading a field -/

theorem withoutQuotes?_quoted (s : List Char) : withoutQuotes? (quoted s) = some s := by
  have hsize : ('"').utf8Size = 1 := by decide
  simp [quoted, withoutQuotes?, hsize]

theorem modifyForm_modifyForm (digit : Char) (f g : List Char → List Char)
    (forms : List (Char × List Char)) :
    modifyForm digit g (modifyForm digit f forms) = modifyForm digit (g ∘ f) forms := by
  induction forms with
  | nil => simp [modifyForm]
  | cons form forms ih =>
    obtain ⟨d, form⟩ := form
    by_cases hd : d = digit <;> simp [modifyForm, hd, ih]

theorem RawRecord.append_append (r : RawRecord) (field : RecordField) (s t : List Char) :
    (r.append field s).append field t = r.append field (s ++ t) := by
  have happend : (· ++ t) ∘ (· ++ s) = (· ++ (s ++ t)) := by
    funext u
    simp
  cases field <;> simp [RawRecord.append, RawRecord.modify, modifyForm_modifyForm, happend]

/-- A line that starts with a name gives its value to a field. -/
structure IsName (name : List Char) (field : RecordField) : Prop where
  head : name.head? = some 'm'
  read : ∀ value, fieldLine? (name ++ ' ' :: value) = some (field, value)

namespace RecordReader

theorem takeLine_quoted (r : RecordReader) (s : List Char) :
    r.takeLine (quoted s) = .ok { r with raw := r.raw.append r.field s } := by
  show r.takeValue r.field (quoted s) = _
  rw [takeValue, withoutQuotes?_quoted]

theorem takeLine_field (r : RecordReader) {name : List Char} {field : RecordField}
    (hname : IsName name field) (s : List Char) :
    r.takeLine (name ++ ' ' :: quoted s) = .ok { r with raw := r.raw.append field s, field } := by
  obtain ⟨name', rfl⟩ : ∃ name', name = 'm' :: name' := by
    have hhead := hname.head
    cases name with
    | nil => cases hhead
    | cons c name => exact ⟨name, by rw [Option.some.inj hhead]⟩
  have hread := hname.read (quoted s)
  rw [List.cons_append] at hread ⊢
  rw [takeLine, hread] <;> simp [takeValue, withoutQuotes?_quoted]

theorem foldlM_quoted (r : RecordReader) (s : List Char) (ls : List (List Char)) :
    (ls.map quoted).foldlM takeLine { r with raw := r.raw.append r.field s } =
      .ok { r with raw := r.raw.append r.field (s ++ ls.flatten) } := by
  induction ls generalizing s with
  | nil => simp [pure, Except.pure]
  | cons l ls ih =>
    rw [List.map_cons, List.foldlM_cons, takeLine_quoted]
    show (ls.map quoted).foldlM takeLine
      { r with raw := (r.raw.append r.field s).append r.field l } = _
    rw [RawRecord.append_append, ih, List.flatten_cons, List.append_assoc]

/-- The lines of a field give it its text, escaped. -/
theorem foldlM_fieldLines (r : RecordReader) {name : List Char} {field : RecordField}
    (hname : IsName name field) (text : List Char) :
    (fieldLines name text).foldlM takeLine r =
      .ok { r with raw := r.raw.append field (escape text), field } := by
  unfold fieldLines
  split
  · rw [List.foldlM_cons, takeLine_field r hname]
    rfl
  · rw [List.foldlM_cons, takeLine_field r hname]
    have h := foldlM_quoted { r with field } [] ((cutLines (escape text)).flatMap wrap)
    rw [List.nil_append, flatten_wrap_cutLines] at h
    exact h

end RecordReader

theorem exists_of_mem_fieldLines {name text line : List Char} (hname : '\n' ∉ name)
    (h : line ∈ fieldLines name text) :
    ∃ pre s, line = pre ++ quoted s ∧ '\n' ∉ pre ∧ '\n' ∉ s := by
  have hpre : '\n' ∉ name ++ [' '] := by simpa using hname
  unfold fieldLines at h
  split at h
  · rw [List.mem_singleton.1 h]
    exact ⟨name ++ [' '], escape text, by simp, hpre, not_mem_escape text⟩
  rcases List.mem_cons.1 h with rfl | h
  · exact ⟨name ++ [' '], [], by simp, hpre, by simp⟩
  · obtain ⟨s, hs, rfl⟩ := List.mem_map.1 h
    refine ⟨[], s, rfl, by simp, fun hmem => not_mem_escape text ?_⟩
    rw [← flatten_wrap_cutLines (escape text)]
    exact List.mem_flatten.2 ⟨s, hs, hmem⟩

/-- The lines of a field have no line feeds and end in a quote. -/
theorem of_mem_fieldLines {name text line : List Char} (hname : '\n' ∉ name)
    (h : line ∈ fieldLines name text) : '\n' ∉ line ∧ chomp line = line := by
  obtain ⟨pre, s, rfl, hpre, hs⟩ := exists_of_mem_fieldLines hname h
  have hparts : pre ++ quoted s = (pre ++ '"' :: s) ++ ['"'] := by simp [quoted]
  constructor
  · rw [hparts]
    simp [hpre, hs]
  · have hlast : (pre ++ quoted s).getLast? ≠ some '\r' := by
      rw [hparts, List.getLast?_concat]
      decide
    rw [chomp, if_neg hlast]

end PotExtract.Po
