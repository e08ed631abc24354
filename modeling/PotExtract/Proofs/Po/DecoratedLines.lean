import PotExtract.Proofs.Po.ReadRecords
import PotExtract.Proofs.Po.TemplateHeader
import PotExtract.Proofs.Text.LineFeeds

/-! Decorating a header. The marks that are set once keep to the header, but the plural forms and the
program are looked for on every line of the file: a line of a text that starts as these fields do is
replaced, or gets a line behind it. -/

namespace PotExtract.Po

open Text

/-- The line that takes the place of the plural forms. -/
def pluralLine : List Char :=
  rawField "Plural-Forms" "nplurals=INTEGER; plural=EXPRESSION;"

/-- The line that is put behind the encoding. -/
def generatorLine : List Char :=
  rawField "Generated-By" generator

/-- A line that stays as it is behind the header. -/
structure IsKept (line : List Char) : Prop where
  plural : startsField "Plural-Forms" line → line = pluralLine
  encoding : startsField "Content-Transfer-Encoding" line = false

instance (line : List Char) : Decidable (IsKept line) :=
  decidable_of_iff
    ((startsField "Plural-Forms" line → line = pluralLine) ∧
      startsField "Content-Transfer-Encoding" line = false)
    ⟨fun h => ⟨h.1, h.2⟩, fun h => ⟨h.1, h.2⟩⟩

/-! ### Lines behind the header -/

variable (h : Header)

theorem encoding_of_plural {line : List Char} (hplural : startsField "Plural-Forms" line) :
    startsField "Content-Transfer-Encoding" line = false := by
  obtain ⟨rest, rfl⟩ := List.isPrefixOf_iff_prefix.1 hplural
  rfl

theorem decorateLine_behind (line : List Char) :
    decorateLine h true true line =
      if startsField "Plural-Forms" line then pluralLine
      else line ++ if startsField "Content-Transfer-Encoding" line then generatorLine else [] := by
  simp only [decorateLine, Bool.not_true, Bool.false_and, Bool.false_eq_true, if_false,
    List.nil_append, List.append_nil]
  rfl

/-- Behind the header a line stays, or is replaced by the plural forms, or has the program behind
it. -/
theorem decorateLine_cases (line : List Char) :
    (IsKept line ∧ decorateLine h true true line = line) ∨
    (line ≠ pluralLine ∧ decorateLine h true true line = pluralLine) ∨
    decorateLine h true true line = line ++ generatorLine := by
  rw [decorateLine_behind]
  by_cases hplural : startsField "Plural-Forms" line
  · rw [if_pos hplural]
    by_cases hline : line = pluralLine
    · exact .inl ⟨⟨fun _ => hline, encoding_of_plural hplural⟩, hline.symm⟩
    · exact .inr (.inl ⟨hline, rfl⟩)
  · rw [if_neg hplural]
    by_cases hencoding : startsField "Content-Transfer-Encoding" line
    · rw [if_pos hencoding]
      exact .inr (.inr rfl)
    · rw [if_neg hencoding, List.append_nil]
      exact .inl ⟨⟨fun h => absurd h hplural, by simpa using hencoding⟩, rfl⟩

theorem decorateLine_of_isKept {line : List Char} (hline : IsKept line) :
    decorateLine h true true line = line := by
  rw [decorateLine_behind, hline.encoding]
  split
  · next hplural => exact (hline.plural hplural).symm
  · exact List.append_nil line

theorem isKept_of_decorateLine_eq {line : List Char} (hline : decorateLine h true true line = line) :
    IsKept line := by
  rcases decorateLine_cases h line with ⟨hkept, -⟩ | ⟨hne, heq⟩ | heq
  · exact hkept
  · exact absurd (hline.symm.trans heq) hne
  · have hnil := List.self_eq_append_right.1 (hline.symm.trans heq)
    cases hnil

/-- Whatever becomes of the lines of a text, it has no fewer line feeds than before. -/
theorem lineFeeds_le_decorated (s : List Char) :
    lineFeeds s ≤ lineFeeds ((linesWithEnds s).flatMap (decorateLine h true true)) := by
  induction s using lines_induction with
  | last line hline => rw [lineFeeds_eq_zero hline]; exact Nat.zero_le _
  | cons line rest hline ih =>
    have hfeed : 1 ≤ lineFeeds (decorateLine h true true (line ++ ['\n'])) := by
      rcases decorateLine_cases h (line ++ ['\n']) with ⟨-, heq⟩ | ⟨-, heq⟩ | heq <;> rw [heq]
      · simp
      · decide
      · simp only [lineFeeds_append, lineFeeds_cons, if_true]
        omega
    rw [linesWithEnds_append_cons hline, List.flatMap_cons, lineFeeds_append, lineFeeds_append,
      lineFeeds_eq_zero hline, lineFeeds_cons, if_pos rfl]
    omega

/-- The lines of a text come to the text itself only if each of them stays. -/
theorem decorated_eq_self_iff (s : List Char) :
    (linesWithEnds s).flatMap (decorateLine h true true) = s ↔ ∀ line ∈ linesWithEnds s, IsKept line := by
  constructor
  swap
  · intro hkept
    conv_rhs => rw [← flatten_linesWithEnds s, List.flatten_eq_flatMap]
    exact List.flatMap_congr fun line hline => decorateLine_of_isKept h (hkept line hline)
  induction s using lines_induction with
  | last line hline =>
    rw [linesWithEnds_of_notMem hline]
    split
    · simp
    · intro heq
      rw [List.flatMap_singleton] at heq
      exact List.forall_mem_singleton.2 (isKept_of_decorateLine_eq h heq)
  | cons line rest hline ih =>
    rw [linesWithEnds_append_cons hline, List.flatMap_cons, List.forall_mem_cons]
    intro heq
    rcases decorateLine_cases h (line ++ ['\n']) with ⟨hkept, hself⟩ | ⟨hne, hplural⟩ | hencoding
    · rw [hself, List.append_assoc] at heq
      exact ⟨hkept, ih (List.cons.inj (List.append_cancel_left heq)).2⟩
    · obtain ⟨text, htext, hfeed⟩ : ∃ text, pluralLine = text ++ ['\n'] ∧ '\n' ∉ text :=
        ⟨pluralLine.dropLast, by decide, by decide⟩
      rw [hplural, htext, List.append_assoc, List.singleton_append] at heq
      have hcut := congrArg (cut? '\n') heq
      rw [cut?_append_cons hfeed, cut?_append_cons hline] at hcut
      exact absurd (by rw [htext, (Prod.mk.inj (Option.some.inj hcut)).1]) hne
    · -- the line of the program has a feed, and nothing behind it has lost one
      have hbehind : generatorLine ++ (linesWithEnds rest).flatMap (decorateLine h true true) =
          rest := by
        simpa [hencoding] using heq
      have hfeeds := congrArg lineFeeds hbehind
      have hle := lineFeeds_le_decorated h rest
      have hone : lineFeeds generatorLine = 1 := by decide
      rw [lineFeeds_append, hone] at hfeeds
      omega

/-! ### The text behind the header -/

theorem decorateLines_append (marked addressed : Bool) (ls ls' : List (List Char)) :
    decorateLines h marked addressed (ls ++ ls') =
      decorateLines h marked addressed ls ++
        decorateLines h (marked || ls.any isHeaderStart)
          (addressed || ls.any (startsField "Project-Id-Version")) ls' := by
  induction ls generalizing marked addressed with
  | nil => simp [decorateLines]
  | cons line ls ih =>
    rw [List.cons_append, decorateLines, decorateLines, ih, List.append_assoc, List.any_cons,
      List.any_cons, Bool.or_assoc, Bool.or_assoc]

theorem decorateLines_behind (ls : List (List Char)) :
    decorateLines h true true ls = ls.flatMap (decorateLine h true true) := by
  induction ls with
  | nil => rfl
  | cons line ls ih => rw [decorateLines, Bool.true_or, Bool.true_or, ih, List.flatMap_cons]

/-- A text of whole lines with the id of a header and the name of the project. -/
structure IsHeaderText (front : List Char) : Prop where
  ended : ∀ c ∈ front.getLast?, c = '\n'
  start : ∃ line ∈ linesWithEnds front, isHeaderStart line
  project : ∃ line ∈ linesWithEnds front, startsField "Project-Id-Version" line

variable {h} {clock : Clock} {front : List Char}

/-- Behind a header every line is decorated for itself. -/
theorem decorateHeader_append (hfront : IsHeaderText front) (rest : List Char) :
    decorateHeader h clock (front ++ rest) =
      decorateHeader h clock front ++ (linesWithEnds rest).flatMap (decorateLine h true true) := by
  have hlines : linesWithEnds (front ++ rest) = linesWithEnds front ++ linesWithEnds rest :=
    linesWithEnds_append hfront.ended rest
  rw [decorateHeader, decorateHeader, hlines, decorateLines_append,
    List.any_eq_true.2 hfront.start, List.any_eq_true.2 hfront.project, Bool.or_true,
    decorateLines_behind, List.append_assoc]

/-- The header of every catalog that is written is found. -/
theorem isHeaderText_headerLines (h : Header) (clock : Clock) :
    IsHeaderText (unlines ([] :: headerLines h clock)) := by
  have hlines : linesWithEnds (unlines ([] :: headerLines h clock)) =
      ([] :: headerLines h clock).map (· ++ ['\n']) := by
    apply linesWithEnds_flatMap
    rw [headerLines_eq]
    simp only [List.forall_mem_cons]
    exact ⟨by simp, by decide, by decide,
      fun l hl => (isQuotedLine_of_mem_headerTextLines hl).noFeed⟩
  obtain ⟨line, others, htext, hproject⟩ := exists_headerTextLines_eq h clock
  refine ⟨eq_feed_of_getLast?_unlines, ?_, ?_⟩
  · rw [hlines, headerLines_eq]
    exact ⟨"msgid \"\"\n".toList, by simp, by decide⟩
  · rw [hlines, headerLines_eq, htext]
    exact ⟨line ++ ['\n'], by simp, hproject⟩

/-- Decorating a header leaves the text behind it alone exactly if none of its lines starts as the
encoding does, and each that starts as the plural forms do is the line that takes their place. -/
theorem decorateHeader_append_iff (hfront : IsHeaderText front) (rest : List Char) :
    decorateHeader h clock (front ++ rest) = decorateHeader h clock front ++ rest ↔
      ∀ line ∈ linesWithEnds rest, IsKept line := by
  rw [decorateHeader_append hfront, List.append_right_inj, decorated_eq_self_iff]

/-- A project that is named behind the header, texts on the lines of their fields, and a last line
without an end. -/
theorem decorateHeader_append_inlineTexts :
    let h : Header := { msgidBugsAddress := some "a@b" }
    let clock : Clock := ⟨"2024-05-01 08:00+0000", "2024"⟩
    let front := unlines ([] :: headerLines h clock)
    let rest := "\nmsgid \"\"\n\"Project-Id-Version: Y\"\nmsgstr \"Plural-Forms: a\"\n\"#".toList
    decorateHeader h clock (front ++ rest) = decorateHeader h clock front ++ rest := by
  intro h clock front rest
  have hkept : ∀ line ∈ linesWithEnds rest, IsKept line := by decide +kernel
  exact (decorateHeader_append_iff (isHeaderText_headerLines h clock) rest).2 hkept

/-- A text whose third line starts as the plural forms do. -/
theorem decorateHeader_append_wrappedText :
    let h : Header := {}
    let clock : Clock := ⟨"2024-05-01 08:00+0000", "2024"⟩
    let front := unlines ([] :: headerLines h clock)
    let rest := unlines ([] :: fieldLines "msgid".toList "a\nb\nPlural-Forms: x".toList)
    decorateHeader h clock (front ++ rest) ≠ decorateHeader h clock front ++ rest := by
  intro h clock front rest hsame
  rw [decorateHeader_append (isHeaderText_headerLines h clock), List.append_right_inj,
    decorated_eq_self_iff] at hsame
  exact absurd hsame (by decide +kernel)

/-- A catalog is written as a decorated header and its records behind it exactly if no line of the
records is taken for one of the header. -/
theorem templateText_eq_iff (c : Catalog) (h : Header) (clock : Clock) :
    templateText c h clock =
        decorateHeader h clock (unlines ([] :: headerLines h clock)) ++
          unlines ([] :: recordLines (recordsOf c)) ↔
      ∀ line ∈ linesWithEnds (unlines ([] :: recordLines (recordsOf c))), IsKept line := by
  have htext : plainText c h clock =
      unlines ([] :: headerLines h clock) ++ unlines ([] :: recordLines (recordsOf c)) := by
    rw [← unlines_append, plainText, plainLines, recordLines, List.append_assoc]
    rfl
  rw [templateText, htext, decorateHeader_append (isHeaderText_headerLines h clock),
    List.append_right_inj, decorated_eq_self_iff]

end PotExtract.Po
