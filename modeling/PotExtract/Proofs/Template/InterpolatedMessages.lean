import PotExtract.Proofs.Markup.Encoding
import PotExtract.Proofs.Tales.InterpolatedCalls
import PotExtract.Proofs.Template.Paragraph

/-! Messages in the text of templates. A call of the underscore in an interpolation gives its message
whatever its text is, if a backslash stands in front of every pipe: a pipe without one separates
alternatives also inside of a literal. -/

namespace PotExtract.Template

open Text Markup Tales Python

/-- Single quotes around a text on one line. -/
def singleQuote : Quoting := ⟨'\'', false, .inr rfl⟩

/-- The call of the underscore with the literal of a text. -/
def callOf (s : List Char) : List Char :=
  literalCall singleQuote (singleQuote.escape s)

/-- The paragraph whose text is the interpolation of code. -/
def codeParagraph (code : List Char) : List Char :=
  paragraph (encode (interpolated code))

variable {ctx : ScanContext} {code : List Char}

theorem scan_codeParagraph (ctx : ScanContext) (code : List Char) :
    scan ctx (codeParagraph code) =
      collect ctx (textFinds ctx (String.ofList (encode (interpolated code))) 1) := by
  refine scan_paragraph ctx ?_ (not_mem_encode _)
  simp [interpolated, encode, encodeChar]

theorem scan_codeParagraph_of_ok {found : String}
    (h : interpolations .python (interpolated code) = .ok [⟨found, 0⟩]) :
    scan ctx (codeParagraph code) = collect ctx [.code found 1] := by
  have hfinds : textFinds ctx (String.ofList (encode (interpolated code))) 1 = [.code found 1] := by
    rw [textFinds, String.toList_ofList, decodeEntities_encode, h]
    rfl
  rw [scan_codeParagraph, hfinds]

theorem outcome_codeParagraph_of_error {fragment : String}
    (h : interpolations .python (interpolated code) = .error fragment) :
    (scan ctx (codeParagraph code)).outcome = .error (.expression ctx.file 1 fragment) := by
  have hfinds : textFinds ctx (String.ofList (encode (interpolated code))) 1 =
      [.problem (.expression ctx.file 1 fragment)] := by
    rw [textFinds, String.toList_ofList, decodeEntities_encode, h]
  rw [scan_codeParagraph, hfinds]
  rfl

/-- Code that may call the underscore gives the messages that it has as a source of its own. -/
theorem outcome_collect_code {found : String} {messages : List Message}
    (hcall : mayCallUnderscore found)
    (h : Python.scan ⟨ctx.options, ctx.file, 0⟩ found = .ok messages) :
    (collect ctx [.code found 1]).outcome = .ok messages := by
  have hcode : (scanCode ctx found 1).2 = .ok messages := by
    rw [scanCode, if_pos hcall]
    rw [Python.scan] at h
    split
    · next hscan =>
      rw [hscan] at h
      rw [Except.ok.inj h]
    · next hscan =>
      rw [hscan] at h
      cases h
  cases hscan : scanCode ctx found 1 with
  | mk remarks result =>
    rw [hscan] at hcode
    obtain rfl : result = .ok messages := hcode
    simp [collect, hscan, Except.map]

/-- A call whose pipes stand behind backslashes gives the message of what is left of its literal
without them. -/
theorem outcome_literalCall {t s : List Char}
    (hkey : ctx.options.keywords.contains underscore = false) (hne : s ≠ [])
    (hpipes : pipesEscaped false t)
    (hescapes : singleQuote.Escapes (replacePair '\\' '|' '|' t) s) :
    ∃ m, (scan ctx (codeParagraph (literalCall singleQuote t))).outcome = .ok [m] ∧
      m.id = String.ofList s := by
  obtain ⟨m, hscan, hid, -⟩ :=
    hescapes.scan_literalCall ⟨ctx.options, ctx.file, 0⟩ hkey hne
  refine ⟨m, ?_, hid⟩
  rw [scan_codeParagraph_of_ok (interpolations_literalCall hpipes hescapes)]
  exact outcome_collect_code (singleQuote.mayCallUnderscore_literalCall _) hscan

/-- The call of the underscore with a text, in an interpolation of a paragraph, gives the message of
the text if its pipes are escaped. If they are not, it does so exactly if each of them stands
directly behind a backslash of the text, and else the scan ends with the interpolation as its
error. -/
theorem scan_interpolatedCall (engine : Engine) (file : String) {s : List Char} (hne : s ≠ []) :
    (∃ m, (scan ⟨{}, file, engine⟩ (codeParagraph (escapePipes (callOf s)))).outcome = .ok [m] ∧
        m.id = String.ofList s) ∧
      if pipesEscaped false s then
        ∃ m, (scan ⟨{}, file, engine⟩ (codeParagraph (callOf s))).outcome = .ok [m] ∧
          m.id = String.ofList s
      else
        (scan ⟨{}, file, engine⟩ (codeParagraph (callOf s))).outcome =
          .error (.expression file 1 (String.ofList (interpolated (callOf s)))) := by
  have hkey : Keywords.defaults.contains underscore = false := by decide
  constructor
  · rw [callOf, escapePipes_literalCall]
    refine outcome_literalCall hkey hne (pipesEscaped_escapePipes _ _) ?_
    rw [replacePair_escapePipes]
    exact singleQuote.escapes_escape s
  · split
    · next hpipes =>
      exact outcome_literalCall hkey hne ((pipesEscaped_escape _ _ _).trans hpipes)
        (escapes_replacePair _ s)
    · next hpipes =>
      exact outcome_codeParagraph_of_error
        (interpolations_openPipe rfl (by simpa using hpipes))

theorem scan_interpolatedCall_twoAlternatives :
    "a|b".toList ≠ [] ∧
      codeParagraph (escapePipes (callOf "a|b".toList)) = "<p>$\x7b_('a\\|b')\x7d</p>".toList ∧
      ∃ m, (scan ⟨{}, "a.pt", .python⟩ "<p>$\x7b_('a\\|b')\x7d</p>".toList).outcome = .ok [m] ∧
        m.id = "a|b" :=
  ⟨by decide, by decide, (scan_interpolatedCall .python "a.pt" (s := "a|b".toList) (by decide)).1⟩

/-- A pipe without a backslash in front cuts the literal, and the scan fails. -/
theorem not_scan_pipe :
    codeParagraph (callOf "a|b".toList) = "<p>$\x7b_('a|b')\x7d</p>".toList ∧
      ¬∃ m, (scan ⟨{}, "a.pt", .python⟩ "<p>$\x7b_('a|b')\x7d</p>".toList).outcome = .ok [m] ∧
        m.id = "a|b" := by
  have houtcome : (scan ⟨{}, "a.pt", .python⟩ (codeParagraph (callOf "a|b".toList))).outcome =
      .error _ :=
    outcome_codeParagraph_of_error
      (interpolations_openPipe (q := singleQuote) (s := "a|b".toList) rfl (by decide))
  refine ⟨by decide, ?_⟩
  rintro ⟨m, hm, -⟩
  cases houtcome.symm.trans hm

end PotExtract.Template
