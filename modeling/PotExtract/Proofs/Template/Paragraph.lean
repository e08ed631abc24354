import PotExtract.Proofs.Python.Lookahead
import PotExtract.Proofs.Template.Walk

/-! A template that is one paragraph of text. Its tags add nothing, so a scan of it finds what there
is in its text. -/

namespace PotExtract.Template

open Text Markup

/-- A paragraph of text. -/
def paragraph (text : List Char) : List Char :=
  "<p>".toList ++ (text ++ "</p>".toList)

theorem eventsFrom_tag {offset line : Nat} {body rest : List Char} {piece : Piece}
    (h : readPiece body = .ok (piece, rest)) :
    eventsFrom offset line ('<' :: body) =
      let written := ('<' :: body).take (body.length + 1 - rest.length)
      let later := eventsFrom (offset + byteLength written) (line + lineFeeds written) rest
      { later with events := ⟨piece, written, offset, line⟩ :: later.events } := by
  rw [eventsFrom]
  split
  · next h' =>
    rw [h] at h'
    cases h'
  · next h' =>
    rw [h] at h'
    cases h'
    rfl

theorem eventsFrom_text (offset line : Nat) {text : List Char} (hne : text ≠ [])
    (htext : '<' ∉ text) (body : List Char) :
    eventsFrom offset line (text ++ '<' :: body) =
      let later := eventsFrom (offset + byteLength text) (line + lineFeeds text) ('<' :: body)
      { later with events := ⟨.text, text, offset, line⟩ :: later.events } := by
  cases text with
  | nil => exact absurd rfl hne
  | cons c text =>
    obtain ⟨hc, htext⟩ : '<' ≠ c ∧ '<' ∉ text := by simpa using htext
    have hall : ∀ d ∈ text, (d != '<') := by
      intro d hd
      rw [bne_iff_ne]
      rintro rfl
      exact htext hd
    have htake : (text ++ '<' :: body).takeWhile (· != '<') = text := by
      rw [List.takeWhile_append_of_pos hall]
      simp
    have hdrop : (text ++ '<' :: body).dropWhile (· != '<') = '<' :: body := by
      rw [List.dropWhile_append_of_pos hall]
      simp
    rw [List.cons_append, eventsFrom.eq_3 _ _ _ _ (Ne.symm hc), htake, hdrop]

theorem eventsFrom_close (offset line : Nat) :
    eventsFrom offset line "</p>".toList =
      ⟨[⟨.close ['p'], "</p>".toList, offset, line⟩], none⟩ := by
  have hread : readPiece "/p>".toList = .ok (.close ['p'], []) := rfl
  have hend : ∀ offset line, eventsFrom offset line [] = ⟨[], none⟩ := by
    intro offset line
    rw [eventsFrom]
  show eventsFrom offset line ('<' :: "/p>".toList) = _
  rw [eventsFrom_tag hread]
  simp only [hend]
  rfl

/-- The events of a paragraph are its start, its text and its end. -/
theorem events_paragraph {text : List Char} (hne : text ≠ []) (htext : '<' ∉ text) :
    events (paragraph text) =
      ⟨[⟨.start ['p'], "<p>".toList, 0, 1⟩, ⟨.text, text, 3, 1⟩,
        ⟨.close ['p'], "</p>".toList, 3 + byteLength text, 1 + lineFeeds text⟩], none⟩ := by
  have hread : readPiece ('p' :: '>' :: (text ++ "</p>".toList)) =
      .ok (.start ['p'], text ++ "</p>".toList) := rfl
  have hlen : ('p' :: '>' :: (text ++ "</p>".toList)).length + 1 -
      (text ++ "</p>".toList).length = 3 := by
    simp only [List.length_cons]
    omega
  have hinside : eventsFrom 3 1 (text ++ "</p>".toList) =
      ⟨[⟨.text, text, 3, 1⟩,
        ⟨.close ['p'], "</p>".toList, 3 + byteLength text, 1 + lineFeeds text⟩], none⟩ := by
    have hbody := eventsFrom_text 3 1 hne htext "/p>".toList
    have hclose := eventsFrom_close (3 + byteLength text) (1 + lineFeeds text)
    exact hbody.trans (congrArg (fun later : Events =>
      { later with events := ⟨.text, text, 3, 1⟩ :: later.events }) hclose)
  show eventsFrom 0 1 ('<' :: 'p' :: '>' :: (text ++ "</p>".toList)) = _
  rw [eventsFrom_tag hread, hlen]
  exact congrArg (fun later : Events =>
    { later with events := ⟨.start ['p'], "<p>".toList, 0, 1⟩ :: later.events }) hinside

/-- The tree of a paragraph is an element with its text. -/
theorem readTree_paragraph {text : List Char} (hne : text ≠ []) (htext : '<' ∉ text) :
    readTree (paragraph text) =
      ⟨[], .ok [.element ⟨"p", [], 1⟩ [.text (String.ofList text) 1]]⟩ := by
  have hevents : documentEvents (paragraph text) = events (paragraph text) := by
    show documentEvents ('<' :: _) = events ('<' :: _)
    rw [documentEvents, if_neg (by decide)]
  have hopening : (⟨.start ['p'], "<p>".toList, 0, 1⟩ : Event).growth =
      .ok (.opening ⟨"p", [], 1⟩) := by
    have hattributes : attributes .lenient ['p'] = ⟨[], none⟩ := by
      show attributesFrom .lenient 1 [] [] = _
      rw [attributesFrom]
      rfl
    have hopens : ("/>".toList.isSuffixOf "<p>".toList || isVoid (tagName ['p'])) = false := by
      decide
    simp only [Event.growth, growthOfTag, hattributes, hopens]
    rfl
  have hgrowths : growths (events (paragraph text)).events =
      ([.opening ⟨"p", [], 1⟩, .leaf (.text (String.ofList text) 1),
        .closing "p" (1 + lineFeeds text)], none) := by
    rw [events_paragraph hne htext, growths, hopening]
    rfl
  rw [readTree, hevents, hgrowths, events_paragraph hne htext]
  rfl

/-- A scan of a paragraph is a scan of what is found in its text. -/
theorem scan_paragraph (ctx : ScanContext) {text : List Char} (hne : text ≠ [])
    (htext : '<' ∉ text) :
    scan ctx (paragraph text) = collect ctx (textFinds ctx (String.ofList text) 1) := by
  have hfinds : nodesFinds ctx {} none
      [.element ⟨"p", [], 1⟩ [.text (String.ofList text) 1]] =
        textFinds ctx (String.ofList text) 1 := by
    have hmark : ∀ name, (Frame.enter {} ⟨"p", [], 1⟩).mark? ⟨"p", [], 1⟩ name = none :=
      fun _ => rfl
    have hresolve : (Frame.enter {} ⟨"p", [], 1⟩).resolve ⟨"p", [], 1⟩ = [] := rfl
    simp [nodesFinds, nodeFinds, tagFinds, attributeMessages, endFinds, hmark, hresolve]
  rw [scan, readTree_paragraph hne htext]
  simp [scanNodes_eq_collect, hfinds]

end PotExtract.Template
