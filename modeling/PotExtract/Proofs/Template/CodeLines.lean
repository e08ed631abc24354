import PotExtract.Proofs.Markup.Places
import PotExtract.Proofs.Markup.TreeParts
import PotExtract.Proofs.Python.CallPlaces
import PotExtract.Proofs.Template.Walk
import PotExtract.Proofs.Template.WrittenCode

/-! The lines of messages from code. Code in text counts its lines from the dollar sign of its
interpolation, and code in an attribute from where the name of the attribute is found. Line feeds
between there and the code are not counted, so the message of a call has the line of its function
exactly if there are none. -/

namespace PotExtract.Template

open Text Markup Tales

variable {ctx : ScanContext} {source : List Char} {code : String} {line : Nat}

/-! ### What code is found in -/

/-- Code is found in a part of a tree. -/
def GivesCode (ctx : ScanContext) (code : String) (line : Nat) : TreePart → Prop
  | .tag tag => ∃ f a, a ∈ Frame.resolve f tag ∧ .code code line ∈ attributeFinds ctx a
  | .text s textLine => .code code line ∈ textFinds ctx s textLine

theorem givesCode_of_mem_tagFinds {f : Frame} {tag : Tag}
    (h : .code code line ∈ tagFinds ctx f tag) : GivesCode ctx code line (.tag tag) := by
  rcases List.mem_append.1 h with h | h
  · obtain ⟨m, -, hm⟩ := List.mem_map.1 h
    cases hm
  · obtain ⟨a, ha, hcode⟩ := List.mem_flatMap.1 h
    exact ⟨f, a, ha, hcode⟩

theorem not_mem_endFinds {f : Frame} {tag : Tag} {children : List Node}
    {around : Option (List Char)} : .code code line ∉ endFinds ctx f tag children around := by
  intro h
  unfold endFinds at h
  split at h
  · cases h
  · obtain ⟨m, -, hm⟩ := Option.map_eq_some_iff.1 (Option.mem_toList.1 h)
    cases hm

mutual

theorem givesCode_of_mem_nodeFinds (node : Node) {f : Frame} {around : Option (List Char)}
    (h : .code code line ∈ nodeFinds ctx f around node) :
    ∃ part ∈ node.parts, GivesCode ctx code line part := by
  cases node with
  | element tag children =>
    rcases List.mem_append.1 h with h | h
    · rcases List.mem_append.1 h with h | h
      · exact ⟨_, List.mem_cons_self, givesCode_of_mem_tagFinds h⟩
      · obtain ⟨part, hpart, hcode⟩ := givesCode_of_mem_nodesFinds children h
        exact ⟨part, List.mem_cons_of_mem _ hpart, hcode⟩
    · exact absurd h not_mem_endFinds
  | text s textLine => exact ⟨_, List.mem_singleton_self _, h⟩
  | _ => cases h

theorem givesCode_of_mem_nodesFinds (nodes : List Node) {f : Frame} {before : Option (List Char)}
    (h : .code code line ∈ nodesFinds ctx f before nodes) :
    ∃ part ∈ Node.partsOf nodes, GivesCode ctx code line part := by
  cases nodes with
  | nil => cases h
  | cons node rest =>
    rcases List.mem_append.1 h with h | h
    · obtain ⟨part, hpart, hcode⟩ := givesCode_of_mem_nodeFinds node h
      exact ⟨part, List.mem_append_left _ hpart, hcode⟩
    · obtain ⟨part, hpart, hcode⟩ := givesCode_of_mem_nodesFinds rest h
      exact ⟨part, List.mem_append_right _ hpart, hcode⟩

end

/-- A part of a tree comes from a tag, with the attributes that are written in it, or from a text.
-/
theorem of_mem_parts {e : Event} {change : Growth} {part : TreePart}
    (h : e.growth = .ok change) (hpart : part ∈ change.parts) :
    (∃ content tag, (e.piece = .start content ∨ e.piece = .empty content) ∧ part = .tag tag ∧
      ∀ a ∈ tag.attributes, a.IsLocated e.line e.written (attributes .lenient content).read) ∨
      part = .text (String.ofList e.written) e.line := by
  have htag : ∀ content, growthOfTag e content = .ok change → ∃ tag, part = .tag tag ∧
      (change = .opening tag ∨ change = .leaf (.element tag [])) := by
    intro content h
    unfold growthOfTag at h
    dsimp only at h
    split at h
    · cases h
    · split at h
      · cases h
        exact ⟨_, by simpa [Growth.parts, Node.parts, Node.partsOf] using hpart, .inr rfl⟩
      · cases h
        exact ⟨_, by simpa [Growth.parts] using hpart, .inl rfl⟩
  unfold Event.growth at h
  split at h
  case h_1 content hpiece | h_2 content hpiece =>
    obtain ⟨tag, rfl, hchange⟩ := htag content h
    refine .inl ⟨content, tag, ?_, rfl, exists_of_growthOfTag h hchange⟩
    simp [hpiece]
  case h_4 =>
    cases h
    exact .inr (by simpa [Growth.parts, Node.parts] using hpart)
  all_goals
    cases h
    simp [Growth.parts, Node.parts] at hpart

/-! ### Where code is written -/

/-- The line of the code behind `front` is the one behind `counted`. In text that is in front of the
dollar sign of its interpolation. In a tag it is where the name of its attribute is found, or the
start of the tag if it is not found. -/
inductive CountsFrom (source : List Char) : List Char → List Char → Prop
  | text {counted dollar lost : List Char} : Reads dollar ['$', '\x7b'] →
    CountsFrom source counted (counted ++ (dollar ++ lost))
  | attribute {before tag after name found lead lost rest : List Char} :
    source = before ++ (tag ++ after) → tag = lead ++ (name ++ (lost ++ rest)) →
    found = [] ∨ NameFound name found tag →
    CountsFrom source (before ++ found) (before ++ (lead ++ (name ++ lost)))

/-- Code on a line is written behind `front` as `written`. -/
structure IsWritten (source : List Char) (code : String) (line : Nat)
    (counted front written behind : List Char) : Prop where
  source_eq : source = front ++ (written ++ behind)
  countsFrom : CountsFrom source counted front
  line_eq : line = 1 + lineFeeds counted
  reads : ∃ part : String, (code = part ∨ code = parenthesized part) ∧ Reads written part.toList ∧
    ∀ c ∈ part.toList.getLast?, isBlank c = false

theorem isWritten_of_mem_textFinds {e : Event} (he : e.IsPlaced 1 source)
    (hencoded : encodesLineEnd source = false)
    (h : .code code line ∈ textFinds ctx (String.ofList e.written) e.line) :
    ∃ counted front written behind, IsWritten source code line counted front written behind := by
  obtain ⟨before, after, hsource, hline⟩ := he.place
  have hreads : Reads e.written (decodeEntities e.written) :=
    reads_decodeEntities (encodesLineEnd_of_isInfix hencoded ⟨before, after, by simp [hsource]⟩)
  unfold textFinds at h
  dsimp only at h
  rw [String.toList_ofList] at h
  split at h
  · next found hfound =>
    obtain ⟨i, hi, hcode⟩ := List.mem_map.1 h
    cases hcode
    obtain ⟨lead, inner, rest, hdecoded, hoffset, hpart⟩ := exists_of_mem_interpolations hfound hi
    rw [hdecoded] at hreads ⊢
    obtain ⟨w, v, hwv, hlead, hv⟩ := hreads.exists_append
    obtain ⟨dollar, u, rfl, hdollar, hu⟩ := Reads.exists_append (s := ['$', '\x7b']) hv
    have hinner : Contains u inner :=
      (Contains.of_reads hu).of_isInfix (List.prefix_append _ _).isInfix
    obtain ⟨part, hcode, ⟨lost, written, tail, rfl, hwritten⟩, hlast⟩ :=
      holds_of_mem_pythonParts hinner hpart
    refine ⟨before ++ w, (before ++ w) ++ (dollar ++ lost), written, tail ++ after, ?_,
      .text hdollar, ?_, part, hcode, hwritten, hlast⟩
    · rw [hsource, hwv]
      simp
    · rw [hoffset, lineFeedsBefore_append, hline, lineFeeds_append, hlead.lineFeeds_eq,
        Nat.add_assoc]
  · cases List.mem_singleton.1 h

theorem isWritten_of_mem_attributeFinds {e : Event} {content : List Char} {tag : Tag} {f : Frame}
    {a : ResolvedAttribute} (he : e.IsPlaced 1 source) (hencoded : encodesLineEnd source = false)
    (hpiece : e.piece = .start content ∨ e.piece = .empty content)
    (hattributes : ∀ a ∈ tag.attributes,
      a.IsLocated e.line e.written (attributes .lenient content).read)
    (ha : a ∈ f.resolve tag) (h : .code code line ∈ attributeFinds ctx a) :
    ∃ counted front written behind, IsWritten source code line counted front written behind := by
  obtain ⟨before, after, hsource, hline⟩ := he.place
  obtain ⟨b, hb, rfl⟩ := List.mem_map.1 ha
  obtain ⟨w, hw, -, hvalue, hplace⟩ := hattributes b (List.mem_of_mem_filter hb)
  have hcontent : content <:+: e.written := by
    have htag := he.isTag
    rcases hpiece with hpiece | hpiece <;> rw [hpiece] at htag
    · exact ⟨['<'], ['>'], htag.symm⟩
    · exact ⟨['<'], ['/', '>'], htag.symm⟩
  obtain ⟨lead, between, tail, hwritten⟩ := (isIn_of_mem_attributes hw).of_isInfix hcontent
  have hencodedValue : encodesLineEnd w.value = false := by
    refine encodesLineEnd_of_isInfix hencoded
      ⟨before ++ (lead ++ (w.name ++ between)), tail ++ after, ?_⟩
    rw [hsource, hwritten]
    simp
  have hreads := Contains.of_reads (reads_decodeEntities hencodedValue)
  unfold attributeFinds at h
  rw [hvalue, String.toList_ofList] at h
  split at h
  · next codes hcodes =>
    obtain ⟨_, hmem, hcode⟩ := List.mem_map.1 h
    cases hcode
    obtain ⟨part, hcode, ⟨lost, written, rest, hlost, hpart⟩, hlast⟩ :=
      holds_of_mem_attributeCode hreads hcodes hmem
    have hfound : ∃ found, (found = [] ∨ NameFound w.name found e.written) ∧
        b.line = e.line + lineFeeds found := by
      rcases hplace with hline | ⟨found, hfound, hline⟩
      · exact ⟨[], .inl rfl, hline⟩
      · exact ⟨found, .inr hfound, hline⟩
    obtain ⟨found, hfound, hbline⟩ := hfound
    have htext :
        e.written = lead ++ (w.name ++ ((between ++ lost) ++ (written ++ rest ++ tail))) := by
      rw [hwritten, hlost]
      simp
    refine ⟨before ++ found, before ++ (lead ++ (w.name ++ (between ++ lost))), written,
      rest ++ tail ++ after, ?_, .attribute hsource htext hfound, ?_, part, hcode, hpart, hlast⟩
    · rw [hsource, htext]
      simp
    · rw [hbline, hline, lineFeeds_append, Nat.add_assoc]
  · cases List.mem_singleton.1 h

/-- All code of a template is written in it. -/
theorem exists_isWritten {nodes : List Node} (hmark : source.head? ≠ some byteOrderMark)
    (hencoded : encodesLineEnd source = false) (hnodes : (readTree source).outcome = .ok nodes)
    (h : .code code line ∈ nodesFinds ctx {} none nodes) :
    ∃ counted front written behind, IsWritten source code line counted front written behind := by
  obtain ⟨part, hpart, hcode⟩ := givesCode_of_mem_nodesFinds nodes h
  obtain ⟨e, he, change, hgrowth, hchange⟩ := exists_event_of_readTree hnodes hpart
  have hevents : documentEvents source = events source := by
    cases source with
    | nil => rfl
    | cons c s => exact if_neg fun hc => hmark (by rw [hc]; rfl)
  rw [hevents] at he
  have hplaced := isPlaced_eventsFrom 0 1 source e he
  rcases of_mem_parts hgrowth hchange with ⟨content, tag, hpiece, rfl, hattributes⟩ | rfl
  · obtain ⟨f, a, ha, hfind⟩ := hcode
    exact isWritten_of_mem_attributeFinds hplaced hencoded hpiece hattributes ha hfind
  · exact isWritten_of_mem_textFinds hplaced hencoded hcode

/-! ### Messages of code -/

/-- A message of a template is found as it is, or comes from code. -/
theorem of_mem_collect {finds : List Find} {messages : List Message} {m : Message}
    (h : (collect ctx finds).outcome = .ok messages) (hm : m ∈ messages) :
    .message m ∈ finds ∨ ∃ code line codeMessages, .code code line ∈ finds ∧
      (scanCode ctx code line).2 = .ok codeMessages ∧ m ∈ codeMessages := by
  induction finds generalizing messages with
  | nil =>
    cases h
    cases hm
  | cons find finds ih =>
    have hlater : ∀ {later : List Message}, (collect ctx finds).outcome = .ok later → m ∈ later →
        .message m ∈ find :: finds ∨ ∃ code line codeMessages, .code code line ∈ find :: finds ∧
          (scanCode ctx code line).2 = .ok codeMessages ∧ m ∈ codeMessages := by
      intro later hlater hm
      rcases ih hlater hm with hmessage | ⟨code, line, codeMessages, hcode, hrest⟩
      · exact .inl (List.mem_cons_of_mem find hmessage)
      · exact .inr ⟨code, line, codeMessages, List.mem_cons_of_mem find hcode, hrest⟩
    cases find with
    | problem e => cases h
    | message m' =>
      obtain ⟨later, hcollect, rfl⟩ := map_eq_ok.1 h
      rcases List.mem_cons.1 hm with rfl | hm
      · exact .inl List.mem_cons_self
      · exact hlater hcollect hm
    | code code line =>
      cases hscan : scanCode ctx code line with
      | mk remarks result =>
        cases result with
        | error e =>
          rw [collect, hscan] at h
          cases h
        | ok codeMessages =>
          rw [collect, hscan] at h
          obtain ⟨later, hcollect, rfl⟩ := map_eq_ok.1 h
          rcases List.mem_append.1 hm with hm | hm
          · exact .inr ⟨code, line, codeMessages, List.mem_cons_self, by rw [hscan], hm⟩
          · exact hlater hcollect hm

/-- The context in which code on a line is scanned. -/
def codeContext (ctx : ScanContext) (line : Nat) : Python.ScanContext :=
  ⟨ctx.options, ctx.file, line - 1⟩

theorem scan_of_scanCode {messages : List Message} {m : Message}
    (h : (scanCode ctx code line).2 = .ok messages) (hm : m ∈ messages) :
    Python.scan (codeContext ctx line) code = .ok messages := by
  unfold scanCode at h
  split at h
  · unfold Python.scan codeContext
    split at h
    · next hscan =>
      rw [hscan, Except.ok.inj h]
    · cases h
  · cases h
    cases hm

/-- A message of a template comes from the call of the function that is written behind
`front ++ inner`, where `front` is in front of the code that holds the call. -/
structure IsCallAt (ctx : ScanContext) (source : List Char) (m : Message)
    (counted front inner function behind : List Char) : Prop where
  source_eq : source = front ++ (inner ++ (function ++ behind))
  countsFrom : CountsFrom source counted front
  call : ∃ nodes lead name tail, (readTree source).outcome = .ok nodes ∧
    .code (String.ofList (lead ++ (String.toList name ++ tail))) (1 + lineFeeds counted) ∈
      nodesFinds ctx {} none nodes ∧
    (Reads inner lead ∨ ∃ lead', lead = '(' :: lead' ∧ Reads inner lead') ∧
    Reads function name.toList ∧
    Python.ComesFrom (codeContext ctx (1 + lineFeeds counted)) m lead name tail

theorem toList_parenthesized (part : String) :
    (parenthesized part).toList = '(' :: (part.toList ++ [')']) := by
  simp [parenthesized]

theorem pairsReturns_parenthesized {part : String} (h : PairsReturns part.toList)
    (hlast : ∀ c ∈ part.toList.getLast?, isBlank c = false) :
    PairsReturns (parenthesized part).toList := by
  rw [toList_parenthesized]
  unfold PairsReturns at h ⊢
  refine List.isChain_cons.2 ⟨fun c _ hc => absurd hc (by decide), ?_⟩
  refine List.isChain_append.2 ⟨h, List.isChain_singleton _, fun c hc d _ hreturn => ?_⟩
  have := hlast c hc
  rw [hreturn] at this
  cases this

/-- A name between the parentheses around a part is a name in the part. -/
theorem exists_of_parenthesized {part : String} {lead name tail : List Char}
    (h : (parenthesized part).toList = lead ++ (name ++ tail)) (hne : name ≠ [])
    (hname : ∀ c ∈ name, Python.Lexeme.isNameChar c) :
    ∃ lead' tail', lead = '(' :: lead' ∧ part.toList = lead' ++ (name ++ tail') := by
  have hparentheses : Python.Lexeme.isNameChar '(' = false ∧
      Python.Lexeme.isNameChar ')' = false := by decide
  rw [toList_parenthesized] at h
  obtain ⟨lead', rfl⟩ : ∃ lead', lead = '(' :: lead' := by
    cases lead with
    | nil =>
      cases name with
      | nil => exact absurd rfl hne
      | cons c name =>
        have := hname c List.mem_cons_self
        rw [← (List.cons.inj h).1, hparentheses.1] at this
        cases this
    | cons c lead => exact ⟨lead, by rw [(List.cons.inj h).1]⟩
  have h := (List.cons.inj h).2
  rcases List.eq_nil_or_concat tail with rfl | ⟨tail', c, rfl⟩
  · rcases List.eq_nil_or_concat name with rfl | ⟨init, c, rfl⟩
    · exact absurd rfl hne
    · have hsplit : part.toList ++ [')'] = (lead' ++ init) ++ [c] := by simpa using h
      have hclosing := List.cons.inj (List.append_inj' hsplit rfl).2
      have := hname c (by simp)
      rw [← hclosing.1, hparentheses.2] at this
      cases this
  · have hsplit : part.toList ++ [')'] = (lead' ++ (name ++ tail')) ++ [c] := by simpa using h
    exact ⟨lead', tail', rfl, (List.append_inj' hsplit rfl).1⟩

variable {m : Message} {counted front inner function behind : List Char}

/-- Scanned code shows where the calls of its messages are written. -/
theorem IsWritten.exists_isCallAt {nodes : List Node} {messages : List Message}
    {written : List Char} (hwritten : IsWritten source code line counted front written behind)
    (hreturns : PairsReturns source) (hnodes : (readTree source).outcome = .ok nodes)
    (hcode : .code code line ∈ nodesFinds ctx {} none nodes)
    (hscan : (scanCode ctx code line).2 = .ok messages) (hm : m ∈ messages) :
    ∃ inner function rest, IsCallAt ctx source m counted front inner function rest := by
  obtain ⟨part, hpart, hreads, hlast⟩ := hwritten.reads
  have hpartReturns : PairsReturns part.toList :=
    hreads.pairsReturns (hreturns.of_isInfix ⟨front, behind, by simp [hwritten.source_eq]⟩)
  have hcodeReturns : PairsReturns code.toList := by
    rcases hpart with rfl | rfl
    · exact hpartReturns
    · exact pairsReturns_parenthesized hpartReturns hlast
  obtain ⟨lead, name, tail, hname, hcomes, -⟩ :=
    Python.exists_comesFrom hcodeReturns (scan_of_scanCode hscan hm) hm
  obtain ⟨hne, hchars⟩ := hcomes.isNameChar
  obtain ⟨lead', tail', hlead, hsplit⟩ : ∃ lead' tail', (lead = lead' ∨ lead = '(' :: lead') ∧
      part.toList = lead' ++ (name.toList ++ tail') := by
    rcases hpart with rfl | rfl
    · exact ⟨lead, tail, .inl rfl, hname⟩
    · obtain ⟨lead', tail', rfl, hsplit⟩ := exists_of_parenthesized hname hne hchars
      exact ⟨lead', tail', .inr rfl, hsplit⟩
  rw [hsplit] at hreads
  obtain ⟨inner, v, rfl, hinner, hv⟩ := hreads.exists_append
  obtain ⟨function, rest, rfl, hfunction, -⟩ := hv.exists_append
  have hcodeEq : code = String.ofList (lead ++ (name.toList ++ tail)) := by
    rw [← hname, String.ofList_toList]
  have hline := hwritten.line_eq
  subst hcodeEq hline
  refine ⟨inner, function, rest ++ behind, ?_, hwritten.countsFrom, nodes, lead, name, tail, hnodes,
    hcode, ?_, hfunction, hcomes⟩
  · rw [hwritten.source_eq]
    simp
  · rcases hlead with rfl | rfl
    · exact .inl hinner
    · exact .inr ⟨lead', rfl, hinner⟩

/-- The line of a message is the one behind the text that is counted, and the line feeds that the
code has in front of the function. -/
theorem IsCallAt.location_eq (h : IsCallAt ctx source m counted front inner function behind) :
    m.location = ⟨ctx.file, 1 + lineFeeds counted + lineFeeds inner⟩ := by
  obtain ⟨nodes, lead, name, tail, -, -, hinner, -, ts, t, us, r, -, hname, -, hgives⟩ := h.call
  have hlead : lineFeeds lead = lineFeeds inner := by
    rcases hinner with hinner | ⟨lead', rfl, hinner⟩
    · exact hinner.lineFeeds_eq.symm
    · simp [hinner.lineFeeds_eq]
  have hline : t.line = 1 + lineFeeds lead := hname.line
  rw [hgives.2.2.2.2, hline, hlead]
  simp only [codeContext, Location.mk.injEq, true_and]
  omega

/-- A message of a template that scans is found as it is, or comes from a call. -/
theorem exists_isCallAt {messages : List Message} (hmark : source.head? ≠ some byteOrderMark)
    (hencoded : encodesLineEnd source = false) (hreturns : PairsReturns source)
    (h : (scan ctx source).outcome = .ok messages) (hm : m ∈ messages) :
    (∃ nodes, (readTree source).outcome = .ok nodes ∧
      .message m ∈ nodesFinds ctx {} none nodes) ∨
    ∃ counted front inner function behind,
      IsCallAt ctx source m counted front inner function behind := by
  unfold scan at h
  dsimp only at h
  split at h
  · cases h
  · next nodes hnodes =>
    rw [scanNodes_eq_collect] at h
    rcases of_mem_collect h hm with hmessage | ⟨code, line, codeMessages, hcode, hscan, hmem⟩
    · exact .inl ⟨nodes, hnodes, hmessage⟩
    · obtain ⟨counted, front, written, behind, hwritten⟩ :=
        exists_isWritten hmark hencoded hnodes hcode
      obtain ⟨inner, function, rest, hcall⟩ :=
        hwritten.exists_isCallAt hreturns hnodes hcode hscan hmem
      exact .inr ⟨counted, front, inner, function, rest, hcall⟩

/-- A message of a template that scans is found as it is, or comes from a call that is written in
the template. It has the line on which the function of the call is written exactly if as many lines
end in front of the place from which the code counts as in front of the code. -/
theorem line_of_mem_scan {messages : List Message} (hmark : source.head? ≠ some byteOrderMark)
    (hencoded : encodesLineEnd source = false) (hreturns : PairsReturns source)
    (h : (scan ctx source).outcome = .ok messages) (hm : m ∈ messages) :
    ((∃ nodes, (readTree source).outcome = .ok nodes ∧
        .message m ∈ nodesFinds ctx {} none nodes) ∨
      ∃ counted front inner function behind,
        IsCallAt ctx source m counted front inner function behind) ∧
    ∀ counted front inner function behind,
      IsCallAt ctx source m counted front inner function behind →
        m.location = ⟨ctx.file, 1 + lineFeeds counted + lineFeeds inner⟩ ∧
        (m.location.line = 1 + lineFeeds (front ++ inner) ↔
          lineFeeds counted = lineFeeds front) := by
  refine ⟨exists_isCallAt hmark hencoded hreturns h hm, ?_⟩
  intro counted front inner function behind hcall
  have hlocation := hcall.location_eq
  refine ⟨hlocation, ?_⟩
  rw [hlocation, lineFeeds_append]
  constructor
  · intro hline
    simp only at hline
    omega
  · intro hfeeds
    simp only [hfeeds, Nat.add_assoc]

/-- Whether a message is found as it is. -/
def Find.isMessage : Find → Bool
  | .message _ => true
  | _ => false

theorem not_exists_message (h : ((readTree source).outcome.toOption.map fun nodes =>
    (nodesFinds ctx {} none nodes).any Find.isMessage) = some false) :
    ¬∃ nodes, (readTree source).outcome = .ok nodes ∧
      .message m ∈ nodesFinds ctx {} none nodes := by
  rintro ⟨nodes, hnodes, hmessage⟩
  have hany : (nodesFinds ctx {} none nodes).any Find.isMessage = true :=
    List.any_eq_true.2 ⟨_, hmessage, rfl⟩
  simp [hnodes, Except.toOption, hany] at h

/-- A call behind line feeds in the text and in its own code. -/
theorem line_of_mem_scan_secondLine :
    ∃ counted front inner function behind,
      IsCallAt ⟨{}, "a.pt", .python⟩ "<p>\n$\x7bf(\n_('x'))\x7d</p>".toList
        { id := "x", location := ⟨"a.pt", 3⟩ } counted front inner function behind ∧
      3 = 1 + lineFeeds counted + lineFeeds inner ∧
      (3 = 1 + lineFeeds (front ++ inner) ↔ lineFeeds counted = lineFeeds front) := by
  have hscan : (scan ⟨{}, "a.pt", .python⟩ "<p>\n$\x7bf(\n_('x'))\x7d</p>".toList).outcome =
      .ok [{ id := "x", location := ⟨"a.pt", 3⟩ }] := by decide +kernel
  obtain ⟨hplace, hline⟩ := line_of_mem_scan (by decide) (by decide +kernel) (by decide) hscan
    (List.mem_singleton_self _)
  rcases hplace with hmessage | ⟨counted, front, inner, function, behind, hcall⟩
  · exact absurd hmessage (not_exists_message (by decide +kernel))
  · obtain ⟨hlocation, hiff⟩ := hline counted front inner function behind hcall
    exact ⟨counted, front, inner, function, behind, hcall, congrArg Location.line hlocation, hiff⟩

/-- A line feed in front of the code of an attribute is not counted. -/
theorem line_of_mem_scan_ne : ¬∀ (ctx : ScanContext) (source : List Char) (messages : List Message)
    (m : Message), source.head? ≠ some byteOrderMark → encodesLineEnd source = false →
      PairsReturns source → (scan ctx source).outcome = .ok messages → m ∈ messages →
      ∀ counted front inner function behind,
        IsCallAt ctx source m counted front inner function behind →
          m.location.line = 1 + lineFeeds (front ++ inner) := by
  intro hall
  let ctx : ScanContext := ⟨{ keywords := .empty }, "a.pt", .python⟩
  let source := "<p title=\"\n$\x7b_('x')\x7d\"/>".toList
  let m : Message := { id := "x", location := ⟨"a.pt", 1⟩ }
  have hscan : (scan ctx source).outcome = .ok [m] := by decide +kernel
  have hmark : source.head? ≠ some byteOrderMark := by decide
  have hencoded : encodesLineEnd source = false := by decide +kernel
  have hreturns : PairsReturns source := by decide
  rcases exists_isCallAt hmark hencoded hreturns hscan (List.mem_singleton_self m) with
    hmessage | ⟨counted, front, inner, function, behind, hcall⟩
  · exact absurd hmessage (not_exists_message (by decide +kernel))
  · have hline := hall ctx source [m] m hmark hencoded hreturns hscan (List.mem_singleton_self m)
      counted front inner function behind hcall
    have hfeed : '\n' ∉ front ++ inner := by
      refine List.count_eq_zero.1 ?_
      show lineFeeds (front ++ inner) = 0
      have : 1 = 1 + lineFeeds (front ++ inner) := hline
      omega
    -- The only underscore stands behind the line feed.
    have hunderscore : function = ['_'] := by
      obtain ⟨_, _, name, _, -, -, -, hfunction, hcomes⟩ := hcall.call
      have hname : name = Python.underscore := by
        rcases hcomes.isFunction with hkeyword | hname
        · cases hkeyword
        · exact hname
      rw [hname] at hfunction
      refine hfunction.eq_singleton (fun hamp => ?_) (by decide) (by decide)
      have hmem : '&' ∈ source := by
        rw [hcall.source_eq]
        simp [hamp]
      exact absurd hmem (by decide)
    have hplain : ∀ c ∈ front ++ inner ++ ['_'], (c != '\n') := by
      intro c hc
      rw [bne_iff_ne]
      rintro rfl
      exact hfeed (by simpa using hc)
    have hfront : source = (front ++ inner ++ ['_']) ++ behind := by
      rw [hcall.source_eq, hunderscore]
      simp
    have hmem : '_' ∈ source.takeWhile (· != '\n') := by
      rw [hfront, List.takeWhile_append_of_pos hplain]
      simp
    exact absurd hmem (by decide)

end PotExtract.Template
