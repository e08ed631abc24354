import PotExtract.Scanner.Registry
import PotExtract.Proofs.Catalog.Entries
import PotExtract.Proofs.Python.FindingLines
import PotExtract.Proofs.Template.CodeLines
import PotExtract.Proofs.Zcml.Directives

/-! Every message of a scan is one that a catalog can use: it has an id, so it is no header, it names
the file that is scanned and a line of it, and it has each flag once. In Python source this is kept
by each finding, that of a comment on the last message included. Messages of templates and of
configuration come with a line of their markup, and code in a template is scanned as Python. -/

namespace PotExtract

/-- A catalog can use the message of a file. -/
structure Message.IsUsable (file : String) (m : Message) : Prop where
  id : m.id ≠ ""
  file : m.location.file = file
  line : 1 ≤ m.location.line
  flags : m.flags.Nodup

theorem nodup_checkPrintf {flags : List String} (h : flags.Nodup) (text : String) :
    (Format.checkPrintf text flags).Nodup := by
  unfold Format.checkPrintf
  split
  · exact h
  split
  · exact nodup_addFlag h _
  · exact h

theorem nodup_checkPlaceholders {flags : List String} (h : flags.Nodup) (text : String) :
    (Format.checkPlaceholders text flags).Nodup := by
  unfold Format.checkPlaceholders
  split
  · exact h
  split
  · exact nodup_addFlag h _
  · exact h

namespace Python

variable {ctx : ScanContext} {l : Ledger} {m : Message}

/-- A finding of which a message can come. -/
def Finding.IsUsable : Finding → Prop
  | .comment _ _ => True
  | .call line r => r.id ≠ "" ∧ 1 ≤ line

theorem isUsable_messageOf {line : Nat} {r : Resolved} (hid : r.id ≠ "") (hline : 1 ≤ line)
    (comments : CommentCollector) :
    (ScanState.messageOf ctx comments line r).IsUsable ctx.file where
  id := hid
  file := rfl
  line := Nat.le_trans hline (Nat.le_add_left line ctx.offset)
  flags := nodup_checkPlaceholders (nodup_checkPrintf (nodup_addFlags .nil _) _) _

theorem isUsable_annotate {file : String} (h : m.IsUsable file) (note : Note) :
    (ScanState.annotate note m).IsUsable file :=
  ⟨h.id, h.file, h.line, nodup_addFlags h.flags note.flags⟩

/-- A finding adds a message, or a note to the last one. -/
theorem isUsable_add (h : ∀ m ∈ l.messages, m.IsUsable ctx.file) {f : Finding} (hf : f.IsUsable) :
    ∀ m ∈ (l.add ctx f).messages, m.IsUsable ctx.file := by
  intro m hm
  cases f with
  | comment text line =>
    unfold Ledger.add at hm
    dsimp only at hm
    split at hm
    · next comments note _ =>
      have hnote : ∀ m : Message, m.IsUsable ctx.file →
          (ScanState.annotate note m).IsUsable ctx.file := fun m hm => isUsable_annotate hm note
      exact Catalog.forall_mem_modify hnote h _ m hm
    · exact h m hm
  | call line r =>
    unfold Ledger.add at hm
    dsimp only at hm
    split at hm
    · rcases List.mem_append.1 hm with hm | hm
      · exact h m hm
      · obtain rfl := List.mem_singleton.1 hm
        exact isUsable_messageOf hf.1 hf.2 _
    · exact h m hm

theorem isUsable_foldl {findings : List Finding} (hfindings : ∀ f ∈ findings, f.IsUsable)
    (h : ∀ m ∈ l.messages, m.IsUsable ctx.file) :
    ∀ m ∈ (findings.foldl (Ledger.add ctx) l).messages, m.IsUsable ctx.file := by
  induction findings generalizing l with
  | nil => exact h
  | cons f findings ih =>
    obtain ⟨hf, hrest⟩ := List.forall_mem_cons.1 hfindings
    exact ih hrest (isUsable_add h hf)

/-- Calls without an id are not found. -/
theorem ScanState.id_of_finding? {s : ScanState} {t : Token} {line : Nat} {r : Resolved}
    (h : s.finding? ctx t = some (.call line r)) : r.id ≠ "" := by
  unfold finding? at h
  split at h
  · cases h
  split at h
  · cases h
  split at h
  · split at h
    · unfold callFinding? at h
      split at h
      · split at h
        · cases h
        · next hid =>
          cases h
          simpa using hid
      · cases h
    · cases h
  · cases h

theorem ScanState.id_of_mem_findings {s : ScanState} {ts : List Token} {line : Nat} {r : Resolved}
    (h : .call line r ∈ findings ctx s ts) : r.id ≠ "" := by
  induction ts generalizing s with
  | nil => cases h
  | cons t ts ih =>
    unfold findings at h
    split at h
    · rcases List.mem_append.1 h with h | h
      · exact id_of_finding? (Option.mem_toList.1 h)
      · exact ih h
    · cases h

theorem isUsable_of_mem_findings (ctx : ScanContext) (source : String) :
    ∀ f ∈ findings ctx source, f.IsUsable := by
  intro f hf
  have hline : 1 ≤ f.line := by
    refine ScanState.le_line_of_mem_findings (Cursor.lines_lex _).1 (fun line hline => ?_) f hf
    cases hline
  cases f with
  | comment text line => trivial
  | call line r => exact ⟨ScanState.id_of_mem_findings hf, hline⟩

/-- Every message of a source can be used. -/
theorem isUsable_of_mem_scan {source : String} {messages : List Message}
    (h : scan ctx source = .ok messages) (hm : m ∈ messages) : m.IsUsable ctx.file := by
  rw [scan_eq] at h
  split at h
  · cases h
  · cases h
    exact isUsable_foldl (isUsable_of_mem_findings ctx source) (List.forall_mem_nil _) m hm

end Python

/-! ### Configuration -/

namespace Markup

/-- Events stand on lines, also if they are looked up behind a byte order mark. -/
theorem one_le_line_of_mem_documentEvents {source : List Char} :
    ∀ e ∈ (documentEvents source).events, 1 ≤ e.line := by
  have hevents : ∀ s, ∀ e ∈ (events s).events, 1 ≤ e.line := by
    intro s e he
    obtain ⟨before, after, -, hline⟩ := (isPlaced_eventsFrom 0 1 s e he).place
    rw [hline]
    exact Nat.le_add_right 1 _
  intro e he
  unfold documentEvents at he
  split at he
  · exact hevents _ e he
  · dsimp only at he
    split at he
    · obtain ⟨read, -, rfl⟩ := List.mem_map.1 he
      exact Nat.le_add_right 1 _
    · exact hevents _ e he

end Markup

namespace Zcml

variable {options : ScanOptions} {file : String} {m : Message}

theorem isUsable_of_mem_messagesAt {around : List Markup.Event} {e : Markup.Event}
    (hline : 1 ≤ e.line) (h : m ∈ messagesAt options file around e) : m.IsUsable file := by
  unfold messagesAt at h
  split at h
  · obtain ⟨s, hs, rfl⟩ := List.mem_map.1 h
    have htext : s.IsText := by simpa using (List.mem_filter.1 hs).2
    exact ⟨htext.2, rfl, hline, .nil⟩
  · cases h

theorem isUsable_of_mem_messagesBehind {before events : List Markup.Event}
    (hlines : ∀ e ∈ events, 1 ≤ e.line) (h : m ∈ messagesBehind options file before events) :
    m.IsUsable file := by
  induction events generalizing before with
  | nil => cases h
  | cons e events ih =>
    obtain ⟨hline, hlines⟩ := List.forall_mem_cons.1 hlines
    rcases List.mem_append.1 h with h | h
    · exact isUsable_of_mem_messagesAt hline h
    · exact ih hlines h

theorem isUsable_of_mem_scan {source : List Char} {messages : List Message}
    (h : (scan options file source).outcome = .ok messages) (hm : m ∈ messages) :
    m.IsUsable file := by
  have hdocument : scanDocument options file source = .ok messages := mapError_eq_ok.1 h
  obtain ⟨-, -, rfl⟩ := scanDocument_eq_ok_iff.1 hdocument
  exact isUsable_of_mem_messagesBehind Markup.one_le_line_of_mem_documentEvents hm

end Zcml

/-! ### Templates -/

namespace Markup

/-- A tag and its attributes stand on lines. -/
def Tag.HasLines (tag : Tag) : Prop :=
  1 ≤ tag.line ∧ ∀ a ∈ tag.attributes, 1 ≤ a.line

theorem le_line_of_mem_locate {tagLine : Nat} {cursor : TagCursor} {list : List WrittenAttribute}
    {a : Attribute} (h : a ∈ locate tagLine cursor list) : tagLine ≤ a.line := by
  induction list generalizing cursor with
  | nil => cases h
  | cons w list ih =>
    unfold locate at h
    dsimp only at h
    split at h
    · rcases List.mem_cons.1 h with rfl | h
      · exact Nat.le_refl tagLine
      · exact ih h
    split at h
    · rcases List.mem_cons.1 h with rfl | h
      · exact Nat.le_add_right tagLine _
      · exact ih h
    · rcases List.mem_cons.1 h with rfl | h
      · exact Nat.le_refl tagLine
      · exact ih h

theorem hasLines_of_growthOfTag {e : Event} {content : List Char} {change : Growth} {tag : Tag}
    (hline : 1 ≤ e.line) (h : growthOfTag e content = .ok change)
    (htag : .tag tag ∈ change.parts) : tag.HasLines := by
  unfold growthOfTag at h
  dsimp only at h
  split at h
  · cases h
  have hlocated : ∀ a ∈ locate e.line { rest := e.written } (attributes .lenient content).read,
      1 ≤ a.line := fun a ha => Nat.le_trans hline (le_line_of_mem_locate ha)
  split at h
  all_goals
    cases h
    simp only [Growth.parts, Node.parts, Node.partsOf, List.mem_singleton, TreePart.tag.injEq] at htag
    rw [htag]
    exact ⟨hline, hlocated⟩

theorem hasLines_of_growth {e : Event} {change : Growth} {tag : Tag} (hline : 1 ≤ e.line)
    (h : e.growth = .ok change) (htag : .tag tag ∈ change.parts) : tag.HasLines := by
  unfold Event.growth at h
  split at h
  case h_1 | h_2 => exact hasLines_of_growthOfTag hline h htag
  all_goals
    cases h
    simp [Growth.parts, Node.parts] at htag

theorem hasLines_of_readTree {source : List Char} {nodes : List Node} {tag : Tag}
    (h : (readTree source).outcome = .ok nodes) (htag : .tag tag ∈ Node.partsOf nodes) :
    tag.HasLines := by
  obtain ⟨e, he, change, hgrowth, hpart⟩ := exists_event_of_readTree h htag
  exact hasLines_of_growth (one_le_line_of_mem_documentEvents e he) hgrowth hpart

end Markup

namespace Template

open Markup

variable {ctx : ScanContext} {m : Message}

theorem isUsable_of_entryMessage? {scope : Scope} {tag : Tag} {entry : List Char}
    (htag : tag.HasLines) (h : entryMessage? ctx scope tag entry = some m) :
    m.IsUsable ctx.file := by
  unfold entryMessage? at h
  obtain ⟨⟨name, msgid⟩, -, h⟩ := Option.bind_eq_some_iff.1 h
  obtain ⟨a, ha, h⟩ := Option.bind_eq_some_iff.1 h
  obtain ⟨u, hguard, h⟩ := Option.bind_eq_some_iff.1 h
  cases h
  have hid : msgid.getD a.value ≠ "" := by
    by_contra hempty
    rw [hempty] at hguard
    cases hguard
  have hmem : a ∈ tag.attributes := List.mem_of_find?_eq_some ha
  exact ⟨hid, rfl, htag.2 a hmem, .nil⟩

theorem message_not_mem_attributeFinds {a : ResolvedAttribute} :
    .message m ∉ attributeFinds ctx a := by
  intro h
  unfold attributeFinds at h
  split at h
  · obtain ⟨code, -, hcode⟩ := List.mem_map.1 h
    cases hcode
  · cases List.mem_singleton.1 h

theorem isUsable_of_mem_tagFinds {f : Frame} {tag : Tag} (htag : tag.HasLines)
    (h : .message m ∈ tagFinds ctx f tag) : m.IsUsable ctx.file := by
  rcases List.mem_append.1 h with h | h
  · obtain ⟨found, hfound, heq⟩ := List.mem_map.1 h
    cases heq
    unfold attributeMessages at hfound
    split at hfound
    · cases hfound
    split at hfound
    · cases hfound
    · obtain ⟨entry, -, hentry⟩ := List.mem_filterMap.1 hfound
      exact isUsable_of_entryMessage? htag hentry
  · obtain ⟨a, -, ha⟩ := List.mem_flatMap.1 h
    exact absurd ha message_not_mem_attributeFinds

theorem Translated.isUsable_of_message? {t : Translated} {file : String} {target : Option String}
    (htag : t.tag.HasLines) (h : t.message? file target = some m) : m.IsUsable file := by
  unfold message? at h
  dsimp only at h
  split at h
  · cases h
  split at h
  · cases h
  split at h
  · cases h
  · next hrefused =>
    cases h
    have hid : t.idAndDefault.1 ≠ "" := fun hempty => hrefused (by simp [hempty])
    exact ⟨hid, rfl, htag.1, .nil⟩

theorem isUsable_of_mem_endFinds {f : Frame} {tag : Tag} {children : List Node}
    {around : Option (List Char)} (htag : tag.HasLines)
    (h : .message m ∈ endFinds ctx f tag children around) : m.IsUsable ctx.file := by
  unfold endFinds at h
  split at h
  · cases h
  · obtain ⟨found, hfound, heq⟩ := Option.map_eq_some_iff.1 (Option.mem_toList.1 h)
    cases heq
    exact Translated.isUsable_of_message? htag hfound

theorem message_not_mem_textFinds {text : String} {line : Nat} :
    .message m ∉ textFinds ctx text line := by
  intro h
  unfold textFinds at h
  dsimp only at h
  split at h
  · obtain ⟨code, -, hcode⟩ := List.mem_map.1 h
    cases hcode
  · cases List.mem_singleton.1 h

mutual

theorem isUsable_of_mem_nodeFinds (node : Node) {f : Frame} {around : Option (List Char)}
    (hlines : ∀ tag, .tag tag ∈ node.parts → tag.HasLines)
    (h : .message m ∈ nodeFinds ctx f around node) : m.IsUsable ctx.file := by
  cases node with
  | element tag children =>
    have htag : tag.HasLines := hlines tag List.mem_cons_self
    rcases List.mem_append.1 h with h | h
    · rcases List.mem_append.1 h with h | h
      · exact isUsable_of_mem_tagFinds htag h
      · exact isUsable_of_mem_nodesFinds children
          (fun inner hinner => hlines inner (List.mem_cons_of_mem _ hinner)) h
    · exact isUsable_of_mem_endFinds htag h
  | text s line => exact absurd h message_not_mem_textFinds
  | _ => cases h

theorem isUsable_of_mem_nodesFinds (nodes : List Node) {f : Frame} {before : Option (List Char)}
    (hlines : ∀ tag, .tag tag ∈ Node.partsOf nodes → tag.HasLines)
    (h : .message m ∈ nodesFinds ctx f before nodes) : m.IsUsable ctx.file := by
  cases nodes with
  | nil => cases h
  | cons node rest =>
    rcases List.mem_append.1 h with h | h
    · exact isUsable_of_mem_nodeFinds node
        (fun tag htag => hlines tag (List.mem_append_left _ htag)) h
    · exact isUsable_of_mem_nodesFinds rest
        (fun tag htag => hlines tag (List.mem_append_right _ htag)) h

end

theorem isUsable_of_mem_scan {source : List Char} {messages : List Message}
    (h : (scan ctx source).outcome = .ok messages) (hm : m ∈ messages) : m.IsUsable ctx.file := by
  unfold scan at h
  dsimp only at h
  split at h
  · cases h
  · next nodes hnodes =>
    rw [scanNodes_eq_collect] at h
    rcases of_mem_collect h hm with hfind | ⟨code, line, codeMessages, -, hcode, hmem⟩
    · exact isUsable_of_mem_nodesFinds nodes (fun tag => hasLines_of_readTree hnodes) hfind
    · exact Python.isUsable_of_mem_scan (scan_of_scanCode hcode hmem) hmem

end Template

/-- Every message of a scan can be used in a catalog, whatever the scanner, its settings and the
file. -/
theorem Scanner.messages_isUsable (s : Scanner) (options : ScanOptions) (file : String)
    (bytes : List UInt8) (messages : List Message)
    (h : (s.scan options file bytes).outcome = .ok messages) : ∀ m ∈ messages, m.IsUsable file := by
  intro m hm
  unfold Scanner.scan at h
  split at h
  · next source _ =>
    unfold Scanner.scanText at h
    split at h
    · unfold scanPython at h
      split at h
      · next remarks found hscan =>
        cases h
        exact Python.isUsable_of_mem_scan (congrArg Prod.snd hscan) hm
      · cases h
    · exact Template.isUsable_of_mem_scan h hm
    · exact Zcml.isUsable_of_mem_scan h hm
  · cases h

/-- A template of a registry with another engine and extension. Its code has a comment behind a call,
which gives the message a flag again that it has and another one twice. -/
theorem Scanner.messages_isUsable_reflagged :
    ∃ r s messages, (Registry.defaults.setEngine "zope" "python").bind
        (·.mapExtension "html" "zope") = .ok r ∧
      r.forFile? "a.html" = some s ∧
      (s.scan { comments := .all } "a.html" ("<p i18n:domain='d' title='x' i18n:attributes='title'>\n" ++
        "$\x7b_('%d') # [c-format, no-wrap, no-wrap] n\n\x7d</p>").toUTF8.toList).outcome =
          .ok messages ∧
      messages.map (fun m => (m.id, m.location.line, m.flags)) =
        [("x", 1, []), ("%d", 2, ["c-format", "no-wrap"])] ∧
      ∀ m ∈ messages, m.IsUsable "a.html" := by
  let s : Scanner := ⟨"zope", [".zpt", ".cpt"], .template .python⟩
  have hscan : ((s.scan { comments := .all } "a.html"
      ("<p i18n:domain='d' title='x' i18n:attributes='title'>\n" ++
        "$\x7b_('%d') # [c-format, no-wrap, no-wrap] n\n\x7d</p>").toUTF8.toList).outcome.toOption.map
          fun messages => messages.map fun m => (m.id, m.location.line, m.flags)) =
      some [("x", 1, []), ("%d", 2, ["c-format", "no-wrap"])] := by
    decide +kernel
  obtain ⟨messages, hmessages, hfields⟩ := Option.map_eq_some_iff.1 hscan
  have houtcome := toOption_eq_some.1 hmessages
  exact ⟨_, s, messages, rfl, rfl, houtcome, hfields,
    s.messages_isUsable { comments := .all } "a.html" _ messages houtcome⟩

end PotExtract
