import PotExtract.Markup.Document
import PotExtract.Proofs.Text.LineFeeds

/-! Where the events of a document and the attributes of a tag are written. The line of an event is
the one on which its text starts, and that of an attribute the one on which its name is found in the
tag: at the first place, behind the names in front of it, where it stands behind white space and
ends. -/

namespace PotExtract.Markup

open Text

variable {s rest : List Char} {p : Piece}

/-! ### Pieces -/

theorem eq_of_cutTag? {quote : Option Char} {content : List Char}
    (h : cutTag? quote s = some (content, rest)) : s = content ++ '>' :: rest := by
  induction s generalizing quote content with
  | nil => cases h
  | cons c s ih =>
    simp only [cutTag?] at h
    split at h
    · obtain ⟨⟨a, b⟩, hab, he⟩ := Option.map_eq_some_iff.1 h
      cases he
      rw [ih hab, List.cons_append]
    · split at h
      · next hc =>
        cases h
        rw [hc, List.nil_append]
      · obtain ⟨⟨a, b⟩, hab, he⟩ := Option.map_eq_some_iff.1 h
        cases he
        rw [ih hab, List.cons_append]

theorem suffix_of_cutDoctype? {depth : Nat} {content : List Char}
    (h : cutDoctype? depth s = some (content, rest)) : rest <:+ s := by
  induction s generalizing depth content with
  | nil => cases h
  | cons c s ih =>
    simp only [cutDoctype?] at h
    split at h
    · split at h
      · cases h
        exact List.suffix_cons c _
      · obtain ⟨⟨a, b⟩, hab, he⟩ := Option.map_eq_some_iff.1 h
        cases he
        exact (ih hab).trans (List.suffix_cons c s)
    · obtain ⟨⟨a, b⟩, hab, he⟩ := Option.map_eq_some_iff.1 h
      cases he
      exact (ih hab).trans (List.suffix_cons c s)

/-- What is written for a tag. Other pieces may be anything. -/
def Piece.IsTag : Piece → List Char → Prop
  | .start content, written => written = '<' :: (content ++ ['>'])
  | .empty content, written => written = '<' :: (content ++ ['/', '>'])
  | _, _ => True

theorem suffix_of_upTo {terminator : List Char} {fault : PieceFault} {make : List Char → Piece}
    (hmake : ∀ content written, (make content).IsTag written)
    (h : upTo terminator fault make s = .ok (p, rest)) :
    rest <:+ s ∧ ∀ written, p.IsTag written := by
  unfold upTo at h
  split at h
  · next content _ hcut =>
    cases h
    rw [cutAt?_eq_some hcut]
    exact ⟨List.suffix_append _ _, hmake content⟩
  · cases h

theorem suffix_of_after? {pre : List Char} (h : after? pre s = some rest) : rest <:+ s :=
  ⟨pre, (after?_eq_some h).symm⟩

theorem suffix_of_doctype {keyword : List Char} (h : doctype keyword s = .ok (p, rest)) :
    rest <:+ s ∧ ∀ written, p.IsTag written := by
  unfold doctype at h
  split at h
  · cases h
  · next hcut =>
    split at h
    · cases h
    · cases h
      exact ⟨suffix_of_cutDoctype? hcut, fun _ => trivial⟩

theorem suffix_of_afterDoctype? (h : afterDoctype? s = some rest) : rest <:+ s := by
  unfold afterDoctype? at h
  split at h
  · cases h
    exact List.drop_suffix 8 s
  · cases h

theorem suffix_of_bang (h : bang s = .ok (p, rest)) : rest <:+ s ∧ ∀ written, p.IsTag written := by
  have hcdata : ∀ content written, (Piece.cdata content).IsTag written := fun _ _ => trivial
  have hcomment : ∀ _ : List Char, ∀ written, Piece.comment.IsTag written := fun _ _ => trivial
  unfold bang at h
  split at h
  · split at h
    · next hafter => exact (suffix_of_upTo hcdata h).imp_left (·.trans (suffix_of_after? hafter))
    · cases h
  · split at h
    · next hafter => exact (suffix_of_upTo hcomment h).imp_left (·.trans (suffix_of_after? hafter))
    · cases h
  iterate 2
    split at h
    · next hafter =>
      exact (suffix_of_doctype h).imp_left (·.trans (suffix_of_afterDoctype? hafter))
    · cases h
  · cases h

theorem suffix_of_instruction (h : instruction s = .ok (p, rest)) :
    rest <:+ s ∧ ∀ written, p.IsTag written := by
  have hmake : ∀ content written, (instructionOf content).IsTag written := by
    intro content written
    unfold instructionOf
    split
    · trivial
    · split <;> trivial
    · trivial
  unfold instruction at h
  split at h
  · cases h
  · exact suffix_of_upTo hmake h

theorem isTag_pieceOfTag (content : List Char) :
    (pieceOfTag content).IsTag ('<' :: (content ++ ['>'])) := by
  unfold pieceOfTag
  split
  · trivial
  · split
    · next hlast =>
      have hcontent : content = content.dropLast ++ ['/'] :=
        (List.dropLast_append_getLast? '/' hlast).symm
      show '<' :: (content ++ ['>']) = '<' :: (content.dropLast ++ ['/', '>'])
      rw [hcontent]
      simp
    · rfl

theorem exists_of_readPiece (h : readPiece s = .ok (p, rest)) :
    ∃ used, s = used ++ rest ∧ p.IsTag ('<' :: used) := by
  unfold readPiece at h
  split at h
  · obtain ⟨⟨used, hused⟩, htag⟩ := suffix_of_bang h
    exact ⟨used, hused.symm, htag _⟩
  · next tail =>
    obtain ⟨⟨used, hused⟩, htag⟩ := suffix_of_instruction h
    exact ⟨'?' :: used, by rw [← hused]; rfl, htag _⟩
  · split at h
    · next content tail hcut =>
      cases h
      exact ⟨content ++ ['>'], by rw [eq_of_cutTag? hcut]; simp, isTag_pieceOfTag content⟩
    · cases h

/-! ### Events -/

/-- An event is read from its text in a document whose first line is `line`. -/
structure Event.IsPlaced (line : Nat) (source : List Char) (e : Event) : Prop where
  isTag : e.piece.IsTag e.written
  place : ∃ before after, source = before ++ (e.written ++ after) ∧ e.line = line + lineFeeds before

theorem Event.IsPlaced.append_left {line : Nat} {e : Event} {written : List Char}
    (h : e.IsPlaced (line + lineFeeds written) rest) : e.IsPlaced line (written ++ rest) := by
  obtain ⟨before, after, rfl, hline⟩ := h.place
  refine ⟨h.isTag, written ++ before, after, by simp, ?_⟩
  rw [hline, lineFeeds_append, Nat.add_assoc]

theorem take_used (used rest : List Char) :
    ('<' :: (used ++ rest)).take ((used ++ rest).length + 1 - rest.length) = '<' :: used := by
  have hlength : (used ++ rest).length + 1 - rest.length = ('<' :: used).length := by
    simp only [List.length_append, List.length_cons]
    omega
  rw [hlength, ← List.cons_append, List.take_left]

theorem isPlaced_eventsFrom (offset line : Nat) (s : List Char) :
    ∀ e ∈ (eventsFrom offset line s).events, e.IsPlaced line s := by
  fun_induction eventsFrom offset line s with
  | case1 => simp
  | case2 => simp
  | case3 offset line body piece rest hread _ written later ih =>
    obtain ⟨used, rfl, htag⟩ := exists_of_readPiece hread
    have hwritten : written = '<' :: used := take_used used rest
    intro e he
    rcases List.mem_cons.1 he with rfl | he
    · exact ⟨hwritten ▸ htag, [], rest, by rw [hwritten]; rfl, rfl⟩
    · have := (ih e he).append_left
      rwa [hwritten] at this
  | case4 offset line c body hc _ written later ih =>
    have hbody : c :: body = written ++ body.dropWhile (· != '<') :=
      congrArg (c :: ·) List.takeWhile_append_dropWhile.symm
    intro e he
    rw [hbody]
    rcases List.mem_cons.1 he with rfl | he
    · exact ⟨trivial, [], _, rfl, rfl⟩
    · exact (ih e he).append_left

/-- Each event is right behind those in front of it, and is on the line that is reached there. -/
def ArePlaced (line : Nat) (source : List Char) (events : List Event) : Prop :=
  ∀ before e after, events = before ++ e :: after →
    before.flatMap (·.written) ++ e.written <+: source ∧
      e.line = line + lineFeeds (before.flatMap (·.written))

theorem ArePlaced.cons {e : Event} {later : List Event}
    (h : ArePlaced (e.line + lineFeeds e.written) rest later) :
    ArePlaced e.line (e.written ++ rest) (e :: later) := by
  intro before x after heq
  cases before with
  | nil =>
    cases heq
    exact ⟨List.prefix_append _ _, rfl⟩
  | cons y before =>
    cases heq
    obtain ⟨hstarts, hline⟩ := h before x after rfl
    rw [List.flatMap_cons, List.append_assoc, lineFeeds_append, ← Nat.add_assoc]
    exact ⟨(List.prefix_append_right_inj _).2 hstarts, hline⟩

theorem arePlaced_eventsFrom (offset line : Nat) (s : List Char) :
    ArePlaced line s (eventsFrom offset line s).events := by
  fun_induction eventsFrom offset line s with
  | case1 => simp [ArePlaced]
  | case2 => simp [ArePlaced]
  | case3 offset line body piece rest hread _ written later ih =>
    obtain ⟨used, rfl, -⟩ := exists_of_readPiece hread
    have hwritten : written = '<' :: used := take_used used rest
    have hbody : '<' :: (used ++ rest) = written ++ rest := by rw [hwritten]; rfl
    rw [hbody]
    exact ArePlaced.cons ih
  | case4 offset line c body hc _ written later ih =>
    have hbody : c :: body = written ++ body.dropWhile (· != '<') :=
      congrArg (c :: ·) List.takeWhile_append_dropWhile.symm
    rw [hbody]
    exact ArePlaced.cons ih

/-! ### Attributes -/

/-- An attribute is written in a text: its name, and its value behind it. -/
def WrittenAttribute.IsIn (a : WrittenAttribute) (s : List Char) : Prop :=
  ∃ before between after, s = before ++ (a.name ++ (between ++ (a.value ++ after)))

theorem WrittenAttribute.IsIn.of_isInfix {a : WrittenAttribute} (h : a.IsIn rest)
    (hs : rest <:+: s) : a.IsIn s := by
  obtain ⟨lead, tail, rfl⟩ := hs
  obtain ⟨before, between, after, rfl⟩ := h
  exact ⟨lead ++ before, between, after ++ tail, by simp⟩

variable {strictness : Strictness} {size : Nat} {seen : List WrittenAttribute}

theorem exists_of_readValue {value : List Char}
    (h : readValue strictness size s = .ok (value, rest)) :
    ∃ lead after, s = lead ++ (value ++ after) ∧ rest <:+ after := by
  have hspace := List.takeWhile_append_dropWhile (p := isSpace) (l := s)
  unfold readValue at h
  split at h
  · cases h
  · next c tail hdrop =>
    rw [hdrop] at hspace
    split at h
    · split at h
      · next hcut =>
        cases h
        refine ⟨s.takeWhile isSpace ++ [c], c :: rest, ?_, List.suffix_cons c rest⟩
        rw [List.append_assoc, List.singleton_append, ← cut?_eq_some hcut, hspace]
      · cases h
    · split at h
      · cases h
        refine ⟨s.takeWhile isSpace, tail.dropWhile (!isSpace ·), ?_, List.suffix_rfl⟩
        rw [List.cons_append, List.takeWhile_append_dropWhile, hspace]
      · cases h

theorem exists_of_readAttribute {c : Char} {a : WrittenAttribute}
    (h : readAttribute strictness size seen c s = .ok (a, rest)) :
    a.IsIn (c :: s) ∧ rest <:+ s := by
  have hkey := List.takeWhile_append_dropWhile (p := isKeyChar) (l := s)
  have hspace := List.takeWhile_append_dropWhile (p := isSpace) (l := s.dropWhile isKeyChar)
  have hsuffix : (s.dropWhile isKeyChar).dropWhile isSpace <:+ s :=
    (List.dropWhile_suffix _).trans (List.dropWhile_suffix _)
  simp only [readAttribute] at h
  split at h
  · next tail hequals =>
    rw [hequals] at hspace hsuffix
    split at h
    · cases h
    · split at h
      · next value rest' hvalue =>
        cases h
        obtain ⟨lead, after, rfl, hrest⟩ := exists_of_readValue hvalue
        have hafter : after <:+ '=' :: (lead ++ (value ++ after)) :=
          ⟨'=' :: (lead ++ value), by simp⟩
        refine ⟨⟨[], (s.dropWhile isKeyChar).takeWhile isSpace ++ '=' :: lead, after, ?_⟩,
          hrest.trans (hafter.trans hsuffix)⟩
        simp only [List.nil_append, List.append_assoc, List.cons_append, hspace, hkey]
      · cases h
  · next tail =>
    split at h
    · cases h
      exact ⟨⟨[], [], s.dropWhile isKeyChar, by simp [hkey]⟩, hsuffix⟩
    · cases h

theorem isIn_of_mem_attributesFrom {a : WrittenAttribute}
    (h : a ∈ (attributesFrom strictness size seen s).read) : a.IsIn s := by
  fun_induction attributesFrom strictness size seen s with
  | case1 => cases h
  | case2 => cases h
  | case3 seen s c tail hs b rest hread _ later ih =>
    obtain ⟨hb, hrest⟩ := exists_of_readAttribute hread
    have htail : c :: tail <:+ s := hs ▸ List.dropWhile_suffix _
    rcases List.mem_cons.1 h with rfl | h
    · exact hb.of_isInfix htail.isInfix
    · exact (ih h).of_isInfix (hrest.trans ((List.suffix_cons c tail).trans htail)).isInfix

theorem isIn_of_mem_attributes {a : WrittenAttribute} {content : List Char}
    (h : a ∈ (attributes strictness content).read) : a.IsIn content :=
  (isIn_of_mem_attributesFrom h).of_isInfix (List.dropWhile_suffix _).isInfix

/-- A name is found in a text behind `found`, between white space and its end. -/
structure NameFound (name found s : List Char) : Prop where
  place : ∃ rest, s = found ++ (name ++ rest) ∧ endsName rest
  behindBlank : found.getLast?.any isBlank

/-- A cursor has gone over a text. -/
structure TagCursor.IsBehind (cursor : TagCursor) (consumed : List Char) : Prop where
  before : cursor.before = consumed.getLast?
  lines : cursor.lines = lineFeeds consumed

theorem TagCursor.isBehind_append {lead name : List Char} {lines : Nat} (rest : List Char)
    (hname : name ≠ []) (hlines : lines = lineFeeds lead) :
    (⟨name.getLast?, lines + lineFeeds name, rest⟩ : TagCursor).IsBehind (lead ++ name) := by
  refine ⟨?_, ?_⟩
  · rw [List.getLast?_append_of_ne_nil lead hname]
  · rw [lineFeeds_append, ← hlines]

/-- The search for a name finds it at a place, and goes on behind it. -/
theorem findName?_found {first : Char} {others consumed : List Char} {before : Option Char}
    {lines k : Nat} {cursor : TagCursor} (hbefore : before = consumed.getLast?)
    (hlines : lines = lineFeeds consumed)
    (h : findName? first others before lines s = some (k, cursor)) :
    ∃ found, NameFound (first :: others) found (consumed ++ s) ∧ k = lineFeeds found ∧
      cursor.IsBehind (found ++ first :: others) ∧
      consumed ++ s = (found ++ first :: others) ++ cursor.rest := by
  fun_induction findName? first others before lines s generalizing consumed with
  | case1 => cases h
  | case2 before lines c tail rest hafter _ last ended =>
    rename_i haccept
    cases h
    simp only [Bool.and_eq_true] at haccept
    have hs := after?_eq_some hafter
    have hfound : NameFound (first :: others) consumed (consumed ++ c :: tail) :=
      ⟨⟨rest, by rw [hs], haccept.2⟩, hbefore ▸ haccept.1⟩
    refine ⟨consumed, hfound, hlines, ?_, by simp [hs]⟩
    exact TagCursor.isBehind_append rest (List.cons_ne_nil first others) hlines
  | case3 before lines c tail rest hafter _ last ended _ =>
    rename_i ih
    have hs := after?_eq_some hafter
    have hbehind := TagCursor.isBehind_append rest (List.cons_ne_nil first others) hlines
    have := ih hbehind.before hbehind.lines h
    rwa [List.append_assoc, ← hs] at this
  | case4 before lines c tail hafter ih =>
    have hfeeds : (if c = '\n' then lines + 1 else lines) = lineFeeds (consumed ++ [c]) := by
      rw [lineFeeds_append, ← hlines]
      by_cases hc : c = '\n' <;> simp [hc]
    have hbefore' : some c = (consumed ++ [c]).getLast? := by simp
    have := ih hbefore' hfeeds h
    rwa [List.append_assoc, List.singleton_append] at this

/-- An attribute is one of those that are written in a tag. It has the line on which its name is
found in the text of the tag, or that of the tag if it is not found. -/
def Attribute.IsLocated (a : Attribute) (tagLine : Nat) (text : List Char)
    (written : List WrittenAttribute) : Prop :=
  ∃ w ∈ written, a.name = String.ofList w.name ∧ a.value = String.ofList w.value ∧
    (a.line = tagLine ∨ ∃ found, NameFound w.name found text ∧ a.line = tagLine + lineFeeds found)

theorem Attribute.IsLocated.cons {a : Attribute} {tagLine : Nat} {text : List Char}
    {written : List WrittenAttribute} (h : a.IsLocated tagLine text written)
    (w : WrittenAttribute) : a.IsLocated tagLine text (w :: written) := by
  obtain ⟨v, hv, hplace⟩ := h
  exact ⟨v, List.mem_cons_of_mem w hv, hplace⟩

theorem isLocated_of_mem_locate {tagLine : Nat} {cursor : TagCursor} {consumed text : List Char}
    {written : List WrittenAttribute} {a : Attribute} (hcursor : cursor.IsBehind consumed)
    (htext : text = consumed ++ cursor.rest) (h : a ∈ locate tagLine cursor written) :
    a.IsLocated tagLine text written := by
  induction written generalizing cursor consumed with
  | nil => cases h
  | cons w written ih =>
    unfold locate at h
    split at h
    · rcases List.mem_cons.1 h with rfl | h
      · exact ⟨w, List.mem_cons_self, rfl, rfl, .inl rfl⟩
      · exact (ih hcursor htext h).cons w
    next first others hname =>
    split at h
    · next lines next hfind =>
      obtain ⟨found, hfound, rfl, hbehind, hrest⟩ :=
        findName?_found hcursor.before hcursor.lines hfind
      rcases List.mem_cons.1 h with rfl | h
      · refine ⟨w, List.mem_cons_self, rfl, rfl, .inr ⟨found, ?_, rfl⟩⟩
        rwa [hname, htext]
      · exact (ih hbehind (htext.trans hrest) h).cons w
    · rcases List.mem_cons.1 h with rfl | h
      · exact ⟨w, List.mem_cons_self, rfl, rfl, .inl rfl⟩
      · exact (ih hcursor htext h).cons w

/-- The attributes of a tag that a document has: each is written in the tag, and its line is that on
which its name is found there. -/
theorem exists_of_growthOfTag {e : Event} {content : List Char} {change : Growth} {tag : Tag}
    (h : growthOfTag e content = .ok change)
    (htag : change = .opening tag ∨ change = .leaf (.element tag [])) :
    ∀ a ∈ tag.attributes, a.IsLocated e.line e.written (attributes .lenient content).read := by
  intro a ha
  unfold growthOfTag at h
  dsimp only at h
  have hlocate : tag.attributes =
      locate e.line { rest := e.written } (attributes .lenient content).read := by
    split at h
    · cases h
    · split at h <;> cases h <;> rcases htag with htag | htag <;> cases htag <;> rfl
  have hcursor : ({ rest := e.written } : TagCursor).IsBehind [] := ⟨rfl, rfl⟩
  rw [hlocate] at ha
  exact isLocated_of_mem_locate hcursor rfl ha

end PotExtract.Markup
