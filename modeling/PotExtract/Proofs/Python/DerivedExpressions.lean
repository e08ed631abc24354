import PotExtract.Proofs.Python.Grammar

/-! Every expression that the grammar derives is accepted. The words of an expression lead from a
place where a value is awaited to one where the text may end, and leave the brackets that are open
around it as they are. -/

namespace PotExtract.Python.Grammar

/-! ### Places between words -/

/-- Something stands in front. -/
def Started (last : Option Token) : Prop :=
  last.isSome

/-- A value may come: there is none in front that it would stand beside. -/
def Awaits (last : Option Token) : Prop :=
  ∀ t ∈ last, t.isOperand = false ∧ t.isCloser = false

/-- A value must come. -/
def Requires (last : Option Token) : Prop :=
  Started last ∧ Awaits last

/-- The text may end. -/
def MayEnd (last : Option Token) : Prop :=
  last.any Token.mayBeLast

/-- A string stands in front, which another one may continue. -/
def BehindString (last : Option Token) : Prop :=
  ∃ t ∈ last, t.kind = .string

theorem MayEnd.started {last : Option Token} (h : MayEnd last) : Started last := by
  cases last with
  | none => cases h
  | some t => rfl

/-- Words lead from every place of one kind to a place of another kind, within the same brackets. -/
def Carries (closers : List String) (p q : Option Token → Prop) (words : List Word) : Prop :=
  ∀ last, p last → ∃ last', q last' ∧
    (words.map (Word.token 1)).foldlM Beginning.take? ⟨closers, last⟩ = some ⟨closers, last'⟩

section

variable {closers : List String} {p q r p' q' : Option Token → Prop} {u v words : List Word}
  {w : Word}

theorem Carries.nil (h : ∀ last, p last → q last) : Carries closers p q [] := by
  intro last hp
  exact ⟨last, h last hp, rfl⟩

theorem Carries.append (hu : Carries closers p q u) (hv : Carries closers q r v) :
    Carries closers p r (u ++ v) := by
  intro last hp
  obtain ⟨middle, hq, hfold⟩ := hu last hp
  obtain ⟨last', hr, hfold'⟩ := hv middle hq
  refine ⟨last', hr, ?_⟩
  rw [List.map_append, List.foldlM_append, hfold]
  exact hfold'

theorem Carries.cons (hw : Carries closers p q [w]) (hv : Carries closers q r v) :
    Carries closers p r (w :: v) :=
  hw.append hv

theorem Carries.weaken (h : Carries closers p q words) (hp : ∀ last, p' last → p last)
    (hq : ∀ last, q last → q' last) : Carries closers p' q' words := by
  intro last hlast
  obtain ⟨last', hlast', hfold⟩ := h last (hp last hlast)
  exact ⟨last', hq last' hlast', hfold⟩

theorem Carries.started (h : Carries closers p MayEnd words) : Carries closers p Started words :=
  h.weaken (fun _ h => h) fun _ h => h.started

theorem Carries.required (h : Carries closers Awaits q words) : Carries closers Requires q words :=
  h.weaken (fun _ h => h.2) fun _ h => h

/-- A word that leaves the brackets as they are. -/
theorem carries_word
    (hclosers : Beginning.closersBehind? closers (w.token 1) = some closers)
    (hgo : ∀ last, p last → Beginning.mayGoOn ⟨closers, last⟩ (w.token 1)) (hq : q (some (w.token 1))) :
    Carries closers p q [w] := by
  intro last hp
  refine ⟨some (w.token 1), hq, ?_⟩
  simp [Word.take?_token, hgo last hp, hclosers]

/-- Whether a word leaves the brackets as they are, outside of them as well. -/
def isNeutral (w : Word) : Bool :=
  !(w.token 1).isCloser && !(["(", "[", "\x7b", "=", ";"].any (w.token 1).isOperator) &&
    !((w.token 1).kind == .name && statementWords.contains (w.token 1).text)

theorem closersBehind?_of_isNeutral (h : isNeutral w) :
    Beginning.closersBehind? closers (w.token 1) = some closers := by
  simp [isNeutral] at h
  have hword : closers = [] → (w.token 1).kind = .name → (w.token 1).text ∉ statementWords :=
    fun _ hname => h.2.resolve_left (absurd hname)
  simpa [Beginning.closersBehind?, h] using hword

/-! ### Operands -/

theorem isNeutral_of_isOperand (h : (w.token 1).isOperand) : isNeutral w := by
  cases w with
  | name n =>
    simp [Token.isOperand, Word.token] at h
    simp [isNeutral, Token.isCloser, Token.isOperator, Word.token, h]
  | operator op => cases h
  | _ => simp [isNeutral, Token.isCloser, Token.isOperator, Word.token]

theorem mayBeLast_of_isOperand (h : (w.token 1).isOperand) : (w.token 1).mayBeLast := by
  cases w with
  | name n =>
    simp [Token.isOperand, Word.token] at h
    simp [Token.mayBeLast, Word.token, h]
  | operator op => cases h
  | _ => simp [Token.mayBeLast, Word.token]

theorem mayGoOn_of_awaits {last : Option Token} (h : Awaits last) (hw : (w.token 1).isOperand) :
    Beginning.mayGoOn ⟨closers, last⟩ (w.token 1) := by
  cases last with
  | none => cases w <;> first | rfl | cases hw
  | some s =>
    obtain ⟨hs, hs'⟩ := h s rfl
    simp [Beginning.mayGoOn, Token.mayPrecede, hs, hs']

/-- A value may come where one is awaited, and may be the last one. -/
theorem carries_operand (h : (w.token 1).isOperand) : Carries closers Awaits MayEnd [w] :=
  carries_word (closersBehind?_of_isNeutral (isNeutral_of_isOperand h))
    (fun _ hlast => mayGoOn_of_awaits hlast h) (mayBeLast_of_isOperand h)

theorem carries_name {n : String} (h : isName n) : Carries closers Awaits MayEnd [.name n] := by
  have hwords : (expressionWords ++ statementWords).all keywords.contains := by decide
  have hn : n ∉ keywords := by simpa [isName] using (Bool.and_eq_true_iff.1 h).2
  refine carries_operand ?_
  have hnot : n ∉ expressionWords ++ statementWords := fun hmem =>
    hn (by simpa using List.all_eq_true.1 hwords n hmem)
  simpa [Token.isOperand, Word.token, not_or] using hnot

/-- Strings may stand behind one another. -/
theorem carries_strings (first : String) (others : List String) :
    Carries closers Awaits MayEnd (.string first :: others.map .string) := by
  have hneutral : ∀ s, isNeutral (.string s) := fun s => isNeutral_of_isOperand rfl
  have hothers : Carries closers BehindString BehindString (others.map .string) := by
    induction others with
    | nil => exact .nil fun _ h => h
    | cons s others ih =>
      refine .cons (carries_word (closersBehind?_of_isNeutral (hneutral s)) ?_ ⟨_, rfl, rfl⟩) ih
      rintro last ⟨t, ht, hkind⟩
      obtain rfl : last = some t := ht
      simp [Beginning.mayGoOn, Token.mayPrecede, hkind, Word.token]
  have hfirst : Carries closers Awaits BehindString [.string first] :=
    carries_word (closersBehind?_of_isNeutral (hneutral first))
      (fun _ hlast => mayGoOn_of_awaits hlast rfl) ⟨_, rfl, rfl⟩
  refine (hfirst.cons hothers).weaken (fun _ h => h) ?_
  rintro last ⟨t, ht, hkind⟩
  obtain rfl : last = some t := ht
  simp [MayEnd, Token.mayBeLast, hkind]

/-! ### Words between operands -/

/-- Whether a word stands between values and leaves the brackets as they are. -/
def isLink (w : Word) : Bool :=
  !(w.token 1).isOperand && isNeutral w

theorem mayGoOn_of_started {last : Option Token} (h : Started last)
    (hw : (w.token 1).isOperand = false) : Beginning.mayGoOn ⟨closers, last⟩ (w.token 1) := by
  cases last with
  | none => cases h
  | some s => simp [Beginning.mayGoOn, Token.mayPrecede, hw]

theorem requires_of_isLink (h : isLink w) : Requires (some (w.token 1)) := by
  refine ⟨rfl, fun t ht => ?_⟩
  obtain rfl : w.token 1 = t := Option.some.inj ht
  simp [isLink, isNeutral] at h
  exact ⟨h.1, h.2.1.1⟩

theorem carries_link (h : isLink w) : Carries closers Started Requires [w] := by
  obtain ⟨hvalue, hneutral⟩ := Bool.and_eq_true_iff.1 h
  refine carries_word (closersBehind?_of_isNeutral hneutral) (fun last hlast => ?_)
    (requires_of_isLink h)
  exact mayGoOn_of_started hlast (by simpa using hvalue)

theorem carries_links (h : ∀ w ∈ words, isLink w) (hne : words ≠ []) :
    Carries closers Started Requires words := by
  induction words with
  | nil => exact absurd rfl hne
  | cons w words ih =>
    obtain ⟨hw, hwords⟩ := List.forall_mem_cons.1 h
    by_cases hnil : words = []
    · rw [hnil]
      exact carries_link hw
    · exact (carries_link hw).cons ((ih hwords hnil).weaken (fun _ h => h.1) fun _ h => h)

theorem Carries.link (hu : Carries closers p Started u) (hw : isLink w)
    (hv : Carries closers Requires r v) : Carries closers p r (u ++ w :: v) :=
  hu.append ((carries_link hw).cons hv)

/-- A word that may come first may come anywhere. -/
theorem carries_leader (h : isLink w) (hfirst : (w.token 1).mayBeFirst) :
    Carries closers (fun _ => True) Requires [w] := by
  obtain ⟨hvalue, hneutral⟩ := Bool.and_eq_true_iff.1 h
  refine carries_word (closersBehind?_of_isNeutral hneutral) (fun last _ => ?_)
    (requires_of_isLink h)
  cases last with
  | none => exact hfirst
  | some s => exact mayGoOn_of_started rfl (by simpa using hvalue)

/-- A value is given to a name inside of brackets only. -/
theorem carries_equals (h : closers ≠ []) : Carries closers Started Requires [.operator "="] := by
  have hclosers : Beginning.closersBehind? closers ((Word.operator "=").token 1) = some closers := by
    cases closers with
    | nil => exact absurd rfl h
    | cons closer closers => rfl
  refine carries_word hclosers (fun last hlast => mayGoOn_of_started hlast rfl) ⟨rfl, ?_⟩
  intro t ht
  obtain rfl := Option.some.inj ht
  decide

/-- A row of items may end with a comma. -/
theorem carries_comma (hq : q (some ((Word.operator ",").token 1))) :
    Carries closers Started q [.operator ","] :=
  carries_word (closersBehind?_of_isNeutral (by decide))
    (fun _ hlast => mayGoOn_of_started hlast rfl) hq

/-! ### Brackets and rows -/

theorem take?_opener (b : Bracket) (closers : List String) (last : Option Token) :
    Beginning.take? ⟨closers, last⟩ ((Word.operator b.opener).token 1) =
      some ⟨b.closer :: closers, some ((Word.operator b.opener).token 1)⟩ := by
  have hgo : Beginning.mayGoOn ⟨closers, last⟩ ((Word.operator b.opener).token 1) := by
    cases last with
    | none => cases b <;> rfl
    | some s => exact mayGoOn_of_started rfl rfl
  rw [Word.take?_token, if_pos hgo]
  cases b <;> rfl

theorem take?_closer (b : Bracket) (closers : List String) {last : Option Token} (h : Started last) :
    Beginning.take? ⟨b.closer :: closers, last⟩ ((Word.operator b.closer).token 1) =
      some ⟨closers, some ((Word.operator b.closer).token 1)⟩ := by
  rw [Word.take?_token, if_pos (mayGoOn_of_started h rfl)]
  cases b <;> rfl

/-- The words between brackets know nothing of those around. -/
theorem carries_enclose (b : Bracket) (h : Carries (b.closer :: closers) Requires Started words) :
    Carries closers (fun _ => True) MayEnd (b.enclose words) := by
  intro last _
  have hopener : Requires (some ((Word.operator b.opener).token 1)) := by
    refine ⟨rfl, fun t ht => ?_⟩
    obtain rfl := Option.some.inj ht
    cases b <;> decide
  obtain ⟨last', hstarted, hfold⟩ := h _ hopener
  refine ⟨some ((Word.operator b.closer).token 1), by cases b <;> rfl, ?_⟩
  simp [Bracket.enclose, List.foldlM_append, take?_opener, hfold, take?_closer b closers hstarted]

/-- Items in a row stand where any of them could. -/
theorem carries_row_of_ne_nil {items : List (List Word)} (comma : Bool) (hne : items ≠ [])
    (hp : ∀ last, Requires last → p last) (hq : ∀ last, q last → Started last)
    (hcomma : q (some ((Word.operator ",").token 1)))
    (h : ∀ i ∈ items, Carries closers p q i) : Carries closers p q (row comma items) := by
  fun_induction row comma items with
  | case1 => exact absurd rfl hne
  | case2 item _ =>
    have hitem := h item List.mem_cons_self
    exact (hitem.weaken (fun _ h => h) hq).append (carries_comma hcomma)
  | case3 item => exact h item List.mem_cons_self
  | case4 item items hitems ih =>
    obtain ⟨hitem, hrest⟩ := List.forall_mem_cons.1 h
    have hlink : Carries closers Started p [.operator ","] :=
      (carries_link (by decide)).weaken (fun _ h => h) hp
    exact (hitem.weaken (fun _ h => h) hq).append (hlink.cons (ih (by simpa using hitems) hrest))

theorem carries_row {items : List (List Word)} (comma : Bool)
    (h : ∀ i ∈ items, Carries closers Requires Started i) :
    Carries closers Requires Started (row comma items) := by
  cases items with
  | nil => exact .nil fun _ h => h.1
  | cons item items =>
    exact carries_row_of_ne_nil comma (List.cons_ne_nil _ _) (fun _ h => h) (fun _ h => h) rfl h

theorem carries_flatten {parts : List (List Word)} (h : ∀ c ∈ parts, Carries closers p p c) :
    Carries closers p p parts.flatten := by
  induction parts with
  | nil => exact .nil fun _ h => h
  | cons c parts ih =>
    obtain ⟨hc, hparts⟩ := List.forall_mem_cons.1 h
    exact hc.append (ih hparts)

end

/-! ### The categories -/

/-- What the words of a category do to the reading of an expression. -/
def Means : Category → List Word → Prop
  | .expression, words => ∀ closers, Carries closers Awaits MayEnd words
  | .clause, words => ∀ closers, Carries closers Started Started words
  | _, words => ∀ closers, closers ≠ [] → Carries closers Requires Started words

/-- What is derived means what its category does. -/
theorem Derives.means {category : Category} {words : List Word} (h : Derives category words) :
    Means category words := by
  -- a value may stand wherever an item of a row may
  have hitem : ∀ {closers e}, Means .expression e → Carries closers Requires Started e :=
    fun h => (h _).required.started
  -- brackets may stand behind anything
  have hbehind : ∀ {closers b e content}, Means .expression e →
      Carries (Bracket.closer b :: closers) Requires Started content →
      Carries closers Awaits MayEnd (e ++ b.enclose content) :=
    fun he hcontent => (he _).append ((carries_enclose _ hcontent).weaken (fun _ _ => trivial) fun _ h => h)
  have halone : ∀ {closers b content},
      Carries (Bracket.closer b :: closers) Requires Started content →
      Carries closers Awaits MayEnd (b.enclose content) :=
    fun hcontent => (carries_enclose _ hcontent).weaken (fun _ _ => trivial) fun _ h => h
  induction h with
  | name hn => exact fun closers => carries_name hn
  | number hn => exact fun closers => carries_operand rfl
  | strings hfirst hothers => exact fun closers => carries_strings _ _
  | member _ hn ih =>
    intro closers
    exact (ih closers).started.link (by decide) (carries_name hn).required
  | call comma _ _ ihf iha =>
    intro closers
    exact hbehind ihf (carries_row comma fun a ha => iha a ha _ (List.cons_ne_nil _ _))
  | generatorCall _ _ ihf ih =>
    intro closers
    exact hbehind ihf (ih _ (List.cons_ne_nil _ _))
  | subscript comma _ _ _ iho ihi =>
    intro closers
    exact hbehind iho (carries_row comma fun i hi => ihi i hi _ (List.cons_ne_nil _ _))
  | unary ho _ ih =>
    intro closers
    have hall : unaryOperators.all fun w => isLink w && (w.token 1).mayBeFirst := by decide
    obtain ⟨hw, hfirst⟩ := Bool.and_eq_true_iff.1 (List.all_eq_true.1 hall _ ho)
    exact ((carries_leader hw hfirst).weaken (fun _ _ => trivial) fun _ h => h).cons (ih closers).required
  | @binary operator _ _ ho _ _ ihl ihr =>
    intro closers
    have hall : binaryOperators.all fun words => words.all isLink && words ≠ [] := by decide
    obtain ⟨hlinks, hne⟩ := Bool.and_eq_true_iff.1 (List.all_eq_true.1 hall _ ho)
    have hoperator : Carries closers Started Requires operator :=
      carries_links (List.all_eq_true.1 hlinks) (by simpa using hne)
    exact (ihl closers).started.append (hoperator.append (ihr closers).required)
  | conditional _ _ _ ihv ihc iho =>
    intro closers
    refine (ihv closers).started.link (by decide) ?_
    exact (hitem ihc).link (by decide) (iho closers).required
  | @lambda parameters body hp _ ih =>
    intro closers
    have hparameters : Carries closers Requires Started
        (row false (parameters.map fun p => [.name p])) := by
      refine carries_row false fun i hi => ?_
      obtain ⟨p, hp', rfl⟩ := List.mem_map.1 hi
      exact (carries_name (hp p hp')).required.started
    have hleader : Carries closers Awaits Requires [.name "lambda"] :=
      (carries_leader (by decide) (by decide)).weaken (fun _ _ => trivial) fun _ h => h
    exact hleader.cons (hparameters.link (by decide) (ih closers).required)
  | tuple comma hne _ ih =>
    intro closers
    exact carries_row_of_ne_nil comma hne (fun _ h => h.2) (fun _ h => h.started) rfl
      fun e he => ih e he closers
  | display bracket comma _ ih =>
    intro closers
    exact halone (carries_row comma fun e he => hitem (ih e he))
  | dict comma _ ih =>
    intro closers
    exact halone (carries_row comma fun e he => ih e he _ (List.cons_ne_nil _ _))
  | generator bracket _ ih =>
    intro closers
    exact halone (ih _ (List.cons_ne_nil _ _))
  | noBound => exact fun closers _ => .nil fun _ h => h.1
  | bound _ ih | positional _ ih | index _ ih => exact fun closers _ => hitem ih
  | keyword hn _ ih =>
    intro closers hinside
    exact (carries_name hn).required.started.cons ((carries_equals hinside).cons (hitem ih))
  | slice _ _ ihl ihh =>
    intro closers hinside
    exact (ihl closers hinside).link (by decide) (ihh closers hinside)
  | steppedSlice _ _ _ ihl ihh ihs =>
    intro closers hinside
    refine (ihl closers hinside).link (by decide) ?_
    exact (ihh closers hinside).link (by decide) (ihs closers hinside)
  | entry _ _ ihk ihv =>
    intro closers _
    exact (hitem ihk).link (by decide) (hitem ihv)
  | @clause targets conditions source comma hne _ _ _ iht ihs ihc =>
    intro closers
    have htargets : Carries closers Requires Started (row comma targets) :=
      carries_row comma fun e he => hitem (iht e he)
    have hconditions : Carries closers Started Started (conditions.flatMap (.name "if" :: ·)) := by
      rw [List.flatMap_def]
      refine carries_flatten fun c hc => ?_
      obtain ⟨e, he, rfl⟩ := List.mem_map.1 hc
      exact (carries_link (by decide)).cons (hitem (ihc e he))
    exact (carries_link (by decide)).cons
      (htargets.link (by decide) ((hitem ihs).append hconditions))
  | comprehension _ _ _ ihe ihc =>
    intro closers _
    exact (hitem ihe).append (carries_flatten fun c hc => ihc c hc closers)
  | dictComprehension _ _ _ ihe ihc =>
    intro closers
    exact halone ((ihe _ (List.cons_ne_nil _ _)).append (carries_flatten fun c hc => ihc c hc _))

/-- Every expression that the grammar derives is accepted, when it is written with one space between
its words. -/
theorem isExpression_write_of_derives {words : List Word} (h : Derives .expression words) :
    isExpression (Word.write words) := by
  have hawaits : Awaits none := by
    intro t ht
    cases ht
  obtain ⟨last, hend, hfold⟩ := h.means [] none hawaits
  refine Word.isExpression_write h.areAlone ?_
  rw [areExpression, hfold]
  simpa [MayEnd, Beginning.isWhole] using hend

/-- A function that makes a list of the rows with a key, or a dictionary. -/
theorem isExpression_write_of_derives_lambda :
    ∃ words, Derives .expression words ∧ isExpression (Word.write words) ∧
      Word.write words = "lambda x : [ f ( 'it\\'s' \"a\" , k = - 1.5e+3 ) [ : x ] for y , z " ++
        "in x . rows if y not in ( 1 , ) ] if x is not z else \x7b x : ~ 3 \x7d" := by
  have hname : ∀ n, isName n → Derives .expression [.name n] := fun n hn => .name hn
  have hnumber : ∀ n, areDigits n.toList → Derives .expression [.number n] := fun n hn =>
    .number ⟨n.toList, [], .whole hn, .none, by simp⟩
  have hx : Derives .expression [.name "x"] := hname "x" (by decide)
  have hstrings : Derives .expression [.string "'it\\'s'", .string "\"a\""] := by
    have hfirst : IsLiteral "'it\\'s'" :=
      isLiteral_write ⟨'\'', false, .inr rfl⟩ rfl ['i', 't', '\'', 's']
    have hsecond : IsLiteral "\"a\"" := isLiteral_write ⟨'"', false, .inl rfl⟩ rfl ['a']
    exact .strings hfirst (List.forall_mem_singleton.2 hsecond)
  have hfloat : Derives .expression [.operator "-", .number "1.5e+3"] := by
    refine .unary (by decide) (.number ⟨"1.5".toList, "e+3".toList, ?_, ?_, rfl⟩)
    · exact @IsMantissa.point ['1'] ['5'] (by decide) (.inr (by decide))
    · exact @IsExponent.some 'e' ['+'] ['3'] (.inl rfl) (.inr (.inl rfl)) (by decide)
  have hcall := @Derives.call _ [_, _] false (hname "f" (by decide)) (List.forall_mem_cons.2
    ⟨.positional hstrings, List.forall_mem_singleton.2 (.keyword (n := "k") (by decide) hfloat)⟩)
  have hslice := @Derives.subscript _ [_] false hcall (List.cons_ne_nil _ _)
    (List.forall_mem_singleton.2 (.slice .noBound (.bound hx)))
  have htest := @Derives.binary [.name "not", .name "in"] _ _ (by decide) (hname "y" (by decide))
    (@Derives.display [_] .round true (List.forall_mem_singleton.2 (hnumber "1" (by decide))))
  have hclause := @Derives.clause [_, _] [_] _ false (List.cons_ne_nil _ _) (List.forall_mem_cons.2
    ⟨hname "y" (by decide), List.forall_mem_singleton.2 (hname "z" (by decide))⟩)
    (.member (n := "rows") hx (by decide)) (List.forall_mem_singleton.2 htest)
  have hlist := Derives.generator .square (@Derives.comprehension _ [_] hslice (List.cons_ne_nil _ _)
    (List.forall_mem_singleton.2 hclause))
  have hdict := @Derives.dict [_] false (List.forall_mem_singleton.2
    (.entry hx (@Derives.unary (.operator "~") _ (by decide) (hnumber "3" (by decide)))))
  have hcondition := @Derives.binary [.name "is", .name "not"] _ _ (by decide) hx
    (hname "z" (by decide))
  have hlambda := @Derives.lambda ["x"] _ (List.forall_mem_singleton.2 (by decide))
    (.conditional hlist hcondition hdict)
  exact ⟨_, hlambda, isExpression_write_of_derives hlambda, by decide +kernel⟩

end PotExtract.Python.Grammar
