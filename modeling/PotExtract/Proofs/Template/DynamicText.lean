import PotExtract.Proofs.Markup.Encoding
import PotExtract.Proofs.Tales.Segments
import PotExtract.Proofs.Template.Elements
import PotExtract.Proofs.Text.Trim
import PotExtract.Proofs.Text.Words

/-! Text of nothing but interpolations and white space, which is not translated. Interpolations are
told in two ways: the text of an element drops each one up to its first closing brace, and the
search for code takes each one up to the last brace in front of which its code is valid. Where an
expression has a closing brace of its own, what the first way leaves of it makes the text a
message. -/

namespace PotExtract.Template

open Text Markup

/-! ### Interpolations up to the first brace -/

/-- White space and interpolations that have no closing brace inside. -/
inductive IsDynamicText : List Char → Prop
  | nil : IsDynamicText []
  | blank {c : Char} {s : List Char} : isBlank c → IsDynamicText s → IsDynamicText (c :: s)
  | interpolation {e rest : List Char} : '\x7d' ∉ e → IsDynamicText rest →
      IsDynamicText ('$' :: '\x7b' :: (e ++ '\x7d' :: rest))

theorem IsDynamicText.of_blank {s : List Char} (h : ∀ c ∈ s, isBlank c) : IsDynamicText s := by
  induction s with
  | nil => exact .nil
  | cons c s ih =>
    obtain ⟨hc, hs⟩ := List.forall_mem_cons.1 h
    exact .blank hc (ih hs)

theorem IsDynamicText.blank_append {w s : List Char} (hw : ∀ c ∈ w, isBlank c)
    (h : IsDynamicText s) : IsDynamicText (w ++ s) := by
  induction w with
  | nil => exact h
  | cons c w ih =>
    obtain ⟨hc, hw⟩ := List.forall_mem_cons.1 hw
    exact .blank hc (ih hw)

theorem isDynamicText_cons_iff {c : Char} {s : List Char}
    (h : c = '$' → s.head? ≠ some '\x7b') :
    IsDynamicText (c :: s) ↔ isBlank c ∧ IsDynamicText s := by
  constructor
  · intro htext
    cases htext with
    | blank hc hs => exact ⟨hc, hs⟩
    | interpolation => exact absurd rfl (h rfl)
  · rintro ⟨hc, hs⟩
    exact .blank hc hs

theorem isDynamicText_opening_iff {s : List Char} :
    IsDynamicText ('$' :: '\x7b' :: s) ↔
      ∃ e rest, cut? '\x7d' s = some (e, rest) ∧ IsDynamicText rest := by
  constructor
  · intro htext
    generalize htext' : '$' :: '\x7b' :: s = text at htext
    cases htext with
    | nil => cases htext'
    | blank hc _ =>
      obtain ⟨rfl, -⟩ := List.cons.inj htext'
      cases hc
    | @interpolation e rest he hrest =>
      obtain ⟨-, h⟩ := List.cons.inj htext'
      obtain ⟨-, rfl⟩ := List.cons.inj h
      exact ⟨e, rest, cut?_append_cons he rest, hrest⟩
  · rintro ⟨e, rest, hcut, hrest⟩
    rw [cut?_eq_some hcut]
    exact .interpolation (not_mem_of_cut? hcut) hrest

/-- White space is all that is left of a text without its interpolations exactly if there is nothing
else beside them. -/
theorem forall_isBlank_withoutInterpolations {s : List Char} :
    (∀ c ∈ withoutInterpolations s, isBlank c) ↔ IsDynamicText s := by
  fun_induction withoutInterpolations s with
  | case1 s e rest hcut _ ih =>
    rw [ih, isDynamicText_opening_iff]
    constructor
    · exact fun h => ⟨e, rest, hcut, h⟩
    · rintro ⟨e', rest', hcut', h⟩
      rw [hcut] at hcut'
      cases hcut'
      exact h
  | case2 s hcut =>
    rw [isDynamicText_opening_iff]
    constructor
    · intro h
      exact absurd (h '$' List.mem_cons_self) (by decide)
    · rintro ⟨e, rest, hcut', -⟩
      rw [hcut] at hcut'
      cases hcut'
  | case3 c s hother ih =>
    have hhead : c = '$' → s.head? ≠ some '\x7b' := by
      rintro rfl hhead
      obtain ⟨rest, rfl⟩ := List.head?_eq_some_iff.1 hhead
      exact hother rest rfl rfl
    rw [List.forall_mem_cons, ih, isDynamicText_cons_iff hhead]
  | case4 => exact ⟨fun _ => .nil, fun _ c hc => absurd hc List.not_mem_nil⟩

/-- A text of the same words, so far as they go, has the same interpolation at its start. -/
theorem exists_of_words_append {a s t : List Char} {c : Char} (hc : isBlank c = false) (ha : c ∉ a)
    (h : words (a ++ c :: s) = words t) :
    ∃ a' s', t = a' ++ c :: s' ∧ c ∉ a' ∧ words s = words s' := by
  have hapart : ∀ w : List Char, (∀ d ∈ w, isBlank d) → c ∉ w := by
    intro w hw hmem
    rw [hw c hmem] at hc
    cases hc
  induction a generalizing t with
  | nil =>
    obtain ⟨w, s', rfl, hw, hs, -⟩ := exists_of_words_cons hc h
    exact ⟨w, s', rfl, hapart w hw, hs⟩
  | cons d a ih =>
    obtain ⟨hd, ha⟩ : c ≠ d ∧ c ∉ a := by simpa using ha
    by_cases hblank : isBlank d
    · rw [List.cons_append, words_cons_of_blank hblank] at h
      exact ih ha h
    · obtain ⟨w, t', rfl, hw, ht', -⟩ := exists_of_words_cons (by simpa using hblank) h
      obtain ⟨a', s', rfl, ha', hs⟩ := ih ha ht'
      refine ⟨w ++ d :: a', s', by simp, ?_, hs⟩
      simp [hapart w hw, hd, ha']

/-- Whether a text is dynamic depends on its words alone. -/
theorem IsDynamicText.of_words_eq {s t : List Char} (hs : IsDynamicText s)
    (h : words s = words t) : IsDynamicText t := by
  induction hs generalizing t with
  | nil => exact .of_blank (words_eq_nil_iff.1 h.symm)
  | blank hc _ ih =>
    rw [words_cons_of_blank hc] at h
    exact ih h
  | @interpolation e rest he _ ih =>
    obtain ⟨w, t', rfl, hw, hbrace, hhead⟩ := exists_of_words_cons (by decide) h
    -- The brace belongs to the word of the dollar sign.
    obtain ⟨body, rfl⟩ : ∃ body, t' = '\x7b' :: body := by
      rw [List.takeWhile_cons_of_pos (by decide)] at hhead
      obtain ⟨later, ht'⟩ := List.takeWhile_prefix (!isBlank ·) (l := t')
      exact ⟨_, by rw [← ht', ← hhead, List.cons_append]⟩
    obtain ⟨-, hbody, -⟩ := of_words_cons_eq (by decide) (by decide) hbrace
    obtain ⟨e', rest', rfl, he', hrest⟩ := exists_of_words_append (by decide) he hbody
    exact .blank_append hw (.interpolation he' (ih hrest))

theorem isDynamic_normalize {s : List Char} :
    isDynamic (String.ofList (normalize s)) ↔ IsDynamicText s := by
  rw [isDynamic, String.toList_ofList, List.isEmpty_iff, trim_eq_nil_iff,
    forall_isBlank_withoutInterpolations]
  have hwords := words_normalize s
  exact ⟨fun h => h.of_words_eq hwords, fun h => h.of_words_eq hwords.symm⟩

/-! ### Interpolations up to the last brace -/

/-- White space and interpolations of the expressions `es`, each of which ends at the closing brace
that the search for code finds. -/
inductive IsInterpolated (engine : Tales.Engine) : List (List Char) → List Char → Prop
  | nil : IsInterpolated engine [] []
  | blank {c : Char} {s : List Char} {es : List (List Char)} :
      isBlank c → IsInterpolated engine es s → IsInterpolated engine es (c :: s)
  | interpolation {e rest : List Char} {es : List (List Char)} :
      Tales.accepted? engine (e ++ '\x7d' :: rest) = some (e, rest) →
      IsInterpolated engine es rest →
      IsInterpolated engine (e :: es) ('$' :: '\x7b' :: (e ++ '\x7d' :: rest))

variable {engine : Tales.Engine} {es : List (List Char)} {s : List Char}

theorem isPlain_of_blank {w : List Char} (h : ∀ c ∈ w, isBlank c) : Tales.IsPlain w := by
  refine ⟨fun hopening => ?_, fun hclosing => ?_, fun hescape => ?_⟩
  · exact absurd (h '$' (hopening.subset List.mem_cons_self)) (by decide)
  · exact absurd (h '\x7d' hclosing) (by decide)
  · exact absurd (h '\\' (List.mem_of_getLast? hescape)) (by decide)

/-- The search finds the code of these expressions and no other, also behind white space. -/
theorem IsInterpolated.exists_interpolationsFrom (h : IsInterpolated engine es s) {w : List Char}
    (hw : ∀ c ∈ w, isBlank c) (offset : Nat) :
    ∃ found, Tales.interpolationsFrom engine offset (w ++ s) = .ok found ∧
      found.map (·.code) = es.flatMap (Tales.pythonParts · engine) := by
  induction h generalizing w offset with
  | nil =>
    have hnone : Tales.opening? false offset (w ++ []) = none :=
      Tales.opening?_append (isPlain_of_blank hw) offset (.inl rfl)
    exact ⟨[], Tales.interpolationsFrom_of_none hnone, rfl⟩
  | @blank c s es hc _ ih =>
    rw [List.append_cons]
    exact ih (fun d hd => (List.mem_append.1 hd).elim (hw d) (List.mem_singleton.1 · ▸ hc)) offset
  | @interpolation e rest es haccepted _ ih =>
    let start := offset + byteLength w
    have hopening : Tales.opening? false offset (w ++ '$' :: '\x7b' :: (e ++ '\x7d' :: rest)) =
        some (start, e ++ '\x7d' :: rest) :=
      Tales.opening?_append (isPlain_of_blank hw) offset (.inr ⟨_, rfl⟩)
    obtain ⟨found, hfound, hcodes⟩ :=
      ih (fun c hc => absurd hc List.not_mem_nil) (start + 2 + byteLength e + 1)
    refine ⟨Tales.codeAt engine start e ++ found, ?_, ?_⟩
    · rw [Tales.interpolationsFrom_of_opening hopening haccepted, ← List.nil_append rest, hfound]
      rfl
    · rw [List.map_append, hcodes, List.flatMap_cons, Tales.codeAt, List.map_map]
      congr 1
      exact List.map_id' _

theorem IsInterpolated.isDynamicText (h : IsInterpolated engine es s)
    (hes : ∀ e ∈ es, '\x7d' ∉ e) : IsDynamicText s := by
  induction h with
  | nil => exact .nil
  | blank hc _ ih => exact .blank hc (ih hes)
  | interpolation _ _ ih =>
    obtain ⟨he, hes⟩ := List.forall_mem_cons.1 hes
    exact .interpolation he (ih hes)

/-! ### The message of dynamic text -/

theorem sentence_text (f : Frame) (text : String) (line : Nat) :
    sentence f [.text text line] = String.ofList (normalize text.toList) := by
  rw [sentence, List.flatMap_singleton]
  rfl

/-- Text that is all of a translated element without a given id is translated if a wanted domain is
in force, unless the text is dynamic. -/
theorem isSome_translation? (ctx : ScanContext) {f : Frame} {tag : Tag} {msgid : String}
    (hmark : f.mark? tag "translate" = some msgid) (hmsgid : (trimmed msgid).isEmpty)
    (text : String) (line : Nat) (around : Option (List Char)) :
    (translation? ctx f tag [.text text line] around).isSome ↔
      (∃ domain, f.scope.domain = some domain ∧ ctx.options.domain.all (· == domain)) ∧
        ¬ IsDynamicText text.toList := by
  rw [translation?, hmark, Option.bind_some, Translated.message?, Translated.idAndDefault]
  dsimp only
  rw [if_pos hmsgid, hmsgid, Bool.true_and, sentence_text, ← isDynamic_normalize]
  generalize String.ofList (normalize text.toList) = id
  cases f.scope.domain with
  | none => simp
  | some domain =>
    dsimp only
    by_cases hdynamic : isDynamic id
    · simp [hdynamic]
    · have hid : id.isEmpty = false := by
        by_contra hempty
        obtain rfl : id = "" := by simpa using hempty
        exact hdynamic (by decide +kernel)
      cases ctx.options.domain <;> simp [hdynamic, hid]

/-- A translated element without a given id whose content is white space and interpolations as they
are found in text. It gives no message exactly if no wanted domain is in force or its text is white
space and interpolations without a closing brace inside as well, as is so when no expression has one
and the text no entities. -/
theorem translation_of_interpolated {ctx : ScanContext} {level : Level} {outer : List Level}
    {text : String} {line : Nat} {messages : List Message} {msgid : String}
    (h : (scanNodes ctx (plug (level :: outer) [.text text line])).outcome = .ok messages)
    (hmark : markAt "translate" (path (level :: outer)) = some msgid)
    (hmsgid : (trimmed msgid).isEmpty)
    (htext : IsInterpolated .python es (decodeEntities text.toList)) :
    (∃ found, Tales.interpolations .python (decodeEntities text.toList) = .ok found ∧
      found.map (·.code) = es.flatMap (Tales.pythonParts · .python)) ∧
    ∃ x : Found, x.IsAt ctx level outer [.text text line] ∧ messages = x.messages ∧
      (x.translation = none ↔ IsDynamicText text.toList ∨
        ¬ ∃ domain, nearestMark "domain" (path (level :: outer)) = some domain ∧
          ctx.options.domain.all (· == domain)) ∧
      ('&' ∉ text.toList → (∀ e ∈ es, '\x7d' ∉ e) → x.translation = none) := by
  have hframe := isAt_frameIn (level :: outer)
  have hmark' := (hframe.names.mark? "translate").trans hmark
  obtain ⟨x, hx, hmessages⟩ := exists_found h
  have hnone : x.translation = none ↔ IsDynamicText text.toList ∨
      ¬ ∃ domain, nearestMark "domain" (path (level :: outer)) = some domain ∧
        ctx.options.domain.all (· == domain) := by
    have hsome := isSome_translation? ctx hmark' hmsgid text line (level.around outer)
    rw [hframe.scope] at hsome
    rw [hx.translation, ← Option.not_isSome_iff_eq_none, hsome, not_and_or, not_not, or_comm]
    rfl
  refine ⟨?_, x, hx, hmessages, hnone, fun hplain hes => hnone.2 (.inl ?_)⟩
  · exact htext.exists_interpolationsFrom (w := []) (fun c hc => absurd hc List.not_mem_nil) 0
  · rw [decodeEntities_eq_self hplain] at htext
    exact htext.isDynamicText hes

/-- The text has a call with a pipe in it, which gives a message of its own. -/
theorem translation_of_interpolated_two :
    let level : Level :=
      ⟨[], ⟨"p", [⟨"i18n:domain", "pages", 1⟩, ⟨"i18n:translate", " ", 1⟩], 1⟩, []⟩
    let text := "$\x7bitems[0]\x7d\n $\x7b_('a\\|b')\x7d "
    ∃ x : Found, x.IsAt ⟨{}, "page.pt", .tales⟩ level [] [.text text 1] ∧ x.translation = none ∧
      x.messages = [{ id := "a|b", location := ⟨"page.pt", 2⟩ }] := by
  intro level text
  have hscan : (scanNodes ⟨{}, "page.pt", .tales⟩ (plug [level] [.text text 1])).outcome =
      .ok [{ id := "a|b", location := ⟨"page.pt", 2⟩ }] := by decide +kernel
  have hmark : markAt "translate" (path [level]) = some " " := by decide +kernel
  have hplain : '&' ∉ text.toList := by decide
  have hwritten : text.toList = '$' :: '\x7b' :: ("items[0]".toList ++
      '\x7d' :: "\n $\x7b_('a\\|b')\x7d ".toList) := by decide
  have hfirst : Tales.accepted? .python ("items[0]".toList ++
      '\x7d' :: "\n $\x7b_('a\\|b')\x7d ".toList) =
        some ("items[0]".toList, "\n $\x7b_('a\\|b')\x7d ".toList) := by decide +kernel
  have hsecond : Tales.accepted? .python ("_('a\\|b')".toList ++ '\x7d' :: [' ']) =
      some ("_('a\\|b')".toList, [' ']) := by decide +kernel
  have htext : IsInterpolated .python ["items[0]".toList, "_('a\\|b')".toList]
      (decodeEntities text.toList) := by
    rw [decodeEntities_eq_self hplain, hwritten]
    exact .interpolation hfirst (.blank (by decide) (.blank (by decide)
      (.interpolation hsecond (.blank (by decide) .nil))))
  obtain ⟨-, x, hx, hmessages, -, hnone⟩ :=
    translation_of_interpolated hscan hmark (by decide) htext
  exact ⟨x, hx, hnone hplain (by decide), hmessages.symm⟩

/-- An expression with a set or a dictionary in it is translated although there is nothing else in
the element. -/
theorem not_forall_translation_eq_none :
    ¬ ∀ (ctx : ScanContext) (level : Level) (outer : List Level) (text : String) (line : Nat)
        (es : List (List Char)) (msgid : String) (messages : List Message),
      (scanNodes ctx (plug (level :: outer) [.text text line])).outcome = .ok messages →
      markAt "translate" (path (level :: outer)) = some msgid → (trimmed msgid).isEmpty →
      IsInterpolated .python es (decodeEntities text.toList) →
      ∀ x : Found, x.IsAt ctx level outer [.text text line] → x.translation = none := by
  intro h
  let ctx : ScanContext := ⟨{}, "page.pt", .python⟩
  let level : Level :=
    ⟨[], ⟨"p", [⟨"i18n:domain", "pages", 1⟩, ⟨"i18n:translate", "", 1⟩], 1⟩, []⟩
  let text := "$\x7b\x7b'a': 1\x7d['a']\x7d"
  let message : Message :=
    { domain := some "pages", id := text, location := ⟨"page.pt", 1⟩ }
  have hscan : (scanNodes ctx (plug [level] [.text text 1])).outcome = .ok [message] := by
    decide +kernel
  have haccepted : Tales.accepted? .python ("\x7b'a': 1\x7d['a']".toList ++ ['\x7d']) =
      some ("\x7b'a': 1\x7d['a']".toList, []) := by decide +kernel
  have htext : IsInterpolated .python ["\x7b'a': 1\x7d['a']".toList]
      (decodeEntities text.toList) := by
    have hwritten : text.toList = '$' :: '\x7b' :: ("\x7b'a': 1\x7d['a']".toList ++ ['\x7d']) := by
      decide
    rw [decodeEntities_eq_self (by decide), hwritten]
    exact .interpolation haccepted .nil
  obtain ⟨x, hx, -⟩ := exists_found hscan
  have hmark : markAt "translate" (path [level]) = some "" := by decide +kernel
  have hnone := h ctx level [] text 1 _ "" _ hscan hmark (by decide) htext x hx
  have hsome : translation? ctx (frameIn [level]) level.tag [.text text 1] (level.around []) =
      some message := by decide +kernel
  rw [hx.translation, hsome] at hnone
  cases hnone

end PotExtract.Template
