import PotExtract.Proofs.Python.CarriageReturns
import PotExtract.Proofs.Python.Quoting

/-! Line feeds in string literals. An escape takes a line end of one or of two characters, but any
other line end between the quotes is text. So a literal denotes another text when its lines end in
carriage return and line feed, unless no line feed of it is text. -/

namespace PotExtract.Python

open Text

namespace Literal

variable {s t literal : List Char} {c : Char}

/-- The number of line feeds that no backslash escapes. -/
def bareFeeds : List Char → Nat
  | [] => 0
  | '\\' :: _ :: s => bareFeeds s
  | c :: s => bareFeeds s + if c = '\n' then 1 else 0

theorem bareFeeds_cons (hc : c ≠ '\\') (s : List Char) :
    bareFeeds (c :: s) = bareFeeds s + if c = '\n' then 1 else 0 := by
  rw [bareFeeds.eq_3]
  rintro d t rfl
  exact absurd rfl hc

theorem bareFeeds_append (h : ∀ c ∈ s, c ≠ '\\' ∧ c ≠ '\n') (t : List Char) :
    bareFeeds (s ++ t) = bareFeeds t := by
  induction s with
  | nil => rfl
  | cons c s ih =>
    obtain ⟨hslash, hfeed⟩ := h c List.mem_cons_self
    rw [List.cons_append, bareFeeds_cons hslash, if_neg hfeed, Nat.add_zero,
      ih fun d hd => h d (List.mem_cons_of_mem c hd)]

/-! ### Escapes -/

theorem isHexDigit_ne (h : isHexDigit c) : c ≠ '\\' ∧ c ≠ '\n' ∧ c ≠ '\r' := by
  refine ⟨?_, ?_, ?_⟩ <;> rintro rfl <;> revert h <;> decide

theorem isOctal_ne (h : isOctal c) : c ≠ '\\' ∧ c ≠ '\n' ∧ c ≠ '\r' := by
  refine ⟨?_, ?_, ?_⟩ <;> rintro rfl <;> revert h <;> decide

theorem all_of_hexEscape? {width : Nat} {d : Char} (h : hexEscape? width s = some d) :
    ∀ c ∈ s.take width, isHexDigit c := by
  unfold hexEscape? at h
  dsimp only at h
  split at h
  · next hdigits => exact List.all_eq_true.1 hdigits.2
  · cases h

theorem hexEscape?_withReturns (width : Nat) (s : List Char) :
    hexEscape? width (withReturns s) = hexEscape? width s := by
  by_cases h : '\n' ∈ s.take width
  · have hnone : ∀ {t : List Char} {d : Char}, d ∈ t.take width → isHexDigit d = false →
        hexEscape? width t = none := by
      intro t d hd hdigit
      rw [Option.eq_none_iff_forall_ne_some]
      intro e he
      rw [all_of_hexEscape? he d hd] at hdigit
      cases hdigit
    rw [hnone h (by decide), hnone (mem_take_withReturns h) (by decide)]
  · simp only [hexEscape?, (take_withReturns h).1]

theorem takeWhile_take_withReturns {p : Char → Bool} (hfeed : p '\n' = false)
    (hreturn : p '\r' = false) (n : Nat) (s : List Char) :
    ((withReturns s).take n).takeWhile p = (s.take n).takeWhile p := by
  induction n generalizing s with
  | zero => rfl
  | succ n ih =>
    cases s with
    | nil => rfl
    | cons c s =>
      by_cases hc : c = '\n'
      · simp [hc, hfeed, hreturn]
      · simp [withReturns_cons hc, List.takeWhile_cons, ih s]

theorem bareFeeds_drop {n : Nat} (h : ∀ c ∈ s.take n, c ≠ '\\' ∧ c ≠ '\n' ∧ c ≠ '\r') :
    bareFeeds s = bareFeeds (s.drop n) := by
  calc bareFeeds s = bareFeeds (s.take n ++ s.drop n) := by rw [List.take_append_drop]
    _ = bareFeeds (s.drop n) := bareFeeds_append (fun c hc => ⟨(h c hc).1, (h c hc).2.1⟩) _

theorem take_octal (hc : isOctal c) (s : List Char) :
    let digits := c :: (s.take 2).takeWhile isOctal
    (c :: s).take digits.length = digits ∧ ∀ d ∈ digits, isOctal d := by
  intro digits
  have hprefix : digits <+: c :: s := by
    rw [List.prefix_cons_inj]
    exact (List.takeWhile_prefix isOctal).trans (List.take_prefix 2 s)
  constructor
  · exact (List.prefix_iff_eq_take.1 hprefix).symm
  · intro d hd
    rcases List.mem_cons.1 hd with rfl | hd
    · exact hc
    · exact List.mem_takeWhile_imp hd

/-- An escape is taken apart alike, whether a line end has one character or two, and the line feeds
behind it are those of the whole. -/
theorem escape_withReturns (h : '\r' ∉ s) :
    escape (withReturns s) = ((escape s).1, withReturns (escape s).2) ∧
      bareFeeds ('\\' :: s) = bareFeeds (escape s).2 := by
  cases s with
  | nil => exact ⟨rfl, rfl⟩
  | cons c s =>
    have hc := (Lexeme.ne_return_of_not_mem h).1
    have hskip : bareFeeds ('\\' :: c :: s) = bareFeeds s := rfl
    by_cases hfeed : c = '\n'
    · subst hfeed
      simp [escape, hskip]
    have hcons : ∀ t : List Char, escape (c :: t) = _ := fun t =>
      escape.eq_3 _ _ fun _ hr _ => hc hr
    have hend : ¬(c = '\n' ∨ c = '\r') := by simp [hfeed, hc]
    rw [withReturns_cons hfeed, hcons, hcons]
    simp only [if_neg hend]
    -- Digits are no line ends, so an escape takes the same ones from both texts.
    by_cases hoctal : isOctal c
    · obtain ⟨htake, hdigits⟩ := take_octal hoctal s
      have hplain := fun d hd => isOctal_ne (hdigits d hd)
      rw [← htake] at hplain
      have hfree : '\n' ∉ (c :: s).take _ := fun hn => (hplain _ hn).2.1 rfl
      have hdrop := (take_withReturns hfree).2
      rw [withReturns_cons hfeed] at hdrop
      simp only [if_pos hoctal, takeWhile_take_withReturns (p := isOctal) rfl rfl]
      refine ⟨Prod.ext rfl hdrop, ?_⟩
      have hnone := isOctal_ne hoctal
      have hbare : bareFeeds (c :: s) = bareFeeds s := by
        rw [bareFeeds_cons hnone.1, if_neg hnone.2.1, Nat.add_zero]
      rw [hskip, ← hbare]
      exact bareFeeds_drop hplain
    simp only [if_neg hoctal]
    cases simpleEscape? c with
    | some d => exact ⟨rfl, hskip⟩
    | none =>
      cases hexWidth? c with
      | none => exact ⟨rfl, hskip⟩
      | some width =>
        simp only [hexEscape?_withReturns]
        cases hhex : hexEscape? width s with
        | none => exact ⟨rfl, hskip⟩
        | some d =>
          have hplain := fun e he => isHexDigit_ne (all_of_hexEscape? hhex e he)
          have hfree : '\n' ∉ s.take width := fun hn => (hplain _ hn).2.1 rfl
          exact ⟨Prod.ext rfl (take_withReturns hfree).2, bareFeeds_drop hplain⟩

theorem escape_suffix (s : List Char) : (escape s).2 <:+ s := by
  unfold escape
  split
  · exact List.suffix_refl _
  · exact (List.suffix_cons _ _).trans (List.suffix_cons _ _)
  · next c s _ =>
    have hs : s <:+ c :: s := List.suffix_cons c s
    split
    · exact hs
    split
    · exact List.drop_suffix _ _
    split
    · exact hs
    · split
      · exact (List.drop_suffix _ _).trans hs
      · exact hs
    · exact hs

/-- The text of a literal has a carriage return more for every line feed that is not escaped. -/
theorem length_unescape_withReturns (h : '\r' ∉ s) :
    (unescape (withReturns s)).length = (unescape s).length + bareFeeds s ∧
      (bareFeeds s = 0 → unescape (withReturns s) = unescape s) := by
  fun_induction unescape s with
  | case1 => simp [withReturns, unescape, bareFeeds]
  | case2 s _ ih =>
    obtain ⟨hescape, hfeeds⟩ := escape_withReturns (Lexeme.ne_return_of_not_mem h).2
    have hs : '\r' ∉ (escape s).2 := fun hr =>
      (Lexeme.ne_return_of_not_mem h).2 ((escape_suffix s).mem hr)
    obtain ⟨hlength, heq⟩ := ih hs
    rw [withReturns_cons (by decide), unescape, if_pos rfl, hescape, hfeeds]
    dsimp only
    refine ⟨?_, fun hb => by rw [heq hb]⟩
    rw [List.length_append, List.length_append, hlength]
    omega
  | case3 c s hslash ih =>
    obtain ⟨hlength, heq⟩ := ih (Lexeme.ne_return_of_not_mem h).2
    rw [bareFeeds_cons hslash]
    by_cases hc : c = '\n'
    · subst hc
      have hfeed : unescape (withReturns ('\n' :: s)) =
          '\r' :: '\n' :: unescape (withReturns s) := by
        rw [withReturns_feed, unescape, if_neg (by decide), unescape, if_neg (by decide)]
      rw [hfeed, if_pos rfl]
      refine ⟨?_, fun hb => by omega⟩
      simp only [List.length_cons, hlength]
      omega
    · rw [withReturns_cons hc, unescape, if_neg hslash, if_neg hc]
      refine ⟨?_, fun hb => by rw [heq hb]⟩
      simp only [List.length_cons, hlength]
      omega

/-! ### Literals -/

/-- Whether a line feed of the literal is part of its text. In a raw string every line feed is, and
bytes and formatted strings have no text. -/
def keepsFeeds (literal : List Char) : Bool :=
  let lead := lower (literal.takeWhile (!isQuote ·))
  if 'f' ∈ lead ∨ 'b' ∈ lead then false
  else
    (inner? (literal.dropWhile (!isQuote ·))).any fun inner =>
      if 'r' ∈ lead then inner.contains '\n' else 0 < bareFeeds inner

/-- A literal as it is read: letters, and a text between quotes that are counted right. -/
def IsRead (literal : List Char) : Prop :=
  ∃ lead, ∃ q : Quoting, ∃ inner, (∀ c ∈ lead, Lexeme.isNameChar c) ∧
    literal = lead ++ q.enclose inner ∧ quoteLength (q.enclose inner) = byteLength q.quotes

theorem withReturns_enclose (q : Quoting) (t : List Char) :
    withReturns (q.enclose t) = q.enclose (withReturns t) := by
  have hquotes : '\n' ∉ q.quotes := by
    unfold Quoting.quotes
    rcases q.isQuote with hq | hq <;> split <;> simp [hq]
  simp [Quoting.enclose, withReturns_eq_self hquotes]

theorem quoteLength_withReturns (s : List Char) : quoteLength (withReturns s) = quoteLength s := by
  have hword : ∀ word : List Char, '\n' ∉ word → '\r' ∉ word →
      ((withReturns s).take 3 = word ↔ s.take 3 = word) :=
    fun word hfeed hreturn => take_withReturns_eq_iff hfeed hreturn
  simp only [quoteLength, hword _ (by decide : '\n' ∉ ['"', '"', '"']) (by decide),
    hword _ (by decide : '\n' ∉ ['\'', '\'', '\'']) (by decide)]

section Enclosed

variable {lead inner : List Char} {q : Quoting}

theorem isQuote_of_isNameChar (h : Lexeme.isNameChar c) : isQuote c = false := by
  have hquotes : Lexeme.isNameChar '"' = false ∧ Lexeme.isNameChar '\'' = false := by decide
  simp only [isQuote, Bool.or_eq_false_iff, beq_eq_false_iff_ne]
  constructor
  · rintro rfl
    rw [hquotes.1] at h
    cases h
  · rintro rfl
    rw [hquotes.2] at h
    cases h

theorem span_enclose (hlead : ∀ c ∈ lead, Lexeme.isNameChar c) (q : Quoting) (inner : List Char) :
    (lead ++ q.enclose inner).takeWhile (!isQuote ·) = lead ∧
      (lead ++ q.enclose inner).dropWhile (!isQuote ·) = q.enclose inner := by
  have hpass : ∀ c ∈ lead, (!isQuote c) = true := by
    intro c hc
    rw [isQuote_of_isNameChar (hlead c hc)]
    rfl
  rw [List.takeWhile_append_of_pos hpass, List.dropWhile_append_of_pos hpass, q.enclose_eq_cons]
  simp [q.isQuote_quote]

theorem decode_enclose (hlead : ∀ c ∈ lead, Lexeme.isNameChar c)
    (hquote : quoteLength (q.enclose inner) = byteLength q.quotes) :
    decode (lead ++ q.enclose inner) =
      if 'f' ∈ lower lead ∨ 'b' ∈ lower lead then none
      else some (if 'r' ∈ lower lead then inner else unescape inner) := by
  obtain ⟨htake, hdrop⟩ := span_enclose hlead q inner
  simp only [decode, htake, hdrop, Quoting.inner?_enclose hquote, Option.map_some]

theorem keepsFeeds_enclose (hlead : ∀ c ∈ lead, Lexeme.isNameChar c)
    (hquote : quoteLength (q.enclose inner) = byteLength q.quotes) :
    keepsFeeds (lead ++ q.enclose inner) =
      if 'f' ∈ lower lead ∨ 'b' ∈ lower lead then false
      else if 'r' ∈ lower lead then inner.contains '\n' else 0 < bareFeeds inner := by
  obtain ⟨htake, hdrop⟩ := span_enclose hlead q inner
  simp only [keepsFeeds, htake, hdrop, Quoting.inner?_enclose hquote, Option.any_some]

theorem withReturns_enclosed (hlead : ∀ c ∈ lead, Lexeme.isNameChar c) (q : Quoting)
    (inner : List Char) :
    withReturns (lead ++ q.enclose inner) = lead ++ q.enclose (withReturns inner) := by
  have hfeed : '\n' ∉ lead := by
    intro hn
    have hchar := hlead _ hn
    rw [Lexeme.isNameChar_of_lineEnd.1] at hchar
    cases hchar
  rw [withReturns_append, withReturns_eq_self hfeed, withReturns_enclose]

theorem quoteLength_enclose_withReturns
    (hquote : quoteLength (q.enclose inner) = byteLength q.quotes) :
    quoteLength (q.enclose (withReturns inner)) = byteLength q.quotes := by
  rw [← withReturns_enclose, quoteLength_withReturns, hquote]

end Enclosed

theorem IsRead.withReturns (h : IsRead literal) : IsRead (withReturns literal) := by
  obtain ⟨lead, q, inner, hlead, rfl, hquote⟩ := h
  exact ⟨lead, q, Text.withReturns inner, hlead, withReturns_enclosed hlead q inner,
    quoteLength_enclose_withReturns hquote⟩

/-- A literal has a text in a source with carriage returns, exactly if it has one. -/
theorem isSome_decode_withReturns (h : IsRead literal) :
    (decode (withReturns literal)).isSome = (decode literal).isSome := by
  obtain ⟨lead, q, inner, hlead, rfl, hquote⟩ := h
  rw [withReturns_enclosed hlead, decode_enclose hlead (quoteLength_enclose_withReturns hquote),
    decode_enclose hlead hquote]
  split <;> rfl

/-- The text of a literal is the same in a source with carriage returns, exactly if no line feed of
the literal is part of it. -/
theorem decode_withReturns_iff (h : IsRead literal) (hreturn : '\r' ∉ literal) :
    decode (withReturns literal) = decode literal ↔ keepsFeeds literal = false := by
  obtain ⟨lead, q, inner, hlead, rfl, hquote⟩ := h
  have hinner : '\r' ∉ inner := by
    intro hr
    exact hreturn (by simp [Quoting.enclose, hr])
  rw [withReturns_enclosed hlead, decode_enclose hlead (quoteLength_enclose_withReturns hquote),
    decode_enclose hlead hquote, keepsFeeds_enclose hlead hquote]
  split
  · simp
  split
  · have hraw : withReturns inner = inner ↔ '\n' ∉ inner := by
      refine ⟨fun heq hn => ?_, withReturns_eq_self⟩
      rw [← heq] at hinner
      exact hinner (mem_withReturns hn)
    simp [hraw]
  · obtain ⟨hlength, heq⟩ := length_unescape_withReturns hinner
    have hescaped : unescape (withReturns inner) = unescape inner ↔ bareFeeds inner = 0 := by
      refine ⟨fun hsame => ?_, heq⟩
      rw [hsame] at hlength
      omega
    simp [hescaped]

end Literal

/-! ### Strings that are read -/

namespace Quoting

variable {q : Quoting} {lead inner behind : List Char}

/-- With `lead` as its prefix and `q` around it, `inner` is read as a string in front of `behind`.
The quotes are three where two more stand behind the first. -/
structure Reads (q : Quoting) (lead inner behind : List Char) : Prop where
  lead_mem : lead = [] ∨ lower lead ∈ Lexeme.stringPrefixes
  isTriple_iff : q.isTriple ↔ (q.behindFirst inner ++ behind).take 2 = [q.quote, q.quote]
  readString_eq : ∃ lines, Lexeme.readString lead q.quote (q.behindFirst inner ++ behind) =
    some (.string (lead ++ q.enclose inner) lines, behind)

/-- The quotes are counted alike with the text behind them and without it. -/
theorem Reads.quoteLength (h : q.Reads lead inner behind) :
    Literal.quoteLength (q.enclose inner) = byteLength q.quotes := by
  apply Quoting.quoteLength_enclose
  intro hsingle htwo
  have hbehind : q.behindFirst inner = inner ++ [q.quote] := by
    simp [behindFirst, quotes, hsingle]
  have hlength : 2 ≤ (inner ++ [q.quote]).length := by
    have htake := congrArg List.length htwo
    rw [List.length_take, List.length_cons, List.length_cons, List.length_nil] at htake
    omega
  have htriple : q.isTriple := by
    apply h.isTriple_iff.2
    rw [hbehind, List.take_append_of_le_length hlength, htwo]
  rw [hsingle] at htriple
  cases htriple

end Quoting

namespace Lexeme

variable {c quote : Char} {s lead text tail rest : List Char} {lines : Nat}

theorem exists_reads_of_readString (hquote : quote = '"' ∨ quote = '\'')
    (hlead : lead = [] ∨ lower lead ∈ stringPrefixes)
    (h : readString lead quote tail = some (.string text lines, rest)) :
    ∃ q : Quoting, ∃ inner, quote :: tail = q.enclose inner ++ rest ∧
      text = lead ++ q.enclose inner ∧ q.Reads lead inner rest := by
  rcases cases_of_readString h with ⟨body, he, rfl, inner, rfl⟩ |
      ⟨body, he, rfl, ⟨inner, rfl⟩, hone⟩ | ⟨he, -⟩
  · obtain ⟨rfl, -⟩ := Lexeme.string.inj he
    let q : Quoting := ⟨quote, true, hquote⟩
    have hbehind : [quote, quote] ++ (inner ++ [quote, quote, quote] ++ rest) =
        q.behindFirst inner ++ rest := by
      simp [q, Quoting.behindFirst, Quoting.quotes]
    have htext : lead ++ [quote, quote, quote] ++ (inner ++ [quote, quote, quote]) =
        lead ++ q.enclose inner := by
      simp [q, Quoting.enclose, Quoting.quotes]
    rw [hbehind, htext] at h
    refine ⟨q, inner, ?_, htext, hlead, ?_, lines, h⟩
    · rw [hbehind, q.enclose_eq_cons, List.cons_append]
    · rw [← hbehind]
      exact ⟨fun _ => rfl, fun _ => rfl⟩
  · obtain ⟨rfl, -⟩ := Lexeme.string.inj he
    let q : Quoting := ⟨quote, false, hquote⟩
    have hbehind : inner ++ [quote] = q.behindFirst inner := by
      simp [q, Quoting.behindFirst, Quoting.quotes]
    have htext : lead ++ quote :: (inner ++ [quote]) = lead ++ q.enclose inner := by
      rw [hbehind, q.enclose_eq_cons]
    rw [htext, hbehind] at h
    rw [hbehind] at hone
    refine ⟨q, inner, ?_, htext, hlead, ?_, lines, h⟩
    · rw [hbehind, q.enclose_eq_cons, List.cons_append]
    · exact ⟨fun htriple => (by cases htriple), fun htwo => absurd htwo hone⟩
  · cases he

/-- Where a string is read, it starts with its prefix, or with its quote. -/
theorem exists_lead_of_read (h : read c s = some (.string text lines, rest)) :
    ∃ lead quote tail, (quote = '"' ∨ quote = '\'') ∧ (lead = [] ∨ lower lead ∈ stringPrefixes) ∧
      (∀ d ∈ lead, isNameChar d) ∧ c :: s = lead ++ quote :: tail ∧
      readString lead quote tail = some (.string text lines, rest) := by
  unfold read at h
  split at h
  · cases h
  split at h
  · cases h
  split at h
  · cases h
  split at h
  · cases h
  split at h
  · unfold readName at h
    dsimp only at h
    split at h
    · next quote tail hrest =>
      split at h
      · next hstring =>
        refine ⟨_, quote, tail, hstring.1, .inr hstring.2, fun d hd => List.mem_takeWhile_imp hd,
          ?_, h⟩
        rw [← hrest, List.takeWhile_append_dropWhile]
      · cases h
    · cases h
  split at h
  · next hquote => exact ⟨[], c, s, hquote, .inl rfl, List.forall_mem_nil _, rfl, h⟩
  · have hoperator := Option.some.inj h
    unfold readOperator at hoperator
    split at hoperator
    · cases hoperator
    split at hoperator
    · cases hoperator
    split at hoperator <;> cases hoperator

/-- A string that is read is letters and a text between quotes. -/
theorem isRead_of_read (h : read c s = some (.string text lines, rest)) : Literal.IsRead text := by
  obtain ⟨lead, quote, tail, hquote, hlead, hname, -, hstring⟩ := exists_lead_of_read h
  obtain ⟨q, inner, -, rfl, hreads⟩ := exists_reads_of_readString hquote hlead hstring
  exact ⟨lead, q, inner, hname, rfl, hreads.quoteLength⟩

end Lexeme

end PotExtract.Python
