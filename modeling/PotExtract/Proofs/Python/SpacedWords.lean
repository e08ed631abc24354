import PotExtract.Proofs.Python.ClosingBrace
import PotExtract.Proofs.Python.Quoting

/-! Words of an expression, written with one space between them. Each is read as a token of its own,
so the text is an expression if the tokens are those of one. Names, decimal numbers and string
literals are such words, and so are the operators. -/

namespace PotExtract.Python

open Text

/-- A word of an expression. -/
inductive Word where
  | name (text : String)
  | number (text : String)
  | string (text : String)
  | operator (text : String)
  deriving DecidableEq, Repr

namespace Word

def text : Word → String
  | name text | number text | string text | operator text => text

/-- The token of a word. -/
def token (line : Nat) : Word → Token
  | name text => ⟨.name, text, line⟩
  | number text => ⟨.number, text, line⟩
  | string text => ⟨.string, text, line⟩
  | operator text => ⟨.operator, text, line⟩

/-- The element that a word is read as. -/
def lexeme : Word → Lexeme
  | name text => .name text.toList
  | number text => .number text.toList
  | string text => .string text.toList 0
  | operator text => .operator text.toList

/-- The words with one space between them. -/
def write (words : List Word) : String :=
  " ".intercalate (words.map text)

/-- A word is read whole, and it neither starts nor ends with white space. -/
structure IsAlone (w : Word) : Prop where
  read : ∃ c s, w.text.toList = c :: s ∧ Lexeme.read c s = some (w.lexeme, [])
  first : ∀ c ∈ w.text.toList.head?, isBlank c = false
  last : ∀ c ∈ w.text.toList.getLast?, isBlank c = false

/-! ### Reading words one by one -/

/-- The words behind a word, each behind a space. -/
def behind (words : List Word) : List Char :=
  words.flatMap fun w => ' ' :: w.text.toList

theorem toList_write_cons (w : Word) (words : List Word) :
    (write (w :: words)).toList = w.text.toList ++ behind words := by
  unfold write
  rw [String.toList_intercalate]
  induction words generalizing w with
  | nil => simp [behind]
  | cons v words ih =>
    have hspace : " ".toList = [' '] := rfl
    rw [List.map_cons, List.map_cons, List.map_cons, List.map_cons, List.intercalate_cons_cons,
      List.append_assoc, ← List.map_cons, ← List.map_cons, ih v, hspace]
    rfl

variable {w : Word} {words : List Word} {c : Cursor} {b b' : Beginning}

theorem isOpen_lexeme (w : Word) : w.lexeme.isOpen = false := by
  cases w <;> rfl

theorem isApart_behind (words : List Word) : Lexeme.IsApart (behind words) := by
  cases words with
  | nil =>
    intro c hc
    cases hc
  | cons w words =>
    intro c hc
    obtain rfl : ' ' = c := Option.some.inj hc
    decide

/-- A word is read in front of others. -/
theorem IsAlone.read_append (h : w.IsAlone) (words : List Word) :
    ∃ d s, w.text.toList ++ behind words = d :: s ∧ Cursor.isGap d = false ∧
      Lexeme.read d s = some (w.lexeme, behind words) := by
  obtain ⟨d, s, htext, hread⟩ := h.read
  have hfirst : isBlank d = false := h.first d (by rw [htext]; rfl)
  refine ⟨d, s ++ behind words, by rw [htext]; rfl, ?_, ?_⟩
  · rw [← Bool.not_eq_true] at hfirst ⊢
    exact fun hgap => hfirst (isBlank_of_isGap hgap)
  · refine Lexeme.read_append (isApart_behind words) (fun hr => ?_) hread w.isOpen_lexeme
    have := h.last '\r' (by rw [htext, hr]; rfl)
    cases this

theorem dropWhile_behind (h : ∀ w ∈ words, w.IsAlone) :
    (behind words).dropWhile Cursor.isGap = (write words).toList := by
  cases words with
  | nil => rfl
  | cons w words =>
    obtain ⟨d, s, hs, hd, -⟩ := (h w List.mem_cons_self).read_append words
    have hspace : Cursor.isGap ' ' := by decide
    have hbehind : behind (w :: words) = ' ' :: (w.text.toList ++ behind words) := rfl
    rw [hbehind, toList_write_cons, List.dropWhile_cons_of_pos hspace, hs,
      List.dropWhile_cons_of_neg (by simp [hd])]

/-- A word counts in an expression. -/
theorem take?_token (b : Beginning) (w : Word) (line : Nat) :
    b.take? (w.token line) =
      if b.mayGoOn (w.token line) then
        (Beginning.closersBehind? b.closers (w.token line)).map fun closers =>
          ⟨closers, some (w.token line)⟩
      else none := by
  cases w <;> rfl

theorem closersBehind?_of_kind {closers closers' : List String} {t : Token}
    (ht : t.kind ≠ .operator) (h : Beginning.closersBehind? closers t = some closers') :
    closers' = closers := by
  simp [Beginning.closersBehind?, Token.isCloser, Token.isOperator, ht] at h
  exact h.2.symm

theorem length_closersBehind? {closers closers' : List String} {op : String} {line : Nat}
    (h : Beginning.closersBehind? closers ⟨.operator, op, line⟩ = some closers') :
    closers'.length = Cursor.depthAfter closers.length op.toList := by
  by_cases hopens : op = "(" ∨ op = "[" ∨ op = "\x7b"
  · rcases hopens with rfl | rfl | rfl <;> cases h <;> rfl
  by_cases hcloses : op = ")" ∨ op = "]" ∨ op = "\x7d"
  · cases closers with
    | nil => rcases hcloses with rfl | rfl | rfl <;> cases h
    | cons closer closers =>
      by_cases heq : op = closer
      · subst heq
        rcases hcloses with rfl | rfl | rfl <;> cases h <;> rfl
      · rcases hcloses with rfl | rfl | rfl <;>
          simp [Beginning.closersBehind?, Token.isOperator, Token.isCloser, heq] at h
  · have hlist : ∀ t : String, op ≠ t → op.toList ≠ t.toList := fun t hne heq =>
      hne (String.toList_inj.1 heq)
    simp only [not_or] at hopens hcloses
    have hdepth : Cursor.depthAfter closers.length op.toList = closers.length := by
      unfold Cursor.depthAfter
      rw [if_neg, if_neg]
      · rintro (h | h | h)
        exacts [hlist _ hcloses.1 h, hlist _ hcloses.2.1 h, hlist _ hcloses.2.2 h]
      · rintro (h | h | h)
        exacts [hlist _ hopens.1 h, hlist _ hopens.2.1 h, hlist _ hopens.2.2 h]
    rw [hdepth]
    simp [Beginning.closersBehind?, Token.isOperator, Token.isCloser, hopens, hcloses] at h
    rw [h.2]

/-- A word makes its token, on the same line. -/
theorem take_lexeme (c : Cursor) (w : Word) (rest : List Char) :
    ∃ next, c.take w.lexeme rest = ([w.token c.line], next) ∧ next.rest = rest ∧
      next.line = c.line ∧ next.indents = c.indents ∧ next.atLineStart = false := by
  refine ⟨(c.take w.lexeme rest).2, Prod.ext ?_ rfl, ?_⟩
  · cases w <;> simp [Cursor.take, lexeme, token]
  · cases w <;> simp [Cursor.take, lexeme]

/-- The brackets that are open behind a word are the ones to be closed. -/
theorem depth_take_lexeme {next : Cursor} (rest : List Char)
    (hnext : c.take w.lexeme rest = ([w.token c.line], next)) (hdepth : c.depth = b.closers.length)
    (h : b.take? (w.token c.line) = some b') : next.depth = b'.closers.length := by
  obtain rfl : (c.take w.lexeme rest).2 = next := congrArg Prod.snd hnext
  rw [take?_token] at h
  split at h
  · obtain ⟨closers, hclosers, rfl⟩ := Option.map_eq_some_iff.1 h
    cases w with
    | operator op => exact (length_closersBehind? hclosers ▸ hdepth ▸ rfl)
    | _ =>
      obtain rfl := closersBehind?_of_kind (by simp [token]) hclosers
      exact hdepth
  · cases h

/-- The end of the text behind all brackets adds nothing that counts. -/
theorem foldTokens?_end (hrest : c.rest.dropWhile Cursor.isGap = []) (hdepth : c.depth = 0)
    (hindents : c.indents = []) : c.foldTokens? Beginning.take? b = some b := by
  rw [Cursor.foldTokens?_eq, Cursor.lex_of_nil hrest]
  by_cases hs : c.inStatement
  · simp [Cursor.finish, hdepth, hindents, hs, Except.isOk, Except.toBool, Beginning.take?,
      Token.isForeign, Token.counts]
  · simp [Cursor.finish, hdepth, hindents, hs, Except.isOk, Except.toBool]

/-- The tokens of the words are all that is read of them. -/
theorem foldTokens?_words (halone : ∀ w ∈ words, w.IsAlone)
    (hrest : c.rest.dropWhile Cursor.isGap = (write words).toList) (hlayout : c.layout = .ok ([], []))
    (hindents : c.indents = [])
    (hdepth : c.depth = b.closers.length)
    (hfold : (words.map (token c.line)).foldlM Beginning.take? b = some b')
    (hclosers : b'.closers = []) : c.foldTokens? Beginning.take? b = some b' := by
  induction words generalizing c b with
  | nil =>
    cases hfold
    exact foldTokens?_end hrest (by rw [hdepth, hclosers]; rfl) hindents
  | cons w words ih =>
    obtain ⟨hw, hwords⟩ := List.forall_mem_cons.1 halone
    obtain ⟨d, s, hs, -, hread⟩ := hw.read_append words
    rw [toList_write_cons, hs] at hrest
    rw [List.map_cons, List.foldlM_cons] at hfold
    obtain ⟨b₁, htake, hfold⟩ := Option.bind_eq_some_iff.1 hfold
    obtain ⟨next, hnext, hbehind, hline, hnextIndents, hstart⟩ := take_lexeme c w (behind words)
    have hnextDepth := depth_take_lexeme (behind words) hnext hdepth htake
    have hsettled : c.IsSettled := by rw [Cursor.IsSettled, hlayout, hindents]
    have hstep := Cursor.step_of_isSettled hsettled hread
    rw [hnext] at hstep
    rw [Cursor.foldTokens?_of_step hrest hstep, List.foldlM_cons, htake]
    refine ih hwords ?_ ?_ ?_ hnextDepth (by rwa [hline])
    · rw [hbehind, dropWhile_behind hwords]
    · simp [Cursor.layout, hstart, hnextIndents, hindents]
    · rw [hnextIndents, hindents]

theorem IsAlone.text_ne_nil (h : w.IsAlone) : w.text.toList ≠ [] := by
  obtain ⟨c, s, htext, -⟩ := h.read
  simp [htext]

theorem isBlank_getLast?_write (h : ∀ w ∈ words, w.IsAlone) :
    ∀ c ∈ (write words).toList.getLast?, isBlank c = false := by
  induction words with
  | nil =>
    intro c hc
    cases hc
  | cons w words ih =>
    obtain ⟨hw, hwords⟩ := List.forall_mem_cons.1 h
    cases words with
    | nil => simpa [write] using hw.last
    | cons v words =>
      have hne : (write (v :: words)).toList ≠ [] := by
        simp [toList_write_cons, (hwords v List.mem_cons_self).text_ne_nil]
      have hsuffix : (write (v :: words)).toList <:+ (write (w :: v :: words)).toList :=
        ⟨w.text.toList ++ [' '], by simp [toList_write_cons, behind]⟩
      rw [Cursor.getLast?_of_suffix hsuffix hne]
      exact ih hwords

/-- No white space is trimmed. -/
theorem trim_write (h : ∀ w ∈ words, w.IsAlone) :
    trim (write words).toList = (write words).toList := by
  refine trim_eq_self ?_ (isBlank_getLast?_write h)
  cases words with
  | nil =>
    intro c hc
    cases hc
  | cons w words =>
    obtain ⟨hw, -⟩ := List.forall_mem_cons.1 h
    rw [toList_write_cons, List.head?_append_of_ne_nil _ hw.text_ne_nil]
    exact hw.first

/-- Words are an expression if their tokens are. -/
theorem isExpression_write (halone : ∀ w ∈ words, w.IsAlone)
    (h : areExpression (words.map (token 1))) : isExpression (write words) := by
  obtain ⟨b, hfold, hwhole⟩ := (Option.any_eq_true _ _).1 h
  have hclosers : b.closers = [] := by
    simp only [Beginning.isWhole, Bool.and_eq_true, List.isEmpty_iff] at hwhole
    exact hwhole.1
  have htrim := trim_write halone
  cases words with
  | nil => cases h
  | cons w words =>
    obtain ⟨d, s, hs, hd, -⟩ := (halone w List.mem_cons_self).read_append words
    rw [← toList_write_cons] at hs
    have hdrop : (write (w :: words)).toList.dropWhile Cursor.isGap = (write (w :: words)).toList := by
      rw [hs, List.dropWhile_cons_of_neg (by simp [hd])]
    have hlayout : ({ rest := (write (w :: words)).toList } : Cursor).layout = .ok ([], []) := by
      rw [hs]
      simp [Cursor.layout, Cursor.indentTo, Cursor.column, hd]
    rw [isExpression, htrim, foldTokens?_words halone hdrop hlayout rfl rfl hfold hclosers]
    exact hwhole

/-! ### Names -/

theorem isBlank_of_isNameChar {c : Char} (h : Lexeme.isNameChar c) : isBlank c = false := by
  rw [← Bool.not_eq_true]
  intro hblank
  rw [Lexeme.isNameChar_of_standsApart (standsApart_of_blank hblank)] at h
  cases h

/-- A word without white space is alone if it is read whole. -/
theorem isAlone_of_solid {d : Char} {s : List Char} (htext : w.text.toList = d :: s)
    (hread : Lexeme.read d s = some (w.lexeme, [])) (hsolid : ∀ e ∈ d :: s, isBlank e = false) :
    w.IsAlone := by
  refine ⟨⟨d, s, htext, hread⟩, fun e he => hsolid e ?_, fun e he => hsolid e ?_⟩
  · exact List.mem_of_mem_head? (htext ▸ he)
  · exact List.mem_of_getLast? (htext ▸ he)

end Word

/-- A character that starts an ASCII name. -/
def isAsciiStart (c : Char) : Bool :=
  c.isAlpha || c == '_'

/-- A letter or an underscore, and letters, digits and underscores behind it. -/
def isIdentifier (text : String) : Bool :=
  match text.toList with
  | [] => false
  | c :: s => isAsciiStart c && s.all fun d => d.isAlphanum || d == '_'

theorem isDigit_of_isAsciiStart {c : Char} (h : isAsciiStart c) : c.isDigit = false := by
  unfold isAsciiStart Char.isAlpha Char.isUpper Char.isLower at h
  simp only [Bool.or_eq_true, Bool.and_eq_true, decide_eq_true_eq, beq_iff_eq, ge_iff_le,
    UInt32.le_iff_toNat_le] at h
  simp only [Char.isDigit, Bool.and_eq_false_iff, decide_eq_false_iff_not, ge_iff_le,
    UInt32.le_iff_toNat_le]
  rcases h with (h | h) | rfl
  · right
    simp at h ⊢
    omega
  · right
    simp at h ⊢
    omega
  · decide

theorem isNameStart_of_isAsciiStart {c : Char} (h : isAsciiStart c) : Lexeme.isNameStart c := by
  simp only [isAsciiStart, Bool.or_eq_true] at h
  simp only [Lexeme.isNameStart, isLetter, Bool.or_eq_true]
  exact h.imp_left .inl

theorem read_asciiStart {c : Char} (h : isAsciiStart c) (s : List Char) :
    Lexeme.read c s = Lexeme.readName (c :: s) := by
  have hother : c ≠ '#' ∧ c ≠ '\\' ∧ c ≠ '.' ∧ c ≠ '\n' ∧ c ≠ '\r' := by
    refine ⟨?_, ?_, ?_, ?_, ?_⟩
    all_goals
      rintro rfl
      cases h
  simp [Lexeme.read, hother, Lexeme.isLineEnd, isDigit_of_isAsciiStart h,
    isNameStart_of_isAsciiStart h]

theorem isNameChar_of_isAlphanum {d : Char} (h : d.isAlphanum || d == '_') :
    Lexeme.isNameChar d := by
  simp only [Char.isAlphanum, Bool.or_eq_true] at h
  simp only [Lexeme.isNameChar, isLetterOrNumber, isLetter, Bool.or_eq_true]
  exact h.imp_left fun h => .inl (.inl (h.imp_left .inl))

theorem isAlone_name {text : String} (h : isIdentifier text) : (Word.name text).IsAlone := by
  unfold isIdentifier at h
  split at h
  · cases h
  next c s htext =>
  obtain ⟨hc, hs⟩ := Bool.and_eq_true_iff.1 h
  have hall : ∀ d ∈ c :: s, Lexeme.isNameChar d := by
    rintro d (_ | ⟨_, hd⟩)
    · exact Lexeme.isNameChar_of_isNameStart (isNameStart_of_isAsciiStart hc)
    · exact isNameChar_of_isAlphanum (List.all_eq_true.1 hs d hd)
  refine Word.isAlone_of_solid htext ?_ fun d hd => Word.isBlank_of_isNameChar (hall d hd)
  have htake : (c :: s).takeWhile Lexeme.isNameChar = c :: s := List.takeWhile_eq_self_iff.2 hall
  have hdrop : (c :: s).dropWhile Lexeme.isNameChar = [] := List.dropWhile_eq_nil_iff.2 hall
  rw [read_asciiStart hc, Lexeme.readName, htake, hdrop, Word.lexeme, htext]

/-! ### Decimal numbers -/

/-- Digits, perhaps in groups with underscores between them. -/
def areDigits : List Char → Bool
  | [] => false
  | c :: s => c.isDigit && s.all fun d => d.isDigit || d == '_'

/-- The digits of a number with its point. -/
inductive IsMantissa : List Char → Prop
  | whole {s : List Char} (digits : areDigits s) : IsMantissa s
  | point {s t : List Char} (digits : areDigits s) (fraction : t = [] ∨ areDigits t) :
      IsMantissa (s ++ '.' :: t)
  | fraction {t : List Char} (digits : areDigits t) : IsMantissa ('.' :: t)

/-- The exponent of a number, if it has one. -/
inductive IsExponent : List Char → Prop
  | none : IsExponent []
  | some {e : Char} {sign s : List Char} (letter : e = 'e' ∨ e = 'E')
      (signed : sign = [] ∨ sign = ['+'] ∨ sign = ['-']) (digits : areDigits s) :
      IsExponent (e :: (sign ++ s))

/-- A decimal number. -/
def IsDecimal (text : String) : Prop :=
  ∃ mantissa exponent, IsMantissa mantissa ∧ IsExponent exponent ∧
    text.toList = mantissa ++ exponent

/-- A character of a decimal number. -/
def isDecimalChar (c : Char) : Bool :=
  c.isDigit || c ∈ ['_', '.', 'e', 'E', '+', '-']

theorem digits_of_areDigits {s : List Char} (h : areDigits s) :
    ∀ c ∈ s, c.isDigit ∨ c = '_' := by
  cases s with
  | nil => cases h
  | cons d s =>
    obtain ⟨hd, hs⟩ := Bool.and_eq_true_iff.1 h
    rintro c (_ | ⟨_, hc⟩)
    · exact .inl hd
    · simpa using List.all_eq_true.1 hs c hc

theorem IsMantissa.chars {s : List Char} (h : IsMantissa s) :
    ∀ c ∈ s, c.isDigit ∨ c = '_' ∨ c = '.' := by
  have hdigits : ∀ t, areDigits t → ∀ c ∈ t, c.isDigit ∨ c = '_' ∨ c = '.' := fun t ht c hc =>
    (digits_of_areDigits ht c hc).imp_right .inl
  cases h with
  | whole hs => exact hdigits s hs
  | @point s t hs ht =>
    intro c hc
    rcases List.mem_append.1 hc with hc | _ | ⟨_, hc⟩
    · exact hdigits s hs c hc
    · exact .inr (.inr rfl)
    · rcases ht with rfl | ht
      · cases hc
      · exact hdigits t ht c hc
  | @fraction t ht =>
    rintro c (_ | ⟨_, hc⟩)
    · exact .inr (.inr rfl)
    · exact hdigits t ht c hc

theorem takeNumber_of_chars {hex : Bool} {s : List Char}
    (h : ∀ c ∈ s, c.isDigit ∨ c = '_' ∨ c = '.') (t : List Char) (previous : Char) :
    ∃ p, Lexeme.takeNumber hex previous (s ++ t) =
      (s ++ (Lexeme.takeNumber hex p t).1, (Lexeme.takeNumber hex p t).2) := by
  induction s generalizing previous with
  | nil => exact ⟨previous, rfl⟩
  | cons c s ih =>
    obtain ⟨hc, hs⟩ := List.forall_mem_cons.1 h
    obtain ⟨p, hp⟩ := ih hs c
    refine ⟨p, ?_⟩
    have hgoes : c.isAlphanum ∨ c = '_' ∨ c = '.' := hc.imp_left fun hc => by
      simp [Char.isAlphanum, hc]
    rcases hgoes with hc | rfl | rfl <;> simp [Lexeme.takeNumber, *]

theorem IsExponent.takeNumber {s : List Char} (h : IsExponent s) (previous : Char) :
    Lexeme.takeNumber false previous s = (s, []) := by
  cases h with
  | none => rfl
  | @some e sign s he hsign hs =>
    have hdigits : ∀ p, Lexeme.takeNumber false p s = (s, []) := fun p => by
      obtain ⟨q, hq⟩ := @takeNumber_of_chars false _
        (fun c hc => (digits_of_areDigits hs c hc).imp_right .inl) [] p
      simpa [Lexeme.takeNumber] using hq
    have hletters : Char.isAlphanum 'e' = true ∧ Char.isAlphanum 'E' = true := ⟨rfl, rfl⟩
    rcases he with rfl | rfl <;> rcases hsign with rfl | rfl | rfl <;>
      simp [Lexeme.takeNumber, hletters, hdigits]

theorem IsDecimal.chars {text : String} (h : IsDecimal text) :
    ∀ c ∈ text.toList, isDecimalChar c := by
  obtain ⟨mantissa, exponent, hm, he, htext⟩ := h
  have hmantissa : ∀ c ∈ mantissa, isDecimalChar c := fun c hc => by
    rcases hm.chars c hc with h | rfl | rfl <;> simp [isDecimalChar, *]
  rw [htext]
  intro c hc
  rcases List.mem_append.1 hc with hc | hc
  · exact hmantissa c hc
  · cases he with
    | none => cases hc
    | @some e sign s he hsign hs =>
      rcases List.mem_cons.1 hc with rfl | hc
      · rcases he with rfl | rfl <;> decide
      rcases List.mem_append.1 hc with hc | hc
      · rcases hsign with rfl | rfl | rfl
        · cases hc
        · obtain rfl := List.mem_singleton.1 hc
          decide
        · obtain rfl := List.mem_singleton.1 hc
          decide
      · rcases digits_of_areDigits hs c hc with h | rfl <;> simp [isDecimalChar, *]

theorem isBlank_of_isDecimalChar {c : Char} (h : isDecimalChar c) : isBlank c = false := by
  rw [← Bool.not_eq_true]
  intro hblank
  have hnot : (fun c => !isDecimalChar c) c := by
    apply forall_isBlank _ hblank
    decide
  simp [h] at hnot

/-- A number starts with a digit, or with a point and a digit. -/
theorem IsMantissa.cases_head {s : List Char} (h : IsMantissa s) :
    ∃ c t, s = c :: t ∧ (c.isDigit ∨ (c = '.' ∧ t.head?.any Char.isDigit)) := by
  have hdigits : ∀ t, areDigits t → ∃ d u, t = d :: u ∧ d.isDigit := fun t ht => by
    cases t with
    | nil => cases ht
    | cons d u => exact ⟨d, u, rfl, (Bool.and_eq_true_iff.1 ht).1⟩
  cases h with
  | whole hs =>
    obtain ⟨d, u, rfl, hd⟩ := hdigits s hs
    exact ⟨d, u, rfl, .inl hd⟩
  | point hs ht =>
    obtain ⟨d, u, rfl, hd⟩ := hdigits _ hs
    exact ⟨d, _, rfl, .inl hd⟩
  | fraction ht =>
    obtain ⟨d, u, rfl, hd⟩ := hdigits _ ht
    exact ⟨'.', _, rfl, .inr ⟨rfl, by simpa using hd⟩⟩

theorem isAlone_number {text : String} (h : IsDecimal text) : (Word.number text).IsAlone := by
  have hchars := h.chars
  obtain ⟨mantissa, exponent, hm, he, htext⟩ := h
  obtain ⟨c, s, rfl, hhead⟩ := hm.cases_head
  replace htext : text.toList = c :: (s ++ exponent) := htext
  have hsolid : ∀ d ∈ c :: (s ++ exponent), isBlank d = false := fun d hd =>
    isBlank_of_isDecimalChar (hchars d (htext ▸ hd))
  refine Word.isAlone_of_solid htext ?_ hsolid
  have hother : c ≠ '#' ∧ c ≠ '\\' ∧ ¬Lexeme.isLineEnd c := by
    refine ⟨?_, ?_, fun hend => ?_⟩
    · rintro rfl
      simp at hhead
    · rintro rfl
      simp at hhead
    · simp only [Lexeme.isLineEnd, Bool.or_eq_true, beq_iff_eq] at hend
      rcases hend with rfl | rfl <;> simp at hhead
  have hdigit : c.isDigit ∨ (c = '.' ∧ (s ++ exponent).head?.any Char.isDigit) := by
    refine hhead.imp_right fun hdot => ⟨hdot.1, ?_⟩
    cases s with
    | nil => cases hdot.2
    | cons d s => exact hdot.2
  have hhex : ((s ++ exponent).head?.any fun d => d == 'x' || d == 'X') = false := by
    rw [← Bool.not_eq_true, Option.any_eq_true]
    rintro ⟨d, hd, hx⟩
    have hd := hchars d (htext ▸ List.mem_cons_of_mem _ (List.mem_of_mem_head? hd))
    simp only [Bool.or_eq_true, beq_iff_eq] at hx
    rcases hx with rfl | rfl <;> cases hd
  obtain ⟨p, hp⟩ := @takeNumber_of_chars false _
    (fun d hd => hm.chars d (List.mem_cons_of_mem c hd)) exponent c
  rw [he.takeNumber] at hp
  rw [Lexeme.read, if_neg hother.1, if_neg fun h => hother.2.1 h.1, if_neg hother.2.2,
    if_pos hdigit]
  simp only [hhex, Bool.and_false, hp, Word.lexeme, htext]

/-! ### String literals on one line -/

/-- What may stand between single quotes. Behind a backslash, every character may that ends no
line. -/
inductive IsBody (quote : Char) : List Char → Prop
  | nil : IsBody quote []
  | plain {c : Char} {s : List Char} (slash : c ≠ '\\') (unquoted : c ≠ quote)
      (oneLine : Lexeme.isLineEnd c = false) (rest : IsBody quote s) : IsBody quote (c :: s)
  | escape {d : Char} {s : List Char} (oneLine : Lexeme.isLineEnd d = false)
      (rest : IsBody quote s) : IsBody quote ('\\' :: d :: s)

/-- A string literal between single quotes, with or without a prefix. -/
def IsLiteral (text : String) : Prop :=
  ∃ lead quote body, (lead = [] ∨ (lower lead ∈ Lexeme.stringPrefixes ∧ lead.all Char.isAlpha)) ∧
    (quote = '"' ∨ quote = '\'') ∧ IsBody quote body ∧
      text.toList = lead ++ quote :: (body ++ [quote])

section

variable {quote : Char} {body : List Char}

theorem ne_backslash_of_quote (hquote : quote = '"' ∨ quote = '\'') :
    quote ≠ '\\' ∧ Lexeme.isLineEnd quote = false := by
  rcases hquote with rfl | rfl <;> decide

theorem IsBody.closeLine (h : IsBody quote body) (hquote : quote = '"' ∨ quote = '\'') :
    Lexeme.closeLine quote (body ++ [quote]) = some (body ++ [quote], []) := by
  obtain ⟨hslash, hend⟩ := ne_backslash_of_quote hquote
  induction h with
  | nil => simp [Lexeme.closeLine_cons _ hslash, hend]
  | plain hc hq hl _ ih => simp [Lexeme.closeLine_cons _ hc, hl, hq, ih]
  | @escape d s hl _ ih =>
    have hreturn : d ≠ '\r' := by
      rintro rfl
      cases hl
    rw [List.cons_append, List.cons_append, Lexeme.closeLine.eq_3 _ _ _ fun _ hr _ => hreturn hr, ih]
    rfl

theorem IsBody.linesInside (h : IsBody quote body) (hquote : quote = '"' ∨ quote = '\'') :
    Lexeme.linesInside (body ++ [quote]) = 0 := by
  obtain ⟨hslash, hend⟩ := ne_backslash_of_quote hquote
  induction h with
  | nil => rcases hquote with rfl | rfl <;> decide
  | @plain c s hc _ hl _ ih =>
    have hfeed : c ≠ '\n' := by
      rintro rfl
      cases hl
    simp [Lexeme.linesInside, hc, hfeed, ih]
  | @escape d s hl _ ih =>
    have hreturn : d ≠ '\r' := by
      rintro rfl
      cases hl
    rw [List.cons_append, List.cons_append, Lexeme.linesInside.eq_3 _ _ fun _ hr _ => hreturn hr, ih,
      hl]
    rfl

theorem IsBody.take_two_ne (h : IsBody quote body) (hquote : quote = '"' ∨ quote = '\'') :
    (body ++ [quote]).take 2 ≠ [quote, quote] := by
  obtain ⟨hslash, -⟩ := ne_backslash_of_quote hquote
  cases h with
  | nil => simp
  | plain _ hq => simp [hq]
  | escape => simp [hslash.symm]

theorem IsBody.readString (h : IsBody quote body) (hquote : quote = '"' ∨ quote = '\'')
    (lead : List Char) :
    Lexeme.readString lead quote (body ++ [quote]) =
      some (.string (lead ++ quote :: (body ++ [quote])) 0, []) := by
  rw [Lexeme.readString, if_neg (h.take_two_ne hquote), h.closeLine hquote]
  simp only [h.linesInside hquote]

theorem isBlank_quote (hquote : quote = '"' ∨ quote = '\'') : isBlank quote = false := by
  rcases hquote with rfl | rfl <;> decide

end

theorem isAlone_string {text : String} (h : IsLiteral text) : (Word.string text).IsAlone := by
  obtain ⟨lead, quote, body, hlead, hquote, hbody, htext⟩ := h
  have hlast : ∀ c ∈ (Word.string text).text.toList.getLast?, isBlank c = false := by
    intro c hc
    rw [Word.text, htext, ← List.cons_append, ← List.append_assoc, List.getLast?_concat] at hc
    obtain rfl : quote = c := Option.some.inj hc
    exact isBlank_quote hquote
  have hstring := hbody.readString hquote lead
  cases lead with
  | nil =>
    have hread : Lexeme.read quote (body ++ [quote]) =
        Lexeme.readString [] quote (body ++ [quote]) :=
      (⟨quote, false, hquote⟩ : Quoting).read_quote _
    refine ⟨⟨quote, body ++ [quote], htext, ?_⟩, fun c hc => ?_, hlast⟩
    · rw [hread, hstring, Word.lexeme, htext]
    · rw [Word.text, htext] at hc
      obtain rfl : quote = c := by simpa using hc
      exact isBlank_quote hquote
  | cons c lead =>
    obtain ⟨hlead, halpha⟩ : lower (c :: lead) ∈ Lexeme.stringPrefixes ∧
        (c :: lead).all Char.isAlpha := by
      simpa using hlead
    have hname : ∀ d ∈ c :: lead, Lexeme.isNameChar d := fun d hd =>
      isNameChar_of_isAlphanum (by simp [Char.isAlphanum, List.all_eq_true.1 halpha d hd])
    have hc : isAsciiStart c := by
      simp [isAsciiStart, List.all_eq_true.1 halpha c List.mem_cons_self]
    have hquoteChar : ¬Lexeme.isNameChar quote := by rcases hquote with rfl | rfl <;> decide
    have htake : (c :: lead ++ quote :: (body ++ [quote])).takeWhile Lexeme.isNameChar = c :: lead := by
      rw [List.takeWhile_append_of_pos hname, List.takeWhile_cons_of_neg hquoteChar, List.append_nil]
    have hdrop : (c :: lead ++ quote :: (body ++ [quote])).dropWhile Lexeme.isNameChar =
        quote :: (body ++ [quote]) := by
      rw [List.dropWhile_append_of_pos hname, List.dropWhile_cons_of_neg hquoteChar]
    refine ⟨⟨c, lead ++ quote :: (body ++ [quote]), htext, ?_⟩, fun d hd => ?_, hlast⟩
    · rw [read_asciiStart hc, ← List.cons_append, Lexeme.readName, htake, hdrop]
      simp only [hquote, hlead, true_and, if_true, hstring, Word.lexeme, htext]
    · rw [Word.text, htext] at hd
      obtain rfl : c = d := by simpa using hd
      exact Word.isBlank_of_isNameChar (hname c List.mem_cons_self)

/-- An escaped text is the body of a literal. -/
theorem isLiteral_write (q : Quoting) (hq : q.isTriple = false) (s : List Char) :
    IsLiteral (String.ofList (q.write s)) := by
  have hbody : IsBody q.quote (q.escape s) := by
    induction s with
    | nil => exact .nil
    | cons c s ih =>
      rw [Quoting.escape_cons, Quoting.escapeChar]
      split
      · next hc =>
        refine .escape ?_ ih
        rcases hc with rfl | rfl
        · decide
        · simpa using q.not_isLineEnd_quote
      split
      · exact .escape (by decide) ih
      split
      · exact .escape (by decide) ih
      · next hslash hfeed hreturn =>
        rw [not_or] at hslash
        exact .plain hslash.1 hslash.2 (by simp [Lexeme.isLineEnd, hfeed, hreturn]) ih
  refine ⟨[], q.quote, q.escape s, .inl rfl, q.isQuote, hbody, ?_⟩
  simp [Quoting.write, Quoting.quotes, hq]

/-! ### Operators -/

/-- The operators of expressions. -/
def expressionOperators : List String :=
  ["(", ")", "[", "]", "\x7b", "\x7d", ",", ":", ".", "=", "+", "-", "~", "*", "/", "//", "%",
    "@", "**", "<<", ">>", "&", "^", "|", "==", "!=", "<", ">", "<=", ">="]

theorem isAlone_operator {op : String} (h : op ∈ expressionOperators) :
    (Word.operator op).IsAlone := by
  have hall : expressionOperators.all fun op => op.toList.head?.any fun c =>
      Lexeme.read c op.toList.tail = some (.operator op.toList, []) &&
        op.toList.all (!isBlank ·) := by
    decide +kernel
  obtain ⟨c, hc, hop⟩ := (Option.any_eq_true _ _).1 (List.all_eq_true.1 hall op h)
  simp only [Bool.and_eq_true, decide_eq_true_eq, List.all_eq_true, Bool.not_eq_true'] at hop
  have htext : op.toList = c :: op.toList.tail := List.eq_cons_of_mem_head? hc
  exact Word.isAlone_of_solid htext hop.1 fun d hd => hop.2 d (htext ▸ hd)

end PotExtract.Python
