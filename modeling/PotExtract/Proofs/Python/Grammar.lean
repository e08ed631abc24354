import PotExtract.Proofs.Python.SpacedWords

/-! A grammar of expressions. It knows no precedence: an operand may be any expression, in
parentheses or not, so it derives all expressions of the language that are made of these forms, and
more. -/

namespace PotExtract.Python

/-- The keywords of the language. -/
def keywords : List String :=
  ["False", "None", "True", "and", "as", "assert", "async", "await", "break", "class", "continue",
    "def", "del", "elif", "else", "except", "finally", "for", "from", "global", "if", "import", "in",
    "is", "lambda", "nonlocal", "not", "or", "pass", "raise", "return", "try", "while", "with",
    "yield"]

/-- A name that is no keyword. -/
def isName (text : String) : Bool :=
  isIdentifier text && !keywords.contains text

namespace Grammar

/-- The operators in front of an operand. -/
def unaryOperators : List Word :=
  [.operator "+", .operator "-", .operator "~", .name "not"]

/-- The operators between two operands: of arithmetic, shifts and bits, comparisons, and those of
truth values. -/
def binaryOperators : List (List Word) :=
  ["+", "-", "*", "/", "//", "%", "@", "**", "<<", ">>", "&", "^", "|", "==", "!=", "<", ">", "<=",
    ">="].map (fun op => [.operator op]) ++
  [["in"], ["not", "in"], ["is"], ["is", "not"], ["and"], ["or"]].map fun names => names.map .name

inductive Bracket where
  | round
  | square
  | curly
  deriving DecidableEq, Repr

def Bracket.opener : Bracket → String
  | round => "("
  | square => "["
  | curly => "\x7b"

def Bracket.closer : Bracket → String
  | round => ")"
  | square => "]"
  | curly => "\x7d"

/-- Words between brackets. -/
def Bracket.enclose (b : Bracket) (words : List Word) : List Word :=
  .operator b.opener :: (words ++ [.operator b.closer])

/-- Items with commas between them, and with one behind the last if `comma`. -/
def row (comma : Bool) : List (List Word) → List Word
  | [] => []
  | [item] => if comma then item ++ [.operator ","] else item
  | item :: items => item ++ .operator "," :: row comma items

/-- What is derived: expressions, the bounds of a slice, which may be left out, the arguments of calls,
the indices of subscripts, the entries of dictionaries, the clauses of comprehensions, and
comprehensions without their brackets. -/
inductive Category where
  | expression
  | bound
  | argument
  | index
  | entry
  | clause
  | comprehension
  deriving DecidableEq, Repr

/-- The words that a category derives. -/
inductive Derives : Category → List Word → Prop
  | name {n : String} (isName : isName n) : Derives .expression [.name n]
  | number {n : String} (isDecimal : IsDecimal n) : Derives .expression [.number n]
  | strings {first : String} {others : List String} (isLiteral : IsLiteral first)
      (areLiterals : ∀ s ∈ others, IsLiteral s) :
      Derives .expression (.string first :: others.map .string)
  | member {object : List Word} {n : String} (left : Derives .expression object)
      (isName : isName n) : Derives .expression (object ++ [.operator ".", .name n])
  | call {function : List Word} {arguments : List (List Word)} (comma : Bool)
      (left : Derives .expression function) (each : ∀ a ∈ arguments, Derives .argument a) :
      Derives .expression (function ++ Bracket.round.enclose (row comma arguments))
  | generatorCall {function content : List Word} (left : Derives .expression function)
      (inner : Derives .comprehension content) :
      Derives .expression (function ++ Bracket.round.enclose content)
  | subscript {object : List Word} {indices : List (List Word)} (comma : Bool)
      (left : Derives .expression object) (nonempty : indices ≠ [])
      (each : ∀ i ∈ indices, Derives .index i) :
      Derives .expression (object ++ Bracket.square.enclose (row comma indices))
  | unary {operator : Word} {operand : List Word} (isUnary : operator ∈ unaryOperators)
      (right : Derives .expression operand) : Derives .expression (operator :: operand)
  | binary {operator first second : List Word} (isBinary : operator ∈ binaryOperators)
      (left : Derives .expression first) (right : Derives .expression second) :
      Derives .expression (first ++ (operator ++ second))
  | conditional {value condition other : List Word} (left : Derives .expression value)
      (middle : Derives .expression condition) (right : Derives .expression other) :
      Derives .expression (value ++ .name "if" :: (condition ++ .name "else" :: other))
  | lambda {parameters : List String} {body : List Word}
      (areNames : ∀ p ∈ parameters, Python.isName p) (right : Derives .expression body) :
      Derives .expression
        (.name "lambda" :: (row false (parameters.map fun p => [.name p]) ++ .operator ":" :: body))
  | tuple {items : List (List Word)} (comma : Bool) (nonempty : items ≠ [])
      (each : ∀ e ∈ items, Derives .expression e) : Derives .expression (row comma items)
  | display {items : List (List Word)} (bracket : Bracket) (comma : Bool)
      (each : ∀ e ∈ items, Derives .expression e) :
      Derives .expression (bracket.enclose (row comma items))
  | dict {entries : List (List Word)} (comma : Bool) (each : ∀ e ∈ entries, Derives .entry e) :
      Derives .expression (Bracket.curly.enclose (row comma entries))
  | generator {content : List Word} (bracket : Bracket) (inner : Derives .comprehension content) :
      Derives .expression (bracket.enclose content)
  | noBound : Derives .bound []
  | bound {e : List Word} (inner : Derives .expression e) : Derives .bound e
  | positional {e : List Word} (inner : Derives .expression e) : Derives .argument e
  | keyword {n : String} {e : List Word} (isName : isName n) (right : Derives .expression e) :
      Derives .argument (.name n :: .operator "=" :: e)
  | index {e : List Word} (inner : Derives .expression e) : Derives .index e
  | slice {low high : List Word} (left : Derives .bound low) (right : Derives .bound high) :
      Derives .index (low ++ .operator ":" :: high)
  | steppedSlice {low high step : List Word} (left : Derives .bound low)
      (middle : Derives .bound high) (right : Derives .bound step) :
      Derives .index (low ++ .operator ":" :: (high ++ .operator ":" :: step))
  | entry {key value : List Word} (left : Derives .expression key)
      (right : Derives .expression value) : Derives .entry (key ++ .operator ":" :: value)
  | clause {targets conditions : List (List Word)} {source : List Word} (comma : Bool)
      (nonempty : targets ≠ []) (each : ∀ e ∈ targets, Derives .expression e)
      (right : Derives .expression source) (conditional : ∀ e ∈ conditions, Derives .expression e) :
      Derives .clause (.name "for" :: (row comma targets ++ .name "in" ::
        (source ++ conditions.flatMap (.name "if" :: ·))))
  | comprehension {e : List Word} {clauses : List (List Word)} (left : Derives .expression e)
      (nonempty : clauses ≠ []) (each : ∀ c ∈ clauses, Derives .clause c) :
      Derives .comprehension (e ++ clauses.flatten)
  | dictComprehension {e : List Word} {clauses : List (List Word)} (left : Derives .entry e)
      (nonempty : clauses ≠ []) (each : ∀ c ∈ clauses, Derives .clause c) :
      Derives .expression (Bracket.curly.enclose (e ++ clauses.flatten))

/-! ### Every word is read on its own -/

/-- A word that the language fixes: an operator or a keyword. -/
def isFixed : Word → Bool
  | .operator op => expressionOperators.contains op
  | .name n => isIdentifier n
  | _ => false

theorem isAlone_of_isFixed {w : Word} (h : isFixed w) : w.IsAlone := by
  cases w with
  | operator op => exact isAlone_operator (by simpa [isFixed] using h)
  | name n => exact isAlone_name h
  | number n => cases h
  | string s => cases h

theorem isAlone_of_isName {n : String} (h : isName n) : (Word.name n).IsAlone :=
  isAlone_name (Bool.and_eq_true_iff.1 h).1

/-- Whether all words are read on their own. -/
def AreAlone (words : List Word) : Prop :=
  ∀ w ∈ words, w.IsAlone

@[simp] theorem areAlone_nil : AreAlone [] :=
  List.forall_mem_nil _

@[simp] theorem areAlone_cons {w : Word} {words : List Word} :
    AreAlone (w :: words) ↔ w.IsAlone ∧ AreAlone words :=
  List.forall_mem_cons

@[simp] theorem areAlone_append {u v : List Word} : AreAlone (u ++ v) ↔ AreAlone u ∧ AreAlone v :=
  List.forall_mem_append

theorem areAlone_flatten {parts : List (List Word)} (h : ∀ p ∈ parts, AreAlone p) :
    AreAlone parts.flatten := by
  intro w hw
  obtain ⟨p, hp, hw⟩ := List.mem_flatten.1 hw
  exact h p hp w hw

theorem areAlone_row {items : List (List Word)} (comma : Bool) (h : ∀ i ∈ items, AreAlone i) :
    AreAlone (row comma items) := by
  have hcomma : (Word.operator ",").IsAlone := isAlone_of_isFixed (by decide)
  fun_induction row comma items with
  | case1 => simp
  | case2 item => simpa [hcomma] using h
  | case3 item => simpa using h
  | case4 item items _ ih =>
    obtain ⟨hitem, hitems⟩ := List.forall_mem_cons.1 h
    simp [hitem, hcomma, ih hitems]

theorem areAlone_enclose {words : List Word} (b : Bracket) (h : AreAlone words) :
    AreAlone (b.enclose words) := by
  have hopener : (Word.operator b.opener).IsAlone := isAlone_of_isFixed (by cases b <;> decide)
  have hcloser : (Word.operator b.closer).IsAlone := isAlone_of_isFixed (by cases b <;> decide)
  simp [Bracket.enclose, hopener, hcloser, h]

theorem Derives.areAlone {category : Category} {words : List Word} (h : Derives category words) :
    AreAlone words := by
  have hfixed : ∀ w : Word, isFixed w → w.IsAlone := fun w => isAlone_of_isFixed
  induction h with
  | name hn => simpa using isAlone_of_isName hn
  | number hn => simpa using isAlone_number hn
  | @strings first others hfirst hothers =>
    refine areAlone_cons.2 ⟨isAlone_string hfirst, fun w hw => ?_⟩
    obtain ⟨s, hs, rfl⟩ := List.mem_map.1 hw
    exact isAlone_string (hothers s hs)
  | member _ hn ih =>
    simpa [ih, isAlone_of_isName hn] using hfixed _ (by decide)
  | call comma _ _ ihf iha => exact areAlone_append.2 ⟨ihf, areAlone_enclose _ (areAlone_row _ iha)⟩
  | generatorCall _ _ ihf ih => exact areAlone_append.2 ⟨ihf, areAlone_enclose _ ih⟩
  | subscript comma _ _ _ iho ihi =>
    exact areAlone_append.2 ⟨iho, areAlone_enclose _ (areAlone_row _ ihi)⟩
  | unary ho _ ih =>
    have hall : unaryOperators.all isFixed := by decide
    exact areAlone_cons.2 ⟨hfixed _ (List.all_eq_true.1 hall _ ho), ih⟩
  | binary ho _ _ ihl ihr =>
    have hall : binaryOperators.all fun operator => operator.all isFixed := by decide
    have hoperator := List.all_eq_true.1 (List.all_eq_true.1 hall _ ho)
    simp only [areAlone_append]
    exact ⟨ihl, fun w hw => hfixed w (hoperator w hw), ihr⟩
  | conditional _ _ _ ihv ihc iho =>
    simp [ihv, ihc, iho, hfixed (.name "if") (by decide), hfixed (.name "else") (by decide)]
  | @lambda parameters body hp _ ih =>
    have hrow : AreAlone (row false (parameters.map fun p => [.name p])) := by
      refine areAlone_row _ fun i hi => ?_
      obtain ⟨p, hp', rfl⟩ := List.mem_map.1 hi
      simpa using isAlone_of_isName (hp p hp')
    simp [hrow, ih, hfixed (.name "lambda") (by decide), hfixed (.operator ":") (by decide)]
  | tuple comma _ _ ih => exact areAlone_row _ ih
  | display bracket comma _ ih => exact areAlone_enclose _ (areAlone_row _ ih)
  | dict comma _ ih => exact areAlone_enclose _ (areAlone_row _ ih)
  | generator bracket _ ih => exact areAlone_enclose _ ih
  | noBound => simp
  | bound _ ih | positional _ ih | index _ ih => exact ih
  | keyword hn _ ih =>
    simp [isAlone_of_isName hn, ih, hfixed (.operator "=") (by decide)]
  | slice _ _ ihl ihh => simp [ihl, ihh, hfixed (.operator ":") (by decide)]
  | steppedSlice _ _ _ ihl ihh ihs => simp [ihl, ihh, ihs, hfixed (.operator ":") (by decide)]
  | entry _ _ ihk ihv => simp [ihk, ihv, hfixed (.operator ":") (by decide)]
  | @clause targets conditions source comma _ _ _ _ iht ihs ihc =>
    have hconditions : AreAlone (conditions.flatMap (.name "if" :: ·)) := by
      rw [List.flatMap_def]
      refine areAlone_flatten fun p hp => ?_
      obtain ⟨e, he, rfl⟩ := List.mem_map.1 hp
      simp [ihc e he, hfixed (.name "if") (by decide)]
    simp [areAlone_row comma iht, ihs, hconditions, hfixed (.name "for") (by decide),
      hfixed (.name "in") (by decide)]
  | comprehension _ _ _ ihe ihc => exact areAlone_append.2 ⟨ihe, areAlone_flatten ihc⟩
  | dictComprehension _ _ _ ihe ihc =>
    exact areAlone_enclose _ (areAlone_append.2 ⟨ihe, areAlone_flatten ihc⟩)

end Grammar

end PotExtract.Python
