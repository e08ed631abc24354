import PotExtract.Proofs.Outcome
import PotExtract.Proofs.Tales.ExpressionCode
import PotExtract.Proofs.Text.Lines

/-! Clauses that bind variables, as they are printed: the word of a scope or none, a name or a list
of names in parentheses, and an expression with its semicolons doubled. All clauses are read back
unless one without a word has a variable whose name starts with the word of a scope, and what is left
of the name, or the expression behind it, is taken for the variable. -/

namespace PotExtract.Tales

open Text Define

/-- White space. -/
abbrev Space := { s : List Char // ∀ c ∈ s, isBlank c }

/-- The name of a variable. -/
structure VariableName where
  first : Char
  others : List Char
  isNameStart_first : isNameStart first
  isNameChar_others : ∀ c ∈ others, isNameChar c

/-- The characters of the name. -/
def VariableName.chars (n : VariableName) : List Char :=
  n.first :: n.others

/-- What a clause binds: one name, or names in parentheses with commas between them. White space may
stand behind a comma. -/
inductive Binder where
  | single (name : VariableName)
  | listed (first : VariableName) (others : List (Space × VariableName))

namespace Binder

/-- The names in a list behind its first one. -/
def laterNames (others : List (Space × VariableName)) : List Char :=
  others.flatMap fun p => ',' :: (p.1.val ++ p.2.chars)

/-- The binder as it is printed. -/
def write : Binder → List Char
  | single n => n.chars
  | listed n others => '(' :: (n.chars ++ laterNames others ++ [')'])

/-- The names that are bound. -/
def names : Binder → List String
  | single n => [String.ofList n.chars]
  | listed n others => String.ofList n.chars :: others.map fun p => String.ofList p.2.chars

end Binder

/-- A clause. The word of its scope may be left out if the scope is that of the element. -/
structure Clause where
  lead : Space
  word : Option DefineScope
  binder : Binder
  expression : List Char
  isBlank_head : ∀ c ∈ expression.head?, isBlank c = false

/-- The text with its semicolons doubled. -/
def doubled (s : List Char) : List Char :=
  s.flatMap fun c => if c = ';' then [';', ';'] else [c]

namespace Clause

/-- What stands in front of the expression: the word of the scope with a space behind it, unless it
is left out, and the binder with a space behind it. -/
def head (c : Clause) : List Char :=
  c.word.elim [] (fun scope => scope.word.toList ++ [' ']) ++ c.binder.write ++ [' ']

/-- The clause as it is printed. -/
def write (c : Clause) : List Char :=
  c.lead.val ++ c.head ++ doubled c.expression

/-- The binding that the clause stands for. -/
def define (c : Clause) : Define :=
  ⟨c.word.getD .inside, c.binder.names, String.ofList c.expression⟩

/-- Clauses with semicolons between them. -/
def writeAll (clauses : List Clause) : List Char :=
  [';'].intercalate (clauses.map write)

end Clause

/-- A text begins with a name and white space, or with what may be a list of names and white space.
-/
def BeginsBinding (s : List Char) : Prop :=
  (∃ (n : VariableName) (b : Char) (more : List Char), s = n.chars ++ b :: more ∧ isBlank b) ∨
    ∃ (c : Char) (list : List Char) (b : Char) (more : List Char),
      s = '(' :: c :: (list ++ ')' :: b :: more) ∧ isNameStart c ∧ (∀ d ∈ list, isListChar d) ∧
        isBlank b

/-- The name of the only variable is taken for the word of a scope: what is left of the name is a
name, or nothing is left and the expression begins like a binding. -/
def Clause.IsMisread (c : Clause) : Prop :=
  c.word = none ∧ ∃ (n : VariableName) (scope : DefineScope), c.binder = .single n ∧
    ((∃ shorter : VariableName, n.chars = scope.word.toList ++ shorter.chars) ∨
      n.chars = scope.word.toList ∧ BeginsBinding c.expression)

/-! ### Characters of names -/

section Characters

variable {c : Char}

theorem isNameChar_of_isNameStart (h : isNameStart c) : isNameChar c := by
  simp only [isNameStart, isNameChar, Char.isAlphanum, Bool.or_eq_true] at *
  tauto

theorem not_isNameChar_of_blank (h : isBlank c) : isNameChar c = false := by
  have : (fun c => !isNameChar c) c := by
    apply forall_isBlank _ h
    decide +kernel
  simpa using this

theorem isBlank_of_isNameChar (h : isNameChar c) : isBlank c = false := by
  rw [Bool.eq_false_iff]
  intro hblank
  rw [not_isNameChar_of_blank hblank] at h
  cases h

theorem ne_of_isNameChar (h : isNameChar c) : c ≠ ';' ∧ c ≠ ',' ∧ c ≠ ' ' := by
  refine ⟨?_, ?_, ?_⟩ <;> rintro rfl <;> simp [isNameChar] at h

theorem ne_of_blank (h : isBlank c) : c ≠ ';' ∧ c ≠ ',' := by
  refine ⟨?_, ?_⟩ <;> rintro rfl <;> simp [isBlank] at h

end Characters

namespace VariableName

variable (n : VariableName)

theorem isNameChar_of_mem : ∀ c ∈ n.chars, isNameChar c :=
  List.forall_mem_cons.2 ⟨isNameChar_of_isNameStart n.isNameStart_first, n.isNameChar_others⟩

theorem isBlank_first : isBlank n.first = false :=
  isBlank_of_isNameChar (isNameChar_of_isNameStart n.isNameStart_first)

theorem trim_chars : trim n.chars = n.chars := by
  have hblank : ∀ c ∈ n.chars, isBlank c = false :=
    fun c hc => isBlank_of_isNameChar (n.isNameChar_of_mem c hc)
  exact trim_eq_self (fun c hc => hblank c (List.mem_of_mem_head? hc))
    fun c hc => hblank c (List.mem_of_mem_getLast? hc)

end VariableName

/-! ### Reading what a clause binds -/

theorem trim_space_append (w : Space) (s : List Char) : trim (w.val ++ s) = trim s := by
  rw [trim, trim, trimLeft_of_blank w.property]

theorem splitNames_laterNames (w : Space) (n : VariableName)
    (others : List (Space × VariableName)) :
    splitNames (w.val ++ n.chars ++ Binder.laterNames others) =
      String.ofList n.chars :: others.map fun p => String.ofList p.2.chars := by
  have hcomma : ∀ (w : Space) (n : VariableName), ',' ∉ w.val ++ n.chars := by
    intro w n hmem
    rcases List.mem_append.1 hmem with h | h
    · exact (ne_of_blank (w.property _ h)).2 rfl
    · exact (ne_of_isNameChar (n.isNameChar_of_mem _ h)).2.1 rfl
  have hname : ∀ (w : Space) (n : VariableName), trim (w.val ++ n.chars) = n.chars :=
    fun w n => (trim_space_append w n.chars).trans n.trim_chars
  induction others generalizing w n with
  | nil =>
    rw [Binder.laterNames, List.flatMap_nil, List.append_nil, splitNames,
      List.splitOn_eq_singleton (hcomma w n), List.map_singleton, hname]
    rfl
  | cons p others ih =>
    have hlater : Binder.laterNames (p :: others) =
        ',' :: (p.1.val ++ p.2.chars ++ Binder.laterNames others) := by
      simp [Binder.laterNames]
    have hcons : splitNames (w.val ++ n.chars ++ Binder.laterNames (p :: others)) =
        String.ofList n.chars ::
          splitNames (p.1.val ++ p.2.chars ++ Binder.laterNames others) := by
      rw [hlater, splitNames, splitOn_append_cons, List.splitOn_eq_singleton (hcomma w n),
        List.map_append, List.map_singleton, hname]
      rfl
    rw [hcons, ih, List.map_cons]

/-- The characters of a list of names go up to its closing parenthesis. -/
theorem takeWhile_list {list : List Char} (h : ∀ d ∈ list, isListChar d) (rest : List Char) :
    (list ++ ')' :: rest).takeWhile isListChar = list ∧
      (list ++ ')' :: rest).dropWhile isListChar = ')' :: rest := by
  constructor
  · rw [List.takeWhile_append_of_pos h]
    simp [isListChar, isNameChar, isBlank]
  · rw [List.dropWhile_append_of_pos h]
    simp [isListChar, isNameChar, isBlank]

theorem names?_list {c : Char} {list : List Char} (hc : isNameStart c)
    (h : ∀ d ∈ list, isListChar d) (rest : List Char) :
    names? ('(' :: c :: (list ++ ')' :: rest)) = some (splitNames (c :: list), rest) := by
  have hlist : ∀ d ∈ c :: list, isListChar d :=
    List.forall_mem_cons.2 ⟨by simp [isListChar, isNameChar_of_isNameStart hc], h⟩
  obtain ⟨htake, hdrop⟩ := takeWhile_list hlist rest
  rw [List.cons_append] at htake hdrop
  have hopen : isNameStart '(' = false := by decide
  simp only [names?, hopen, List.head?_cons, Option.any_some, hc, hdrop, htake]
  rfl

theorem names?_chars (n : VariableName) {b : Char} (hb : isBlank b) (rest : List Char) :
    names? (n.chars ++ b :: rest) = some ([String.ofList n.chars], b :: rest) := by
  have hstop : isNameChar b = false := not_isNameChar_of_blank hb
  simp only [VariableName.chars, List.cons_append, names?, n.isNameStart_first, if_true,
    List.takeWhile_append_of_pos n.isNameChar_others,
    List.dropWhile_append_of_pos n.isNameChar_others]
  simp [hstop]

theorem isListChar_laterNames (others : List (Space × VariableName)) :
    ∀ d ∈ Binder.laterNames others, isListChar d := by
  intro d hd
  obtain ⟨p, -, hd⟩ := List.mem_flatMap.1 hd
  rcases List.mem_cons.1 hd with rfl | hd
  · rfl
  rcases List.mem_append.1 hd with hd | hd
  · simp [isListChar, p.1.property d hd]
  · simp [isListChar, p.2.isNameChar_of_mem d hd]

/-- A binder is read as its names if white space follows. -/
theorem names?_write (binder : Binder) {b : Char} (hb : isBlank b) (rest : List Char) :
    names? (binder.write ++ b :: rest) = some (binder.names, b :: rest) := by
  cases binder with
  | single n => exact names?_chars n hb rest
  | listed n others =>
    have hlist : ∀ d ∈ n.others ++ Binder.laterNames others, isListChar d :=
      List.forall_mem_append.2
        ⟨fun d hd => by simp [isListChar, n.isNameChar_others d hd], isListChar_laterNames others⟩
    have hread := names?_list n.isNameStart_first hlist (b :: rest)
    have hnames := splitNames_laterNames ⟨[], by simp⟩ n others
    rw [List.nil_append, VariableName.chars, List.cons_append] at hnames
    rw [hnames] at hread
    simpa [Binder.write, Binder.names, VariableName.chars] using hread

theorem binding?_write (scope : DefineScope) (binder : Binder) {s : List Char}
    (hs : ∀ c ∈ s.head?, isBlank c = false) :
    binding? scope (binder.write ++ ' ' :: s) =
      some ⟨scope, binder.names, String.ofList s⟩ := by
  simp [binding?, names?_write binder (by decide : isBlank ' '), isBlank, trimLeft_eq_self hs]

/-- Variables and an expression are read where a binding begins, and the expression is shorter than
the text. -/
theorem of_binding?_eq_some {scope : DefineScope} {s : List Char} {d : Define}
    (h : binding? scope s = some d) : BeginsBinding s ∧ d.expression.toList.length < s.length := by
  unfold binding? at h
  split at h
  case h_2 => cases h
  next names b more hnames =>
  split at h
  case isFalse => cases h
  next hb =>
  cases h
  -- the expression is what is behind the white space, so it is enough to say what is in front
  have hshorter : ∀ {front : List Char}, s = front ++ b :: more →
      (String.ofList (trimLeft more)).toList.length < s.length := by
    intro front hs
    have := (List.dropWhile_suffix isBlank (l := more)).length_le
    rw [hs, String.toList_ofList, trimLeft, List.length_append, List.length_cons]
    omega
  unfold names? at hnames
  split at hnames
  · cases hnames
  next c tail =>
  split at hnames
  · next hc =>
    obtain ⟨-, hdrop⟩ := Prod.mk.inj (Option.some.inj hnames)
    have hs : c :: tail = (c :: tail.takeWhile isNameChar) ++ b :: more := by
      rw [List.cons_append, ← hdrop, List.takeWhile_append_dropWhile]
    exact ⟨.inl ⟨⟨c, tail.takeWhile isNameChar, hc, fun d hd => List.mem_takeWhile_imp hd⟩, b, more,
      hs, hb⟩, hshorter hs⟩
  split at hnames
  case h_2 => cases hnames
  next hstart hdrop _ =>
  obtain ⟨-, rfl⟩ := Prod.mk.inj (Option.some.inj hnames)
  have htail : tail = tail.takeWhile isListChar ++ ')' :: b :: more := by
    rw [← hdrop, List.takeWhile_append_dropWhile]
  cases tail with
  | nil => cases hstart
  | cons e tail =>
    have he : isNameStart e := by simpa using hstart
    have helist : isListChar e := by simp [isListChar, isNameChar_of_isNameStart he]
    rw [List.takeWhile_cons_of_pos helist, List.cons_append] at htail
    have htail := (List.cons.inj htail).2
    refine ⟨.inr ⟨e, tail.takeWhile isListChar, b, more, by rw [← htail], he,
      fun d hd => List.mem_takeWhile_imp hd, hb⟩, ?_⟩
    apply @hshorter ('(' :: e :: (tail.takeWhile isListChar ++ [')']))
    simpa using htail

theorem isSome_binding? (scope : DefineScope) {s : List Char} (h : BeginsBinding s) :
    (binding? scope s).isSome := by
  rcases h with ⟨n, b, more, rfl, hb⟩ | ⟨c, list, b, more, rfl, hc, hlist, hb⟩
  · simp [binding?, names?_chars n hb, hb]
  · simp [binding?, names?_list hc hlist, hb]

/-! ### Reading what follows a word -/

section Word

variable {scope : DefineScope} {n : VariableName} {s : List Char}

theorem scoped?_of_longer (hs : ∀ c ∈ s.head?, isBlank c = false) {shorter : VariableName}
    (h : n.chars = scope.word.toList ++ shorter.chars) :
    scoped? scope (n.chars ++ ' ' :: s) = some ⟨scope, [String.ofList shorter.chars],
      String.ofList s⟩ := by
  have hleft : trimLeft (shorter.chars ++ ' ' :: s) = shorter.chars ++ ' ' :: s :=
    trimLeft_eq_self fun c hc => Option.some.inj hc ▸ shorter.isBlank_first
  rw [scoped?, h, List.append_assoc, after?_append, Option.bind_some, hleft]
  exact binding?_write scope (.single shorter) hs

theorem scoped?_of_eq (hs : ∀ c ∈ s.head?, isBlank c = false) (h : n.chars = scope.word.toList) :
    scoped? scope (n.chars ++ ' ' :: s) = binding? scope s := by
  have hleft : trimLeft (' ' :: s) = s :=
    (List.dropWhile_cons_of_pos (by decide)).trans (trimLeft_eq_self hs)
  rw [scoped?, h, after?_append, Option.bind_some, hleft]

theorem not_mem_word (scope : DefineScope) : ' ' ∉ scope.word.toList := by
  cases scope <;> decide

/-- A word is found in front of a name only if it is the name or what the name starts with. -/
theorem of_scoped?_eq_some {d : Define}
    (h : scoped? scope (n.chars ++ ' ' :: s) = some d) :
    (∃ shorter : VariableName, n.chars = scope.word.toList ++ shorter.chars) ∨
      n.chars = scope.word.toList := by
  obtain ⟨rest, hrest, hbinding⟩ := Option.bind_eq_some_iff.1 h
  rcases List.append_eq_append_iff.1 (after?_eq_some hrest).symm with
    ⟨left, hn, rfl⟩ | ⟨excess, hword, hexcess⟩
  · cases left with
    | nil => exact .inr (by simpa using hn)
    | cons c left =>
      have hchars : ∀ d ∈ c :: left, isNameChar d := fun d hd =>
        n.isNameChar_of_mem d (hn ▸ List.mem_append_right _ hd)
      have hc : isNameChar c := hchars c List.mem_cons_self
      have hleft : trimLeft (c :: left ++ ' ' :: s) = c :: left ++ ' ' :: s :=
        trimLeft_eq_self fun d hd => Option.some.inj hd ▸ isBlank_of_isNameChar hc
      rw [hleft] at hbinding
      have hstart : isNameStart c := by
        rcases (of_binding?_eq_some hbinding).1 with
          ⟨m, b, more, hm, -⟩ | ⟨e, list, b, more, hm, -⟩
        · rw [(List.cons.inj hm).1]
          exact m.isNameStart_first
        · rw [(List.cons.inj hm).1] at hc
          cases hc
      exact .inl ⟨⟨c, left, hstart, fun d hd => hchars d (List.mem_cons_of_mem c hd)⟩, hn⟩
  · cases excess with
    | nil => exact .inr (by simpa using hword.symm)
    | cons c excess =>
      have hc : c = ' ' := (List.cons.inj hexcess).1.symm
      exact absurd (hword ▸ by simp [hc] : ' ' ∈ scope.word.toList) (not_mem_word scope)

/-- A binding is read behind the word of a scope if the word is cut off a longer name, or is the name
and the expression begins like a binding. -/
theorem isSome_scoped?_iff (hs : ∀ c ∈ s.head?, isBlank c = false) :
    (scoped? scope (n.chars ++ ' ' :: s)).isSome ↔
      (∃ shorter : VariableName, n.chars = scope.word.toList ++ shorter.chars) ∨
        n.chars = scope.word.toList ∧ BeginsBinding s := by
  constructor
  · intro h
    obtain ⟨d, hd⟩ := Option.isSome_iff_exists.1 h
    refine (of_scoped?_eq_some hd).imp_right fun hn => ⟨hn, ?_⟩
    rw [scoped?_of_eq hs hn] at hd
    exact (of_binding?_eq_some hd).1
  · rintro (⟨shorter, hn⟩ | ⟨hn, hbegins⟩)
    · rw [scoped?_of_longer hs hn]
      rfl
    · rw [scoped?_of_eq hs hn]
      exact isSome_binding? scope hbegins

/-- A binding that is read behind a word has a shorter name or a shorter expression. -/
theorem ne_of_scoped?_eq_some (hs : ∀ c ∈ s.head?, isBlank c = false) {d : Define}
    (h : scoped? scope (n.chars ++ ' ' :: s) = some d) :
    d ≠ ⟨.inside, [String.ofList n.chars], String.ofList s⟩ := by
  rintro rfl
  rcases of_scoped?_eq_some h with ⟨shorter, hn⟩ | hn
  · rw [scoped?_of_longer hs hn] at h
    have hnames := (Define.mk.inj (Option.some.inj h)).2.1
    have hchars : shorter.chars = n.chars := String.ofList_injective (List.cons.inj hnames).1
    rw [hchars] at hn
    have hlength := congrArg List.length hn
    have : 0 < scope.word.toList.length := by cases scope <;> decide
    rw [List.length_append] at hlength
    omega
  · rw [scoped?_of_eq hs hn] at h
    have := (of_binding?_eq_some h).2
    rw [String.toList_ofList] at this
    omega

end Word

theorem scoped?_word (scope : DefineScope) (binder : Binder) {s : List Char}
    (hs : ∀ c ∈ s.head?, isBlank c = false) :
    scoped? scope (scope.word.toList ++ ' ' :: (binder.write ++ ' ' :: s)) =
      some ⟨scope, binder.names, String.ofList s⟩ := by
  have hfirst : ∀ c ∈ (binder.write ++ ' ' :: s).head?, isBlank c = false := by
    intro c hc
    cases binder with
    | single n => exact Option.some.inj hc ▸ n.isBlank_first
    | listed => exact Option.some.inj hc ▸ by decide
  have hleft : trimLeft (' ' :: (binder.write ++ ' ' :: s)) = binder.write ++ ' ' :: s :=
    (List.dropWhile_cons_of_pos (by decide)).trans (trimLeft_eq_self hfirst)
  rw [scoped?, after?_append, Option.bind_some, hleft, binding?_write scope binder hs]

theorem scoped?_listed (scope : DefineScope) (s : List Char) : scoped? scope ('(' :: s) = none := by
  cases scope <;> rfl

theorem scoped?_everywhere_local (s : List Char) :
    scoped? .everywhere (DefineScope.inside.word.toList ++ s) = none := rfl

theorem parse?_eq {s : List Char} (hs : ∀ c ∈ s.head?, isBlank c = false) :
    parse? s = ((scoped? .everywhere s).or (scoped? .inside s)).or (binding? .inside s) := by
  simp only [parse?, trimLeft_eq_self hs]

theorem parse?_space_append (w : Space) (s : List Char) : parse? (w.val ++ s) = parse? s := by
  simp only [parse?, trimLeft_of_blank w.property]

theorem parse?_word (scope : DefineScope) (binder : Binder) {s : List Char}
    (hs : ∀ c ∈ s.head?, isBlank c = false) :
    parse? (scope.word.toList ++ ' ' :: (binder.write ++ ' ' :: s)) =
      some ⟨scope, binder.names, String.ofList s⟩ := by
  have hread := scoped?_word scope binder hs
  have hfirst : ∀ c ∈ (scope.word.toList ++ ' ' :: (binder.write ++ ' ' :: s)).head?,
      isBlank c = false := by
    cases scope <;> exact fun c hc => Option.some.inj hc ▸ by decide
  rw [parse?_eq hfirst]
  cases scope with
  | everywhere =>
    rw [hread]
    rfl
  | inside =>
    rw [scoped?_everywhere_local, hread]
    rfl

theorem parse?_listed (n : VariableName) (others : List (Space × VariableName)) {s : List Char}
    (hs : ∀ c ∈ s.head?, isBlank c = false) :
    parse? ((Binder.listed n others).write ++ ' ' :: s) =
      some ⟨.inside, (Binder.listed n others).names, String.ofList s⟩ := by
  have hopen : (Binder.listed n others).write ++ ' ' :: s =
      '(' :: ((n.chars ++ Binder.laterNames others ++ [')']) ++ ' ' :: s) := rfl
  rw [parse?_eq (by rw [hopen]; exact fun c hc => Option.some.inj hc ▸ by decide), hopen,
    scoped?_listed, scoped?_listed, ← hopen]
  exact binding?_write .inside (.listed n others) hs

/-- A name in front of an expression is the name of the variable, unless the word of a scope is
found in it. -/
theorem parse?_chars_iff (n : VariableName) {s : List Char}
    (hs : ∀ c ∈ s.head?, isBlank c = false) :
    parse? (n.chars ++ ' ' :: s) = some ⟨.inside, [String.ofList n.chars], String.ofList s⟩ ↔
      ∀ scope : DefineScope,
        ¬ ((∃ shorter : VariableName, n.chars = scope.word.toList ++ shorter.chars) ∨
          n.chars = scope.word.toList ∧ BeginsBinding s) := by
  have hfirst : ∀ c ∈ (n.chars ++ ' ' :: s).head?, isBlank c = false :=
    fun c hc => Option.some.inj hc ▸ n.isBlank_first
  rw [parse?_eq hfirst]
  simp only [← isSome_scoped?_iff hs]
  constructor
  · intro hparse scope hsome
    cases hor : (scoped? .everywhere (n.chars ++ ' ' :: s)).or
        (scoped? .inside (n.chars ++ ' ' :: s)) with
    | some d =>
      rw [hor, Option.some_or] at hparse
      have hd := Option.some.inj hparse
      rcases Option.or_eq_some_iff.1 hor with heverywhere | ⟨-, hinside⟩
      · exact ne_of_scoped?_eq_some hs heverywhere hd
      · exact ne_of_scoped?_eq_some hs hinside hd
    | none =>
      obtain ⟨heverywhere, hinside⟩ := Option.or_eq_none_iff.1 hor
      cases scope with
      | everywhere =>
        rw [heverywhere] at hsome
        cases hsome
      | inside =>
        rw [hinside] at hsome
        cases hsome
  · intro h
    have hnone : ∀ scope : DefineScope, scoped? scope (n.chars ++ ' ' :: s) = none := fun scope =>
      Option.not_isSome_iff_eq_none.1 (h scope)
    rw [hnone, hnone]
    exact binding?_write .inside (.single n) hs

namespace Clause

/-- The clause before its semicolons are doubled. -/
def text (c : Clause) : List Char :=
  c.lead.val ++ c.head ++ c.expression

/-- A clause is read as what it stands for, unless it is misread. -/
theorem parse?_text_iff (c : Clause) : parse? c.text = some c.define ↔ ¬ c.IsMisread := by
  obtain ⟨lead, word, binder, s, hs⟩ := c
  rw [text, List.append_assoc, parse?_space_append, head]
  cases word with
  | some scope =>
    have hscoped : ¬ (Clause.mk lead (some scope) binder s hs).IsMisread := fun h => by cases h.1
    refine iff_of_true ?_ hscoped
    simpa [Clause.define] using parse?_word scope binder hs
  | none =>
    simp only [Option.elim_none, List.append_assoc, List.cons_append, List.nil_append]
    cases binder with
    | single n =>
      refine (parse?_chars_iff n hs).trans ?_
      constructor
      · rintro h ⟨-, m, scope, hm, hmisread⟩
        cases hm
        exact h scope hmisread
      · intro h scope hmisread
        exact h ⟨rfl, n, scope, rfl, hmisread⟩
    | listed n others =>
      have hlisted : ¬ (Clause.mk lead none (.listed n others) s hs).IsMisread := by
        rintro ⟨-, m, scope, hm, -⟩
        cases hm
      exact iff_of_true (parse?_listed n others hs) hlisted

end Clause

/-! ### Cutting at semicolons -/

/-- Doubled semicolons do not cut, and stand for single ones. -/
theorem splitClauses_doubled_append (s rest : List Char) :
    splitClauses (doubled s ++ rest) = (splitClauses rest).modifyHead (s ++ ·) := by
  induction s with
  | nil =>
    cases hrest : splitClauses rest with
    | nil => exact absurd hrest (splitClauses_ne_nil rest)
    | cons p ps => simp [doubled, hrest]
  | cons c s ih =>
    by_cases hc : c = ';'
    · have : doubled (c :: s) ++ rest = ';' :: ';' :: (doubled s ++ rest) := by simp [doubled, hc]
      rw [this, splitClauses, ih, List.modifyHead_modifyHead, hc]
      rfl
    · have : doubled (c :: s) ++ rest = c :: (doubled s ++ rest) := by simp [doubled, hc]
      rw [this, splitClauses, if_neg hc, ih, List.modifyHead_modifyHead]
      · rfl
      · exact fun t h => absurd h hc

/-- A semicolon alone cuts. -/
theorem splitClauses_cons {s : List Char} (hs : ∀ c ∈ s.head?, c ≠ ';') :
    splitClauses (';' :: s) = [] :: splitClauses s := by
  cases s with
  | nil => rfl
  | cons c s =>
    have hc : c ≠ ';' := hs c rfl
    rw [splitClauses, if_pos rfl]
    intro t _ ht
    exact hc (List.cons.inj ht).1

theorem doubled_eq_self {s : List Char} (h : ∀ c ∈ s, c ≠ ';') : doubled s = s := by
  rw [doubled]
  induction s with
  | nil => rfl
  | cons c s ih =>
    obtain ⟨hc, hs⟩ := List.forall_mem_cons.1 h
    rw [List.flatMap_cons, if_neg hc, ih hs]
    rfl

namespace Clause

theorem ne_semicolon_of_mem_write (binder : Binder) : ∀ c ∈ binder.write, c ≠ ';' := by
  have hname : ∀ n : VariableName, ∀ c ∈ n.chars, c ≠ ';' :=
    fun n c hc => (ne_of_isNameChar (n.isNameChar_of_mem c hc)).1
  cases binder with
  | single n => exact hname n
  | listed n others =>
    have hlater : ∀ c ∈ Binder.laterNames others, c ≠ ';' := by
      rintro c hc rfl
      have := isListChar_laterNames others _ hc
      simp [isListChar, isNameChar, isBlank] at this
    simp only [Binder.write, List.forall_mem_cons, List.forall_mem_append]
    exact ⟨by decide, ⟨hname n, hlater⟩, by decide, by simp⟩

theorem ne_semicolon_of_mem_head (c : Clause) : ∀ d ∈ c.lead.val ++ c.head, d ≠ ';' := by
  have hword : ∀ d ∈ c.word.elim [] (fun scope => scope.word.toList ++ [' ']), d ≠ ';' := by
    rcases c.word with - | ⟨- | -⟩ <;> simp [DefineScope.word]
  rw [head]
  simp only [List.forall_mem_append, List.forall_mem_cons]
  exact ⟨fun d hd => (ne_of_blank (c.lead.property d hd)).1,
    ⟨hword, ne_semicolon_of_mem_write c.binder⟩, by decide, by simp⟩

theorem write_eq_doubled (c : Clause) : c.write = doubled c.text := by
  have happend : ∀ s t : List Char, doubled (s ++ t) = doubled s ++ doubled t :=
    fun s t => List.flatMap_append
  rw [text, happend, doubled_eq_self c.ne_semicolon_of_mem_head, write]

theorem exists_head_eq (c : Clause) : ∃ d t, c.head = d :: t ∧ isBlank d = false := by
  obtain ⟨lead, word, binder, s, hs⟩ := c
  cases word with
  | some scope => cases scope <;> exact ⟨_, _, rfl, by decide⟩
  | none =>
    cases binder with
    | single n => exact ⟨_, _, rfl, n.isBlank_first⟩
    | listed => exact ⟨_, _, rfl, by decide⟩

/-- A clause is not skipped. -/
theorem trim_text_ne_nil (c : Clause) : trim c.text ≠ [] := by
  obtain ⟨d, t, hhead, hd⟩ := c.exists_head_eq
  intro hnil
  have hmem : d ∈ c.text := by simp [text, hhead]
  rw [trim_eq_nil_iff.1 hnil d hmem] at hd
  cases hd

/-- What is written for clauses does not begin with a semicolon. -/
theorem ne_semicolon_of_writeAll (clauses : List Clause) :
    ∀ d ∈ (writeAll clauses).head?, d ≠ ';' := by
  cases clauses with
  | nil => intro d hd; cases hd
  | cons c clauses =>
    obtain ⟨e, t, hhead, -⟩ := c.exists_head_eq
    obtain ⟨rest, hrest⟩ : ∃ rest, writeAll (c :: clauses) = c.write ++ rest := by
      cases clauses with
      | nil => exact ⟨[], by simp [writeAll]⟩
      | cons c' clauses => exact ⟨';' :: writeAll (c' :: clauses), by simp [writeAll]⟩
    intro d hd
    refine c.ne_semicolon_of_mem_head d (List.mem_of_mem_head? ?_)
    rw [hrest, write, List.append_assoc, List.head?_append_of_ne_nil] at hd
    · exact hd
    · simp [hhead]

/-- Clauses are cut where one ends and the next one begins, and their doubled semicolons read. -/
theorem splitClauses_writeAll {clauses : List Clause} (h : clauses ≠ []) :
    splitClauses (writeAll clauses) = clauses.map text := by
  induction clauses with
  | nil => exact absurd rfl h
  | cons c clauses ih =>
    cases clauses with
    | nil =>
      have := splitClauses_doubled_append c.text []
      simpa [writeAll, write_eq_doubled, splitClauses] using this
    | cons c' clauses =>
      have hwrite : writeAll (c :: c' :: clauses) =
          doubled c.text ++ ';' :: writeAll (c' :: clauses) := by
        simp [writeAll, write_eq_doubled, List.intercalate_cons_cons]
      rw [hwrite, splitClauses_doubled_append,
        splitClauses_cons (ne_semicolon_of_writeAll (c' :: clauses)), ih (by simp)]
      simp

theorem parseClauses_text_iff (clauses : List Clause) :
    parseClauses (clauses.map text) = .ok (clauses.map define) ↔
      ∀ c ∈ clauses, ¬ c.IsMisread := by
  induction clauses with
  | nil => simp [parseClauses]
  | cons c clauses ih =>
    have hskip : (trim c.text).isEmpty = false := by
      simpa [List.isEmpty_eq_false_iff] using c.trim_text_ne_nil
    simp only [List.map_cons, parseClauses, hskip, List.forall_mem_cons, ← c.parse?_text_iff, ← ih]
    cases hparse : parse? c.text with
    | none => simp
    | some d => simp [and_comm]

end Clause

/-- Printed clauses are read as what they stand for, all of them in order, exactly if none of them
is misread. -/
theorem parseAll_writeAll_iff (clauses : List Clause) :
    parseAll (Clause.writeAll clauses) = .ok (clauses.map Clause.define) ↔
      ∀ c ∈ clauses, ¬ c.IsMisread := by
  cases clauses with
  | nil => simp [Clause.writeAll, parseAll, splitClauses, parseClauses, trim, trimLeft, trimRight]
  | cons c clauses =>
    rw [parseAll, Clause.splitClauses_writeAll (by simp), Clause.parseClauses_text_iff]

/-- The word of a scope need not end where the name of a variable goes on. -/
example : parseAll "globals expr".toList = .ok [⟨.everywhere, ["s"], "expr"⟩] := rfl

/-- Printed clauses are read as what they stand for, all of them in order, if none without a word
begins like one with a word. -/
theorem parseAll_writeAll {clauses : List Clause} (h : ∀ c ∈ clauses, ¬ c.IsMisread) :
    parseAll (Clause.writeAll clauses) = .ok (clauses.map Clause.define) :=
  (parseAll_writeAll_iff clauses).2 h

/-- A name of one character. -/
def VariableName.ofChar (c : Char) (h : isNameStart c) : VariableName :=
  ⟨c, [], h, List.forall_mem_nil _⟩

/-- White space of one character. -/
def Space.ofChar (c : Char) (h : isBlank c) : Space :=
  ⟨[c], List.forall_mem_singleton.2 h⟩

/-- A clause with a word, one with a list of names, and one with a name alone. -/
def mixedClauses : List Clause :=
  [{ lead := ⟨[], List.forall_mem_nil _⟩
     word := some .everywhere
     binder := .single (.ofChar 'a' rfl)
     expression := ['b']
     isBlank_head := fun _ hc => Option.some.inj hc ▸ rfl },
   { lead := .ofChar ' ' rfl
     word := none
     binder := .listed (.ofChar 'c' rfl) [(.ofChar ' ' rfl, .ofChar 'd' rfl)]
     expression := "e; f".toList
     isBlank_head := fun _ hc => Option.some.inj hc ▸ rfl },
   { lead := .ofChar ' ' rfl
     word := none
     binder := .single (.ofChar 'g' rfl)
     expression := ['h']
     isBlank_head := fun _ hc => Option.some.inj hc ▸ rfl }]

theorem parseAll_mixedClauses :
    Clause.writeAll mixedClauses = "global a b; (c, d) e;; f; g h".toList ∧
      (∀ c ∈ mixedClauses, ¬ c.IsMisread) ∧
      parseAll (Clause.writeAll mixedClauses) =
        .ok [⟨.everywhere, ["a"], "b"⟩, ⟨.inside, ["c", "d"], "e; f"⟩, ⟨.inside, ["g"], "h"⟩] := by
  have hread : ∀ c ∈ mixedClauses, ¬ c.IsMisread := by
    refine List.forall_mem_cons.2 ⟨?_, List.forall_mem_cons.2 ⟨?_, List.forall_mem_singleton.2 ?_⟩⟩
    · rintro ⟨hword, -⟩
      cases hword
    · rintro ⟨-, n, scope, hn, -⟩
      cases hn
    rintro ⟨-, n, scope, hn, hmisread⟩
    cases hn
    -- the name is shorter than every word
    have hlength : 1 < scope.word.toList.length := by cases scope <;> decide
    rcases hmisread with ⟨shorter, hword⟩ | ⟨hword, -⟩
    · have := congrArg List.length hword
      simp [VariableName.chars, VariableName.ofChar] at this
      omega
    · rw [← hword] at hlength
      exact absurd hlength (by decide)
  exact ⟨by decide, hread, parseAll_writeAll hread⟩

theorem isNameChar_lobal : ∀ c ∈ "lobal".toList, isNameChar c :=
  List.all_eq_true.1 (by decide)

/-- The clause of a variable named like a scope, whose expression begins like a binding. -/
def globalClause : Clause where
  lead := ⟨[], List.forall_mem_nil _⟩
  word := none
  binder := .single ⟨'g', "lobal".toList, by decide, isNameChar_lobal⟩
  expression := "x y".toList
  isBlank_head := fun _ hc => Option.some.inj hc ▸ rfl

/-- The clause is printed like one that binds a variable everywhere, and read as that one. -/
theorem parseAll_globalClause :
    Clause.writeAll [globalClause] = "global x y".toList ∧
      parseAll (Clause.writeAll [globalClause]) = .ok [⟨.everywhere, ["x"], "y"⟩] ∧
      parseAll (Clause.writeAll [globalClause]) ≠ .ok [globalClause.define] := by
  have hread : parseAll (Clause.writeAll [globalClause]) = .ok [⟨.everywhere, ["x"], "y"⟩] := rfl
  refine ⟨by decide, hread, fun h => ?_⟩
  rw [hread] at h
  exact absurd h (by decide)

end PotExtract.Tales
