import PotExtract.Python.Lexeme

/-! How far the reading of an element looks ahead. A text that starts with a character that goes on
with no element can be put behind an element without changing how that is read, and what is left
behind an element is an end of the text. -/

namespace PotExtract.Python

open Text

namespace Lexeme

/-- Whether a character goes on with no name, number or operator, and is no quote. -/
def standsApart (c : Char) : Bool :=
  !(isNameChar c || c ∈ ['.', '"', '\'', '+', '-', '*', '/', '=', '<', '>'])

/-- Whether what follows an element leaves it as it is. -/
def IsApart (tail : List Char) : Prop :=
  ∀ c ∈ tail.head?, standsApart c

/-- The lexemes that do not take all they could take of any text: those that are read up to a line
end, and those that are only read for want of a better one. -/
def isOpen : Lexeme → Bool
  | .comment _ | .stray _ => true
  | _ => false

variable {tail : List Char}

theorem isNameChar_of_standsApart {c : Char} (h : standsApart c) : isNameChar c = false := by
  simp only [standsApart, Bool.not_or, Bool.and_eq_true, Bool.not_eq_true'] at h
  exact h.1

theorem isAlphanum_of_standsApart {c : Char} (h : standsApart c) : c.isAlphanum = false := by
  have := isNameChar_of_standsApart h
  simp only [isNameChar, isLetterOrNumber, isLetter, Bool.or_eq_false_iff] at this
  simp [Char.isAlphanum, this]

theorem ne_of_standsApart {c d : Char} (h : standsApart c)
    (hd : isNameChar d ∨ d ∈ ['.', '"', '\'', '+', '-', '*', '/', '=', '<', '>']) : c ≠ d := by
  rintro rfl
  simp only [standsApart, Bool.not_or, Bool.and_eq_true, Bool.not_eq_true', decide_eq_false_iff_not]
    at h
  rcases hd with hd | hd
  · simp [h.1] at hd
  · exact h.2 hd

/-! ### Numbers and names -/

theorem takeNumber_append (ht : IsApart tail) (hex : Bool) (previous : Char) (s : List Char) :
    takeNumber hex previous (s ++ tail) =
      ((takeNumber hex previous s).1, (takeNumber hex previous s).2 ++ tail) := by
  induction s generalizing previous with
  | nil =>
    cases tail with
    | nil => rfl
    | cons d tail =>
      have hd : standsApart d := ht d rfl
      have hne : d ≠ '_' ∧ d ≠ '.' ∧ d ≠ '+' ∧ d ≠ '-' :=
        ⟨ne_of_standsApart hd (by decide), ne_of_standsApart hd (by decide),
          ne_of_standsApart hd (by decide), ne_of_standsApart hd (by decide)⟩
      simp [takeNumber, isAlphanum_of_standsApart hd, hne]
  | cons c s ih =>
    simp only [List.cons_append, takeNumber]
    split
    · rw [ih c]
    · rfl

theorem takeWhile_append_of_head {p : Char → Bool} (h : ∀ c ∈ tail.head?, p c = false)
    (s : List Char) : (s ++ tail).takeWhile p = s.takeWhile p := by
  have : tail.takeWhile p = [] := by
    cases tail with
    | nil => rfl
    | cons d tail => simp [h d rfl]
  rw [List.takeWhile_append]
  split
  · next hs => rw [this, List.append_nil, (List.takeWhile_prefix p).eq_of_length hs]
  · rfl

theorem dropWhile_append_of_head {p : Char → Bool} (h : ∀ c ∈ tail.head?, p c = false)
    (s : List Char) : (s ++ tail).dropWhile p = s.dropWhile p ++ tail := by
  have : tail.dropWhile p = tail := by
    cases tail with
    | nil => rfl
    | cons d tail => simp [h d rfl]
  rw [List.dropWhile_append]
  split
  · next hs => rw [this, List.isEmpty_iff.1 hs, List.nil_append]
  · rfl

/-! ### Strings -/

theorem closeLine_cons {c : Char} (quote : Char) (hc : c ≠ '\\') (s : List Char) :
    closeLine quote (c :: s) =
      if isLineEnd c then none
      else if c = quote then some ([c], s)
      else (closeLine quote s).map fun (text, rest) => (c :: text, rest) := by
  simp [closeLine, hc]

theorem closeTriple_cons {c : Char} (quote : Char) (hc : c ≠ '\\') (s : List Char) :
    closeTriple quote (c :: s) =
      if c = quote ∧ s.take 2 = [quote, quote] then some ([c, c, c], s.drop 2)
      else (closeTriple quote s).map fun (text, rest) => (c :: text, rest) := by
  simp [closeTriple, hc]

/-- A character that stands neither in front of another one nor at the end, if it is a backslash, is
none. -/
theorem ne_backslash {c : Char} {s : List Char}
    (hcons : ∀ (d : Char) (t : List Char), c = '\\' → s = d :: t → False)
    (hnil : c = '\\' → s = [] → False) : c ≠ '\\' := by
  intro hc
  cases s with
  | nil => exact hnil hc rfl
  | cons d t => exact hcons d t hc rfl

/-- The pair of a carriage return and a line feed is not made by what follows a closed string. -/
theorem not_pair_append {close : List Char → Option (List Char × List Char)} {c : Char}
    {s : List Char} {found : List Char × List Char} (hnil : close [] = none)
    (hs : close s = some found) (h : ∀ t, c = '\r' → s = '\n' :: t → False) :
    ∀ t, c = '\r' → s ++ tail = '\n' :: t → False := by
  intro t hc ht
  cases s with
  | nil => simp [hnil] at hs
  | cons d s => exact h s hc (by rw [(List.cons.inj ht).1])

theorem closeLine_append {quote : Char} {s text rest : List Char} (tail : List Char)
    (h : closeLine quote s = some (text, rest)) :
    closeLine quote (s ++ tail) = some (text, rest ++ tail) := by
  fun_induction closeLine quote s generalizing text rest with
  | case1 => simp at h
  | case2 s ih =>
    obtain ⟨⟨x, y⟩, hx, he⟩ := Option.map_eq_some_iff.1 h
    cases he
    simp [closeLine, ih hx]
  | case3 c s hne ih =>
    obtain ⟨⟨x, y⟩, hx, he⟩ := Option.map_eq_some_iff.1 h
    cases he
    rw [List.cons_append, List.cons_append, closeLine.eq_3 _ _ _ (not_pair_append rfl hx hne), ih hx]
    rfl
  | case4 => simp at h
  | case5 c s => simp at h
  | case6 s _ hcons hnil hend =>
    cases h
    rw [List.cons_append, closeLine_cons _ (ne_backslash hcons hnil), if_neg hend, if_pos rfl]
  | case7 c s _ hcons hnil hend hq ih =>
    obtain ⟨⟨x, y⟩, hx, he⟩ := Option.map_eq_some_iff.1 h
    cases he
    rw [List.cons_append, closeLine_cons _ (ne_backslash hcons hnil), if_neg hend, if_neg hq, ih hx]
    rfl

/-- The closing quotes of a string are three characters at least. -/
theorem two_lt_length_of_closeTriple {quote : Char} {s text rest : List Char}
    (h : closeTriple quote s = some (text, rest)) : 2 < s.length := by
  fun_induction closeTriple quote s generalizing text rest with
  | case1 => simp at h
  | case2 s ih | case3 c s _ ih =>
    obtain ⟨⟨x, y⟩, hx, -⟩ := Option.map_eq_some_iff.1 h
    have := ih hx
    simp only [List.length_cons]
    omega
  | case4 => simp at h
  | case5 c s _ _ _ hq =>
    have := congrArg List.length hq.2
    simp only [List.length_take, List.length_cons, List.length_nil] at this ⊢
    omega
  | case6 c s _ _ _ _ ih =>
    obtain ⟨⟨x, y⟩, hx, -⟩ := Option.map_eq_some_iff.1 h
    have := ih hx
    simp only [List.length_cons]
    omega

theorem closeTriple_append {quote : Char} {s text rest : List Char} (tail : List Char)
    (h : closeTriple quote s = some (text, rest)) :
    closeTriple quote (s ++ tail) = some (text, rest ++ tail) := by
  fun_induction closeTriple quote s generalizing text rest with
  | case1 => simp at h
  | case2 s ih =>
    obtain ⟨⟨x, y⟩, hx, he⟩ := Option.map_eq_some_iff.1 h
    cases he
    simp [closeTriple, ih hx]
  | case3 c s hne ih =>
    obtain ⟨⟨x, y⟩, hx, he⟩ := Option.map_eq_some_iff.1 h
    cases he
    rw [List.cons_append, List.cons_append, closeTriple.eq_3 _ _ _ (not_pair_append rfl hx hne),
      ih hx]
    rfl
  | case4 => simp at h
  | case5 c s _ hcons hnil hq =>
    cases h
    have hle : 2 ≤ s.length := by
      have := congrArg List.length hq.2
      simp only [List.length_take, List.length_cons, List.length_nil] at this
      omega
    rw [List.cons_append, closeTriple_cons _ (ne_backslash hcons hnil),
      List.take_append_of_le_length hle, List.drop_append_of_le_length hle, if_pos hq]
  | case6 c s _ hcons hnil hq ih =>
    obtain ⟨⟨x, y⟩, hx, he⟩ := Option.map_eq_some_iff.1 h
    cases he
    have hle : 2 ≤ s.length := Nat.le_of_lt (two_lt_length_of_closeTriple hx)
    rw [List.cons_append, closeTriple_cons _ (ne_backslash hcons hnil),
      List.take_append_of_le_length hle, if_neg hq, ih hx]
    rfl

theorem readString_append {lead : List Char} {quote : Char} {s rest : List Char} {l : Lexeme}
    (hq : ∀ c ∈ tail.head?, c ≠ quote) (h : readString lead quote s = some (l, rest))
    (hl : l.isOpen = false) : readString lead quote (s ++ tail) = some (l, rest ++ tail) := by
  unfold readString at h ⊢
  by_cases htake : s.take 2 = [quote, quote]
  · have hle : 2 ≤ s.length := by
      have := congrArg List.length htake
      simp only [List.length_take, List.length_cons, List.length_nil] at this
      omega
    rw [if_pos htake] at h
    rw [List.take_append_of_le_length hle, List.drop_append_of_le_length hle, if_pos htake]
    obtain ⟨⟨x, y⟩, hx, he⟩ := Option.map_eq_some_iff.1 h
    cases he
    rw [closeTriple_append tail hx]
    rfl
  · rw [if_neg htake] at h
    cases hx : closeLine quote s with
    | none =>
      rw [hx] at h
      cases h
      simp [isOpen] at hl
    | some found =>
      obtain ⟨text, rest'⟩ := found
      rw [hx] at h
      cases h
      have hne : (s ++ tail).take 2 ≠ [quote, quote] := by
        rcases s with _ | ⟨c, _ | ⟨d, s⟩⟩
        · simp [closeLine] at hx
        · cases tail with
          | nil => simp
          | cons d tail => simp [hq d rfl]
        · simpa using htake
      rw [if_neg hne, closeLine_append tail hx]

theorem readName_append {s rest : List Char} {l : Lexeme} (ht : IsApart tail)
    (h : readName s = some (l, rest)) (hl : l.isOpen = false) :
    readName (s ++ tail) = some (l, rest ++ tail) := by
  have hname : ∀ c ∈ tail.head?, isNameChar c = false := fun c hc =>
    isNameChar_of_standsApart (ht c hc)
  simp only [readName, takeWhile_append_of_head hname, dropWhile_append_of_head hname] at h ⊢
  cases hd : s.dropWhile isNameChar with
  | cons c s' =>
    rw [hd] at h
    simp only [List.cons_append] at h ⊢
    split at h
    · next hq =>
      rw [if_pos hq]
      refine readString_append (fun d hmem => ?_) h hl
      rcases hq.1 with rfl | rfl <;> exact ne_of_standsApart (ht d hmem) (by decide)
    · next hq =>
      cases h
      rw [if_neg hq, List.cons_append]
  | nil =>
    rw [hd] at h
    cases h
    cases tail with
    | nil => rfl
    | cons d tail =>
      have hd : d ≠ '"' ∧ d ≠ '\'' :=
        ⟨ne_of_standsApart (ht d rfl) (by decide), ne_of_standsApart (ht d rfl) (by decide)⟩
      simp [hd]

/-! ### Operators and line ends -/

/-- An operator of `n` characters is not made by a character that stands apart. -/
theorem take_append_mem_iff {n : Nat} {operators : List (List Char)} (ht : IsApart tail)
    (hop : ∀ op ∈ operators, op.length = n ∧ ∀ d ∈ op.tail, standsApart d = false)
    (c : Char) (s : List Char) :
    ((c :: (s ++ tail)).take n ∈ operators ↔ (c :: s).take n ∈ operators) ∧
      ((c :: s).take n ∈ operators → n ≤ s.length + 1) := by
  have hle : (c :: s).take n ∈ operators → n ≤ s.length + 1 := by
    intro h
    have := (hop _ h).1
    simp only [List.length_take, List.length_cons] at this
    omega
  refine ⟨?_, hle⟩
  by_cases hn : n ≤ (c :: s).length
  · rw [← List.cons_append, List.take_append_of_le_length hn]
  · refine iff_of_false (fun h => ?_) fun h => hn (hle h)
    obtain ⟨hlen, hapart⟩ := hop _ h
    cases tail with
    | nil =>
      simp only [List.append_nil, List.length_take] at hlen
      omega
    | cons d tail =>
      have hd : d ∈ ((c :: (s ++ d :: tail)).take n).tail := by
        obtain ⟨m, rfl⟩ : ∃ m, n = s.length + m + 2 := ⟨n - s.length - 2, by
          simp only [List.length_cons] at hn
          omega⟩
        simp [List.take_append, show s.length + m + 1 - s.length = m + 1 by omega]
      have := hapart d hd
      rw [ht d rfl] at this
      cases this

theorem longOperators_apart :
    ∀ op ∈ longOperators, op.length = 3 ∧ ∀ d ∈ op.tail, standsApart d = false := by
  have h : longOperators.all fun op => op.length = 3 && op.tail.all (!standsApart ·) := by decide
  simpa only [List.all_eq_true, Bool.and_eq_true, decide_eq_true_eq, Bool.not_eq_true'] using h

theorem pairOperators_apart :
    ∀ op ∈ pairOperators, op.length = 2 ∧ ∀ d ∈ op.tail, standsApart d = false := by
  have h : pairOperators.all fun op => op.length = 2 && op.tail.all (!standsApart ·) := by decide
  simpa only [List.all_eq_true, Bool.and_eq_true, decide_eq_true_eq, Bool.not_eq_true'] using h

theorem readOperator_append {c : Char} {s : List Char} (ht : IsApart tail) :
    readOperator c (s ++ tail) = ((readOperator c s).1, (readOperator c s).2 ++ tail) := by
  obtain ⟨hlong, hlongLe⟩ := take_append_mem_iff ht longOperators_apart c s
  obtain ⟨hpair, hpairLe⟩ := take_append_mem_iff ht pairOperators_apart c s
  unfold readOperator
  by_cases h3 : (c :: s).take 3 ∈ longOperators
  · have hle : 2 ≤ s.length := by
      have := hlongLe h3
      omega
    rw [if_pos h3, if_pos (hlong.2 h3), List.drop_append_of_le_length hle, ← List.cons_append,
      List.take_append_of_le_length (by simpa using hle)]
  rw [if_neg h3, if_neg fun h => h3 (hlong.1 h)]
  by_cases h2 : (c :: s).take 2 ∈ pairOperators
  · have hle : 1 ≤ s.length := by
      have := hpairLe h2
      omega
    rw [if_pos h2, if_pos (hpair.2 h2), List.drop_append_of_le_length hle, ← List.cons_append,
      List.take_append_of_le_length (by simpa using hle)]
  rw [if_neg h2, if_neg fun h => h2 (hpair.1 h)]
  split <;> rfl

theorem afterLineEnd_append {s : List Char} (hs : s ≠ [])
    (hr : s.getLast? = some '\r' → tail.head? ≠ some '\n') :
    afterLineEnd (s ++ tail) = afterLineEnd s ++ tail := by
  rcases s with _ | ⟨c, _ | ⟨d, s⟩⟩
  · exact absurd rfl hs
  · have hpair : ∀ t, c = '\r' → tail = '\n' :: t → False := by
      rintro t rfl rfl
      exact hr rfl rfl
    rw [List.singleton_append, afterLineEnd.eq_2 c tail hpair, afterLineEnd.eq_2 c [] (by simp)]
    rfl
  · by_cases hcd : c = '\r' ∧ d = '\n'
    · obtain ⟨rfl, rfl⟩ := hcd
      rfl
    · have : ∀ t : List Char, afterLineEnd (c :: d :: t) = d :: t := by
        intro t
        rw [afterLineEnd.eq_def]
        split <;> simp_all
      simp [this]

/-! ### Any element -/

/-- The reading of an element looks at most at the first character behind it, so a character that
stands apart does not change it. A carriage return at the end is made one with a line feed that
follows. -/
theorem read_append {c : Char} {s rest : List Char} {l : Lexeme} (ht : IsApart tail)
    (hr : (c :: s).getLast? = some '\r' → tail.head? ≠ some '\n')
    (h : read c s = some (l, rest)) (hl : l.isOpen = false) :
    read c (s ++ tail) = some (l, rest ++ tail) := by
  have hany : ∀ p : Char → Bool, (∀ d, standsApart d → p d = false) →
      (s ++ tail).head?.any p = s.head?.any p := by
    intro p hp
    cases s with
    | cons d s => rfl
    | nil =>
      cases tail with
      | nil => rfl
      | cons d tail => simpa using hp d (ht d rfl)
  have hdigit : (s ++ tail).head?.any Char.isDigit = s.head?.any Char.isDigit :=
    hany _ fun d hd => by
      have := isAlphanum_of_standsApart hd
      simp only [Char.isAlphanum, Bool.or_eq_false_iff] at this
      exact this.2
  have hhex : ((s ++ tail).head?.any fun d => d == 'x' || d == 'X') =
      s.head?.any fun d => d == 'x' || d == 'X' :=
    hany _ fun d hd => by
      simp [ne_of_standsApart hd (d := 'x') (by decide), ne_of_standsApart hd (d := 'X') (by decide)]
  have hjoint : ¬(c = '\\' ∧ s.head?.any isLineEnd) →
      ¬(c = '\\' ∧ (s ++ tail).head?.any isLineEnd) := by
    rintro hno ⟨rfl, hend⟩
    cases s with
    | cons d s => exact hno ⟨rfl, hend⟩
    | nil =>
      -- a backslash at the end of a text is stray
      have : read '\\' [] = some (.stray ['\\'], []) := by decide
      rw [this] at h
      cases h
      simp [isOpen] at hl
  unfold read at h ⊢
  split at h
  · cases h
    simp [isOpen] at hl
  next hcomment =>
  rw [if_neg hcomment]
  split at h
  · next hj =>
    cases h
    cases s with
    | nil => simp at hj
    | cons d s =>
      rw [List.getLast?_cons_cons] at hr
      have hj' : c = '\\' ∧ (d :: s ++ tail).head?.any isLineEnd := hj
      rw [if_pos hj', afterLineEnd_append (List.cons_ne_nil d s) hr]
  next hj =>
  rw [if_neg (hjoint hj)]
  split at h
  · next hend =>
    cases h
    rw [if_pos hend, ← List.cons_append, afterLineEnd_append (List.cons_ne_nil _ _) hr]
  next hend =>
  rw [if_neg hend, hdigit]
  split at h
  · next hnum =>
    cases h
    rw [if_pos hnum, hhex]
    simp only [takeNumber_append ht]
  next hnum =>
  rw [if_neg hnum]
  split at h
  · next hname =>
    rw [if_pos hname, ← List.cons_append, readName_append ht h hl]
  next hname =>
  rw [if_neg hname]
  split at h
  · next hq =>
    rw [if_pos hq]
    refine readString_append (fun d hmem => ?_) h hl
    rcases hq with rfl | rfl <;> exact ne_of_standsApart (ht d hmem) (by decide)
  next hq =>
  rw [if_neg hq, readOperator_append ht, Option.some.inj h]

/-- A bracket is an operator by itself. -/
theorem read_bracket {c : Char} (hc : c ∈ ['(', ')', '[', ']', '\x7b', '\x7d']) (s : List Char) :
    read c s = some (.operator [c], s) := by
  have hfirst : ∀ b ∈ ['(', ')', '[', ']', '\x7b', '\x7d'],
      (∀ op ∈ longOperators, op.head? ≠ some b) ∧ (∀ op ∈ pairOperators, op.head? ≠ some b) ∧
        b ∈ singleOperators := by
    simp only [List.forall_mem_cons, List.not_mem_nil, false_implies, implies_true, and_true]
    decide
  have hother : ∀ b ∈ ['(', ')', '[', ']', '\x7b', '\x7d'],
      b ≠ '#' ∧ b ≠ '\\' ∧ isLineEnd b = false ∧ b.isDigit = false ∧ b ≠ '.' ∧
        isNameStart b = false ∧ b ≠ '"' ∧ b ≠ '\'' := by
    simp only [List.forall_mem_cons, List.not_mem_nil, false_implies, implies_true, and_true]
    decide
  obtain ⟨hlong, hpair, hsingle⟩ := hfirst c hc
  have hop : readOperator c s = (.operator [c], s) := by
    rw [readOperator, if_neg fun h => hlong _ h rfl, if_neg fun h => hpair _ h rfl, if_pos hsingle]
  simp [read, hother c hc, hop]

theorem read_lineEnd {c : Char} (hc : isLineEnd c) (s : List Char) :
    read c s = some (.lineEnd, afterLineEnd (c :: s)) := by
  have hne : c ≠ '#' ∧ c ≠ '\\' := by
    simp only [isLineEnd, Bool.or_eq_true, beq_iff_eq] at hc
    rcases hc with rfl | rfl <;> decide
  simp [read, hne, hc]

theorem eq_stray_of_readString {lead : List Char} {quote : Char} {s rest : List Char} {l : Lexeme}
    (h : readString lead quote s = some (l, rest)) (hl : l.isOpen) : ∃ text, l = .stray text := by
  unfold readString at h
  split at h
  · obtain ⟨⟨text, tail⟩, -, he⟩ := Option.map_eq_some_iff.1 h
    cases he
    cases hl
  · split at h
    · cases h
      cases hl
    · cases h
      exact ⟨_, rfl⟩

/-- An open element is a stray, comments aside. -/
theorem eq_stray_of_read {c : Char} {s rest : List Char} {l : Lexeme}
    (h : read c s = some (l, rest)) (hc : c ≠ '#') (hl : l.isOpen) : ∃ text, l = .stray text := by
  cases l with
  | stray text => exact ⟨text, rfl⟩
  | comment text =>
    unfold read at h
    rw [if_neg hc] at h
    split at h
    · cases h
    split at h
    · cases h
    split at h
    · cases h
    split at h
    · unfold readName at h
      dsimp only at h
      split at h
      · split at h
        · exact eq_stray_of_readString h hl
        · cases h
      · cases h
    split at h
    · exact eq_stray_of_readString h hl
    · have := congrArg Prod.fst (Option.some.inj h)
      unfold readOperator at this
      split at this
      · cases this
      split at this
      · cases this
      split at this <;> cases this
  | _ => cases hl

/-! ### What is left is an end of the text -/

theorem takeNumber_suffix (hex : Bool) (previous : Char) (s : List Char) :
    (takeNumber hex previous s).2 <:+ s := by
  induction s generalizing previous with
  | nil => simp [takeNumber]
  | cons c s ih =>
    simp only [takeNumber]
    split
    · exact (ih c).trans (List.suffix_cons c s)
    · exact List.suffix_rfl

theorem afterLineEnd_suffix (c : Char) (s : List Char) : afterLineEnd (c :: s) <:+ s := by
  unfold afterLineEnd
  split
  · next h =>
    obtain ⟨-, rfl⟩ := List.cons.inj h
    exact List.suffix_cons _ _
  · next h =>
    obtain ⟨-, rfl⟩ := List.cons.inj h
    exact List.suffix_rfl
  · exact List.nil_suffix

theorem closeLine_suffix {quote : Char} {s text rest : List Char}
    (h : closeLine quote s = some (text, rest)) : rest <:+ s := by
  fun_induction closeLine quote s generalizing text rest with
  | case1 | case4 | case5 => simp at h
  | case2 s ih =>
    obtain ⟨⟨x, y⟩, hx, he⟩ := Option.map_eq_some_iff.1 h
    cases he
    exact (ih hx).trans ⟨['\\', '\r', '\n'], rfl⟩
  | case3 c s _ ih =>
    obtain ⟨⟨x, y⟩, hx, he⟩ := Option.map_eq_some_iff.1 h
    cases he
    exact (ih hx).trans ⟨['\\', c], rfl⟩
  | case6 s =>
    cases h
    exact List.suffix_cons _ _
  | case7 c s _ _ _ _ _ ih =>
    obtain ⟨⟨x, y⟩, hx, he⟩ := Option.map_eq_some_iff.1 h
    cases he
    exact (ih hx).trans (List.suffix_cons c s)

theorem closeTriple_suffix {quote : Char} {s text rest : List Char}
    (h : closeTriple quote s = some (text, rest)) : rest <:+ s := by
  fun_induction closeTriple quote s generalizing text rest with
  | case1 | case4 => simp at h
  | case2 s ih =>
    obtain ⟨⟨x, y⟩, hx, he⟩ := Option.map_eq_some_iff.1 h
    cases he
    exact (ih hx).trans ⟨['\\', '\r', '\n'], rfl⟩
  | case3 c s _ ih =>
    obtain ⟨⟨x, y⟩, hx, he⟩ := Option.map_eq_some_iff.1 h
    cases he
    exact (ih hx).trans ⟨['\\', c], rfl⟩
  | case5 c s =>
    cases h
    exact (List.drop_suffix _ _).trans (List.suffix_cons _ _)
  | case6 c s _ _ _ _ ih =>
    obtain ⟨⟨x, y⟩, hx, he⟩ := Option.map_eq_some_iff.1 h
    cases he
    exact (ih hx).trans (List.suffix_cons c s)

theorem readString_suffix {lead : List Char} {quote : Char} {s rest : List Char} {l : Lexeme}
    (h : readString lead quote s = some (l, rest)) : rest <:+ s := by
  unfold readString at h
  split at h
  · obtain ⟨⟨text, tail⟩, ht, he⟩ := Option.map_eq_some_iff.1 h
    cases he
    exact (closeTriple_suffix ht).trans (List.drop_suffix _ _)
  · split at h
    · next ht =>
      cases h
      exact closeLine_suffix ht
    · cases h
      exact List.suffix_rfl

theorem readName_suffix {c : Char} {s rest : List Char} {l : Lexeme} (hc : isNameChar c)
    (h : readName (c :: s) = some (l, rest)) : rest <:+ s := by
  simp only [readName, List.dropWhile_cons, hc, if_true] at h
  have hs := List.dropWhile_suffix isNameChar (l := s)
  split at h
  · next heq =>
    rw [heq] at h hs
    split at h
    · exact (readString_suffix h).trans ((List.suffix_cons _ _).trans hs)
    · cases h
      exact hs
  · cases h
    exact List.nil_suffix

theorem readOperator_suffix (c : Char) (s : List Char) : (readOperator c s).2 <:+ s := by
  unfold readOperator
  split
  · exact List.drop_suffix _ _
  split
  · exact List.drop_suffix _ _
  split <;> exact List.suffix_rfl

theorem read_suffix {c : Char} {s rest : List Char} {l : Lexeme}
    (h : read c s = some (l, rest)) : rest <:+ s := by
  unfold read at h
  split at h
  · cases h
    exact List.dropWhile_suffix _
  split at h
  · next hj =>
    cases h
    obtain ⟨d, t, rfl⟩ : ∃ d t, s = d :: t := by
      cases s with
      | nil => simp at hj
      | cons d t => exact ⟨d, t, rfl⟩
    exact (afterLineEnd_suffix d t).trans (List.suffix_cons d t)
  split at h
  · cases h
    exact afterLineEnd_suffix c s
  split at h
  · cases h
    exact takeNumber_suffix _ _ _
  split at h
  · next hc => exact readName_suffix (isNameChar_of_isNameStart hc) h
  split at h
  · exact readString_suffix h
  · have := readOperator_suffix c s
    rwa [Option.some.inj h] at this

end Lexeme

end PotExtract.Python
