import PotExtract.Proofs.Python.LexemeTexts

/-! Texts that agree up to a comment of the one, where the other has a line end or is over. The
elements in front of the comment are read alike in both. -/

namespace PotExtract.Python.Lexeme

variable {c quote : Char} {s t rest rest' : List Char} {p : Char → Bool}

/-- Whether a text may stand for another one behind a character. A backslash takes the next
character with it, and a carriage return takes a line feed. -/
structure Precedes (c : Char) (s t : List Char) : Prop where
  slash : c = '\\' → s.head? = t.head?
  feed : c = '\r' → t.head? = some '\n' → s.head? = some '\n'

/-- The second text is the first one up to a comment, and has a line end there or nothing. -/
inductive Pared : List Char → List Char → Prop
  | refl (s : List Char) : Pared s s
  | comment {s t : List Char} (ends : ∀ d ∈ t.head?, isLineEnd d) : Pared ('#' :: s) t
  | cons {c : Char} {s t : List Char} (joins : Precedes c s t) (rest : Pared s t) :
    Pared (c :: s) (c :: t)

theorem Precedes.of_head? (h : s.head? = t.head?) : Precedes c s t :=
  ⟨fun _ => h, fun _ hfeed => h.trans hfeed⟩

namespace Pared

theorem of_head? (h : Pared (c :: s) t) (hhead : t.head? = some c) :
    ∃ u, t = c :: u ∧ Precedes c s u ∧ Pared s u := by
  cases h with
  | refl => exact ⟨s, rfl, .of_head? rfl, .refl s⟩
  | comment ends =>
    have hend := ends '#' hhead
    cases hend
  | cons joins rest => exact ⟨_, rfl, joins, rest⟩

theorem exists_of_ne (h : Pared (c :: s) t) (hc : c ≠ '#') :
    ∃ u, t = c :: u ∧ Precedes c s u ∧ Pared s u := by
  cases h with
  | refl => exact ⟨s, rfl, .of_head? rfl, .refl s⟩
  | comment => exact absurd rfl hc
  | cons joins rest => exact ⟨_, rfl, joins, rest⟩

theorem eq_nil (h : Pared [] t) : t = [] := by
  cases h
  rfl

theorem append (h : Pared s t) (written : List Char)
    (hlast : ∀ d ∈ written.getLast?, Precedes d s t) : Pared (written ++ s) (written ++ t) := by
  induction written with
  | nil => exact h
  | cons c written ih =>
    cases written with
    | nil => exact .cons (hlast c rfl) h
    | cons d written =>
      refine .cons (.of_head? rfl) (ih fun e he => hlast e ?_)
      rwa [List.getLast?_cons_cons]

/-! ### Classes of characters without the hash and the line ends -/

/-- Whether a class of characters ends at comments and at line ends. -/
def Ends (p : Char → Bool) : Prop :=
  p '#' = false ∧ ∀ d, isLineEnd d → p d = false

theorem ends_of (hhash : p '#' = false) (hfeed : p '\n' = false) (hreturn : p '\r' = false) :
    Ends p := by
  refine ⟨hhash, fun d hd => ?_⟩
  simp only [isLineEnd, Bool.or_eq_true, beq_iff_eq] at hd
  rcases hd with rfl | rfl
  · exact hfeed
  · exact hreturn

theorem any_head? (h : Pared s t) (hp : Ends p) : t.head?.any p = s.head?.any p := by
  cases h with
  | refl => rfl
  | cons => rfl
  | comment ends =>
    cases t with
    | nil => simp [hp.1]
    | cons d t => simp [hp.1, hp.2 d (ends d rfl)]

theorem takeWhile_eq (h : Pared s t) (hp : Ends p) : t.takeWhile p = s.takeWhile p := by
  induction h with
  | refl => rfl
  | @comment s t ends =>
    cases t with
    | nil => simp [hp.1]
    | cons d t => simp [hp.1, hp.2 d (ends d rfl)]
  | cons _ _ ih => rw [List.takeWhile_cons, List.takeWhile_cons, ih]

theorem dropWhile (h : Pared s t) (hp : Ends p) : Pared (s.dropWhile p) (t.dropWhile p) := by
  induction h with
  | refl s => exact .refl _
  | @comment s t ends =>
    have ht : t.dropWhile p = t := by
      cases t with
      | nil => rfl
      | cons d t => simp [hp.2 d (ends d rfl)]
    rw [ht, List.dropWhile_cons_of_neg (by simp [hp.1])]
    exact .comment ends
  | @cons c s t joins rest ih =>
    rw [List.dropWhile_cons, List.dropWhile_cons]
    split
    · exact ih
    · exact .cons joins rest

/-- A word in front of both texts or of none. -/
theorem take_eq_iff (h : Pared s t) {word : List Char} {n : Nat} (hlength : word.length = n)
    (hhash : '#' ∉ word) (hend : ∀ d ∈ word, isLineEnd d = false) :
    t.take n = word ↔ s.take n = word := by
  induction h generalizing word n with
  | refl => rfl
  | @comment s t ends =>
    cases word with
    | nil => simp [← hlength]
    | cons d word =>
      subst hlength
      refine iff_of_false ?_ ?_
      · intro heq
        cases t with
        | nil => simp at heq
        | cons e t =>
          obtain ⟨rfl, -⟩ := List.cons.inj heq
          have hline := ends e rfl
          rw [hend e List.mem_cons_self] at hline
          cases hline
      · intro heq
        obtain ⟨rfl, -⟩ := List.cons.inj heq
        exact hhash List.mem_cons_self
  | @cons c s t joins rest ih =>
    cases word with
    | nil => simp [← hlength]
    | cons d word =>
      subst hlength
      have hhash' : '#' ∉ word := fun hmem => hhash (List.mem_cons_of_mem d hmem)
      have hrest := ih rfl hhash' fun e he => hend e (List.mem_cons_of_mem d he)
      simp [hrest]

theorem takeNumber_eq (h : Pared s t) (hex : Bool) (previous : Char) :
    (takeNumber hex previous t).1 = (takeNumber hex previous s).1 := by
  induction h generalizing previous with
  | refl => rfl
  | @comment s t ends =>
    cases t with
    | nil => simp [takeNumber]
    | cons d t =>
      have hd := ends d rfl
      simp only [isLineEnd, Bool.or_eq_true, beq_iff_eq] at hd
      rcases hd with rfl | rfl <;> simp [takeNumber]
  | @cons c s t joins rest ih =>
    rw [takeNumber, takeNumber]
    split
    · rw [ih]
    · rfl

/-- A quote that is not closed on its line is not closed in front of a comment. -/
theorem closeLine_eq_none (h : Pared s t) (hclose : closeLine quote s = none) :
    closeLine quote t = none := by
  fun_induction closeLine quote s generalizing t with
  | case1 =>
    rw [h.eq_nil]
    rfl
  | case2 s ih =>
    obtain ⟨t, rfl, -, h⟩ := h.exists_of_ne (by decide)
    obtain ⟨t, rfl, -, h⟩ := h.exists_of_ne (by decide)
    obtain ⟨t, rfl, -, h⟩ := h.exists_of_ne (by decide)
    rw [closeLine, ih h (by simpa using hclose)]
    rfl
  | case3 c s hne ih =>
    obtain ⟨t, rfl, joins, h⟩ := h.exists_of_ne (by decide)
    obtain ⟨t, rfl, joins, h⟩ := h.of_head? (joins.slash rfl).symm
    have hpair : ∀ u, c = '\r' → t = '\n' :: u → False := by
      rintro u rfl rfl
      have hfeed := joins.feed rfl rfl
      cases s with
      | nil => cases hfeed
      | cons d s =>
        cases hfeed
        exact hne s rfl rfl
    rw [closeLine.eq_3 _ _ _ hpair, ih h (by simpa using hclose)]
    rfl
  | case4 =>
    obtain ⟨t, rfl, joins, -⟩ := h.exists_of_ne (by decide)
    have hnil : t = [] := by simpa using (joins.slash rfl).symm
    rw [hnil]
    rfl
  | case5 c s _ hcons hnil hend =>
    have hc : c ≠ '#' := by
      rintro rfl
      cases hend
    obtain ⟨t, rfl, -, -⟩ := h.exists_of_ne hc
    rw [closeLine_cons _ (ne_backslash hcons hnil), if_pos hend]
  | case6 => cases hclose
  | case7 c s _ hcons hnil hend hq ih =>
    have hslash := ne_backslash hcons hnil
    cases h with
    | refl => rw [closeLine_cons _ hslash, if_neg hend, if_neg hq, hclose]
    | cons joins rest =>
      rw [closeLine_cons _ hslash, if_neg hend, if_neg hq, ih rest (by simpa using hclose)]
      rfl
    | comment ends =>
      cases t with
      | nil => rfl
      | cons d t =>
        have hd := ends d rfl
        have hslash : d ≠ '\\' := by
          rintro rfl
          cases hd
        rw [closeLine_cons _ hslash, if_pos hd]

end Pared

/-! ### Strings by themselves -/

theorem closeLine_self {text : List Char} (h : closeLine quote s = some (text, rest)) :
    closeLine quote text = some (text, []) := by
  fun_induction closeLine quote s generalizing text rest with
  | case1 | case4 | case5 => cases h
  | case2 s ih =>
    obtain ⟨⟨x, y⟩, hx, he⟩ := Option.map_eq_some_iff.1 h
    cases he
    rw [closeLine, ih hx]
    rfl
  | case3 c s hne ih =>
    obtain ⟨⟨x, y⟩, hx, he⟩ := Option.map_eq_some_iff.1 h
    cases he
    have hpair : ∀ u, c = '\r' → x = '\n' :: u → False := by
      rintro u rfl rfl
      exact hne _ rfl (append_of_closeLine hx).symm
    rw [closeLine.eq_3 _ _ _ hpair, ih hx]
    rfl
  | case6 s _ hcons hnil hend =>
    cases h
    rw [closeLine_cons _ (ne_backslash hcons hnil), if_neg hend, if_pos rfl]
  | case7 c s _ hcons hnil hend hq ih =>
    obtain ⟨⟨x, y⟩, hx, he⟩ := Option.map_eq_some_iff.1 h
    cases he
    rw [closeLine_cons _ (ne_backslash hcons hnil), if_neg hend, if_neg hq, ih hx]
    rfl

theorem closeTriple_self {text : List Char} (h : closeTriple quote s = some (text, rest)) :
    closeTriple quote text = some (text, []) := by
  fun_induction closeTriple quote s generalizing text rest with
  | case1 | case4 => cases h
  | case2 s ih =>
    obtain ⟨⟨x, y⟩, hx, he⟩ := Option.map_eq_some_iff.1 h
    cases he
    rw [closeTriple, ih hx]
    rfl
  | case3 c s hne ih =>
    obtain ⟨⟨x, y⟩, hx, he⟩ := Option.map_eq_some_iff.1 h
    cases he
    have hpair : ∀ u, c = '\r' → x = '\n' :: u → False := by
      rintro u rfl rfl
      exact hne _ rfl (append_of_closeTriple hx).symm
    rw [closeTriple.eq_3 _ _ _ hpair, ih hx]
    rfl
  | case5 c s _ hcons hnil hq =>
    cases h
    rw [closeTriple_cons _ (ne_backslash hcons hnil), if_pos ⟨hq.1, by rw [hq.1]; rfl⟩]
    rfl
  | case6 c s _ hcons hnil hq ih =>
    obtain ⟨⟨x, y⟩, hx, he⟩ := Option.map_eq_some_iff.1 h
    cases he
    have hle : 2 ≤ x.length := Nat.le_of_lt (two_lt_length_of_closeTriple (ih hx))
    have htake : x.take 2 = s.take 2 := by
      rw [← append_of_closeTriple hx, List.take_append_of_le_length hle]
    rw [closeTriple_cons _ (ne_backslash hcons hnil), htake, if_neg hq, ih hx]
    rfl

/-! ### Elements in front of what is pared -/

theorem IsWritten.eq {l : Lexeme} {written written' : List Char} (h : l.IsWritten written)
    (h' : l.IsWritten written') (hjoint : l ≠ .joint) (hend : l ≠ .lineEnd) :
    written = written' := by
  cases l with
  | joint => exact absurd rfl hjoint
  | lineEnd => exact absurd rfl hend
  | _ => exact h.trans h'.symm

theorem eq_of_read {l : Lexeme} {u written more : List Char} (h : read c s = some (l, rest))
    (hs : c :: s = written ++ rest) (hread : read c u = some (l, more))
    (hu : c :: u = written ++ rest') (hjoint : l ≠ .joint) (hend : l ≠ .lineEnd) : more = rest' := by
  obtain ⟨w, hw, hl⟩ := isWritten_of_read h
  obtain ⟨w', hw', hl'⟩ := isWritten_of_read hread
  obtain rfl : written = w := List.append_cancel_right (hs.symm.trans hw)
  obtain rfl := hl.eq hl' hjoint hend
  exact List.append_cancel_left (hw'.symm.trans hu)

theorem afterLineEnd_pared {written : List Char} (hc : isLineEnd c)
    (hs : c :: s = written ++ rest) (hrest : afterLineEnd (c :: s) = rest)
    (hlast : ∀ d ∈ written.getLast?, Precedes d rest rest') :
    afterLineEnd (written ++ rest') = rest' := by
  obtain ⟨w, hw, hcases⟩ := exists_afterLineEnd hc s
  rw [hrest] at hw
  obtain rfl : written = w := List.append_cancel_right (hs.symm.trans hw)
  rcases hcases with rfl | rfl
  · have hpair : ∀ u, c = '\r' → rest' = '\n' :: u → False := by
      rintro u rfl rfl
      have hfeed := (hlast '\r' rfl).feed rfl rfl
      cases rest with
      | nil => cases hfeed
      | cons d rest =>
        cases hfeed
        obtain ⟨-, rfl⟩ := List.cons.inj hs
        have hlength := congrArg List.length hrest
        simp [afterLineEnd] at hlength
    exact afterLineEnd.eq_2 c rest' hpair
  · rfl

theorem readString_pared {lead written : List Char} {l : Lexeme}
    (hquote : quote = '"' ∨ quote = '\'') (h : readString lead quote s = some (l, rest))
    (hs : s = written ++ rest) (hrest : Pared rest rest')
    (hlast : ∀ d ∈ written.getLast?, Precedes d rest rest') :
    readString lead quote (written ++ rest') = some (l, rest') := by
  have hpared : Pared s (written ++ rest') := hs ▸ hrest.append written hlast
  have htwo : (written ++ rest').take 2 = [quote, quote] ↔ s.take 2 = [quote, quote] := by
    refine hpared.take_eq_iff rfl ?_ ?_
    · rcases hquote with rfl | rfl <;> simp
    · rcases hquote with rfl | rfl <;> simp [isLineEnd]
  unfold readString at h ⊢
  simp only [htwo]
  split at h
  · next hopen =>
    rw [if_pos hopen]
    obtain ⟨⟨text, tail⟩, ht, he⟩ := Option.map_eq_some_iff.1 h
    cases he
    have hwritten : written = [quote, quote] ++ text := by
      apply List.append_cancel_right
      rw [← hs, List.append_assoc, append_of_closeTriple ht, ← hopen, List.take_append_drop]
    have hdrop : (written ++ rest').drop 2 = text ++ rest' := by
      rw [hwritten]
      rfl
    rw [hdrop, closeTriple_append rest' (closeTriple_self ht)]
    rfl
  · next hopen =>
    rw [if_neg hopen]
    cases hclose : closeLine quote s with
    | none =>
      rw [hclose] at h
      cases h
      obtain rfl : written = [] := List.append_left_eq_self.1 hs.symm
      rw [List.nil_append, hrest.closeLine_eq_none hclose]
    | some found =>
      obtain ⟨text, tail⟩ := found
      rw [hclose] at h
      cases h
      obtain rfl : text = written :=
        List.append_cancel_right ((append_of_closeLine hclose).trans hs)
      rw [closeLine_append rest' (closeLine_self hclose)]
      rfl

theorem isNameChar_ends : Pared.Ends isNameChar := by
  apply Pared.ends_of <;> decide

theorem readName_pared {l : Lexeme} {written : List Char} (h : readName s = some (l, rest))
    (hs : s = written ++ rest) (hrest : Pared rest rest')
    (hlast : ∀ d ∈ written.getLast?, Precedes d rest rest') :
    ∃ more, readName (written ++ rest') = some (l, more) := by
  have hpared : Pared s (written ++ rest') := hs ▸ hrest.append written hlast
  have hword := hpared.takeWhile_eq isNameChar_ends
  have hdrop := hpared.dropWhile isNameChar_ends
  have happend := (written ++ rest').takeWhile_append_dropWhile (p := isNameChar)
  have happend' := s.takeWhile_append_dropWhile (p := isNameChar)
  unfold readName at h ⊢
  dsimp only at h ⊢
  rw [hword] at happend ⊢
  cases hd : s.dropWhile isNameChar with
  | nil =>
    rw [hd] at h hdrop
    cases h
    rw [hdrop.eq_nil]
    exact ⟨_, rfl⟩
  | cons d tail =>
    rw [hd] at h hdrop happend'
    dsimp only at h
    split at h
    · next hquote =>
      have hne : d ≠ '#' := by rcases hquote.1 with rfl | rfl <;> decide
      obtain ⟨tail', htail, -, -⟩ := hdrop.exists_of_ne hne
      rw [htail] at happend ⊢
      dsimp only
      rw [if_pos hquote]
      obtain ⟨w, hw⟩ := readString_suffix h
      have hwritten : written = s.takeWhile isNameChar ++ d :: w := by
        apply List.append_cancel_right
        rw [← hs, List.append_assoc, List.cons_append, hw, happend']
      have htail' : tail' = w ++ rest' := by
        rw [hwritten] at happend
        simpa using happend
      have hlast' : ∀ e ∈ w.getLast?, Precedes e rest rest' := by
        intro e he
        refine hlast e ?_
        rw [hwritten, List.getLast?_append, List.getLast?_cons, he]
        rfl
      rw [htail', readString_pared hquote.1 h hw.symm hrest hlast']
      exact ⟨_, rfl⟩
    · next hquote =>
      cases h
      split
      · next e tail' he =>
        rw [he] at hdrop
        split
        · next hquote' =>
          have hne : d = e ∨ isLineEnd e := by
            cases hdrop with
            | refl => exact .inl rfl
            | cons => exact .inl rfl
            | comment ends => exact .inr (ends e rfl)
          rcases hne with rfl | hend
          · exact absurd hquote' hquote
          · rcases hquote'.1 with rfl | rfl <;> cases hend
        · exact ⟨_, rfl⟩
      · exact ⟨_, rfl⟩

theorem Pared.take_mem_iff (h : Pared s t) {n : Nat} (words : List (List Char))
    (hwords : words.all fun w => w.length == n && !w.contains '#' && w.all (!isLineEnd ·)) :
    (t.take n ∈ words ↔ s.take n ∈ words) ∧ (s.take n ∈ words → t.take n = s.take n) := by
  have hword : ∀ word ∈ words, (t.take n = word ↔ s.take n = word) := by
    intro word hmem
    have hfree := List.all_eq_true.1 hwords word hmem
    simp only [Bool.and_eq_true, beq_iff_eq, Bool.not_eq_true', List.contains_eq_mem,
      decide_eq_false_iff_not, List.all_eq_true] at hfree
    exact h.take_eq_iff hfree.1.1 hfree.1.2 hfree.2
  refine ⟨⟨fun hmem => ?_, fun hmem => ?_⟩, fun hmem => (hword _ hmem).2 rfl⟩
  · rwa [(hword _ hmem).1 rfl]
  · rwa [(hword _ hmem).2 rfl]

theorem readOperator_pared (h : Pared (c :: s) (c :: t)) :
    (readOperator c t).1 = (readOperator c s).1 := by
  obtain ⟨hlong, hlong'⟩ := h.take_mem_iff (n := 3) longOperators (by decide)
  obtain ⟨hpair, hpair'⟩ := h.take_mem_iff (n := 2) pairOperators (by decide)
  unfold readOperator
  simp only [hlong, hpair]
  split
  · next hmem => exact congrArg Lexeme.operator (hlong' hmem)
  split
  · next hmem => exact congrArg Lexeme.operator (hpair' hmem)
  split <;> rfl

/-- An element is a joint, or a line end, or none of both. -/
theorem cases_of_read {l : Lexeme} (h : read c s = some (l, rest)) (hc : c ≠ '#') :
    (l = .joint ∧ ∃ d t, c = '\\' ∧ s = d :: t ∧ isLineEnd d ∧ afterLineEnd s = rest) ∨
      (l = .lineEnd ∧ isLineEnd c ∧ afterLineEnd (c :: s) = rest) ∨
      (l ≠ .joint ∧ l ≠ .lineEnd ∧ ¬(c = '\\' ∧ s.head?.any isLineEnd) ∧ ¬isLineEnd c) := by
  have hread := isReadAt_of_read h
  by_cases hjoint : c = '\\' ∧ s.head?.any isLineEnd
  · rw [read, if_neg hc, if_pos hjoint] at h
    cases h
    obtain ⟨hslash, d, t, hs, hd, hrest⟩ := hread
    exact .inl ⟨rfl, d, t, hslash, hs, hd, hrest.symm⟩
  by_cases hend : isLineEnd c
  · rw [read_lineEnd hend] at h
    cases h
    exact .inr (.inl ⟨rfl, hend, rfl⟩)
  refine .inr (.inr ⟨?_, ?_, hjoint, hend⟩)
  · rintro rfl
    obtain ⟨hslash, d, t, rfl, hd, -⟩ := hread
    exact hjoint ⟨hslash, hd⟩
  · rintro rfl
    exact hend hread.1

theorem exists_read_pared {l : Lexeme} {w : List Char} (h : read c s = some (l, rest))
    (hc : c ≠ '#') (hs : s = w ++ rest) (hrest : Pared rest rest')
    (hlast : ∀ d ∈ (c :: w).getLast?, Precedes d rest rest')
    (hjoint : ¬(c = '\\' ∧ s.head?.any isLineEnd)) (hend : ¬isLineEnd c) :
    ∃ more, read c (w ++ rest') = some (l, more) := by
  have hpared : Pared (c :: s) (c :: (w ++ rest')) := by
    rw [hs]
    exact hrest.append (c :: w) hlast
  obtain ⟨u, hu, joins, hpared'⟩ := hpared.exists_of_ne hc
  obtain rfl := (List.cons.inj hu).2
  have hjoint' : ¬(c = '\\' ∧ (w ++ rest').head?.any isLineEnd) := by
    rintro ⟨hslash, hline⟩
    rw [← joins.slash hslash] at hline
    exact hjoint ⟨hslash, hline⟩
  have hdigit : (w ++ rest').head?.any Char.isDigit = s.head?.any Char.isDigit :=
    hpared'.any_head? (Pared.ends_of rfl rfl rfl)
  have hhex : ((w ++ rest').head?.any fun d => d == 'x' || d == 'X') =
      s.head?.any fun d => d == 'x' || d == 'X' :=
    hpared'.any_head? (Pared.ends_of rfl rfl rfl)
  unfold read at h ⊢
  rw [if_neg hc, if_neg hjoint, if_neg hend] at h
  rw [if_neg hc, if_neg hjoint', if_neg hend, hdigit, hhex]
  split at h
  · next hnumber =>
    cases h
    rw [if_pos hnumber]
    dsimp only
    rw [hpared'.takeNumber_eq]
    exact ⟨_, rfl⟩
  next hnumber =>
  rw [if_neg hnumber]
  split at h
  · next hname =>
    rw [if_pos hname, ← List.cons_append]
    exact readName_pared h (by rw [hs]; rfl) hrest hlast
  next hname =>
  rw [if_neg hname]
  split at h
  · next hquote =>
    have hlast' : ∀ d ∈ w.getLast?, Precedes d rest rest' := by
      intro d hd
      refine hlast d ?_
      rw [List.getLast?_cons, hd]
      rfl
    rw [if_pos hquote, readString_pared hquote h hs hrest hlast']
    exact ⟨_, rfl⟩
  · next hquote =>
    rw [if_neg hquote]
    have hop := readOperator_pared hpared
    rw [Option.some.inj h] at hop
    exact ⟨(readOperator c (w ++ rest')).2, congrArg some (Prod.ext hop rfl)⟩

/-- An element in front of what is pared is read alike in both texts. -/
theorem read_pared {l : Lexeme} {w : List Char} (h : read c s = some (l, rest)) (hc : c ≠ '#')
    (hs : s = w ++ rest) (hrest : Pared rest rest')
    (hlast : ∀ d ∈ (c :: w).getLast?, Precedes d rest rest') :
    read c (w ++ rest') = some (l, rest') := by
  have hwritten : c :: s = (c :: w) ++ rest := congrArg (c :: ·) hs
  rcases cases_of_read h hc with ⟨rfl, d, t, rfl, rfl, hd, hafter⟩ | ⟨rfl, hend, hafter⟩ |
      ⟨hjoint, hend, hjoint', hend'⟩
  · cases w with
    | nil =>
      have hlength := length_afterLineEnd_le (d :: t)
      rw [hafter, hs, List.nil_append] at hlength
      rw [List.nil_append] at hs
      rw [← hs, List.length_cons] at hlength
      omega
    | cons e w =>
      obtain ⟨rfl, -⟩ := List.cons.inj hs
      rw [List.getLast?_cons_cons] at hlast
      have hrest' := afterLineEnd_pared hd hs hafter hlast
      simpa [read, hd] using hrest'
  · have hrest' := afterLineEnd_pared hend hwritten hafter hlast
    rw [List.cons_append] at hrest'
    rw [read_lineEnd hend, hrest']
  · obtain ⟨more, hread⟩ := exists_read_pared h hc hs hrest hlast hjoint' hend'
    rw [hread, eq_of_read h hwritten hread rfl hjoint hend]

end PotExtract.Python.Lexeme
