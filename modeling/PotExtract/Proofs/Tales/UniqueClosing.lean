import PotExtract.Proofs.Tales.Pipes

/-! The closing brace of an interpolation that is Python code. A text that goes on with a brace
behind such code is not acceptable any more, so at most one closing brace is, and the search from
the last one finds what a search from the first one would find. A comment takes the braces behind
it, so the code must have none. -/

namespace PotExtract.Tales

/-! ### The first closing brace -/

/-- The parts in front of and behind the first closing brace in front of which a good expression ends.
The expression starts with `before`, which is in reverse. -/
def firstClosing? (isGood : List Char → Bool) (before : List Char) :
    List Char → Option (List Char × List Char)
  | [] => none
  | c :: s =>
    if c = '\x7d' ∧ isGood before.reverse then some (before.reverse, s)
    else firstClosing? isGood (c :: before) s

/-- The first closing brace that leaves an acceptable expression. -/
def firstAccepted? (engine : Engine) (body : List Char) : Option (List Char × List Char) :=
  firstClosing? (isAcceptable engine) [] body

theorem firstClosing?_eq_some {isGood : List Char → Bool} {before s inner rest : List Char}
    (h : firstClosing? isGood before s = some (inner, rest)) :
    before.reverse ++ s = inner ++ '\x7d' :: rest ∧ isGood inner := by
  fun_induction firstClosing? isGood before s with
  | case1 => cases h
  | case2 before c s hc =>
    cases h
    exact ⟨by rw [hc.1], hc.2⟩
  | case3 before c s _ ih => simpa using ih h

/-- The searches from both ends fail alike. -/
theorem firstClosing?_eq_none {isGood : List Char → Bool} {before s : List Char} :
    firstClosing? isGood before s = none ↔ lastClosing? isGood before s = none := by
  fun_induction firstClosing? isGood before s with
  | case1 => simp [lastClosing?]
  | case2 before c s hc =>
    rw [lastClosing?]
    split <;> simp [hc]
  | case3 before c s hc ih =>
    rw [ih, lastClosing?]
    split
    · next found hfound => simp [hfound]
    · next hnone => simp [hnone, hc]

/-! ### Candidates -/

/-- Whether a closing brace stands behind `inner` in the text behind an opening one. -/
def IsCandidate (body inner : List Char) : Prop :=
  ∃ rest, body = inner ++ '\x7d' :: rest

/-- An expression is one alternative that the Python engine evaluates, without a comment. -/
structure IsPythonAlone (engine : Engine) (expression : List Char) : Prop where
  alone : ∃ code, split expression engine = [⟨Engine.python.name, code⟩]
  noComment : '#' ∉ expression

theorem IsPythonAlone.endsInPython {engine : Engine} {expression : List Char}
    (h : IsPythonAlone engine expression) : endsInPython engine expression := by
  obtain ⟨code, hcode⟩ := h.alone
  simp [Tales.endsInPython, hcode]

/-- What is in front of a closing brace in Python code is Python code. -/
theorem IsPythonAlone.of_append_brace {engine : Engine} {expression t : List Char}
    (h : IsPythonAlone engine (expression ++ '\x7d' :: t)) : IsPythonAlone engine expression := by
  obtain ⟨⟨code, hcode⟩, hhash⟩ := h
  have hhash : '#' ∉ expression := fun hmem => hhash (List.mem_append_left _ hmem)
  obtain ⟨init, last, y, more, hsplit, hsplit'⟩ := splitPipes_append_brace false expression t
  rw [split, hsplit', List.map_append, List.map_cons] at hcode
  obtain ⟨rfl, hlast⟩ : init = [] ∧ Part.parse engine (last ++ '\x7d' :: y) = ⟨_, code⟩ := by
    cases init with
    | nil => exact ⟨rfl, (List.cons.inj hcode).1⟩
    | cons p init => simp at hcode
  have hlastHash : '#' ∉ last := fun hmem =>
    hhash ((@subset_of_mem_splitPipes false _ _ (by rw [hsplit]; simp)) hmem)
  obtain ⟨u, v, hparse, -, -⟩ := parse_append_brace engine last y hlastHash
  have hengine : (Part.parse engine last).engine = Engine.python.name := by
    rw [hparse] at hlast
    exact congrArg Part.engine hlast
  refine ⟨⟨(Part.parse engine last).code, ?_⟩, hhash⟩
  rw [split, hsplit, ← hengine]
  rfl

/-- Two candidates are the same, or the longer one goes on with a brace behind the shorter one. -/
theorem IsCandidate.cases {body inner inner' : List Char} (h : IsCandidate body inner)
    (h' : IsCandidate body inner') :
    inner' = inner ∨ (∃ t, inner' = inner ++ '\x7d' :: t) ∨ ∃ t, inner = inner' ++ '\x7d' :: t := by
  obtain ⟨rest, rfl⟩ := h
  obtain ⟨rest', h'⟩ := h'
  rcases List.append_eq_append_iff.1 h' with ⟨t, ht, hrest⟩ | ⟨t, ht, hrest⟩
  all_goals cases t with
    | nil => exact .inl (by simpa [eq_comm] using ht)
    | cons d t =>
      obtain ⟨rfl, -⟩ := List.cons.inj hrest
      simp [ht]

/-- Only one candidate is acceptable if one of those is Python code. -/
theorem IsPythonAlone.unique {engine : Engine} {body inner inner' : List Char}
    (halone : IsPythonAlone engine inner) (h : IsCandidate body inner)
    (h' : IsCandidate body inner') (hgood : isAcceptable engine inner)
    (hgood' : isAcceptable engine inner') : inner' = inner := by
  rcases h.cases h' with heq | ⟨t, rfl⟩ | ⟨t, rfl⟩
  · exact heq
  · rw [isAcceptable_append_brace halone.endsInPython hgood halone.noComment] at hgood'
    cases hgood'
  · have halone' := halone.of_append_brace
    rw [isAcceptable_append_brace halone'.endsInPython hgood' halone'.noComment] at hgood
    cases hgood

/-- The searches from both ends find the same brace if one of them finds Python code. -/
theorem firstAccepted?_eq_accepted? {engine : Engine} {body : List Char}
    (h : (∀ found ∈ firstAccepted? engine body, IsPythonAlone engine found.1) ∨
      ∀ found ∈ accepted? engine body, IsPythonAlone engine found.1) :
    firstAccepted? engine body = accepted? engine body := by
  cases hlast : accepted? engine body with
  | none => exact firstClosing?_eq_none.2 hlast
  | some found =>
    obtain ⟨inner, rest⟩ := found
    cases hfirst : firstAccepted? engine body with
    | none =>
      rw [accepted?, firstClosing?_eq_none.1 hfirst] at hlast
      cases hlast
    | some found' =>
      obtain ⟨inner', rest'⟩ := found'
      obtain ⟨hbody, hgood⟩ := accepted?_eq_some hlast
      obtain ⟨hbody', hgood'⟩ := firstClosing?_eq_some hfirst
      have heq : inner' = inner := by
        rcases h with h | h
        · exact ((h _ hfirst).unique ⟨rest', hbody'⟩ ⟨rest, hbody⟩ hgood' hgood).symm
        · exact (h _ hlast).unique ⟨rest, hbody⟩ ⟨rest', hbody'⟩ hgood hgood'
      subst heq
      rw [(List.cons.inj (List.append_cancel_left (hbody'.symm.trans hbody))).2]

/-- The closing brace of Python code is unambiguous: no expression goes on with one, so only one
candidate is acceptable, and the searches from both ends find it. -/
theorem closing_unambiguous (engine : Engine) :
    (∀ u v : List Char, '#' ∉ u → Python.isExpression (String.ofList u) →
      Python.isExpression (String.ofList (u ++ '\x7d' :: v)) = false) ∧
    (∀ body inner inner' : List Char, IsCandidate body inner → IsCandidate body inner' →
      isAcceptable engine inner → isAcceptable engine inner' → IsPythonAlone engine inner →
      inner' = inner) ∧
    ∀ body : List Char, ((∀ found ∈ firstAccepted? engine body, IsPythonAlone engine found.1) ∨
        ∀ found ∈ accepted? engine body, IsPythonAlone engine found.1) →
      firstAccepted? engine body = accepted? engine body :=
  ⟨fun _ _ hhash hu => Python.isExpression_append_brace hu hhash,
    fun _ _ _ h h' hgood hgood' halone => halone.unique h h' hgood hgood',
    fun _ h => firstAccepted?_eq_accepted? h⟩

/-- Braces of a dictionary and of strings do not close, nor does that of a later interpolation. -/
theorem closing_unambiguous_dictionary :
    Python.isExpression "\x7b'\x7d': a\x7d['\x7d']\x7d and $\x7bb" = false ∧
      (∀ inner, IsCandidate "\x7b'\x7d': a\x7d['\x7d']\x7d and $\x7bb\x7d".toList inner →
        isAcceptable .python inner → inner = "\x7b'\x7d': a\x7d['\x7d']".toList) ∧
      firstAccepted? .python "\x7b'\x7d': a\x7d['\x7d']\x7d and $\x7bb\x7d".toList =
        accepted? .python "\x7b'\x7d': a\x7d['\x7d']\x7d and $\x7bb\x7d".toList := by
  have halone : IsPythonAlone .python "\x7b'\x7d': a\x7d['\x7d']".toList :=
    ⟨⟨"\x7b'\x7d': a\x7d['\x7d']", by decide⟩, by decide⟩
  have hfirst : firstAccepted? .python "\x7b'\x7d': a\x7d['\x7d']\x7d and $\x7bb\x7d".toList =
      some ("\x7b'\x7d': a\x7d['\x7d']".toList, " and $\x7bb\x7d".toList) := by
    decide +kernel
  obtain ⟨hbrace, hunique, hsearch⟩ := closing_unambiguous .python
  refine ⟨hbrace "\x7b'\x7d': a\x7d['\x7d']".toList " and $\x7bb".toList (by decide)
    (by decide +kernel), fun inner h hgood => ?_, hsearch _ (.inl fun found hfound => ?_)⟩
  · exact hunique _ _ _ ⟨" and $\x7bb\x7d".toList, rfl⟩ h (by decide +kernel) hgood halone
  · rw [hfirst] at hfound
    obtain rfl := Option.some.inj hfound
    exact halone

/-- A comment takes the brace, so that there are two candidates. -/
example : isAcceptable .python "a # b".toList ∧ isAcceptable .python "a # b\x7d c".toList := by
  decide +kernel

end PotExtract.Tales
