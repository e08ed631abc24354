import PotExtract.Proofs.Tales.ExpressionCode
import PotExtract.Proofs.Tales.Segments
import PotExtract.Proofs.Tales.UniqueClosing

/-! What the search for interpolations finds in any text. It takes the openings that no backslash
escapes from the left, each with the last closing brace that leaves an acceptable expression, and
goes on behind that brace. So every opening with a closing brace behind it opens an interpolation
that is found or stands inside of one, up to an opening without an acceptable closing brace, at which
the search fails. -/

namespace PotExtract.Tales

open Text

variable {engine : Engine} {text : List Char}

/-! ### Openings -/

/-- A dollar sign and a brace without a backslash in front. -/
structure Opening (text : List Char) where
  lead : List Char
  body : List Char
  text_eq : text = lead ++ '$' :: '\x7b' :: body
  unescaped : lead.getLast? ≠ some '\\'

/-- The place of the dollar sign in bytes. -/
def Opening.offset (o : Opening text) : Nat :=
  byteLength o.lead

/-- The opening that is found is not escaped. The text stands behind `before`. -/
theorem exists_unescaped_of_opening? {escaped : Bool} {offset start : Nat}
    (before : List Char) {s body : List Char} (hescaped : escaped ↔ before.getLast? = some '\\')
    (h : opening? escaped offset s = some (start, body)) :
    ∃ lead, s = lead ++ '$' :: '\x7b' :: body ∧ start = offset + byteLength lead ∧
      (before ++ lead).getLast? ≠ some '\\' := by
  fun_induction opening? escaped offset s generalizing before with
  | case1 offset s ih =>
    obtain ⟨lead, rfl, rfl, hlead⟩ := ih (before ++ ['$', '\x7b']) (by simp) h
    refine ⟨'$' :: '\x7b' :: lead, rfl, ?_, by simpa using hlead⟩
    simp only [byteLength_cons, show '$'.utf8Size = 1 from rfl, show '\x7b'.utf8Size = 1 from rfl]
    omega
  | case2 escaped offset s hno =>
    cases h
    refine ⟨[], rfl, rfl, ?_⟩
    rw [List.append_nil]
    exact fun hlast => hno (hescaped.2 hlast)
  | case3 escaped offset c s _ ih =>
    obtain ⟨lead, rfl, rfl, hlead⟩ := ih (before ++ [c]) (by simp) h
    refine ⟨c :: lead, rfl, ?_, by simpa using hlead⟩
    rw [byteLength_cons]
    omega
  | case4 => cases h

/-- The opening that is found is the first one that is not escaped. The text stands behind `before`.
-/
theorem exists_opening?_eq_some {escaped : Bool} (offset : Nat) (before : List Char)
    {lead s body : List Char} (hescaped : escaped ↔ before.getLast? = some '\\')
    (hs : s = lead ++ '$' :: '\x7b' :: body)
    (hlead : (before ++ lead).getLast? ≠ some '\\') :
    ∃ start first, opening? escaped offset s = some (start, first) ∧
      start ≤ offset + byteLength lead ∧ body <:+ first := by
  fun_induction opening? escaped offset s generalizing before lead with
  | case1 offset s ih =>
    rcases lead with _ | ⟨c, _ | ⟨d, lead⟩⟩
    · rw [List.append_nil] at hlead
      exact absurd (hescaped.1 rfl) hlead
    · cases hs
    · simp only [List.cons_append, List.cons.injEq] at hs
      obtain ⟨rfl, rfl, hs⟩ := hs
      obtain ⟨start, first, hfound, hle, hbody⟩ :=
        ih (before ++ ['$', '\x7b']) (by simp) hs (by simpa using hlead)
      refine ⟨start, first, hfound, ?_, hbody⟩
      simp only [byteLength_cons, show '$'.utf8Size = 1 from rfl,
        show '\x7b'.utf8Size = 1 from rfl]
      omega
  | case2 escaped offset s =>
    refine ⟨_, s, rfl, Nat.le_add_right _ _, ?_⟩
    rcases lead with _ | ⟨c, _ | ⟨d, lead⟩⟩
    · cases hs
      exact List.suffix_rfl
    · cases hs
    · simp only [List.cons_append, List.cons.injEq] at hs
      obtain ⟨-, -, rfl⟩ := hs
      exact ⟨lead ++ ['$', '\x7b'], by simp⟩
  | case3 escaped offset c s hno ih =>
    cases lead with
    | nil =>
      obtain ⟨rfl, rfl⟩ := List.cons.inj hs
      exact absurd rfl (hno _ rfl)
    | cons d lead =>
      simp only [List.cons_append, List.cons.injEq] at hs
      obtain ⟨rfl, hs⟩ := hs
      rw [byteLength_cons, ← Nat.add_assoc]
      exact ih (before ++ [c]) (by simp) hs (by simpa using hlead)
  | case4 => simp at hs

/-- The search from a place that is not escaped finds no opening behind any other. -/
theorem Opening.exists_opening?_eq_some (o : Opening text) {before s : List Char}
    (htext : text = before ++ s) (hbefore : before.getLast? ≠ some '\\')
    (h : byteLength before ≤ o.offset) :
    ∃ start first, opening? false (byteLength before) s = some (start, first) ∧
      start ≤ o.offset ∧ o.body <:+ first := by
  obtain ⟨lead, hlead, hs⟩ := exists_append_of_byteLength_le (htext.symm.trans o.text_eq) h
  have hunescaped := o.unescaped
  rw [hlead] at hunescaped
  have hescaped : false ↔ before.getLast? = some '\\' := by simpa using hbefore
  obtain ⟨start, first, hfound, hle, hbody⟩ :=
    Tales.exists_opening?_eq_some (byteLength before) before hescaped hs hunescaped
  refine ⟨start, first, hfound, ?_, hbody⟩
  rwa [offset, hlead, byteLength_append]

/-- What the search finds from a place that is not escaped is the first opening from there on. -/
theorem exists_first_opening {before s body : List Char} {start : Nat}
    (htext : text = before ++ s) (hbefore : before.getLast? ≠ some '\\')
    (h : opening? false (byteLength before) s = some (start, body)) :
    ∃ o : Opening text, o.body = body ∧ o.offset = start ∧ byteLength before ≤ o.offset ∧
      ∀ other : Opening text, byteLength before ≤ other.offset → o.offset ≤ other.offset := by
  have hescaped : false ↔ before.getLast? = some '\\' := by simpa using hbefore
  obtain ⟨lead, hs, hstart, hlead⟩ := exists_unescaped_of_opening? before hescaped h
  have hoffset : byteLength (before ++ lead) = start := by rw [hstart, byteLength_append]
  refine ⟨⟨before ++ lead, body, by rw [htext, hs, List.append_assoc], hlead⟩, rfl, hoffset, ?_,
    fun other hother => ?_⟩
  · rw [Opening.offset, hoffset, hstart]
    exact Nat.le_add_right _ _
  · obtain ⟨start', first, hfound, hle, -⟩ := other.exists_opening?_eq_some htext hbefore hother
    obtain ⟨rfl, -⟩ := Prod.mk.inj (Option.some.inj (h.symm.trans hfound))
    exact hoffset.trans_le hle

/-! ### Closing braces -/

theorem isAcceptable_eq_false_of_length_lt {body inner rest longer : List Char}
    (h : accepted? engine body = some (inner, rest)) (hlonger : IsCandidate body longer)
    (hlt : inner.length < longer.length) : isAcceptable engine longer = false := by
  rw [Bool.eq_false_iff]
  intro hgood
  obtain ⟨later, hbody⟩ := hlonger
  obtain ⟨inner', rest', hfound, hle⟩ :=
    exists_lastClosing? [] hbody (Nat.zero_le _) hgood
  obtain ⟨rfl, -⟩ := Prod.mk.inj (Option.some.inj (h.symm.trans hfound))
  omega

theorem isAcceptable_eq_false_of_eq_none {body inner : List Char}
    (h : accepted? engine body = none) (hinner : IsCandidate body inner) :
    isAcceptable engine inner = false := by
  rw [Bool.eq_false_iff]
  intro hgood
  obtain ⟨later, hbody⟩ := hinner
  obtain ⟨inner', rest', hfound, -⟩ := exists_lastClosing? [] hbody (Nat.zero_le _) hgood
  rw [accepted?, hfound] at h
  cases h

/-- An interpolation that the search accepts: it ends at the last closing brace that leaves an
acceptable expression. -/
structure Accepted (engine : Engine) (text : List Char) extends Opening text where
  expression : List Char
  rest : List Char
  body_eq : body = expression ++ '\x7d' :: rest
  isAcceptable : isAcceptable engine expression
  last : ∀ longer, IsCandidate body longer → expression.length < longer.length →
    Tales.isAcceptable engine longer = false

theorem exists_accepted {o : Opening text} {inner rest : List Char}
    (h : accepted? engine o.body = some (inner, rest)) :
    ∃ a : Accepted engine text, a.toOpening = o ∧ a.expression = inner ∧ a.rest = rest := by
  obtain ⟨hbody, hgood⟩ := accepted?_eq_some h
  exact ⟨{ o with
    expression := inner
    rest := rest
    body_eq := hbody
    isAcceptable := hgood
    last := fun _ hlonger hlt => isAcceptable_eq_false_of_length_lt h hlonger hlt }, rfl, rfl, rfl⟩

namespace Accepted

/-- The text up to the closing brace and with it. -/
def front (a : Accepted engine text) : List Char :=
  a.lead ++ '$' :: '\x7b' :: a.expression ++ ['\x7d']

/-- The place behind the closing brace in bytes. -/
def stop (a : Accepted engine text) : Nat :=
  byteLength a.front

/-- The Python code in the interpolation. -/
def code (a : Accepted engine text) : List Interpolation :=
  codeAt engine a.offset a.expression

variable {a : Accepted engine text}

theorem text_eq_front_append (a : Accepted engine text) : text = a.front ++ a.rest := by
  have h := a.text_eq
  rw [a.body_eq] at h
  simpa [front] using h

theorem getLast?_front : a.front.getLast? = some '\x7d' :=
  List.getLast?_concat

theorem stop_eq (a : Accepted engine text) :
    a.stop = a.offset + 2 + byteLength a.expression + 1 := by
  simp only [stop, front, Opening.offset, byteLength_append, byteLength_cons, byteLength_nil,
    show '$'.utf8Size = 1 from rfl, show '\x7b'.utf8Size = 1 from rfl,
    show '\x7d'.utf8Size = 1 from rfl]
  omega

theorem offset_lt_stop (a : Accepted engine text) : a.offset < a.stop := by
  rw [stop_eq]
  omega

theorem stop_le (a : Accepted engine text) : a.stop ≤ byteLength text := by
  have h := congrArg byteLength a.text_eq_front_append
  rw [byteLength_append] at h
  exact h ▸ Nat.le_add_right _ _

theorem isExpression_of_mem_code {i : Interpolation} (h : i ∈ a.code) :
    Python.isExpression i.code ∧ i.offset = a.offset := by
  obtain ⟨code, hcode, rfl⟩ := List.mem_map.1 h
  exact ⟨List.all_eq_true.1 a.isAcceptable code hcode, rfl⟩

end Accepted

/-- All interpolations of a text between two places: they stand one behind the other, and an opening
with a closing brace behind it opens one of them or stands inside of one. -/
structure AreAll (accepted : List (Accepted engine text)) (start stop : Nat) : Prop where
  start_le_stop : start ≤ stop
  within : ∀ a ∈ accepted, start ≤ a.offset ∧ a.stop ≤ stop
  pairwise : accepted.Pairwise fun a b => a.offset < a.stop ∧ a.stop ≤ b.offset
  covers : ∀ o : Opening text, '\x7d' ∈ o.body → start ≤ o.offset → o.offset < stop →
    ∃ a ∈ accepted, a.offset ≤ o.offset ∧ o.offset < a.stop

theorem AreAll.nil {start stop : Nat} (hle : start ≤ stop)
    (h : ∀ o : Opening text, '\x7d' ∈ o.body → start ≤ o.offset → stop ≤ o.offset) :
    AreAll ([] : List (Accepted engine text)) start stop where
  start_le_stop := hle
  within _ ha := by cases ha
  pairwise := .nil
  covers o hbrace hstart hstop := absurd (h o hbrace hstart) (Nat.not_le_of_lt hstop)

/-- The first interpolation with all those behind it. -/
theorem AreAll.cons {a : Accepted engine text} {accepted : List (Accepted engine text)}
    {start stop : Nat} (h : AreAll accepted a.stop stop) (hstart : start ≤ a.offset)
    (hfirst : ∀ o : Opening text, start ≤ o.offset → a.offset ≤ o.offset) :
    AreAll (a :: accepted) start stop := by
  have hlt := a.offset_lt_stop
  have hstop := h.start_le_stop
  refine ⟨by omega, List.forall_mem_cons.2 ⟨⟨hstart, hstop⟩, fun b hb => ?_⟩,
    List.pairwise_cons.2 ⟨fun b hb => ⟨hlt, (h.within b hb).1⟩, h.pairwise⟩,
    fun o hbrace ho hostop => ?_⟩
  · have := h.within b hb
    omega
  · rcases Nat.lt_or_ge o.offset a.stop with hinside | hbehind
    · exact ⟨a, List.mem_cons_self, hfirst o ho, hinside⟩
    · obtain ⟨b, hb, hcover⟩ := h.covers o hbrace hbehind hostop
      exact ⟨b, List.mem_cons_of_mem a hb, hcover⟩

/-! ### The search -/

/-- The search from a place that is not escaped. -/
theorem interpolationsFrom_cases (engine : Engine) {offset : Nat} {before s : List Char}
    (htext : text = before ++ s) (hoffset : offset = byteLength before)
    (hbefore : before.getLast? ≠ some '\\') :
    ∃ accepted : List (Accepted engine text),
      (interpolationsFrom engine offset s = .ok (accepted.flatMap Accepted.code) ∧
        AreAll accepted offset (byteLength text)) ∨
      ∃ o : Opening text, AreAll accepted offset o.offset ∧ '\x7d' ∈ o.body ∧
        (∀ inner, IsCandidate o.body inner → isAcceptable engine inner = false) ∧
        interpolationsFrom engine offset s = .error (String.ofList ('$' :: '\x7b' :: o.body)) := by
  have hle : offset ≤ byteLength text := by
    rw [htext, hoffset, byteLength_append]
    omega
  fun_induction interpolationsFrom engine offset s generalizing before with
  | case1 offset s ho =>
    refine ⟨[], .inl ⟨rfl, .nil hle fun o _ hstart => ?_⟩⟩
    subst hoffset
    obtain ⟨start, first, hfound, -⟩ := o.exists_opening?_eq_some htext hbefore hstart
    rw [ho] at hfound
    cases hfound
  | case2 offset s start body ho hnone =>
    refine ⟨[], .inl ⟨rfl, .nil hle fun o hbrace hstart => ?_⟩⟩
    subst hoffset
    obtain ⟨start', first, hfound, -, hbody⟩ := o.exists_opening?_eq_some htext hbefore hstart
    obtain ⟨rfl, rfl⟩ := Prod.mk.inj (Option.some.inj (ho.symm.trans hfound))
    have hmem : '\x7d' ∈ body := hbody.subset hbrace
    simp [hmem] at hnone
  | case3 offset s start body ho hbrace ha =>
    subst hoffset
    obtain ⟨o, rfl, -, hstart, hfirst⟩ := exists_first_opening htext hbefore ho
    exact ⟨[], .inr ⟨o, .nil hstart fun other _ hother => hfirst other hother,
      by simpa using hbrace, fun inner hinner => isAcceptable_eq_false_of_eq_none ha hinner, rfl⟩⟩
  | case4 offset s start body ho hbrace inner rest ha _ _ =>
    rename_i ih
    subst hoffset
    obtain ⟨o, rfl, rfl, hstart, hfirst⟩ := exists_first_opening htext hbefore ho
    obtain ⟨a, rfl, rfl, rfl⟩ := exists_accepted ha
    have hlast : a.front.getLast? ≠ some '\\' := by simp [Accepted.getLast?_front]
    obtain ⟨accepted, hcases⟩ :=
      ih a.text_eq_front_append a.stop_eq.symm hlast (a.stop_eq ▸ a.stop_le)
    rw [← a.stop_eq] at hcases
    refine ⟨a :: accepted, hcases.imp ?_ ?_⟩
    · rintro ⟨hok, hall⟩
      refine ⟨?_, hall.cons hstart hfirst⟩
      rw [← a.stop_eq, hok]
      rfl
    · rintro ⟨o', hall, hbrace', hnone, herror⟩
      refine ⟨o', hall.cons hstart hfirst, hbrace', hnone, ?_⟩
      rw [← a.stop_eq, herror]
      rfl

/-- The search takes all interpolations up to the end of the text, and finds their code, which is
valid, each part at the dollar sign of its interpolation. Or it takes all of them up to an opening
that has a closing brace behind it, but none that leaves an acceptable expression, and gives the text
from there on. -/
theorem interpolations_cases (engine : Engine) (text : List Char) :
    ∃ accepted : List (Accepted engine text),
      (∀ i ∈ accepted.flatMap Accepted.code,
        Python.isExpression i.code ∧ ∃ a ∈ accepted, i.offset = a.offset) ∧
      ((interpolations engine text = .ok (accepted.flatMap Accepted.code) ∧
          AreAll accepted 0 (byteLength text)) ∨
        ∃ o : Opening text,
          interpolations engine text = .error (String.ofList ('$' :: '\x7b' :: o.body)) ∧
            AreAll accepted 0 o.offset ∧ '\x7d' ∈ o.body ∧
            ∀ inner, IsCandidate o.body inner → isAcceptable engine inner = false) := by
  obtain ⟨accepted, hcases⟩ :=
    interpolationsFrom_cases engine (List.nil_append text).symm rfl (by simp)
  refine ⟨accepted, fun i hi => ?_, hcases.imp id ?_⟩
  · obtain ⟨a, ha, hcode⟩ := List.mem_flatMap.1 hi
    obtain ⟨hvalid, hoffset⟩ := Accepted.isExpression_of_mem_code hcode
    exact ⟨hvalid, a, ha, hoffset⟩
  · rintro ⟨o, hall, hbrace, hnone, herror⟩
    exact ⟨o, herror, hall, hbrace, hnone⟩

/-- An opening behind a backslash is passed over, and no brace closes the last one well. -/
example : interpolations .python "\\$\x7ba b\x7d $\x7bc\x7d $\x7ba b\x7d.".toList =
    .error "$\x7ba b\x7d." := by
  decide +kernel

end PotExtract.Tales
