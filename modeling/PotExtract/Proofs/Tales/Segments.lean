import Mathlib.Data.List.Infix
import Mathlib.Data.Nat.Find
import PotExtract.Tales.Interpolation
import PotExtract.Proofs.Text.Bytes

/-! Texts with interpolations in them, and which of their closing braces ends the first one: the
last brace in front of which an acceptable expression ends. Such an expression may swallow
interpolations that follow. -/

namespace PotExtract.Tales

open Text

/-- An interpolation with the plain text behind it. -/
structure Segment where
  expression : List Char
  after : List Char

/-- The segment as it is written. -/
def Segment.write (s : Segment) : List Char :=
  '$' :: '\x7b' :: s.expression ++ '\x7d' :: s.after

/-- A text without interpolations in front of one. It neither closes one nor escapes the one that
follows. -/
structure IsPlain (s : List Char) : Prop where
  noOpening : ¬['$', '\x7b'] <:+: s
  noClosing : '\x7d' ∉ s
  noEscape : s.getLast? ≠ some '\\'

instance (s : List Char) : Decidable (IsPlain s) :=
  decidable_of_iff (¬['$', '\x7b'] <:+: s ∧ '\x7d' ∉ s ∧ s.getLast? ≠ some '\\')
    ⟨fun h => ⟨h.1, h.2.1, h.2.2⟩, fun h => ⟨h.1, h.2, h.3⟩⟩

/-- An expression without braces and comments between plain texts. -/
structure Segment.IsSimple (s : Segment) : Prop where
  noOpening : '\x7b' ∉ s.expression
  noClosing : '\x7d' ∉ s.expression
  noComment : '#' ∉ s.expression
  after : IsPlain s.after

instance (s : Segment) : Decidable s.IsSimple :=
  decidable_of_iff
    ('\x7b' ∉ s.expression ∧ '\x7d' ∉ s.expression ∧ '#' ∉ s.expression ∧ IsPlain s.after)
    ⟨fun h => ⟨h.1, h.2.1, h.2.2.1, h.2.2.2⟩, fun h => ⟨h.1, h.2, h.3, h.4⟩⟩

/-- The text between the opening brace of `s` and the closing brace of the last of the segments
`swallowed` that follow it. -/
def span (s : Segment) : List Segment → List Char
  | [] => s.expression
  | r :: swallowed => s.expression ++ '\x7d' :: (s.after ++ '$' :: '\x7b' :: span r swallowed)

/-- The plain text behind the last segment. -/
def lastAfter (s : Segment) : List Segment → List Char
  | [] => s.after
  | r :: swallowed => lastAfter r swallowed

/-! ### Opening braces -/

theorem opening?_cons_of_ne {escaped : Bool} {offset : Nat} {c : Char} {s : List Char}
    (h : c = '$' → s.head? ≠ some '\x7b') :
    opening? escaped offset (c :: s) = opening? (c == '\\') (offset + c.utf8Size) s := by
  rw [opening?.eq_def]
  split
  · next h' =>
    obtain ⟨rfl, rfl⟩ := List.cons.inj h'
    exact absurd rfl (h rfl)
  · next h' =>
    obtain ⟨rfl, rfl⟩ := List.cons.inj h'
    rfl
  · next h' => cases h'

theorem opening?_append_of_escaped {escaped : Bool} {lead : List Char} (offset : Nat)
    (hopening : ¬['$', '\x7b'] <:+: lead) (hescape : lead.getLast? ≠ some '\\')
    (hescaped : lead = [] → escaped = false) {s : List Char}
    (hs : s = [] ∨ ∃ body, s = '$' :: '\x7b' :: body) :
    opening? escaped offset (lead ++ s) = opening? false (offset + byteLength lead) s := by
  induction lead generalizing escaped offset with
  | nil => rw [hescaped rfl, List.nil_append, byteLength_nil, Nat.add_zero]
  | cons c lead ih =>
    have hhead : c = '$' → (lead ++ s).head? ≠ some '\x7b' := by
      rintro rfl hhead
      cases lead with
      | nil => rcases hs with rfl | ⟨body, rfl⟩ <;> simp at hhead
      | cons d lead =>
        obtain rfl : d = '\x7b' := Option.some.inj hhead
        exact hopening ⟨[], lead, rfl⟩
    rw [List.cons_append, opening?_cons_of_ne hhead, byteLength_cons, ← Nat.add_assoc]
    refine ih _ (fun h => hopening (h.trans (List.suffix_cons c lead).isInfix)) ?_ ?_
    · cases lead with
      | nil => simp
      | cons d lead => simpa using hescape
    · rintro rfl
      simpa using hescape

/-- Plain text is passed over, up to an opening brace or to its end. -/
theorem opening?_append {lead : List Char} (hlead : IsPlain lead) (offset : Nat) {s : List Char}
    (hs : s = [] ∨ ∃ body, s = '$' :: '\x7b' :: body) :
    opening? false offset (lead ++ s) = opening? false (offset + byteLength lead) s :=
  opening?_append_of_escaped offset hlead.noOpening hlead.noEscape (fun _ => rfl) hs

/-! ### Closing braces -/

theorem length_le_of_lastClosing? {isGood : List Char → Bool} {before s inner rest : List Char}
    (h : lastClosing? isGood before s = some (inner, rest)) : before.length ≤ inner.length := by
  fun_induction lastClosing? isGood before s with
  | case1 => cases h
  | case2 before c s found hf ih =>
    cases h
    exact Nat.le_of_succ_le (ih hf)
  | case3 before c s hnone hc =>
    cases h
    simp
  | case4 => cases h

/-- A closing brace in front of which a good text ends is found, or one behind it. -/
theorem exists_lastClosing? {isGood : List Char → Bool} (before : List Char)
    {s inner rest : List Char}
    (hs : before.reverse ++ s = inner ++ '\x7d' :: rest) (hlen : before.length ≤ inner.length)
    (hgood : isGood inner) :
    ∃ inner' rest', lastClosing? isGood before s = some (inner', rest') ∧
      inner.length ≤ inner'.length := by
  induction s generalizing before with
  | nil =>
    have := congrArg List.length hs
    simp only [List.append_nil, List.length_reverse, List.length_append, List.length_cons] at this
    omega
  | cons c s ih =>
    unfold lastClosing?
    rcases Nat.lt_or_eq_of_le hlen with hlt | heq
    · obtain ⟨inner', rest', hfound, hle⟩ := ih (c :: before) (by simpa using hs) hlt
      rw [hfound]
      exact ⟨inner', rest', rfl, hle⟩
    · obtain ⟨rfl, h⟩ := List.append_inj hs (by simpa using heq)
      obtain ⟨rfl, rfl⟩ := List.cons.inj h
      cases hf : lastClosing? isGood ('\x7d' :: before) s with
      | some found =>
        have := length_le_of_lastClosing? hf
        refine ⟨found.1, found.2, rfl, ?_⟩
        rw [List.length_cons] at this
        simp only [List.length_reverse]
        omega
      | none => exact ⟨before.reverse, s, by simp [hgood], Nat.le_refl _⟩

/-- The accepted closing brace is the last one in front of which an acceptable expression ends. -/
theorem accepted?_eq {engine : Engine} {body inner rest : List Char}
    (hbody : body = inner ++ '\x7d' :: rest) (hgood : isAcceptable engine inner)
    (hlast : ∀ inner' rest', body = inner' ++ '\x7d' :: rest' → inner.length < inner'.length →
      isAcceptable engine inner' = false) : accepted? engine body = some (inner, rest) := by
  obtain ⟨inner', rest', hfound, hle⟩ :=
    exists_lastClosing? [] hbody (Nat.zero_le _) hgood
  obtain ⟨hbody', hgood'⟩ := accepted?_eq_some hfound
  rcases Nat.lt_or_eq_of_le hle with hlt | heq
  · rw [hlast _ _ hbody' hlt] at hgood'
    cases hgood'
  · obtain ⟨rfl, h⟩ := List.append_inj (hbody.symm.trans hbody') heq
    obtain rfl := (List.cons.inj h).2
    exact hfound

/-! ### The braces of a row of segments -/

theorem append_cons_eq {c : Char} {a b x y : List Char} (ha : c ∉ a) (h : a ++ x = b ++ c :: y) :
    ∃ b', b = a ++ b' ∧ x = b' ++ c :: y := by
  rcases List.append_eq_append_iff.1 h with ⟨b', hb, hx⟩ | ⟨b', ha', hb⟩
  · exact ⟨b', hb, hx⟩
  · cases b' with
    | nil => exact ⟨[], by simpa using ha'.symm, by simpa using hb.symm⟩
    | cons d b' =>
      obtain ⟨rfl, -⟩ := List.cons.inj hb
      exact absurd (ha' ▸ List.mem_append_right b List.mem_cons_self) ha

theorem body_eq (s : Segment) (swallowed later : List Segment) :
    s.expression ++ '\x7d' :: (s.after ++ (swallowed ++ later).flatMap Segment.write) =
      span s swallowed ++ '\x7d' :: (lastAfter s swallowed ++ later.flatMap Segment.write) := by
  induction swallowed generalizing s with
  | nil => rfl
  | cons r swallowed ih => simp [span, lastAfter, Segment.write, ← ih r]

/-- The closing braces in a row of segments are the ones behind their expressions. -/
theorem exists_eq_span {s : Segment} {rest : List Segment} {inner tail : List Char}
    (hs : s.IsSimple) (hrest : ∀ r ∈ rest, r.IsSimple)
    (h : s.expression ++ '\x7d' :: (s.after ++ rest.flatMap Segment.write) =
      inner ++ '\x7d' :: tail) :
    ∃ k ≤ rest.length, inner = span s (rest.take k) := by
  induction rest generalizing s inner with
  | nil =>
    obtain ⟨b, rfl, hb⟩ := append_cons_eq hs.noClosing h
    cases b with
    | nil => exact ⟨0, Nat.le_refl 0, by simp [span]⟩
    | cons d b =>
      obtain ⟨rfl, hb⟩ := List.cons.inj hb
      refine absurd (?_ : '\x7d' ∈ s.after) hs.after.noClosing
      rw [show s.after = _ from by simpa using hb]
      simp
  | cons r rest ih =>
    obtain ⟨hr, hrest⟩ := List.forall_mem_cons.1 hrest
    obtain ⟨b, rfl, hb⟩ := append_cons_eq hs.noClosing h
    cases b with
    | nil => exact ⟨0, Nat.zero_le _, by simp [span]⟩
    | cons d b =>
      obtain ⟨rfl, hb⟩ := List.cons.inj hb
      have hpre : '\x7d' ∉ s.after ++ ['$', '\x7b'] := by
        simpa using hs.after.noClosing
      obtain ⟨b', rfl, hb'⟩ := append_cons_eq hpre (x := r.expression ++ '\x7d' ::
        (r.after ++ rest.flatMap Segment.write)) (by simpa [Segment.write] using hb)
      obtain ⟨k, hk, rfl⟩ := ih hr hrest hb'
      exact ⟨k + 1, Nat.succ_le_succ hk, by simp [span]⟩

theorem length_span_le (s : Segment) (rest : List Segment) {j k : Nat} (h : j ≤ k) :
    (span s (rest.take j)).length ≤ (span s (rest.take k)).length := by
  induction rest generalizing s j k with
  | nil => simp
  | cons r rest ih =>
    cases j with
    | zero =>
      cases k with
      | zero => exact Nat.le_refl _
      | succ k => simp [span]
    | succ j =>
      obtain ⟨k, rfl⟩ : ∃ i, k = i + 1 := ⟨k - 1, by omega⟩
      have := ih r (Nat.le_of_succ_le_succ h)
      simp only [List.take_succ_cons, span, List.length_append, List.length_cons]
      omega

/-- The segments that the expression of `s` swallows: as many as there can be before one of their
closing braces ends an acceptable expression. -/
def swallowed (engine : Engine) (s : Segment) (rest : List Segment) : List Segment :=
  rest.take (Nat.findGreatest (fun k => isAcceptable engine (span s (rest.take k))) rest.length)

theorem swallowed_append (engine : Engine) (s : Segment) (rest : List Segment) :
    swallowed engine s rest ++ rest.drop (swallowed engine s rest).length = rest :=
  List.prefix_iff_eq_append.1 (List.take_prefix _ _)

/-- The closing brace of the first segment is the one behind the segments that it swallows. -/
theorem accepted?_segments {engine : Engine} {s : Segment} {rest : List Segment} (hs : s.IsSimple)
    (hgood : isAcceptable engine s.expression) (hrest : ∀ r ∈ rest, r.IsSimple) :
    accepted? engine (s.expression ++ '\x7d' :: (s.after ++ rest.flatMap Segment.write)) =
      some (span s (swallowed engine s rest), lastAfter s (swallowed engine s rest) ++
        (rest.drop (swallowed engine s rest).length).flatMap Segment.write) := by
  refine accepted?_eq ?_ ?_ fun inner' rest' hbody hlt => ?_
  · rw [← body_eq, swallowed_append]
  · exact Nat.findGreatest_spec (P := fun k => isAcceptable engine (span s (rest.take k)))
      (Nat.zero_le rest.length) (by simpa [span] using hgood)
  · obtain ⟨j, hj, rfl⟩ := exists_eq_span hs hrest hbody
    rw [← Bool.not_eq_true]
    refine Nat.findGreatest_is_greatest (P := fun k => isAcceptable engine (span s (rest.take k)))
      (lt_of_not_ge fun hle => ?_) hj
    exact absurd (length_span_le s rest hle) (Nat.not_le_of_lt hlt)

/-! ### The interpolations of a row of segments -/

theorem isPlain_lastAfter {s : Segment} {swallowed : List Segment} (hs : s.IsSimple)
    (h : ∀ r ∈ swallowed, r.IsSimple) : IsPlain (lastAfter s swallowed) := by
  induction swallowed generalizing s with
  | nil => exact hs.after
  | cons r swallowed ih =>
    obtain ⟨hr, h⟩ := List.forall_mem_cons.1 h
    exact ih hr h

theorem byteLength_span (s : Segment) (swallowed : List Segment) :
    2 + byteLength (span s swallowed) + 1 + byteLength (lastAfter s swallowed) =
      byteLength ((s :: swallowed).flatMap Segment.write) := by
  have h2 : ('$').utf8Size = 1 ∧ ('\x7b').utf8Size = 1 ∧ ('\x7d').utf8Size = 1 := by decide
  induction swallowed generalizing s with
  | nil =>
    simp [span, lastAfter, Segment.write, h2]
    omega
  | cons r swallowed ih =>
    rw [List.flatMap_cons, byteLength_append, ← ih r]
    simp [span, lastAfter, Segment.write, h2]
    omega

/-- The Python code of an expression whose dollar sign is at byte `offset`. -/
def codeAt (engine : Engine) (offset : Nat) (expression : List Char) : List Interpolation :=
  (pythonParts expression engine).map fun code => ⟨code, offset⟩

/-- The code that is found in segments, the first of which starts at byte `offset`. -/
def found (engine : Engine) (offset : Nat) : List Segment → List Interpolation
  | [] => []
  | s :: rest =>
    codeAt engine offset (span s (swallowed engine s rest)) ++
      found engine (offset + byteLength ((s :: swallowed engine s rest).flatMap Segment.write))
        (rest.drop (swallowed engine s rest).length)
  termination_by segments => segments.length
  decreasing_by
    simp only [List.length_drop, List.length_cons]
    omega

theorem interpolationsFrom_of_none {engine : Engine} {offset : Nat} {s : List Char}
    (h : opening? false offset s = none) : interpolationsFrom engine offset s = .ok [] := by
  rw [interpolationsFrom.eq_def]
  split
  · rfl
  · next ho =>
    rw [h] at ho
    cases ho

theorem interpolationsFrom_of_opening {engine : Engine} {offset start : Nat}
    {s body inner rest : List Char} (ho : opening? false offset s = some (start, body))
    (ha : accepted? engine body = some (inner, rest)) :
    interpolationsFrom engine offset s =
      (interpolationsFrom engine (start + 2 + byteLength inner + 1) rest).map
        (codeAt engine start inner ++ ·) := by
  have hmem : '\x7d' ∈ body := by
    rw [(accepted?_eq_some ha).1]
    simp
  rw [interpolationsFrom.eq_def]
  split
  · next ho' =>
    rw [ho] at ho'
    cases ho'
  · next start' body' ho' =>
    obtain ⟨rfl, rfl⟩ := Prod.mk.inj (Option.some.inj (ho.symm.trans ho'))
    rw [if_neg (by simpa using hmem)]
    split
    · next ha' =>
      rw [ha] at ha'
      cases ha'
    · next inner' rest' ha' =>
      obtain ⟨rfl, rfl⟩ := Prod.mk.inj (Option.some.inj (ha.symm.trans ha'))
      rfl

/-- The search finds the code of each segment with what the segment swallows. -/
theorem interpolationsFrom_segments {engine : Engine} (segments : List Segment)
    {lead : List Char} (offset : Nat) (hlead : IsPlain lead) (hsimple : ∀ s ∈ segments, s.IsSimple)
    (hgood : ∀ s ∈ segments, isAcceptable engine s.expression) :
    interpolationsFrom engine offset (lead ++ segments.flatMap Segment.write) =
      .ok (found engine (offset + byteLength lead) segments) := by
  induction h : segments.length using Nat.strong_induction_on
    generalizing segments lead offset with
  | _ n ih =>
    cases segments with
    | nil =>
      have ho : opening? false offset (lead ++ [].flatMap Segment.write) = none :=
        opening?_append hlead offset (.inl rfl)
      rw [interpolationsFrom_of_none ho, found]
    | cons s rest =>
      obtain ⟨hs, hrest⟩ := List.forall_mem_cons.1 hsimple
      obtain ⟨hgoods, hgoodrest⟩ := List.forall_mem_cons.1 hgood
      have ho : opening? false offset (lead ++ (s :: rest).flatMap Segment.write) =
          some (offset + byteLength lead,
            s.expression ++ '\x7d' :: (s.after ++ rest.flatMap Segment.write)) := by
        have hwrite : (s :: rest).flatMap Segment.write = '$' :: '\x7b' ::
            (s.expression ++ '\x7d' :: (s.after ++ rest.flatMap Segment.write)) := by
          simp [Segment.write]
        rw [hwrite, opening?_append hlead offset (.inr ⟨_, rfl⟩), opening?]
        rfl
      have hswallowed : ∀ r ∈ swallowed engine s rest, r.IsSimple := fun r hr =>
        hrest r (List.mem_of_mem_take hr)
      rw [interpolationsFrom_of_opening ho (accepted?_segments hs hgoods hrest), found]
      rw [ih _ ?_ _ _ (isPlain_lastAfter hs hswallowed)
        (fun r hr => hrest r (List.mem_of_mem_drop hr))
        (fun r hr => hgoodrest r (List.mem_of_mem_drop hr)) rfl]
      · have := byteLength_span s (swallowed engine s rest)
        have hoffset : offset + byteLength lead + 2 + byteLength (span s (swallowed engine s rest)) + 1 +
            byteLength (lastAfter s (swallowed engine s rest)) =
            offset + byteLength lead +
              byteLength ((s :: swallowed engine s rest).flatMap Segment.write) := by
          omega
        rw [hoffset]
        rfl
      · simp only [List.length_drop]
        simp only [List.length_cons] at h
        omega

end PotExtract.Tales
