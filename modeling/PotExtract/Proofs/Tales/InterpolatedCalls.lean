import PotExtract.Proofs.Tales.EscapedPipes
import PotExtract.Proofs.Tales.Segments

/-! A call of the underscore with one string literal in an interpolation. If every pipe stands
behind a backslash, the interpolation is the whole call, whatever braces there are in the literal.
If a pipe stands alone, no closing brace ends an acceptable expression. -/

namespace PotExtract.Tales

open Text Python

/-- The interpolation of code. -/
def interpolated (code : List Char) : List Char :=
  '$' :: '\x7b' :: (code ++ ['\x7d'])

theorem parse_of_call {s rest : List Char} (engine : Engine)
    (h : replacePair '\\' '|' '|' (trim s) = '_' :: '(' :: rest) :
    Part.parse engine s = ⟨engine.name, String.ofList ('_' :: '(' :: rest)⟩ := by
  have hprefix : enginePrefix? ('_' :: '(' :: rest) = none := by
    have hchar : isEngineChar '_' = true ∧ isEngineChar '(' = false := by decide
    simp [enginePrefix?, hchar]
  simp [Part.parse, h, hprefix]

theorem replacePair_append_of_not_mem {s : List Char} (h : '\\' ∉ s) (t : List Char) :
    replacePair '\\' '|' '|' (s ++ t) = s ++ replacePair '\\' '|' '|' t := by
  induction s with
  | nil => rfl
  | cons c s ih =>
    obtain ⟨hc, hs⟩ : '\\' ≠ c ∧ '\\' ∉ s := by simpa using h
    rw [List.cons_append, replacePair_cons_of_ne (Ne.symm hc), ih hs, List.cons_append]

variable {q : Quoting} {s t : List Char}

theorem not_mem_quotes (q : Quoting) : '\\' ∉ q.quotes ∧ '|' ∉ q.quotes ∧ '\x7d' ∉ q.quotes := by
  unfold Quoting.quotes
  rcases q.isQuote with h | h <;> rw [h] <;> split <;> decide

theorem literalCall_eq (q : Quoting) (t : List Char) :
    literalCall q t = ('_' :: '(' :: q.quotes) ++ (t ++ (q.quotes ++ [')'])) := by
  simp [literalCall, Quoting.enclose]

theorem replacePair_literalCall (q : Quoting) (t : List Char) :
    replacePair '\\' '|' '|' (literalCall q t) =
      literalCall q (replacePair '\\' '|' '|' t) := by
  obtain ⟨hslash, hpipe, -⟩ := not_mem_quotes q
  have hhead : ∀ c ∈ (q.quotes ++ [')']).head?, c ≠ '|' := by
    rintro c hc rfl
    have hmem := List.mem_of_mem_head? hc
    simp [hpipe] at hmem
  rw [literalCall_eq, literalCall_eq, replacePair_append_of_not_mem (by simpa using hslash),
    replacePair_append hhead,
    replacePair_of_not_mem (s := q.quotes ++ [')']) (by simpa using hslash)]

theorem pipesEscaped_append_plain {s : List Char} (hslash : '\\' ∉ s) (hpipe : '|' ∉ s)
    (t : List Char) : pipesEscaped false (s ++ t) = pipesEscaped false t := by
  induction s with
  | nil => rfl
  | cons c s ih =>
    obtain ⟨hc, hs⟩ : '\\' ≠ c ∧ '\\' ∉ s := by simpa using hslash
    obtain ⟨hc', hs'⟩ : '|' ≠ c ∧ '|' ∉ s := by simpa using hpipe
    rw [List.cons_append, pipesEscaped, bne_iff_ne.2 (Ne.symm hc'), beq_false_of_ne (Ne.symm hc),
      ih hs hs']
    rfl

theorem pipesEscaped_literalCall (q : Quoting) (t : List Char) :
    pipesEscaped false (literalCall q t) = pipesEscaped false t := by
  obtain ⟨hslash, hpipe, -⟩ := not_mem_quotes q
  rw [literalCall_eq, pipesEscaped_append_plain (by simpa using hslash) (by simpa using hpipe),
    pipesEscaped_append_of_not_mem (by simpa using hpipe)]

theorem escapePipes_of_not_mem {s : List Char} (h : '|' ∉ s) : escapePipes s = s := by
  induction s with
  | nil => rfl
  | cons c s ih =>
    obtain ⟨hc, hs⟩ : '|' ≠ c ∧ '|' ∉ s := by simpa using h
    rw [escapePipes_cons, if_neg (Ne.symm hc), ih hs, List.singleton_append]

theorem escapePipes_literalCall (q : Quoting) (t : List Char) :
    escapePipes (literalCall q t) = literalCall q (escapePipes t) := by
  obtain ⟨-, hpipe, -⟩ := not_mem_quotes q
  have happend : ∀ a b, escapePipes (a ++ b) = escapePipes a ++ escapePipes b := by
    intro a b
    simp [escapePipes]
  rw [literalCall_eq, literalCall_eq, happend, happend,
    escapePipes_of_not_mem (s := '_' :: '(' :: q.quotes) (by simpa using hpipe),
    escapePipes_of_not_mem (s := q.quotes ++ [')']) (by simpa using hpipe)]

theorem pythonParts_literalCall (q : Quoting) (h : pipesEscaped false t) :
    pythonParts (literalCall q t) .python =
      [String.ofList (literalCall q (replacePair '\\' '|' '|' t))] := by
  have hparse := parse_of_call .python
    ((congrArg _ (q.trim_literalCall t)).trans (replacePair_literalCall q t))
  rw [← pipesEscaped_literalCall q] at h
  rw [pythonParts, split, splitPipes_of_pipesEscaped h, List.map_singleton, hparse]
  rfl

/-! ### Calls whose pipes stand behind backslashes -/

theorem accepted?_of_last {body : List Char} (h : isAcceptable .python body) :
    accepted? .python (body ++ ['\x7d']) = some (body, []) := by
  refine accepted?_eq rfl h fun inner rest hbody hlt => ?_
  have hlen := congrArg List.length hbody
  simp only [List.length_append, List.length_cons, List.length_nil] at hlen
  omega

/-- The call is found without the backslashes of its pipes, if the literal is one without them. -/
theorem interpolations_literalCall (hpipes : pipesEscaped false t)
    (hescapes : q.Escapes (replacePair '\\' '|' '|' t) s) :
    interpolations .python (interpolated (literalCall q t)) =
      .ok [⟨String.ofList (literalCall q (replacePair '\\' '|' '|' t)), 0⟩] := by
  have hparts := pythonParts_literalCall q hpipes
  have hgood : isAcceptable .python (literalCall q t) := by
    simpa [isAcceptable, hparts] using hescapes.isExpression_literalCall
  have hopening : opening? false 0 (interpolated (literalCall q t)) =
      some (0, literalCall q t ++ ['\x7d']) := by
    rw [interpolated, opening?]
    rfl
  have hend : ∀ offset, interpolationsFrom .python offset [] = .ok [] := by
    intro offset
    rw [interpolationsFrom]
    rfl
  rw [interpolations, interpolationsFrom_of_opening hopening (accepted?_of_last hgood), hend]
  simp [codeAt, hparts, Except.map]

/-! ### Calls with a pipe that stands alone -/

theorem isAcceptable_openCall {x : List Char} {more : List (List Char)}
    (h : splitPipes false x = ('_' :: '(' :: q.quote :: q.escape s) :: more) :
    isAcceptable .python x = false := by
  obtain ⟨w, hw, hblank⟩ := exists_trimRight_append (q.escape s)
  let u := replacePair '\\' '|' '|' (trimRight (q.escape s))
  have hu : u <+: replacePair '\\' '|' '|' (q.escape s) := by
    have hhead : ∀ c ∈ w.head?, c ≠ '|' := by
      rintro c hc rfl
      have := hblank _ (List.mem_of_mem_head? hc)
      simp [isBlank] at this
    rw [hw, replacePair_append hhead]
    exact List.prefix_append _ _
  have hparse : Part.parse .python ('_' :: '(' :: q.quote :: q.escape s) =
      ⟨"python", String.ofList ('_' :: '(' :: q.quote :: u)⟩ := by
    refine parse_of_call .python ?_
    rw [q.trim_openCall, replacePair_cons_of_ne (by decide), replacePair_cons_of_ne (by decide),
      replacePair_cons_of_ne q.quote_ne_backslash]
  have hnone := (escapes_replacePair q s).isExpression_openCall hu
  have hmem : String.ofList ('_' :: '(' :: q.quote :: u) ∈ pythonParts x .python := by
    rw [pythonParts, split, h, List.map_cons, hparse]
    simp [Engine.name]
  rw [← Bool.not_eq_true]
  intro hall
  have := List.all_eq_true.1 hall _ hmem
  rw [hnone] at this
  cases this

theorem getLast?_escape_ne {s : List Char} (h : s.getLast? ≠ some '\\') :
    (q.escape s).getLast? ≠ some '\\' := by
  rcases List.eq_nil_or_concat' s with rfl | ⟨s, c, rfl⟩
  · simp [Quoting.escape]
  · have hc : c ≠ '\\' := by simpa using h
    have happend : q.escape (s ++ [c]) = q.escape s ++ q.escapeChar c := by simp [Quoting.escape]
    rw [happend]
    rcases escapeChar_eq_or q c with ⟨hwritten, -⟩ | ⟨d, hwritten, -, -, -, hslash⟩
    · simpa [hwritten] using hc
    · simpa [hwritten] using fun hd => hc (hslash.1 hd)

/-- The call up to a place inside of its literal is cut only at pipes of the literal. -/
theorem pipesEscaped_openCall (q : Quoting) (s : List Char) :
    pipesEscaped false ('_' :: '(' :: q.quote :: q.escape s) = pipesEscaped false s := by
  have hquote : '|' ≠ q.quote := by rcases q.isQuote with hq | hq <;> rw [hq] <;> decide
  have hstart := pipesEscaped_append_plain (s := ['_', '(', q.quote])
    (by simpa using q.quote_ne_backslash.symm) (by simpa using hquote) (q.escape s)
  exact hstart.trans (pipesEscaped_escape q false s)

/-- No part of the call in front of a closing brace is acceptable: it ends inside of the literal, or
its first alternative does. -/
theorem accepted?_openPipe (h : pipesEscaped false s = false) (tail : List Char) :
    accepted? .python ('_' :: '(' :: q.quote :: (q.escape s ++ tail)) = none := by
  obtain ⟨a, b, rfl, ha, -, hlast⟩ := exists_open_pipe h
  let start := '_' :: '(' :: q.quote :: q.escape a
  have hbody : '_' :: '(' :: q.quote :: (q.escape (a ++ '|' :: b) ++ tail) =
      start ++ '|' :: (q.escape b ++ tail) := by
    simp [start, Quoting.escape, escapeChar_pipe]
  have hstart : start.getLast? ≠ some '\\' := by
    have hparts : start = ['_', '(', q.quote] ++ q.escape a := rfl
    rw [hparts, List.getLast?_append]
    cases hwritten : (q.escape a).getLast? with
    | none => simpa using q.quote_ne_backslash
    | some c => simpa [hwritten] using getLast?_escape_ne (q := q) hlast
  rw [hbody]
  cases hfound : accepted? .python (start ++ '|' :: (q.escape b ++ tail)) with
  | none => rfl
  | some found =>
    obtain ⟨inner, rest⟩ := found
    obtain ⟨hcut, hgood⟩ := accepted?_eq_some hfound
    have hbad : isAcceptable .python inner = false := by
      rcases List.append_eq_append_iff.1 hcut with ⟨u, rfl, hu⟩ | ⟨u, hu, hrest⟩
      · rcases u with _ | ⟨c, u⟩
        · cases hu
        · obtain ⟨rfl, -⟩ := List.cons.inj hu
          exact isAcceptable_openCall
            (splitPipes_append_pipe ((pipesEscaped_openCall q a).trans ha) (by simp) hstart u)
      · rcases u with _ | ⟨c, u⟩
        · cases hrest
        · obtain ⟨rfl, -⟩ := List.cons.inj hrest
          have hquote : '\x7d' ≠ q.quote := by rcases q.isQuote with hq | hq <;> rw [hq] <;> decide
          obtain ⟨v, rfl, hv⟩ :=
            append_cons_eq (a := ['_', '(', q.quote]) (by simpa using hquote) hu
          obtain ⟨s₁, ⟨s₂, rfl⟩, rfl⟩ := exists_of_escape_eq q hv
          exact isAcceptable_openCall
            (splitPipes_of_pipesEscaped ((pipesEscaped_openCall q s₁).trans (pipesEscaped_append ha)))
    rw [hbad] at hgood
    cases hgood

/-- An interpolation that no brace closes well ends the search. -/
theorem interpolations_of_accepted?_eq_none {body : List Char} (hbrace : '\x7d' ∈ body)
    (h : accepted? .python body = none) :
    interpolations .python ('$' :: '\x7b' :: body) =
      .error (String.ofList ('$' :: '\x7b' :: body)) := by
  have hopening : opening? false 0 ('$' :: '\x7b' :: body) = some (0, body) := by
    rw [opening?]
    rfl
  rw [interpolations, interpolationsFrom.eq_def]
  split
  · next ho =>
    rw [hopening] at ho
    cases ho
  · next ho =>
    obtain ⟨rfl, rfl⟩ := Prod.mk.inj (Option.some.inj (hopening.symm.trans ho))
    rw [if_neg (by simpa using hbrace)]
    split
    · rfl
    · next ha =>
      rw [h] at ha
      cases ha

theorem interpolations_openPipe (hsingle : q.isTriple = false) (h : pipesEscaped false s = false) :
    interpolations .python (interpolated (literalCall q (q.escape s))) =
      .error (String.ofList (interpolated (literalCall q (q.escape s)))) := by
  have hbody : literalCall q (q.escape s) ++ ['\x7d'] =
      '_' :: '(' :: q.quote :: (q.escape s ++ [q.quote, ')', '\x7d']) := by
    simp [literalCall, Quoting.enclose, Quoting.quotes, hsingle]
  have hnone := accepted?_openPipe (q := q) h [q.quote, ')', '\x7d']
  rw [← hbody] at hnone
  exact interpolations_of_accepted?_eq_none (by simp) hnone

end PotExtract.Tales
