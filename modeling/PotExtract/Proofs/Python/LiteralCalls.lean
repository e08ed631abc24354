import PotExtract.Proofs.Python.AdjacentStrings
import PotExtract.Proofs.Python.ClosingBrace

/-! A call of the underscore with one string literal. It is an expression and gives one message, and
no part of it that ends inside of the literal is an expression. -/

namespace PotExtract.Python

open Text

/-- The call of the underscore with the literal of what a text between the quotes denotes. -/
def literalCall (q : Quoting) (t : List Char) : List Char :=
  '_' :: '(' :: q.enclose t ++ [')']

namespace Quoting

variable {q : Quoting} {t s : List Char}

theorem ne_quote_of_parenthesis (q : Quoting) : ∀ d ∈ [')'].head?, d ≠ q.quote := by
  intro d hd
  obtain rfl : ')' = d := Option.some.inj hd
  rcases q.isQuote with hq | hq <;> rw [hq] <;> decide

theorem Escapes.scan_literalCall (h : q.Escapes t s) (ctx : ScanContext)
    (hkey : ctx.options.keywords.contains underscore = false) (hne : s ≠ []) :
    ∃ m, scan ctx (String.ofList (literalCall q t)) = .ok [m] ∧ m.id = String.ofList s ∧
      m.context = none ∧ m.pluralId = none := by
  obtain ⟨n, hy⟩ := Cursor.yields_enclosed (c := insideCall (q.enclose t)) h Nat.one_pos rfl
    q.ne_quote_of_parenthesis
  refine scan_call hkey hne hy rfl rfl fun state hstate => ?_
  obtain ⟨state', htake, hstate'⟩ := hstate.take_string ctx (String.ofList (q.enclose t)) 1
  rw [ScanState.addString_first h] at hstate'
  exact ⟨state', ScanState.takeAll_singleton htake, hstate'⟩

theorem trim_literalCall (q : Quoting) (t : List Char) :
    trim (literalCall q t) = literalCall q t := by
  have hleft : trimLeft (literalCall q t) = literalCall q t :=
    List.dropWhile_cons_of_neg (by decide)
  rw [trim, hleft]
  exact trimRight_append_cons (by decide) ('_' :: '(' :: q.enclose t) []

theorem trim_openCall (q : Quoting) (u : List Char) :
    trim ('_' :: '(' :: q.quote :: u) = '_' :: '(' :: q.quote :: trimRight u := by
  have hblank : isBlank q.quote = false := by
    rcases q.isQuote with hq | hq <;> rw [hq] <;> decide
  have hleft : trimLeft ('_' :: '(' :: q.quote :: u) = '_' :: '(' :: q.quote :: u :=
    List.dropWhile_cons_of_neg (by decide)
  rw [trim, hleft]
  exact trimRight_append_cons hblank ['_', '('] u

theorem Escapes.isExpression_literalCall (h : q.Escapes t s) :
    isExpression (String.ofList (literalCall q t)) := by
  obtain ⟨n, hy⟩ := Cursor.yields_enclosed (c := insideCall (q.enclose t)) h Nat.one_pos rfl
    q.ne_quote_of_parenthesis
  have htrimmed : trimmed (String.ofList (literalCall q t)) = String.ofList (literalCall q t) := by
    rw [trimmed, String.toList_ofList, trim_literalCall]
  rw [isExpression_eq, htrimmed, literalCall, tokenize_call hy rfl rfl]
  rfl

theorem mayCallUnderscore_literalCall (q : Quoting) (t : List Char) :
    mayCallUnderscore (String.ofList (literalCall q t)) := by
  rw [mayCallUnderscore, String.toList_ofList, literalCall]
  simp [hasCallFrom]

theorem read_quote_of_closeLine {u : List Char} (h : Lexeme.closeLine q.quote u = none) :
    Lexeme.read q.quote u = some (.stray [q.quote], u) := by
  have htwo : u.take 2 ≠ [q.quote, q.quote] := by
    intro htwo
    cases u with
    | nil => cases htwo
    | cons c u =>
      obtain rfl : c = q.quote := (List.cons.inj htwo).1
      rw [Lexeme.closeLine_cons _ q.quote_ne_backslash, if_neg q.not_isLineEnd_quote,
        if_pos rfl] at h
      cases h
  simp [read_quote, Lexeme.readString, htwo, h]

theorem foldTokens?_openCall {u : List Char} (h : Lexeme.closeLine q.quote u = none) :
    Cursor.foldTokens? Beginning.take? {} { rest := '_' :: '(' :: q.quote :: u } = none := by
  have hgap : Cursor.isGap q.quote = false := by
    rcases q.isQuote with hq | hq <;> rw [hq] <;> decide
  let source : Cursor := { rest := '_' :: '(' :: q.quote :: u }
  let behindName := (source.take (.name ['_']) ('(' :: q.quote :: u)).2
  let inside := (behindName.take (.operator ['(']) (q.quote :: u)).2
  have hname : source.step '_' ('(' :: q.quote :: u) = .ok ([⟨.name, "_", 1⟩], behindName) :=
    Cursor.step_of_isSettled (c := source) rfl (read_underscore _)
  have hopen : behindName.step '(' (q.quote :: u) = .ok ([⟨.operator, "(", 1⟩], inside) :=
    Cursor.step_of_isSettled (c := behindName) rfl (Lexeme.read_bracket (by decide) _)
  show source.foldTokens? Beginning.take? {} = none
  rw [Cursor.foldTokens?_of_step rfl hname]
  show behindName.foldTokens? Beginning.take? { last := some ⟨.name, "_", 1⟩ } = none
  rw [Cursor.foldTokens?_of_step rfl hopen]
  show inside.foldTokens? Beginning.take? ⟨[")"], some ⟨.operator, "(", 1⟩⟩ = none
  refine Cursor.foldTokens?_of_read (List.dropWhile_cons_of_neg (by simp [hgap]))
    (read_quote_of_closeLine h) fun d => ?_
  exact Beginning.foldlM_of_isForeign List.mem_cons_self rfl _

/-- No text is an expression that ends between the quotes of the literal. -/
theorem Escapes.isExpression_openCall (h : q.Escapes t s) {u : List Char} (hu : u <+: t) :
    isExpression (String.ofList ('_' :: '(' :: q.quote :: u)) = false := by
  have hopen : Lexeme.closeLine q.quote (trimRight u) = none := by
    obtain ⟨w, hw, -⟩ := exists_trimRight_append u
    obtain ⟨v, rfl⟩ := hu
    cases hclose : Lexeme.closeLine q.quote (trimRight u) with
    | none => rfl
    | some found =>
      have hlonger := Lexeme.closeLine_append (w ++ v) hclose
      rw [← List.append_assoc, ← hw, h.closeLine_eq_none] at hlonger
      cases hlonger
  rw [isExpression, String.toList_ofList, trim_openCall, foldTokens?_openCall hopen]
  rfl

end Quoting

end PotExtract.Python
