import PotExtract.Tales.Expression
import PotExtract.Python.Expression

/-! Interpolations: expressions between a dollar sign with an opening brace and a closing brace. The
closing brace is the last one that leaves only valid code in front of it. A backslash in front of
the dollar sign makes it plain text. -/

namespace PotExtract.Tales

open Text

/-- Code found in an interpolation, with the place of its dollar sign in bytes. -/
structure Interpolation where
  code : String
  offset : Nat
  deriving DecidableEq, Repr

/-- The place of the next interpolation, and the text behind its opening brace. The text starts at
byte `offset`, behind a backslash if `escaped`. -/
def opening? (escaped : Bool) (offset : Nat) : List Char → Option (Nat × List Char)
  | '$' :: '{' :: s => if escaped then opening? false (offset + 2) s else some (offset, s)
  | c :: s => opening? (c == '\\') (offset + c.utf8Size) s
  | [] => none

/-- Whether all Python code of an expression is valid. -/
def isAcceptable (engine : Engine) (expression : List Char) : Bool :=
  (pythonParts expression engine).all Python.isExpression

/-- The parts in front of and behind the last closing brace in front of which an acceptable expression
ends. The expression starts with `before`, which is in reverse. -/
def lastClosing? (isGood : List Char → Bool) (before : List Char) :
    List Char → Option (List Char × List Char)
  | [] => none
  | c :: s =>
    match lastClosing? isGood (c :: before) s with
    | some found => some found
    | none => if c = '\x7d' ∧ isGood before.reverse then some (before.reverse, s) else none

/-- The last closing brace that leaves an acceptable expression. -/
def accepted? (engine : Engine) (body : List Char) : Option (List Char × List Char) :=
  lastClosing? (isAcceptable engine) [] body

theorem length_opening?_lt {escaped : Bool} {offset start : Nat} {s body : List Char}
    (h : opening? escaped offset s = some (start, body)) : body.length < s.length := by
  fun_induction opening? escaped offset s with
  | case1 offset s ih =>
    have := ih h
    simp only [List.length_cons]
    omega
  | case2 offset s =>
    cases h
    simp only [List.length_cons]
    omega
  | case3 escaped offset c s _ ih =>
    have := ih h
    simp only [List.length_cons]
    omega
  | case4 => simp at h

theorem lastClosing?_eq_some {isGood : List Char → Bool} {before s inner rest : List Char}
    (h : lastClosing? isGood before s = some (inner, rest)) :
    before.reverse ++ s = inner ++ '\x7d' :: rest ∧ isGood inner := by
  fun_induction lastClosing? isGood before s with
  | case1 => simp at h
  | case2 before c s found hf ih =>
    cases h
    exact ⟨by simpa using (ih hf).1, (ih hf).2⟩
  | case3 before c s _ hc =>
    cases h
    exact ⟨by rw [hc.1], hc.2⟩
  | case4 => simp at h

theorem accepted?_eq_some {engine : Engine} {body inner rest : List Char}
    (h : accepted? engine body = some (inner, rest)) :
    body = inner ++ '\x7d' :: rest ∧ isAcceptable engine inner :=
  lastClosing?_eq_some h

theorem length_accepted?_lt {engine : Engine} {body inner rest : List Char}
    (h : accepted? engine body = some (inner, rest)) : rest.length < body.length := by
  rw [(accepted?_eq_some h).1, List.length_append, List.length_cons]
  omega

/-- The interpolations of the text that starts at byte `offset`. -/
def interpolationsFrom (engine : Engine) (offset : Nat) (s : List Char) :
    Except String (List Interpolation) :=
  match ho : opening? false offset s with
  | none => .ok []
  | some (start, body) =>
    if !body.contains '}' then .ok []
    else
      match ha : accepted? engine body with
      | none => .error (String.ofList ('$' :: '{' :: body))
      | some (inner, rest) =>
        have : rest.length < s.length :=
          Nat.lt_trans (length_accepted?_lt ha) (length_opening?_lt ho)
        let found := (pythonParts inner engine).map fun code => ⟨code, start⟩
        (interpolationsFrom engine (start + 2 + byteLength inner + 1) rest).map (found ++ ·)
  termination_by s.length

/-- The code of all interpolations of a text, or the text from the first one that has no acceptable
closing brace. An interpolation without any closing brace ends the search. -/
def interpolations (engine : Engine) (s : List Char) : Except String (List Interpolation) :=
  interpolationsFrom engine 0 s

end PotExtract.Tales
