/-! Cutting a text: at a prefix, at the first or last occurrence of a character, at a pattern, and
the length of a text in bytes. -/

namespace PotExtract.Text

/-- What follows `pre`, if the text starts with it. -/
def after? : (pre s : List Char) → Option (List Char)
  | [], s => some s
  | _ :: _, [] => none
  | p :: pre, c :: s => if p = c then after? pre s else none

theorem after?_eq_some {pre s rest : List Char} (h : after? pre s = some rest) :
    s = pre ++ rest := by
  induction pre generalizing s with
  | nil => simpa [after?] using h
  | cons p pre ih =>
    cases s with
    | nil => simp [after?] at h
    | cons c s =>
      simp only [after?] at h
      split at h
      · next hc => rw [hc, ih h, List.cons_append]
      · simp at h

theorem after?_append (pre s : List Char) : after? pre (pre ++ s) = some s := by
  induction pre with
  | nil => rfl
  | cons c pre ih => simpa [after?] using ih

/-- The parts before and after the first `c`. -/
def cut? (c : Char) : List Char → Option (List Char × List Char)
  | [] => none
  | d :: s => if d = c then some ([], s) else (cut? c s).map fun (a, b) => (d :: a, b)

theorem cut?_eq_some {c : Char} {s a b : List Char} (h : cut? c s = some (a, b)) :
    s = a ++ c :: b := by
  induction s generalizing a with
  | nil => simp [cut?] at h
  | cons d s ih =>
    simp only [cut?] at h
    split at h
    · next hd =>
      cases h
      rw [hd, List.nil_append]
    · obtain ⟨⟨x, y⟩, hx, he⟩ := Option.map_eq_some_iff.1 h
      cases he
      rw [ih hx, List.cons_append]

theorem not_mem_of_cut? {c : Char} {s a b : List Char} (h : cut? c s = some (a, b)) : c ∉ a := by
  induction s generalizing a with
  | nil => simp [cut?] at h
  | cons d s ih =>
    simp only [cut?] at h
    split at h
    · cases h
      exact List.not_mem_nil
    · next hd =>
      obtain ⟨⟨x, y⟩, hx, he⟩ := Option.map_eq_some_iff.1 h
      cases he
      exact List.not_mem_cons_of_ne_of_not_mem (Ne.symm hd) (ih hx)

theorem cut?_append_cons {c : Char} {a : List Char} (h : c ∉ a) (b : List Char) :
    cut? c (a ++ c :: b) = some (a, b) := by
  induction a with
  | nil => simp [cut?]
  | cons d a ih =>
    obtain ⟨hd, ha⟩ : c ≠ d ∧ c ∉ a := by simpa using h
    rw [List.cons_append, cut?, if_neg (Ne.symm hd), ih ha]
    rfl

theorem length_cut?_lt {c : Char} {s a b : List Char} (h : cut? c s = some (a, b)) :
    b.length < s.length := by
  rw [cut?_eq_some h, List.length_append, List.length_cons]
  omega

/-- The parts before and after the last `c`. -/
def cutLast? (c : Char) (s : List Char) : Option (List Char × List Char) :=
  (cut? c s.reverse).map fun (a, b) => (b.reverse, a.reverse)

/-- The text in front of the first occurrence of `pattern`, and the text after it. -/
def cutAt? (pattern : List Char) : List Char → Option (List Char × List Char)
  | [] => if pattern = [] then some ([], []) else none
  | c :: s =>
    match after? pattern (c :: s) with
    | some rest => some ([], rest)
    | none => (cutAt? pattern s).map fun (a, b) => (c :: a, b)

theorem cutAt?_eq_some {pattern s a b : List Char} (h : cutAt? pattern s = some (a, b)) :
    s = a ++ pattern ++ b := by
  induction s generalizing a with
  | nil =>
    simp only [cutAt?, Option.ite_none_right_eq_some] at h
    obtain ⟨rfl, h⟩ := h
    cases h
    rfl
  | cons c s ih =>
    simp only [cutAt?] at h
    split at h
    · next ha =>
      cases h
      rw [after?_eq_some ha, List.nil_append]
    · obtain ⟨⟨x, y⟩, hx, he⟩ := Option.map_eq_some_iff.1 h
      cases he
      rw [ih hx, List.cons_append, List.cons_append]

theorem length_cutAt?_le {pattern s a b : List Char} (h : cutAt? pattern s = some (a, b)) :
    b.length ≤ s.length := by
  rw [cutAt?_eq_some h, List.length_append]
  omega

/-- Whether `pattern` occurs in the text. -/
def contains (pattern s : List Char) : Bool :=
  (cutAt? pattern s).isSome

/-- Every two characters `a b` in a row, taken from the left, written as `c`. -/
def replacePair (a b c : Char) : List Char → List Char
  | [] => []
  | [x] => [x]
  | x :: y :: s =>
    if x = a ∧ y = b then c :: replacePair a b c s else x :: replacePair a b c (y :: s)

/-- The length of the text in UTF-8. -/
def byteLength : List Char → Nat
  | [] => 0
  | c :: s => c.utf8Size + byteLength s

/-- The number of line feeds. -/
def lineFeeds (s : List Char) : Nat :=
  s.count '\n'

/-- The number of line feeds that start before byte `offset`. -/
def lineFeedsBefore : (offset : Nat) → List Char → Nat
  | _, [] => 0
  | 0, _ => 0
  | offset + 1, c :: s =>
    lineFeedsBefore (offset + 1 - c.utf8Size) s + if c = '\n' then 1 else 0

/-- The text from byte `offset` on, unless that is inside of a character. -/
def dropBytes? : (offset : Nat) → List Char → Option (List Char)
  | 0, s => some s
  | _ + 1, [] => none
  | offset + 1, c :: s =>
    if c.utf8Size ≤ offset + 1 then dropBytes? (offset + 1 - c.utf8Size) s else none

/-- The first `size` bytes of the text, unless they end inside of a character. -/
def takeBytes? : (size : Nat) → List Char → Option (List Char)
  | 0, _ => some []
  | _ + 1, [] => none
  | size + 1, c :: s =>
    if c.utf8Size ≤ size + 1 then (takeBytes? (size + 1 - c.utf8Size) s).map (c :: ·) else none

end PotExtract.Text
