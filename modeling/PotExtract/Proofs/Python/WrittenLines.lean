import PotExtract.Proofs.Python.CarriageReturns
import PotExtract.Proofs.Text.LineFeeds

/-! The lines that elements take. Where carriage returns stand in front of line feeds only, an
element takes as many lines as its text has line feeds. -/

namespace PotExtract.Python

open Text

namespace Lexeme

variable {c quote : Char} {s lead text rest : List Char} {l : Lexeme}

/-- The number of lines that end inside of an element. -/
def linesTaken : Lexeme → Nat
  | .joint | .lineEnd => 1
  | .string _ lines => lines
  | _ => 0

theorem getLast?_ne_of_append (lead : List Char) (h : (lead ++ s).getLast? ≠ some c) :
    s.getLast? ≠ some c := by
  intro hs
  exact h (by rw [List.getLast?_append, hs, Option.some_or])

theorem linesInside_eq (hs : PairsReturns s) (hlast : s.getLast? ≠ some '\r') :
    linesInside s = lineFeeds s := by
  fun_induction linesInside s with
  | case1 => rfl
  | case2 s ih =>
    have htail := List.suffix_append ['\\', '\r', '\n'] s
    rw [ih (hs.of_isInfix htail.isInfix) (getLast?_ne_of_append ['\\', '\r', '\n'] hlast)]
    simp [Nat.add_comm]
  | case3 c s hne ih =>
    have htail := List.suffix_append ['\\', c] s
    rw [ih (hs.of_isInfix htail.isInfix) (getLast?_ne_of_append ['\\', c] hlast)]
    -- A carriage return behind the backslash has its line feed, or it is the last character.
    have hreturn : c ≠ '\r' := by
      rintro rfl
      cases s with
      | nil => exact hlast rfl
      | cons d s => exact hne s rfl (congrArg (· :: s) hs.tail.eq_feed)
    simp [hreturn, isLineEnd, Nat.add_comm]
  | case4 c s _ _ ih =>
    rw [ih hs.tail (getLast?_ne_of_append [c] hlast), lineFeeds_cons, Nat.add_comm]

theorem lineFeeds_of_isNameChar (h : ∀ c ∈ s, isNameChar c) : lineFeeds s = 0 :=
  lineFeeds_of_forall isNameChar_of_lineEnd.1 h

theorem lineFeeds_of_readString {tail : List Char} {lines : Nat}
    (hquote : quote = '"' ∨ quote = '\'') (hlead : ∀ d ∈ lead, isNameChar d)
    (hs : PairsReturns tail) (h : readString lead quote tail = some (.string text lines, rest)) :
    lineFeeds text = lines := by
  have hreturn : quote ≠ '\r' ∧ quote ≠ '\n' := by rcases hquote with rfl | rfl <;> decide
  have hbody : ∀ body, body <:+: tail → [quote] <:+ body → linesInside body = lineFeeds body := by
    rintro body hinfix ⟨inner, rfl⟩
    exact linesInside_eq (hs.of_isInfix hinfix) (by simpa using hreturn.1)
  rcases cases_of_readString h with ⟨body, he, htail, hclosed⟩ | ⟨body, he, htail, hclosed, -⟩ |
      ⟨he, -⟩
  · cases he
    have hinfix : body <:+: tail := ⟨[quote, quote], rest, by rw [htail, List.append_assoc]⟩
    rw [hbody body hinfix ((List.suffix_append [quote, quote] [quote]).trans hclosed)]
    simp [lineFeeds_of_isNameChar hlead, hreturn.2]
  · cases he
    rw [hbody body ⟨[], rest, htail.symm⟩ hclosed]
    simp [lineFeeds_of_isNameChar hlead, hreturn.2]
  · cases he

theorem not_mem_takeNumber (hex : Bool) (previous : Char) (s : List Char) :
    '\n' ∉ (takeNumber hex previous s).1 := by
  induction s generalizing previous with
  | nil => simp [takeNumber]
  | cons c s ih =>
    rw [takeNumber]
    split
    · next hc =>
      rw [List.mem_cons, not_or]
      refine ⟨?_, ih c⟩
      rintro rfl
      simp at hc
    · simp

/-- A line end takes one line, a carriage return with its line feed included. -/
theorem lineFeeds_of_afterLineEnd {written : List Char} (hc : isLineEnd c)
    (hs : PairsReturns (c :: s)) (hlast : afterLineEnd (c :: s) = [] → (c :: s).getLast? ≠ some '\r')
    (hw : c :: s = written ++ afterLineEnd (c :: s)) : lineFeeds written = 1 := by
  obtain rfl | rfl : c = '\n' ∨ c = '\r' := by simpa [isLineEnd] using hc
  · obtain rfl : written = ['\n'] := List.append_cancel_right hw.symm
    rfl
  · cases s with
    | nil => exact absurd rfl (hlast rfl)
    | cons d s =>
      obtain rfl := hs.eq_feed
      obtain rfl : written = ['\r', '\n'] := List.append_cancel_right hw.symm
      rfl

/-- An element takes as many lines as its text has line feeds, unless a carriage return ends the
text. -/
theorem lineFeeds_of_read {written : List Char} (hs : PairsReturns (c :: s))
    (hlast : rest = [] → (c :: s).getLast? ≠ some '\r') (h : read c s = some (l, rest))
    (hw : c :: s = written ++ rest) (hl : l.IsWritten written) :
    lineFeeds written = l.linesTaken := by
  have hread := isReadAt_of_read h
  have hfeed : l ≠ .lineEnd → c ≠ '\n' := by
    rintro hl rfl
    rw [read_lineEnd rfl] at h
    cases h
    exact hl rfl
  cases l with
  | comment text =>
    obtain rfl : written = text := hl
    obtain ⟨rfl, rfl, -⟩ := hread
    have hrest : lineFeeds (s.takeWhile (!isLineEnd ·)) = 0 :=
      lineFeeds_of_forall rfl fun d hd => List.mem_takeWhile_imp hd
    simp [hrest, linesTaken]
  | joint =>
    obtain ⟨rfl, d, t, rfl, hd, rfl⟩ := hread
    obtain ⟨w, rfl, hw'⟩ := exists_cons_of_read h hw
    have hlast' := fun hnil => getLast?_ne_of_append ['\\'] (hlast hnil)
    simp [lineFeeds_of_afterLineEnd hd hs.tail hlast' hw', linesTaken]
  | lineEnd =>
    obtain ⟨hend, rfl⟩ := hread
    exact lineFeeds_of_afterLineEnd hend hs hlast hw
  | number text =>
    obtain rfl : written = text := hl
    obtain ⟨hex, rfl, -⟩ := hread
    simp [hfeed, lineFeeds_eq_zero (not_mem_takeNumber hex c s), linesTaken]
  | name text =>
    obtain rfl : written = text := hl
    obtain ⟨-, rfl, -⟩ := hread
    exact lineFeeds_of_isNameChar fun d hd => List.mem_takeWhile_imp hd
  | string text lines =>
    obtain rfl : written = text := hl
    obtain ⟨lead, quote, tail, hquote, hlead, hs', hstring⟩ := hread
    have htail : tail <:+: c :: s := ⟨lead ++ [quote], [], by simp [hs']⟩
    exact lineFeeds_of_readString hquote hlead (hs.of_isInfix htail) hstring
  | operator text =>
    obtain rfl : written = text := hl
    have hlong : ∀ op ∈ longOperators, lineFeeds op = 0 := by decide
    have hpair : ∀ op ∈ pairOperators, lineFeeds op = 0 := by decide
    rcases hread.1 with hmem | hmem | rfl
    · exact hlong _ hmem
    · exact hpair _ hmem
    · simp [hfeed, linesTaken]
  | stray text =>
    obtain rfl : written = text := hl
    obtain ⟨lead, d, rfl, hlead, hd, -⟩ := hread
    have hd : d ≠ '\n' := by
      rintro rfl
      cases hd
    simp [lineFeeds_of_isNameChar hlead, hd, linesTaken]

theorem of_read_name (h : read c s = some (.name text, rest)) :
    text ≠ [] ∧ ∀ d ∈ text, isNameChar d := by
  obtain ⟨hc, rfl, -⟩ := isReadAt_of_read h
  refine ⟨?_, fun d hd => List.mem_takeWhile_imp hd⟩
  rw [List.takeWhile_cons_of_pos (isNameChar_of_isNameStart hc)]
  exact List.cons_ne_nil _ _

end Lexeme

end PotExtract.Python
