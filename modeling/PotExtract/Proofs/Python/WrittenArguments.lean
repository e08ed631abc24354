import Mathlib.Data.List.Forall2
import Mathlib.Data.List.Induction
import PotExtract.Proofs.Python.CallParts

/-! The arguments as they are written, which the commas of a call set apart, and those that its
parts come to. The two correspond as long as each written argument holds a single value, and strings
are taken for its text only where nothing else is written. -/

namespace PotExtract.Python

namespace Part

/-- Whether a part is a string. -/
def isString : Part → Bool
  | .string _ => true
  | _ => false

/-- The text of a part that is a string without anything to be filled in. -/
def text? : Part → Option String
  | .string literal => (Value.ofLiteral literal).text?
  | _ => none

end Part

/-- What is written between the commas. Nothing but comments, as behind a last comma, is no
argument. -/
def written (ps : List Part) : List (List Part) :=
  (ps.splitOn .comma).filter (·.any (· ≠ .comment))

/-- The name of a written argument and what is written for its value. -/
def splitLabel (piece : List Part) : Option String × List Part :=
  match piece.dropWhile (· = .comment) with
  | .label name :: value => (some name, value)
  | value => (none, value)

/-- The text of adjacent strings. -/
def joined? : List Part → Option String
  | [] => some ""
  | .comment :: ps => joined? ps
  | p :: ps => p.text?.bind fun s => (joined? ps).map (s ++ ·)

/-- The text of a value that is written as strings alone. -/
def literal? (value : List Part) : Option String :=
  if value.any (· ≠ .comment) then joined? value else none

/-- The text of a written argument, if nothing but strings is written for its value. -/
def writtenText? (piece : List Part) : Option String :=
  literal? (splitLabel piece).2

/-- An argument has the name of the written one and exactly its text. -/
def Reads (piece : List Part) (a : Argument) : Prop :=
  a.name = (splitLabel piece).1 ∧ a.value.text? = writtenText? piece

/-- The parts of a written argument come to a single argument under its name, which is a text only
if nothing but strings is written. -/
def IsPlain (piece : List Part) : Prop :=
  ∃ a, (gather piece).arguments = [a] ∧ (gather piece).pendingName = none ∧
    a.name = (splitLabel piece).1 ∧
    (a.value.text?.isSome → ∀ p ∈ (splitLabel piece).2, p.isString ∨ p = .comment)

/-- What parts come to corresponds to the arguments written in them. -/
def Matches (ps : List Part) : Prop :=
  (gather ps).pendingName = none ∧ List.Forall₂ Reads (written ps) (gather ps).arguments

/-- A row of parts goes up to a comma of another one, or up to its end. -/
def IsFront (qs ps : List Part) : Prop :=
  qs = ps ∨ ∃ rs, ps = qs ++ .comma :: rs

/-! ### Strings alone -/

theorem Value.text?_append (v w : Value) :
    (v.append w).text? = v.text?.bind fun s => w.text?.map (s ++ ·) := by
  cases v <;> cases w <;> rfl

theorem joined?_string (literal : String) (ps : List Part) :
    joined? (.string literal :: ps) =
      (Value.ofLiteral literal).text?.bind fun s => (joined? ps).map (s ++ ·) :=
  rfl

theorem eq_string_of_isString {p : Part} (h : p.isString) : ∃ literal, p = .string literal := by
  cases p with
  | string literal => exact ⟨literal, rfl⟩
  | _ => cases h

theorem isString_of_joined? {ps : List Part} (h : (joined? ps).isSome) :
    ∀ p ∈ ps, p.isString ∨ p = .comment := by
  induction ps with
  | nil => simp
  | cons p ps ih =>
    cases p with
    | comment => simpa using ih h
    | string literal =>
      have hps : (joined? ps).isSome := by
        rw [joined?_string] at h
        cases hj : joined? ps with
        | none => simp [hj] at h
        | some t => rfl
      simpa [Part.isString] using ih hps
    | _ => simp [joined?, Part.text?] at h

theorem foldl_note_strings {ps : List Part} (h : ∀ p ∈ ps, p.isString ∨ p = .comment)
    (name : Option String) (v : Value) :
    ∃ w, ps.foldl Gathered.note ⟨[⟨name, v⟩], none, true⟩ = ⟨[⟨name, w⟩], none, true⟩ ∧
      w.text? = v.text?.bind fun s => (joined? ps).map (s ++ ·) := by
  induction ps generalizing v with
  | nil => exact ⟨v, rfl, by simp [joined?]⟩
  | cons p ps ih =>
    obtain ⟨hp, hps⟩ := List.forall_mem_cons.1 h
    rcases hp with hp | rfl
    · obtain ⟨literal, rfl⟩ := eq_string_of_isString hp
      obtain ⟨w, hw, htext⟩ := ih hps (v.append (.ofLiteral literal))
      refine ⟨w, hw, ?_⟩
      rw [htext, Value.text?_append, joined?_string]
      cases v.text? <;> cases (Value.ofLiteral literal).text? <;> cases joined? ps <;>
        simp [String.append_assoc]
    · exact ih hps v

/-- Strings with nothing but comments between them come to a single argument. -/
theorem foldl_note_value {ps : List Part} (h : ∀ p ∈ ps, p.isString ∨ p = .comment)
    (hps : ps.any (· ≠ .comment)) (name : Option String) :
    ∃ w, ps.foldl Gathered.note { pendingName := name } = ⟨[⟨name, w⟩], none, true⟩ ∧
      w.text? = literal? ps := by
  rw [literal?, if_pos hps]
  induction ps with
  | nil => simp at hps
  | cons p ps ih =>
    obtain ⟨hp, h'⟩ := List.forall_mem_cons.1 h
    rcases hp with hp | rfl
    · obtain ⟨literal, rfl⟩ := eq_string_of_isString hp
      exact foldl_note_strings h' name (.ofLiteral literal)
    · exact ih h' (by simpa using hps)

/-! ### A single written argument -/

theorem foldl_note_comments {ps : List Part} (h : ¬ ps.any (· ≠ .comment)) (g : Gathered) :
    ps.foldl Gathered.note g = g := by
  induction ps with
  | nil => rfl
  | cons p ps ih =>
    obtain ⟨rfl, h⟩ : p = .comment ∧ ¬ ps.any (· ≠ .comment) := by simpa using h
    exact ih h

theorem gather_eq (piece : List Part) :
    gather piece =
      (splitLabel piece).2.foldl Gathered.note { pendingName := (splitLabel piece).1 } := by
  have hdrop : gather piece = gather (piece.dropWhile (· = .comment)) := by
    induction piece with
    | nil => rfl
    | cons p ps ih =>
      by_cases hp : p = .comment
      · rw [hp, List.dropWhile_cons_of_pos (by simp)]
        exact ih
      · rw [List.dropWhile_cons_of_neg (by simpa using hp)]
  rw [hdrop]
  unfold splitLabel
  split
  · next name value h =>
    rw [h]
    rfl
  · rfl

theorem reads_iff {piece : List Part} {a : Argument} (ha : (gather piece).arguments = [a])
    (hname : a.name = (splitLabel piece).1) :
    Reads piece a ↔
      (a.value.text?.isSome → ∀ p ∈ (splitLabel piece).2, p.isString ∨ p = .comment) := by
  rw [gather_eq] at ha
  by_cases hs : ∀ p ∈ (splitLabel piece).2, p.isString ∨ p = .comment
  · refine ⟨fun _ _ => hs, fun _ => ⟨hname, ?_⟩⟩
    by_cases hany : (splitLabel piece).2.any (· ≠ .comment)
    · obtain ⟨w, hw, htext⟩ := foldl_note_value hs hany (splitLabel piece).1
      rw [hw] at ha
      cases ha
      exact htext
    · rw [foldl_note_comments hany] at ha
      cases ha
  · have hliteral : literal? (splitLabel piece).2 = none := by
      rw [← Option.not_isSome_iff_eq_none]
      intro h
      unfold literal? at h
      split at h
      · exact hs (isString_of_joined? h)
      · cases h
    rw [Reads, writtenText?, hliteral]
    simp [hname, hs]

/-! ### Plain arguments -/

theorem isPlain_of_strings {piece : List Part} (hany : (splitLabel piece).2.any (· ≠ .comment))
    (hs : ∀ p ∈ (splitLabel piece).2, p.isString ∨ p = .comment) : IsPlain piece := by
  obtain ⟨w, hw, -⟩ := foldl_note_value hs hany (splitLabel piece).1
  rw [IsPlain, gather_eq, hw]
  exact ⟨_, rfl, rfl, rfl, fun _ => hs⟩

/-- Whether a part adds no argument and names none. -/
def Part.isIdle : Part → Bool
  | .dot | .comma | .comment | .other => true
  | _ => false

theorem foldl_note_idle {ps : List Part} (h : ∀ p ∈ ps, p.isIdle) (g : Gathered) :
    (ps.foldl Gathered.note g).arguments = g.arguments ∧
      (ps.foldl Gathered.note g).pendingName = g.pendingName := by
  induction ps generalizing g with
  | nil => exact ⟨rfl, rfl⟩
  | cons p ps ih =>
    obtain ⟨hp, hps⟩ := List.forall_mem_cons.1 h
    obtain ⟨harguments, hname⟩ := ih hps (g.note p)
    rw [List.foldl_cons, harguments, hname]
    cases p with
    | dot => exact ⟨rfl, rfl⟩
    | comma => exact ⟨rfl, rfl⟩
    | comment => exact ⟨rfl, rfl⟩
    | other => exact ⟨rfl, rfl⟩
    | _ => cases hp

/-- A name, brackets or a number, with at most dots and comments beside it, is plain. -/
theorem isPlain_of_single {piece front behind : List Part} {p : Part}
    (hvalue : (splitLabel piece).2 = front ++ p :: behind) (hp : p = .operand ∨ ∃ s, p = .number s)
    (hfront : ∀ q ∈ front, q.isIdle) (hbehind : ∀ q ∈ behind, q.isIdle) : IsPlain piece := by
  obtain ⟨v, hv, hnote⟩ : ∃ v : Value, v.text? = none ∧ ∀ g : Gathered, g.note p = g.add v := by
    rcases hp with rfl | ⟨s, rfl⟩
    · exact ⟨.dynamic, rfl, fun _ => rfl⟩
    · exact ⟨.number s, rfl, fun _ => rfl⟩
  obtain ⟨hargs, hname⟩ := foldl_note_idle hfront { pendingName := (splitLabel piece).1 }
  rw [IsPlain, gather_eq, hvalue, List.foldl_append, List.foldl_cons, hnote,
    (foldl_note_idle hbehind _).1, (foldl_note_idle hbehind _).2, Gathered.add, hargs, hname]
  exact ⟨_, rfl, rfl, rfl, by simp [hv]⟩

/-! ### One written argument after another -/

namespace Gathered

/-- The same with arguments in front. -/
def prepend (front : List Argument) (g : Gathered) : Gathered :=
  { g with arguments := front ++ g.arguments }

theorem note_prepend {g : Gathered} (hg : g.inString → g.arguments ≠ []) (front : List Argument)
    (p : Part) :
    (g.prepend front).note p = (g.note p).prepend front ∧
      ((g.note p).inString → (g.note p).arguments ≠ []) := by
  have hadd (v : Value) : (g.prepend front).add v = (g.add v).prepend front := by
    simp [add, prepend]
  cases p with
  | string literal =>
    cases hs : g.inString with
    | false =>
      simp only [note, prepend, hs]
      exact ⟨congrArg (fun h : Gathered => { h with inString := true }) (hadd _),
        fun _ => by simp [add]⟩
    | true =>
      obtain ⟨as, last, has⟩ := (List.eq_nil_or_concat' g.arguments).resolve_left (hg hs)
      simp [note, prepend, hs, has, ← List.append_assoc]
  | number written => exact ⟨hadd _, fun h => by simp [note, add] at h⟩
  | operand => exact ⟨hadd _, fun h => by simp [note, add] at h⟩
  | comment => exact ⟨rfl, hg⟩
  | _ => exact ⟨rfl, fun h => by simp [note] at h⟩

theorem foldl_note_prepend {g : Gathered} (hg : g.inString → g.arguments ≠ [])
    (front : List Argument) (ps : List Part) :
    ps.foldl note (g.prepend front) = (ps.foldl note g).prepend front := by
  induction ps generalizing g with
  | nil => rfl
  | cons p ps ih =>
    obtain ⟨hnote, hg'⟩ := note_prepend hg front p
    rw [List.foldl_cons, List.foldl_cons, hnote, ih hg']

end Gathered

/-- What comes behind a comma is gathered anew, but for a name that still waits for a value. -/
theorem gather_append_comma {qs : List Part} (hqs : (gather qs).pendingName = none)
    (rs : List Part) :
    gather (qs ++ .comma :: rs) = (gather rs).prepend (gather qs).arguments := by
  have hcomma : (gather qs).note .comma = ({} : Gathered).prepend (gather qs).arguments := by
    simp [Gathered.note, Gathered.prepend, hqs]
  unfold gather at *
  rw [List.foldl_append, List.foldl_cons, hcomma]
  exact Gathered.foldl_note_prepend (by simp) _ rs

theorem written_append_comma (qs rs : List Part) :
    written (qs ++ .comma :: rs) = written qs ++ written rs := by
  unfold written
  rw [List.splitOn_append_cons_self, List.filter_append]

theorem written_of_notMem {piece : List Part} (h : .comma ∉ piece) :
    written piece = if piece.any (· ≠ .comment) then [piece] else [] := by
  unfold written
  rw [List.splitOn_eq_singleton h, List.filter_singleton, Bool.cond_eq_ite]

theorem matches_of_notMem {piece : List Part} (h : .comma ∉ piece) :
    Matches piece ↔ ∀ p ∈ written piece, IsPlain p := by
  rw [Matches, written_of_notMem h]
  split
  · rw [List.forall_mem_singleton, IsPlain]
    constructor
    · rintro ⟨hname, hargs⟩
      obtain ⟨a, as, hreads, hnil, ha⟩ := List.forall₂_cons_left_iff.1 hargs
      rw [List.forall₂_nil_left_iff.1 hnil] at ha
      exact ⟨a, ha, hname, hreads.1, (reads_iff ha hreads.1).1 hreads⟩
    · rintro ⟨a, ha, hname, hlabel, htext⟩
      rw [ha]
      exact ⟨hname, .cons ((reads_iff ha hlabel).2 htext) .nil⟩
  · next hany =>
    have : gather piece = {} := foldl_note_comments hany {}
    simp [this]

theorem forall₂_append_iff {α β : Type} {R : α → β → Prop} {as cs : List α} {bs ds : List β}
    (h : List.Forall₂ R as bs) :
    List.Forall₂ R (as ++ cs) (bs ++ ds) ↔ List.Forall₂ R cs ds := by
  induction h with
  | nil => rfl
  | cons hab _ ih => simpa [hab] using ih

theorem matches_append_comma {qs : List Part} (hqs : Matches qs) (rs : List Part) :
    Matches (qs ++ .comma :: rs) ↔ Matches rs := by
  obtain ⟨hname, hargs⟩ := hqs
  rw [Matches, Matches, gather_append_comma hname, written_append_comma]
  exact and_congr_right fun _ => forall₂_append_iff hargs

/-- A row of parts is a written argument, or ends with one that a comma sets apart. -/
theorem written_induction {motive : List Part → Prop}
    (single : ∀ piece, .comma ∉ piece → motive piece)
    (snoc : ∀ qs piece, .comma ∉ piece → motive qs → motive (qs ++ .comma :: piece))
    (ps : List Part) : motive ps := by
  suffices h : ∀ piece, .comma ∉ piece → motive (ps ++ piece) by simpa using h [] (by simp)
  induction ps using List.reverseRecOn with
  | nil => exact single
  | append_singleton ps p ih =>
    intro piece hpiece
    rw [List.append_assoc]
    by_cases hp : p = .comma
    · rw [hp]
      exact snoc ps piece hpiece (by simpa using ih [] (by simp))
    · exact ih (p :: piece) (by simp [hpiece, Ne.symm hp])

theorem isFront_append_comma {qs qs' piece : List Part} (h : .comma ∉ piece) :
    IsFront qs' (qs ++ .comma :: piece) ↔ qs' = qs ++ .comma :: piece ∨ IsFront qs' qs := by
  refine or_congr_right ⟨?_, ?_⟩
  · rintro ⟨rs, hrs⟩
    rcases List.append_eq_append_iff.1 hrs with ⟨as, rfl, has⟩ | ⟨as, rfl, has⟩
    · cases as with
      | nil => exact .inl (by simp)
      | cons a as =>
        rw [List.cons_append, List.cons.injEq] at has
        exact absurd (has.2 ▸ by simp) h
    · cases as with
      | nil => exact .inl (by simp)
      | cons a as =>
        rw [List.cons_append, List.cons.injEq] at has
        exact .inr ⟨as, by rw [has.1]⟩
  · rintro (rfl | ⟨rs, rfl⟩)
    · exact ⟨piece, rfl⟩
    · exact ⟨rs ++ .comma :: piece, by simp⟩

/-- What parts come to corresponds, up to each comma and up to the end, to the arguments written,
exactly if these are plain. -/
theorem forall_matches_iff (ps : List Part) :
    (∀ qs, IsFront qs ps → Matches qs) ↔ ∀ piece ∈ written ps, IsPlain piece := by
  induction ps using written_induction with
  | single piece h =>
    have : ∀ qs, IsFront qs piece ↔ qs = piece := by
      refine fun qs => ⟨?_, .inl⟩
      rintro (rfl | ⟨rs, rfl⟩)
      · rfl
      · simp at h
    simp only [this, forall_eq]
    exact matches_of_notMem h
  | snoc qs piece h ih =>
    simp only [isFront_append_comma h, or_imp, forall_and, forall_eq, written_append_comma,
      List.mem_append]
    rw [← ih, ← matches_of_notMem h, and_comm]
    exact and_congr_right fun hqs => matches_append_comma (hqs qs (.inl rfl)) piece

end PotExtract.Python
