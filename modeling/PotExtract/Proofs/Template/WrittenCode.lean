import PotExtract.Template.Scan
import PotExtract.Proofs.Outcome
import PotExtract.Proofs.Tales.ExpressionCode
import PotExtract.Proofs.Text.LineFeeds
import PotExtract.Proofs.Text.Numerals

/-! Code as it is written in a template. Each of its characters stands for itself, or is written by
an entity, by a pipe behind a backslash or by two semicolons. Line ends stand for themselves, so
code has the line feeds of what it is written as. -/

namespace PotExtract.Template

open Text Markup Tales

/-- A text writes a character. -/
inductive Writes : List Char → Char → Prop
  | plain (c : Char) : Writes [c] c
  | entity {name : List Char} {c : Char} : entityChar? name = some c → c ≠ '\n' → c ≠ '\r' →
    Writes ('&' :: (name ++ [';'])) c
  | pipe {w v : List Char} : Writes w '\\' → Writes v '|' → Writes (w ++ v) '|'
  | semicolon {w v : List Char} : Writes w ';' → Writes v ';' → Writes (w ++ v) ';'

/-- A text that writes all characters of another is read as that. -/
inductive Reads : List Char → List Char → Prop
  | nil : Reads [] []
  | cons {w written s : List Char} {c : Char} : Writes w c → Reads written s →
    Reads (w ++ written) (c :: s)

/-! ### What an entity is made of -/

theorem not_mem_of_readNumeral {base limit n : Nat} {s : List Char}
    (h : (readNumeral base limit s).toOption = some n) : '\n' ∉ s := by
  cases hread : readNumeral base limit s with
  | error e =>
    rw [hread] at h
    cases h
  | ok value =>
    have hdigits : ∀ {t}, readDigits base limit 0 t = .ok value → '\n' ∉ t := fun ht hmem =>
      absurd (isAlphanum_of_readDigits ht '\n' hmem) (by decide)
    unfold readNumeral at hread
    split at hread
    · cases hread
    · cases hread
    · simpa using hdigits hread
    · exact hdigits hread

theorem not_mem_of_entityChar? {name : List Char} {c : Char} (h : entityChar? name = some c) :
    '\n' ∉ name := by
  unfold entityChar? at h
  split at h
  · next number =>
    obtain ⟨n, hn, -⟩ := Option.bind_eq_some_iff.1 h
    have hnumber : '\n' ∉ number := by
      unfold referenceCode? at hn
      split at hn <;> simpa using not_mem_of_readNumeral hn
    simpa using hnumber
  · unfold namedChar? at h
    iterate 6
      split at h
      · next hname =>
        rw [hname]
        decide
    cases h

/-! ### The written form of a text -/

namespace Writes

variable {w : List Char} {c : Char}

theorem exists_cons (h : Writes w c) : ∃ d v, w = d :: v ∧ (d = '\n' → c = '\n') := by
  induction h with
  | plain c => exact ⟨c, [], rfl, id⟩
  | entity h _ _ => exact ⟨'&', _, rfl, by simp⟩
  | pipe _ _ ih _ | semicolon _ _ ih _ =>
    obtain ⟨d, v, rfl, hd⟩ := ih
    exact ⟨d, _, rfl, fun h => by simpa using hd h⟩

theorem lineFeeds_eq (h : Writes w c) : lineFeeds w = lineFeeds [c] := by
  induction h with
  | plain c => rfl
  | entity h hfeed _ => simp [lineFeeds_eq_zero (not_mem_of_entityChar? h), hfeed]
  | pipe _ _ ih ih' | semicolon _ _ ih ih' => simp [ih, ih']

theorem eq_return (h : Writes w '\r') : w = ['\r'] := by
  cases h with
  | plain => rfl
  | entity _ _ h => exact absurd rfl h

end Writes

namespace Reads

variable {written v s t : List Char} {c : Char}

theorem append (h : Reads written s) (h' : Reads v t) : Reads (written ++ v) (s ++ t) := by
  induction h with
  | nil => exact h'
  | cons hw _ ih =>
    rw [List.append_assoc]
    exact .cons hw ih

theorem exists_append (h : Reads written (s ++ t)) :
    ∃ a b, written = a ++ b ∧ Reads a s ∧ Reads b t := by
  induction s generalizing written with
  | nil => exact ⟨[], written, rfl, .nil, h⟩
  | cons c s ih =>
    cases h with
    | cons hw hrest =>
      obtain ⟨a, b, rfl, ha, hb⟩ := ih hrest
      exact ⟨_, b, (List.append_assoc ..).symm, .cons hw ha, hb⟩

theorem lineFeeds_eq (h : Reads written s) : lineFeeds written = lineFeeds s := by
  induction h with
  | nil => rfl
  | cons hw _ ih =>
    rw [lineFeeds_append, hw.lineFeeds_eq, ih, ← lineFeeds_append]
    rfl

/-- A carriage return and the line feed behind it are read as they stand. -/
theorem pairsReturns (h : Reads written s) (hw : PairsReturns written) : PairsReturns s := by
  induction h with
  | nil => exact hw
  | @cons w written s c hc hrest ih =>
    have htail := ih (hw.of_isInfix (List.suffix_append w written).isInfix)
    cases hrest with
    | nil => exact List.isChain_singleton c
    | @cons v _ t d hd _ =>
      refine List.isChain_cons_cons.2 ⟨?_, htail⟩
      rintro rfl
      obtain ⟨e, v, rfl, he⟩ := hd.exists_cons
      obtain rfl := hc.eq_return
      exact he hw.eq_feed

/-- A character without entities is written as it is, unless it may stand behind another. -/
theorem eq_singleton (h : Reads written [c]) (hamp : '&' ∉ written) (hpipe : c ≠ '|')
    (hsemicolon : c ≠ ';') : written = [c] := by
  cases h with
  | cons hw hrest =>
    cases hrest with
    | nil =>
      cases hw with
      | plain => rfl
      | entity => simp at hamp
      | pipe => exact absurd rfl hpipe
      | semicolon => exact absurd rfl hsemicolon

end Reads

/-! ### Entities -/

/-- Whether an entity in a text stands for a line end. -/
def encodesLineEnd : List Char → Bool
  | [] => false
  | c :: s =>
    (c == '&' && (entity? s).any fun found => found.1 == '\n' || found.1 == '\r') ||
      encodesLineEnd s

theorem cut?_append {c : Char} {s a b : List Char} (h : cut? c s = some (a, b)) (t : List Char) :
    cut? c (s ++ t) = some (a, b ++ t) := by
  rw [cut?_eq_some h, List.append_assoc, List.cons_append, cut?_append_cons (not_mem_of_cut? h)]

theorem exists_of_entity? {s rest : List Char} {d : Char} (h : entity? s = some (d, rest)) :
    ∃ name, s = name ++ ';' :: rest ∧ entityChar? name = some d := by
  unfold entity? at h
  split at h
  · next name tail hcut =>
    split at h
    · obtain ⟨e, he, hrest⟩ := Option.map_eq_some_iff.1 h
      cases hrest
      exact ⟨name, cut?_eq_some hcut, he⟩
    · cases h
  · cases h

theorem entity?_append {s rest : List Char} {d : Char} (h : entity? s = some (d, rest))
    (t : List Char) : entity? (s ++ t) = some (d, rest ++ t) := by
  unfold entity? at h ⊢
  split at h
  · next name tail hcut =>
    rw [cut?_append hcut t]
    split at h
    · next hlength =>
      obtain ⟨e, he, hrest⟩ := Option.map_eq_some_iff.1 h
      cases hrest
      simp only [hlength, if_true, he, Option.map_some]
    · cases h
  · cases h

theorem encodesLineEnd_of_append {s t : List Char} (h : encodesLineEnd (s ++ t) = false) :
    encodesLineEnd s = false ∧ encodesLineEnd t = false := by
  induction s with
  | nil => exact ⟨rfl, h⟩
  | cons c s ih =>
    simp only [List.cons_append, encodesLineEnd, Bool.or_eq_false_iff] at h ⊢
    obtain ⟨hs, ht⟩ := ih h.2
    refine ⟨⟨?_, hs⟩, ht⟩
    cases hentity : entity? s with
    | none => simp
    | some found =>
      have := h.1
      obtain ⟨d, rest⟩ := found
      rw [entity?_append hentity t] at this
      simpa using this

theorem encodesLineEnd_of_isInfix {s t : List Char} (h : encodesLineEnd s = false)
    (ht : t <:+: s) : encodesLineEnd t = false := by
  obtain ⟨a, b, rfl⟩ := ht
  exact (encodesLineEnd_of_append (encodesLineEnd_of_append h).1).2

theorem reads_decodeEntities {s : List Char} (h : encodesLineEnd s = false) :
    Reads s (decodeEntities s) := by
  fun_induction decodeEntities s with
  | case1 => exact .nil
  | case2 s d rest hentity _ ih =>
    obtain ⟨name, rfl, hname⟩ := exists_of_entity? hentity
    simp only [encodesLineEnd, hentity, Bool.or_eq_false_iff] at h
    have hd : d ≠ '\n' ∧ d ≠ '\r' := by simpa using h.1
    have hrest : encodesLineEnd rest = false :=
      (encodesLineEnd_of_append (s := name ++ [';']) (by simpa using h.2)).2
    have hreads := Reads.cons (.entity hname hd.1 hd.2) (ih hrest)
    simpa using hreads
  | case3 s hentity ih => exact .cons (.plain '&') (ih (encodesLineEnd_of_append (s := ['&']) h).2)
  | case4 c s hc ih => exact .cons (.plain c) (ih (encodesLineEnd_of_append (s := [c]) h).2)

/-! ### Parts of code -/

/-- A part of what is written is read as `code`. -/
def Contains (written code : List Char) : Prop :=
  ∃ before w after, written = before ++ (w ++ after) ∧ Reads w code

namespace Contains

variable {written s t : List Char}

theorem of_reads (h : Reads written s) : Contains written s :=
  ⟨[], written, [], by simp, h⟩

theorem of_isInfix (h : Contains written s) (ht : t <:+: s) : Contains written t := by
  obtain ⟨before, w, after, rfl, hw⟩ := h
  obtain ⟨x, y, rfl⟩ := ht
  obtain ⟨a, b, rfl, ha, hb⟩ := hw.exists_append
  obtain ⟨a, c, rfl, ha, hc⟩ := ha.exists_append
  exact ⟨before ++ a, c, b ++ after, by simp, hc⟩

end Contains

/-- A pipe behind a backslash is read as a pipe. -/
theorem Reads.replacePair {written s : List Char} (h : Reads written s) :
    Reads written (replacePair '\\' '|' '|' s) := by
  fun_induction Text.replacePair '\\' '|' '|' s generalizing written with
  | case1 => exact h
  | case2 c => exact h
  | case3 c d s hpair ih =>
    obtain ⟨rfl, rfl⟩ := hpair
    cases h with
    | cons hslash h =>
      cases h with
      | cons hpipe h =>
        rw [← List.append_assoc]
        exact .cons (.pipe hslash hpipe) (ih h)
  | case4 c d s hpair ih =>
    cases h with
    | cons hc h => exact .cons hc (ih h)

theorem Contains.append_left {written s : List Char} (h : Contains written s) (v : List Char) :
    Contains (v ++ written) s := by
  obtain ⟨before, w, after, rfl, hw⟩ := h
  exact ⟨v ++ before, w, after, by simp, hw⟩

/-- Two semicolons are read as one in a clause. The first clause starts where the text does. -/
theorem reads_splitClauses {written s p : List Char} {ps : List (List Char)}
    (h : Reads written s) (hp : Define.splitClauses s = p :: ps) :
    (∃ a b, written = a ++ b ∧ Reads a p) ∧ ∀ q ∈ ps, Contains written q := by
  -- A character in front of what is cut joins the first clause.
  have hjoin : ∀ {w written : List Char} {c : Char} {clauses : List (List Char)} {p : List Char}
      {ps : List (List Char)}, Writes w c → clauses.modifyHead (c :: ·) = p :: ps →
      (∀ q qs, clauses = q :: qs →
        (∃ a b, written = a ++ b ∧ Reads a q) ∧ ∀ q ∈ qs, Contains written q) →
      (∃ a b, w ++ written = a ++ b ∧ Reads a p) ∧ ∀ q ∈ ps, Contains (w ++ written) q := by
    intro w written c clauses p ps hw hp hclauses
    cases clauses with
    | nil => cases hp
    | cons q qs =>
      obtain ⟨rfl, rfl⟩ := List.cons.inj hp
      obtain ⟨⟨a, b, rfl, ha⟩, hqs⟩ := hclauses q qs rfl
      exact ⟨⟨w ++ a, b, by simp, .cons hw ha⟩, fun r hr => (hqs r hr).append_left w⟩
  fun_induction Define.splitClauses s generalizing written p ps with
  | case1 =>
    obtain ⟨rfl, rfl⟩ := List.cons.inj hp
    exact ⟨⟨written, [], by simp, h⟩, by simp⟩
  | case2 s ih =>
    cases h with
    | cons hw h =>
      cases h with
      | cons hv h =>
        rw [← List.append_assoc]
        exact hjoin (.semicolon hw hv) hp fun q qs hqs => ih h hqs
  | case3 s hne ih =>
    obtain ⟨rfl, rfl⟩ := List.cons.inj hp
    refine ⟨⟨[], written, rfl, .nil⟩, fun q hq => ?_⟩
    cases h with
    | @cons w written _ _ hw h =>
      cases hs : Define.splitClauses s with
      | nil =>
        rw [hs] at hq
        cases hq
      | cons r rs =>
        obtain ⟨⟨a, b, hab, ha⟩, hrs⟩ := ih h hs
        rw [hs] at hq
        rcases List.mem_cons.1 hq with rfl | hq
        · exact ⟨w, a, b, by rw [hab], ha⟩
        · exact (hrs q hq).append_left w
  | case4 c s hne hc ih =>
    cases h with
    | cons hw h => exact hjoin hw hp fun q qs hqs => ih h hqs

theorem Contains.of_mem_splitClauses {written s p : List Char} (h : Contains written s)
    (hp : p ∈ Define.splitClauses s) : Contains written p := by
  obtain ⟨before, w, after, rfl, hw⟩ := h
  cases hs : Define.splitClauses s with
  | nil =>
    rw [hs] at hp
    cases hp
  | cons q qs =>
    obtain ⟨⟨a, b, rfl, ha⟩, hqs⟩ := reads_splitClauses hw hs
    rw [hs] at hp
    rcases List.mem_cons.1 hp with rfl | hp
    · exact ⟨before, a, b ++ after, by simp, ha⟩
    · obtain ⟨x, v, y, hxy, hv⟩ := hqs p hp
      exact ⟨before ++ x, v, y ++ after, by simp [hxy], hv⟩

theorem Contains.of_mem_pythonParts {written s : List Char} {engine : Engine} {code : String}
    (h : Contains written s) (hcode : code ∈ pythonParts s engine) :
    Contains written code.toList := by
  obtain ⟨p, hp, hsuffix, -⟩ := exists_of_mem_pythonParts hcode
  obtain ⟨before, w, after, rfl, hw⟩ := h.of_isInfix hp
  exact of_isInfix ⟨before, w, after, rfl, hw.replacePair⟩ hsuffix.isInfix

/-! ### The code of a template -/

/-- Code that is scanned is a part of what is written, alone or between parentheses. No white space
stands at the end of the part. -/
def Holds (written : List Char) (code : String) : Prop :=
  ∃ part : String, (code = part ∨ code = parenthesized part) ∧ Contains written part.toList ∧
    ∀ c ∈ part.toList.getLast?, isBlank c = false

theorem holds_of_mem_pythonParts {written s : List Char} {engine : Engine} {code : String}
    (h : Contains written s) (hcode : code ∈ pythonParts s engine) : Holds written code := by
  obtain ⟨-, -, -, hlast⟩ := exists_of_mem_pythonParts hcode
  exact ⟨code, .inl rfl, h.of_mem_pythonParts hcode, hlast⟩

theorem holds_of_mem_wrappedParts {ctx : ScanContext} {written s : List Char} {code : String}
    (h : Contains written s) (hcode : code ∈ wrappedParts ctx s) : Holds written code := by
  obtain ⟨part, hpart, rfl⟩ := List.mem_map.1 hcode
  obtain ⟨-, -, -, hlast⟩ := exists_of_mem_pythonParts hpart
  exact ⟨part, .inr rfl, h.of_mem_pythonParts hpart, hlast⟩

theorem eq_of_mapM_checked {ctx : ScanContext} {line : Nat} {parts codes : List String}
    (h : parts.mapM (checked ctx line) = .ok codes) : codes = parts := by
  have heq : List.Forall₂ (· = ·) parts codes := by
    refine (mapM_eq_ok_iff.1 h).imp fun part code hcode => ?_
    unfold checked at hcode
    split at hcode
    · exact Except.ok.inj hcode
    · cases hcode
  rw [List.forall₂_eq_eq_eq] at heq
  exact heq.symm

theorem exists_of_bindings {ctx : ScanContext} {line : Nat} {value : List Char}
    {defines : List Define} {d : Define} (h : bindings ctx line value = .ok defines)
    (hd : d ∈ defines) : ∃ clause ∈ Define.splitClauses value, d.expression.toList <:+ clause :=
  Define.exists_of_mem_parseAll (mapError_eq_ok.1 h) hd

theorem Contains.of_mem_bindings {ctx : ScanContext} {line : Nat} {written value : List Char}
    {defines : List Define} {d : Define} (hw : Contains written value)
    (h : bindings ctx line value = .ok defines) (hd : d ∈ defines) :
    Contains written d.expression.toList := by
  obtain ⟨clause, hclause, hsuffix⟩ := exists_of_bindings h hd
  exact (hw.of_mem_splitClauses hclause).of_isInfix hsuffix.isInfix

theorem holds_of_mem_attributeCode {ctx : ScanContext} {a : ResolvedAttribute}
    {written value : List Char} {codes : List String} {code : String} (hw : Contains written value)
    (h : attributeCode ctx a value = .ok codes) (hcode : code ∈ codes) : Holds written code := by
  unfold attributeCode at h
  split at h
  · split at h
    · rw [eq_of_mapM_checked h] at hcode
      exact holds_of_mem_wrappedParts (hw.of_isInfix (stripStructure_suffix value).isInfix) hcode
    split at h
    · obtain ⟨defines, hdefines, h⟩ := bind_eq_ok.1 h
      rw [eq_of_mapM_checked h] at hcode
      obtain ⟨parts, hparts, hcode⟩ := List.mem_flatten.1 hcode
      obtain ⟨d, hd, rfl⟩ := List.mem_map.1 hparts
      exact holds_of_mem_wrappedParts (hw.of_mem_bindings hdefines hd) hcode
    split at h
    · obtain ⟨defines, hdefines, h⟩ := bind_eq_ok.1 h
      split at h
      · next define =>
        rw [eq_of_mapM_checked h] at hcode
        exact holds_of_mem_pythonParts
          (hw.of_mem_bindings hdefines (List.mem_singleton_self define)) hcode
      · cases h
    · cases h
      cases hcode
  · split at h
    · next found hfound =>
      cases h
      obtain ⟨i, hi, rfl⟩ := List.mem_map.1 hcode
      obtain ⟨lead, inner, rest, hvalue, -, hparts⟩ := exists_of_mem_interpolations hfound hi
      refine holds_of_mem_pythonParts (hw.of_isInfix ?_) hparts
      exact ⟨lead ++ ['$', '\x7b'], '\x7d' :: rest, by simp [hvalue]⟩
    · cases h

end PotExtract.Template
