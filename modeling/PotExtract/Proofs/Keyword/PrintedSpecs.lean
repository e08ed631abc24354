import PotExtract.Keyword
import PotExtract.Proofs.Outcome
import PotExtract.Proofs.Text.Numerals
import PotExtract.Proofs.Text.Trim

/-! Specifications of keywords as they are printed: the name, a colon, and the parameters between
commas, each with white space around it as one likes. The parameters stand in any order, except that
the number of the message id is in front of that of the plural, and a comment may hold commas, colons
and white space. A printed specification is read as the keyword that its parameters describe. -/

namespace PotExtract

namespace Keyword

open Text

/-- The position that a parameter gives the context. -/
def Param.context? : Param → Option Nat
  | .context position => some position
  | _ => none

/-- The position that a parameter gives the domain. -/
def Param.domain? : Param → Option Nat
  | .domain position => some position
  | _ => none

/-- The number of arguments that a parameter requires. -/
def Param.required? : Param → Option Nat
  | .required count => some count
  | _ => none

/-- The comment that a parameter is. -/
def Param.comment? : Param → Option String
  | .comment text => some text
  | _ => none

/-- Parameters that describe a keyword, in any order. What is as without any parameters may be left
out: the first argument as the message id, and no comment. -/
structure Describes (params : List Param) (k : Keyword) : Prop where
  messages : params.filterMap Param.message? = k.msgid :: k.plural.toList ∨
    params.filterMap Param.message? = [] ∧ k.msgid = 1 ∧ k.plural = none
  contexts : params.filterMap Param.context? = k.context.toList
  domains : params.filterMap Param.domain? = k.domain.toList
  counts : params.filterMap Param.required? = k.required.toList
  comments : params.filterMap Param.comment? = [k.comment] ∨
    params.filterMap Param.comment? = [] ∧ k.comment = ""

/-- The positions of the arguments that a keyword speaks of. -/
def positions (k : Keyword) : List Nat :=
  k.msgid :: (k.plural.toList ++ k.context.toList ++ k.domain.toList)

/-- A parameter that can be printed: its number has 64 bits, a position counts from one, and no quote
stands in a comment. -/
def Param.IsPrintable : Param → Prop
  | .message position | .context position | .domain position => 0 < position ∧ position < limit64
  | .required count => count < limit64
  | .comment text => '"' ∉ text.toList

/-- A keyword that can be printed: its name is not empty, has no white space at its ends and no colon,
its numbers have 64 bits, positions count from one, and no quote stands in its comment. -/
structure IsPrintable (k : Keyword) : Prop where
  name_ne_empty : k.function ≠ ""
  trim_name : trim k.function.toList = k.function.toList
  colon : ':' ∉ k.function.toList
  position : ∀ p ∈ k.positions, 0 < p ∧ p < limit64
  required : ∀ n ∈ k.required, n < limit64
  quote : '"' ∉ k.comment.toList

/-- A number with the letter behind it. -/
def number (n : Nat) (letter : Option Char) : List Char :=
  Nat.toDigits 10 n ++ letter.toList

/-- A parameter as it is printed. -/
def Param.print : Param → List Char
  | .message position => number position none
  | .context position => number position (some 'c')
  | .domain position => number position (some 'd')
  | .required count => number count (some 't')
  | .comment text => '"' :: (text.toList ++ ['"'])

/-- A parameter with the white space that is printed around it. -/
structure PaddedParam where
  before : List Char
  param : Param
  after : List Char
  blank_before : ∀ c ∈ before, isBlank c
  blank_after : ∀ c ∈ after, isBlank c

/-- The parameter with its white space. -/
def PaddedParam.print (p : PaddedParam) : List Char :=
  p.before ++ (p.param.print ++ p.after)

/-- The parameter with as many spaces around it. -/
def Param.padded (before : Nat) (p : Param) (after : Nat) : PaddedParam where
  before := List.replicate before ' '
  param := p
  after := List.replicate after ' '
  blank_before _ h := List.eq_of_mem_replicate h ▸ rfl
  blank_after _ h := List.eq_of_mem_replicate h ▸ rfl

/-- The specification of the function `name` with parameters. -/
def printSpec (name : String) (params : List PaddedParam) : String :=
  String.ofList (name.toList ++ ':' :: [','].intercalate (params.map PaddedParam.print))

variable {k : Keyword} {params : List Param} {p : Param} {n : Nat}

/-! ### One parameter -/

section Number

variable {letter : Option Char} (hletter : ∀ c ∈ letter, c.isAlpha)
include hletter

theorem isAlphanum_of_mem_number {c : Char} (h : c ∈ number n letter) : c.isAlphanum := by
  rcases List.mem_append.1 h with hdigit | hc
  · exact isAlphanum_of_mem_toDigits hdigit
  · rw [Char.isAlphanum, hletter c (Option.mem_toList.1 hc), Bool.true_or]

theorem quotedText?_number : quotedText? (number n letter) = none := by
  unfold quotedText?
  split
  · next rest heq =>
    have hquote : '"' ∈ number n letter := by simp [heq]
    exact absurd (isAlphanum_of_mem_number hletter hquote) (by decide)
  · rfl

theorem splitSuffix_number : splitSuffix (number n letter) = (Nat.toDigits 10 n, letter) := by
  cases letter with
  | none =>
    obtain ⟨c, hlast⟩ := Option.ne_none_iff_exists'.1
      (mt List.getLast?_eq_none_iff.1 (Nat.toDigits_ne_nil (b := 10) (n := n)))
    have hdigit : c.isDigit :=
      Nat.isDigit_of_mem_toDigits (by decide) (by decide) (List.mem_of_getLast? hlast)
    simp [splitSuffix, number, hlast, isAlpha_of_isDigit hdigit]
  | some c => simp [splitSuffix, number, hletter c rfl]

end Number

theorem readNat?_toDigits (hn : n < limit64) : readNat? (trim (Nat.toDigits 10 n)) = some n := by
  rw [trim_of_isAlphanum fun _ => isAlphanum_of_mem_toDigits, readNat?,
    readNumeral_toDigits (by decide) (by decide) hn]
  rfl

namespace Param

/-- A printed parameter is read. -/
theorem parse_print (h : p.IsPrintable) : Param.parse p.print = .ok p := by
  cases p with
  | message n | context n | domain n =>
    simp [print, Param.parse, quotedText?_number, splitSuffix_number, readNat?_toDigits h.2,
      position, Nat.ne_of_gt h.1]
  | required n =>
    simp [print, Param.parse, quotedText?_number, splitSuffix_number, readNat?_toDigits h]
  | comment text => simp [print, Param.parse, quotedText?]

/-- What is printed is a comment or made of letters and digits. -/
theorem print_cases (p : Param) : (p.print ≠ [] ∧ ∀ c ∈ p.print, c.isAlphanum) ∨
    ∃ text, p = .comment text := by
  cases p with
  | comment text => exact .inr ⟨text, rfl⟩
  | message n | context n | domain n | required n =>
    refine .inl ⟨?_, fun c hc => isAlphanum_of_mem_number ?_ hc⟩
    · simp [print, number]
    · simp

theorem print_ne_nil (p : Param) : p.print ≠ [] := by
  obtain ⟨hne, -⟩ | ⟨text, rfl⟩ := p.print_cases
  · exact hne
  · exact List.cons_ne_nil _ _

theorem trim_print (p : Param) : trim p.print = p.print := by
  obtain ⟨-, halphanum⟩ | ⟨text, rfl⟩ := p.print_cases
  · exact trim_of_isAlphanum halphanum
  · refine trim_eq_self (fun c hc => ?_) fun c hc => ?_
    · obtain rfl : '"' = c := Option.some.inj hc
      rfl
    · rw [print, ← List.cons_append, List.getLast?_concat] at hc
      obtain rfl : '"' = c := Option.some.inj hc
      rfl

end Param

/-! ### Parameters between commas -/

/-- A text is one piece: it closes its quotes, and its commas stand in them. -/
def IsPiece (s : List Char) : Prop :=
  ∀ rest, splitParams false (s ++ rest) = (splitParams false rest).modifyHead (s ++ ·)

/-- The cuts behind a text without quotes, whose commas do not cut. -/
theorem splitParams_append {quoted : Bool} {s : List Char} (hquote : '"' ∉ s)
    (hcomma : quoted ∨ ',' ∉ s) (rest : List Char) :
    splitParams quoted (s ++ rest) = (splitParams quoted rest).modifyHead (s ++ ·) := by
  induction s with
  | nil =>
    rw [List.nil_append]
    cases splitParams quoted rest <;> rfl
  | cons c s ih =>
    obtain ⟨hc, hs⟩ : '"' ≠ c ∧ '"' ∉ s := by simpa using hquote
    have hcut : ¬ (c = ',' && !quoted) := by
      rcases hcomma with h | h
      · simp [h]
      · have : ',' ≠ c := fun heq => h (heq ▸ List.mem_cons_self)
        simp [this.symm]
    have hrest : quoted ∨ ',' ∉ s := hcomma.imp_right fun h hmem => h (List.mem_cons_of_mem c hmem)
    rw [List.cons_append, splitParams, if_neg hcut, if_neg (Ne.symm hc), ih hs hrest,
      List.modifyHead_modifyHead]
    rfl

theorem isPiece_of_not_mem {s : List Char} (hquote : '"' ∉ s) (hcomma : ',' ∉ s) : IsPiece s :=
  splitParams_append hquote (.inr hcomma)

theorem isPiece_quoted {s : List Char} (h : '"' ∉ s) : IsPiece ('"' :: (s ++ ['"'])) := by
  intro rest
  have hopen : splitParams false ('"' :: (s ++ '"' :: rest)) =
      (splitParams true (s ++ '"' :: rest)).modifyHead ('"' :: ·) := rfl
  have hclose : splitParams true ('"' :: rest) =
      (splitParams false rest).modifyHead ('"' :: ·) := rfl
  rw [List.cons_append, List.append_assoc, List.singleton_append, hopen,
    splitParams_append h (.inl rfl), hclose, List.modifyHead_modifyHead, List.modifyHead_modifyHead]
  simp [Function.comp_def]

theorem IsPiece.append {s t : List Char} (hs : IsPiece s) (ht : IsPiece t) : IsPiece (s ++ t) := by
  intro rest
  rw [List.append_assoc, hs, ht, List.modifyHead_modifyHead]
  simp [Function.comp_def]

theorem isPiece_of_blank {s : List Char} (h : ∀ c ∈ s, isBlank c) : IsPiece s := by
  refine isPiece_of_not_mem (fun hc => ?_) fun hc => ?_
  · exact absurd (h _ hc) (by decide)
  · exact absurd (h _ hc) (by decide)

theorem Param.isPiece_print (h : p.IsPrintable) : IsPiece p.print := by
  obtain ⟨-, halphanum⟩ | ⟨text, rfl⟩ := p.print_cases
  · refine isPiece_of_not_mem (fun hc => ?_) fun hc => ?_
    · exact absurd (halphanum _ hc) (by decide)
    · exact absurd (halphanum _ hc) (by decide)
  · exact isPiece_quoted h

theorem PaddedParam.isPiece_print {p : PaddedParam} (h : p.param.IsPrintable) :
    IsPiece p.print :=
  (isPiece_of_blank p.blank_before).append
    ((Param.isPiece_print h).append (isPiece_of_blank p.blank_after))

theorem PaddedParam.trim_print (p : PaddedParam) : trim p.print = p.param.print := by
  rw [print, trim, trimLeft_of_blank p.blank_before]
  exact (trim_append_of_blank p.blank_after p.param.print).trans p.param.trim_print

/-- Pieces between commas are cut apart there. -/
theorem splitParams_intercalate {pieces : List (List Char)} (h : ∀ s ∈ pieces, IsPiece s)
    (hne : pieces ≠ []) : splitParams false ([','].intercalate pieces) = pieces := by
  induction pieces with
  | nil => exact absurd rfl hne
  | cons s pieces ih =>
    obtain ⟨hs, hpieces⟩ := List.forall_mem_cons.1 h
    cases pieces with
    | nil => simpa [splitParams] using hs []
    | cons t pieces =>
      have hcut : ∀ rest, splitParams false (',' :: rest) = [] :: splitParams false rest :=
        fun _ => rfl
      rw [List.intercalate_cons_cons, List.append_assoc, hs, List.singleton_append, hcut,
        ih hpieces (List.cons_ne_nil _ _), List.modifyHead_cons, List.append_nil]

/-- The parameters that are read, of those that are printed. -/
theorem texts_printed {printed : List PaddedParam} (h : ∀ p ∈ printed, p.param.IsPrintable) :
    ((splitParams false ([','].intercalate (printed.map PaddedParam.print))).map trim).filter
      (fun p => !p.isEmpty) = printed.map fun p => p.param.print := by
  cases printed with
  | nil => rfl
  | cons p printed =>
    have hpieces : ∀ s ∈ (p :: printed).map PaddedParam.print, IsPiece s := by
      rw [List.forall_mem_map]
      exact fun p hp => PaddedParam.isPiece_print (h p hp)
    have htrim : trim ∘ PaddedParam.print = fun p => p.param.print :=
      funext PaddedParam.trim_print
    rw [splitParams_intercalate hpieces (by simp), List.map_map, htrim, List.filter_eq_self,
      List.forall_mem_map]
    intro p _
    simp [p.param.print_ne_nil]

theorem mapM_parse_print {printed : List PaddedParam} (h : ∀ p ∈ printed, p.param.IsPrintable) :
    (printed.map fun p => p.param.print).mapM Param.parse = .ok (printed.map (·.param)) := by
  rw [mapM_eq_ok_iff, List.forall₂_map_left_iff, List.forall₂_map_right_iff, List.forall₂_same]
  exact fun p hp => Param.parse_print (h p hp)

/-! ### The keyword that parameters describe -/

/-- Of the parameters of one kind the last one counts. -/
theorem foldl_apply (params : List Param) (k : Keyword) :
    params.foldl apply k = { k with
      context := (params.filterMap Param.context?).getLast?.or k.context
      domain := (params.filterMap Param.domain?).getLast?.or k.domain
      required := (params.filterMap Param.required?).getLast?.or k.required
      comment := (params.filterMap Param.comment?).getLast?.getD k.comment } := by
  induction params using List.reverseRecOn with
  | nil => rfl
  | append_singleton params p ih =>
    rw [List.foldl_concat, ih]
    cases p <;> simp [apply, Param.context?, Param.domain?, Param.required?, Param.comment?]

namespace Describes

/-- Parameters of a keyword that can be printed can be printed. -/
theorem isPrintable (h : Describes params k) (hk : k.IsPrintable) : ∀ p ∈ params, p.IsPrintable := by
  intro p hp
  cases p with
  | message n =>
    have hmem : n ∈ params.filterMap Param.message? := List.mem_filterMap.2 ⟨_, hp, rfl⟩
    rcases h.messages with hmessages | ⟨hmessages, -⟩
    · rw [hmessages] at hmem
      refine hk.position n ?_
      simp only [positions, List.mem_cons, List.mem_append] at hmem ⊢
      tauto
    · rw [hmessages] at hmem
      cases hmem
  | context n =>
    have hmem : n ∈ params.filterMap Param.context? := List.mem_filterMap.2 ⟨_, hp, rfl⟩
    rw [h.contexts] at hmem
    exact hk.position n (by simp [positions, Option.mem_toList.1 hmem])
  | domain n =>
    have hmem : n ∈ params.filterMap Param.domain? := List.mem_filterMap.2 ⟨_, hp, rfl⟩
    rw [h.domains] at hmem
    exact hk.position n (by simp [positions, Option.mem_toList.1 hmem])
  | required n =>
    have hmem : n ∈ params.filterMap Param.required? := List.mem_filterMap.2 ⟨_, hp, rfl⟩
    rw [h.counts] at hmem
    exact hk.required n (Option.mem_toList.1 hmem)
  | comment text =>
    have hmem : text ∈ params.filterMap Param.comment? := List.mem_filterMap.2 ⟨_, hp, rfl⟩
    rcases h.comments with hcomments | ⟨hcomments, -⟩
    · rw [hcomments, List.mem_singleton] at hmem
      rw [hmem]
      exact hk.quote
    · rw [hcomments] at hmem
      cases hmem

/-- A keyword is put together from what describes it. -/
theorem withMessages (h : Describes params k) :
    (params.foldl apply { function := k.function }).withMessages
      (params.filterMap Param.message?) = .ok k := by
  have hcomment : (params.filterMap Param.comment?).getLast?.getD "" = k.comment := by
    rcases h.comments with hcomments | ⟨hcomments, hempty⟩
    · rw [hcomments]
      rfl
    · rw [hcomments, hempty]
      rfl
  have hfold : params.foldl apply { function := k.function } =
      { k with msgid := 1, plural := none } := by
    have hlast : ∀ o : Option Nat, o.toList.getLast? = o := by
      rintro (_ | n) <;> rfl
    rw [foldl_apply, h.contexts, h.domains, h.counts, hcomment]
    simp [hlast]
  rw [hfold]
  obtain ⟨name, msgid, plural, domain, context, required, comment⟩ := k
  rcases h.messages with hmessages | ⟨hmessages, rfl, rfl⟩
  · rw [hmessages]
    cases plural <;> rfl
  · rw [hmessages]
    rfl

end Describes

/-- A printed specification is read as the keyword that its parameters describe. -/
theorem parse_printSpec {printed : List PaddedParam} (hk : k.IsPrintable)
    (h : Describes (printed.map (·.param)) k) :
    Keyword.parse (printSpec k.function printed) = .ok k := by
  have hprintable : ∀ p ∈ printed, p.param.IsPrintable := fun p hp =>
    h.isPrintable hk _ (List.mem_map_of_mem hp)
  have hname : k.function.toList.isEmpty = false := by
    simpa using hk.name_ne_empty
  have hparams : parseParams k.function.toList
      ([','].intercalate (printed.map PaddedParam.print)) = .ok k := by
    rw [parseParams, texts_printed hprintable, mapM_parse_print hprintable, String.ofList_toList]
    exact h.withMessages
  rw [Keyword.parse, mapError_eq_ok, printSpec, String.toList_ofList, parseSpec,
    cut?_append_cons hk.colon]
  simp only [hk.trim_name, hname]
  exact hparams

/-- The comment looks like parameters, and the plural stands at the end. -/
theorem parse_printSpec_dnpgettext :
    Keyword.parse "dnpgettext:5t,\"menu, 7: 8c\", 2c ,3,1d,4" = .ok
      { function := "dnpgettext", msgid := 3, plural := some 4, domain := some 1, context := some 2,
        required := some 5, comment := "menu, 7: 8c" } := by
  have hk : IsPrintable ⟨"dnpgettext", 3, some 4, some 1, some 2, some 5, "menu, 7: 8c"⟩ := by
    refine ⟨by decide, ?_, by decide, ?_, ?_, by decide⟩
    · decide
    · simp [positions, limit64]
    · simp [limit64]
  have hparse := fun printed => @parse_printSpec _ printed hk
  have hspec : printSpec "dnpgettext" [Param.padded 0 (.required 5) 0,
      Param.padded 0 (.comment "menu, 7: 8c") 0, Param.padded 1 (.context 2) 1,
      Param.padded 0 (.message 3) 0, Param.padded 0 (.domain 1) 0, Param.padded 0 (.message 4) 0] =
        "dnpgettext:5t,\"menu, 7: 8c\", 2c ,3,1d,4" := by
    decide
  rw [← hspec]
  exact hparse _ ⟨.inl rfl, rfl, rfl, rfl, .inl rfl⟩

end Keyword

end PotExtract
