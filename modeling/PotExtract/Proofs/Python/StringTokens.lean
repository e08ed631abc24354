import PotExtract.Proofs.Python.Answers
import PotExtract.Proofs.Python.LineEnds
import PotExtract.Proofs.Text.Numerals

/-! String tokens and their texts. A string is read in the source, where its quotes are counted with
what follows them in view, and decoded from the text of the token alone. Both find the same prefix
and the same quotes. -/

namespace PotExtract.Python

open Text

/-! ### Letters in either case -/

section Cases

variable {c small capital : Char} {s : List Char}

theorem toLower_eq_iff (hsmall : small.toLower = small) (hcapital : capital.toLower = small)
    (hcode : small.toNat = capital.toNat + 32) : c.toLower = small ↔ c = small ∨ c = capital := by
  constructor
  · intro h
    rcases toLower_cases c with ⟨-, -, hlower⟩ | hlower
    · right
      rw [h] at hlower
      exact Char.toNat_inj.1 (by omega)
    · exact .inl (hlower.symm.trans h)
  · rintro (rfl | rfl)
    · exact hsmall
    · exact hcapital

theorem mem_lower_iff (hsmall : small.toLower = small) (hcapital : capital.toLower = small)
    (hcode : small.toNat = capital.toNat + 32) :
    small ∈ lower s ↔ s.any ([small, capital].contains ·) := by
  simp [lower, toLower_eq_iff hsmall hcapital hcode]

end Cases

/-! ### Reading and decoding -/

namespace Quoting

variable {q : Quoting} {lead inner behind : List Char}

/-- A literal that is read has no text if its prefix has a letter of bytes or of formatted strings,
and is decoded between its quotes otherwise. -/
theorem Reads.decode (h : q.Reads lead inner behind) (hlead : ∀ c ∈ lead, Lexeme.isNameChar c) :
    Literal.decode (lead ++ q.enclose inner) =
      if lead.any (['b', 'B', 'f', 'F'].contains ·) then none
      else some (if lead.any (['r', 'R'].contains ·) then inner else Literal.unescape inner) := by
  have hf : 'f' ∈ lower lead ↔ lead.any (['f', 'F'].contains ·) := mem_lower_iff rfl rfl rfl
  have hb : 'b' ∈ lower lead ↔ lead.any (['b', 'B'].contains ·) := mem_lower_iff rfl rfl rfl
  have hr : 'r' ∈ lower lead ↔ lead.any (['r', 'R'].contains ·) := mem_lower_iff rfl rfl rfl
  have hnone : ('f' ∈ lower lead ∨ 'b' ∈ lower lead) ↔
      lead.any (['b', 'B', 'f', 'F'].contains ·) := by
    have hsplit : ∀ c, ['b', 'B', 'f', 'F'].contains c =
        (['b', 'B'].contains c || ['f', 'F'].contains c) := fun c => by simp [Bool.or_assoc]
    rw [hf, hb, or_comm]
    simp only [List.any_eq_true, hsplit, Bool.or_eq_true, and_or_left, exists_or]
  rw [Literal.decode_enclose hlead h.quoteLength]
  simp only [hnone, hr]

end Quoting

/-- A string token of a source, answered to any request, is a prefix and a text between quotes that
the tokenizer has read in front of what follows them in the source. It has no text exactly if its
prefix has one of the letters `b` and `f` in either case, and otherwise what stands between those
quotes is decoded, or kept as it is behind the letter `r`. -/
theorem decode_of_answer_string {source : String} {k : Nat} {token : Token}
    (h : (Tokenizer.start source).answer k = .ok token) (hk : token.kind = .string) :
    ∃ front lead, ∃ q : Quoting, ∃ inner behind,
      source.toList = front ++ (lead ++ (q.enclose inner ++ behind)) ∧
        token.text = String.ofList (lead ++ q.enclose inner) ∧
        q.Reads lead inner behind ∧
        Literal.decode? token.text =
          if lead.any (['b', 'B', 'f', 'F'].contains ·) then none
          else some (String.ofList
            (if lead.any (['r', 'R'].contains ·) then inner else Literal.unescape inner)) := by
  rcases (Tokenizer.readsIn_start source).cases_of_answer h with hlayout | ⟨c, hc, ht⟩ |
      ⟨line, rfl, -⟩
  · simp [hk] at hlayout
  · obtain ⟨first, rest, text, lines, behind, hread, htext, hplace⟩ :=
      c.exists_read_of_mem_lex ht hk
    obtain ⟨lead, quote, tail, hquote, hlead, hname, hsplit, hstring⟩ :=
      Lexeme.exists_lead_of_read hread
    obtain ⟨q, inner, hquoted, rfl, hreads⟩ :=
      Lexeme.exists_reads_of_readString hquote hlead hstring
    obtain ⟨front, hfront⟩ := hplace.trans hc
    refine ⟨front, lead, q, inner, behind, ?_, htext, hreads, ?_⟩
    · rw [← hfront, hsplit, hquoted]
    · rw [Literal.decode?, htext, String.toList_ofList, hreads.decode hname]
      split <;> rfl
  · cases hk

/-- A raw string with an escaped quote, empty bytes, and both quotes between triple ones. -/
def quotedArguments : String :=
  "f(R\"\\\"\", rB'', '''it's \"\\x41\"''')"

theorem decode_of_answer_string_quotedArguments :
    (Tokenizer.start quotedArguments).answer 6 =
        .ok ⟨.string, "'''it's \"\\x41\"'''", 1⟩ ∧
      ∃ front lead, ∃ q : Quoting, ∃ inner behind,
        quotedArguments.toList = front ++ (lead ++ (q.enclose inner ++ behind)) ∧
          "'''it's \"\\x41\"'''" = String.ofList (lead ++ q.enclose inner) ∧
          q.Reads lead inner behind ∧
          Literal.decode? "'''it's \"\\x41\"'''" =
            if lead.any (['b', 'B', 'f', 'F'].contains ·) then none
            else some (String.ofList
              (if lead.any (['r', 'R'].contains ·) then inner else Literal.unescape inner)) :=
  have h : (Tokenizer.start quotedArguments).answer 6 =
      .ok ⟨.string, "'''it's \"\\x41\"'''", 1⟩ := by
    decide +kernel
  ⟨h, decode_of_answer_string h rfl⟩

end PotExtract.Python
