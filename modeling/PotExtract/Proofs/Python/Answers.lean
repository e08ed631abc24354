import PotExtract.Proofs.Python.LayoutTokens
import PotExtract.Proofs.Python.TokenRequests

/-! Where the answers of a tokenizer come from. Behind an error it reads on in what is left of the
text, so each token it ever answers, changes of indentation and end markers aside, is read at some
place of that text. -/

namespace PotExtract.Python

namespace Cursor

variable {c : Cursor} {t : Token}

/-- Reading makes no end marker: it stands for the end of the reading. -/
theorem kind_lex_ne_endMarker (ht : t ∈ c.lex.tokens) : t.kind ≠ .endMarker := by
  fun_induction lex c with
  | case1 c hnil =>
    obtain ⟨-, -, hk | hk⟩ := of_mem_finish ht <;> simp [hk]
  | case2 => cases ht
  | case3 c first rest hfirst tokens next hs _ later ih =>
    rcases List.mem_append.1 ht with ht | ht
    · obtain ⟨n, -, rfl, -⟩ := exists_next hfirst hs
      rcases List.mem_append.1 ht with ht | ht
      · obtain ⟨-, hk | hk⟩ := of_mem_layout n.layout_eq ht <;> simp [hk]
      · exact (kind_of_mem_take ht).2.2
    · exact ih ht

theorem rest_stop_suffix (c : Cursor) : c.stop.rest <:+ c.rest := by
  fun_induction stop c with
  | case1 | case2 => exact List.suffix_rfl
  | case3 c first rest hfirst tokens next hs _ ih =>
    obtain ⟨n, -, -, rfl⟩ := exists_next hfirst hs
    have hbehind : n.behind.rest <:+ c.rest := ⟨n.gap ++ n.written, by
      rw [List.append_assoc, ← n.rest_eq]⟩
    exact ih.trans hbehind

/-- What is left behind an error is a change of indentation, and an end of the text. -/
theorem cases_of_mem_recover (ht : t ∈ c.recover.1) : t.kind = .indent ∨ t.kind = .dedent := by
  unfold recover at ht
  split at ht
  · cases ht
  split at ht
  · next hlayout => exact (of_mem_layout hlayout ht).2
  · obtain ⟨-, -, rfl⟩ := List.mem_map.1 ht
    exact .inr rfl

theorem rest_recover_suffix (c : Cursor) : c.recover.2.rest <:+ c.rest := by
  unfold recover
  split
  · exact List.nil_suffix
  next first rest hfirst =>
  split
  · exact List.nil_suffix
  · exact hfirst ▸ List.dropWhile_suffix isGap

end Cursor

namespace Tokenizer

variable {t : Tokenizer} {s : List Char} {token : Token}

/-- What the tokenizer answers to a request, behind `k` others. -/
def answer (t : Tokenizer) (k : Nat) : Except LexError Token :=
  (t.after k).next.1

theorem after_add (t : Tokenizer) (k j : Nat) : t.after (k + j) = (t.after k).after j := by
  induction j with
  | zero => rfl
  | succ j ih => exact congrArg (fun u : Tokenizer => u.next.2) ih

/-- The tokenizer reads in a text: what is to come is read at places of it, and behind the next
error a piece of it is left. -/
structure ReadsIn (t : Tokenizer) (s : List Char) : Prop where
  upcoming : ∀ token ∈ t.upcoming.tokens, (token.kind = .indent ∨ token.kind = .dedent) ∨
    ∃ c : Cursor, c.rest <:+ s ∧ token ∈ c.lex.tokens
  stop : t.stop.rest <:+ s

theorem readsIn_behind {queue : List Token} {c : Cursor}
    (hqueue : ∀ token ∈ queue, token.kind = .indent ∨ token.kind = .dedent) (hc : c.rest <:+ s) :
    (behind queue c).ReadsIn s where
  upcoming := by
    intro token ht
    rcases List.mem_append.1 ht with ht | ht
    · exact .inl (hqueue token ht)
    · exact .inr ⟨c, hc, ht⟩
  stop := c.rest_stop_suffix.trans hc

theorem readsIn_start (source : String) : (start source).ReadsIn source.toList :=
  readsIn_behind (List.forall_mem_nil _) List.suffix_rfl

theorem ReadsIn.resume (h : t.ReadsIn s) : t.resume.ReadsIn s :=
  readsIn_behind (fun _ ht => Cursor.cases_of_mem_recover ht)
    ((Cursor.rest_recover_suffix _).trans h.stop)

/-- The next token is the first of those to come, or the end marker where there are none. -/
theorem cases_of_next (h : t.next.1 = .ok token) :
    (∃ later, t.upcoming.tokens = token :: later ∧
        t.next.2 = { t with upcoming := ⟨later, t.upcoming.ending⟩ }) ∨
      ∃ line, token = Token.endMarker line ∧ t.upcoming = ⟨[], .ok line⟩ ∧ t.next.2 = t := by
  obtain ⟨⟨tokens, ending⟩, stop⟩ := t
  cases tokens with
  | cons first later =>
    cases h
    exact .inl ⟨later, rfl, rfl⟩
  | nil =>
    cases ending with
    | ok line =>
      cases h
      exact .inr ⟨line, rfl, rfl, rfl⟩
    | error e => cases h

theorem next_of_error {e : LexError} (h : t.next.1 = .error e) : t.next.2 = t.resume := by
  unfold next at h ⊢
  split at h
  · cases h
  · rfl

theorem ReadsIn.next (h : t.ReadsIn s) : t.next.2.ReadsIn s := by
  cases hnext : t.next.1 with
  | error e => exact next_of_error hnext ▸ h.resume
  | ok token =>
    rcases cases_of_next hnext with ⟨later, hup, hbehind⟩ | ⟨line, -, -, hbehind⟩
    · rw [hbehind]
      exact ⟨fun u hu => h.upcoming u (hup ▸ List.mem_cons_of_mem token hu), h.stop⟩
    · rwa [hbehind]

theorem ReadsIn.after (h : t.ReadsIn s) (k : Nat) : (t.after k).ReadsIn s := by
  induction k with
  | zero => exact h
  | succ k ih => exact ih.next

/-- A token that is answered changes the indentation, or is read somewhere in the text, or marks the
end where nothing is left to read. -/
theorem ReadsIn.cases_of_answer {k : Nat} (h : t.ReadsIn s) (hk : t.answer k = .ok token) :
    (token.kind = .indent ∨ token.kind = .dedent) ∨
      (∃ c : Cursor, c.rest <:+ s ∧ token ∈ c.lex.tokens) ∨
      ∃ line, token = Token.endMarker line ∧ (t.after k).upcoming = ⟨[], .ok line⟩ := by
  rcases cases_of_next hk with ⟨later, hup, -⟩ | ⟨line, rfl, hup, -⟩
  · exact ((h.after k).upcoming token (hup ▸ List.mem_cons_self)).imp_right .inl
  · exact .inr (.inr ⟨line, rfl, hup⟩)

end Tokenizer

end PotExtract.Python
