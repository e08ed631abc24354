import Mathlib.Data.List.TakeWhile
import PotExtract.Python.Tokenizer

/-! Requests to a stream of tokens. Whatever is asked for, in any order and also behind an error, the
tokens handed out are those that the tokenizer answers to the same text, layout aside: none is lost,
none comes twice, and only the one that is put back or was peeked at is still to come. -/

namespace PotExtract.Python

/-- The tokens among others that are no layout. -/
def significant (ts : List Token) : List Token :=
  ts.filter (!·.isLayout)

@[simp] theorem significant_nil : significant [] = [] := rfl

@[simp] theorem significant_append (ts us : List Token) :
    significant (ts ++ us) = significant ts ++ significant us :=
  List.filter_append ..

theorem significant_eq_nil {ts : List Token} (h : ∀ t ∈ ts, t.isLayout) : significant ts = [] :=
  List.filter_eq_nil_iff.2 fun t ht => by simp [h t ht]

theorem significant_singleton {t : Token} (h : t.isLayout = false) : significant [t] = [t] := by
  simp [significant, h]

theorem isPrefix_significant {ts us : List Token} (h : ts <+: us) :
    significant ts <+: significant us :=
  h.filter _

/-! ### The answers of a tokenizer -/

namespace Tokenizer

variable {t t' t'' : Tokenizer} {token : Token} {ts us : List Token}

/-- The tokenizer behind `n` answers. -/
def after (t : Tokenizer) : Nat → Tokenizer
  | 0 => t
  | n + 1 => (t.after n).next.2

/-- The tokens among the first `n` answers. -/
def tokens (t : Tokenizer) : Nat → List Token
  | 0 => []
  | n + 1 => t.tokens n ++ (t.after n).next.1.toOption.toList

/-- Some answers of the tokenizer `t` are the tokens `ts`, and errors between them, and lead to
`t'`. -/
def Answers (t : Tokenizer) (ts : List Token) (t' : Tokenizer) : Prop :=
  ∃ n, t.tokens n = ts ∧ t.after n = t'

theorem Answers.refl (t : Tokenizer) : t.Answers [] t :=
  ⟨0, rfl, rfl⟩

theorem Answers.answer (h : t.Answers ts t') (hnext : t'.next = (.ok token, t'')) :
    t.Answers (ts ++ [token]) t'' := by
  obtain ⟨n, rfl, rfl⟩ := h
  exact ⟨n + 1, by simp [tokens, hnext, Except.toOption], congrArg Prod.snd hnext⟩

theorem Answers.error {e : LexError} (h : t.Answers ts t') (hnext : t'.next = (.error e, t'')) :
    t.Answers ts t'' := by
  obtain ⟨n, rfl, rfl⟩ := h
  exact ⟨n + 1, by simp [tokens, hnext, Except.toOption], congrArg Prod.snd hnext⟩

/-- The tokens that come up are answered one by one. -/
theorem Answers.upcoming {vs : List Token} (h : t.Answers ts t')
    (hup : t'.upcoming.tokens = us ++ vs) :
    t.Answers (ts ++ us) { t' with upcoming := ⟨vs, t'.upcoming.ending⟩ } := by
  induction us generalizing ts t' with
  | nil =>
    obtain ⟨⟨tokens, ending⟩, stop⟩ := t'
    obtain rfl : tokens = vs := hup
    rwa [List.append_nil]
  | cons u us ih =>
    obtain ⟨⟨tokens, ending⟩, stop⟩ := t'
    obtain rfl : tokens = u :: (us ++ vs) := hup
    have hnext : (⟨⟨u :: (us ++ vs), ending⟩, stop⟩ : Tokenizer).next =
        (.ok u, ⟨⟨us ++ vs, ending⟩, stop⟩) := rfl
    have hrest := ih (h.answer hnext) rfl
    rwa [List.append_cons]

end Tokenizer

/-! ### What a stream answers -/

namespace OpenStream

variable {s : OpenStream} {t : Token}

theorem ask_next_of_some (h : s.pending = some t) :
    s.ask TokenStream.next = (.ok t, { s with pending := none }) := by
  simp [ask, stream, TokenStream.next, h]

/-- With no token put back, the stream answers what the tokenizer does. -/
theorem ask_next_of_none (h : s.pending = none) :
    s.ask TokenStream.next = (s.tokenizer.next.1, { tokenizer := s.tokenizer.next.2 }) := by
  simp only [ask, stream, TokenStream.next, h, Tokenizer.next]
  cases TokenStream.take s.tokenizer.upcoming <;> rfl

theorem ask_peek_of_some (h : s.pending = some t) (ht : t.isLayout = false) :
    s.ask TokenStream.peek = (.ok t, s) := by
  have hfilter : s.pending.filter (!·.isLayout) = some t := by
    simp [h, Option.filter, ht]
  simp only [ask, stream, TokenStream.peek, hfilter]

/-- The tokenizer behind the layout that comes up. -/
def pastLayout (s : OpenStream) : Tokenizer :=
  { s.tokenizer with upcoming := TokenStream.skipLayout s.tokenizer.upcoming }

/-- With nothing but layout put back, the stream looks at what the tokenizer answers behind layout. -/
theorem ask_peek_of_layout (h : ∀ t, s.pending = some t → t.isLayout) :
    s.ask TokenStream.peek =
      (s.pastLayout.next.1, ⟨s.pastLayout.next.2, s.pastLayout.next.1.toOption⟩) := by
  have hfilter : s.pending.filter (!·.isLayout) = none :=
    Option.filter_eq_none_iff.2 fun t ht => by simp [h t ht]
  simp only [ask, stream, TokenStream.peek, hfilter, Tokenizer.next, pastLayout]
  cases TokenStream.take (TokenStream.skipLayout s.tokenizer.upcoming) <;> rfl

theorem isLayout_of_next_pastLayout (h : s.pastLayout.next.1 = .ok t) : t.isLayout = false := by
  have hhead := List.head?_dropWhile_not Token.isLayout s.tokenizer.upcoming.tokens
  unfold Tokenizer.next TokenStream.take at h
  simp only [pastLayout, TokenStream.skipLayout] at h
  cases hrest : s.tokenizer.upcoming.tokens.dropWhile Token.isLayout with
  | nil =>
    rw [hrest] at h
    cases hend : s.tokenizer.upcoming.ending with
    | ok line =>
      rw [hend] at h
      cases h
      rfl
    | error e =>
      rw [hend] at h
      cases h
  | cons u rest =>
    rw [hrest] at h hhead
    cases h
    exact hhead

end OpenStream

/-! ### Requests -/

/-- What a stream of tokens may be asked for: the next token, a look at the next significant one, or
to take the last one back. -/
inductive Request where
  | next
  | peek
  | push
  deriving DecidableEq, Repr

/-- A stream with the token answered last, and the significant tokens that are handed out. -/
structure Session where
  stream : OpenStream
  last : Option Token := none
  handedOut : List Token := []

namespace Session

/-- The start of a text. -/
def start (source : String) : Session :=
  { stream := .start source }

/-- The answer to a request, if it asks for a token, and what the session is behind it. Only the
token answered last is put back, while no other is; it counts as not handed out then. -/
def step (s : Session) : Request → Option (Except LexError Token) × Session
  | .next =>
    match s.stream.ask TokenStream.next with
    | (.ok t, stream) => (some (.ok t), ⟨stream, some t, s.handedOut ++ significant [t]⟩)
    | (.error e, stream) => (some (.error e), { s with stream })
  | .peek =>
    match s.stream.ask TokenStream.peek with
    | (.ok t, stream) => (some (.ok t), { s with stream, last := some t })
    | (.error e, stream) => (some (.error e), { s with stream })
  | .push =>
    match s.stream.pending, s.last with
    | none, some t =>
      (none, { s with
        stream := s.stream.push t
        handedOut := if t.isLayout then s.handedOut else s.handedOut.dropLast })
    | _, _ => (none, s)

/-- The session behind requests. -/
def run (s : Session) (requests : List Request) : Session :=
  requests.foldl (fun s request => (s.step request).2) s

/-- What has been handed out, and the token still to come from the place for one put back, are what
the tokenizer has answered. -/
structure Follows (s : Session) (t : Tokenizer) : Prop where
  answers : ∃ ts, t.Answers ts s.stream.tokenizer ∧
    s.handedOut ++ significant s.stream.pending.toList = significant ts
  last_eq : ∀ p, s.stream.pending = some p → s.last = some p
  /-- A significant token that may be put back is the one handed out last. -/
  handedOut_eq : s.stream.pending = none → ∀ p, s.last = some p → p.isLayout = false →
    ∃ front, s.handedOut = front ++ [p]

variable {s : Session} {t : Tokenizer}

theorem follows_start (source : String) : (start source).Follows (.start source) :=
  ⟨⟨[], .refl _, rfl⟩, nofun, nofun⟩

theorem Follows.next (h : s.Follows t) : (s.step .next).2.Follows t := by
  obtain ⟨⟨ts, hanswers, heq⟩, hlast, hhanded⟩ := h
  have hown (p : Token) (hlayout : p.isLayout = false) :
      ∃ front, s.handedOut ++ significant [p] = front ++ [p] :=
    ⟨s.handedOut, by rw [significant_singleton hlayout]⟩
  unfold step
  dsimp only
  cases hpending : s.stream.pending with
  | some p =>
    rw [OpenStream.ask_next_of_some hpending]
    refine ⟨⟨ts, hanswers, ?_⟩, nofun, fun _ q hq hlayout => ?_⟩
    · simpa [hpending] using heq
    · obtain rfl := Option.some.inj hq
      exact hown p hlayout
  | none =>
    rw [OpenStream.ask_next_of_none hpending]
    rw [hpending] at heq
    cases hnext : s.stream.tokenizer.next with
    | mk answer tokenizer =>
      cases answer with
      | ok p =>
        refine ⟨⟨_, hanswers.answer hnext, ?_⟩, nofun, fun _ q hq hlayout => ?_⟩
        · simpa using heq
        · obtain rfl := Option.some.inj hq
          exact hown p hlayout
      | error e => exact ⟨⟨ts, hanswers.error hnext, heq⟩, nofun, fun _ => hhanded hpending⟩

/-- With nothing but layout put back, a significant token that was answered last is handed out. -/
theorem Follows.exists_front (h : s.Follows t)
    (hlayout : ∀ p, s.stream.pending = some p → p.isLayout) {p : Token} (hp : s.last = some p)
    (hp' : p.isLayout = false) : ∃ front, s.handedOut = front ++ [p] := by
  cases hpending : s.stream.pending with
  | none => exact h.handedOut_eq hpending p hp hp'
  | some q =>
    obtain rfl := Option.some.inj ((h.last_eq q hpending).symm.trans hp)
    rw [hlayout q hpending] at hp'
    cases hp'

theorem Follows.peek (h : s.Follows t) : (s.step .peek).2.Follows t := by
  obtain ⟨ts, hanswers, heq⟩ := h.answers
  unfold step
  dsimp only
  by_cases hlayout : ∀ p, s.stream.pending = some p → p.isLayout
  · rw [OpenStream.ask_peek_of_layout hlayout]
    -- neither the layout put back nor that in front of the token seen counts
    have hnone : significant s.stream.pending.toList = [] :=
      significant_eq_nil fun p hp => hlayout p (Option.mem_toList.1 hp)
    rw [hnone, List.append_nil] at heq
    have hpast : t.Answers (ts ++ s.stream.tokenizer.upcoming.tokens.takeWhile Token.isLayout)
        s.stream.pastLayout := hanswers.upcoming List.takeWhile_append_dropWhile.symm
    have hskipped : significant (s.stream.tokenizer.upcoming.tokens.takeWhile Token.isLayout) = [] :=
      significant_eq_nil fun p hp => List.mem_takeWhile_imp hp
    cases hnext : s.stream.pastLayout.next with
    | mk answer tokenizer =>
      cases answer with
      | ok p =>
        refine ⟨⟨_, hpast.answer hnext, ?_⟩, fun q hq => hq, nofun⟩
        simp [heq, hskipped, Except.toOption]
      | error e =>
        refine ⟨⟨_, hpast.error hnext, ?_⟩, nofun, fun _ q hq => h.exists_front hlayout hq⟩
        simp [heq, hskipped, Except.toOption]
  · obtain ⟨p, hpending, hp⟩ : ∃ p, s.stream.pending = some p ∧ p.isLayout = false := by
      simpa using hlayout
    rw [OpenStream.ask_peek_of_some hpending hp]
    refine ⟨⟨ts, hanswers, heq⟩, fun q hq => hpending.symm.trans hq, fun hnone => ?_⟩
    exact absurd (hpending.symm.trans hnone) (by simp)

theorem Follows.push (h : s.Follows t) : (s.step .push).2.Follows t := by
  obtain ⟨⟨ts, hanswers, heq⟩, hlast, hhanded⟩ := h
  unfold step
  dsimp only
  split
  · next p hpending hp =>
    rw [hpending] at heq
    refine ⟨⟨ts, hanswers, ?_⟩, fun q hq => hq ▸ hp, nofun⟩
    dsimp only
    cases hlayout : p.isLayout with
    | true => simpa [significant, hlayout, OpenStream.push, TokenStream.push] using heq
    | false =>
      obtain ⟨front, hfront⟩ := hhanded hpending p hp hlayout
      simpa [significant, hlayout, OpenStream.push, TokenStream.push, hfront] using heq
  · exact ⟨⟨ts, hanswers, heq⟩, hlast, hhanded⟩

theorem Follows.step (h : s.Follows t) (request : Request) : (s.step request).2.Follows t := by
  cases request with
  | next => exact h.next
  | peek => exact h.peek
  | push => exact h.push

theorem Follows.run (h : s.Follows t) (requests : List Request) : (s.run requests).Follows t := by
  induction requests generalizing s with
  | nil => exact h
  | cons request requests ih => exact ih (h.step request)

/-- What a look answers is significant, and is put back for the next request. -/
theorem pending_of_peek {p : Token} (h : (s.step .peek).1 = some (.ok p)) :
    p.isLayout = false ∧ (s.step .peek).2.stream.pending = some p := by
  unfold step at h ⊢
  dsimp only at h ⊢
  by_cases hlayout : ∀ p, s.stream.pending = some p → p.isLayout
  · rw [OpenStream.ask_peek_of_layout hlayout] at h ⊢
    cases hnext : s.stream.pastLayout.next with
    | mk answer tokenizer =>
      rw [hnext] at h
      cases answer with
      | ok q =>
        obtain rfl : q = p := by simpa using h
        exact ⟨OpenStream.isLayout_of_next_pastLayout (congrArg Prod.fst hnext), rfl⟩
      | error e => simp at h
  · obtain ⟨q, hpending, hq⟩ : ∃ q, s.stream.pending = some q ∧ q.isLayout = false := by
      simpa using hlayout
    rw [OpenStream.ask_peek_of_some hpending hq] at h ⊢
    obtain rfl : q = p := by simpa using h
    exact ⟨hq, hpending⟩

/-- The next token directly behind a look at it is the one that was seen. -/
theorem next_of_peek {p : Token} (h : (s.step .peek).1 = some (.ok p)) :
    ((s.step .peek).2.step .next).1 = some (.ok p) := by
  have hpending := (pending_of_peek h).2
  generalize (s.step .peek).2 = seen at hpending ⊢
  unfold step
  dsimp only
  rw [OpenStream.ask_next_of_some hpending]

end Session

/-! ### What is answered up to the first error -/

namespace Tokenizer

variable {t : Tokenizer} {n : Nat}

/-- Up to the next error the answers are the tokens that come up. -/
theorem answers_of_le (h : n ≤ t.upcoming.tokens.length) :
    t.tokens n = t.upcoming.tokens.take n ∧
      t.after n = { t with upcoming := ⟨t.upcoming.tokens.drop n, t.upcoming.ending⟩ } := by
  induction n with
  | zero => exact ⟨rfl, rfl⟩
  | succ n ih =>
    obtain ⟨htokens, hafter⟩ := ih (by omega)
    have hnext : (t.after n).next = (.ok t.upcoming.tokens[n],
        { t with upcoming := ⟨t.upcoming.tokens.drop (n + 1), t.upcoming.ending⟩ }) := by
      rw [hafter, List.drop_eq_getElem_cons h]
      rfl
    refine ⟨?_, congrArg Prod.snd hnext⟩
    rw [tokens, hnext, htokens, List.take_succ_eq_append_getElem h]
    rfl

/-- Behind the last token of a text that comes to its end, every answer is the end marker. -/
theorem answers_of_ok {line : Nat} (h : t.upcoming.ending = .ok line) (k : Nat) :
    t.tokens (t.upcoming.tokens.length + k) =
        t.upcoming.tokens ++ List.replicate k (Token.endMarker line) ∧
      t.after (t.upcoming.tokens.length + k) = { t with upcoming := ⟨[], .ok line⟩ } := by
  induction k with
  | zero =>
    obtain ⟨htokens, hafter⟩ := answers_of_le (t := t) le_rfl
    exact ⟨by simpa using htokens, by simpa [h] using hafter⟩
  | succ k ih =>
    obtain ⟨htokens, hafter⟩ := ih
    have hnext : (t.after (t.upcoming.tokens.length + k)).next =
        (.ok (Token.endMarker line), { t with upcoming := ⟨[], .ok line⟩ }) := by
      rw [hafter]
      rfl
    refine ⟨?_, congrArg Prod.snd hnext⟩
    rw [← Nat.add_assoc, tokens, hnext, htokens, List.replicate_succ', ← List.append_assoc]
    rfl

theorem isPrefix_tokens (t : Tokenizer) (n k : Nat) : t.tokens n <+: t.tokens (n + k) := by
  induction k with
  | zero => exact List.prefix_rfl
  | succ k ih => exact ih.trans (List.prefix_append ..)

/-- A text has its tokens answered, and then its end marker or its error. -/
theorem answers_start (source : String) :
    (start source).tokens (tokenize source).tokens.length = (tokenize source).tokens ∧
      ((start source).after (tokenize source).tokens.length).next.1 =
        (tokenize source).ending.map Token.endMarker := by
  obtain ⟨htokens, hafter⟩ := answers_of_le (t := start source) le_rfl
  rw [List.take_length] at htokens
  refine ⟨htokens, ?_⟩
  change ((start source).after (start source).upcoming.tokens.length).next.1 = _
  rw [hafter, List.drop_length]
  change Prod.fst (next ⟨⟨[], (tokenize source).ending⟩, _⟩) = _
  cases (tokenize source).ending <;> rfl

/-- The tokens answered to a text that comes to its end are its own, and then end markers. -/
theorem isPrefix_tokens_start {source : String} {line : Nat}
    (h : (tokenize source).ending = .ok line) (n : Nat) :
    (start source).tokens n <+:
      (tokenize source).tokens ++ List.replicate n (Token.endMarker line) := by
  have hall := isPrefix_tokens (start source) n (tokenize source).tokens.length
  rw [Nat.add_comm] at hall
  exact (answers_of_ok (t := start source) h n).1 ▸ hall

end Tokenizer

/-- Whatever is asked for, nothing is lost and nothing comes twice: the significant tokens handed out,
and the one put back, are those the tokenizer has answered. What is looked at is significant, and
comes next. -/
theorem handedOut_run (source : String) (requests : List Request) :
    (∃ n, ((Session.start source).run requests).stream.tokenizer = (Tokenizer.start source).after n ∧
        ((Session.start source).run requests).handedOut ++
            significant ((Session.start source).run requests).stream.pending.toList =
          significant ((Tokenizer.start source).tokens n)) ∧
      (∀ line, (tokenize source).ending = .ok line →
        ∃ k, ((Session.start source).run requests).handedOut <+:
          significant ((tokenize source).tokens ++ List.replicate k (Token.endMarker line))) ∧
      ∀ t, (((Session.start source).run requests).step .peek).1 = some (.ok t) →
        t.isLayout = false ∧
          ((((Session.start source).run requests).step .peek).2.step .next).1 = some (.ok t) := by
  have hfollows := (Session.follows_start source).run requests
  obtain ⟨ts, ⟨n, rfl, hafter⟩, heq⟩ := hfollows.answers
  refine ⟨⟨n, hafter.symm, heq⟩, fun line hline => ⟨n, ?_⟩, fun t ht =>
    ⟨(Session.pending_of_peek ht).1, Session.next_of_peek ht⟩⟩
  have hanswered := isPrefix_significant (Tokenizer.isPrefix_tokens_start hline n)
  rw [← heq] at hanswered
  exact (List.prefix_append ..).trans hanswered

/-- An indentation that matches no other is an error, and the names behind it are still there. -/
example :
    ((Session.start "if a:\n  b\n c").run
      [.next, .push, .peek, .next, .next, .next, .peek, .next, .next, .next, .next, .next,
        .next]).handedOut.map (·.text) = ["if", "a", ":", "b", "c"] := by
  decide +kernel

end PotExtract.Python
