import PotExtract.Python.Token

/-! A stream of tokens with a place for one token that was read too early. Behind the last token the
stream yields the end marker over and over. -/

namespace PotExtract.Python

/-- The tokens to come, and the token put back, if any. -/
structure TokenStream where
  upcoming : Lexed
  pending : Option Token := none

namespace TokenStream

/-- The next token of the text, and the text behind it. -/
def take (l : Lexed) : Except LexError (Token × Lexed) :=
  match l.tokens, l.ending with
  | t :: rest, ending => .ok (t, ⟨rest, ending⟩)
  | [], .ok line => .ok (Token.endMarker line, l)
  | [], .error e => .error e

/-- The next token, which is the one put back if there is one. -/
def next (s : TokenStream) : Except LexError (Token × TokenStream) :=
  match s.pending with
  | some t => .ok (t, { s with pending := none })
  | none => (take s.upcoming).map fun (t, l) => (t, ⟨l, none⟩)

/-- Puts a token back in front of the others. -/
def push (s : TokenStream) (t : Token) : TokenStream :=
  { s with pending := some t }

/-- The text behind the layout at its head. -/
def skipLayout (l : Lexed) : Lexed :=
  { l with tokens := l.tokens.dropWhile Token.isLayout }

/-- The next token that is no layout, which stays in the stream. Layout in front of it is lost. -/
def peek (s : TokenStream) : Except LexError (Token × TokenStream) :=
  match s.pending.filter (!·.isLayout) with
  | some t => .ok (t, s)
  | none => (take (skipLayout s.upcoming)).map fun (t, l) => (t, ⟨l, some t⟩)

end TokenStream

end PotExtract.Python
