import PotExtract.Python.Lexer
import PotExtract.Python.TokenStream

/-! Reading on behind an error. A text that has no tokens beyond some point may still be asked for
the next one: the reading goes on where it stopped, with the tokens made there before the error was
noticed. A string that is never closed takes the rest of the text with it, and an indentation that
matches no other is overlooked. -/

namespace PotExtract.Python

namespace Cursor

/-- Where the reading from the cursor on stops: at the first error, or at the end of the text. -/
def stop (c : Cursor) : Cursor :=
  match h : c.rest.dropWhile isGap with
  | [] => c
  | first :: rest =>
    match hs : c.step first rest with
    | .error _ => c
    | .ok (_, next) =>
      have : next.rest.length < c.rest.length := length_step_lt h hs
      next.stop
  termination_by c.rest.length

/-- What an error at the cursor leaves: the tokens that were made in front of it, and the cursor
from which the text is read on. -/
def recover (c : Cursor) : List Token × Cursor :=
  match c.rest.dropWhile isGap with
  | [] => ([], { c with rest := [], atLineStart := false })
  | first :: rest =>
    match c.layout with
    | .ok (changes, indents) => (changes, { c with rest := [], indents, atLineStart := false })
    | .error _ =>
      let width := column 0 (c.rest.takeWhile isGap)
      ((c.indents.takeWhile (width < ·)).map fun _ => ⟨.dedent, "", c.line⟩,
        { c with
          rest := first :: rest
          indents := c.indents.dropWhile (width < ·)
          atLineStart := false })

end Cursor

/-- A text that is read token by token: what comes up to the next error, and where the reading stops
then. -/
structure Tokenizer where
  upcoming : Lexed
  stop : Cursor

namespace Tokenizer

/-- The tokenizer that answers the tokens of `queue` first, and then those from the cursor on. -/
def behind (queue : List Token) (c : Cursor) : Tokenizer :=
  ⟨⟨queue ++ c.lex.tokens, c.lex.ending⟩, c.stop⟩

/-- The tokenizer of a text. -/
def start (source : String) : Tokenizer :=
  behind [] { rest := source.toList }

/-- The tokenizer behind the next error. -/
def resume (t : Tokenizer) : Tokenizer :=
  behind t.stop.recover.1 t.stop.recover.2

/-- The next token or error, and the tokenizer behind it. -/
def next (t : Tokenizer) : Except LexError Token × Tokenizer :=
  match TokenStream.take t.upcoming with
  | .ok (token, upcoming) => (.ok token, { t with upcoming })
  | .error e => (.error e, t.resume)

end Tokenizer

/-- A stream of tokens in use: it is asked again also behind an error. -/
structure OpenStream where
  tokenizer : Tokenizer
  pending : Option Token := none

namespace OpenStream

/-- The stream of a text. -/
def start (source : String) : OpenStream :=
  { tokenizer := .start source }

/-- The stream up to the next error. -/
def stream (s : OpenStream) : TokenStream :=
  ⟨s.tokenizer.upcoming, s.pending⟩

/-- The answer of the stream to a request for a token. An error loses the token put back, if any. -/
def ask (s : OpenStream) (request : TokenStream → Except LexError (Token × TokenStream)) :
    Except LexError Token × OpenStream :=
  match request s.stream with
  | .ok (t, stream) => (.ok t, ⟨{ s.tokenizer with upcoming := stream.upcoming }, stream.pending⟩)
  | .error e => (.error e, { tokenizer := s.tokenizer.resume })

/-- Puts a token back. -/
def push (s : OpenStream) (t : Token) : OpenStream :=
  { s with pending := (s.stream.push t).pending }

end OpenStream

end PotExtract.Python
