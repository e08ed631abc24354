import PotExtract.ScanError
import PotExtract.Options

/-! Scanning configuration in ZCML for messages. Titles and descriptions of directives are
translatable where an element around them, or the directive itself, declares a domain. -/

namespace PotExtract.Zcml

open Text Markup

/-- The attributes that carry messages. -/
def translatable : List String := ["title", "description"]

/-- An attribute with its references replaced. -/
structure Setting where
  name : String
  value : String
  deriving DecidableEq, Repr

/-- An element whose end is not reached, with the domain in force inside of it. -/
structure OpenDirective where
  name : List Char
  domain : Option String
  deriving DecidableEq, Repr

/-- The attributes with their references replaced. -/
def unescapeAll : List WrittenAttribute → Except ReferenceFault (List Setting)
  | [] => .ok []
  | a :: rest => do
    let value ← unescape a.value
    let later ← unescapeAll rest
    return ⟨String.ofList a.name, String.ofList value⟩ :: later

/-- The attributes of a directive. A reference that is not understood counts before an attribute
that is not, since attributes are only read up to that one. -/
def settings (content : List Char) : Except ScanFault (List Setting) :=
  let written := attributes .strict content
  match unescapeAll written.read, written.fault with
  | .error fault, _ => .error (.reference fault)
  | .ok _, some fault => .error (.markup (.attribute fault))
  | .ok settings, none => .ok settings

/-- The domain in force inside of a directive: its own, or that of the directive around it. -/
def domainOf (settings : List Setting) (outer : Option String) : Option String :=
  ((settings.find? (·.name == "i18n_domain")).map (·.value)).or outer

/-- The messages of a directive on a line, where `domain` is in force. -/
def messagesOf (options : ScanOptions) (file : String) (line : Nat) (domain : Option String)
    (settings : List Setting) : List Message :=
  match domain with
  | none => []
  | some domain =>
    if options.domain.any (· != domain) then []
    else
      (settings.filter fun s => translatable.contains s.name && !s.value.isEmpty).map fun s =>
        { id := s.value, location := ⟨file, line⟩ }

/-- The domain in force behind the open directives, which are innermost first. -/
def domainIn : List OpenDirective → Option String
  | [] => none
  | d :: _ => d.domain

/-- The open directives and the messages behind an event, or its fault. -/
def step (options : ScanOptions) (file : String) (path : List OpenDirective) (e : Event) :
    Except ScanFault (List OpenDirective × List Message) :=
  match e.piece with
  | .start content => do
    let settings ← settings content
    let domain := domainOf settings (domainIn path)
    return (⟨tagName content, domain⟩ :: path, messagesOf options file e.line domain settings)
  | .empty content => do
    let settings ← settings content
    return (path, messagesOf options file e.line (domainOf settings (domainIn path)) settings)
  | .close name =>
    match path with
    | [] => .error (.unopenedEnd (String.ofList name))
    | d :: outer =>
      if d.name = name then .ok (outer, [])
      else .error (.otherEnd (String.ofList d.name) (String.ofList name))
  | _ => .ok (path, [])

/-- The messages of events, and the directives that are open behind them. -/
def walk (options : ScanOptions) (file : String) (path : List OpenDirective) :
    List Event → Except (ScanFault × Nat) (List OpenDirective × List Message)
  | [] => .ok (path, [])
  | e :: rest =>
    match step options file path e with
    | .error fault => .error (fault, e.line)
    | .ok (path, messages) =>
      (walk options file path rest).map fun (path, later) => (path, messages ++ later)

/-- The messages of a document, or the fault and its line. -/
def scanDocument (options : ScanOptions) (file : String) (source : List Char) :
    Except (ScanFault × Nat) (List Message) :=
  let read := documentEvents source
  match walk options file [] read.events, read.failure with
  | .error e, _ => .error e
  | .ok _, some f => .error (.markup (.piece f.fault), f.line)
  | .ok ([], messages), none => .ok messages
  | .ok (_ :: _, _), none => .error (.endInElement, 1 + lineFeeds source)

/-- The messages of a file. -/
def scan (options : ScanOptions) (file : String) (source : List Char) : ScanReport :=
  { outcome := (scanDocument options file source).mapError fun (fault, line) =>
      .parse file line fault }

end PotExtract.Zcml
