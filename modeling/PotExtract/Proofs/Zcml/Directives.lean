import PotExtract.Proofs.Markup.DocumentTree
import PotExtract.Zcml

/-! The messages of configuration by the elements that are open at each event. What is open is told
by looking back: a start tag is, unless an end tag behind it closes it. The nearest declaration
around a text is its domain, and a scan keeps one domain for each open element. -/

namespace PotExtract.Zcml

open Text Markup

/-! ### Open elements -/

/-- The settings of a tag that is understood. -/
def settingsOf (e : Event) : List Setting :=
  match e.piece with
  | .start content | .empty content => (settings content).toOption.getD []
  | _ => []

/-- The name of an element that a start tag opens. -/
def openName (e : Event) : List Char :=
  match e.piece with
  | .start content => tagName content
  | _ => []

/-- The start tags that are not closed, of events that are latest first and have `ends` more end
tags behind them. -/
def openBehind (ends : Nat) : List Event → List Event
  | [] => []
  | e :: earlier =>
    match e.piece, ends with
    | .close _, ends => openBehind (ends + 1) earlier
    | .start _, 0 => e :: openBehind 0 earlier
    | .start _, ends + 1 => openBehind ends earlier
    | _, ends => openBehind ends earlier

/-- The start tags of the elements that are open behind some events, innermost first. -/
def openAt (before : List Event) : List Event :=
  openBehind 0 before.reverse

/-- The event can follow where the elements of `around` are open: a tag is understood, and an end
tag has the name of the innermost element. -/
def Fits (around : List Event) (e : Event) : Prop :=
  match e.piece with
  | .start content | .empty content => ∃ list, settings content = .ok list
  | .close name => around.head?.map openName = some name
  | _ => True

/-- The events are well nested up to their end. -/
def IsNested (events : List Event) : Prop :=
  (∀ before e after, events = before ++ e :: after → Fits (openAt before) e) ∧ openAt events = []

theorem openBehind_succ (ends : Nat) (events : List Event) :
    openBehind (ends + 1) events = (openBehind ends events).tail := by
  induction events generalizing ends with
  | nil => rfl
  | cons e earlier ih =>
    unfold openBehind
    cases e.piece with
    | close => exact ih _
    | start => cases ends with
      | zero => rfl
      | succ ends => exact ih ends
    | _ => exact ih ends

theorem openAt_concat (before : List Event) (e : Event) :
    openAt (before ++ [e]) =
      match e.piece with
      | .start _ => e :: openAt before
      | .close _ => (openAt before).tail
      | _ => openAt before := by
  rw [openAt, List.reverse_concat, openBehind.eq_def, openAt]
  dsimp only
  cases e.piece with
  | close => exact openBehind_succ 0 _
  | _ => rfl

/-! ### Domains and messages -/

/-- The domain that an element declares. -/
def declaredDomain? (list : List Setting) : Option String :=
  (list.find? (·.name == "i18n_domain")).map (·.value)

/-- The domain that the nearest of some elements declares, which are innermost first. -/
def nearestDomain (around : List Event) : Option String :=
  around.findSome? fun e => declaredDomain? (settingsOf e)

/-- A setting that is a text to translate. -/
def Setting.IsText (s : Setting) : Prop :=
  (s.name = "title" ∨ s.name = "description") ∧ s.value ≠ ""

instance (s : Setting) : Decidable s.IsText :=
  inferInstanceAs (Decidable ((s.name = "title" ∨ s.name = "description") ∧ s.value ≠ ""))

/-- The messages of an event where the elements of `around` are open: one for each text, if the
nearest domain is a wanted one. -/
def messagesAt (options : ScanOptions) (file : String) (around : List Event) (e : Event) :
    List Message :=
  if (nearestDomain (e :: around)).any fun domain => options.domain.all (· == domain) then
    ((settingsOf e).filter (·.IsText)).map fun s => { id := s.value, location := ⟨file, e.line⟩ }
  else []

/-- The messages of events behind others. -/
def messagesBehind (options : ScanOptions) (file : String) (before : List Event) :
    List Event → List Message
  | [] => []
  | e :: rest =>
    messagesAt options file (openAt before) e ++ messagesBehind options file (before ++ [e]) rest

/-- The open elements as a scan keeps them: each with the domain in force in it. -/
def stack : List Event → List OpenDirective
  | [] => []
  | e :: outer => ⟨openName e, nearestDomain (e :: outer)⟩ :: stack outer

theorem length_stack (around : List Event) : (stack around).length = around.length := by
  induction around with
  | nil => rfl
  | cons e outer ih => rw [stack, List.length_cons, List.length_cons, ih]

theorem domainIn_stack (around : List Event) : domainIn (stack around) = nearestDomain around := by
  cases around <;> rfl

theorem nearestDomain_cons (e : Event) (around : List Event) :
    nearestDomain (e :: around) = domainOf (settingsOf e) (domainIn (stack around)) := by
  rw [domainIn_stack, domainOf, nearestDomain, List.findSome?_cons]
  show _ = (declaredDomain? (settingsOf e)).or _
  cases declaredDomain? (settingsOf e) <;> rfl

variable {options : ScanOptions} {file : String}

theorem messagesOf_eq (e : Event) (around : List Event) :
    messagesOf options file e.line (nearestDomain (e :: around)) (settingsOf e) =
      messagesAt options file around e := by
  have htext : (fun s : Setting => translatable.contains s.name && !s.value.isEmpty) =
      fun s => decide s.IsText := by
    funext s
    by_cases h : s.value = "" <;> simp [translatable, Setting.IsText, h]
  unfold messagesOf messagesAt
  cases nearestDomain (e :: around) with
  | none => rfl
  | some domain =>
    dsimp only
    rw [htext]
    cases options.domain with
    | none => rfl
    | some target => by_cases h : target = domain <;> simp [h]

theorem settingsOf_eq {e : Event} {content : List Char} {list : List Setting}
    (he : e.piece = .start content ∨ e.piece = .empty content) (h : settings content = .ok list) :
    settingsOf e = list := by
  unfold settingsOf
  rcases he with he | he
  · simp only [he, h]
    rfl
  · simp only [he, h]
    rfl

theorem messagesAt_of_settings {e : Event} (h : settingsOf e = []) (around : List Event) :
    messagesAt options file around e = [] := by
  rw [messagesAt, h]
  split <;> rfl

/-! ### Scanning -/

/-- What one event does to the elements that a scan keeps, and when it is refused. -/
theorem step_eq_ok_iff {before : List Event} {e : Event} {path : List OpenDirective}
    {messages : List Message} :
    step options file (stack (openAt before)) e = .ok (path, messages) ↔
      Fits (openAt before) e ∧ path = stack (openAt (before ++ [e])) ∧
        messages = messagesAt options file (openAt before) e := by
  rw [openAt_concat]
  obtain ⟨piece, written, offset, line⟩ := e
  cases piece with
  | start content =>
    rw [← messagesOf_eq, stack, nearestDomain_cons]
    simp only [step, Fits, bind_eq_ok, pure_eq_ok, Prod.mk.injEq]
    constructor
    · rintro ⟨list, h, rfl, rfl⟩
      rw [settingsOf_eq (.inl rfl) h]
      exact ⟨⟨list, h⟩, rfl, rfl⟩
    · rintro ⟨⟨list, h⟩, rfl, rfl⟩
      rw [settingsOf_eq (.inl rfl) h]
      exact ⟨list, h, rfl, rfl⟩
  | empty content =>
    rw [← messagesOf_eq, nearestDomain_cons]
    simp only [step, Fits, bind_eq_ok, pure_eq_ok, Prod.mk.injEq]
    constructor
    · rintro ⟨list, h, rfl, rfl⟩
      rw [settingsOf_eq (.inr rfl) h]
      exact ⟨⟨list, h⟩, rfl, rfl⟩
    · rintro ⟨⟨list, h⟩, rfl, rfl⟩
      rw [settingsOf_eq (.inr rfl) h]
      exact ⟨list, h, rfl, rfl⟩
  | close name =>
    rw [messagesAt_of_settings rfl]
    cases openAt before with
    | nil => simp [step, Fits, stack]
    | cons d outer =>
      by_cases hname : openName d = name
      · simp [step, Fits, stack, hname, eq_comm]
      · simp [step, Fits, stack, hname]
  | _ =>
    rw [messagesAt_of_settings rfl]
    simp [step, Fits, eq_comm]

theorem forall_split_cons {P : List Event → Event → Prop} {e : Event} {rest : List Event} :
    (∀ before x after, e :: rest = before ++ x :: after → P before x) ↔
      P [] e ∧ ∀ before x after, rest = before ++ x :: after → P (e :: before) x := by
  constructor
  · intro h
    refine ⟨h [] e rest rfl, ?_⟩
    rintro before x after rfl
    exact h (e :: before) x after rfl
  · rintro ⟨hfirst, hothers⟩ before x after heq
    cases before with
    | nil => cases heq; exact hfirst
    | cons y before => cases heq; exact hothers before x after rfl

/-- What events do behind others, and when they are refused. -/
theorem walk_eq_ok_iff {before events : List Event} {path : List OpenDirective}
    {messages : List Message} :
    walk options file (stack (openAt before)) events = .ok (path, messages) ↔
      (∀ between e after, events = between ++ e :: after → Fits (openAt (before ++ between)) e) ∧
        path = stack (openAt (before ++ events)) ∧
        messages = messagesBehind options file before events := by
  induction events generalizing before path messages with
  | nil => simp [walk, messagesBehind, eq_comm]
  | cons e rest ih =>
    rw [forall_split_cons, walk, messagesBehind, List.append_nil]
    cases hstep : step options file (stack (openAt before)) e with
    | error fault =>
      have hrefused : ¬ Fits (openAt before) e := by
        intro hfits
        rw [step_eq_ok_iff.2 ⟨hfits, rfl, rfl⟩] at hstep
        cases hstep
      simp [hrefused]
    | ok next =>
      obtain ⟨hfits, hpath, hmessages⟩ := step_eq_ok_iff.1 hstep
      -- The rest is scanned from the elements that are open behind `e`.
      have hlater := @ih (before ++ [e])
      simp only [List.append_assoc, List.singleton_append] at hlater
      dsimp only
      rw [hpath, hmessages]
      constructor
      · intro h
        obtain ⟨⟨path', later⟩, hwalk, heq⟩ := map_eq_ok.1 h
        cases heq
        obtain ⟨hothers, rfl, rfl⟩ := hlater.1 hwalk
        exact ⟨⟨hfits, hothers⟩, rfl, rfl⟩
      · rintro ⟨⟨-, hothers⟩, rfl, rfl⟩
        rw [hlater.2 ⟨hothers, rfl, rfl⟩]
        rfl

/-- Behind some events, a scan keeps the elements that they leave open. -/
theorem walk_of_isPrefix {events before : List Event} (h : IsNested events)
    (hbefore : before <+: events) :
    walk options file [] before =
      .ok (stack (openAt before), messagesBehind options file [] before) := by
  obtain ⟨rest, rfl⟩ := hbefore
  have hfits : ∀ between e after, before = between ++ e :: after → Fits (openAt between) e := by
    intro between e after heq
    exact h.1 between e (after ++ rest) (by rw [heq, List.append_assoc, List.cons_append])
  have hwalk := @walk_eq_ok_iff options file [] before
  exact hwalk.2 ⟨hfits, rfl, rfl⟩

theorem scanDocument_eq_ok_iff {source : List Char} {messages : List Message} :
    scanDocument options file source = .ok messages ↔
      (documentEvents source).failure = none ∧ IsNested (documentEvents source).events ∧
        messages = messagesBehind options file [] (documentEvents source).events := by
  have hwalk := @walk_eq_ok_iff options file [] (documentEvents source).events
  rw [List.nil_append] at hwalk
  unfold scanDocument
  dsimp only
  constructor
  · intro h
    split at h
    · cases h
    · cases h
    · next hok hfailure =>
      cases h
      obtain ⟨hfits, hopen, hmessages⟩ := hwalk.1 hok
      -- Nothing is kept at the end, so nothing is open.
      have hlength := congrArg List.length hopen
      rw [length_stack] at hlength
      exact ⟨hfailure, ⟨hfits, List.eq_nil_of_length_eq_zero hlength.symm⟩, hmessages⟩
    · cases h
  · rintro ⟨hfailure, ⟨hfits, hopen⟩, rfl⟩
    have hok := hwalk.2 ⟨hfits, rfl, rfl⟩
    rw [hopen] at hok
    rw [show walk options file [] _ = _ from hok, hfailure]
    rfl

/-- Well nested events have the messages of their elements, each by the nearest domain around it,
and one domain is kept for each open element on the way. A document has those of its events, on the
lines where their text starts, exactly if they are understood and well nested. With a byte order
mark in front, the lines do not hold. -/
theorem scan_directives (options : ScanOptions) (file : String) (events : List Event)
    (source : List Char) (messages : List Message) :
    (IsNested events → ∀ before, before <+: events →
      walk options file [] before =
          .ok (stack (openAt before), messagesBehind options file [] before) ∧
        (stack (openAt before)).length = (openAt before).length) ∧
    (source.head? ≠ some byteOrderMark →
      (scanDocument options file source = .ok messages ↔
        (Markup.events source).failure = none ∧ IsNested (Markup.events source).events ∧
          messages = messagesBehind options file [] (Markup.events source).events) ∧
      ArePlaced 1 source (Markup.events source).events) := by
  constructor
  · intro h before hbefore
    exact ⟨walk_of_isPrefix h hbefore, length_stack _⟩
  · intro hmark
    have hscan := @scanDocument_eq_ok_iff options file source messages
    rw [documentEvents_eq hmark] at hscan
    exact ⟨hscan, arePlaced_eventsFrom 0 1 source⟩

/-- A text has the nearest domain around it, which may be its own, and none behind the element that
declares one. -/
theorem scan_directives_nested :
    let source := "<a i18n_domain=\"d\" title=\"w\">\n<b i18n_domain=\"e\" title=\"x\">".toList ++
      "<c/></b>\n<b title=\"y\" description=\"z\"/>\n</a>".toList
    let message (id : String) (line : Nat) : Message := { id, location := ⟨"a.zcml", line⟩ }
    scanDocument { domain := some "d" } "a.zcml" source =
        .ok [message "w" 1, message "y" 3, message "z" 3] ∧
      IsNested (Markup.events source).events ∧
      ∃ earlier, walk { domain := some "d" } "a.zcml" [] ((Markup.events source).events.take 4) =
        .ok ([⟨['b'], some "e"⟩, ⟨['a'], some "d"⟩], earlier) := by
  intro source message
  have hmark : source.head? ≠ some byteOrderMark := by decide
  have hscan : scanDocument { domain := some "d" } "a.zcml" source =
      .ok [message "w" 1, message "y" 3, message "z" 3] := by decide +kernel
  let read := (Markup.events source).events
  have hdirectives := scan_directives { domain := some "d" } "a.zcml" read source
  obtain ⟨hread, -⟩ := (hdirectives _).2 hmark
  obtain ⟨-, hnested, -⟩ := hread.1 hscan
  obtain ⟨hwalk, -⟩ := (hdirectives []).1 hnested (read.take 4) (List.take_prefix 4 read)
  have hstack : stack (openAt (read.take 4)) = [⟨['b'], some "e"⟩, ⟨['a'], some "d"⟩] := by
    decide +kernel
  rw [hstack] at hwalk
  exact ⟨hscan, hnested, _, hwalk⟩

/-- Behind a byte order mark, the line of an element is looked up at a place three bytes earlier. -/
theorem not_forall_scan_markedDirectives :
    ¬ ∀ options file source messages, scanDocument options file source = .ok messages →
      messages = messagesBehind options file [] (Markup.events source).events := by
  intro h
  let source := byteOrderMark :: "\n<a i18n_domain=\"d\" title=\"x\"/>".toList
  have hscan : scanDocument {} "a.zcml" source =
      .ok [{ id := "x", location := ⟨"a.zcml", 1⟩ }] := by decide +kernel
  have hmessages : messagesBehind {} "a.zcml" [] (Markup.events source).events =
      [{ id := "x", location := ⟨"a.zcml", 2⟩ }] := by decide +kernel
  have hline := (h _ _ _ _ hscan).trans hmessages
  exact absurd hline (by decide)

end PotExtract.Zcml
