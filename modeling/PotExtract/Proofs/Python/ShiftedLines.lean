import PotExtract.Python.Scan

/-! Source with lines in front of it. A scan counts the lines within its source, and adds those in
front of it only to what it reports: every message, every remark and the failure stand that many
lines further down, and nothing else of them changes. -/

namespace PotExtract

/-- The message `k` lines further down. -/
def Message.below (k : Nat) (m : Message) : Message :=
  { m with location := { m.location with line := m.location.line + k } }

/-- The remark `k` lines further down. -/
def Remark.below (k : Nat) (r : Remark) : Remark :=
  { r with line := r.line + k }

namespace Python

/-- The failure `k` lines further down. -/
def ScanFailure.below (k : Nat) (e : ScanFailure) : ScanFailure :=
  { e with line := e.line + k }

/-- The context of source with `k` more lines in front of it. -/
def ScanContext.below (k : Nat) (ctx : ScanContext) : ScanContext :=
  { ctx with offset := ctx.offset + k }

namespace ScanState

variable {ctx : ScanContext} {k : Nat}

/-- The state with all that it reports `k` lines further down. The lines in its mode, its comments
and that of the last message count within the source, and stay. -/
def below (k : Nat) (s : ScanState) : ScanState :=
  { s with messages := s.messages.map (.below k), remarks := s.remarks.map (.below k) }

@[simp] theorem mode_below (s : ScanState) : (s.below k).mode = s.mode := rfl

@[simp] theorem comments_below (s : ScanState) : (s.below k).comments = s.comments := rfl

@[simp] theorem lastLine_below (s : ScanState) : (s.below k).lastLine = s.lastLine := rfl

theorem modify_annotate_below (note : Note) (messages : List Message) (i : Nat) :
    (messages.map (.below k)).modify i (annotate note) =
      (messages.modify i (annotate note)).map (.below k) := by
  refine List.ext_getElem? fun j => ?_
  simp only [List.getElem?_modify, List.getElem?_map]
  cases messages[j]? with
  | none => rfl
  | some m =>
    dsimp only [Option.map_some, Option.map_eq_map]
    split <;> rfl

theorem takeComment_below (s : ScanState) (t : Token) :
    (s.below k).takeComment t = (s.takeComment t).below k := by
  unfold takeComment
  rw [comments_below, lastLine_below]
  split
  · simp only [below, List.length_map, modify_annotate_below]
  · rfl

theorem messageOf_below (comments : CommentCollector) (line : Nat) (r : Resolved) :
    messageOf (ctx.below k) comments line r = (messageOf ctx comments line r).below k := by
  simp only [messageOf, Message.below, ScanContext.below, Nat.add_right_comm]

theorem remark_below (s : ScanState) (line : Nat) (oversight : Oversight) :
    (s.below k).remark (ctx.below k) line oversight = (s.remark ctx line oversight).below k := by
  simp [remark, below, ScanContext.below, Remark.below, Nat.add_right_comm]

theorem emit_below (s : ScanState) (c : Call) (r : Resolved) :
    (s.below k).emit (ctx.below k) c r = (s.emit ctx c r).below k := by
  -- whether a message is wanted does not depend on its line
  have hwanted (m : Message) : (m.below k).matchesDomain (ctx.below k).options.domain =
      m.matchesDomain ctx.options.domain := rfl
  unfold emit
  split
  · exact remark_below s c.line _
  · dsimp only
    rw [comments_below, messageOf_below, hwanted]
    split
    · simp [below]
    · rfl

theorem close_below (s : ScanState) (c : Call) :
    (s.below k).close (ctx.below k) c = (s.close ctx c).map (below k) := by
  have hresolve : resolve (ctx.below k) c = resolve ctx c := rfl
  unfold close
  rw [hresolve]
  split
  · rfl
  · rw [remark_below]
    rfl
  · rfl
  · rw [emit_below]
    rfl

theorem takeInCall_below (s : ScanState) (c : Call) (t : Token) :
    (s.below k).takeInCall (ctx.below k) c t = (s.takeInCall ctx c t).map (below k) := by
  unfold takeInCall
  cases c.take t with
  | error e => rfl
  | ok step =>
    cases step with
    | more c => rfl
    | closed c => exact close_below { s with mode := .outside } c

theorem takeSignificant_below (s : ScanState) (t : Token) :
    (s.below k).takeSignificant (ctx.below k) t = (s.takeSignificant ctx t).map (below k) := by
  unfold takeSignificant
  dsimp only
  rw [mode_below]
  split
  · rfl
  · rfl
  · next c _ =>
    exact takeInCall_below { s with inDefinition := t.text == "def" || t.text == "class" } c t

theorem settleName_below (s : ScanState) (t : Token) :
    (s.below k).settleName t = (s.settleName t).below k := by
  unfold settleName
  rw [mode_below]
  split
  · split <;> rfl
  · rfl

/-- What a token changes does not depend on the lines in front of the source. -/
theorem take_below (s : ScanState) (t : Token) :
    (s.below k).take (ctx.below k) t = (s.take ctx t).map (below k) := by
  have hnested : (s.below k).isNested = s.isNested := rfl
  have hstarts : (s.below k).startsCall (ctx.below k) t = s.startsCall ctx t := rfl
  unfold take
  rw [hnested, mode_below, hstarts]
  split
  · exact takeSignificant_below s t
  split
  · rw [settleName_below, takeComment_below]
    rfl
  split
  · rfl
  split
  · rfl
  · exact takeSignificant_below s t

theorem takeAll_below (s : ScanState) (ts : List Token) :
    takeAll (ctx.below k) (s.below k) ts = ((takeAll ctx s ts).1.below k, (takeAll ctx s ts).2) := by
  induction ts generalizing s with
  | nil => rfl
  | cons t ts ih =>
    simp only [takeAll, take_below]
    cases s.take ctx t with
    | error e => rfl
    | ok s' => exact ih s'

end ScanState

variable {k : Nat}

/-- Two whole scans of one source end in states that differ in the lines of their reports. -/
theorem scanTokens_below (ctx : ScanContext) (source : Lexed) :
    scanTokens (ctx.below k) source =
      ((scanTokens ctx source).1.below k, (scanTokens ctx source).2) := by
  have hall : ScanState.takeAll (ctx.below k) (.start (ctx.below k)) source.tokens = _ :=
    ScanState.takeAll_below (ScanState.start ctx) source.tokens
  unfold scanTokens
  rw [hall]
  cases h : ScanState.takeAll ctx (.start ctx) source.tokens with
  | mk s failure =>
    cases failure with
    | some e => rfl
    | none => cases source.ending <;> rfl

/-- With more lines in front of a source, everything that its scan reports moves by that many
lines. -/
theorem scanWithRemarks_below (ctx : ScanContext) (source : String) :
    scanWithRemarks (ctx.below k) source =
      ((scanWithRemarks ctx source).1.map (.below k),
        ((scanWithRemarks ctx source).2.map (List.map (.below k))).mapError (.below k)) := by
  unfold scanWithRemarks
  rw [scanTokens_below]
  cases h : scanTokens ctx (tokenize source) with
  | mk s failure =>
    cases failure with
    | none => rfl
    | some e =>
      dsimp only [ScanContext.below]
      rw [Nat.add_right_comm]
      rfl

/-- A scan of source that stands behind `k` lines of its file gives the messages of a scan that
starts at the first line, or its failure, `k` lines further down: their texts, comments, flags and
order do not depend on `k`. -/
theorem scan_offset (options : ScanOptions) (file source : String) (k : Nat) :
    scan ⟨options, file, k⟩ source =
      ((scan ⟨options, file, 0⟩ source).map (List.map (Message.below k))).mapError
        (ScanFailure.below k) := by
  have hctx : (⟨options, file, k⟩ : ScanContext) = ScanContext.below k ⟨options, file, 0⟩ := by
    rw [ScanContext.below, Nat.zero_add]
  unfold scan
  rw [hctx, scanWithRemarks_below]

end Python

end PotExtract
