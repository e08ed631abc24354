import Mathlib.Data.List.Chain
import PotExtract.Comment.Collector
import PotExtract.Proofs.Catalog.Flags

/-! The comment that waits for a call, read off all comments that were collected. Those that are kept
and do not go to an earlier message stand in runs on consecutive lines, and the last of these runs is
what waits: its texts with spaces between them, and its flags. -/

namespace PotExtract

namespace CommentCollector

/-! ### The pending note -/

/-- The pending note behind one more that is loose. -/
def join (pending : Option Note) (note : Note) : Option Note :=
  match pending with
  | some pending => some (if pending.line + 1 = note.line then extend pending note else note)
  | none => some note

theorem line_of_note? {policy : CommentPolicy} {raw : String} {line : Nat} {note : Note}
    (h : note? policy raw line = some note) : note.line = line := by
  obtain ⟨text, -, rfl⟩ := Option.map_eq_some_iff.1 h
  rfl

theorem collect_loose (c : CommentCollector) (raw : String) {line : Nat} {previous : Option Nat}
    (h : previous ≠ some line) :
    (c.collect raw line previous).1 =
        { c with pending := (note? c.policy raw line).toList.foldl join c.pending } ∧
      ∀ note, (c.collect raw line previous).2 ≠ some (.previous note) := by
  unfold collect
  cases hn : note? c.policy raw line with
  | none => exact ⟨rfl, by simp⟩
  | some note =>
    have hline := line_of_note? hn
    dsimp only
    rw [if_neg h]
    cases hp : c.pending with
    | none => exact ⟨rfl, by simp⟩
    | some pending => exact ⟨by simp [join, hline], by simp⟩

theorem collect_beside (c : CommentCollector) (raw : String) {line : Nat} {previous : Option Nat}
    (h : previous = some line) : (c.collect raw line previous).1 = c := by
  unfold collect
  split
  · rfl
  · rw [if_pos h]

/-! ### Runs -/

/-- The note `b` is on the line below that of `a`. -/
def Follows (a b : Note) : Prop :=
  a.line + 1 = b.line

/-- The notes end in a run on consecutive lines, in front of which stands none that it follows. -/
def IsLastRun (notes run : List Note) : Prop :=
  ∃ before, notes = before ++ run ∧ run ≠ [] ∧ run.IsChain Follows ∧
    ∀ last ∈ before.getLast?, ∀ first ∈ run.head?, ¬ Follows last first

/-- A note is what a run comes to: it ends on the last line of the run, and has the texts that are
not empty with spaces between them, and the flags. -/
structure IsJoined (run : List Note) (note : Note) : Prop where
  line : ∃ last ∈ run.getLast?, note.line = last.line
  text : note.text = " ".intercalate ((run.map (·.text)).filter (· ≠ ""))
  flags : ∀ flag, flag ∈ note.flags ↔ ∃ part ∈ run, flag ∈ part.flags

variable {notes run : List Note} {pending note : Note}

theorem IsLastRun.concat_follows {last : Note} (h : IsLastRun notes run)
    (hlast : last ∈ run.getLast?) (hfollows : Follows last note) :
    IsLastRun (notes ++ [note]) (run ++ [note]) := by
  obtain ⟨before, rfl, hne, hchain, hgap⟩ := h
  refine ⟨before, List.append_assoc .., by simp, ?_, ?_⟩
  · refine List.isChain_append.2 ⟨hchain, .singleton _, fun x hx y hy => ?_⟩
    obtain rfl := Option.mem_unique hx hlast
    obtain rfl := Option.some.inj hy
    exact hfollows
  · rwa [List.head?_append_of_ne_nil _ hne]

theorem isLastRun_singleton (h : ∀ last ∈ notes.getLast?, ¬ Follows last note) :
    IsLastRun (notes ++ [note]) [note] :=
  ⟨notes, rfl, by simp, .singleton _, fun last hlast first hfirst =>
    Option.some.inj hfirst ▸ h last hlast⟩

theorem IsLastRun.getLast? (h : IsLastRun notes run) : run.getLast? = notes.getLast? := by
  obtain ⟨before, rfl, hne, -⟩ := h
  exact (List.getLast?_append_of_ne_nil _ hne).symm

/-! ### Texts with spaces between them -/

theorem intercalate_ne_empty {l : List String} (hne : l ≠ []) (h : ∀ text ∈ l, text ≠ "") :
    " ".intercalate l ≠ "" := by
  cases l with
  | nil => exact absurd rfl hne
  | cons first l =>
    have hfirst := h first List.mem_cons_self
    cases l with
    | nil => simpa using hfirst
    | cons second l => simp [String.intercalate_cons_cons, hfirst]

theorem joinTexts_intercalate (texts : List String) (text : String) :
    joinTexts (" ".intercalate (texts.filter (· ≠ ""))) text =
      " ".intercalate ((texts ++ [text]).filter (· ≠ "")) := by
  rw [List.filter_append, joinTexts]
  by_cases htext : text = ""
  · simp [htext]
  · have hfilter : [text].filter (· ≠ "") = [text] := by simp [htext]
    rw [hfilter, if_neg (by simpa using htext)]
    by_cases hnil : texts.filter (· ≠ "") = []
    · rw [hnil, List.nil_append, String.intercalate_singleton]
      rfl
    · have hne := intercalate_ne_empty hnil fun t ht => by simpa using (List.mem_filter.1 ht).2
      rw [if_neg (by simpa using hne), String.intercalate_append_of_ne_nil hnil (by simp),
        String.intercalate_singleton]

theorem isJoined_singleton (note : Note) : IsJoined [note] note where
  line := ⟨note, rfl, rfl⟩
  text := by
    by_cases htext : note.text = "" <;> simp [htext]
  flags flag := by simp

theorem IsJoined.concat (h : IsJoined run pending) (note : Note) :
    IsJoined (run ++ [note]) (extend pending note) where
  line := ⟨note, by simp, rfl⟩
  text := by
    rw [extend, h.text, joinTexts_intercalate, List.map_append]
    rfl
  flags flag := by
    rw [extend, mem_addFlags, h.flags]
    simp [or_and_right, exists_or]

/-! ### All comments -/

/-- What waits behind loose notes is what the last run of them comes to. -/
theorem foldl_join (hne : notes ≠ []) :
    ∃ run pending, notes.foldl join none = some pending ∧ IsLastRun notes run ∧
      IsJoined run pending := by
  induction notes using List.reverseRecOn with
  | nil => exact absurd rfl hne
  | append_singleton notes note ih =>
    rw [List.foldl_append, List.foldl_cons, List.foldl_nil]
    by_cases hnil : notes = []
    · subst hnil
      exact ⟨[note], note, rfl, isLastRun_singleton (by simp), isJoined_singleton note⟩
    · obtain ⟨run, pending, hpending, hrun, hjoined⟩ := ih hnil
      obtain ⟨last, hlast, hline⟩ := hjoined.line
      rw [hpending, join]
      by_cases hfollows : pending.line + 1 = note.line
      · rw [if_pos hfollows]
        rw [hline] at hfollows
        exact ⟨run ++ [note], _, rfl, hrun.concat_follows hlast hfollows, hjoined.concat note⟩
      · rw [if_neg hfollows]
        refine ⟨[note], note, rfl, isLastRun_singleton fun last' hlast' => ?_,
          isJoined_singleton note⟩
        rw [← hrun.getLast?] at hlast'
        rw [Option.mem_unique hlast' hlast, Follows, ← hline]
        exact hfollows

/-- A comment that is collected, with the line of the last message that was found. -/
structure Feed where
  raw : String
  line : Nat
  previous : Option Nat
  deriving DecidableEq, Repr

/-- The note that a comment is kept as, unless it goes to the last message. -/
def held? (policy : CommentPolicy) (f : Feed) : Option Note :=
  if f.previous = some f.line then none else note? policy f.raw f.line

/-- The comments that are kept and go to no earlier message. -/
def held (policy : CommentPolicy) (feeds : List Feed) : List Note :=
  feeds.filterMap (held? policy)

/-- The notes that are held are those that the collector says wait for a call. -/
theorem collect_eq_pending_iff (c : CommentCollector) (f : Feed) :
    (c.collect f.raw f.line f.previous).2 = some .pending ↔ (held? c.policy f).isSome := by
  unfold collect held?
  cases note? c.policy f.raw f.line with
  | none => simp
  | some note => by_cases h : f.previous = some f.line <;> simp [h]

/-- The collector behind a comment. -/
def feed (c : CommentCollector) (f : Feed) : CommentCollector :=
  (c.collect f.raw f.line f.previous).1

theorem feed_eq (c : CommentCollector) (f : Feed) :
    c.feed f = { c with pending := (held? c.policy f).toList.foldl join c.pending } := by
  by_cases h : f.previous = some f.line
  · rw [feed, collect_beside c f.raw h, held?, if_pos h]
    rfl
  · rw [feed, (collect_loose c f.raw h).1, held?, if_neg h]

/-- Behind any comments, the loose ones among them are joined in turn. -/
theorem foldl_feed (c : CommentCollector) (feeds : List Feed) :
    feeds.foldl feed c = { c with pending := (held c.policy feeds).foldl join c.pending } := by
  induction feeds generalizing c with
  | nil => rfl
  | cons f feeds ih =>
    have hheld : held c.policy (f :: feeds) = (held? c.policy f).toList ++ held c.policy feeds := by
      unfold held
      rw [List.filterMap_cons]
      cases held? c.policy f <;> rfl
    rw [List.foldl_cons, ih, feed_eq, hheld, List.foldl_append]

/-- Behind any comments, a call has one if the last of those that are kept and go to no earlier message
is on the line above it: what the last run of them on consecutive lines comes to. -/
theorem forCall_foldl_feed (policy : CommentPolicy) (feeds : List Feed) (line : Nat) :
    (((feeds.foldl feed { policy }).forCall line).isSome ↔
      ∃ last ∈ (held policy feeds).getLast?, last.line + 1 = line) ∧
    ∀ note, (feeds.foldl feed { policy }).forCall line = some note →
      ∃ run, IsLastRun (held policy feeds) run ∧ IsJoined run note := by
  rw [foldl_feed]
  by_cases hnil : held policy feeds = []
  · rw [hnil]
    exact ⟨by simp [forCall], by simp [forCall]⟩
  · obtain ⟨run, pending, hpending, hrun, hjoined⟩ := foldl_join hnil
    obtain ⟨last, hlast, hline⟩ := hjoined.line
    rw [hrun.getLast?] at hlast
    simp only [forCall, hpending]
    refine ⟨⟨fun h => ?_, ?_⟩, fun note hnote => ?_⟩
    · obtain ⟨note, hnote⟩ := Option.isSome_iff_exists.1 h
      obtain ⟨hpending, hon⟩ := Option.filter_eq_some_iff.1 hnote
      obtain rfl := Option.some.inj hpending
      exact ⟨last, hlast, hline ▸ eq_of_beq hon⟩
    · rintro ⟨last', hlast', hon⟩
      obtain rfl := Option.mem_unique hlast' hlast
      exact Option.isSome_iff_exists.2
        ⟨pending, Option.filter_eq_some_iff.2 ⟨rfl, beq_iff_eq.2 (hline ▸ hon)⟩⟩
    · obtain rfl := Option.some.inj (Option.filter_eq_some_iff.1 hnote).1
      exact ⟨run, hrun, hjoined⟩

end CommentCollector

end PotExtract
