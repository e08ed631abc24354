import PotExtract.Po.Reader
import PotExtract.Proofs.Text.Lines
import PotExtract.Proofs.Text.Trim

/-! Flags between commas. A flag is read as it was written if it holds neither a comma nor a line
feed and has no white space at its ends, and the flags that are read are all of that kind. -/

namespace PotExtract.Po

open Text

/-- A flag that is read as it was written. -/
structure IsFlag (flag : String) : Prop where
  nonempty : flag ≠ ""
  noComma : ',' ∉ flag.toList
  noFeed : '\n' ∉ flag.toList
  trimmed : trim flag.toList = flag.toList

instance (flag : String) : Decidable (IsFlag flag) :=
  decidable_of_iff
    (flag ≠ "" ∧ ',' ∉ flag.toList ∧ '\n' ∉ flag.toList ∧ trim flag.toList = flag.toList)
    ⟨fun h => ⟨h.1, h.2.1, h.2.2.1, h.2.2.2⟩, fun h => ⟨h.1, h.2, h.3, h.4⟩⟩

/-- The pieces between commas that hold anything. -/
def flagPieces (s : List Char) : List String :=
  ((s.splitOn ',').map fun f => String.ofList (trim f)).filter fun f => !f.isEmpty

theorem flagPieces_append_cons (s t : List Char) :
    flagPieces (s ++ ',' :: t) = flagPieces s ++ flagPieces t := by
  rw [flagPieces, splitOn_append_cons, List.map_append, List.filter_append]
  rfl

theorem flagPieces_space (s : List Char) : flagPieces (' ' :: s) = flagPieces s := by
  have hsplit : (' ' :: s).splitOn ',' = (s.splitOn ',').modifyHead (' ' :: ·) := by
    rw [List.splitOn_eq_splitOnP, List.splitOnP_cons_eq_if_modifyHead]
    rfl
  have htrim : ∀ p, trim (' ' :: p) = trim p := by
    intro p
    rw [trim, trim, trimLeft, List.dropWhile_cons_of_pos (by decide)]
    rfl
  rw [flagPieces, hsplit, flagPieces]
  cases s.splitOn ',' with
  | nil => rfl
  | cons p ps => rw [List.modifyHead_cons, List.map_cons, List.map_cons, htrim]

theorem flagPieces_of_isFlag {flag : String} (h : IsFlag flag) :
    flagPieces flag.toList = [flag] := by
  have hne : flag.isEmpty = false := by simpa using h.nonempty
  rw [flagPieces, List.splitOn_eq_singleton h.noComma, List.map_singleton, h.trimmed,
    String.ofList_toList]
  simp [hne]

theorem flagPieces_intercalate {flags : List String} (h : ∀ f ∈ flags, IsFlag f) :
    flagPieces (", ".intercalate flags).toList = flags := by
  rw [String.toList_intercalate]
  induction flags with
  | nil => decide
  | cons f flags ih =>
    obtain ⟨hf, hflags⟩ := List.forall_mem_cons.1 h
    cases flags with
    | nil => simpa using flagPieces_of_isFlag hf
    | cons g flags =>
      have hsep : ", ".toList = [',', ' '] := rfl
      rw [List.map_cons, List.map_cons, List.intercalate_cons_cons, hsep, List.append_assoc,
        List.cons_append, flagPieces_append_cons, List.singleton_append, flagPieces_space,
        flagPieces_of_isFlag hf, ← List.map_cons, ← hsep, ih hflags]
      rfl

theorem not_mem_intercalate {flags : List String} (h : ∀ f ∈ flags, IsFlag f) :
    '\n' ∉ (", ".intercalate flags).toList := by
  rw [String.toList_intercalate]
  induction flags with
  | nil => decide
  | cons f flags ih =>
    obtain ⟨hf, hflags⟩ := List.forall_mem_cons.1 h
    cases flags with
    | nil => simpa using hf.noFeed
    | cons g flags =>
      have hrest := ih hflags
      rw [List.map_cons, List.map_cons, List.intercalate_cons_cons, ← List.map_cons]
      simp only [List.mem_append, not_or]
      exact ⟨⟨hf.noFeed, by decide⟩, hrest⟩

theorem splitFlags_intercalate {flags : List String} (h : ∀ f ∈ flags, IsFlag f) :
    splitFlags (", ".intercalate flags).toList = flags := by
  have hfilter : (", ".intercalate flags).toList.filter (· != '\n') =
      (", ".intercalate flags).toList := by
    refine List.filter_eq_self.2 fun c hc => ?_
    rw [bne_iff_ne]
    rintro rfl
    exact not_mem_intercalate h hc
  show flagPieces ((", ".intercalate flags).toList.filter (· != '\n')) = flags
  rw [hfilter, flagPieces_intercalate h]

theorem isFlag_of_mem_splitFlags {s : List Char} {flag : String} (h : flag ∈ splitFlags s) :
    IsFlag flag := by
  obtain ⟨hmem, hne⟩ := List.mem_filter.1 h
  obtain ⟨p, hp, rfl⟩ := List.mem_map.1 hmem
  have hchar : ∀ c ∈ trim p, c ≠ ',' ∧ c ≠ '\n' := by
    intro c hc
    have hchar := of_mem_splitOn hp (mem_of_mem_trim hc)
    have hfeed := (List.mem_filter.1 hchar.2).2
    exact ⟨hchar.1, by simpa using hfeed⟩
  constructor
  · simpa using hne
  · rw [String.toList_ofList]
    exact fun hc => (hchar _ hc).1 rfl
  · rw [String.toList_ofList]
    exact fun hc => (hchar _ hc).2 rfl
  · rw [String.toList_ofList, trim_trim]

theorem getLast?_intercalate (sep : List Char) {l : List Char} (hl : l ≠ [])
    (ls : List (List Char)) : (sep.intercalate (ls ++ [l])).getLast? = l.getLast? := by
  induction ls with
  | nil => simp
  | cons k ls ih =>
    cases hrest : ls ++ [l] with
    | nil => simp at hrest
    | cons m ms =>
      have hne : sep.intercalate (m :: ms) ≠ [] := by
        intro hnil
        rw [hrest, hnil, List.getLast?_nil] at ih
        exact hl (List.getLast?_eq_none_iff.1 ih.symm)
      rw [List.cons_append, hrest, List.intercalate_cons_cons,
        List.getLast?_append_of_ne_nil _ hne, ← hrest, ih]

/-- The flags of a line do not end in a carriage return. -/
theorem chomp_flags {flags : List String} (h : ∀ f ∈ flags, IsFlag f) (hne : flags ≠ []) :
    chomp ("#, ".toList ++ (", ".intercalate flags).toList) =
      "#, ".toList ++ (", ".intercalate flags).toList := by
  obtain ⟨others, f, rfl⟩ : ∃ others f, flags = others ++ [f] :=
    ⟨_, _, (List.dropLast_concat_getLast hne).symm⟩
  have hf : IsFlag f := h f (by simp)
  have hfne : f.toList ≠ [] := by simpa using hf.nonempty
  have hlast : (", ".intercalate (others ++ [f])).toList.getLast? = f.toList.getLast? := by
    rw [String.toList_intercalate, List.map_append, List.map_singleton, getLast?_intercalate _ hfne]
  have hreturn : f.toList.getLast? ≠ some '\r' := by
    intro hend
    rw [← hf.trimmed] at hend
    have := getLast?_trimRight hend
    simp [isBlank] at this
  have htext : (", ".intercalate (others ++ [f])).toList ≠ [] := by
    intro hnil
    rw [hnil, List.getLast?_nil] at hlast
    exact hfne (List.getLast?_eq_none_iff.1 hlast.symm)
  rw [chomp, List.getLast?_append_of_ne_nil _ htext, hlast, if_neg hreturn]

end PotExtract.Po
