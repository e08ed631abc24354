import PotExtract.Proofs.Python.Findings
import PotExtract.Proofs.Python.Lexing

/-! The lines of findings. A call is found once it is closed, on the line of its function, so only
the comments inside of a call can stand below a finding that follows them. -/

namespace PotExtract.Python

/-- The line of a finding. -/
def Finding.line : Finding → Nat
  | .comment _ line => line
  | .call line _ => line

/-- A finding behind a call is not above it. -/
def Finding.IsBefore (f g : Finding) : Prop :=
  ∀ line r, f = .call line r → line ≤ g.line

namespace ScanState

variable {ctx : ScanContext} {s s' : ScanState} {t : Token}

/-- The line of the function whose call a scan is at or in. -/
def functionLine? (s : ScanState) : Option Nat :=
  match s.mode with
  | .outside => none
  | .named _ line => some line
  | .inCall c => some c.line

theorem functionLine?_of_control (h : s'.control = s.control) :
    s'.functionLine? = s.functionLine? := by
  simp only [functionLine?, show s'.mode = s.mode from (Prod.mk.inj h).1]

theorem functionLine?_takeSignificant (h : s.takeSignificant ctx t = .ok s') :
    s'.functionLine? = none ∨ s'.functionLine? = s.functionLine? := by
  unfold takeSignificant at h
  dsimp only at h
  cases hm : s.mode with
  | outside =>
    rw [hm] at h
    cases h
    exact .inl rfl
  | named function line =>
    rw [hm] at h
    cases h
    by_cases ht : t.isOperator "("
    · simp [functionLine?, hm, ht]
    · simp [functionLine?, ht]
  | inCall c =>
    rw [hm] at h
    rcases takeInCall_cases h with ⟨d, hd, rfl⟩ | ⟨d, -, h⟩
    · simp [functionLine?, hm, Call.line_take hd]
    · exact .inl (functionLine?_of_control (control_close h))

theorem functionLine?_settleName (s : ScanState) (t : Token) :
    (s.settleName t).functionLine? = s.functionLine? := by
  unfold settleName
  split
  · next c hc =>
    split
    · simp [functionLine?, hc, Call.line_endName]
    · rfl
  · rfl

/-- A scan is at or in the call that it was at or in, or at the function that it comes to. -/
theorem functionLine?_take (h : s.take ctx t = .ok s') :
    s'.functionLine? = none ∨ s'.functionLine? = s.functionLine? ∨
      s'.functionLine? = some t.line := by
  unfold take at h
  split at h
  · exact (functionLine?_takeSignificant h).imp_right .inl
  split at h
  · cases h
    rw [functionLine?_of_control (control_takeComment _ t), functionLine?_settleName]
    exact .inr (.inl rfl)
  split at h
  · cases h
    exact .inr (.inl rfl)
  split at h
  · cases h
    exact .inr (.inr rfl)
  · exact (functionLine?_takeSignificant h).imp_right .inl

/-- A call is found on the line of its function. -/
theorem line_finding? {f : Finding} (h : s.finding? ctx t = some f) :
    f = .comment t.text t.line ∨ ∃ line r, f = .call line r ∧ s.functionLine? = some line := by
  unfold finding? at h
  split at h
  · cases h
  split at h
  · cases h
    exact .inl rfl
  split at h
  · next c hm =>
    split at h
    · next d hd =>
      unfold callFinding? at h
      split at h
      · split at h
        · cases h
        · cases h
          exact .inr ⟨_, _, rfl, by simp [functionLine?, hm, Call.line_of_closed hd]⟩
      · cases h
    · cases h
  · cases h

theorem le_line_of_mem_findings {ts : List Token} {b : Nat} (hts : ∀ t ∈ ts, b ≤ t.line)
    (hs : ∀ line ∈ s.functionLine?, b ≤ line) : ∀ f ∈ findings ctx s ts, b ≤ f.line := by
  induction ts generalizing s with
  | nil => simp [findings]
  | cons t ts ih =>
    obtain ⟨ht, hts⟩ := List.forall_mem_cons.1 hts
    intro f hf
    unfold findings at hf
    split at hf
    · next s' hs' =>
      rcases List.mem_append.1 hf with hf | hf
      · rcases line_finding? (Option.mem_toList.1 hf) with rfl | ⟨line, r, rfl, hline⟩
        · exact ht
        · exact hs line hline
      · refine ih hts (fun line hline => ?_) f hf
        rcases functionLine?_take hs' with h | h | h
        · simp [h] at hline
        · exact hs line (h ▸ hline)
        · rw [h] at hline
          cases hline
          exact ht
    · cases hf

/-- Findings are in the order of their lines, but for comments inside of a call. -/
theorem pairwise_findings {ts : List Token} (hts : ts.Pairwise (·.line ≤ ·.line))
    (hs : ∀ line ∈ s.functionLine?, ∀ t ∈ ts, line ≤ t.line) :
    (findings ctx s ts).Pairwise Finding.IsBefore := by
  induction ts generalizing s with
  | nil => exact .nil
  | cons t ts ih =>
    obtain ⟨ht, hts⟩ := List.pairwise_cons.1 hts
    unfold findings
    split
    · next s' hs' =>
      have hline : ∀ line ∈ s'.functionLine?, ∀ u ∈ ts, line ≤ u.line := by
        intro line hline u hu
        rcases functionLine?_take hs' with h | h | h
        · simp [h] at hline
        · exact hs line (h ▸ hline) u (List.mem_cons_of_mem t hu)
        · rw [h] at hline
          cases hline
          exact ht u hu
      refine List.pairwise_append.2 ⟨by cases s.finding? ctx t <;> simp, ih hts hline, ?_⟩
      intro f hf g hg line r hfr
      rcases line_finding? (Option.mem_toList.1 hf) with rfl | ⟨line, r, rfl, hl⟩
      · cases hfr
      · cases hfr
        refine le_line_of_mem_findings (fun u hu => ?_) (fun l hl' => ?_) g hg
        · exact hs line hl u (List.mem_cons_of_mem t hu)
        · rcases functionLine?_take hs' with h | h | h
          · simp [h] at hl'
          · rw [h, hl] at hl'
            cases hl'
            exact Nat.le_refl _
          · rw [h] at hl'
            cases hl'
            exact hs line hl t List.mem_cons_self
    · exact .nil

end ScanState

theorem pairwise_findings (ctx : ScanContext) (source : String) :
    (findings ctx source).Pairwise Finding.IsBefore :=
  ScanState.pairwise_findings (lines_tokenize source) fun _ h => nomatch h

end PotExtract.Python
