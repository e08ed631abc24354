import PotExtract.Proofs.Python.CommentPlaces
import PotExtract.Proofs.Python.FindingLines

/-! Scans that want the messages of one domain only. Such a scan passes over the calls of other
domains as if they were not there, also when a comment stands beside one of them. -/

namespace PotExtract.Python

/-- The settings with another domain. -/
def ScanContext.inDomain (ctx : ScanContext) (domain : Option String) : ScanContext :=
  { ctx with options := { ctx.options with domain := domain } }

/-- A message without what comments add to it. -/
def bare (m : Message) : Message :=
  { m with comment := "", flags := [] }

section Clear

variable {policy : CommentPolicy} {counts : Resolved → Bool} {before fs : List Finding}

/-- No comment stands beside a call that does not count. -/
def IsClear (policy : CommentPolicy) (counts : Resolved → Bool) (site : CallSite) : Prop :=
  counts site.fields = false → beside policy (fun _ => true) site.line site.after = []

theorem beside_eq_nil {line : Nat} (h : ∀ f ∈ fs, line < f.line) :
    beside policy counts line fs = [] := by
  induction fs with
  | nil => rfl
  | cons f fs ih =>
    obtain ⟨hf, hfs⟩ := List.forall_mem_cons.1 h
    cases f with
    | comment text l =>
      have : l ≠ line := Nat.ne_of_gt hf
      simp [beside, this, ih hfs]
    | call l r => simp [beside, ih hfs]

/-- If no comment stands beside a call that does not count, the comments beside the others are the
same as if all calls counted. -/
theorem beside_eq {line : Nat} (hclear : ∀ site ∈ sitesFrom before fs, IsClear policy counts site)
    (hline : ∀ f ∈ fs, line ≤ f.line) (hfs : fs.Pairwise Finding.IsBefore) :
    beside policy counts line fs = beside policy (fun _ => true) line fs := by
  induction fs generalizing before with
  | nil => rfl
  | cons f fs ih =>
    cases f with
    | comment text l =>
      simp only [beside, ih hclear (List.forall_mem_cons.1 hline).2 (List.pairwise_cons.1 hfs).2]
    | call l r =>
      obtain ⟨hsite, hclear⟩ := List.forall_mem_cons.1 hclear
      obtain ⟨hl, hline⟩ := List.forall_mem_cons.1 hline
      obtain ⟨hf, hfs⟩ := List.pairwise_cons.1 hfs
      by_cases hr : counts r
      · simp [beside, hr]
      · have hnil : beside policy (fun _ => true) l fs = [] := hsite (by simpa using hr)
        simp only [beside, hr, if_false, if_true, Bool.false_eq_true]
        rcases Nat.lt_or_eq_of_le hl with hlt | heq
        · exact beside_eq_nil fun g hg => Nat.lt_of_lt_of_le hlt (hf g hg l r rfl)
        · rw [ih hclear hline hfs]
          exact (show line = l from heq) ▸ hnil

/-- If no comment stands beside a call that does not count, the loose comments are the same as if
all calls counted. The last call that counts is on line `last`, and the last one of all on line
`lastOfAll`. -/
theorem loose_eq (before : List Finding) {last lastOfAll : Option Nat}
    (hclear : ∀ site ∈ sitesFrom before fs, IsClear policy counts site)
    (hlast : last = lastOfAll ∨ ∃ l, lastOfAll = some l ∧
      beside policy (fun _ => true) l fs = [] ∧ (∀ f ∈ fs, l ≤ f.line) ∧ ∀ l' ∈ last, l' ≤ l)
    (hline : ∀ l ∈ last, ∀ f ∈ fs, l ≤ f.line) (hfs : fs.Pairwise Finding.IsBefore) :
    loose policy counts last fs = loose policy (fun _ => true) lastOfAll fs := by
  induction fs generalizing before last lastOfAll with
  | nil => rfl
  | cons f fs ih =>
    obtain hline' : ∀ l ∈ last, ∀ f ∈ fs, l ≤ f.line :=
      fun l hl g hg => hline l hl g (List.mem_cons_of_mem f hg)
    cases f with
    | comment text line =>
      have hfs := (List.pairwise_cons.1 hfs).2
      simp only [loose]
      rcases hlast with rfl | ⟨l, rfl, hnil, hle, hlast⟩
      · rw [ih _ hclear (.inl rfl) hline' hfs]
      obtain ⟨hl, hle⟩ := List.forall_mem_cons.1 hle
      simp only [beside, List.append_eq_nil_iff] at hnil
      rw [ih _ hclear (.inr ⟨l, rfl, hnil.2, hle, hlast⟩) hline' hfs]
      by_cases hcomment : line = l
      · -- the comment is not kept, so it does not matter which call it stands beside
        rw [if_pos hcomment] at hnil
        simp [hnil.1]
      · have hlast : last ≠ some line := by
          intro h
          exact hcomment (Nat.le_antisymm (hlast line h) hl)
        have : l ≠ line := fun h => hcomment h.symm
        simp [hlast, this]
    | call line r =>
      obtain ⟨hsite, hclear⟩ := List.forall_mem_cons.1 hclear
      obtain ⟨hf, hfs⟩ := List.pairwise_cons.1 hfs
      have hf : ∀ f ∈ fs, line ≤ f.line := fun f hmem => hf f hmem line r rfl
      simp only [loose, if_true]
      by_cases hr : counts r
      · rw [if_pos hr]
        refine ih _ hclear (.inl rfl) (fun l hl => ?_) hfs
        cases hl
        exact hf
      · rw [if_neg hr]
        have hnil : beside policy (fun _ => true) line fs = [] := hsite (by simpa using hr)
        exact ih _ hclear (.inr ⟨line, rfl, hnil, hf, fun l hl => hline l hl _ List.mem_cons_self⟩)
          hline' hfs

end Clear

theorem beside_eq_nil_of_append {policy : CommentPolicy} {counts : Resolved → Bool} {line : Nat}
    {fs gs : List Finding} (h : beside policy counts line (fs ++ gs) = []) :
    beside policy counts line fs = [] := by
  fun_induction beside policy counts line fs with
  | case1 => rfl
  | case2 text l fs ih =>
    simp only [List.cons_append, beside, List.append_eq_nil_iff] at h
    rw [h.1, ih h.2, List.append_nil]
  | case3 l r fs hr => rfl
  | case4 l r fs hr ih =>
    rw [List.cons_append, beside, if_neg hr] at h
    exact ih h

/-- The calls that stay when findings are cut off behind `fs`. -/
theorem exists_mem_sitesFrom_append {before fs : List Finding} {site : CallSite}
    (gs : List Finding) (h : site ∈ sitesFrom before fs) :
    { site with after := site.after ++ gs } ∈ sitesFrom before (fs ++ gs) := by
  fun_induction sitesFrom before fs with
  | case1 => cases h
  | case2 before text line fs ih => exact ih h
  | case3 before line r fs ih =>
    rcases List.mem_cons.1 h with rfl | h
    · exact List.mem_cons_self
    · exact List.mem_cons_of_mem _ (ih h)

theorem append_of_mem_sitesFrom {before fs : List Finding} {site : CallSite}
    (h : site ∈ sitesFrom before fs) :
    before ++ fs = site.before ++ .call site.line site.fields :: site.after ∧
      ∀ later ∈ sitesFrom (site.before ++ [.call site.line site.fields]) site.after,
        later ∈ sitesFrom before fs := by
  fun_induction sitesFrom before fs with
  | case1 => cases h
  | case2 before text line fs ih => simpa using ih h
  | case3 before line r fs ih =>
    rcases List.mem_cons.1 h with rfl | h
    · exact ⟨rfl, fun later hl => List.mem_cons_of_mem _ hl⟩
    · obtain ⟨happend, hlater⟩ := ih h
      exact ⟨by simpa using happend, fun later hl => List.mem_cons_of_mem _ (hlater later hl)⟩

/-- If no comment stands beside a call that does not count, the message of any other call is the
same as if all calls counted. -/
theorem message_eq {ctx : ScanContext} {counts : Resolved → Bool} {fs : List Finding}
    {site : CallSite} (hfs : fs.Pairwise Finding.IsBefore)
    (hclear : ∀ site ∈ sites fs, IsClear ctx.options.comments counts site) (h : site ∈ sites fs) :
    site.message ctx counts = site.message ctx fun _ => true := by
  obtain ⟨happend, hlater⟩ := append_of_mem_sitesFrom h
  rw [List.nil_append] at happend
  rw [happend] at hfs
  obtain ⟨hbefore, hafter, -⟩ := List.pairwise_append.1 hfs
  obtain ⟨hline, hafter⟩ := List.pairwise_cons.1 hafter
  have hbeside : beside ctx.options.comments counts site.line site.after =
      beside ctx.options.comments (fun _ => true) site.line site.after :=
    beside_eq (fun later hl => hclear later (hlater later hl))
      (fun f hf => hline f hf _ _ rfl) hafter
  have hloose : loose ctx.options.comments counts none site.before =
      loose ctx.options.comments (fun _ => true) none site.before := by
    refine loose_eq [] (fun earlier he hcounts => ?_) (.inl rfl) (by simp) hbefore
    have := exists_mem_sitesFrom_append (.call site.line site.fields :: site.after) he
    rw [← happend] at this
    exact beside_eq_nil_of_append (hclear _ this hcounts)
  simp only [CallSite.message, waiting, hbeside, hloose]

/-- The messages of a scan without a failure are those of the calls that it wants. -/
theorem scan_eq_sites (ctx : ScanContext) (source : String) :
    scan ctx source =
      match (scanTokens ctx (tokenize source)).2 with
      | some e => .error { e with line := ctx.offset + e.line }
      | none => .ok (((sites (findings ctx source)).filter (ctx.wants ·.fields)).map
          (CallSite.message ctx ctx.wants)) := by
  rw [scan_eq, Ledger.messages_foldl [] _ rfl rfl]
  rfl

theorem bare_foldl_annotate (notes : List Note) (m : Message) :
    bare (notes.foldl (fun m note => ScanState.annotate note m) m) = bare m := by
  induction notes generalizing m with
  | nil => rfl
  | cons note notes ih => exact ih _

/-- Comments change nothing in a message but its comment and its flags. -/
theorem bare_message (ctx : ScanContext) (counts counts' : Resolved → Bool) (site : CallSite) :
    bare (site.message ctx counts) = bare (site.message ctx counts') := by
  simp only [CallSite.message, bare_foldl_annotate]
  rfl

theorem matchesDomain_message (ctx : ScanContext) (counts : Resolved → Bool) (site : CallSite)
    (target : Option String) :
    (site.message ctx counts).matchesDomain target = site.fields.isWanted target := by
  have hdomain : (site.message ctx counts).domain = site.fields.domain :=
    congrArg Message.domain (bare_foldl_annotate _ _)
  show Resolved.isWanted { site.fields with domain := (site.message ctx counts).domain } target = _
  rw [hdomain]

theorem findings_inDomain (ctx : ScanContext) (domain : Option String) (source : String) :
    findings (ctx.inDomain domain) source = findings ctx source := by
  have hk : (ctx.inDomain domain).options.keywords = ctx.options.keywords := rfl
  have hs : (ScanState.start (ctx.inDomain domain)).control = (ScanState.start ctx).control := rfl
  exact (ScanState.findings_congr hk hs _).1

/-- A scan for the messages of one domain fails as a scan for those of all domains does, or gives
its messages of that domain up to what comments add to them. It gives just these if and only if the
message of each wanted call is the same when the calls of other domains do not count for the places
of comments, which is so when no comment stands beside one of them. -/
theorem scan_inDomain (ctx : ScanContext) (d : String) (source : String) :
    (∃ e, scan (ctx.inDomain (some d)) source = .error e ∧
      scan (ctx.inDomain none) source = .error e) ∨
      ∃ restricted all, scan (ctx.inDomain (some d)) source = .ok restricted ∧
        scan (ctx.inDomain none) source = .ok all ∧
        restricted.map bare = (all.filter (·.matchesDomain (some d))).map bare ∧
        (restricted = all.filter (·.matchesDomain (some d)) ↔
          ∀ site ∈ sites (findings ctx source), site.fields.isWanted (some d) →
            site.message ctx (·.isWanted (some d)) = site.message ctx fun _ => true) ∧
        ((∀ site ∈ sites (findings ctx source),
            IsClear ctx.options.comments (·.isWanted (some d)) site) →
          restricted = all.filter (·.matchesDomain (some d))) := by
  have hk : (ctx.inDomain (some d)).options.keywords = (ctx.inDomain none).options.keywords := rfl
  have hfailure := scanTokens_congr hk (tokenize source)
  rw [scan_eq_sites, scan_eq_sites, hfailure, findings_inDomain, findings_inDomain]
  cases (scanTokens (ctx.inDomain none) (tokenize source)).2 with
  | some e => exact .inl ⟨_, rfl, rfl⟩
  | none =>
    let calls := sites (findings ctx source)
    let wanted := calls.filter fun site => site.fields.isWanted (some d)
    let restricted := wanted.map (CallSite.message ctx (·.isWanted (some d)))
    let all := calls.map (CallSite.message ctx fun _ => true)
    have hall : all.filter (·.matchesDomain (some d)) =
        wanted.map (CallSite.message ctx fun _ => true) := by
      simp only [all, wanted, List.filter_map, Function.comp_def, matchesDomain_message]
    refine .inr ⟨restricted, all, rfl, ?_, ?_, ?_, fun hclear => ?_⟩
    · show Except.ok ((calls.filter fun _ => true).map _) = Except.ok all
      rw [List.filter_eq_self.2 fun _ _ => rfl]
      rfl
    · rw [hall, List.map_map, List.map_map]
      exact List.map_congr_left fun site _ => bare_message ctx _ _ site
    · rw [hall, List.map_inj_left]
      simp [wanted, calls]
    · rw [hall]
      refine List.map_congr_left fun site hsite => ?_
      exact message_eq (pairwise_findings ctx source) hclear (List.mem_filter.1 hsite).1

/-- A comment beside a call of another domain goes to the call on the next line. -/
theorem scan_inDomain_ne_filter :
    (scan ⟨{ domain := some "d", comments := .all }, "a.py", 0⟩
        "dgettext('other', 'word') # note\n_('a')").toOption ≠
      (scan ⟨{ comments := .all }, "a.py", 0⟩
        "dgettext('other', 'word') # note\n_('a')").toOption.map
          (·.filter (·.matchesDomain (some "d"))) := by
  decide +kernel

end PotExtract.Python
