import PotExtract.Po.Lint
import PotExtract.Proofs.Catalog.Grouping

/-! Shared translations. A translation is shared if entries with different keys have it. The report
counts entries, so that an entry that stands in a file twice is reported as if two texts had its
translation; without the keys that are repeated, the report is the right one. -/

namespace PotExtract.Po

/-! ### Groups -/

section Groups

variable {α κ : Type} [DecidableEq κ]

/-- An item goes to the group of its key, or to a new one behind all groups. -/
theorem addToGroup_map {keys : List κ} (hkeys : keys.Nodup) (group : κ → List α) (key : κ) (a : α) :
    addToGroup key a (keys.map fun k => (k, group k)) =
      if key ∈ keys then keys.map fun k => (k, if k = key then group k ++ [a] else group k)
      else keys.map (fun k => (k, group k)) ++ [(key, [a])] := by
  induction keys with
  | nil => rfl
  | cons k keys ih =>
    obtain ⟨hk, hrest⟩ := List.nodup_cons.1 hkeys
    rw [List.map_cons, addToGroup]
    by_cases hkey : k = key
    · -- the other keys are different ones, so their groups stay
      have hothers : keys.map (fun k' => (k', if k' = key then group k' ++ [a] else group k')) =
          keys.map fun k' => (k', group k') := by
        apply List.map_congr_left
        rintro k' hk'
        rw [if_neg]
        rintro rfl
        exact hk (hkey ▸ hk')
      rw [if_pos hkey, if_pos (by simp [hkey]), List.map_cons, hothers, if_pos hkey]
    · have hmem : key ∈ k :: keys ↔ key ∈ keys := by simp [Ne.symm hkey]
      rw [if_neg hkey, ih hrest]
      simp only [hmem]
      split
      · rw [List.map_cons, if_neg hkey]
      · rfl

theorem groupBy_concat (key : α → κ) (items : List α) (a : α) :
    groupBy key (items ++ [a]) = addToGroup (key a) a (groupBy key items) := by
  rw [groupBy, groupBy, List.foldl_append, List.foldl_cons, List.foldl_nil]

/-- There is a group for each key where it comes first, with all items that have it. -/
theorem groupBy_eq (key : α → κ) (items : List α) :
    groupBy key items =
      (distinct (items.map key)).map fun k => (k, items.filter fun a => key a = k) := by
  induction items using List.reverseRecOn with
  | nil => rfl
  | append_singleton items a ih =>
    have hgroup (k : κ) : (items ++ [a]).filter (fun b => key b = k) =
        if k = key a then items.filter (fun b => key b = k) ++ [a]
        else items.filter fun b => key b = k := by
      by_cases hk : k = key a <;> simp [hk, Ne.symm]
    rw [groupBy_concat, ih, addToGroup_map (nodup_distinct _), List.map_append, List.map_singleton,
      distinct_concat]
    simp only [hgroup]
    split
    · rfl
    · next hnew =>
      have hnone : items.filter (fun b => key b = key a) = [] := by
        rw [List.filter_eq_nil_iff]
        intro b hb hkey
        exact hnew (mem_distinct.2 (List.mem_map.2 ⟨b, hb, of_decide_eq_true hkey⟩))
      have hothers : ∀ k ∈ distinct (items.map key), k ≠ key a := by
        rintro k hk rfl
        exact hnew hk
      rw [List.map_append, List.map_singleton, if_pos rfl, hnone]
      congr 1
      apply List.map_congr_left
      intro k hk
      rw [if_neg (hothers k hk)]

end Groups

/-! ### Shared translations -/

variable (entries : List PoEntry)

/-- The keys of the entries with a translation, one for each entry. -/
def usesOf (msgstr : String) : List PoKey :=
  (entries.filter fun e => e.msgstr = msgstr).map PoEntry.key

/-- The translations that are not empty, in the order of their first use. -/
def textsOf : List String :=
  distinct ((entries.map PoEntry.msgstr).filter fun msgstr => !msgstr.isEmpty)

/-- The translations that at least two different keys have, in the order of their first use, each
with these keys in the order of theirs. -/
def sharedTexts : List (String × List PoKey) :=
  ((textsOf entries).map fun msgstr => (msgstr, distinct (usesOf entries msgstr))).filter
    fun (_, keys) => 1 < keys.length

/-- The entries that are translated. -/
def translated : List PoEntry :=
  entries.filter fun e => !e.msgstr.isEmpty

theorem filter_translated {msgstr : String} (h : msgstr ∈ textsOf entries) :
    (translated entries).filter (fun e => e.msgstr = msgstr) =
      entries.filter fun e => e.msgstr = msgstr := by
  have hfilled : !msgstr.isEmpty := (List.mem_filter.1 (mem_distinct.1 h)).2
  rw [translated, List.filter_filter]
  apply List.filter_congr
  intro e _
  by_cases he : e.msgstr = msgstr
  · rw [he, hfilled, Bool.and_true]
  · rw [decide_eq_false he, Bool.false_and]

/-- The report has a translation if several entries have it, with the key of each of them. -/
theorem shared_lint :
    (lint entries).shared =
      ((textsOf entries).map fun msgstr => (msgstr, usesOf entries msgstr)).filter
        fun (_, keys) => 1 < keys.length := by
  have htexts : distinct ((translated entries).map PoEntry.msgstr) = textsOf entries := by
    rw [translated, textsOf, List.filter_map]
    rfl
  have hgroups : groupBy PoEntry.msgstr (translated entries) =
      (textsOf entries).map fun msgstr => (msgstr, entries.filter fun e => e.msgstr = msgstr) := by
    rw [groupBy_eq, htexts]
    apply List.map_congr_left
    intro msgstr hmsgstr
    rw [filter_translated entries hmsgstr]
  show List.map _ (List.filter _ (groupBy PoEntry.msgstr (translated entries))) = _
  rw [hgroups, List.filter_map, List.filter_map, List.map_map]
  simp only [usesOf, Function.comp_def, List.length_map]

/-- Without the keys that are repeated, the report has the shared translations. -/
theorem sharedTexts_eq :
    sharedTexts entries =
      ((lint entries).shared.map fun (msgstr, keys) => (msgstr, distinct keys)).filter
        fun (_, keys) => 1 < keys.length := by
  rw [sharedTexts, shared_lint, List.filter_map, List.filter_map, List.filter_filter,
    List.filter_map, List.map_map]
  congr 1
  apply List.filter_congr
  intro msgstr _
  -- a translation with two different keys has at least two entries
  have hle := (distinct_sublist (usesOf entries msgstr)).length_le
  by_cases hdistinct : 1 < (distinct (usesOf entries msgstr)).length
  · have huses : 1 < (usesOf entries msgstr).length := by omega
    simp [hdistinct, huses]
  · simp [hdistinct]

/-- A translation has no key twice exactly if no entry with it stands twice. -/
theorem nodup_usesOf (msgstr : String) :
    (usesOf entries msgstr).Nodup ↔ (entries.filter fun e => e.msgstr = msgstr).Nodup := by
  refine ⟨List.Nodup.of_map _, fun h => h.map_on ?_⟩
  intro e he e' he' hkey
  have htext : e.msgstr = e'.msgstr :=
    (of_decide_eq_true (List.mem_filter.1 he).2).trans
      (of_decide_eq_true (List.mem_filter.1 he').2).symm
  cases e
  cases e'
  rw [PoEntry.mk.injEq]
  exact ⟨hkey, htext⟩

theorem nodup_translated_iff :
    (translated entries).Nodup ↔ ∀ msgstr ∈ textsOf entries, (usesOf entries msgstr).Nodup := by
  simp only [nodup_usesOf]
  constructor
  · intro h msgstr hmsgstr
    rw [← filter_translated entries hmsgstr]
    exact h.filter _
  · intro h
    rw [List.nodup_iff_sublist]
    intro e hpair
    have htext : e.msgstr ∈ textsOf entries := by
      have he := List.mem_filter.1 (hpair.subset List.mem_cons_self)
      exact mem_distinct.2 (List.mem_filter.2 ⟨List.mem_map_of_mem he.1, he.2⟩)
    have htwice := hpair.filter fun e' => e'.msgstr = e.msgstr
    rw [filter_translated entries htext] at htwice
    apply List.nodup_iff_sublist.1 (h e.msgstr htext) e
    simpa using htwice

/-- The report has exactly the shared translations if and only if no entry that is translated stands
in the file twice. -/
theorem shared_lint_iff :
    (lint entries).shared = sharedTexts entries ↔ (translated entries).Nodup := by
  rw [nodup_translated_iff, shared_lint]
  constructor
  · intro h msgstr hmsgstr
    by_contra htwice
    -- a translation with a repeated key has several entries, so it is reported with them all
    have hmany : 1 < (usesOf entries msgstr).length := by
      obtain ⟨_, hpair⟩ := not_forall.1 (htwice ∘ List.nodup_iff_sublist.2)
      exact (not_not.1 hpair).length_le
    have hreported : (msgstr, usesOf entries msgstr) ∈ sharedTexts entries := by
      rw [← h]
      exact List.mem_filter.2 ⟨List.mem_map.2 ⟨msgstr, hmsgstr, rfl⟩, decide_eq_true hmany⟩
    obtain ⟨other, -, hother⟩ := List.mem_map.1 (List.mem_filter.1 hreported).1
    obtain ⟨rfl, hkeys⟩ := Prod.mk.inj hother
    exact htwice (hkeys ▸ nodup_distinct _)
  · intro h
    rw [sharedTexts]
    congr 1
    apply List.map_congr_left
    intro msgstr hmsgstr
    rw [distinct_eq_self (h msgstr hmsgstr)]

/-- One entry that stands twice is reported as two texts with one translation. -/
theorem shared_lint_repeatedEntry :
    let entry : PoEntry := ⟨⟨none, "a"⟩, "x"⟩
    (lint [entry, entry]).shared ≠ sharedTexts [entry, entry] := by
  decide

end PotExtract.Po
