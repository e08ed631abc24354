import PotExtract.Scanner.Registry

/-! The choice of a scanner after any changes of the default registry. The extensions that are mapped
are those of the mappings that were made, each to the scanner that it was last mapped to, and these
scanners are all there. So the scanner of a file is known from the history of the changes: the one
that the longest extension of its name was last mapped to. -/

namespace PotExtract

/-- A change of a registry that is asked for. -/
inductive RegistryChange where
  | map (extension name : String)
  | engine (name engine : String)
  deriving DecidableEq, Repr

/-- The mapping that a change makes, if there is a scanner of the name. -/
def RegistryChange.mapping? : RegistryChange → Option (String × String)
  | map extension name =>
    if name ∈ Scanner.all.map (·.name) then some (Registry.dotted extension, name) else none
  | engine _ _ => none

/-- The last of the mappings of an extension is to `name`. -/
def IsLastMapping (mappings : List (String × String)) (extension name : String) : Prop :=
  ∃ before after, mappings = before ++ (extension, name) :: after ∧ ∀ m ∈ after, m.1 ≠ extension

namespace Registry

/-- Makes a change, or answers why it is refused. -/
def change (r : Registry) : RegistryChange → Registry × Option RegistryError
  | .map extension name => r.tryMap extension name
  | .engine name engine => r.tryEngine name engine

/-- What changes leave of a registry, those that are refused included. -/
def run (r : Registry) (changes : List RegistryChange) : Registry :=
  changes.foldl (fun r c => (r.change c).1) r

/-- The mappings that were made, in their order and the default ones first. -/
def mappings (changes : List RegistryChange) : List (String × String) :=
  defaults.extensions ++ changes.filterMap RegistryChange.mapping?

/-- The name of a file ends in an extension, and in none that is mapped and longer. -/
def IsLongest (r : Registry) (file extension : String) : Prop :=
  extension.toList <:+ file.toList ∧
    ∀ m ∈ r.extensions, m.1.toList <:+ file.toList → m.1.length ≤ extension.length

/-- What is known of a registry after changes of the default one: the names of its scanners, and the
extensions that are mapped. -/
structure Reflects (r : Registry) (changes : List RegistryChange) : Prop where
  names : r.scanners.map (·.name) = Scanner.all.map (·.name)
  extensions : ∀ extension name,
    (extension, name) ∈ r.extensions ↔ IsLastMapping (mappings changes) extension name

end Registry

variable {r : Registry} {changes : List RegistryChange} {file extension name : String}

/-! ### The last mapping -/

theorem isLastMapping_concat {mappings : List (String × String)} {extension' name' : String} :
    IsLastMapping (mappings ++ [(extension', name')]) extension name ↔
      (extension = extension' ∧ name = name') ∨
        (IsLastMapping mappings extension name ∧ extension ≠ extension') := by
  constructor
  · rintro ⟨before, after, heq, hafter⟩
    rcases List.eq_nil_or_concat after with rfl | ⟨after, m, rfl⟩
    · have hlast := (List.append_inj' heq rfl).2
      simp only [List.cons.injEq, Prod.mk.injEq, and_true] at hlast
      exact .inl ⟨hlast.1.symm, hlast.2.symm⟩
    · rw [List.concat_eq_append] at heq hafter
      rw [← List.cons_append, ← List.append_assoc] at heq
      obtain ⟨hfront, hm⟩ := List.append_inj' heq rfl
      obtain rfl := (List.cons.inj hm).1
      refine .inr ⟨⟨before, after, hfront, fun m hm => hafter m (by simp [hm])⟩, ?_⟩
      exact (hafter (extension', name') (by simp)).symm
  · rintro (⟨rfl, rfl⟩ | ⟨⟨before, after, rfl, hafter⟩, hne⟩)
    · exact ⟨mappings, [], rfl, by simp⟩
    · refine ⟨before, after ++ [(extension', name')], by simp, fun m hm => ?_⟩
      rcases List.mem_append.1 hm with hm | hm
      · exact hafter m hm
      · rw [List.mem_singleton.1 hm]
        exact hne.symm

theorem isLastMapping_unique {mappings : List (String × String)} {name' : String}
    (h : IsLastMapping mappings extension name) (h' : IsLastMapping mappings extension name') :
    name = name' := by
  obtain ⟨before, after, rfl, hafter⟩ := h
  obtain ⟨before', after', heq, hafter'⟩ := h'
  rcases List.append_eq_append_iff.1 heq with ⟨l, -, htail⟩ | ⟨l, -, htail⟩
  · cases l with
    | nil => exact (Prod.mk.inj (List.cons.inj htail).1).2
    | cons m l => exact absurd rfl (hafter (extension, name') (by simp [(List.cons.inj htail).2]))
  · cases l with
    | nil => exact (Prod.mk.inj (List.cons.inj htail).1).2.symm
    | cons m l => exact absurd rfl (hafter' (extension, name) (by simp [(List.cons.inj htail).2]))

theorem isLastMapping_of_nodup {mappings : List (String × String)}
    (h : (mappings.map Prod.fst).Nodup) :
    (extension, name) ∈ mappings ↔ IsLastMapping mappings extension name := by
  constructor
  · intro hmem
    obtain ⟨before, after, rfl⟩ := List.append_of_mem hmem
    rw [List.map_append, List.map_cons] at h
    have hafter := (List.nodup_cons.1 (List.nodup_append.1 h).2.1).1
    exact ⟨before, after, rfl, fun m hm heq => hafter (List.mem_map.2 ⟨m, hm, heq⟩)⟩
  · rintro ⟨before, after, rfl, -⟩
    simp

namespace Registry

/-! ### One change -/

theorem byName?_isSome : (r.byName? name).isSome ↔ name ∈ r.scanners.map (·.name) := by
  simp [byName?]

theorem name_of_byName? {s : Scanner} (h : r.byName? name = some s) : s.name = name :=
  eq_of_beq (List.find?_eq_some_iff_append.1 h).1

/-- A call that is refused changes nothing. -/
theorem change_of_refused {c : RegistryChange} {e : RegistryError} (h : (r.change c).2 = some e) :
    (r.change c).1 = r := by
  cases c with
  | map extension name =>
    simp only [change, tryMap] at h ⊢
    split
    · rfl
    · next hname =>
      simp only [hname] at h
      cases h
  | engine name engine =>
    simp only [change, tryEngine] at h ⊢
    split
    · rfl
    · rfl
    · next hengine hname =>
      simp only [hengine, hname] at h
      split
      · rfl
      · next hchanged =>
        rw [hchanged] at h
        cases h

theorem name_of_withEngine? {s changed : Scanner} {engine : Tales.Engine}
    (h : s.withEngine? engine = some changed) : changed.name = s.name := by
  unfold Scanner.withEngine? at h
  split at h
  · cases h
    rfl
  · cases h

/-- A change of an engine leaves the names of the scanners and the extensions. -/
theorem change_engine (r : Registry) (name engine : String) :
    (r.change (.engine name engine)).1.scanners.map (·.name) = r.scanners.map (·.name) ∧
      (r.change (.engine name engine)).1.extensions = r.extensions := by
  simp only [change, tryEngine]
  split
  · exact ⟨rfl, rfl⟩
  · exact ⟨rfl, rfl⟩
  · next engine scanner _ hname =>
    split
    · exact ⟨rfl, rfl⟩
    · next changed hchanged =>
      refine ⟨?_, rfl⟩
      have hscanner : scanner.name = name := name_of_byName? hname
      simp only [List.map_map]
      refine List.map_congr_left fun s _ => ?_
      by_cases hs : s.name = name
      · simp [hs, name_of_withEngine? hchanged, hscanner]
      · simp [hs]

/-- A mapping is made if there is a scanner of the name. -/
theorem change_map (r : Registry) (extension name : String) :
    (r.change (.map extension name)).1 =
      if name ∈ r.scanners.map (·.name) then
        { r with
          extensions := (dotted extension, name) ::
            r.extensions.filter fun (other, _) => other != dotted extension }
      else r := by
  have hsome := @byName?_isSome r name
  simp only [change, tryMap]
  cases hname : r.byName? name with
  | none => rw [if_neg (by simp [← hsome, hname])]
  | some s => rw [if_pos (by simp [← hsome, hname])]

theorem reflects_defaults : defaults.Reflects [] where
  names := rfl
  extensions _ _ := by
    rw [mappings, List.filterMap_nil, List.append_nil]
    exact isLastMapping_of_nodup (by decide)

theorem mappings_concat (changes : List RegistryChange) (c : RegistryChange) :
    mappings (changes ++ [c]) = mappings changes ++ c.mapping?.toList := by
  rw [mappings, List.filterMap_append, ← List.append_assoc]
  exact congrArg (mappings changes ++ ·) rfl

theorem Reflects.change (h : r.Reflects changes) (c : RegistryChange) :
    (r.change c).1.Reflects (changes ++ [c]) := by
  cases c with
  | engine name engine =>
    obtain ⟨hnames, hextensions⟩ := change_engine r name engine
    refine ⟨hnames.trans h.names, fun extension target => ?_⟩
    rw [hextensions, mappings_concat, h.extensions]
    simp [RegistryChange.mapping?]
  | map extension name =>
    rw [change_map, h.names]
    split
    · next hname =>
      refine ⟨h.names, fun other target => ?_⟩
      rw [mappings_concat, RegistryChange.mapping?, if_pos hname, Option.toList_some,
        isLastMapping_concat, ← h.extensions]
      simp
    · next hname =>
      refine ⟨h.names, fun other target => ?_⟩
      rw [mappings_concat, RegistryChange.mapping?, if_neg hname, Option.toList_none,
        List.append_nil, h.extensions]

/-- What is known of a registry stays known along any changes. -/
theorem Reflects.run {before : List RegistryChange} (h : r.Reflects before)
    (changes : List RegistryChange) : (r.run changes).Reflects (before ++ changes) := by
  induction changes generalizing r before with
  | nil => rwa [List.append_nil]
  | cons c changes ih =>
    rw [← List.singleton_append, ← List.append_assoc]
    exact ih (h.change c)

/-- The scanners that extensions are mapped to are all there. -/
theorem Reflects.byName?_isSome (h : r.Reflects changes) {m : String × String}
    (hm : m ∈ r.extensions) : (r.byName? m.2).isSome := by
  obtain ⟨before, after, hmappings, -⟩ := (h.extensions m.1 m.2).1 hm
  have hmem : m ∈ mappings changes := by simp [hmappings]
  rw [Registry.byName?_isSome, h.names]
  rcases List.mem_append.1 hmem with hmem | hmem
  · have hall : defaults.extensions.all fun m => m.2 ∈ Scanner.all.map (·.name) := by decide
    exact of_decide_eq_true (List.all_eq_true.1 hall m hmem)
  · obtain ⟨c, -, hc⟩ := List.mem_filterMap.1 hmem
    cases c with
    | engine => cases hc
    | map extension name =>
      rw [RegistryChange.mapping?] at hc
      split at hc
      · next hname =>
        cases hc
        exact hname
      · cases hc

/-! ### The longest extension -/

/-- The longest of some extensions, the first one of them where there are several. -/
theorem foldl_longer (first : String × String) (others : List (String × String)) :
    others.foldl longer first ∈ first :: others ∧
      ∀ m ∈ first :: others, m.1.length ≤ (others.foldl longer first).1.length := by
  induction others generalizing first with
  | nil => simp
  | cons other others ih =>
    obtain ⟨hmem, hmax⟩ := ih (longer first other)
    obtain ⟨hlonger, hfirst, hother⟩ : (longer first other = first ∨ longer first other = other) ∧
        first.1.length ≤ (longer first other).1.length ∧
        other.1.length ≤ (longer first other).1.length := by
      unfold longer
      split
      · next hlt => exact ⟨.inr rfl, Nat.le_of_lt hlt, Nat.le_refl _⟩
      · next hle => exact ⟨.inl rfl, Nat.le_refl _, Nat.le_of_not_lt hle⟩
    have hlast := hmax _ List.mem_cons_self
    refine ⟨?_, fun m hm => ?_⟩
    · rcases List.mem_cons.1 hmem with hmem | hmem
      · rw [List.foldl_cons, hmem]
        rcases hlonger with h | h <;> simp [h]
      · exact List.mem_cons_of_mem _ (List.mem_cons_of_mem _ hmem)
    · rcases List.mem_cons.1 hm with rfl | hm
      · exact Nat.le_trans hfirst hlast
      · rcases List.mem_cons.1 hm with rfl | hm
        · exact Nat.le_trans hother hlast
        · exact hmax m (List.mem_cons_of_mem _ hm)

theorem endsIn_iff : endsIn file extension ↔ extension.toList <:+ file.toList :=
  List.isSuffixOf_iff_suffix

/-- What is matched is mapped, and the longest of what is mapped that the name ends in. -/
theorem of_match? {m : String × String} (h : r.match? file = some m) :
    m ∈ r.extensions ∧ r.IsLongest file m.1 := by
  unfold match? at h
  split at h
  · cases h
  · next first others hfilter =>
    obtain ⟨hmem, hmax⟩ := foldl_longer first others
    rw [Option.some.inj h] at hmem hmax
    rw [← hfilter] at hmem hmax
    obtain ⟨hmem, hends⟩ := List.mem_filter.1 hmem
    exact ⟨hmem, endsIn_iff.1 hends, fun m' hm' hends' =>
      hmax m' (List.mem_filter.2 ⟨hm', endsIn_iff.2 hends'⟩)⟩

theorem match?_isSome :
    (r.match? file).isSome ↔ ∃ m ∈ r.extensions, m.1.toList <:+ file.toList := by
  simp only [← endsIn_iff]
  unfold match?
  split
  · next hfilter =>
    simpa [List.filter_eq_nil_iff] using hfilter
  · next first others hfilter =>
    have hfirst : first ∈ r.extensions.filter fun (extension, _) => endsIn file extension := by
      simp [hfilter]
    obtain ⟨hmem, hends⟩ := List.mem_filter.1 hfirst
    exact iff_of_true rfl ⟨first, hmem, hends⟩

/-- The longest extension is one: the ends of a name that are as long are the same. -/
theorem IsLongest.unique {other : String} (h : r.IsLongest file extension)
    (hother : r.IsLongest file other) (hmem : ∃ name, (extension, name) ∈ r.extensions)
    (hmem' : ∃ name, (other, name) ∈ r.extensions) : extension = other := by
  obtain ⟨name, hmem⟩ := hmem
  obtain ⟨name', hmem'⟩ := hmem'
  have hle := h.2 _ hmem' hother.1
  have hge := hother.2 _ hmem h.1
  have hsuffix := List.suffix_of_suffix_length_le h.1 hother.1
    (by simpa [String.length_toList] using hge)
  refine String.toList_inj.1 (hsuffix.eq_of_length_le ?_)
  simpa [String.length_toList] using hle

/-! ### The scanner of a file -/

theorem Reflects.forFile?_isSome (h : r.Reflects changes) :
    (r.forFile? file).isSome ↔ ∃ m ∈ r.extensions, m.1.toList <:+ file.toList := by
  rw [← match?_isSome, forFile?]
  cases hm : r.match? file with
  | none => rfl
  | some m => exact iff_of_true (h.byName?_isSome (of_match? hm).1) rfl

/-- The scanner of a file is the one that the longest extension of its name was last mapped to. -/
theorem Reflects.forFile?_eq_some_iff (h : r.Reflects changes) {s : Scanner} :
    r.forFile? file = some s ↔
      ∃ extension, IsLastMapping (mappings changes) extension s.name ∧
        r.IsLongest file extension ∧ r.byName? s.name = some s := by
  constructor
  · intro hfile
    obtain ⟨m, hm, hname⟩ := Option.bind_eq_some_iff.1 hfile
    obtain ⟨hmem, hlongest⟩ := of_match? hm
    obtain hs : s.name = m.2 := name_of_byName? hname
    rw [hs]
    exact ⟨m.1, (h.extensions _ _).1 hmem, hlongest, hname⟩
  · rintro ⟨extension, hlast, hlongest, hname⟩
    have hmem := (h.extensions _ _).2 hlast
    obtain ⟨⟨other, name⟩, hm⟩ :=
      Option.isSome_iff_exists.1 (match?_isSome.2 ⟨_, hmem, hlongest.1⟩)
    obtain ⟨hmem', hlongest'⟩ := of_match? hm
    obtain rfl : other = extension := hlongest'.unique hlongest ⟨_, hmem'⟩ ⟨_, hmem⟩
    obtain rfl := isLastMapping_unique ((h.extensions _ _).1 hmem') hlast
    rw [forFile?, hm]
    exact hname

/-- The name of the scanner of a file depends on the names and extensions of a registry alone. -/
theorem name_forFile? {r' : Registry}
    (hnames : r'.scanners.map (·.name) = r.scanners.map (·.name))
    (hextensions : r'.extensions = r.extensions) (file : String) :
    (r'.forFile? file).map (·.name) = (r.forFile? file).map (·.name) := by
  have hbyName : ∀ (r : Registry) (name : String), (r.byName? name).map (·.name) =
      (r.scanners.map (·.name)).find? (· == name) := fun r name => by
    rw [byName?, List.find?_map]
    rfl
  simp only [forFile?, match?, hextensions, Option.map_bind, Function.comp_def, hbyName, hnames]

/-- After any changes of the default registry the extensions that are mapped are those of the mappings
that were made, each is mapped to a scanner that is there, and a file has a scanner if its name ends in
one of them: the one that the longest was last mapped to. Another engine does not change the name of the
scanner of a file, and a change that is refused changes nothing. -/
theorem dispatch_run (changes : List RegistryChange) :
    (∀ m ∈ (defaults.run changes).extensions, ((defaults.run changes).byName? m.2).isSome) ∧
    (∀ extension name, (extension, name) ∈ (defaults.run changes).extensions ↔
      IsLastMapping (mappings changes) extension name) ∧
    (∀ file, ((defaults.run changes).forFile? file).isSome ↔
      ∃ m ∈ (defaults.run changes).extensions, m.1.toList <:+ file.toList) ∧
    (∀ file s, (defaults.run changes).forFile? file = some s ↔
      ∃ extension, IsLastMapping (mappings changes) extension s.name ∧
        (defaults.run changes).IsLongest file extension ∧
        (defaults.run changes).byName? s.name = some s) ∧
    (∀ name engine file,
      (((defaults.run changes).change (.engine name engine)).1.forFile? file).map (·.name) =
        ((defaults.run changes).forFile? file).map (·.name)) ∧
    ∀ c e, ((defaults.run changes).change c).2 = some e →
      ((defaults.run changes).change c).1 = defaults.run changes := by
  have h : (defaults.run changes).Reflects changes := reflects_defaults.run changes
  refine ⟨fun m => h.byName?_isSome, h.extensions, fun file => h.forFile?_isSome,
    fun file s => h.forFile?_eq_some_iff, fun name engine file => ?_, fun c e => change_of_refused⟩
  obtain ⟨hnames, hextensions⟩ := change_engine (defaults.run changes) name engine
  exact name_forFile? hnames hextensions file

/-- A scanner that is not there is refused, after an extension was mapped twice. -/
theorem dispatch_run_refused :
    let r := defaults.run [.map "ml" "python", .engine "zope" "python", .map ".ml" "zope"]
    (r.change (.map ".html" "mako")).2 = some (.unknownScanner "mako" ".html") ∧
      (r.change (.map ".html" "mako")).1 = r := by
  intro r
  have hrefused : (r.change (.map ".html" "mako")).2 = some (.unknownScanner "mako" ".html") := rfl
  exact ⟨hrefused, (dispatch_run _).2.2.2.2.2 _ _ hrefused⟩

end Registry

end PotExtract
