import PotExtract.Inputs
import PotExtract.Proofs.Catalog.Grouping
import PotExtract.Proofs.Outcome

/-! The files that names stand for, said of each name for itself. A name has an expansion, or a fault
that tells why it has none. Names are resolved if none of them has a fault, to all their expansions in
a row without the paths that occur before, and else the first fault is the error. -/

namespace PotExtract.Inputs

/-! ### What a name stands for -/

section Names

variable (fs : FileSystem) (registry : Registry) (directories : List String) (name : String)

/-- A name is found as it is, or else below the first directory that has it. -/
inductive IsFoundAt : String → Prop
  | here : fs.hasNode name → IsFoundAt name
  | below {before after : List String} {directory : String} :
      ¬ fs.hasNode name → ¬ Path.isAbsolute name → directories = before ++ directory :: after →
      (∀ d ∈ before, ¬ fs.hasNode (Path.join d name)) → fs.hasNode (Path.join directory name) →
      IsFoundAt (Path.join directory name)

/-- The paths of a name: what a pattern matches, or where the name is found. -/
inductive HasPaths : List String → Prop
  | pattern {paths : List String} :
      Glob.isPattern name → fs.expand name = .ok paths → paths ≠ [] → HasPaths paths
  | file {path : String} :
      ¬ Glob.isPattern name → IsFoundAt fs directories name path → HasPaths [path]

/-- The files of a path: those below a directory that there is a scanner for, or the path itself. -/
inductive HasFiles (path : String) : List String → Prop
  | directory {files : List String} :
      fs.hasDirectory path → fs.filesBelow path = .ok files →
      HasFiles path (files.filter registry.supports)
  | file : ¬ fs.hasDirectory path → registry.supports path → HasFiles path [path]

/-- Why a name has no paths: it is not found, matches nothing, or cannot be read as a pattern. -/
inductive IsNameFault : InputError → Prop
  | notFound : ¬ Glob.isPattern name → (∀ path, ¬ IsFoundAt fs directories name path) →
      IsNameFault (.notFound name)
  | noMatch : Glob.isPattern name → fs.expand name = .ok [] → IsNameFault (.notFound name)
  | unreadable {reason : String} :
      Glob.isPattern name → fs.expand name = .error reason → IsNameFault (.unreadable name reason)

/-- Why a path of a name has no files: a directory that cannot be walked, or something else that no
scanner is for. -/
inductive IsPathFault (path : String) : InputError → Prop
  | unreadable {reason : String} :
      fs.hasDirectory path → fs.filesBelow path = .error reason →
      IsPathFault path (.unreadable path reason)
  | noScanner : ¬ fs.hasDirectory path → ¬ registry.supports path → IsPathFault path (.noScanner name)

/-- Why a name stands for no files: it has no paths, or the first of them that has no files tells. -/
inductive IsFault : InputError → Prop
  | name {e : InputError} : IsNameFault fs directories name e → IsFault e
  | path {before after : List String} {path : String} {e : InputError} :
      HasPaths fs directories name (before ++ path :: after) →
      (∀ p ∈ before, ∃ files, HasFiles fs registry p files) →
      IsPathFault fs registry name path e → IsFault e

/-- The files that a name stands for: those of its paths in a row. -/
def HasExpansion (files : List String) : Prop :=
  ∃ paths groups, HasPaths fs directories name paths ∧
    List.Forall₂ (HasFiles fs registry) paths groups ∧ files = groups.flatten

/-- The files that a name stands for, or why there are none. -/
def expand : Except InputError (List String) := do
  let paths ← named fs directories name
  return (← paths.mapM (filesAt fs registry name)).flatten

end Names

variable {fs : FileSystem} {registry : Registry} {directories names paths files : List String}
  {name path : String} {e : InputError}

theorem find?_eq_some_iff : find? fs name directories = some path ↔
    IsFoundAt fs directories name path := by
  unfold find?
  constructor
  · intro h
    split at h
    · next hnode =>
      obtain rfl := Option.some.inj h
      exact .here hnode
    · next hnode =>
      split at h
      · cases h
      · next habsolute =>
        obtain ⟨hfound, front, back, heq, hfront⟩ := List.find?_eq_some_iff_append.1 h
        obtain ⟨before, tail, rfl, rfl, htail⟩ := List.map_eq_append_iff.1 heq
        obtain ⟨directory, after, rfl, rfl, -⟩ := List.map_eq_cons_iff.1 htail
        refine .below hnode habsolute rfl (fun d hd => ?_) hfound
        simpa using hfront _ (List.mem_map_of_mem hd)
  · rintro (hnode | ⟨hnode, habsolute, rfl, hbefore, hfound⟩)
    · rw [if_pos hnode]
    · rw [if_neg hnode, if_neg habsolute]
      refine List.find?_eq_some_iff_append.2 ⟨hfound, _, _, by rw [List.map_append]; rfl, ?_⟩
      intro p hp
      obtain ⟨d, hd, rfl⟩ := List.mem_map.1 hp
      simpa using hbefore d hd

theorem find?_eq_none_iff : find? fs name directories = none ↔
    ∀ path, ¬ IsFoundAt fs directories name path := by
  simp only [← find?_eq_some_iff, Option.eq_none_iff_forall_ne_some, ne_eq]

theorem named_eq_ok_iff : named fs directories name = .ok paths ↔
    HasPaths fs directories name paths := by
  unfold named
  constructor
  · intro h
    split at h
    · next hpattern =>
      split at h
      · cases h
      · cases h
      · next paths' hne hexpand =>
        cases h
        exact .pattern hpattern hexpand hne
    · next hpattern =>
      split at h
      · cases h
      · next path hfind =>
        cases h
        exact .file hpattern (find?_eq_some_iff.1 hfind)
  · rintro (⟨hpattern, hexpand, hne⟩ | ⟨hpattern, hfound⟩)
    · rw [if_pos hpattern, hexpand]
      cases paths with
      | nil => exact absurd rfl hne
      | cons => rfl
    · rw [if_neg hpattern, find?_eq_some_iff.2 hfound]

theorem named_eq_error_iff : named fs directories name = .error e ↔
    IsNameFault fs directories name e := by
  unfold named
  constructor
  · intro h
    split at h
    · next hpattern =>
      split at h
      · next hexpand =>
        cases h
        exact .unreadable hpattern hexpand
      · next hexpand =>
        cases h
        exact .noMatch hpattern hexpand
      · cases h
    · next hpattern =>
      split at h
      · next hfind =>
        cases h
        exact .notFound hpattern (find?_eq_none_iff.1 hfind)
      · cases h
  · rintro (⟨hpattern, hfound⟩ | ⟨hpattern, hexpand⟩ | ⟨hpattern, hexpand⟩)
    · rw [if_neg hpattern, find?_eq_none_iff.2 hfound]
    · rw [if_pos hpattern, hexpand]
    · rw [if_pos hpattern, hexpand]

theorem filesAt_eq_ok_iff : filesAt fs registry name path = .ok files ↔
    HasFiles fs registry path files := by
  unfold filesAt
  constructor
  · intro h
    split at h
    · next hdirectory =>
      split at h
      · cases h
      · next hbelow =>
        cases h
        exact .directory hdirectory hbelow
    · next hdirectory =>
      split at h
      · next hsupports =>
        cases h
        exact .file hdirectory hsupports
      · cases h
  · rintro (⟨hdirectory, hbelow⟩ | ⟨hdirectory, hsupports⟩)
    · rw [if_pos hdirectory, hbelow]
    · rw [if_neg hdirectory, if_pos hsupports]

theorem filesAt_eq_error_iff : filesAt fs registry name path = .error e ↔
    IsPathFault fs registry name path e := by
  unfold filesAt
  constructor
  · intro h
    split at h
    · next hdirectory =>
      split at h
      · next hbelow =>
        cases h
        exact .unreadable hdirectory hbelow
      · cases h
    · next hdirectory =>
      split at h
      · cases h
      · next hsupports =>
        cases h
        exact .noScanner hdirectory hsupports
  · rintro (⟨hdirectory, hbelow⟩ | ⟨hdirectory, hsupports⟩)
    · rw [if_pos hdirectory, hbelow]
    · rw [if_neg hdirectory, if_neg hsupports]

theorem expand_of_named (h : named fs directories name = .ok paths) :
    expand fs registry directories name =
      (paths.mapM (filesAt fs registry name)).map List.flatten := by
  unfold expand
  rw [h]
  rfl

theorem expand_eq_ok_iff : expand fs registry directories name = .ok files ↔
    HasExpansion fs registry directories name files := by
  unfold HasExpansion
  constructor
  · intro h
    obtain ⟨paths, hpaths, -⟩ := bind_eq_ok.1 h
    rw [expand_of_named hpaths] at h
    obtain ⟨groups, hgroups, rfl⟩ := map_eq_ok.1 h
    exact ⟨paths, groups, named_eq_ok_iff.1 hpaths,
      (mapM_eq_ok_iff.1 hgroups).imp fun _ _ => filesAt_eq_ok_iff.1, rfl⟩
  · rintro ⟨paths, groups, hpaths, hgroups, rfl⟩
    have hfiles : paths.mapM (filesAt fs registry name) = .ok groups :=
      mapM_eq_ok_iff.2 (hgroups.imp fun _ _ => filesAt_eq_ok_iff.2)
    rw [expand_of_named (named_eq_ok_iff.2 hpaths), hfiles]
    rfl

theorem expand_eq_error_iff : expand fs registry directories name = .error e ↔
    IsFault fs registry directories name e := by
  constructor
  · intro h
    cases hnamed : named fs directories name with
    | error e' =>
      rw [expand, hnamed] at h
      obtain rfl := Except.error.inj h
      exact .name (named_eq_error_iff.1 hnamed)
    | ok paths =>
      rw [expand_of_named hnamed] at h
      cases hfiles : paths.mapM (filesAt fs registry name) with
      | ok groups =>
        rw [hfiles] at h
        cases h
      | error e' =>
        rw [hfiles] at h
        obtain rfl := Except.error.inj h
        obtain ⟨before, path, after, rfl, hbefore, hpath⟩ := mapM_eq_error_iff.1 hfiles
        exact .path (named_eq_ok_iff.1 hnamed)
          (fun p hp => (hbefore p hp).imp fun _ => filesAt_eq_ok_iff.1)
          (filesAt_eq_error_iff.1 hpath)
  · rintro (hname | @⟨before, after, path, _, hpaths, hbefore, hpath⟩)
    · rw [expand, named_eq_error_iff.2 hname]
      rfl
    · have hfiles : (before ++ path :: after).mapM (filesAt fs registry name) = .error e :=
        mapM_eq_error_iff.2 ⟨before, path, after, rfl,
          fun p hp => (hbefore p hp).imp fun _ => filesAt_eq_ok_iff.2,
          filesAt_eq_error_iff.2 hpath⟩
      rw [expand_of_named (named_eq_ok_iff.2 hpaths), hfiles]
      rfl

theorem exists_expand_eq_ok_iff : (∃ files, expand fs registry directories name = .ok files) ↔
    ∀ e, ¬ IsFault fs registry directories name e := by
  simp only [← expand_eq_error_iff]
  cases expand fs registry directories name <;> simp

/-! ### The files of names in a row -/

theorem addFiles_eq (files paths : List String) : addFiles fs registry name files paths =
    (paths.mapM (filesAt fs registry name)).map fun groups => groups.flatten.foldl addPath files := by
  unfold addFiles
  induction paths generalizing files with
  | nil => rfl
  | cons path paths ih =>
    rw [List.foldlM_cons, List.mapM_cons]
    cases filesAt fs registry name path with
    | error e => rfl
    | ok group =>
      show List.foldlM _ (group.foldl addPath files) paths = _
      rw [ih]
      cases paths.mapM (filesAt fs registry name) with
      | error e => rfl
      | ok groups => exact congrArg Except.ok (List.foldl_append ..).symm

theorem add_of_not_mem {r : Resolution} (h : name ∉ r.seen) :
    r.add fs registry directories name = (expand fs registry directories name).map
      fun files => ⟨r.seen ++ [name], files.foldl addPath r.files⟩ := by
  unfold Resolution.add expand
  rw [if_neg h]
  cases named fs directories name with
  | error e => rfl
  | ok paths =>
    simp only [bind, Except.bind, addFiles_eq]
    cases paths.mapM (filesAt fs registry name) <;> rfl

theorem foldl_addPath (files new : List String) : new.foldl addPath (firstBy Path.parts files) =
    firstBy Path.parts (files ++ new) := by
  induction new generalizing files with
  | nil => rw [List.foldl_nil, List.append_nil]
  | cons path new ih =>
    have hany : (firstBy Path.parts files).any (Path.same path) ↔
        Path.parts path ∈ files.map Path.parts := by
      rw [← mem_distinct, ← map_firstBy, List.any_eq_true, List.mem_map]
      simp only [Path.same, beq_iff_eq, eq_comm (a := Path.parts path)]
    have hadd : addPath (firstBy Path.parts files) path = firstBy Path.parts (files ++ [path]) := by
      rw [firstBy_concat]
      by_cases hmem : Path.parts path ∈ files.map Path.parts
      · rw [if_pos hmem, addPath, if_pos (hany.2 hmem)]
      · rw [if_neg hmem, addPath, if_neg (mt hany.1 hmem)]
    rw [List.foldl_cons, hadd, ih, List.append_assoc, List.singleton_append]

/-- What names that came before stand for is there, spelled somehow. -/
theorem covered_of_mem {groups : List (List String)}
    (hgroups : names.mapM (expand fs registry directories) = .ok groups) (hname : name ∈ names) :
    ∃ group, expand fs registry directories name = .ok group ∧
      ∀ file ∈ group, Path.parts file ∈ groups.flatten.map Path.parts := by
  obtain ⟨group, hgroup, hexpand⟩ := exists_right_of_mem (mapM_eq_ok_iff.1 hgroups) hname
  refine ⟨group, hexpand, fun file hfile => List.mem_map_of_mem ?_⟩
  exact List.mem_flatten.2 ⟨group, hgroup, hfile⟩

/-- One more name, after names that all stand for files. -/
theorem add_eq {groups : List (List String)}
    (hgroups : names.mapM (expand fs registry directories) = .ok groups) (name : String) :
    Resolution.add fs registry directories
        ⟨distinct names, firstBy Path.parts groups.flatten⟩ name =
      (expand fs registry directories name).map fun files =>
        ⟨distinct (names ++ [name]), firstBy Path.parts (groups.flatten ++ files)⟩ := by
  rw [distinct_concat]
  by_cases hname : name ∈ distinct names
  · obtain ⟨group, hexpand, hcovered⟩ := covered_of_mem hgroups (mem_distinct.1 hname)
    have hfiles := firstBy_append_of_covered [] hcovered
    rw [List.append_nil, List.append_nil] at hfiles
    rw [Resolution.add, if_pos hname, if_pos hname, hexpand, Except.map, hfiles]
  · rw [add_of_not_mem hname, if_neg hname]
    simp only [foldl_addPath]

/-- The names that were looked at and the files that were found, after names in a row. -/
theorem foldlM_add (names : List String) :
    names.foldlM (Resolution.add fs registry directories) {} =
      (names.mapM (expand fs registry directories)).map fun groups =>
        ⟨distinct names, firstBy Path.parts groups.flatten⟩ := by
  induction names using List.reverseRecOn with
  | nil => rfl
  | append_singleton names name ih =>
    rw [List.foldlM_append, List.mapM_append, ih]
    cases hgroups : names.mapM (expand fs registry directories) with
    | error e => rfl
    | ok groups =>
      show (Resolution.add _ _ _ ⟨_, _⟩ name >>= pure) = _
      rw [bind_pure, add_eq hgroups name, List.mapM_cons, List.mapM_nil]
      cases expand fs registry directories name with
      | error e => rfl
      | ok files => simp [bind, Except.bind, Except.map, pure, Except.pure]

theorem resolve_eq (names : List String) : resolve fs registry directories names =
    (names.mapM (expand fs registry directories)).map fun groups =>
      firstBy Path.parts groups.flatten := by
  unfold resolve
  rw [foldlM_add]
  cases names.mapM (expand fs registry directories) <;> rfl

/-- A name that comes with nothing new can be left out. -/
theorem resolve_of_covered {before : List String} (after : List String)
    (h : ∀ groups, before.mapM (expand fs registry directories) = .ok groups →
      ∃ group, expand fs registry directories name = .ok group ∧
        ∀ file ∈ group, Path.parts file ∈ groups.flatten.map Path.parts) :
    resolve fs registry directories (before ++ name :: after) =
      resolve fs registry directories (before ++ after) := by
  rw [resolve_eq, resolve_eq, List.mapM_append, List.mapM_append, List.mapM_cons]
  cases hbefore : before.mapM (expand fs registry directories) with
  | error e => rfl
  | ok groups =>
    obtain ⟨group, hexpand, hcovered⟩ := h groups hbefore
    rw [hexpand]
    cases after.mapM (expand fs registry directories) with
    | error e => rfl
    | ok rest =>
      have hfiles := firstBy_append_of_covered rest.flatten hcovered
      simpa [bind, Except.bind, Except.map, pure, Except.pure] using hfiles

theorem supports_of_hasExpansion (h : HasExpansion fs registry directories name files) :
    ∀ file ∈ files, registry.supports file := by
  obtain ⟨paths, groups, -, hgroups, rfl⟩ := h
  intro file hfile
  obtain ⟨group, hgroup, hfile⟩ := List.mem_flatten.1 hfile
  obtain ⟨path, -, hpath⟩ := exists_left_of_mem hgroups hgroup
  cases hpath with
  | directory => exact (List.mem_filter.1 hfile).2
  | file _ hsupports =>
    obtain rfl := List.mem_singleton.1 hfile
    exact hsupports

/-- The files of names in a row: those that the names stand for, one name after the other, each path
where it occurs first, or the fault of the first name that has one. A name counts for nothing if it
occurs before, or if what it stands for does. -/
theorem resolve_expansions (fs : FileSystem) (registry : Registry) (directories : List String) :
    (∀ names e, resolve fs registry directories names = .error e ↔
      ∃ before name after, names = before ++ name :: after ∧
        (∀ n ∈ before, ∀ e', ¬ IsFault fs registry directories n e') ∧
        IsFault fs registry directories name e) ∧
    (∀ names files, resolve fs registry directories names = .ok files ↔
      ∃ groups, List.Forall₂ (HasExpansion fs registry directories) names groups ∧
        files = firstBy Path.parts groups.flatten) ∧
    (∀ names files, resolve fs registry directories names = .ok files →
      (files.map Path.parts).Nodup ∧ ∀ file ∈ files, registry.supports file) ∧
    (∀ before name after,
      (name ∈ before ∨ ∃ groups files,
        List.Forall₂ (HasExpansion fs registry directories) before groups ∧
        HasExpansion fs registry directories name files ∧
        ∀ file ∈ files, ∃ file' ∈ groups.flatten, Path.same file file') →
      resolve fs registry directories (before ++ name :: after) =
        resolve fs registry directories (before ++ after)) := by
  have hok : ∀ names files, resolve fs registry directories names = .ok files ↔
      ∃ groups, List.Forall₂ (HasExpansion fs registry directories) names groups ∧
        files = firstBy Path.parts groups.flatten := by
    intro names files
    simp only [resolve_eq, map_eq_ok, mapM_eq_ok_iff, expand_eq_ok_iff, eq_comm (a := files)]
  refine ⟨fun names e => ?_, hok, fun names files h => ?_, fun before name after h => ?_⟩
  · simp only [resolve_eq, map_eq_error, mapM_eq_error_iff, exists_expand_eq_ok_iff,
      expand_eq_error_iff]
  · obtain ⟨groups, hgroups, rfl⟩ := (hok names files).1 h
    refine ⟨?_, fun file hfile => ?_⟩
    · rw [map_firstBy]
      exact nodup_distinct _
    · obtain ⟨group, hgroup, hfile⟩ := List.mem_flatten.1 ((firstBy_sublist _ _).subset hfile)
      obtain ⟨name, -, hexpansion⟩ := exists_left_of_mem hgroups hgroup
      exact supports_of_hasExpansion hexpansion file hfile
  · refine resolve_of_covered after fun groups hgroups => ?_
    obtain hname | ⟨groups', files, hgroups', hfiles, hcovered⟩ := h
    · exact covered_of_mem hgroups hname
    · have hsame : before.mapM (expand fs registry directories) = .ok groups' :=
        mapM_eq_ok_iff.2 (hgroups'.imp fun _ _ => expand_eq_ok_iff.2)
      obtain rfl := Except.ok.inj (hgroups.symm.trans hsame)
      refine ⟨files, expand_eq_ok_iff.2 hfiles, fun file hfile => ?_⟩
      obtain ⟨file', hfile', heq⟩ := hcovered file hfile
      exact List.mem_map.2 ⟨file', hfile', (beq_iff_eq.1 heq).symm⟩

example :
    let disk : Disk :=
      { nodes := [(["lib"], .directory), (["lib", "extra.py"], .file []), (["src"], .directory),
          (["src", "views.py"], .file [])] }
    resolve disk .defaults ["lib"] ["extra.py", "extra.py", "src/views.py", "lib/./extra.py"] =
      .ok ["lib/extra.py", "src/views.py"] := by
  decide +kernel

end PotExtract.Inputs
