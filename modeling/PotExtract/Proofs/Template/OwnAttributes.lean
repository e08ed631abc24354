import Mathlib.Data.List.Basic
import PotExtract.Template.Scan

/-! The messages of translated attributes. An entry of the list of translated attributes means the
attribute of the element that has its name and no prefix. Names are looked for behind prefixes,
though, so that an attribute of another namespace is taken for it if it comes first. -/

namespace PotExtract.Template

open Text Markup

/-! ### Names with and without a prefix -/

/-- An attribute that has the name without a prefix. -/
def IsOwn (name : String) (a : Attribute) : Prop :=
  a.name = name ∧ ':' ∉ name.toList

instance (name : String) (a : Attribute) : Decidable (IsOwn name a) :=
  inferInstanceAs (Decidable (_ ∧ _))

/-- An attribute that has the name behind a prefix. -/
def IsPrefixed (name : String) (a : Attribute) : Prop :=
  ∃ pre, ':' ∉ pre ∧ a.name.toList = pre ++ ':' :: name.toList

theorem isPrefixed_iff {name : String} {a : Attribute} :
    IsPrefixed name a ↔ (cut? ':' a.name.toList).map Prod.snd = some name.toList := by
  constructor
  · rintro ⟨pre, hpre, hname⟩
    rw [hname, cut?_append_cons hpre, Option.map_some]
  · intro h
    obtain ⟨⟨pre, rest⟩, hcut, hrest⟩ := Option.map_eq_some_iff.1 h
    obtain rfl : rest = name.toList := hrest
    exact ⟨pre, not_mem_of_cut? hcut, cut?_eq_some hcut⟩

instance (name : String) (a : Attribute) : Decidable (IsPrefixed name a) :=
  decidable_of_iff _ isPrefixed_iff.symm

variable {name : String} {a : Attribute}

/-- Behind its prefix, if it has one, an attribute has a name exactly if it is an own one of that
name or has a prefix in front of it. -/
theorem localName_eq_iff :
    (QualifiedName.ofString a.name).localName = name ↔ IsOwn name a ∨ IsPrefixed name a := by
  by_cases hcolon : ':' ∈ a.name.toList
  · obtain ⟨pre, rest, hname, hpre⟩ := List.eq_append_cons_of_mem hcolon
    have hcut : cut? ':' a.name.toList = some (pre, rest) := by rw [hname, cut?_append_cons hpre]
    have hown : ¬ IsOwn name a := fun h => h.2 (h.1 ▸ hcolon)
    rw [or_iff_right hown, isPrefixed_iff, QualifiedName.ofString, hcut, Option.map_some,
      Option.some_inj, ← String.toList_inj, String.toList_ofList]
  · have hcut : cut? ':' a.name.toList = none := by
      cases hcut : cut? ':' a.name.toList with
      | none => rfl
      | some parts =>
        rw [cut?_eq_some hcut] at hcolon
        exact absurd (List.mem_append_right _ List.mem_cons_self) hcolon
    have hpre : ¬ IsPrefixed name a := by rw [isPrefixed_iff, hcut]; rintro ⟨⟩
    rw [or_iff_left hpre, QualifiedName.ofString, hcut]
    exact ⟨fun h => ⟨h, h ▸ hcolon⟩, fun h => h.1⟩

/-! ### The attribute of an entry -/

/-- The element's own attribute of a name. Of two the first one counts. -/
def ownAttribute? (tag : Tag) (name : String) : Option Attribute :=
  tag.attributes.find? fun a => decide (IsOwn name a)

/-- Whether an attribute with a prefix in front of the name comes before every own one. -/
def IsShadowed (tag : Tag) (name : String) : Prop :=
  ∃ a ∈ tag.attributes.takeWhile fun a => decide (¬ IsOwn name a), IsPrefixed name a

instance (tag : Tag) (name : String) : Decidable (IsShadowed tag name) :=
  inferInstanceAs (Decidable (∃ a ∈ _, _))

/-- The attribute that is found by a name is the element's own one exactly if that is not shadowed. -/
theorem attributeNamed?_eq_own_iff (tag : Tag) (name : String) :
    attributeNamed? tag name = ownAttribute? tag name ↔ ¬ IsShadowed tag name := by
  unfold attributeNamed? ownAttribute? IsShadowed
  induction tag.attributes with
  | nil => simp
  | cons a attributes ih =>
    by_cases hown : IsOwn name a
    · have hname := localName_eq_iff.2 (.inl hown)
      simp [hown, hname]
    · by_cases hpre : IsPrefixed name a
      · have hname := localName_eq_iff.2 (.inr hpre)
        -- an own attribute behind it is another one
        have hother : attributes.find? (fun a => decide (IsOwn name a)) ≠ some a := fun h =>
          hown (by simpa using List.find?_some h)
        simp [hown, hname, hpre, hother.symm]
      · have hname : (QualifiedName.ofString a.name).localName ≠ name := fun h =>
          (localName_eq_iff.1 h).elim hown hpre
        simpa [hown, hname, hpre] using ih

/-! ### The messages of entries -/

/-- The message of an attribute: of its value, or of the id that is given for it, with the value as a
note. There is none without an id. -/
def suppliedMessage? (file : String) (scope : Scope) (msgid : Option String) (a : Attribute) :
    Option Message :=
  if msgid.getD a.value = "" then none
  else some {
    domain := scope.domain
    context := scope.context
    id := msgid.getD a.value
    comment := msgid.elim "" fun _ => s!"Default: {a.value}"
    location := ⟨file, a.line⟩ }

/-- The message of an entry that means the element's own attribute: the name of the attribute, or that
and an id. -/
def ownMessage? (file : String) (scope : Scope) (tag : Tag) (entry : List Char) : Option Message :=
  match words entry with
  | [name] =>
    (ownAttribute? tag (String.ofList name)).bind (suppliedMessage? file scope none)
  | [name, msgid] =>
    (ownAttribute? tag (String.ofList name)).bind
      (suppliedMessage? file scope (some (String.ofList msgid)))
  | _ => none

variable {ctx : ScanContext} {scope : Scope} {tag : Tag}

theorem guard_bind {α : Type} (p : Prop) [Decidable p] (x : Option α) :
    ((guard p : Option Unit) >>= fun _ => x) = if p then x else none := by
  unfold guard
  split <;> rfl

theorem entryMessage?_of_eq {entry : List Char} {name : String} {msgid : Option String}
    (h : attributeEntry? entry = some (name, msgid)) :
    entryMessage? ctx scope tag entry =
      (attributeNamed? tag name).bind (suppliedMessage? ctx.file scope msgid) := by
  rw [entryMessage?, h]
  change (attributeNamed? tag name).bind _ = _
  refine Option.bind_congr fun a _ => ?_
  rw [guard_bind, suppliedMessage?]
  by_cases hid : msgid.getD a.value = ""
  · rw [if_pos hid, if_neg (by simp [hid])]
  · rw [if_neg hid, if_pos (by simp [hid])]
    cases msgid <;> rfl

/-- An entry whose name is not shadowed has the message of the element's own attribute. -/
theorem entryMessage?_eq_own {entry : List Char}
    (hown : ∀ named, attributeEntry? entry = some named → ¬ IsShadowed tag named.1) :
    entryMessage? ctx scope tag entry = ownMessage? ctx.file scope tag entry := by
  unfold ownMessage?
  split
  · next name hwords =>
    have hentry : attributeEntry? entry = some (String.ofList name, none) := by
      unfold attributeEntry?
      rw [hwords]
    rw [entryMessage?_of_eq hentry, (attributeNamed?_eq_own_iff tag _).2 (hown _ hentry)]
  · next name msgid hwords =>
    have hentry : attributeEntry? entry = some (String.ofList name, some (String.ofList msgid)) := by
      unfold attributeEntry?
      rw [hwords]
    rw [entryMessage?_of_eq hentry, (attributeNamed?_eq_own_iff tag _).2 (hown _ hentry)]
  · next hone htwo =>
    have hentry : attributeEntry? entry = none := by
      unfold attributeEntry?
      split
      · next hwords => exact (hone _ hwords).elim
      · next hwords => exact (htwo _ _ hwords).elim
      · rfl
    rw [entryMessage?, hentry]
    rfl

/-- The entries of the list of translated attributes give the messages of the element's own
attributes, in their order, if no attribute of another namespace shadows one that is listed. -/
theorem attributeMessages_eq_own {f : Frame} {entries : String}
    (hmark : f.mark? tag "attributes" = some entries)
    (hdomain : ∀ target ∈ ctx.options.domain, f.scope.domain = some target)
    (hown : ∀ entry ∈ entries.toList.splitOn ';', ∀ named,
      attributeEntry? entry = some named → ¬ IsShadowed tag named.1) :
    attributeMessages ctx f tag =
      (entries.toList.splitOn ';').filterMap (ownMessage? ctx.file f.scope tag) := by
  have hwanted : (ctx.options.domain.isSome && f.scope.domain != ctx.options.domain) = false := by
    cases htarget : ctx.options.domain with
    | none => rfl
    | some target => simp [hdomain target htarget]
  rw [attributeMessages, hmark]
  simp only [hwanted, Bool.false_eq_true, if_false]
  exact List.filterMap_congr fun entry hentry => entryMessage?_eq_own (hown entry hentry)

/-- An expression in front of the listed attributes, an attribute with a prefix behind its namesake,
an id for a value, a name that no attribute has, and an entry of three words. -/
theorem attributeMessages_eq_own_image :
    let ctx : ScanContext := ⟨{ domain := some "herd" }, "a.pt", .tales⟩
    let f : Frame := { scope := { domain := some "herd", context := some "menu" } }
    let entries := " title; alt\timage ;src;;lang d e"
    let tag : Tag := ⟨"img", [⟨"tal:content", "x", 1⟩, ⟨"lang", "de", 1⟩,
      ⟨"i18n:attributes", entries, 1⟩, ⟨"title", "Tïtle", 2⟩, ⟨"tal:title", "y", 2⟩,
      ⟨"alt", "", 3⟩], 1⟩
    attributeMessages ctx f tag =
      [{ domain := some "herd", context := some "menu", id := "Tïtle", location := ⟨"a.pt", 2⟩ },
        { domain := some "herd", context := some "menu", id := "image", comment := "Default: "
          location := ⟨"a.pt", 3⟩ }] := by
  intro ctx f entries tag
  have hmark : f.mark? tag "attributes" = some entries := by decide +kernel
  have hown : ∀ entry ∈ entries.toList.splitOn ';', ∀ named,
      attributeEntry? entry = some named → ¬ IsShadowed tag named.1 := by
    have hnone : ∀ entry ∈ entries.toList.splitOn ';',
        ∀ named ∈ attributeEntry? entry, ¬ IsShadowed tag named.1 := by decide +kernel
    exact hnone
  have hdomain : ∀ target ∈ ctx.options.domain, f.scope.domain = some target := by simp [ctx, f]
  have hmessages : attributeMessages ctx f tag = _ := attributeMessages_eq_own hmark hdomain hown
  rw [hmessages]
  decide +kernel

/-- The value of an expression is taken for that of the attribute. -/
theorem attributeMessages_eq_own_content :
    let tag : Tag := ⟨"p", [⟨"tal:content", "x", 1⟩, ⟨"content", "y", 1⟩,
      ⟨"i18n:attributes", "content", 1⟩], 1⟩
    let ctx : ScanContext := ⟨{}, "a.pt", .tales⟩
    attributeMessages ctx {} tag = [{ id := "x", location := ⟨"a.pt", 1⟩ }] ∧
      ("content".toList.splitOn ';').filterMap (ownMessage? "a.pt" {} tag) =
        [{ id := "y", location := ⟨"a.pt", 1⟩ }] := by
  decide +kernel

end PotExtract.Template
