import PotExtract.Proofs.Markup.Places
import PotExtract.Proofs.Text.Trim

/-! Attributes as they are printed in a tag, and their lines. Attributes are read with the names and
values that are printed. The line of each is that of the first place, behind the places of the names
in front of it, where its name stands between white space and its end. That is the line of its own
name unless a value shows the name of the attribute behind it on an earlier line. -/

namespace PotExtract.Markup

open Text

/-- An attribute as it is printed: white space, its name, an equals sign that may have white space
around it, and its value between quotes. -/
structure PrintedAttribute where
  space : List Char
  name : List Char
  beforeEquals : List Char
  behindEquals : List Char
  quote : Char
  value : List Char

namespace PrintedAttribute

/-- The text of the attribute. -/
def write (a : PrintedAttribute) : List Char :=
  a.space ++ (a.name ++ (a.beforeEquals ++ '=' :: (a.behindEquals ++ a.quote :: (a.value ++ [a.quote]))))

/-- Only white space stands around the name and the equals sign, the name has no character that would
end it, and the value does not have its quote. -/
structure IsRegular (a : PrintedAttribute) : Prop where
  space : a.space ≠ [] ∧ ∀ c ∈ a.space, isSpace c
  name : a.name ≠ [] ∧ ∀ c ∈ a.name, isBlank c = false ∧ c ≠ '=' ∧ c ≠ '"' ∧ c ≠ '\''
  beforeEquals : ∀ c ∈ a.beforeEquals, isSpace c
  behindEquals : ∀ c ∈ a.behindEquals, isSpace c
  quote : a.quote = '"' ∨ a.quote = '\''
  value : a.quote ∉ a.value

instance (a : PrintedAttribute) : Decidable a.IsRegular :=
  decidable_of_iff
    ((a.space ≠ [] ∧ a.space.all isSpace) ∧
      (a.name ≠ [] ∧ a.name.all fun c => !isBlank c && c != '=' && c != '"' && c != '\'') ∧
      a.beforeEquals.all isSpace ∧ a.behindEquals.all isSpace ∧
      (a.quote = '"' ∨ a.quote = '\'') ∧ a.quote ∉ a.value) <| by
    simp only [List.all_eq_true, Bool.and_eq_true, Bool.not_eq_true', bne_iff_ne, and_assoc]
    exact ⟨fun ⟨h₁, h₂, h₃, h₄, h₅, h₆, h₇, h₈⟩ => ⟨⟨h₁, h₂⟩, ⟨h₃, h₄⟩, h₅, h₆, h₇, h₈⟩,
      fun h => ⟨h.space.1, h.space.2, h.name.1, h.name.2, h.beforeEquals, h.behindEquals, h.quote,
        h.value⟩⟩

end PrintedAttribute

/-- A tag as it is printed between its brackets: its name, attributes, and white space. -/
structure PrintedTag where
  name : List Char
  attributes : List PrintedAttribute
  space : List Char

namespace PrintedTag

/-- The text of the tag between its brackets. -/
def content (t : PrintedTag) : List Char :=
  t.name ++ (t.attributes.flatMap PrintedAttribute.write ++ t.space)

/-- No white space stands in the name, and only white space behind the attributes. -/
structure IsRegular (t : PrintedTag) : Prop where
  name : ∀ c ∈ t.name, isBlank c = false
  attributes : ∀ a ∈ t.attributes, a.IsRegular
  space : ∀ c ∈ t.space, isSpace c

instance (t : PrintedTag) : Decidable t.IsRegular :=
  decidable_of_iff (t.name.all (fun c => !isBlank c) ∧ (∀ a ∈ t.attributes, a.IsRegular) ∧
      t.space.all isSpace) <| by
    simp only [List.all_eq_true, Bool.not_eq_true']
    exact ⟨fun ⟨h₁, h₂, h₃⟩ => ⟨h₁, h₂, h₃⟩, fun h => ⟨h.name, h.attributes, h.space⟩⟩

/-- What stands in front of the name of each attribute, if `front` is in front of all of them. -/
def frontsFrom (front : List Char) : List PrintedAttribute → List (List Char)
  | [] => []
  | a :: later => (front ++ a.space) :: frontsFrom (front ++ a.write) later

/-- What stands in the tag in front of the name of each attribute. -/
def fronts (t : PrintedTag) : List (List Char) :=
  frontsFrom ('<' :: t.name) t.attributes

end PrintedTag

/-- Places at which names are found in a text in order: each behind `consumed`, and behind the name in
front of it. -/
inductive NamesFound (text : List Char) : (consumed : List Char) → (names : List (List Char)) →
    (places : List (List Char)) → Prop where
  | nil (consumed : List Char) : NamesFound text consumed [] []
  | cons {consumed name place : List Char} {names places : List (List Char)}
      (behind : consumed <+: place) (found : NameFound name place text)
      (later : NamesFound text (place ++ name) names places) :
      NamesFound text consumed (name :: names) (place :: places)

/-! ### Reading printed attributes -/

section Reading

theorem isBlank_of_isSpace {c : Char} (h : isSpace c) : isBlank c := by
  simp only [isSpace, Bool.or_eq_true, beq_iff_eq] at h
  rcases h with ((rfl | rfl) | rfl) | rfl <;> decide

theorem isSpace_eq_false {c : Char} (h : isBlank c = false) : isSpace c = false := by
  rw [Bool.eq_false_iff] at h ⊢
  exact fun hspace => h (isBlank_of_isSpace hspace)

theorem dropWhile_isSpace_append {w : List Char} (hw : ∀ c ∈ w, isSpace c) {c : Char}
    (hc : isSpace c = false) (s : List Char) : (w ++ c :: s).dropWhile isSpace = c :: s := by
  rw [List.dropWhile_append_of_pos hw, List.dropWhile_cons_of_neg (by simp [hc])]

variable {a : PrintedAttribute}

theorem readValue_write (ha : a.IsRegular) (size : Nat) (rest : List Char) :
    readValue .lenient size (a.behindEquals ++ a.quote :: (a.value ++ a.quote :: rest)) =
      .ok (a.value, rest) := by
  have hquote : isSpace a.quote = false := by rcases ha.quote with h | h <;> rw [h] <;> decide
  rw [readValue, dropWhile_isSpace_append ha.behindEquals hquote]
  simp only [ha.quote, if_true, cut?_append_cons ha.value rest]

/-- The name of an attribute and the white space behind it end at the equals sign. -/
theorem dropWhile_name {name w : List Char} (hname : ∀ c ∈ name, isKeyChar c)
    (hw : ∀ c ∈ w, isSpace c) (s : List Char) :
    (name ++ (w ++ '=' :: s)).takeWhile isKeyChar = name ∧
      ((name ++ (w ++ '=' :: s)).dropWhile isKeyChar).dropWhile isSpace = '=' :: s := by
  have hstop : ∀ c ∈ (w ++ '=' :: s).head?, isKeyChar c = false := by
    intro c hc
    cases w with
    | nil => exact Option.some.inj hc ▸ by decide
    | cons d w =>
      have hd := hw d List.mem_cons_self
      exact Option.some.inj hc ▸ by simp [isKeyChar, hd]
  have hdrop : (w ++ '=' :: s).dropWhile isKeyChar = w ++ '=' :: s := by
    cases hs : w ++ '=' :: s with
    | nil => rfl
    | cons c t => exact List.dropWhile_cons_of_neg (by simp [hstop c (by simp [hs])])
  have htake : (w ++ '=' :: s).takeWhile isKeyChar = [] := by
    cases hs : w ++ '=' :: s with
    | nil => rfl
    | cons c t => exact List.takeWhile_cons_of_neg (by simp [hstop c (by simp [hs])])
  constructor
  · rw [List.takeWhile_append_of_pos hname, htake, List.append_nil]
  · rw [List.dropWhile_append_of_pos hname, hdrop]
    exact dropWhile_isSpace_append hw (by decide) s

theorem isKeyChar_of_mem_name (ha : a.IsRegular) : ∀ c ∈ a.name, isKeyChar c := by
  intro c hc
  obtain ⟨hblank, hequals, -⟩ := ha.name.2 c hc
  simp [isKeyChar, isSpace_eq_false hblank, hequals]

/-- A printed attribute is read with its name and its value, up to what is behind it. -/
theorem exists_readAttribute_write (ha : a.IsRegular) (size : Nat) (seen : List WrittenAttribute)
    {first : Char} {others : List Char} (hname : a.name = first :: others) (rest : List Char) :
    ∃ place, readAttribute .lenient size seen first (others ++ (a.beforeEquals ++ '=' ::
      (a.behindEquals ++ a.quote :: (a.value ++ a.quote :: rest)))) =
        .ok (⟨a.name, a.value, place⟩, rest) := by
  have hothers : ∀ c ∈ others, isKeyChar c :=
    fun c hc => isKeyChar_of_mem_name ha c (hname ▸ List.mem_cons_of_mem first hc)
  obtain ⟨htake, hdrop⟩ := dropWhile_name hothers ha.beforeEquals
    (a.behindEquals ++ a.quote :: (a.value ++ a.quote :: rest))
  simp only [readAttribute, htake, hdrop, clash?, readValue_write ha, hname]
  exact ⟨_, rfl⟩

/-- Printed attributes are read with their names and values. -/
theorem attributesFrom_write {attributes : List PrintedAttribute} {space : List Char}
    (hattributes : ∀ a ∈ attributes, a.IsRegular) (hspace : ∀ c ∈ space, isSpace c) (size : Nat)
    (seen : List WrittenAttribute) :
    ∃ read, attributesFrom .lenient size seen
        (attributes.flatMap PrintedAttribute.write ++ space) = ⟨read, none⟩ ∧
      read.map (fun w => (w.name, w.value)) = attributes.map fun a => (a.name, a.value) := by
  induction attributes generalizing seen with
  | nil =>
    refine ⟨[], ?_, rfl⟩
    have hnil : space.dropWhile isSpace = [] := List.dropWhile_eq_nil_iff.2 hspace
    rw [List.flatMap_nil, List.nil_append, attributesFrom]
    split
    · rfl
    · next h => rw [hnil] at h; cases h
  | cons a attributes ih =>
    obtain ⟨ha, hlater⟩ := List.forall_mem_cons.1 hattributes
    obtain ⟨first, others, hname⟩ := List.exists_cons_of_ne_nil ha.name.1
    have hfirst : isSpace first = false :=
      isSpace_eq_false (ha.name.2 first (hname ▸ List.mem_cons_self)).1
    obtain ⟨place, hread⟩ := exists_readAttribute_write ha size seen hname
      (attributes.flatMap PrintedAttribute.write ++ space)
    obtain ⟨read, hrest, hmap⟩ := ih hlater (seen ++ [⟨a.name, a.value, place⟩])
    have hdrop := dropWhile_isSpace_append ha.space.2 hfirst (others ++ (a.beforeEquals ++ '=' ::
      (a.behindEquals ++ a.quote :: (a.value ++ a.quote ::
        (attributes.flatMap PrintedAttribute.write ++ space)))))
    refine ⟨⟨a.name, a.value, place⟩ :: read, ?_, by rw [List.map_cons, List.map_cons, hmap]⟩
    have hwrite : (a :: attributes).flatMap PrintedAttribute.write ++ space =
        a.space ++ first :: (others ++ (a.beforeEquals ++ '=' :: (a.behindEquals ++ a.quote ::
          (a.value ++ a.quote :: (attributes.flatMap PrintedAttribute.write ++ space))))) := by
      simp [PrintedAttribute.write, hname]
    rw [hwrite, attributesFrom]
    split
    · next h => rw [hdrop] at h; cases h
    next c tail h =>
    rw [hdrop] at h
    obtain ⟨rfl, rfl⟩ := List.cons.inj h
    split
    · next h => rw [hread] at h; cases h
    next b rest h =>
    rw [hread] at h
    obtain ⟨rfl, rfl⟩ := Prod.mk.inj (Except.ok.inj h)
    rw [hrest]

end Reading

/-! ### The first places -/

section Places

variable {text consumed name place rest s : List Char}

theorem NameFound.prefix_text (h : NameFound name place text) : place ++ name <+: text := by
  obtain ⟨rest, hrest, -⟩ := h.place
  exact ⟨rest, by rw [hrest, List.append_assoc]⟩

/-- A name without white space is found at a place of its own, or behind it: not inside of it. -/
theorem NameFound.eq_or_prefix (hname : ∀ c ∈ name, isBlank c = false)
    (h : NameFound name place text) (hconsumed : consumed <+: place)
    (hoccurs : consumed ++ name <+: text) : place = consumed ∨ consumed ++ name <+: place := by
  obtain ⟨w, rfl⟩ := hconsumed
  rcases List.eq_nil_or_concat' w with rfl | ⟨v, c, rfl⟩
  · exact .inl (List.append_nil consumed)
  · refine .inr (List.prefix_of_prefix_length_le hoccurs ((List.prefix_append _ _).trans h.prefix_text) ?_)
    by_contra hshort
    -- the last character in front of the place is one of the name
    have hinside : consumed ++ v ++ [c] <+: consumed ++ name := by
      have hplace : consumed ++ v ++ [c] <+: text :=
        (List.append_assoc _ _ _) ▸ (List.prefix_append _ name).trans h.prefix_text
      refine List.prefix_of_prefix_length_le hplace hoccurs ?_
      simp only [List.length_append] at hshort ⊢
      omega
    have hc : c ∈ name := by
      rw [List.append_assoc, List.prefix_append_right_inj] at hinside
      exact hinside.subset (by simp)
    have hblank := h.behindBlank
    rw [List.getLast?_append_of_ne_nil _ (by simp), List.getLast?_concat, Option.any_some,
      hname c hc] at hblank
    cases hblank

/-- A name that does not start here is found behind the next character. -/
theorem NameFound.prefix_of_after?_eq_none {c : Char} (h : NameFound name place (consumed ++ c :: s))
    (hafter : after? name (c :: s) = none) (hconsumed : consumed <+: place) :
    consumed ++ [c] <+: place := by
  obtain ⟨w, rfl⟩ := hconsumed
  obtain ⟨rest, hrest, -⟩ := h.place
  rw [List.append_assoc, List.append_cancel_left_eq] at hrest
  cases w with
  | nil =>
    rw [hrest, List.nil_append, after?_append] at hafter
    cases hafter
  | cons d w =>
    obtain ⟨rfl, -⟩ := List.cons.inj hrest
    exact ⟨w, by simp⟩

/-- A name that does not stand free here is found behind the text that is the same. -/
theorem NameFound.prefix_of_not_free (hname : ∀ c ∈ name, isBlank c = false)
    (h : NameFound name place (consumed ++ s)) (hs : s = name ++ rest)
    (hfree : ¬ (consumed.getLast?.any isBlank && endsName rest)) (hconsumed : consumed <+: place) :
    consumed ++ name <+: place := by
  have hoccurs : consumed ++ name <+: consumed ++ s := ⟨rest, by rw [hs, List.append_assoc]⟩
  refine (h.eq_or_prefix hname hconsumed hoccurs).resolve_left ?_
  rintro rfl
  obtain ⟨rest', hrest', hends⟩ := h.place
  rw [hs, List.append_cancel_left_eq, List.append_cancel_left_eq] at hrest'
  rw [h.behindBlank, hrest', hends] at hfree
  exact hfree rfl

/-- The first place behind `consumed` at which a name is found. -/
structure FirstFound (name consumed text place : List Char) : Prop where
  found : NameFound name place text
  behind : consumed <+: place
  least : ∀ other, NameFound name other text → consumed <+: other → place <+: other

/-- Nothing is lost by going on where the name is not found. -/
theorem FirstFound.of_prefix {earlier : List Char} (h : FirstFound name consumed text place)
    (hearlier : earlier <+: consumed)
    (hskip : ∀ other, NameFound name other text → earlier <+: other → consumed <+: other) :
    FirstFound name earlier text place :=
  ⟨h.found, hearlier.trans h.behind, fun other hfound hother =>
    h.least other hfound (hskip other hfound hother)⟩

/-- The search finds the first place of a name at or behind the one that is reached, if there is a
place. -/
theorem exists_findName? {first : Char} {others : List Char} {before : Option Char} {lines : Nat}
    (hname : ∀ c ∈ first :: others, isBlank c = false) (hbefore : before = consumed.getLast?)
    (hlines : lines = lineFeeds consumed) (h : NameFound (first :: others) place (consumed ++ s))
    (hconsumed : consumed <+: place) :
    ∃ least cursor, findName? first others before lines s = some (lineFeeds least, cursor) ∧
      FirstFound (first :: others) consumed (consumed ++ s) least ∧
      cursor.IsBehind (least ++ first :: others) ∧
      consumed ++ s = (least ++ first :: others) ++ cursor.rest := by
  fun_induction findName? first others before lines s generalizing consumed with
  | case1 before lines =>
    exfalso
    obtain ⟨w, rfl⟩ := hconsumed
    obtain ⟨rest, hrest, -⟩ := h.place
    have := congrArg List.length hrest
    simp only [List.length_append, List.length_cons, List.length_nil] at this
    omega
  | case2 before lines c tail rest hafter _ last ended =>
    rename_i haccept
    simp only [Bool.and_eq_true] at haccept
    have hs := after?_eq_some hafter
    have hfound : NameFound (first :: others) consumed (consumed ++ c :: tail) :=
      ⟨⟨rest, by rw [hs], haccept.2⟩, hbefore ▸ haccept.1⟩
    refine ⟨consumed, ⟨last, ended, rest⟩, by rw [hlines], ?_, ?_, by simp [hs]⟩
    · exact ⟨hfound, List.prefix_rfl, fun _ _ => id⟩
    · exact TagCursor.isBehind_append rest (List.cons_ne_nil first others) hlines
  | case3 before lines c tail rest hafter _ last ended hrefused =>
    rename_i ih
    have hs := after?_eq_some hafter
    have hbehind := TagCursor.isBehind_append rest (List.cons_ne_nil first others) hlines
    have htext : consumed ++ c :: tail = (consumed ++ first :: others) ++ rest := by simp [hs]
    have hskip := fun other (hfound : NameFound (first :: others) other (consumed ++ c :: tail)) =>
      hfound.prefix_of_not_free hname hs (hbefore ▸ hrefused)
    obtain ⟨least, cursor, hfind, hfirst, hcursor, hrest⟩ :=
      ih hbehind.before hbehind.lines (htext ▸ h) (hskip place h hconsumed)
    rw [← htext] at hfirst hrest
    exact ⟨least, cursor, hfind, hfirst.of_prefix (List.prefix_append _ _) hskip, hcursor, hrest⟩
  | case4 before lines c tail hafter ih =>
    have hfeeds : (if c = '\n' then lines + 1 else lines) = lineFeeds (consumed ++ [c]) := by
      rw [lineFeeds_append, ← hlines]
      by_cases hc : c = '\n' <;> simp [hc]
    have hbefore' : some c = (consumed ++ [c]).getLast? := by simp
    have htext : consumed ++ c :: tail = (consumed ++ [c]) ++ tail := by simp
    have hskip := fun other (hfound : NameFound (first :: others) other (consumed ++ c :: tail)) =>
      hfound.prefix_of_after?_eq_none hafter
    obtain ⟨least, cursor, hfind, hfirst, hcursor, hrest⟩ :=
      ih hbefore' hfeeds (htext ▸ h) (hskip place h hconsumed)
    rw [← htext] at hfirst hrest
    exact ⟨least, cursor, hfind, hfirst.of_prefix (List.prefix_append _ _) hskip, hcursor, hrest⟩

theorem NamesFound.of_prefix {earlier : List Char} {names places : List (List Char)}
    (h : NamesFound text consumed names places) (hearlier : earlier <+: consumed) :
    NamesFound text earlier names places := by
  cases h with
  | nil => exact .nil earlier
  | cons behind found later => exact .cons (hearlier.trans behind) found later

/-- Places behind a later place of a name are behind its first place, too. -/
theorem FirstFound.namesFound {least : List Char} {names places : List (List Char)}
    (h : FirstFound name consumed text least) (hplace : NameFound name place text)
    (hconsumed : consumed <+: place) (hplaces : NamesFound text (place ++ name) names places) :
    NamesFound text (least ++ name) names places := by
  have hle := (h.least place hplace hconsumed).length_le
  refine hplaces.of_prefix (List.prefix_of_prefix_length_le h.found.prefix_text hplace.prefix_text ?_)
  simp only [List.length_append]
  omega

theorem map_locate (tagLine : Nat) (cursor : TagCursor) (written : List WrittenAttribute) :
    (locate tagLine cursor written).map (fun a => (a.name, a.value)) =
      written.map fun w => (String.ofList w.name, String.ofList w.value) := by
  induction written generalizing cursor with
  | nil => rfl
  | cons w written ih =>
    rw [locate]
    split
    · rw [List.map_cons, ih, List.map_cons]
    · split <;> rw [List.map_cons, ih, List.map_cons]

/-- If the names have places in order, attributes have the lines of the first such places. -/
theorem exists_locate {written : List WrittenAttribute} {cursor : TagCursor}
    {places : List (List Char)}
    (hnames : ∀ w ∈ written, w.name ≠ [] ∧ ∀ c ∈ w.name, isBlank c = false)
    (hcursor : cursor.IsBehind consumed) (htext : text = consumed ++ cursor.rest)
    (h : NamesFound text consumed (written.map (·.name)) places) (tagLine : Nat) :
    ∃ leasts, NamesFound text consumed (written.map (·.name)) leasts ∧
      (locate tagLine cursor written).map (·.line) =
        leasts.map (fun least => tagLine + lineFeeds least) ∧
      ∀ places, NamesFound text consumed (written.map (·.name)) places →
        List.Forall₂ (· <+: ·) leasts places := by
  induction written generalizing cursor consumed places with
  | nil =>
    refine ⟨[], .nil consumed, rfl, fun places hplaces => ?_⟩
    cases hplaces
    exact .nil
  | cons w written ih =>
    obtain ⟨⟨hnil, hblank⟩, hlater⟩ := List.forall_mem_cons.1 hnames
    obtain ⟨first, others, hname⟩ := List.exists_cons_of_ne_nil hnil
    rw [List.map_cons] at h ⊢
    cases h with
    | cons behind found later =>
    rw [hname] at found later hblank ⊢
    obtain ⟨least, next, hfind, hfirst, hnext, hrest⟩ :=
      exists_findName? hblank hcursor.before hcursor.lines (htext ▸ found) behind
    rw [← htext] at hfirst hrest
    obtain ⟨leasts, hchain, hlocate, hleasts⟩ :=
      ih hlater hnext hrest (hfirst.namesFound found behind later)
    refine ⟨least :: leasts, .cons hfirst.behind hfirst.found hchain, ?_, ?_⟩
    · rw [locate]
      simp only [hname, hfind, hlocate, List.map_cons]
    · intro places hplaces
      cases hplaces with
      | cons behind found later =>
        exact .cons (hfirst.least _ found behind) (hleasts _ (hfirst.namesFound found behind later))

end Places

/-! ### The places of printed names -/

section Printed

variable {text consumed front rest : List Char} {a : PrintedAttribute}
  {attributes : List PrintedAttribute}

theorem endsName_of_isBlank {c : Char} {s : List Char} (h : isBlank c) : endsName (c :: s) := by
  simp [endsName, h]

/-- The name of a printed attribute is found where it is printed. -/
theorem nameFound_write (ha : a.IsRegular) :
    NameFound a.name (front ++ a.space) (front ++ (a.write ++ rest)) := by
  refine ⟨⟨a.beforeEquals ++ '=' :: (a.behindEquals ++ a.quote :: (a.value ++ a.quote :: rest)),
    by simp [PrintedAttribute.write], ?_⟩, ?_⟩
  · cases hequals : a.beforeEquals with
    | nil => rfl
    | cons c w =>
      exact endsName_of_isBlank (isBlank_of_isSpace (ha.beforeEquals c (by simp [hequals])))
  · have hlast := List.getLast?_eq_some_getLast ha.space.1
    rw [List.getLast?_append_of_ne_nil _ ha.space.1, hlast, Option.any_some]
    exact isBlank_of_isSpace (ha.space.2 _ (List.getLast_mem ha.space.1))

theorem prefix_write (front : List Char) (a : PrintedAttribute) :
    front ++ a.space ++ a.name <+: front ++ a.write :=
  ⟨a.beforeEquals ++ '=' :: (a.behindEquals ++ a.quote :: (a.value ++ [a.quote])),
    by simp [PrintedAttribute.write]⟩

/-- The names of printed attributes have places in order: those where they are printed. -/
theorem namesFound_frontsFrom (hattributes : ∀ a ∈ attributes, a.IsRegular)
    (hconsumed : consumed <+: front)
    (htext : text = front ++ (attributes.flatMap PrintedAttribute.write ++ rest)) :
    NamesFound text consumed (attributes.map (·.name)) (PrintedTag.frontsFrom front attributes) := by
  induction attributes generalizing front consumed with
  | nil => exact .nil consumed
  | cons a attributes ih =>
    obtain ⟨ha, hlater⟩ := List.forall_mem_cons.1 hattributes
    rw [List.flatMap_cons, List.append_assoc] at htext
    refine .cons (hconsumed.trans (List.prefix_append _ _)) (htext ▸ nameFound_write ha) ?_
    exact ih hlater (prefix_write front a) (by rw [htext, List.append_assoc])

/-- The value of an attribute has a name in it, between white space and its end. -/
def PrintedAttribute.Shows (a : PrintedAttribute) (name : List Char) : Prop :=
  ∃ place, NameFound name place (a.value ++ [a.quote])

/-- A name is not found where there is no white space in front of it. -/
theorem NameFound.prefix_of_not_isBlank {name place : List Char} (h : NameFound name place text)
    (hfront : ∀ c ∈ front, isBlank c = false) (htext : front <+: text) : front <+: place := by
  have hplace : place <+: text := (List.prefix_append _ _).trans h.prefix_text
  rcases Nat.le_total front.length place.length with hle | hle
  · exact List.prefix_of_prefix_length_le htext hplace hle
  have hinside := List.prefix_of_prefix_length_le hplace htext hle
  have hblank := h.behindBlank
  cases place using List.reverseRecOn with
  | nil => cases hblank
  | append_singleton w c =>
    rw [List.getLast?_concat, Option.any_some, hfront c (hinside.subset (by simp))] at hblank
    cases hblank

/-- A name is not found where none of its characters stand. -/
theorem NameFound.prefix_of_not_mem {name place gap : List Char} (h : NameFound name place text)
    (hnil : name ≠ []) (hgap : ∀ c ∈ gap, c ∉ name) (hfront : front <+: place)
    (htext : front ++ gap <+: text) : front ++ gap <+: place := by
  have hplace : place <+: text := (List.prefix_append _ _).trans h.prefix_text
  rcases Nat.le_total (front ++ gap).length place.length with hle | hle
  · exact List.prefix_of_prefix_length_le htext hplace hle
  obtain ⟨w, rfl⟩ := hfront
  have hw : w <+: gap := by
    have := List.prefix_of_prefix_length_le hplace htext hle
    rwa [List.prefix_append_right_inj] at this
  obtain ⟨v, rfl⟩ := hw
  cases v with
  | nil => simp
  | cons c v =>
    obtain ⟨first, others, rfl⟩ := List.exists_cons_of_ne_nil hnil
    -- the character behind the place is the first one of the name
    have hc : front ++ w ++ [c] <+: text := by
      refine List.IsPrefix.trans ?_ htext
      exact ⟨v, by simp⟩
    have hfirst : front ++ w ++ [first] <+: text := by
      refine List.IsPrefix.trans ?_ h.prefix_text
      exact ⟨others, by simp⟩
    have heq := List.prefix_of_prefix_length_le hc hfirst (by simp)
    rw [List.prefix_append_right_inj] at heq
    obtain rfl : c = first := by simpa using heq.subset (List.mem_singleton_self c)
    exact absurd List.mem_cons_self (hgap c (by simp))

theorem not_isBlank_quote (ha : a.IsRegular) : isBlank a.quote = false := by
  rcases ha.quote with h | h <;> rw [h] <;> decide

/-- A name is not found in a value that does not show it. -/
theorem NameFound.prefix_of_not_shows {name place : List Char} (h : NameFound name place text)
    (ha : a.IsRegular) (hname : a.quote ∉ name) (hshows : ¬ a.Shows name)
    (hquote : front.getLast? = some a.quote) (hfront : front <+: place)
    (htext : text = front ++ (a.value ++ a.quote :: rest)) : front ++ a.value <+: place := by
  have hplace : place <+: text := (List.prefix_append _ _).trans h.prefix_text
  have hvalue : front ++ a.value <+: text := ⟨a.quote :: rest, by simp [htext]⟩
  rcases Nat.le_total (front ++ a.value).length place.length with hle | hle
  · exact List.prefix_of_prefix_length_le hvalue hplace hle
  exfalso
  obtain ⟨w, rfl⟩ := hfront
  have hw : w <+: a.value := by
    have := List.prefix_of_prefix_length_le hplace hvalue hle
    rwa [List.prefix_append_right_inj] at this
  obtain ⟨v, hv⟩ := hw
  obtain ⟨tail, htail, hends⟩ := h.place
  have hrest : v ++ a.quote :: rest = name ++ tail := by
    rw [htext, ← hv] at htail
    simpa using htail
  obtain ⟨u, rfl, rfl⟩ : ∃ u, v = name ++ u ∧ tail = u ++ a.quote :: rest := by
    rcases List.append_eq_append_iff.1 hrest with ⟨u, rfl, hu⟩ | ⟨u, rfl, hu⟩
    · cases u with
      | nil => exact ⟨[], by simp, hu.symm⟩
      | cons c u => exact absurd (by simp [(List.cons.inj hu).1]) hname
    · exact ⟨u, rfl, hu⟩
  refine hshows ⟨w, ⟨u ++ [a.quote], by simp [← hv], ?_⟩, ?_⟩
  · cases u <;> exact hends
  · have hblank := h.behindBlank
    cases w using List.reverseRecOn with
    | nil =>
      rw [List.append_nil, hquote, Option.any_some, not_isBlank_quote ha] at hblank
      cases hblank
    | append_singleton w c => simpa using hblank

/-- A name that is found behind that of an attribute which does not show it is found behind all of
the attribute. -/
theorem NameFound.prefix_of_write {b : PrintedAttribute} {place : List Char}
    (h : NameFound b.name place text) (ha : a.IsRegular) (hb : b.IsRegular)
    (hshows : ¬ a.Shows b.name) (hplace : front ++ a.space ++ a.name <+: place)
    (htext : text = front ++ (a.write ++ rest)) : front ++ a.write <+: place := by
  have hquote : a.quote ∉ b.name := by
    intro hmem
    obtain ⟨-, -, hdouble, hsingle⟩ := hb.name.2 _ hmem
    exact ha.quote.elim hdouble hsingle
  -- what stands in front of the value
  have hgap : ∀ c ∈ a.beforeEquals ++ '=' :: (a.behindEquals ++ [a.quote]), c ∉ b.name := by
    have hspace : ∀ c, isSpace c → c ∉ b.name := by
      intro c hc hmem
      have := (hb.name.2 c hmem).1
      rw [isBlank_of_isSpace hc] at this
      cases this
    simp only [List.forall_mem_append, List.forall_mem_cons]
    exact ⟨fun c hc => hspace c (ha.beforeEquals c hc), fun hmem => (hb.name.2 _ hmem).2.1 rfl,
      fun c hc => hspace c (ha.behindEquals c hc), hquote, by simp⟩
  have hopen := h.prefix_of_not_mem hb.name.1 hgap hplace
    ⟨a.value ++ a.quote :: rest, by simp [htext, PrintedAttribute.write]⟩
  have hlast : (front ++ a.space ++ a.name ++
      (a.beforeEquals ++ '=' :: (a.behindEquals ++ [a.quote]))).getLast? = some a.quote := by
    simp [List.getLast?_cons]
  have htext' : text = (front ++ a.space ++ a.name ++
      (a.beforeEquals ++ '=' :: (a.behindEquals ++ [a.quote]))) ++ (a.value ++ a.quote :: rest) := by
    simp [htext, PrintedAttribute.write]
  have hvalue := h.prefix_of_not_shows ha hquote hshows hlast hopen htext'
  have hclosing : ∀ c ∈ [a.quote], c ∉ b.name := by simpa using hquote
  have hclose := h.prefix_of_not_mem hb.name.1 hclosing hvalue ⟨rest, by simp [htext']⟩
  simpa [PrintedAttribute.write] using hclose

/-- If no value shows the name of the attribute behind it, names are found in order where they are
printed, or behind. -/
theorem forall₂_isPrefix {places : List (List Char)} (hattributes : ∀ a ∈ attributes, a.IsRegular)
    (hshows : attributes.IsChain fun a b => ¬ a.Shows b.name)
    (htext : text = front ++ (attributes.flatMap PrintedAttribute.write ++ rest))
    (hfront : ∀ a ∈ attributes.head?, ∀ place, NameFound a.name place text → consumed <+: place →
      front <+: place)
    (h : NamesFound text consumed (attributes.map (·.name)) places) :
    List.Forall₂ (· <+: ·) (PrintedTag.frontsFrom front attributes) places := by
  induction attributes generalizing front consumed places with
  | nil =>
    cases h
    exact .nil
  | cons a attributes ih =>
    obtain ⟨ha, hlater⟩ := List.forall_mem_cons.1 hattributes
    rw [List.isChain_cons] at hshows
    rw [List.flatMap_cons, List.append_assoc] at htext
    rw [List.map_cons] at h
    cases h with
    | cons behind found later =>
    have hspace : ∀ c ∈ a.space, c ∉ a.name := by
      intro c hc hmem
      have := (ha.name.2 c hmem).1
      rw [isBlank_of_isSpace (ha.space.2 c hc)] at this
      cases this
    have hname : front ++ a.space ++ a.name <+: text :=
      (prefix_write front a).trans ⟨attributes.flatMap PrintedAttribute.write ++ rest, by simp [htext]⟩
    have hplace := found.prefix_of_not_mem ha.name.1 hspace (hfront a rfl _ found behind)
      ((List.prefix_append _ _).trans hname)
    refine .cons hplace (ih hlater hshows.2 (by simp [htext]) ?_ later)
    intro b hb place hfound hbehind
    refine hfound.prefix_of_write ha (hlater b (List.mem_of_mem_head? hb)) (hshows.1 b hb) ?_ htext
    refine (List.prefix_of_prefix_length_le hname found.prefix_text ?_).trans hbehind
    have := hplace.length_le
    simp only [List.length_append] at this ⊢
    omega

end Printed

/-! ### The lines of printed attributes -/

theorem eq_of_forall₂_le {ks ns : List Nat} (h : List.Forall₂ (· ≤ ·) ks ns)
    (h' : List.Forall₂ (· ≤ ·) ns ks) : ks = ns := by
  induction h with
  | nil => rfl
  | cons hle _ ih =>
    cases h' with
    | cons hge hlater => rw [Nat.le_antisymm hle hge, ih hlater]

/-- The first places are on the lines of certain ones exactly if these are above no places. -/
theorem map_lineFeeds_eq_iff {text consumed : List Char} {names leasts fronts : List (List Char)}
    (hleasts : NamesFound text consumed names leasts)
    (hfirst : ∀ places, NamesFound text consumed names places →
      List.Forall₂ (· <+: ·) leasts places)
    (hfronts : NamesFound text consumed names fronts) :
    leasts.map lineFeeds = fronts.map lineFeeds ↔
      ∀ places, NamesFound text consumed names places →
        List.Forall₂ (fun front place => lineFeeds front ≤ lineFeeds place) fronts places := by
  have hle : ∀ places, NamesFound text consumed names places →
      List.Forall₂ (· ≤ ·) (leasts.map lineFeeds) (places.map lineFeeds) := by
    intro places hplaces
    rw [List.forall₂_map_left_iff, List.forall₂_map_right_iff]
    exact (hfirst places hplaces).imp fun _ _ h => h.sublist.count_le '\n'
  have hmap : ∀ places, List.Forall₂ (fun front place => lineFeeds front ≤ lineFeeds place)
      fronts places ↔ List.Forall₂ (· ≤ ·) (fronts.map lineFeeds) (places.map lineFeeds) := by
    intro places
    rw [List.forall₂_map_left_iff, List.forall₂_map_right_iff]
  simp only [hmap]
  constructor
  · intro h places hplaces
    rw [← h]
    exact hle places hplaces
  · intro h
    exact eq_of_forall₂_le (hle fronts hfronts) (h leasts hleasts)

namespace PrintedTag

/-- The lines on which the names of the attributes are printed, if `before` is in front of the tag. -/
def ownLines (t : PrintedTag) (before : List Char) : List Nat :=
  t.fronts.map fun front => 1 + lineFeeds (before ++ front)

variable {t : PrintedTag}

theorem cons_content_append (t : PrintedTag) (close : List Char) :
    '<' :: (t.content ++ close) = ('<' :: t.name) ++
      (t.attributes.flatMap PrintedAttribute.write ++ (t.space ++ close)) := by
  simp [content]

/-- The name of a printed tag ends in front of its attributes. -/
theorem span_content (ht : t.IsRegular) :
    tagName t.content = t.name ∧ t.content.dropWhile (!isSpace ·) =
      t.attributes.flatMap PrintedAttribute.write ++ t.space := by
  have hname : ∀ c ∈ t.name, (!isSpace c) = true :=
    fun c hc => by simp [isSpace_eq_false (ht.name c hc)]
  have hstop : ∀ c ∈ (t.attributes.flatMap PrintedAttribute.write ++ t.space).head?, isSpace c := by
    intro c hc
    cases hattributes : t.attributes with
    | nil =>
      rw [hattributes] at hc
      exact ht.space c (List.mem_of_mem_head? hc)
    | cons a attributes =>
      have ha := (ht.attributes a (by simp [hattributes])).space
      refine ha.2 c (List.mem_of_mem_head? ?_)
      rw [hattributes, List.flatMap_cons, PrintedAttribute.write, List.append_assoc,
        List.append_assoc, List.head?_append_of_ne_nil _ ha.1] at hc
      exact hc
  unfold tagName content
  rw [List.takeWhile_append_of_pos hname, List.dropWhile_append_of_pos hname]
  generalize t.attributes.flatMap PrintedAttribute.write ++ t.space = s at hstop
  cases s with
  | nil => simp
  | cons c s => simp [hstop c rfl]

/-- Printed attributes are read with their names and values. -/
theorem exists_attributes (ht : t.IsRegular) :
    ∃ read, Markup.attributes .lenient t.content = ⟨read, none⟩ ∧
      read.map (fun w => (w.name, w.value)) = t.attributes.map fun a => (a.name, a.value) := by
  rw [Markup.attributes, (span_content ht).2]
  exact attributesFrom_write ht.attributes ht.space _ []

end PrintedTag

/-- The tag that an event adds to the tree. -/
def Event.Adds (e : Event) (tag : Tag) : Prop :=
  e.growth = .ok (.opening tag) ∨ e.growth = .ok (.leaf (.element tag []))

theorem adds_of_attributes {e : Event} {content : List Char} {read : List WrittenAttribute}
    (hpiece : e.piece = .start content ∨ e.piece = .empty content)
    (hread : attributes .lenient content = ⟨read, none⟩) :
    e.Adds ⟨String.ofList (tagName content), locate e.line { rest := e.written } read, e.line⟩ := by
  have hgrowth : e.growth = growthOfTag e content := by
    rcases hpiece with h | h <;> rw [Event.growth, h]
  rw [Event.Adds, hgrowth, growthOfTag, hread]
  dsimp only
  split
  · exact .inr rfl
  · exact .inl rfl

theorem Event.IsPlaced.exists_written_eq {e : Event} {line : Nat} {source content : List Char}
    (h : e.IsPlaced line source) (hpiece : e.piece = .start content ∨ e.piece = .empty content) :
    ∃ close, e.written = '<' :: (content ++ close) := by
  have htag := h.isTag
  rcases hpiece with hpiece | hpiece <;> rw [hpiece] at htag <;> exact ⟨_, htag⟩

/-- What is read of a printed tag. -/
structure PrintedTag.IsReadAs (t : PrintedTag) (tag : Tag) : Prop where
  name : tag.name = String.ofList t.name
  attributes : tag.attributes.map (fun a => (a.name, a.value)) =
    t.attributes.map fun a => (String.ofList a.name, String.ofList a.value)

/-- A printed tag of a document is read with the attributes that are printed, and they have the lines
of the first places of their names. -/
theorem exists_leasts_of_printed {source : List Char} {e : Event} {t : PrintedTag}
    (he : e ∈ (events source).events)
    (hpiece : e.piece = .start t.content ∨ e.piece = .empty t.content) (ht : t.IsRegular) :
    ∃ before after tag leasts, source = before ++ (e.written ++ after) ∧ e.Adds tag ∧
      t.IsReadAs tag ∧
      (tag.attributes.map (·.line) = t.ownLines before ↔
        leasts.map lineFeeds = t.fronts.map lineFeeds) ∧
      NamesFound e.written [] (t.attributes.map (·.name)) leasts ∧
      NamesFound e.written [] (t.attributes.map (·.name)) t.fronts ∧
      ∀ places, NamesFound e.written [] (t.attributes.map (·.name)) places →
        List.Forall₂ (· <+: ·) leasts places := by
  have hplaced := isPlaced_eventsFrom 0 1 source e he
  obtain ⟨before, after, hsource, hline⟩ := hplaced.place
  obtain ⟨close, hwritten⟩ := hplaced.exists_written_eq hpiece
  obtain ⟨read, hread, hmap⟩ := PrintedTag.exists_attributes ht
  have hnames : read.map (·.name) = t.attributes.map (·.name) := by
    have := congrArg (List.map Prod.fst) hmap
    rwa [List.map_map, List.map_map] at this
  have hfronts : NamesFound e.written [] (t.attributes.map (·.name)) t.fronts :=
    namesFound_frontsFrom ht.attributes List.nil_prefix (hwritten.trans (t.cons_content_append close))
  have hregular : ∀ w ∈ read, w.name ≠ [] ∧ ∀ c ∈ w.name, isBlank c = false := by
    intro w hw
    obtain ⟨a, ha, hname⟩ := List.mem_map.1 (hnames ▸ List.mem_map_of_mem hw)
    have hname' := (ht.attributes a ha).name
    rw [← hname]
    exact ⟨hname'.1, fun c hc => (hname'.2 c hc).1⟩
  have hcursor : ({ rest := e.written } : TagCursor).IsBehind [] := ⟨rfl, rfl⟩
  obtain ⟨leasts, hleasts, hlocate, hfirst⟩ :=
    exists_locate hregular hcursor rfl (hnames ▸ hfronts) e.line
  rw [hnames] at hleasts hfirst
  refine ⟨before, after, _, leasts, hsource, adds_of_attributes hpiece hread,
    ⟨by rw [(PrintedTag.span_content ht).1], ?_⟩, ?_, hleasts, hfronts, hfirst⟩
  · rw [map_locate]
    have := congrArg (List.map (Prod.map String.ofList String.ofList)) hmap
    rwa [List.map_map, List.map_map] at this
  · have hown : t.ownLines before = t.fronts.map fun front => e.line + lineFeeds front := by
      simp only [PrintedTag.ownLines, hline, lineFeeds_append, Nat.add_assoc]
    have hadd : ∀ places : List (List Char),
        (places.map fun place => e.line + lineFeeds place) =
          (places.map lineFeeds).map (e.line + ·) :=
      fun places => (List.map_map ..).symm
    rw [hlocate, hown, hadd, hadd, List.map_inj_right fun _ _ => Nat.add_left_cancel]

/-- A printed tag of a document is read with the attributes that are printed. They have the lines on
which their own names are printed exactly if, wherever the names could be found in order, none is
found above its own line. -/
theorem lines_of_printed_iff {source : List Char} {e : Event} {t : PrintedTag}
    (he : e ∈ (events source).events)
    (hpiece : e.piece = .start t.content ∨ e.piece = .empty t.content) (ht : t.IsRegular) :
    ∃ before after tag, source = before ++ (e.written ++ after) ∧ e.Adds tag ∧ t.IsReadAs tag ∧
      (tag.attributes.map (·.line) = t.ownLines before ↔
        ∀ places, NamesFound e.written [] (t.attributes.map (·.name)) places →
          List.Forall₂ (fun front place => lineFeeds front ≤ lineFeeds place) t.fronts places) := by
  obtain ⟨before, after, tag, leasts, hsource, hadds, hread, hlines, hleasts, hfronts, hfirst⟩ :=
    exists_leasts_of_printed he hpiece ht
  exact ⟨before, after, tag, hsource, hadds, hread,
    hlines.trans (map_lineFeeds_eq_iff hleasts hfirst hfronts)⟩

/-- A tag whose first value shows the name of the attribute behind it. -/
def imgTag : PrintedTag where
  name := "img".toList
  attributes :=
    [⟨[' '], "i18n:attributes".toList, [], [], '"', "title t; alt a".toList⟩,
      ⟨['\n', ' '], "alt".toList, [], [], '"', "y".toList⟩,
      ⟨[' '], "title".toList, [], [], '"', "x".toList⟩]
  space := []

/-- The tag as the only element of a document. -/
def imgEvent : Event :=
  ⟨.empty imgTag.content, '<' :: (imgTag.content ++ ['/', '>']), 0, 1⟩

theorem lines_of_printed_imgTag :
    imgEvent ∈ (events imgEvent.written).events ∧ imgTag.IsRegular ∧
      ∃ before after tag, imgEvent.written = before ++ (imgEvent.written ++ after) ∧
        imgEvent.Adds tag ∧ imgTag.IsReadAs tag ∧
        (tag.attributes.map (·.line) = imgTag.ownLines before ↔
          ∀ places, NamesFound imgEvent.written [] (imgTag.attributes.map (·.name)) places →
            List.Forall₂ (fun front place => lineFeeds front ≤ lineFeeds place)
              imgTag.fronts places) := by
  have he : imgEvent ∈ (events imgEvent.written).events := by decide +kernel
  have ht : imgTag.IsRegular := by decide +kernel
  exact ⟨he, ht, lines_of_printed_iff he (.inr rfl) ht⟩

/-- The second attribute is printed on the second line and has the first line, as it is shown there. -/
theorem imgTag_lines :
    (events imgEvent.written).events = [imgEvent] ∧ ∃ tag, imgEvent.Adds tag ∧
      tag.attributes.map (·.line) = [1, 1, 2] ∧ imgTag.ownLines [] = [1, 2, 2] := by
  have hread : attributes .lenient imgTag.content =
      ⟨(attributes .lenient imgTag.content).read, none⟩ := by decide +kernel
  exact ⟨by decide +kernel, _, adds_of_attributes (.inr rfl) hread, by decide +kernel,
    by decide +kernel⟩

/-- Attributes have the lines on which their own names are printed if no value shows the name of the
attribute behind it. -/
theorem lines_of_not_shows {source : List Char} {e : Event} {t : PrintedTag}
    (he : e ∈ (events source).events)
    (hpiece : e.piece = .start t.content ∨ e.piece = .empty t.content) (ht : t.IsRegular)
    (hshows : t.attributes.IsChain fun a b => ¬ a.Shows b.name) :
    ∃ before after tag, source = before ++ (e.written ++ after) ∧ e.Adds tag ∧ t.IsReadAs tag ∧
      tag.attributes.map (·.line) = t.ownLines before := by
  obtain ⟨before, after, tag, leasts, hsource, hadds, hread, hlines, hleasts, hfronts, hfirst⟩ :=
    exists_leasts_of_printed he hpiece ht
  obtain ⟨close, hwritten⟩ := (isPlaced_eventsFrom 0 1 source e he).exists_written_eq hpiece
  have htext := hwritten.trans (t.cons_content_append close)
  refine ⟨before, after, tag, hsource, hadds, hread,
    hlines.2 ((map_lineFeeds_eq_iff hleasts hfirst hfronts).2 fun places hplaces => ?_)⟩
  refine (forall₂_isPrefix ht.attributes hshows htext ?_ hplaces).imp
    fun _ _ h => h.sublist.count_le '\n'
  intro a ha place hfound _
  exact hfound.prefix_of_not_isBlank (by simpa using ⟨by decide, ht.name⟩) ⟨_, htext.symm⟩

end PotExtract.Markup
