import PotExtract.Proofs.Tales.Pipes
import PotExtract.Proofs.Tales.Segments

/-! Interpolations that hide others. An expression whose last alternative is not Python goes on to
the last closing brace that leaves its Python code valid, and the interpolations up to there are
lost, unless they have no Python code of their own. -/

namespace PotExtract.Tales

open Text

variable {engine : Engine}

/-- The Python code of all segments, each part at the dollar sign of its own. The first segment
starts at byte `offset`. -/
def codeOf (engine : Engine) (offset : Nat) : List Segment → List Interpolation
  | [] => []
  | s :: rest =>
    codeAt engine offset s.expression ++ codeOf engine (offset + byteLength s.write) rest

/-- Whether no segment hides the code of another: neither does the code of a segment change with
those it swallows, nor have these any code. -/
def HidesNone (engine : Engine) : List Segment → Prop
  | [] => True
  | s :: rest =>
    pythonParts (span s (swallowed engine s rest)) engine = pythonParts s.expression engine ∧
      (∀ r ∈ swallowed engine s rest, pythonParts r.expression engine = []) ∧
      HidesNone engine (rest.drop (swallowed engine s rest).length)
  termination_by segments => segments.length
  decreasing_by
    simp only [List.length_drop, List.length_cons]
    omega

theorem codeOf_append (offset : Nat) (segments more : List Segment) :
    codeOf engine offset (segments ++ more) =
      codeOf engine offset segments ++
        codeOf engine (offset + byteLength (segments.flatMap Segment.write)) more := by
  induction segments generalizing offset with
  | nil => rfl
  | cons s segments ih => simp [codeOf, ih, Nat.add_assoc]

theorem codeOf_eq_nil_iff {offset : Nat} {segments : List Segment} :
    codeOf engine offset segments = [] ↔
      ∀ s ∈ segments, pythonParts s.expression engine = [] := by
  induction segments generalizing offset with
  | nil => simp [codeOf]
  | cons s segments ih => simp [codeOf, codeAt, ih]

theorem codeAt_inj {offset : Nat} {e e' : List Char} :
    codeAt engine offset e = codeAt engine offset e' ↔
      pythonParts e engine = pythonParts e' engine := by
  unfold codeAt
  refine List.map_inj_right fun code code' h => ?_
  exact (Interpolation.mk.inj h).1

theorem offset_of_mem_codeAt {offset : Nat} {e : List Char} {i : Interpolation}
    (h : i ∈ codeAt engine offset e) : i.offset = offset := by
  obtain ⟨code, -, rfl⟩ := List.mem_map.1 h
  rfl

theorem offset_of_mem_codeOf {offset : Nat} {segments : List Segment} {i : Interpolation}
    (h : i ∈ codeOf engine offset segments) :
    offset ≤ i.offset ∧ i.offset < offset + byteLength (segments.flatMap Segment.write) := by
  induction segments generalizing offset with
  | nil => cases h
  | cons s segments ih =>
    have hpos : 0 < byteLength s.write := by
      have := ('$').utf8Size_pos
      simp only [Segment.write, byteLength_cons, List.cons_append]
      omega
    simp only [List.flatMap_cons, byteLength_append]
    rcases List.mem_append.1 h with h | h
    · rw [offset_of_mem_codeAt h]
      omega
    · have := ih h
      omega

theorem le_offset_of_mem_found {offset : Nat} {segments : List Segment} {i : Interpolation}
    (h : i ∈ found engine offset segments) : offset ≤ i.offset := by
  fun_induction found engine offset segments with
  | case1 => cases h
  | case2 offset s rest ih =>
    rcases List.mem_append.1 h with h | h
    · exact Nat.le_of_eq (offset_of_mem_codeAt h).symm
    · exact Nat.le_trans (Nat.le_add_right _ _) (ih h)

/-- Rows of interpolations that are cut at the same place of the text agree if both their parts do.
-/
theorem append_inj_of_offset {m : Nat} {a b a' b' : List Interpolation}
    (h : a ++ b = a' ++ b') (ha : ∀ i ∈ a, i.offset < m) (hb : ∀ i ∈ b, m ≤ i.offset)
    (ha' : ∀ i ∈ a', i.offset < m) (hb' : ∀ i ∈ b', m ≤ i.offset) : a = a' ∧ b = b' := by
  have hcut : ∀ {a b : List Interpolation}, (∀ i ∈ a, i.offset < m) → (∀ i ∈ b, m ≤ i.offset) →
      (a ++ b).filter (·.offset < m) = a := by
    intro a b ha hb
    rw [List.filter_append, List.filter_eq_self.2 (by simpa using ha),
      List.filter_eq_nil_iff.2 (by simpa using hb), List.append_nil]
  obtain rfl : a = a' := by rw [← hcut ha hb, h, hcut ha' hb']
  exact ⟨rfl, List.append_cancel_left h⟩

theorem byteLength_write_pos (s : Segment) : 0 < byteLength s.write := by
  have := ('$').utf8Size_pos
  simp only [Segment.write, byteLength_cons, List.cons_append]
  omega

/-- The code found is that of all segments exactly if no segment hides the code of another. -/
theorem found_eq_codeOf_iff {offset : Nat} {segments : List Segment} :
    found engine offset segments = codeOf engine offset segments ↔ HidesNone engine segments := by
  fun_induction found engine offset segments with
  | case1 => simp [codeOf, HidesNone]
  | case2 offset s rest ih =>
    let taken := swallowed engine s rest
    let later := rest.drop taken.length
    let next := offset + byteLength ((s :: taken).flatMap Segment.write)
    have hcode : codeOf engine offset (s :: rest) =
        codeAt engine offset s.expression ++ codeOf engine (offset + byteLength s.write) taken ++
          codeOf engine next later := by
      rw [← codeOf, ← codeOf_append, List.cons_append, swallowed_append]
    rw [hcode, HidesNone]
    show codeAt engine offset (span s taken) ++ found engine next later = _ ↔
      _ ∧ (∀ r ∈ taken, _) ∧ HidesNone engine later
    have hspan : ∀ i ∈ codeAt engine offset (span s taken), i.offset = offset := fun i hi =>
      offset_of_mem_codeAt hi
    have hlt : offset < next := by
      have := byteLength_write_pos s
      simp only [next, List.flatMap_cons, byteLength_append]
      omega
    constructor
    · intro h
      obtain ⟨h, hlater⟩ := append_inj_of_offset (m := next) h (fun i hi => by rwa [hspan i hi])
        (fun i hi => le_offset_of_mem_found hi)
        (fun i (hi : i ∈ codeOf engine offset (s :: taken)) => (offset_of_mem_codeOf hi).2)
        (fun i hi => (offset_of_mem_codeOf hi).1)
      have hnil : codeOf engine (offset + byteLength s.write) taken = [] := by
        refine List.eq_nil_iff_forall_not_mem.2 fun i hi => ?_
        have hle := (offset_of_mem_codeOf hi).1
        have := hspan i (h ▸ List.mem_append_right _ hi)
        have := byteLength_write_pos s
        omega
      rw [hnil, List.append_nil] at h
      exact ⟨codeAt_inj.1 h, codeOf_eq_nil_iff.1 hnil, ih.1 hlater⟩
    · rintro ⟨hparts, htaken, hlater⟩
      rw [codeAt_inj.2 hparts, codeOf_eq_nil_iff.2 htaken, List.append_nil]
      exact congrArg _ (ih.2 hlater)

/-- A segment that ends in Python swallows nothing. -/
theorem swallowed_of_endsInPython {s : Segment} (hs : s.IsSimple)
    (hgood : isAcceptable engine s.expression) (hend : endsInPython engine s.expression)
    (rest : List Segment) : swallowed engine s rest = [] := by
  have : Nat.findGreatest (fun k => isAcceptable engine (span s (rest.take k))) rest.length = 0 := by
    rw [Nat.findGreatest_eq_zero_iff]
    intro k hpos hle
    cases rest with
    | nil =>
      rw [List.length_nil] at hle
      omega
    | cons r rest =>
      obtain ⟨j, rfl⟩ : ∃ j, k = j + 1 := ⟨k - 1, by omega⟩
      rw [List.take_succ_cons, span, isAcceptable_append_brace hend hgood hs.noComment]
      simp
  rw [swallowed, this, List.take_zero]

/-- No code is hidden if all segments but the last one end in Python. -/
theorem hidesNone_of_endsInPython {segments : List Segment}
    (hsimple : ∀ s ∈ segments, s.IsSimple) (hgood : ∀ s ∈ segments, isAcceptable engine s.expression)
    (hend : ∀ s ∈ segments.dropLast, endsInPython engine s.expression) :
    HidesNone engine segments := by
  induction segments with
  | nil => simp [HidesNone]
  | cons s rest ih =>
    obtain ⟨hs, hrest⟩ := List.forall_mem_cons.1 hsimple
    obtain ⟨hgoods, hgoodrest⟩ := List.forall_mem_cons.1 hgood
    have hnone : swallowed engine s rest = [] := by
      cases rest with
      | nil => simp [swallowed]
      | cons r rest => exact swallowed_of_endsInPython hs hgoods (hend s (by simp)) _
    rw [HidesNone, hnone]
    refine ⟨rfl, by simp, ih hrest hgoodrest fun r hr => hend r ?_⟩
    cases rest with
    | nil => cases hr
    | cons r' rest => exact List.mem_cons_of_mem s hr

/-- The interpolations of a text of simple segments with acceptable expressions are found. They are
all that there are, each at its own dollar sign, if and only if no expression hides a later one, as
is so when all but the last end in Python. -/
theorem interpolations_segments {lead : List Char} {segments : List Segment} (hlead : IsPlain lead)
    (hsimple : ∀ s ∈ segments, s.IsSimple)
    (hgood : ∀ s ∈ segments, isAcceptable engine s.expression) :
    ∃ list, interpolations engine (lead ++ segments.flatMap Segment.write) = .ok list ∧
      (list = codeOf engine (byteLength lead) segments ↔ HidesNone engine segments) ∧
      ((∀ s ∈ segments.dropLast, endsInPython engine s.expression) →
        list = codeOf engine (byteLength lead) segments) := by
  refine ⟨_, interpolationsFrom_segments segments 0 hlead hsimple hgood, ?_, fun hend => ?_⟩
  · rw [Nat.zero_add, found_eq_codeOf_iff]
  · rw [Nat.zero_add, found_eq_codeOf_iff]
    exact hidesNone_of_endsInPython hsimple hgood hend

theorem interpolations_segments_two :
    interpolations .python "a $\x7b_('x')\x7d b $\x7b_('y')\x7d".toList =
      .ok [⟨"_('x')", 2⟩, ⟨"_('y')", 14⟩] := by
  let segments : List Segment := [⟨"_('x')".toList, " b ".toList⟩, ⟨"_('y')".toList, []⟩]
  have hlead : IsPlain "a ".toList := by decide
  have hsimple : ∀ s ∈ segments, s.IsSimple := by decide
  have hgood : ∀ s ∈ segments, isAcceptable .python s.expression := by decide +kernel
  obtain ⟨list, hlist, -, hend⟩ := interpolations_segments hlead hsimple hgood
  have hcode : codeOf .python 2 segments = [⟨"_('x')", 2⟩, ⟨"_('y')", 14⟩] := by decide +kernel
  exact hlist.trans (congrArg Except.ok ((hend (by decide +kernel)).trans hcode))

/-- An expression without Python code hides the code behind it. -/
theorem interpolations_hidden :
    let segments : List Segment := [⟨"string:a".toList, " ".toList⟩, ⟨"_('x')".toList, []⟩]
    (∀ s ∈ segments, s.IsSimple) ∧ (∀ s ∈ segments, isAcceptable .python s.expression) ∧
      codeOf .python 0 segments = [⟨"_('x')", 12⟩] ∧
      (interpolations .python (segments.flatMap Segment.write)).toOption = some [] := by
  decide +kernel

end PotExtract.Tales
