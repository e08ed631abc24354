import PotExtract.Text.Pieces

/-! The length of a text in bytes, and the texts cut at a number of bytes. -/

namespace PotExtract.Text

@[simp] theorem byteLength_nil : byteLength [] = 0 := rfl

@[simp] theorem byteLength_cons (c : Char) (s : List Char) :
    byteLength (c :: s) = c.utf8Size + byteLength s := rfl

@[simp] theorem byteLength_append (s t : List Char) :
    byteLength (s ++ t) = byteLength s + byteLength t := by
  induction s with
  | nil => simp
  | cons c s ih => simp [ih, Nat.add_assoc]

theorem byteLength_eq_zero {s : List Char} : byteLength s = 0 ↔ s = [] := by
  cases s with
  | nil => simp
  | cons c s =>
    have := c.utf8Size_pos
    simp only [byteLength_cons, reduceCtorEq, iff_false]
    omega

/-- Of two beginnings of a text, the one with fewer bytes is a beginning of the other. -/
theorem exists_append_of_byteLength_le {a b s t : List Char} (h : a ++ s = b ++ t)
    (hle : byteLength a ≤ byteLength b) : ∃ m, b = a ++ m ∧ s = m ++ t := by
  rcases List.append_eq_append_iff.1 h with ⟨m, hb, hs⟩ | ⟨m, ha, ht⟩
  · exact ⟨m, hb, hs⟩
  · rw [ha, byteLength_append] at hle
    obtain rfl : m = [] := byteLength_eq_zero.1 (by omega)
    exact ⟨[], by simpa using ha.symm, by simpa using ht.symm⟩

/-- As many bytes as a text has are that text. -/
theorem takeBytes?_append (s t : List Char) : takeBytes? (byteLength s) (s ++ t) = some s := by
  induction s with
  | nil => rw [byteLength_nil, takeBytes?]
  | cons c s ih =>
    obtain ⟨n, hn⟩ : ∃ n, c.utf8Size + byteLength s = n + 1 :=
      ⟨c.utf8Size + byteLength s - 1, by have := c.utf8Size_pos; omega⟩
    have hle : c.utf8Size ≤ n + 1 := by omega
    have hsub : n + 1 - c.utf8Size = byteLength s := by omega
    rw [byteLength_cons, hn, List.cons_append, takeBytes?, if_pos hle, hsub, ih, Option.map_some]

end PotExtract.Text
