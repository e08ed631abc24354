import PotExtract.Text.Utf8

/-! The bytes of a text are read as that text. -/

namespace PotExtract.Text

variable {a b c d : UInt8} {start : Nat}

theorem decodeFrom_one (ha : a.toNat < 0x80) (rest : List UInt8) :
    decodeFrom start (a :: rest) = (Char.ofNat a.toNat :: ·) <$> decodeFrom (start + 1) rest := by
  have h1 : a < 0x80 := UInt8.lt_iff_toNat_lt.2 ha
  rw [decodeFrom.eq_def]
  simp only [h1, if_true]

theorem decodeFrom_two (ha : 0xC2 ≤ a.toNat ∧ a.toNat ≤ 0xDF) (hb : isTail b)
    (rest : List UInt8) :
    decodeFrom start (a :: b :: rest) =
      (joinBits (a.toNat % 32) [b] :: ·) <$> decodeFrom (start + 2) rest := by
  have h1 : ¬a < 0x80 := by
    rw [UInt8.lt_iff_toNat_lt]
    show ¬a.toNat < 0x80
    omega
  have h2 : 0xC2 ≤ a ∧ a ≤ 0xDF := ⟨UInt8.le_iff_toNat_le.2 ha.1, UInt8.le_iff_toNat_le.2 ha.2⟩
  rw [decodeFrom.eq_def]
  simp only [h1, h2, if_false, and_self, if_true, hb]

theorem decodeFrom_three (ha : 0xE0 ≤ a.toNat ∧ a.toNat ≤ 0xEF) (hb : mayFollow a b)
    (hc : isTail c) (rest : List UInt8) :
    decodeFrom start (a :: b :: c :: rest) =
      (joinBits (a.toNat % 16) [b, c] :: ·) <$> decodeFrom (start + 3) rest := by
  have h1 : ¬a < 0x80 := by
    rw [UInt8.lt_iff_toNat_lt]
    show ¬a.toNat < 0x80
    omega
  have h2 : ¬(0xC2 ≤ a ∧ a ≤ 0xDF) := by
    rintro ⟨-, h⟩
    have h : a.toNat ≤ 0xDF := UInt8.le_iff_toNat_le.1 h
    omega
  have h3 : 0xE0 ≤ a ∧ a ≤ 0xEF := ⟨UInt8.le_iff_toNat_le.2 ha.1, UInt8.le_iff_toNat_le.2 ha.2⟩
  rw [decodeFrom.eq_def]
  simp only [h1, h2, h3, if_false, and_self, if_true, hb, hc, Bool.not_true, Bool.false_eq_true]

theorem decodeFrom_four (ha : 0xF0 ≤ a.toNat ∧ a.toNat ≤ 0xF4) (hb : mayFollow a b)
    (hc : isTail c) (hd : isTail d) (rest : List UInt8) :
    decodeFrom start (a :: b :: c :: d :: rest) =
      (joinBits (a.toNat % 8) [b, c, d] :: ·) <$> decodeFrom (start + 4) rest := by
  have h1 : ¬a < 0x80 := by
    rw [UInt8.lt_iff_toNat_lt]
    show ¬a.toNat < 0x80
    omega
  have h2 : ¬(0xC2 ≤ a ∧ a ≤ 0xDF) := by
    rintro ⟨-, h⟩
    have h : a.toNat ≤ 0xDF := UInt8.le_iff_toNat_le.1 h
    omega
  have h3 : ¬(0xE0 ≤ a ∧ a ≤ 0xEF) := by
    rintro ⟨-, h⟩
    have h : a.toNat ≤ 0xEF := UInt8.le_iff_toNat_le.1 h
    omega
  have h4 : 0xF0 ≤ a ∧ a ≤ 0xF4 := ⟨UInt8.le_iff_toNat_le.2 ha.1, UInt8.le_iff_toNat_le.2 ha.2⟩
  rw [decodeFrom.eq_def]
  simp only [h1, h2, h3, h4, if_false, and_self, if_true, hb, hc, hd, Bool.not_true,
    Bool.false_eq_true]

/-! ### The bytes of a character -/

theorem toNat_ofNat {n : Nat} (h : n < 256) : (UInt8.ofNat n).toNat = n := by
  rw [UInt8.toNat_ofNat']
  exact Nat.mod_eq_of_lt h

theorem isTail_ofNat (n : Nat) : isTail (UInt8.ofNat (n % 64 + 128)) := by
  have h : (UInt8.ofNat (n % 64 + 128)).toNat = n % 64 + 128 := toNat_ofNat (by omega)
  simp only [isTail, Bool.and_eq_true, decide_eq_true_eq, UInt8.le_iff_toNat_le, h]
  constructor
  · show 0x80 ≤ n % 64 + 128
    omega
  · show n % 64 + 128 ≤ 0xBF
    omega

theorem mayFollow_iff : mayFollow a b ↔
    (secondRange a).1.toNat ≤ b.toNat ∧ b.toNat ≤ (secondRange a).2.toNat := by
  simp only [mayFollow, Bool.and_eq_true, decide_eq_true_eq, UInt8.le_iff_toNat_le]

/-- The second of three bytes keeps off what has a shorter encoding, and what is no character. -/
theorem mayFollow_three {v : Nat} (hlow : 0x800 ≤ v) (hhigh : v ≤ 0xFFFF)
    (hvalid : v < 0xD800 ∨ 0xDFFF < v) :
    mayFollow (UInt8.ofNat (v / 4096 % 16 + 224)) (UInt8.ofNat (v / 64 % 64 + 128)) := by
  have ha : (UInt8.ofNat (v / 4096 % 16 + 224)).toNat = v / 4096 % 16 + 224 :=
    toNat_ofNat (by omega)
  have hb : (UInt8.ofNat (v / 64 % 64 + 128)).toNat = v / 64 % 64 + 128 := toNat_ofNat (by omega)
  rw [mayFollow_iff, hb]
  unfold secondRange
  simp only [← UInt8.toNat_inj, ha, UInt8.reduceToNat]
  split
  · simp only [UInt8.reduceToNat]
    omega
  split
  · simp only [UInt8.reduceToNat]
    omega
  split
  · omega
  split
  · omega
  · simp only [UInt8.reduceToNat]
    omega

theorem mayFollow_four {v : Nat} (hlow : 0x10000 ≤ v) (hhigh : v < 0x110000) :
    mayFollow (UInt8.ofNat (v / 262144 % 8 + 240)) (UInt8.ofNat (v / 4096 % 64 + 128)) := by
  have ha : (UInt8.ofNat (v / 262144 % 8 + 240)).toNat = v / 262144 % 8 + 240 :=
    toNat_ofNat (by omega)
  have hb : (UInt8.ofNat (v / 4096 % 64 + 128)).toNat = v / 4096 % 64 + 128 :=
    toNat_ofNat (by omega)
  rw [mayFollow_iff, hb]
  unfold secondRange
  simp only [← UInt8.toNat_inj, ha, UInt8.reduceToNat]
  split
  · omega
  split
  · omega
  split
  · simp only [UInt8.reduceToNat]
    omega
  split
  · simp only [UInt8.reduceToNat]
    omega
  · simp only [UInt8.reduceToNat]
    omega

theorem joinBits_eq {first : Nat} {tails : List UInt8} (ch : Char)
    (h : tails.foldl (fun n b => n * 64 + b.toNat % 64) first = ch.toNat) :
    joinBits first tails = ch := by
  rw [joinBits, h, Char.ofNat_toNat]

/-- The bytes of a character are read as that character. -/
theorem decodeFrom_encodeChar (ch : Char) (start : Nat) (rest : List UInt8) :
    ∃ next, decodeFrom start (String.utf8EncodeChar ch ++ rest) =
      (ch :: ·) <$> decodeFrom next rest := by
  have hvalid : ch.toNat < 0xD800 ∨ 0xDFFF < ch.toNat ∧ ch.toNat < 0x110000 := ch.valid
  have hval : ch.val.toNat = ch.toNat := rfl
  unfold String.utf8EncodeChar
  simp only [hval]
  split
  · next h =>
    have ha : (UInt8.ofNat ch.toNat).toNat = ch.toNat := toNat_ofNat (by omega)
    refine ⟨start + 1, (decodeFrom_one (by omega) rest).trans ?_⟩
    rw [ha, Char.ofNat_toNat]
  split
  · next h =>
    have ha : (UInt8.ofNat (ch.toNat / 64 % 32 + 192)).toNat = ch.toNat / 64 % 32 + 192 :=
      toNat_ofNat (by omega)
    have hb : (UInt8.ofNat (ch.toNat % 64 + 128)).toNat = ch.toNat % 64 + 128 :=
      toNat_ofNat (by omega)
    refine ⟨start + 2, (decodeFrom_two (by omega) (isTail_ofNat _) rest).trans ?_⟩
    rw [joinBits_eq ch]
    simp only [List.foldl_cons, List.foldl_nil, ha, hb]
    omega
  split
  · next h =>
    have ha : (UInt8.ofNat (ch.toNat / 4096 % 16 + 224)).toNat = ch.toNat / 4096 % 16 + 224 :=
      toNat_ofNat (by omega)
    have hb : (UInt8.ofNat (ch.toNat / 64 % 64 + 128)).toNat = ch.toNat / 64 % 64 + 128 :=
      toNat_ofNat (by omega)
    have hc : (UInt8.ofNat (ch.toNat % 64 + 128)).toNat = ch.toNat % 64 + 128 :=
      toNat_ofNat (by omega)
    have hfollow := mayFollow_three (v := ch.toNat) (by omega) h (by omega)
    refine ⟨start + 3, (decodeFrom_three (by omega) hfollow (isTail_ofNat _) rest).trans ?_⟩
    rw [joinBits_eq ch]
    simp only [List.foldl_cons, List.foldl_nil, ha, hb, hc]
    omega
  · next h =>
    have ha : (UInt8.ofNat (ch.toNat / 262144 % 8 + 240)).toNat = ch.toNat / 262144 % 8 + 240 :=
      toNat_ofNat (by omega)
    have hb : (UInt8.ofNat (ch.toNat / 4096 % 64 + 128)).toNat = ch.toNat / 4096 % 64 + 128 :=
      toNat_ofNat (by omega)
    have hc : (UInt8.ofNat (ch.toNat / 64 % 64 + 128)).toNat = ch.toNat / 64 % 64 + 128 :=
      toNat_ofNat (by omega)
    have hd : (UInt8.ofNat (ch.toNat % 64 + 128)).toNat = ch.toNat % 64 + 128 :=
      toNat_ofNat (by omega)
    have hfollow := mayFollow_four (v := ch.toNat) (by omega) (by omega)
    refine ⟨start + 4, (decodeFrom_four (by omega) hfollow (isTail_ofNat _) (isTail_ofNat _)
      rest).trans ?_⟩
    rw [joinBits_eq ch]
    simp only [List.foldl_cons, List.foldl_nil, ha, hb, hc, hd]
    omega

theorem decodeFrom_encodeUtf8 (s : List Char) (start : Nat) :
    decodeFrom start (encodeUtf8 s) = .ok s := by
  induction s generalizing start with
  | nil => rfl
  | cons c s ih =>
    obtain ⟨next, h⟩ := decodeFrom_encodeChar c start (encodeUtf8 s)
    show decodeFrom start (String.utf8EncodeChar c ++ encodeUtf8 s) = _
    rw [h, ih]
    rfl

theorem decodeUtf8_encodeUtf8 (s : List Char) : decodeUtf8 (encodeUtf8 s) = .ok s :=
  decodeFrom_encodeUtf8 s 0

end PotExtract.Text
