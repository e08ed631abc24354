import PotExtract.Python.Scan

/-! Scanning tokens in order: the scan of two rows of tokens is that of the second one from where
that of the first one ends. -/

namespace PotExtract.Python

variable {ctx : ScanContext}

namespace ScanState

variable {s s' : ScanState}

theorem takeAll_cons {t : Token} (h : s.take ctx t = .ok s') (ts : List Token) :
    takeAll ctx s (t :: ts) = takeAll ctx s' ts := by
  simp [takeAll, h]

theorem takeAll_append {ts : List Token} (h : takeAll ctx s ts = (s', none)) (us : List Token) :
    takeAll ctx s (ts ++ us) = takeAll ctx s' us := by
  induction ts generalizing s with
  | nil =>
    cases h
    rfl
  | cons t ts ih =>
    cases ht : s.take ctx t with
    | error e => simp [takeAll, ht] at h
    | ok s₁ =>
      rw [takeAll_cons ht] at h
      rw [List.cons_append, takeAll_cons ht, ih h]

/-- Tokens behind one that is not understood do not matter. -/
theorem takeAll_append_of_failure {e : ScanFailure} {ts : List Token}
    (h : takeAll ctx s ts = (s', some e)) (us : List Token) :
    takeAll ctx s (ts ++ us) = (s', some e) := by
  induction ts generalizing s with
  | nil => cases h
  | cons t ts ih =>
    cases ht : s.take ctx t with
    | error e => simpa [takeAll, ht] using h
    | ok s₁ =>
      rw [takeAll_cons ht] at h
      rw [List.cons_append, takeAll_cons ht, ih h]

theorem takeAll_trans {s'' : ScanState} {ts us : List Token}
    (h : takeAll ctx s ts = (s', none)) (h' : takeAll ctx s' us = (s'', none)) :
    takeAll ctx s (ts ++ us) = (s'', none) := by
  rw [takeAll_append h, h']

theorem takeAll_singleton {t : Token} (h : s.take ctx t = .ok s') :
    takeAll ctx s [t] = (s', none) := by
  rw [takeAll_cons h, takeAll]

theorem takeAll_singleton_error {t : Token} {e : ScanFailure} (h : s.take ctx t = .error e) :
    takeAll ctx s [t] = (s, some e) := by
  rw [takeAll, h]

theorem take_of_takeAll_singleton {t : Token} (h : takeAll ctx s [t] = (s', none)) :
    s.take ctx t = .ok s' := by
  cases ht : s.take ctx t with
  | error e => simp [takeAll, ht] at h
  | ok s₁ =>
    rw [takeAll_cons ht] at h
    cases h
    rfl

/-- Outside of nested brackets layout changes nothing. -/
theorem takeAll_layout {ts : List Token} (hs : s.isNested = false) (hts : ∀ t ∈ ts, t.isLayout) :
    takeAll ctx s ts = (s, none) := by
  induction ts with
  | nil => rfl
  | cons t ts ih =>
    have ht := hts t (by simp)
    have hk : t.kind ≠ .comment := by
      intro hk
      simp [Token.isLayout, hk] at ht
    have htake : s.take ctx t = .ok s := by simp [take, hs, hk, ht]
    rw [takeAll_cons htake, ih fun u hu => hts u (by simp [hu])]

end ScanState

/-- A scan ends with the failure of a token. -/
theorem scan_of_failure {source : String} {s : ScanState} {e : ScanFailure}
    (h : ScanState.takeAll ctx (.start ctx) (tokenize source).tokens = (s, some e)) :
    scan ctx source = .error { e with line := ctx.offset + e.line } := by
  simp [scan, scanWithRemarks, scanTokens, h]

/-- A scan that takes all tokens and ends outside of any call gives what it has collected. -/
theorem scan_of_takeAll (line : Nat) {s : ScanState} {source : String}
    (htokens : ScanState.takeAll ctx (.start ctx) (tokenize source).tokens = (s, none))
    (hending : (tokenize source).ending = .ok line) (hmode : s.mode = .outside) :
    scan ctx source = .ok s.messages := by
  simp [scan, scanWithRemarks, scanTokens, htokens, hending, ScanState.failureAtEnd, hmode]

/-- Scans that come to the same with one token, and go on alike, give the same. -/
theorem scan_congr_of_take {source source' : String} {ts ts' us : List Token} {t t' : Token}
    {s s' : ScanState} (hs : ScanState.takeAll ctx (.start ctx) ts = (s, none))
    (hs' : ScanState.takeAll ctx (.start ctx) ts' = (s', none))
    (ht : s.take ctx t = s'.take ctx t') (htokens : (tokenize source).tokens = ts ++ t :: us)
    (htokens' : (tokenize source').tokens = ts' ++ t' :: us)
    (hending : (tokenize source).ending = (tokenize source').ending) :
    scan ctx source = scan ctx source' := by
  cases htake : s.take ctx t with
  | error e =>
    have hfailure : ScanState.takeAll ctx s (t :: us) = (s, some e) := by
      simp [ScanState.takeAll, htake]
    have hfailure' : ScanState.takeAll ctx s' (t' :: us) = (s', some e) := by
      simp [ScanState.takeAll, ← ht, htake]
    rw [scan_of_failure (by rw [htokens, ScanState.takeAll_append hs, hfailure]),
      scan_of_failure (by rw [htokens', ScanState.takeAll_append hs', hfailure'])]
  | ok s₁ =>
    have hscan : scanTokens ctx (tokenize source) = scanTokens ctx (tokenize source') := by
      simp only [scanTokens, htokens, htokens', hending, ScanState.takeAll_append hs,
        ScanState.takeAll_append hs', ScanState.takeAll_cons htake,
        ScanState.takeAll_cons (ht ▸ htake)]
    simp only [scan, scanWithRemarks, hscan]

end PotExtract.Python
