import BytecodeCoverage.Proofs.Bytes.RoundTrip

/-!
# Texts and their bytes

There is one way to write a text: bytes that are read as a text are what is written of it.  A first
byte announces how many bytes its character has, and the next one is kept away from longer forms
than needed, from surrogates and from numbers that no character has.

**Main definitions.**
* `Utf8.Lead.Fits`: which first bytes announce what.

**Results.**
* `Utf8.encodeChar_one` to `Utf8.encodeChar_four`: the bytes of one character.
* `Utf8.decode_eq_ok`: a text is read from its bytes and from no others.
-/

namespace BytecodeCoverage

namespace Utf8

/-- A byte that announces so many others. The range of the next one leaves out what is not written
with this first byte. -/
def Lead.Fits (n : Nat) : Lead → Prop
  | .one => n < 0x80
  | .two => 0xc2 ≤ n ∧ n < 0xe0
  | .three low high =>
      (0xe0 ≤ n ∧ n < 0xf0) ∧ (0x80 ≤ low ∧ high ≤ 0xbf) ∧ (n = 0xe0 → 0xa0 ≤ low) ∧
        (n = 0xed → high ≤ 0x9f)
  | .four low high =>
      (0xf0 ≤ n ∧ n < 0xf5) ∧ (0x80 ≤ low ∧ high ≤ 0xbf) ∧ (n = 0xf0 → 0x90 ≤ low) ∧
        (n = 0xf4 → high ≤ 0x8f)
  | .none => True

theorem fits_of_lead {a : UInt8} {announced : Lead} (h : lead a = announced) :
    announced.Fits a.toNat := by
  subst h
  simp only [lead]
  generalize a.toNat = n
  repeat' split
  all_goals simp only [Lead.Fits]
  all_goals omega

theorem toNat_ofNat {n : Nat} (h : n < 0xd800 ∨ 0xdfff < n ∧ n < 0x110000) :
    (Char.ofNat n).toNat = n := by
  rw [Char.ofNat, dif_pos h]
  rfl

theorem ofNat_of_eq {a : UInt8} {n : Nat} (h : n = a.toNat) : UInt8.ofNat n = a := by
  rw [h, UInt8.ofNat_toNat]

theorem toNat_of_within {low high : Nat} {b : UInt8} (h : within low high b = true)
    (hrange : 0x80 ≤ low ∧ high ≤ 0xbf) :
    (low ≤ b.toNat ∧ b.toNat ≤ high) ∧ b.toNat = 0x80 + low6 b ∧ low6 b < 64 := by
  simp only [within, Bool.and_eq_true, decide_eq_true_eq] at h
  refine ⟨h, ?_⟩
  rw [low6]
  omega

theorem toNat_of_isTail {b : UInt8} (h : isTail b = true) :
    b.toNat = 0x80 + low6 b ∧ low6 b < 64 :=
  (toNat_of_within h ⟨Nat.le_refl _, Nat.le_refl _⟩).2

/-! ## One character -/

section Character

variable {a b c d : UInt8} {low high : Nat}

theorem encodeChar_one (h : lead a = .one) : encodeChar (Char.ofNat a.toNat) = [a] := by
  have ha : a.toNat < 0x80 := fits_of_lead h
  simp only [encodeChar]
  rw [toNat_ofNat (by omega), if_pos ha, UInt8.ofNat_toNat]

theorem encodeChar_two (h : lead a = .two) (hb : isTail b = true) :
    encodeChar (Char.ofNat (a.toNat % 32 * 64 + low6 b)) = [a, b] := by
  obtain ⟨hfrom, hto⟩ := fits_of_lead h
  obtain ⟨hb, hb'⟩ := toNat_of_isTail hb
  simp only [encodeChar]
  rw [toNat_ofNat (by omega), if_neg (by omega), if_pos (by omega), ofNat_of_eq (a := a) (by omega),
    ofNat_of_eq (a := b) (by omega)]

theorem encodeChar_three (h : lead a = .three low high) (hb : within low high b = true)
    (hc : isTail c = true) :
    encodeChar (Char.ofNat (a.toNat % 16 * 4096 + low6 b * 64 + low6 c)) = [a, b, c] := by
  obtain ⟨⟨hfrom, hto⟩, hrange, hlong, hsurrogate⟩ := fits_of_lead h
  obtain ⟨⟨hlow, hhigh⟩, hb, hb'⟩ := toNat_of_within hb hrange
  obtain ⟨hc, hc'⟩ := toNat_of_isTail hc
  simp only [encodeChar]
  rw [toNat_ofNat (by omega), if_neg (by omega), if_neg (by omega), if_pos (by omega),
    ofNat_of_eq (a := a) (by omega), ofNat_of_eq (a := b) (by omega),
    ofNat_of_eq (a := c) (by omega)]

theorem encodeChar_four (h : lead a = .four low high) (hb : within low high b = true)
    (hc : isTail c = true) (hd : isTail d = true) :
    encodeChar (Char.ofNat (a.toNat % 8 * 262144 + low6 b * 4096 + low6 c * 64 + low6 d)) =
      [a, b, c, d] := by
  obtain ⟨⟨hfrom, hto⟩, hrange, hlong, hlast⟩ := fits_of_lead h
  obtain ⟨⟨hlow, hhigh⟩, hb, hb'⟩ := toNat_of_within hb hrange
  obtain ⟨hc, hc'⟩ := toNat_of_isTail hc
  obtain ⟨hd, hd'⟩ := toNat_of_isTail hd
  simp only [encodeChar]
  rw [toNat_ofNat (by omega), if_neg (by omega), if_neg (by omega), if_neg (by omega),
    ofNat_of_eq (a := a) (by omega), ofNat_of_eq (a := b) (by omega),
    ofNat_of_eq (a := c) (by omega), ofNat_of_eq (a := d) (by omega)]

end Character

/-! ## Texts -/

theorem flatMap_of_map {bs rest : List UInt8} {c : Char} {decoded : Except Defect (List Char)}
    {cs : List Char} (hc : encodeChar c ++ rest = bs)
    (hrest : ∀ {cs}, decoded = .ok cs → cs.flatMap encodeChar = rest)
    (h : decoded.map (c :: ·) = .ok cs) : cs.flatMap encodeChar = bs := by
  cases decoded with
  | error e => cases h
  | ok cs =>
      cases h
      rw [List.flatMap_cons, hrest rfl, hc]

theorem flatMap_of_decodeFrom {i : Nat} {bs : List UInt8} {cs : List Char}
    (h : decodeFrom i bs = .ok cs) : cs.flatMap encodeChar = bs := by
  fun_induction decodeFrom i bs generalizing cs
  case case1 =>
      cases h
      rfl
  case case3 i a rest hlead ih =>
      exact flatMap_of_map (congrArg (· ++ rest) (encodeChar_one hlead)) ih h
  case case6 i a hlead b rest hb ih =>
      rw [Bool.not_eq_true, Bool.not_eq_false'] at hb
      exact flatMap_of_map (congrArg (· ++ rest) (encodeChar_two hlead hb)) ih h
  case case11 i a low high hlead b hb c rest hc ih =>
      rw [Bool.not_eq_true, Bool.not_eq_false'] at hb hc
      exact flatMap_of_map (congrArg (· ++ rest) (encodeChar_three hlead hb hc)) ih h
  case case18 i a low high hlead b hb c hc d rest hd ih =>
      rw [Bool.not_eq_true, Bool.not_eq_false'] at hb hc hd
      exact flatMap_of_map (congrArg (· ++ rest) (encodeChar_four hlead hb hc hd)) ih h
  -- All others are defects.
  all_goals cases h

/-- A text is read from its bytes and from no others. -/
theorem decode_eq_ok {bs : List UInt8} {s : String} : decode bs = .ok s ↔ encode s = bs := by
  constructor
  · intro h
    rw [decode] at h
    cases hchars : decodeFrom 0 bs with
    | error e => simp [hchars, Except.map] at h
    | ok cs =>
        rw [hchars, Except.map, Except.ok.injEq] at h
        rw [encode, ← h, String.toList_ofList, flatMap_of_decodeFrom hchars]
  · rintro rfl
    exact decode_encode s

end Utf8

end BytecodeCoverage
