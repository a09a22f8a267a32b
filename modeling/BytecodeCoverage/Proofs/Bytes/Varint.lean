import BytecodeCoverage.Proofs.Bytes.Indexed
import Mathlib.Algebra.BigOperators.Fin

/-!
# Numbers of variable length

The bytes of a number go on until one of them says that it is the last.  From any place on, bytes
either begin with those of a number, or they end while a number goes on and there is room for more
of it, or they have four bytes that go on and a fifth one with which there are too many bits.  What
a reader gives, and where it stands then, follows from this alone.

**Main definitions.**
* `Varint.value`: what bytes add up to.
* `Varint.Numeral`: the bytes of a number.
* `Varint.Shape`: the three forms of bytes.

**Results.**
* `Varint.shape`: there are no others.
* `Read.varintFrom_front`: bytes that go on.
* `Read.varint_exact`: which numbers are read, and what else happens.
-/

namespace BytecodeCoverage

namespace Varint

/-- What bytes add up to: each of them has seven bits, the lowest ones come first. -/
def value (bs : List UInt8) : Nat :=
  ∑ i : Fin bs.length, (bs.get i).toNat % 128 * 2 ^ (7 * i.val)

@[simp] theorem value_nil : value [] = 0 :=
  rfl

theorem value_cons (b : UInt8) (bs : List UInt8) :
    value (b :: bs) = b.toNat % 128 + 128 * value bs := by
  have hterm (i : Fin bs.length) : (bs.get i).toNat % 128 * 2 ^ (7 * (i.val + 1)) =
      128 * ((bs.get i).toNat % 128 * 2 ^ (7 * i.val)) := by
    rw [Nat.mul_add, Nat.pow_add]
    ring
  rw [value, value, Finset.mul_sum]
  refine (Fin.sum_univ_succ _).trans (congrArg₂ (· + ·) (Nat.mul_one _) ?_)
  exact Finset.sum_congr rfl fun i _ => hterm i

theorem value_append (front back : List UInt8) :
    value (front ++ back) = value front + value back * 2 ^ (7 * front.length) := by
  induction front with
  | nil => simp
  | cons b front ih =>
      rw [List.cons_append, value_cons, value_cons, ih, List.length_cons, Nat.mul_succ, Nat.pow_add]
      ring

/-- Bytes that say that another one follows. -/
def GoOn (bs : List UInt8) : Prop :=
  ∀ b ∈ bs, 128 ≤ b.toNat

/-- The bytes of a number after the first `k` of them: all but the last one go on, there are at
most five, and the fifth one adds no more than four bits. -/
structure Numeral (k : Nat) (front : List UInt8) (last : UInt8) : Prop where
  goOn : GoOn front
  ends : last.toNat < 128
  short : k + front.length ≤ 4
  fits : k + front.length = 4 → last.toNat ≤ 0x0f

/-- Bytes that go on until the data ends, with room for more of them after the first `k`. -/
structure Truncated (k : Nat) (bs : List UInt8) : Prop where
  goOn : GoOn bs
  short : k + bs.length < 5

/-- Four bytes that go on, the first `k` among them, and a fifth one with too many bits. -/
structure Crowded (k : Nat) (front : List UInt8) (last : UInt8) : Prop where
  goOn : GoOn front
  full : k + front.length = 4
  exceeds : 0x0f < last.toNat

/-- What bytes can look like after the first `k` of a number. -/
inductive Shape (k : Nat) : List UInt8 → Prop
  | number (front : List UInt8) (last : UInt8) (rest : List UInt8) :
      Numeral k front last → Shape k (front ++ last :: rest)
  | truncated {bs : List UInt8} : Truncated k bs → Shape k bs
  | crowded (front : List UInt8) (last : UInt8) (rest : List UInt8) :
      Crowded k front last → Shape k (front ++ last :: rest)

theorem add_length_cons (n : Nat) (b : UInt8) (bs : List UInt8) :
    n + (b :: bs).length = n + 1 + bs.length := by
  rw [List.length_cons, Nat.add_assoc, Nat.add_comm 1]

theorem GoOn.cons {b : UInt8} {bs : List UInt8} (hb : 128 ≤ b.toNat) (h : GoOn bs) :
    GoOn (b :: bs) :=
  List.forall_mem_cons.2 ⟨hb, h⟩

/-- One more byte that goes on changes nothing. -/
theorem Shape.cons {k : Nat} {b : UInt8} {bs : List UInt8} (hb : 128 ≤ b.toNat)
    (h : Shape (k + 1) bs) : Shape k (b :: bs) := by
  have hlength := add_length_cons k b
  cases h with
  | number front last rest h =>
      exact .number (b :: front) last rest
        ⟨.cons hb h.goOn, h.ends, hlength front ▸ h.short, hlength front ▸ h.fits⟩
  | truncated h => exact .truncated ⟨.cons hb h.goOn, hlength bs ▸ h.short⟩
  | crowded front last rest h =>
      exact .crowded (b :: front) last rest
        ⟨.cons hb h.goOn, hlength front ▸ h.full, h.exceeds⟩

/-- Bytes have one of the three forms. -/
theorem shape {k : Nat} (hk : k ≤ 4) (bs : List UInt8) : Shape k bs := by
  induction bs generalizing k with
  | nil => exact .truncated ⟨nofun, Nat.lt_succ_of_le hk⟩
  | cons b bs ih =>
      by_cases hgoes : 128 ≤ b.toNat
      · rcases Nat.lt_or_eq_of_le hk with hlt | rfl
        · exact (ih hlt).cons hgoes
        · exact .crowded [] b bs ⟨nofun, rfl, by omega⟩
      · by_cases hfits : k = 4 → b.toNat ≤ 0x0f
        · exact .number [] b bs ⟨nofun, by omega, hk, hfits⟩
        · exact .crowded [] b bs ⟨nofun, (Classical.not_imp.1 hfits).1, by omega⟩

end Varint

namespace Read

open Varint

variable {k acc pos : Nat} {front rest : List UInt8} {last : UInt8}

/-- Bytes that go on are added up. -/
theorem varintFrom_front (hfront : GoOn front) (hshort : k + front.length ≤ 4) :
    varintFrom k acc pos (front ++ rest) =
      varintFrom (k + front.length) (acc + value front * 2 ^ (7 * k)) (pos + front.length)
        rest := by
  induction front generalizing k acc pos with
  | nil => simp
  | cons b front ih =>
      obtain ⟨hb, hfront⟩ := List.forall_mem_cons.1 hfront
      have hsum : acc + b.toNat % 128 * 2 ^ (7 * k) + value front * 2 ^ (7 * (k + 1)) =
          acc + value (b :: front) * 2 ^ (7 * k) := by
        rw [value_cons, Nat.mul_succ, Nat.pow_add]
        ring
      rw [add_length_cons] at hshort
      rw [List.cons_append, varintFrom, add_length_cons, add_length_cons]
      dsimp only
      rw [if_neg (by omega), if_neg (by omega), if_neg (by omega), ih hfront hshort,
        show Nat.pow 2 (7 * k) = 2 ^ (7 * k) from rfl, hsum]

theorem varintFrom_number (h : Numeral k front last) :
    varintFrom k acc pos (front ++ last :: rest) =
      (.ok (acc + value (front ++ [last]) * 2 ^ (7 * k)), ⟨pos + (front.length + 1), rest⟩) := by
  obtain ⟨hfront, hlast, hshort, hfits⟩ := h
  have hsum : acc + value front * 2 ^ (7 * k) + last.toNat % 128 * 2 ^ (7 * (k + front.length)) =
      acc + value (front ++ [last]) * 2 ^ (7 * k) := by
    rw [value_append, value_cons, value_nil, Nat.mul_add, Nat.pow_add]
    ring
  rw [varintFrom_front hfront hshort, varintFrom]
  dsimp only
  rw [if_neg (by omega), if_pos hlast, show ∀ n, Nat.pow 2 n = 2 ^ n from fun _ => rfl, hsum,
    Nat.add_assoc]

theorem varintFrom_truncated {bs : List UInt8} (h : Truncated k bs) :
    varintFrom k acc pos bs = (.error .beyondEnd, ⟨pos + bs.length, []⟩) := by
  have hall := @varintFrom_front k acc pos bs [] h.goOn (Nat.le_of_lt_succ h.short)
  rw [List.append_nil] at hall
  rw [hall, varintFrom]

theorem varintFrom_crowded (h : Crowded k front last) :
    ∃ e r, varintFrom k acc pos (front ++ last :: rest) = (.error e, r) ∧
      Fault.kind e = .malformed := by
  obtain ⟨hfront, hfull, hexceeds⟩ := h
  rw [varintFrom_front hfront (Nat.le_of_eq hfull), hfull, varintFrom]
  dsimp only
  by_cases hover : last.toNat / 16 % 8 ≠ 0
  · exact ⟨.overflow _, _, if_pos ⟨rfl, hover⟩, rfl⟩
  · rw [if_neg (not_and_of_not_right _ hover), if_neg (by omega), if_pos (Nat.le_refl 4)]
    exact ⟨.tooLong _, _, rfl, rfl⟩

/-! ## At a position of the data -/

variable {data : List UInt8}

theorem placed_add {p : Nat} {used rest : List UInt8} (h : data.drop p = used ++ rest) :
    Reader.placed data (p + used.length) = ⟨p + used.length, rest⟩ := by
  rw [Reader.placed, ← List.drop_drop, h, List.drop_left]

theorem varint_number (hdata : data.drop pos = front ++ last :: rest) (h : Numeral 0 front last) :
    varint (.placed data pos) =
      (.ok (value (front ++ [last])), .placed data (pos + (front.length + 1))) := by
  have hused : data.drop pos = (front ++ [last]) ++ rest := by simpa using hdata
  have hplaced := placed_add hused
  rw [List.length_append, List.length_singleton] at hplaced
  show varintFrom 0 0 pos (data.drop pos) = _
  rw [hdata, varintFrom_number h, hplaced]
  simp

theorem varint_truncated (h : Truncated 0 (data.drop pos)) :
    ∃ r, varint (.placed data pos) = (.error .beyondEnd, r) :=
  ⟨_, varintFrom_truncated h⟩

theorem varint_crowded (hdata : data.drop pos = front ++ last :: rest) (h : Crowded 0 front last) :
    ∃ e r, varint (.placed data pos) = (.error e, r) ∧ Fault.kind e = .malformed := by
  show ∃ e r, varintFrom 0 0 pos (data.drop pos) = (.error e, r) ∧ _
  rw [hdata]
  exact varintFrom_crowded h

/-- What is read at a position: a number, nothing because the data ends, or nothing because there
are too many bits. -/
theorem cases_varint (data : List UInt8) (pos : Nat) :
    (∃ front last rest, data.drop pos = front ++ last :: rest ∧ Numeral 0 front last ∧
      varint (.placed data pos) =
        (.ok (value (front ++ [last])), .placed data (pos + (front.length + 1)))) ∨
    (Truncated 0 (data.drop pos) ∧ ∃ r, varint (.placed data pos) = (.error .beyondEnd, r)) ∨
    ∃ e r, varint (.placed data pos) = (.error e, r) ∧ Fault.kind e = .malformed := by
  generalize hdata : data.drop pos = bs
  cases shape (Nat.zero_le 4) bs with
  | number front last rest h => exact .inl ⟨front, last, rest, rfl, h, varint_number hdata h⟩
  | truncated h => exact .inr (.inl ⟨h, varint_truncated (hdata ▸ h)⟩)
  | crowded front last rest h => exact .inr (.inr (varint_crowded hdata h))

theorem exists_numeral {n : Nat} {r : Reader} (h : varint (.placed data pos) = (.ok n, r)) :
    ∃ front last rest, data.drop pos = front ++ last :: rest ∧ Numeral 0 front last ∧
      n = value (front ++ [last]) ∧ r = .placed data (pos + (front.length + 1)) := by
  rcases cases_varint data pos with ⟨front, last, rest, hdata, hnumeral, hread⟩ | ⟨-, _, hread⟩ |
    ⟨_, _, hread, -⟩
  · obtain ⟨hn, hr⟩ := Prod.mk.inj (h.symm.trans hread)
    exact ⟨front, last, rest, hdata, hnumeral, Except.ok.inj hn, hr⟩
  · cases h.symm.trans hread
  · cases h.symm.trans hread

theorem varint_eq_ok_iff {n k : Nat} :
    varint (.placed data pos) = (.ok n, .placed data (pos + k)) ↔
      ∃ front last rest, data.drop pos = front ++ last :: rest ∧ Numeral 0 front last ∧
        k = front.length + 1 ∧ n = value (front ++ [last]) := by
  constructor
  · intro h
    obtain ⟨front, last, rest, hdata, hnumeral, hn, hr⟩ := exists_numeral h
    have hpos : pos + k = pos + (front.length + 1) := congrArg Reader.pos hr
    exact ⟨front, last, rest, hdata, hnumeral, Nat.add_left_cancel hpos, hn⟩
  · rintro ⟨front, last, rest, hdata, hnumeral, rfl, rfl⟩
    exact varint_number hdata hnumeral

theorem varint_outOfBounds_iff :
    (∃ e r, varint (.placed data pos) = (.error e, r) ∧ Fault.kind e = .outOfBounds) ↔
      Truncated 0 (data.drop pos) := by
  constructor
  · rintro ⟨e, r, h, hkind⟩
    rcases cases_varint data pos with ⟨_, _, _, -, -, hread⟩ | ⟨htruncated, -⟩ |
      ⟨_, _, hread, hmalformed⟩
    · cases h.symm.trans hread
    · exact htruncated
    · cases h.symm.trans hread
      cases hkind.symm.trans hmalformed
  · intro h
    obtain ⟨r, hread⟩ := varint_truncated h
    exact ⟨_, r, hread, rfl⟩

theorem varint_malformed_iff :
    (∃ e r, varint (.placed data pos) = (.error e, r) ∧ Fault.kind e = .malformed) ↔
      (¬∃ front last rest, data.drop pos = front ++ last :: rest ∧ Numeral 0 front last) ∧
        ¬Truncated 0 (data.drop pos) := by
  constructor
  · rintro ⟨e, r, h, hkind⟩
    refine ⟨?_, fun htruncated => ?_⟩
    · rintro ⟨front, last, rest, hdata, hnumeral⟩
      cases h.symm.trans (varint_number hdata hnumeral)
    · obtain ⟨_, hread⟩ := varint_truncated htruncated
      cases h.symm.trans hread
      cases hkind
  · rintro ⟨hnumber, htruncated⟩
    rcases cases_varint data pos with ⟨front, last, rest, hdata, hnumeral, -⟩ | ⟨h, -⟩ | hmalformed
    · exact absurd ⟨front, last, rest, hdata, hnumeral⟩ hnumber
    · exact absurd h htruncated
    · exact hmalformed

/-- Reading by position gives the same, also at positions behind the data. -/
theorem indexed_varint (data : List UInt8) (pos : Nat) :
    Indexed.varint data pos =
      some ((varint (.placed data pos)).1, (varint (.placed data pos)).2.pos) := by
  by_cases hpos : pos ≤ data.length
  · obtain ⟨result, stop, hread, hindexed, -, -⟩ := alike_varint hpos
    rw [hread, hindexed]
    rfl
  · have hend : data.drop pos = [] := List.drop_eq_nil_iff.2 (by omega)
    rw [Indexed.varint, Indexed.varintFrom, dif_neg (by omega), Reader.placed, hend]
    rfl

/-- From a position on a number is read just if its bytes are there: at most five, all of which but
the last one go on, the fifth one with no more than four bits.  It is what they add up to and stays
below `2 ^ 32`, and the reader then stands behind them.  Reading fails at the end of the data just
if the data ends while the number goes on, before a fifth byte, and as malformed in all other cases.
By position, with the bits of 32-bit words, the same is read. -/
theorem varint_exact (data : List UInt8) (pos : Nat) :
    (∀ n k, varint (.placed data pos) = (.ok n, .placed data (pos + k)) ↔
      ∃ front last rest, data.drop pos = front ++ last :: rest ∧ Numeral 0 front last ∧
        k = front.length + 1 ∧ n = value (front ++ [last])) ∧
    (∀ n r, varint (.placed data pos) = (.ok n, r) →
      n < 2 ^ 32 ∧ ∃ k, r = .placed data (pos + k)) ∧
    ((∃ e r, varint (.placed data pos) = (.error e, r) ∧ Fault.kind e = .outOfBounds) ↔
      Truncated 0 (data.drop pos)) ∧
    ((∃ e r, varint (.placed data pos) = (.error e, r) ∧ Fault.kind e = .malformed) ↔
      (¬∃ front last rest, data.drop pos = front ++ last :: rest ∧ Numeral 0 front last) ∧
        ¬Truncated 0 (data.drop pos)) ∧
    Indexed.varint data pos =
      some ((varint (.placed data pos)).1, (varint (.placed data pos)).2.pos) := by
  refine ⟨fun n k => varint_eq_ok_iff, fun n r hread => ?_, varint_outOfBounds_iff,
    varint_malformed_iff, indexed_varint data pos⟩
  obtain ⟨-, -, hle, -⟩ := ensures_varint (List.drop_suffix pos data) hread
  obtain ⟨front, -, -, -, -, -, hr⟩ := exists_numeral hread
  exact ⟨Nat.lt_succ_of_le hle, front.length + 1, hr⟩

/-- A number may have more bytes than it needs. -/
example : varint (.placed [0x80, 0x80, 0x00] 0) = (.ok 0, ⟨3, []⟩) :=
  rfl

end Read

end BytecodeCoverage
