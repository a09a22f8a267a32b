import BytecodeCoverage.Proofs.Bytes.Extending
import BytecodeCoverage.Proofs.Bytes.Utf8

/-!
# What is ensured by having been read

Reading the parts of some data, a reader ensures a property of what it gives and of the number of
bytes that it takes for this.  Numbers are words, and at least one byte is taken for everything that
is read, so that elements cannot be more than bytes.

**Main definitions.**
* `Read.Within`: something stands in the data.
* `Read.Ensures`: a property of everything that is read within the data.

**Results.**
* `Read.Ensures.bind`, `Read.Ensures.times`: parts.
* `Read.ensures_varint`, `Read.ensures_count`, `Read.ensures_string`: numbers and texts.
-/

namespace BytecodeCoverage

namespace Read

variable {ε δ α β : Type} {data : List UInt8}

/-- The thing can be read somewhere in the data. -/
def Within (data : List UInt8) (item : Read ε α) (x : α) : Prop :=
  ∃ r r', r.rest <:+ data ∧ item r = (.ok x, r')

/-- Whatever is read within the data has the property, together with the number of bytes that are
read. -/
def Ensures (data : List UInt8) (item : Read ε α) (Q : α → Nat → Prop) : Prop :=
  ∀ ⦃r r' : Reader⦄ ⦃x : α⦄, r.rest <:+ data → item r = (.ok x, r') →
    ∃ used, r.rest = used ++ r'.rest ∧ Q x used.length

theorem Ensures.imp {item : Read ε α} {Q R : α → Nat → Prop} (h : item.Ensures data Q)
    (himp : ∀ x n, Q x n → R x n) : item.Ensures data R := by
  intro r r' x hr hread
  obtain ⟨used, hused, hx⟩ := h hr hread
  exact ⟨used, hused, himp x _ hx⟩

theorem Ensures.within {item : Read ε α} {P : α → Prop} {size : α → Nat}
    (h : item.Ensures data fun x n => P x ∧ size x ≤ n) :
    item.Ensures data fun x n => (item.Within data x ∧ P x) ∧ size x ≤ n := by
  intro r r' x hr hread
  obtain ⟨used, hused, hx, hsize⟩ := h hr hread
  exact ⟨used, hused, ⟨⟨r, r', hr, hread⟩, hx⟩, hsize⟩

theorem ensures_pure {x : α} {Q : α → Nat → Prop} (h : Q x 0) :
    Ensures data (pure x : Read ε α) Q := by
  rintro r r' y hr ⟨⟩
  exact ⟨[], rfl, h⟩

theorem ensures_fail (e : ε) (Q : α → Nat → Prop) : Ensures data (fail e) Q := by
  intro r r' x hr hread
  cases hread

theorem Ensures.bind {first : Read ε α} {next : α → Read ε β} {Q : α → Nat → Prop}
    {R : β → Nat → Prop} (h : first.Ensures data Q)
    (hnext : ∀ x n, Q x n → (next x).Ensures data fun y k => R y (n + k)) :
    (first >>= next).Ensures data R := by
  intro r r'' y hr hread
  obtain ⟨x, r', hfirst, hrest⟩ := bind_eq_ok.1 hread
  obtain ⟨used, hused, hx⟩ := h hr hfirst
  obtain ⟨more, hmore, hy⟩ := hnext x _ hx (List.IsSuffix.trans ⟨used, hused.symm⟩ hr) hrest
  refine ⟨used ++ more, ?_, ?_⟩
  · rw [hused, hmore, List.append_assoc]
  · rw [List.length_append]
    exact hy

theorem Ensures.ite {p : Prop} [Decidable p] {item other : Read ε α} {Q : α → Nat → Prop}
    (h : p → item.Ensures data Q) (hother : ¬p → other.Ensures data Q) :
    (if p then item else other).Ensures data Q := by
  split
  · rename_i hp
    exact h hp
  · rename_i hp
    exact hother hp

theorem Ensures.mapFault {item : Read ε α} {Q : α → Nat → Prop} (f : ε → δ)
    (h : item.Ensures data Q) : (item.mapFault f).Ensures data Q := fun _ _ _ hr hread =>
  h hr (mapFault_eq_ok.1 hread)

/-- What is ensured of each element is ensured of all, and their sizes add up. -/
theorem Ensures.times {item : Read ε α} {P : α → Prop} {size : α → Nat}
    (h : item.Ensures data fun x n => P x ∧ size x ≤ n) (k : Nat) :
    (item.times k).Ensures data fun xs n =>
      xs.length = k ∧ (∀ x ∈ xs, P x) ∧ (xs.map size).sum ≤ n := by
  induction k with
  | zero => exact ensures_pure ⟨rfl, fun _ hx => absurd hx List.not_mem_nil, Nat.le_refl 0⟩
  | succ k ih =>
      refine h.bind fun x n hx => ih.bind fun xs m hxs => ensures_pure ?_
      obtain ⟨hlength, hall, hsum⟩ := hxs
      refine ⟨congrArg (· + 1) hlength, List.forall_mem_cons.2 ⟨hx.1, hall⟩, ?_⟩
      rw [List.map_cons, List.sum_cons]
      exact Nat.add_le_add hx.2 hsum

/-! ## Bytes and numbers -/

theorem ensures_position : Ensures data (position : Read ε Nat) fun _ _ => True := by
  rintro r r' n hr ⟨⟩
  exact ⟨[], rfl, trivial⟩

theorem ensures_bytes (k : Nat) :
    (bytes k).Ensures data fun bs n => bs.length = k ∧ n = k := by
  intro r r' bs hr hread
  by_cases hk : k ≤ r.rest.length
  · rw [bytes, if_pos hk] at hread
    cases hread
    have hlength : (r.rest.take k).length = k := List.length_take_of_le hk
    exact ⟨r.rest.take k, (List.take_append_drop k r.rest).symm, hlength, hlength⟩
  · rw [bytes, if_neg hk] at hread
    cases hread

theorem ensures_byte : byte.Ensures data fun _ n => n = 1 := by
  rintro ⟨pos, rest⟩ r' b hr hread
  cases rest with
  | nil => cases hread
  | cons first rest =>
      cases hread
      exact ⟨[b], rfl, rfl⟩

theorem ensures_int (kind : IntKind) : (int kind).Ensures data fun _ n => n = kind.size :=
  (ensures_bytes kind.size).bind fun _ _ hn => ensures_pure hn.2

theorem ensures_bool : bool.Ensures data fun _ n => n = 1 :=
  ensures_byte.bind fun _ _ hn => .ite (fun _ => ensures_pure hn) fun _ =>
    .ite (fun _ => ensures_pure hn) fun _ =>
      ensures_position.bind fun _ _ _ => ensures_fail _ _

/-- A byte adds seven bits. -/
theorem add_bits_lt {k acc : Nat} (hacc : acc < 2 ^ (7 * k)) (n : Nat) :
    acc + n % 128 * 2 ^ (7 * k) < 2 ^ (7 * (k + 1)) := by
  have hpow : 2 ^ (7 * (k + 1)) = 128 * 2 ^ (7 * k) := by
    rw [Nat.mul_add, Nat.pow_add, Nat.mul_comm]
  have hle : n % 128 * 2 ^ (7 * k) ≤ 127 * 2 ^ (7 * k) := Nat.mul_le_mul_right _ (by omega)
  omega

/-- The bytes of a number stay below `2 ^ 32`: each of them adds seven bits, and the fifth one no
more than four. -/
theorem varintFrom_eq_ok {k acc pos n : Nat} {bs : List UInt8} {r' : Reader} (hk : k ≤ 4)
    (hacc : acc < 2 ^ (7 * k)) (h : varintFrom k acc pos bs = (.ok n, r')) :
    ∃ used, bs = used ++ r'.rest ∧ 0 < used.length ∧ n ≤ maxWord := by
  induction bs generalizing k acc pos with
  | nil => cases h
  | cons b bs ih =>
      have hstep := add_bits_lt hacc b.toNat
      rw [varintFrom] at h
      split at h
      · cases h
      · rename_i hfits
        split at h
        · rename_i hlast
          cases h
          refine ⟨[b], rfl, Nat.one_pos, Nat.le_of_lt_succ ?_⟩
          rcases Nat.lt_or_eq_of_le hk with hk | rfl
          · have hbits : 7 * (k + 1) ≤ 32 := by omega
            exact Nat.lt_of_lt_of_le hstep (Nat.pow_le_pow_right Nat.two_pos hbits)
          · have hsmall : b.toNat % 128 ≤ 15 := by omega
            have hle : b.toNat % 128 * 2 ^ (7 * 4) ≤ 15 * 2 ^ (7 * 4) :=
              Nat.mul_le_mul_right _ hsmall
            show acc + b.toNat % 128 * 2 ^ (7 * 4) < 2 ^ 32
            omega
        · split at h
          · cases h
          · obtain ⟨used, hused, -, hn⟩ := ih (by omega) hstep h
            exact ⟨b :: used, congrArg (b :: ·) hused, Nat.succ_pos _, hn⟩

theorem ensures_varint : varint.Ensures data fun x n => x ≤ maxWord ∧ 1 ≤ n := by
  intro r r' x hr hread
  obtain ⟨used, hused, hpos, hx⟩ := varintFrom_eq_ok (Nat.zero_le 4) Nat.one_pos hread
  exact ⟨used, hused, hx, hpos⟩

theorem ensures_count : count.Ensures data fun x n => x ≤ maxWord ∧ 1 ≤ n := fun _ _ _ hr hread =>
  ensures_varint hr (count_eq_ok.1 hread).1

/-! ## Texts -/

theorem ensures_string :
    string.Ensures data fun s n => (Utf8.encode s).length ≤ maxWord ∧ 1 ≤ n := by
  refine ensures_varint.bind fun k n hk => (ensures_bytes k).bind fun bs m hbs =>
    ensures_position.bind fun stop l _ => ?_
  split
  · rename_i s hs
    refine ensures_pure ⟨?_, by omega⟩
    rw [Utf8.decode_eq_ok.1 hs, hbs.1]
    exact hk.1
  · exact ensures_fail _ _

theorem ensures_optionalString :
    optionalString.Ensures data fun s n =>
      (∀ text ∈ s, (Utf8.encode text).length ≤ maxWord) ∧ 1 ≤ n := by
  refine ensures_bool.bind fun present n hn => .ite (fun _ => ?_) fun _ => ?_
  · refine ensures_string.bind fun s m hs => ensures_pure ⟨?_, by omega⟩
    rintro text ⟨⟩
    exact hs.1
  · exact ensures_pure ⟨fun text htext => absurd htext (Option.not_mem_none text), by omega⟩

end Read

end BytecodeCoverage
