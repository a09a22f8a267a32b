import BytecodeCoverage.Proofs.Bytes.RoundTrip

/-!
# Reading with more bytes to follow

A reader that succeeds reads the same, and stands at the same place, if there are more bytes after
the ones it had.  For numbers of elements this is so because more bytes can only have room for more
elements.

**Main definitions.**
* `Read.Stable`: more bytes at the end change nothing.

**Results.**
* `Read.bind_eq_ok`: what successful reading consists of.
* `Read.Stable.bind`, `Read.Stable.times`: parts.
* `Read.stable_varint`, `Read.stable_count`, `Read.stable_string`: numbers and texts.
-/

namespace BytecodeCoverage

/-- A reader of the same bytes and some more. -/
def Reader.extend (r : Reader) (more : List UInt8) : Reader :=
  ⟨r.pos, r.rest ++ more⟩

namespace Read

variable {ε δ α β : Type}

/-- The first part has been read, and then the other one. -/
theorem bind_eq_ok {first : Read ε α} {next : α → Read ε β} {r r'' : Reader} {y : β} :
    (first >>= next) r = (.ok y, r'') ↔
      ∃ x r', first r = (.ok x, r') ∧ next x r' = (.ok y, r'') := by
  cases h : first r with
  | mk result r' =>
      cases result with
      | ok x => simp [bind_ok h]
      | error e => simp [bind_error h]

theorem mapFault_eq_ok {f : ε → δ} {item : Read ε α} {r r' : Reader} {x : α} :
    item.mapFault f r = (.ok x, r') ↔ item r = (.ok x, r') := by
  cases h : item r with
  | mk result after =>
      cases result with
      | ok y => rw [mapFault_ok f h, Prod.mk.injEq, Prod.mk.injEq, Except.ok.injEq, Except.ok.injEq]
      | error e => simp [mapFault_error f h]

/-- A reader that succeeds reads the same with more bytes at the end. -/
def Stable (item : Read ε α) : Prop :=
  ∀ ⦃r r' : Reader⦄ ⦃x : α⦄, item r = (.ok x, r') →
    ∀ more, item (r.extend more) = (.ok x, r'.extend more)

theorem stable_pure (x : α) : Stable (pure x : Read ε α) := by
  rintro r r' y ⟨⟩ more
  rfl

theorem stable_fail (e : ε) : Stable (fail e : Read ε α) := by
  intro r r' x h
  cases h

theorem Stable.bind {first : Read ε α} {next : α → Read ε β} (h : first.Stable)
    (hnext : ∀ x, (next x).Stable) : (first >>= next).Stable := by
  intro r r'' y hread more
  obtain ⟨x, r', hfirst, hrest⟩ := bind_eq_ok.1 hread
  exact bind_eq_ok.2 ⟨x, r'.extend more, h hfirst more, hnext x hrest more⟩

theorem Stable.ite {p : Prop} [Decidable p] {item other : Read ε α} (h : item.Stable)
    (hother : other.Stable) : Stable (if p then item else other) := by
  split
  · exact h
  · exact hother

theorem Stable.mapFault {item : Read ε α} (f : ε → δ) (h : item.Stable) :
    (item.mapFault f).Stable := fun _ _ _ hread more =>
  mapFault_eq_ok.2 (h (mapFault_eq_ok.1 hread) more)

theorem Stable.times {item : Read ε α} (h : item.Stable) (n : Nat) : (item.times n).Stable := by
  induction n with
  | zero => exact stable_pure []
  | succ n ih => exact h.bind fun x => ih.bind fun xs => stable_pure (x :: xs)

/-! ## Bytes and numbers -/

theorem stable_bytes (n : Nat) : (bytes n).Stable := by
  intro r r' bs h more
  by_cases hn : n ≤ r.rest.length
  · rw [bytes, if_pos hn] at h
    cases h
    have hmore : n ≤ (r.extend more).rest.length :=
      Nat.le_trans hn (List.length_append ▸ Nat.le_add_right _ _)
    rw [bytes, if_pos hmore]
    simp only [Reader.extend, List.take_append_of_le_length hn, List.drop_append_of_le_length hn]
  · rw [bytes, if_neg hn] at h
    cases h

theorem stable_int (kind : IntKind) : (int kind).Stable :=
  (stable_bytes kind.size).bind fun _ => stable_pure _

theorem stable_byte : byte.Stable := by
  rintro ⟨pos, rest⟩ r' b h more
  cases rest with
  | nil => cases h
  | cons first rest =>
      cases h
      rfl

theorem stable_position : Stable (position : Read ε Nat) := by
  rintro r r' n ⟨⟩ more
  rfl

theorem stable_bool : bool.Stable :=
  stable_byte.bind fun _ => .ite (stable_pure _) (.ite (stable_pure _)
    (stable_position.bind fun _ => stable_fail _))

theorem varintFrom_append {k acc pos n : Nat} {bs : List UInt8} {r' : Reader}
    (h : varintFrom k acc pos bs = (.ok n, r')) (more : List UInt8) :
    varintFrom k acc pos (bs ++ more) = (.ok n, r'.extend more) := by
  induction bs generalizing k acc pos with
  | nil => cases h
  | cons b bs ih =>
      simp only [List.cons_append, varintFrom] at h ⊢
      split at h
      · cases h
      · rename_i hfits
        rw [if_neg hfits]
        split at h
        · rename_i hlast
          rw [if_pos hlast]
          cases h
          rfl
        · rename_i hlast
          rw [if_neg hlast]
          split at h
          · cases h
          · rename_i hroom
            rw [if_neg hroom]
            exact ih h

theorem stable_varint : varint.Stable := fun _ _ _ h more =>
  varintFrom_append h more

/-- A number of elements was read as a number, and there was room for so many. -/
theorem count_eq_ok {r r' : Reader} {n : Nat} :
    count r = (.ok n, r') ↔ varint r = (.ok n, r') ∧ n ≤ r'.rest.length := by
  cases h : varint r with
  | mk result after =>
      cases result with
      | error e => simp [count, bind_error h]
      | ok m =>
          rw [count_of_varint h]
          split
          · rename_i hfar
            simp only [Prod.mk.injEq, reduceCtorEq, false_and, Except.ok.injEq, false_iff, not_and]
            rintro ⟨rfl, rfl⟩
            exact Nat.not_le.2 hfar
          · rename_i hroom
            simp only [Prod.mk.injEq, Except.ok.injEq, iff_self_and]
            rintro ⟨rfl, rfl⟩
            exact Nat.not_lt.1 hroom

theorem stable_count : count.Stable := by
  intro r r' n h more
  obtain ⟨hvarint, hroom⟩ := count_eq_ok.1 h
  refine count_eq_ok.2 ⟨stable_varint hvarint more, Nat.le_trans hroom ?_⟩
  rw [Reader.extend, List.length_append]
  exact Nat.le_add_right _ _

/-! ## Texts -/

theorem stable_string : string.Stable := by
  refine stable_varint.bind fun n => (stable_bytes n).bind fun bs =>
    stable_position.bind fun stop => ?_
  split
  · exact stable_pure _
  · exact stable_fail _

theorem stable_optionalString : optionalString.Stable :=
  stable_bool.bind fun _ => .ite (stable_string.bind fun _ => stable_pure _) (stable_pure _)

end Read

end BytecodeCoverage
