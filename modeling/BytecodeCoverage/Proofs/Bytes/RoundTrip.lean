import BytecodeCoverage.Bytes.Reader
import BytecodeCoverage.Bytes.Writer
import Mathlib.Tactic.Ring

/-!
# What is written can be read

A reader restores a thing from its written form if it gives the thing and stands right behind the
written form afterwards, whatever bytes follow.  Parts that are restored one after the other make
up a whole that is restored.

**Main definitions.**
* `Read.Restores`: reading undoes writing.
* `Written.size`: the number of bytes.

**Results.**
* `Utf8.decode_encode`: texts.
* `Read.restores_varint`: numbers of variable length.
* `Read.restores_string`, `Read.restores_times`: parts with a length.
-/

namespace BytecodeCoverage

/-! ## Texts -/

namespace Utf8

theorem toNat_tail (n : Nat) : (UInt8.ofNat (0x80 + n % 64)).toNat = 0x80 + n % 64 := by
  rw [UInt8.toNat_ofNat']
  omega

theorem isTail_tail (n : Nat) : isTail (UInt8.ofNat (0x80 + n % 64)) = true := by
  simp only [isTail, within, toNat_tail, Bool.and_eq_true, decide_eq_true_eq]
  omega

theorem low6_tail (n : Nat) : low6 (UInt8.ofNat (0x80 + n % 64)) = n % 64 := by
  rw [low6, toNat_tail]
  omega

/-- The bytes of a character are read as this character. -/
theorem decodeFrom_encodeChar (i : Nat) (c : Char) (rest : List UInt8) :
    decodeFrom i (encodeChar c ++ rest) =
      (decodeFrom (i + (encodeChar c).length) rest).map (c :: ·) := by
  have hvalid : c.toNat < 0xd800 ∨ 0xdfff < c.toNat ∧ c.toNat < 0x110000 := c.valid
  have hc : Char.ofNat c.toNat = c := Char.ofNat_toNat c
  unfold encodeChar
  dsimp only
  generalize c.toNat = n at hvalid hc
  subst hc
  split
  · have hn : (UInt8.ofNat n).toNat = n := by
      rw [UInt8.toNat_ofNat']
      omega
    have hlead : lead (UInt8.ofNat n) = .one := by
      simp only [lead, hn]
      rw [if_pos (by omega)]
    rw [List.singleton_append, decodeFrom.eq_def]
    simp only [hlead, hn, List.length_singleton]
  · split
    · have hn : (UInt8.ofNat (0xc0 + n / 64)).toNat = 0xc0 + n / 64 := by
        rw [UInt8.toNat_ofNat']
        omega
      have hlead : lead (UInt8.ofNat (0xc0 + n / 64)) = .two := by
        simp only [lead, hn]
        rw [if_neg (by omega), if_neg (by omega), if_pos (by omega)]
      have hchar : (0xc0 + n / 64) % 32 * 64 + n % 64 = n := by omega
      rw [List.cons_append, decodeFrom.eq_def]
      simp only [List.cons_append, List.nil_append, hlead, hn, isTail_tail, low6_tail, hchar,
        Bool.not_true, Bool.false_eq_true, if_false, List.length_cons, List.length_nil]
    · split
      · have hn : (UInt8.ofNat (0xe0 + n / 4096)).toNat = 0xe0 + n / 4096 := by
          rw [UInt8.toNat_ofNat']
          omega
        have hlead : lead (UInt8.ofNat (0xe0 + n / 4096)) =
            .three (if 0xe0 + n / 4096 = 0xe0 then 0xa0 else 0x80)
              (if 0xe0 + n / 4096 = 0xed then 0x9f else 0xbf) := by
          simp only [lead, hn]
          rw [if_neg (by omega), if_neg (by omega), if_neg (by omega), if_pos (by omega)]
        have hwithin : within (if 0xe0 + n / 4096 = 0xe0 then 0xa0 else 0x80)
            (if 0xe0 + n / 4096 = 0xed then 0x9f else 0xbf)
            (UInt8.ofNat (0x80 + n / 64 % 64)) = true := by
          simp only [within, toNat_tail, Bool.and_eq_true, decide_eq_true_eq]
          split <;> split <;> omega
        have hchar : (0xe0 + n / 4096) % 16 * 4096 + n / 64 % 64 * 64 + n % 64 = n := by omega
        rw [List.cons_append, decodeFrom.eq_def]
        simp only [List.cons_append, List.nil_append, hlead, hn, hwithin, isTail_tail, low6_tail,
          hchar, Bool.not_true, Bool.false_eq_true, if_false, List.length_cons, List.length_nil]
      · have hn : (UInt8.ofNat (0xf0 + n / 262144)).toNat = 0xf0 + n / 262144 := by
          rw [UInt8.toNat_ofNat']
          omega
        have hlead : lead (UInt8.ofNat (0xf0 + n / 262144)) =
            .four (if 0xf0 + n / 262144 = 0xf0 then 0x90 else 0x80)
              (if 0xf0 + n / 262144 = 0xf4 then 0x8f else 0xbf) := by
          simp only [lead, hn]
          rw [if_neg (by omega), if_neg (by omega), if_neg (by omega), if_neg (by omega),
            if_pos (by omega)]
        have hwithin : within (if 0xf0 + n / 262144 = 0xf0 then 0x90 else 0x80)
            (if 0xf0 + n / 262144 = 0xf4 then 0x8f else 0xbf)
            (UInt8.ofNat (0x80 + n / 4096 % 64)) = true := by
          simp only [within, toNat_tail, Bool.and_eq_true, decide_eq_true_eq]
          split <;> split <;> omega
        have hchar : (0xf0 + n / 262144) % 8 * 262144 + n / 4096 % 64 * 4096 +
            n / 64 % 64 * 64 + n % 64 = n := by omega
        rw [List.cons_append, decodeFrom.eq_def]
        simp only [List.cons_append, List.nil_append, hlead, hn, hwithin, isTail_tail, low6_tail,
          hchar, Bool.not_true, Bool.false_eq_true, if_false, List.length_cons, List.length_nil]

theorem decodeFrom_flatMap (i : Nat) (cs : List Char) :
    decodeFrom i (cs.flatMap encodeChar) = .ok cs := by
  induction cs generalizing i with
  | nil => rfl
  | cons c cs ih =>
      rw [List.flatMap_cons, decodeFrom_encodeChar, ih]
      rfl

/-- The bytes of a text are read as this text. -/
theorem decode_encode (s : String) : decode (encode s) = .ok s := by
  rw [decode, encode, decodeFrom_flatMap]
  exact congrArg Except.ok (String.ofList_toList)

end Utf8

/-! ## Integers of fixed size -/

/-- The bytes of an integer spell this integer. -/
theorem Bytes.intOf_ofInt {kind : IntKind} {n : Int} (h : kind.Holds n) :
    intOf kind (ofInt kind n) = n := by
  have hpos : 0 < kind.modulus := Nat.pow_pos (by decide)
  have hnat : natOf (ofInt kind n) = (n % kind.modulus).toNat := by
    rw [ofInt, natOf_ofNat]
    refine Nat.mod_eq_of_lt ?_
    have hlt := Int.emod_lt_of_pos n (Int.natCast_pos.2 hpos)
    show (n % kind.modulus).toNat < kind.modulus
    omega
  simp only [intOf, hnat]
  unfold IntKind.Holds at h
  generalize kind.modulus = m at h hpos
  cases hsigned : kind.isSigned with
  | false =>
      rw [hsigned] at h
      simp only [Bool.false_eq_true, if_false, Bool.false_and] at h ⊢
      rw [Int.emod_eq_of_lt h.1 h.2]
      omega
  | true =>
      rw [hsigned] at h
      simp only [if_true, Bool.true_and, decide_eq_true_eq] at h ⊢
      by_cases hneg : n < 0
      · have hmod : n % m = n + m := by
          rw [← Int.add_emod_right, Int.emod_eq_of_lt (by omega) (by omega)]
        rw [hmod, if_pos (by omega)]
        omega
      · rw [Int.emod_eq_of_lt (by omega) (by omega), if_neg (by omega)]
        omega

/-! ## Restoring -/

/-- The number of bytes that are written. -/
def Written.size : Written → Nat
  | .ok bytes => bytes.length
  | .error _ => 0

namespace Write

theorem sequence_cons {w : Written} {ws : List Written} {bytes others : List UInt8}
    (hw : w = .ok bytes) (hws : sequence ws = .ok others) :
    sequence (w :: ws) = .ok (bytes ++ others) := by
  rw [sequence, hw, hws]
  rfl

theorem sequence_single (w : Written) : sequence [w] = w := by
  cases w with
  | error fault => rfl
  | ok bytes => exact (sequence_cons rfl rfl).trans (congrArg _ (List.append_nil bytes))

/-- A sequence within a sequence. -/
theorem sequence_sequence (inner ws : List Written) :
    sequence (sequence inner :: ws) = sequence (inner ++ ws) := by
  induction inner with
  | nil => cases h : sequence ws <;> simp [sequence, bind, Except.bind, pure, Except.pure, h]
  | cons w inner ih =>
      simp only [List.cons_append, sequence, ← ih]
      cases w with
      | error fault => rfl
      | ok bytes =>
          cases sequence inner with
          | error fault => rfl
          | ok others =>
              cases sequence ws <;> simp [bind, Except.bind, pure, Except.pure]

/-- The parts of what is written are written, and are no longer than the whole. -/
theorem exists_of_mem {w : Written} {ws : List Written} (hw : w ∈ ws) {bytes : List UInt8}
    (h : sequence ws = .ok bytes) : ∃ part, w = .ok part ∧ part.length ≤ bytes.length := by
  induction ws generalizing bytes with
  | nil => cases hw
  | cons first ws ih =>
      cases hfirst : first with
      | error fault => simp [sequence, hfirst, bind, Except.bind] at h
      | ok front =>
          cases hws : sequence ws with
          | error fault => simp [sequence, hfirst, hws, bind, Except.bind] at h
          | ok others =>
              rw [sequence_cons hfirst hws, Except.ok.injEq] at h
              subst h
              rw [List.length_append]
              rcases List.mem_cons.1 hw with rfl | hw
              · exact ⟨front, hfirst, by omega⟩
              · obtain ⟨part, hpart, hle⟩ := ih hw hws
                exact ⟨part, hpart, by omega⟩

theorem exists_of_sequence_cons {w : Written} {ws : List Written} {bytes : List UInt8}
    (h : sequence (w :: ws) = .ok bytes) :
    ∃ front others, w = .ok front ∧ sequence ws = .ok others ∧ bytes = front ++ others := by
  obtain ⟨front, rfl, -⟩ := exists_of_mem List.mem_cons_self h
  cases hws : sequence ws with
  | error fault => simp [sequence, hws, bind, Except.bind] at h
  | ok others =>
      rw [sequence_cons rfl hws, Except.ok.injEq] at h
      exact ⟨front, others, rfl, rfl, h.symm⟩

theorem exists_tail {w : Written} {ws : List Written} {bytes : List UInt8}
    (h : sequence (w :: ws) = .ok bytes) : ∃ others, sequence ws = .ok others := by
  obtain ⟨-, others, -, hws, -⟩ := exists_of_sequence_cons h
  exact ⟨others, hws⟩

/-- There are at least as many bytes as parts, if none of them is empty. -/
theorem length_le_of_pos {ws : List Written} (hpos : ∀ w ∈ ws, 0 < w.size) {bytes : List UInt8}
    (h : sequence ws = .ok bytes) : ws.length ≤ bytes.length := by
  induction ws generalizing bytes with
  | nil => exact Nat.zero_le _
  | cons first ws ih =>
      have hfirst := hpos first List.mem_cons_self
      obtain ⟨front, rfl, -⟩ := exists_of_mem List.mem_cons_self h
      obtain ⟨others, hws⟩ := exists_tail h
      rw [sequence_cons rfl hws, Except.ok.injEq] at h
      subst h
      have hrest := ih (fun w hw => hpos w (List.mem_cons_of_mem _ hw)) hws
      rw [Written.size] at hfirst
      rw [List.length_cons, List.length_append]
      omega

/-- A whole is not empty if its first part is not. -/
theorem size_sequence_pos {w : Written} {ws : List Written} {bytes : List UInt8}
    (h : sequence (w :: ws) = .ok bytes) (hw : 0 < w.size) : 0 < (sequence (w :: ws)).size := by
  obtain ⟨part, rfl, hle⟩ := exists_of_mem List.mem_cons_self h
  rw [h]
  exact Nat.lt_of_lt_of_le hw hle

/-- There are at least as many bytes as elements, if none of them is empty. -/
theorem length_le_size_elements {α : Type} {write : α → Written} {xs : List α}
    (hpos : ∀ x ∈ xs, 0 < (write x).size) {bytes : List UInt8}
    (h : elements write xs = .ok bytes) : xs.length ≤ bytes.length := by
  have hle := length_le_of_pos (List.forall_mem_map.2 hpos) h
  rwa [List.length_map] at hle

theorem size_varint_pos (n : Nat) : 0 < (varint n).size := by
  show 0 < (varintBytes 4 n).length
  unfold varintBytes
  split <;> simp

theorem size_count_pos {n : Nat} (h : n ≤ maxWord) : 0 < (count n).size := by
  rw [count, if_pos h]
  exact size_varint_pos n

/-- Only numbers that are not too great are written. -/
theorem le_of_count {n : Nat} {bytes : List UInt8} (h : count n = .ok bytes) : n ≤ maxWord := by
  by_contra hlong
  rw [count, if_neg hlong] at h
  cases h

/-- Only texts that are not too long are written. -/
theorem length_le_of_string {s : String} {bytes : List UInt8} (h : string s = .ok bytes) :
    (Utf8.encode s).length ≤ maxWord := by
  obtain ⟨front, -, hcount, -⟩ := exists_of_sequence_cons h
  exact le_of_count hcount

theorem size_option_pos {α : Type} {write : α → Written} {x : Option α} {bytes : List UInt8}
    (h : option write x = .ok bytes) : 0 < (option write x).size := by
  cases x with
  | none => exact Nat.one_pos
  | some x => exact size_sequence_pos h Nat.one_pos

theorem size_counted_pos {α : Type} {write : α → Written} {xs : List α} {bytes : List UInt8}
    (h : counted write xs = .ok bytes) : 0 < (counted write xs).size := by
  obtain ⟨part, hpart, -⟩ := exists_of_mem List.mem_cons_self h
  exact size_sequence_pos h (size_count_pos (le_of_count hpart))

end Write

namespace Read

variable {ε α β : Type}

/-- The reader gives what was written, and has read that much. -/
def Restores (item : Read ε α) (w : Written) (x : α) : Prop :=
  ∃ bytes, w = .ok bytes ∧
    ∀ pos rest, item ⟨pos, bytes ++ rest⟩ = (.ok x, ⟨pos + bytes.length, rest⟩)

theorem bind_ok {first : Read ε α} {next : α → Read ε β} {r r' : Reader} {x : α}
    (h : first r = (.ok x, r')) : (first >>= next) r = next x r' := by
  show Read.bind first next r = _
  rw [Read.bind, h]

theorem bind_error {first : Read ε α} {next : α → Read ε β} {r r' : Reader} {e : ε}
    (h : first r = (.error e, r')) : (first >>= next) r = (.error e, r') := by
  show Read.bind first next r = _
  rw [Read.bind, h]

theorem mapFault_ok {δ : Type} {item : Read ε α} {r r' : Reader} {x : α} (f : ε → δ)
    (h : item r = (.ok x, r')) : item.mapFault f r = (.ok x, r') := by
  rw [Read.mapFault, h]

theorem mapFault_error {δ : Type} {item : Read ε α} {r r' : Reader} {e : ε} (f : ε → δ)
    (h : item r = (.error e, r')) : item.mapFault f r = (.error (f e), r') := by
  rw [Read.mapFault, h]

theorem restores_nil {item : Read ε α} {x : α} (h : ∀ r, item r = (.ok x, r)) :
    item.Restores (Write.sequence []) x :=
  ⟨[], rfl, fun _ _ => h _⟩

/-- One part after the other. -/
theorem Restores.bind {first : Read ε α} {next : α → Read ε β} {w : Written} {ws : List Written}
    {x : α} {y : β} (h : first.Restores w x) (hn : (next x).Restores (Write.sequence ws) y) :
    (first >>= next).Restores (Write.sequence (w :: ws)) y := by
  obtain ⟨bytes, rfl, hread⟩ := h
  obtain ⟨others, hw, hothers⟩ := hn
  refine ⟨bytes ++ others, Write.sequence_cons rfl hw, fun pos rest => ?_⟩
  rw [List.append_assoc, bind_ok (hread pos _), hothers, List.length_append, Nat.add_assoc]

/-- A part and what is made of it. -/
theorem Restores.map {first : Read ε α} {next : α → Read ε β} {w : Written} {x : α} {y : β}
    (h : first.Restores w x) (hn : ∀ r, next x r = (.ok y, r)) : (first >>= next).Restores w y := by
  obtain ⟨bytes, rfl, hread⟩ := h
  refine ⟨bytes, rfl, fun pos rest => ?_⟩
  rw [bind_ok (hread pos rest)]
  exact hn _

theorem Restores.mapFault {δ : Type} {item : Read ε α} {w : Written} {x : α} (f : ε → δ)
    (h : item.Restores w x) : (item.mapFault f).Restores w x := by
  obtain ⟨bytes, rfl, hread⟩ := h
  exact ⟨bytes, rfl, fun pos rest => mapFault_ok f (hread pos rest)⟩

theorem restores_times {item : Read ε α} {write : α → Written} {xs : List α}
    (h : ∀ x ∈ xs, item.Restores (write x) x) :
    (item.times xs.length).Restores (Write.elements write xs) xs := by
  induction xs with
  | nil => exact restores_nil fun _ => rfl
  | cons x xs ih =>
      have hrest := ih fun y hy => h y (List.mem_cons_of_mem _ hy)
      show (item >>= fun x => item.times xs.length >>= fun xs => Read.pure (x :: xs)).Restores
        (Write.sequence (write x :: xs.map write)) (x :: xs)
      exact (h x List.mem_cons_self).bind (hrest.map fun _ => rfl)

theorem Restores.size_pos {item : Read ε α} {w : Written} {ws : List Written} {x : α}
    (h : item.Restores (Write.sequence (w :: ws)) x) (hw : 0 < w.size) :
    0 < (Write.sequence (w :: ws)).size := by
  obtain ⟨bytes, hbytes, -⟩ := h
  exact Write.size_sequence_pos hbytes hw

theorem Restores.length_le_size {item : Read ε (List α)} {write : α → Written} {xs : List α}
    (h : item.Restores (Write.elements write xs) xs) (hpos : ∀ x ∈ xs, 0 < (write x).size) :
    xs.length ≤ (Write.elements write xs).size := by
  obtain ⟨bytes, hbytes, -⟩ := h
  rw [hbytes]
  exact Write.length_le_size_elements hpos hbytes

/-! ## Bytes and numbers -/

theorem restores_bytes (bs : List UInt8) : (bytes bs.length).Restores (.ok bs) bs := by
  refine ⟨bs, rfl, fun pos rest => ?_⟩
  rw [bytes, if_pos (by rw [List.length_append]; exact Nat.le_add_right _ _), List.take_left,
    List.drop_left]

theorem restores_byte (b : UInt8) : byte.Restores (.ok [b]) b :=
  ⟨[b], rfl, fun _ _ => rfl⟩

theorem restores_bool (b : Bool) : bool.Restores (Write.bool b) b := by
  cases b with
  | true => exact (restores_byte 1).map fun _ => rfl
  | false => exact (restores_byte 0).map fun _ => rfl

/-- The bytes of a number from the `k`-th on add what is left of it. -/
theorem varintFrom_varintBytes {fuel k : Nat} (hk : k + fuel = 4) {n : Nat}
    (hn : n < 2 ^ (32 - 7 * k)) (acc pos : Nat) (rest : List UInt8) :
    varintFrom k acc pos (Write.varintBytes fuel n ++ rest) =
      (.ok (acc + n * 2 ^ (7 * k)), ⟨pos + (Write.varintBytes fuel n).length, rest⟩) := by
  induction fuel generalizing k n acc pos with
  | zero =>
      obtain rfl : k = 4 := by omega
      have hn : n < 16 := hn
      have hbyte : (UInt8.ofNat (n % 128)).toNat = n := by
        rw [UInt8.toNat_ofNat']
        omega
      simp only [Write.varintBytes, List.singleton_append, varintFrom, hbyte, List.length_singleton]
      rw [if_neg (by omega), if_pos (by omega), Nat.mod_eq_of_lt (by omega : n < 128)]
      rfl
  | succ fuel ih =>
      rw [Write.varintBytes]
      split
      · rename_i hsmall
        have hbyte : (UInt8.ofNat n).toNat = n := by
          rw [UInt8.toNat_ofNat']
          omega
        simp only [List.singleton_append, varintFrom, hbyte, List.length_singleton]
        rw [if_neg (by omega), if_pos hsmall, Nat.mod_eq_of_lt hsmall]
        rfl
      · have hbyte : (UInt8.ofNat (128 + n % 128)).toNat = 128 + n % 128 := by
          rw [UInt8.toNat_ofNat']
          omega
        have hpow : 2 ^ (32 - 7 * k) = 2 ^ (32 - 7 * (k + 1)) * 128 := by
          rw [show 32 - 7 * k = 32 - 7 * (k + 1) + 7 by omega, Nat.pow_add]
        have hmore : n / 128 < 2 ^ (32 - 7 * (k + 1)) := by omega
        have hsum : acc + n % 128 * 2 ^ (7 * k) + n / 128 * 2 ^ (7 * (k + 1)) =
            acc + n * 2 ^ (7 * k) := by
          rw [Nat.mul_add, Nat.pow_add, Nat.add_assoc]
          congr 1
          calc n % 128 * 2 ^ (7 * k) + n / 128 * (2 ^ (7 * k) * 2 ^ (7 * 1))
              = (n % 128 + 128 * (n / 128)) * 2 ^ (7 * k) := by ring
            _ = n * 2 ^ (7 * k) := by rw [Nat.mod_add_div]
        simp only [List.cons_append, varintFrom, hbyte, List.length_cons]
        rw [if_neg (by omega), if_neg (by omega), if_neg (by omega),
          show (128 + n % 128) % 128 = n % 128 by omega]
        refine (ih (by omega) hmore _ _).trans ?_
        rw [show Nat.pow 2 (7 * k) = 2 ^ (7 * k) from rfl, hsum, Nat.add_right_comm, Nat.add_assoc]

theorem restores_varint {n : Nat} (h : n ≤ maxWord) : varint.Restores (Write.varint n) n := by
  refine ⟨Write.varintBytes 4 n, rfl, fun pos rest => ?_⟩
  have hn : n < 2 ^ (32 - 7 * 0) := Nat.lt_succ_of_le h
  rw [varint, varintFrom_varintBytes rfl hn, Nat.mul_zero, Nat.pow_zero, Nat.mul_one, Nat.zero_add]

theorem restores_int {kind : IntKind} {n : Int} (h : kind.Holds n) :
    (int kind).Restores (Write.int kind n) n := by
  have hbytes := restores_bytes (Bytes.ofInt kind n)
  rw [Bytes.ofInt, Bytes.length_ofNat] at hbytes
  refine hbytes.map fun r => ?_
  show (Except.ok (Bytes.intOf kind (Bytes.ofInt kind n)), r) = _
  rw [Bytes.intOf_ofInt h]

/-! ## Parts with a length -/

/-- A number of elements is read if there are enough bytes after it. -/
theorem count_of_varint {r after : Reader} {n : Nat} (h : varint r = (.ok n, after)) :
    count r =
      if after.rest.length < n then (.error (.count n after.rest.length after.pos), after)
      else (.ok n, after) := by
  rw [count, bind_ok h]
  show (if after.rest.length < n then _ else _ : Read ReadFault Nat) after = _
  split <;> rfl

theorem restores_string {s : String} (h : (Utf8.encode s).length ≤ maxWord) :
    string.Restores (Write.string s) s := by
  have hcount : varint.Restores (Write.count (Utf8.encode s).length) (Utf8.encode s).length := by
    rw [Write.count, if_pos h]
    exact restores_varint h
  refine hcount.bind ((restores_bytes _).bind (restores_nil fun r => ?_))
  simp only [Utf8.decode_encode]
  rfl

theorem size_string_pos {s : String} (h : (Utf8.encode s).length ≤ maxWord) :
    0 < (Write.string s).size :=
  (restores_string h).size_pos (Write.size_count_pos h)

theorem restores_optionalString {s : Option String}
    (h : ∀ text ∈ s, (Utf8.encode text).length ≤ maxWord) :
    optionalString.Restores (Write.option Write.string s) s := by
  cases s with
  | none => exact (restores_bool false).map fun _ => rfl
  | some text =>
      exact (restores_bool true).bind
        ((restores_string (h text rfl)).bind (restores_nil fun _ => rfl))

end Read

end BytecodeCoverage
