import BytecodeCoverage.Proofs.Bytes.Ensuring

/-!
# Reading by position

A reader holds the bytes before it.  It can do with a position in all of the data instead, at the
price of operations that do not always have a value: a difference of positions may be negative, a
slice may leave the data, and a word is not to be shifted by all of its bits.  Whatever is read from
a position within the data, each of these operations has its value, both ways of reading give the
same, and the position after it is within the data and not before the old one.

**Main definitions.**
* `Reader.placed`: the reader that stands at a position.
* `Indexed`: readers by position.
* `Read.Alike`: both ways of reading come to the same.

**Results.**
* `Read.Alike.bind`: parts.
* `Read.alike_int` to `Read.alike_optionalString`: all that can be read.
-/

namespace BytecodeCoverage

/-- The reader that stands at a position of the data. -/
def Reader.placed (data : List UInt8) (pos : Nat) : Reader :=
  ⟨pos, data.drop pos⟩

/-- The difference of two positions, unless it is negative. -/
def difference? (m n : Nat) : Option Nat :=
  if n ≤ m then some (m - n) else none

/-- The bytes from one position to another, if both are in the data in this order. -/
def slice? (data : List UInt8) (start stop : Nat) : Option (List UInt8) :=
  if start ≤ stop ∧ stop ≤ data.length then some ((data.take stop).drop start) else none

/-- A word shifted by fewer bits than it has. -/
def shiftLeft? (word : UInt32) (shift : Nat) : Option UInt32 :=
  if shift < 32 then some (word <<< UInt32.ofNat shift) else none

/-- Something that can be read by position: what it gives, and the position after it.  There is
nothing if an operation has no value. -/
def Indexed (α : Type) : Type :=
  Nat → Option (Except ReadFault α × Nat)

namespace Indexed

section Steps

variable {α β : Type}

def pure (x : α) : Indexed α :=
  fun pos => some (.ok x, pos)

def bind (first : Indexed α) (next : α → Indexed β) : Indexed β :=
  fun pos =>
    match first pos with
    | some (.ok x, pos) => next x pos
    | some (.error e, pos) => some (.error e, pos)
    | none => none

instance : Monad Indexed where
  pure := Indexed.pure
  bind := Indexed.bind

def fail (e : ReadFault) : Indexed α :=
  fun pos => some (.error e, pos)

def position : Indexed Nat :=
  fun pos => some (.ok pos, pos)

def moveTo (pos : Nat) : Indexed Unit :=
  fun _ => some (.ok (), pos)

/-- The value of an operation. -/
def value (operation : Option α) : Indexed α :=
  fun pos => operation.map fun x => (.ok x, pos)

theorem bind_ok {first : Indexed α} {next : α → Indexed β} {x : α} {pos stop : Nat}
    (h : first pos = some (.ok x, stop)) : (first >>= next) pos = next x stop := by
  show Indexed.bind first next pos = _
  rw [Indexed.bind, h]

theorem bind_error {first : Indexed α} {next : α → Indexed β} {e : ReadFault} {pos stop : Nat}
    (h : first pos = some (.error e, stop)) : (first >>= next) pos = some (.error e, stop) := by
  show Indexed.bind first next pos = _
  rw [Indexed.bind, h]

end Steps

variable (data : List UInt8)

/-- The next bytes. -/
def next (n : Nat) : Indexed (List UInt8) := do
  let pos ← position
  let bs ← value (slice? data pos (pos + n))
  moveTo (pos + n)
  return bs

/-- A field of fixed size. -/
def field (size : Nat) : Indexed (List UInt8) := do
  let pos ← position
  if data.length < pos + size then fail .beyondEnd
  else next data size

def int (kind : IntKind) : Indexed Int := do
  let bs ← field data kind.size
  return Bytes.intOf kind bs

/-- A field of one byte. -/
def byte : Indexed UInt8 := do
  match ← field data 1 with
  | [b] => return b
  | _ => fail .beyondEnd

def bool : Indexed Bool := do
  let b ← byte data
  if b = 0 then return false
  else if b = 1 then return true
  else
    let pos ← position
    let offset ← value (difference? pos 1)
    fail (.boolByte b offset)

/-- The bytes of a number from one on whose bits are shifted so far, which adds them to the bits of
a word. -/
def varintFrom (shift : Nat) (word : UInt32) (pos : Nat) : Option (Except ReadFault Nat × Nat) :=
  if h : pos < data.length then
    if shift = 28 ∧ data[pos] &&& 0x70 ≠ 0 then
      (difference? (pos + 1) 1).map fun offset => (.error (.overflow offset), pos + 1)
    else
      (shiftLeft? (data[pos] &&& 0x7f).toUInt32 shift).bind fun bits =>
        if data[pos] &&& 0x80 = 0 then some (.ok (word ||| bits).toNat, pos + 1)
        else if 32 ≤ shift + 7 then some (.error (.tooLong (shift + 7)), pos + 1)
        else varintFrom (shift + 7) (word ||| bits) (pos + 1)
  else some (.error .beyondEnd, pos)
termination_by data.length - pos

def varint : Indexed Nat :=
  varintFrom data 0 0

/-- The number of bytes left. -/
def remaining : Indexed Nat := do
  let pos ← position
  value (difference? data.length pos)

def count : Indexed Nat := do
  let n ← varint data
  let left ← remaining data
  if left < n then
    let pos ← position
    fail (.count n left pos)
  else return n

/-- So many of the bytes left. -/
def stretch (n : Nat) : Indexed (List UInt8) := do
  let left ← remaining data
  if left < n then fail .beyondEnd
  else next data n

def string : Indexed String := do
  let n ← varint data
  let bs ← stretch data n
  let stop ← position
  match Utf8.decode bs with
  | .ok s => return s
  | .error defect =>
      let start ← value (difference? stop n)
      fail (.text start stop defect)

def optionalString : Indexed (Option String) := do
  if ← bool data then
    let s ← string data
    return some s
  else return none

end Indexed

namespace Read

variable {α β : Type} {data : List UInt8} {pos : Nat}

/-- From a position on, a reader and reading by position give the same and end up at the same
position, which is within the data and not before the old one. -/
def Alike (data : List UInt8) (pos : Nat) (item : Read ReadFault α) (indexed : Indexed α) : Prop :=
  ∃ result stop, item (.placed data pos) = (result, .placed data stop) ∧
    indexed pos = some (result, stop) ∧ pos ≤ stop ∧ stop ≤ data.length

theorem alike_pure (hpos : pos ≤ data.length) (x : α) :
    Alike data pos (pure x) (Indexed.pure x) :=
  ⟨.ok x, pos, rfl, rfl, Nat.le_refl pos, hpos⟩

theorem alike_fail (hpos : pos ≤ data.length) (e : ReadFault) :
    Alike data pos (fail e : Read ReadFault α) (Indexed.fail e) :=
  ⟨.error e, pos, rfl, rfl, Nat.le_refl pos, hpos⟩

/-- Parts are read one after the other. -/
theorem Alike.bind {first : Read ReadFault α} {next : α → Read ReadFault β}
    {firstAt : Indexed α} {nextAt : α → Indexed β} (h : Alike data pos first firstAt)
    (hnext : ∀ x stop, first (.placed data pos) = (.ok x, .placed data stop) → pos ≤ stop →
      stop ≤ data.length → Alike data stop (next x) (nextAt x)) :
    Alike data pos (first >>= next) (firstAt >>= nextAt) := by
  obtain ⟨result, middle, hfirst, hfirstAt, hle, hmiddle⟩ := h
  cases result with
  | ok x =>
      obtain ⟨result, stop, hrest, hrestAt, hle', hstop⟩ := hnext x middle hfirst hle hmiddle
      refine ⟨result, stop, ?_, ?_, hle.trans hle', hstop⟩
      · rw [bind_ok hfirst, hrest]
      · rw [Indexed.bind_ok hfirstAt, hrestAt]
  | error e =>
      exact ⟨.error e, middle, bind_error hfirst, Indexed.bind_error hfirstAt, hle, hmiddle⟩

theorem Alike.ite {p : Prop} [Decidable p] {item other : Read ReadFault α}
    {indexed otherAt : Indexed α} (h : p → Alike data pos item indexed)
    (hother : ¬p → Alike data pos other otherAt) :
    Alike data pos (if p then item else other) (if p then indexed else otherAt) := by
  split
  · rename_i hp
    exact h hp
  · rename_i hp
    exact hother hp

theorem Alike.position_bind {next : Nat → Read ReadFault β} {nextAt : Nat → Indexed β}
    (h : Alike data pos (next pos) (nextAt pos)) :
    Alike data pos (position >>= next) (Indexed.position >>= nextAt) :=
  h

/-- An operation that has a value only gives this value. -/
theorem value_some_bind (x : α) (next : α → Indexed β) :
    (Indexed.value (some x) >>= next) = next x :=
  rfl

theorem difference?_of_le {m n : Nat} (h : n ≤ m) : difference? m n = some (m - n) :=
  if_pos h

theorem slice?_of_le {n : Nat} (h : pos + n ≤ data.length) :
    slice? data pos (pos + n) = some ((data.drop pos).take n) := by
  rw [slice?, if_pos ⟨Nat.le_add_right pos n, h⟩, List.drop_take, Nat.add_sub_cancel_left]

theorem remaining_eq (hpos : pos ≤ data.length) :
    Indexed.remaining data pos = some (.ok (data.length - pos), pos) := by
  show (difference? data.length pos).map _ = _
  rw [difference?_of_le hpos]
  rfl

theorem alike_remaining (hpos : pos ≤ data.length) :
    Alike data pos remaining (Indexed.remaining data) := by
  refine ⟨.ok (data.length - pos), pos, ?_, remaining_eq hpos, Nat.le_refl pos, hpos⟩
  rw [remaining, Reader.placed, List.length_drop]

/-! ## Bytes and numbers -/

/-- The bytes that a reader takes are those up to the position where it stands afterwards. -/
theorem bytes_placed {n : Nat} (h : pos + n ≤ data.length) :
    bytes n (.placed data pos) = (.ok ((data.drop pos).take n), .placed data (pos + n)) := by
  rw [bytes, Reader.placed, if_pos (by rw [List.length_drop]; omega), Reader.placed, List.drop_drop]

theorem bytes_placed_of_lt {n : Nat} (hpos : pos ≤ data.length) (h : data.length < pos + n) :
    bytes n (.placed data pos) = (.error .beyondEnd, .placed data pos) := by
  rw [bytes, Reader.placed, if_neg (by rw [List.length_drop]; omega)]

theorem next_eq {n : Nat} (h : pos + n ≤ data.length) :
    Indexed.next data n pos = some (.ok ((data.drop pos).take n), pos + n) := by
  show (Indexed.value (slice? data pos (pos + n)) >>= fun bs =>
    Indexed.moveTo (pos + n) >>= fun _ => Indexed.pure bs) pos = _
  rw [slice?_of_le h]
  rfl

/-- The next bytes may be asked for if there are enough of them, and otherwise nothing is read. -/
theorem alike_bytes {n : Nat} {indexed : Indexed (List UInt8)} (hpos : pos ≤ data.length)
    (hfits : pos + n ≤ data.length → indexed pos = Indexed.next data n pos)
    (hshort : data.length < pos + n → indexed pos = some (.error .beyondEnd, pos)) :
    Alike data pos (bytes n) indexed := by
  rcases Nat.lt_or_ge data.length (pos + n) with h | h
  · exact ⟨_, pos, bytes_placed_of_lt hpos h, hshort h, Nat.le_refl pos, hpos⟩
  · exact ⟨_, pos + n, bytes_placed h, (hfits h).trans (next_eq h), Nat.le_add_right pos n, h⟩

theorem alike_field (hpos : pos ≤ data.length) (n : Nat) :
    Alike data pos (bytes n) (Indexed.field data n) := by
  have hfield : Indexed.field data n pos =
      (if data.length < pos + n then Indexed.fail .beyondEnd else Indexed.next data n) pos := rfl
  refine alike_bytes hpos (fun h => ?_) fun h => ?_
  · rw [hfield, if_neg (Nat.not_lt.2 h)]
  · rw [hfield, if_pos h]
    rfl

theorem alike_stretch (hpos : pos ≤ data.length) (n : Nat) :
    Alike data pos (bytes n) (Indexed.stretch data n) := by
  refine alike_bytes hpos (fun h => ?_) fun h => ?_
  · rw [Indexed.stretch, Indexed.bind_ok (remaining_eq hpos), if_neg (by omega)]
  · rw [Indexed.stretch, Indexed.bind_ok (remaining_eq hpos), if_pos (by omega)]
    rfl

theorem alike_int (hpos : pos ≤ data.length) (kind : IntKind) :
    Alike data pos (int kind) (Indexed.int data kind) :=
  (alike_field hpos kind.size).bind fun _ _ _ _ hstop => alike_pure hstop _

/-- A byte is a field of one byte. -/
theorem byte_eq : byte = bytes 1 >>= fun bs => match bs with
    | [b] => pure b
    | _ => fail .beyondEnd := by
  funext ⟨pos, rest⟩
  cases rest <;> rfl

theorem alike_byte (hpos : pos ≤ data.length) : Alike data pos byte (Indexed.byte data) := by
  rw [byte_eq]
  refine (alike_field hpos 1).bind fun bs _ _ _ hstop => ?_
  split
  · exact alike_pure hstop _
  · exact alike_fail hstop _

/-- A reader has gone on by the bytes that it took. -/
theorem eq_add_of_drop {used : List UInt8} {stop : Nat}
    (h : data.drop pos = used ++ data.drop stop) (hpos : pos ≤ data.length)
    (hstop : stop ≤ data.length) : stop = pos + used.length := by
  have hlength := congrArg List.length h
  rw [List.length_append, List.length_drop, List.length_drop] at hlength
  omega

theorem alike_bool (hpos : pos ≤ data.length) : Alike data pos bool (Indexed.bool data) := by
  refine (alike_byte hpos).bind fun b stop hread _ hstop => .ite (fun _ => alike_pure hstop _)
    fun _ => .ite (fun _ => alike_pure hstop _) fun _ => .position_bind ?_
  have hone : 1 ≤ stop := by
    obtain ⟨used, hused, hlength⟩ := ensures_byte (List.drop_suffix pos data) hread
    rw [eq_add_of_drop hused hpos hstop, hlength]
    exact Nat.le_add_left 1 pos
  rw [difference?_of_le hone, value_some_bind]
  exact alike_fail hstop _

/-! ## Numbers of variable length -/

theorem and_high_eq_zero (b : UInt8) : b &&& 0x80 = 0 ↔ b.toNat < 128 := by
  have h : ∀ n < 256, n &&& 0x80 = 0 ↔ n < 128 := by decide +kernel
  rw [← UInt8.toNat_inj, UInt8.toNat_and]
  exact h _ b.toNat_lt

theorem and_excess_eq_zero (b : UInt8) : b &&& 0x70 = 0 ↔ b.toNat / 16 % 8 = 0 := by
  have h : ∀ n < 256, n &&& 0x70 = 0 ↔ n / 16 % 8 = 0 := by decide +kernel
  rw [← UInt8.toNat_inj, UInt8.toNat_and]
  exact h _ b.toNat_lt

theorem toNat_and_low (b : UInt8) : (b &&& 0x7f).toUInt32.toNat = b.toNat % 128 := by
  rw [UInt8.toNat_toUInt32, UInt8.toNat_and]
  exact Nat.and_two_pow_sub_one_eq_mod b.toNat 7

/-- The bits of a byte have room in a word, and do not meet those of the bytes before. -/
theorem toNat_or_shift {word bits : UInt32} {k : Nat} (hk : k ≤ 4)
    (hword : word.toNat < 2 ^ (7 * k)) (hbits : bits.toNat < 2 ^ (32 - 7 * k)) :
    (word ||| bits <<< UInt32.ofNat (7 * k)).toNat = word.toNat + bits.toNat * 2 ^ (7 * k) := by
  have hshift : (UInt32.ofNat (7 * k)).toNat % 32 = 7 * k := by
    rw [UInt32.toNat_ofNat']
    omega
  have hfits : bits.toNat * 2 ^ (7 * k) < 2 ^ 32 := by
    calc bits.toNat * 2 ^ (7 * k) < 2 ^ (32 - 7 * k) * 2 ^ (7 * k) :=
          Nat.mul_lt_mul_of_pos_right hbits (Nat.two_pow_pos _)
      _ = 2 ^ 32 := by rw [← Nat.pow_add, Nat.sub_add_cancel (by omega)]
  rw [UInt32.toNat_or, UInt32.toNat_shiftLeft, hshift, Nat.shiftLeft_eq, Nat.mod_eq_of_lt hfits,
    Nat.mul_comm, Nat.or_comm, ← Nat.two_pow_add_eq_or_of_lt hword, Nat.add_comm]

/-- What the next byte does, in numbers instead of bits. -/
theorem varintFrom_eq {k : Nat} (hk : k ≤ 4) (word : UInt32) (hlt : pos < data.length) :
    Indexed.varintFrom data (7 * k) word pos =
      let sum := word ||| (data[pos] &&& 0x7f).toUInt32 <<< UInt32.ofNat (7 * k)
      if k = 4 ∧ data[pos].toNat / 16 % 8 ≠ 0 then some (.error (.overflow pos), pos + 1)
      else if data[pos].toNat < 128 then some (.ok sum.toNat, pos + 1)
      else if 4 ≤ k then some (.error (.tooLong (7 * (k + 1))), pos + 1)
      else Indexed.varintFrom data (7 * (k + 1)) sum (pos + 1) := by
  have hfifth : 7 * k = 28 ↔ k = 4 := by omega
  have hfull : 32 ≤ 7 * k + 7 ↔ 4 ≤ k := by omega
  rw [Indexed.varintFrom, dif_pos hlt, difference?_of_le (Nat.le_add_left 1 pos),
    shiftLeft?, if_pos (by omega : 7 * k < 32)]
  simp only [ne_eq, and_excess_eq_zero, and_high_eq_zero, hfifth, hfull, Nat.mul_add, Nat.mul_one,
    Option.map_some, Option.bind_some, Nat.add_sub_cancel]

/-- A byte adds seven bits to a number, and the fifth one no more than four. -/
theorem bits_lt {k n : Nat} (hk : k ≤ 4) (hsmall : k = 4 → n % 128 < 16) :
    n % 128 < 2 ^ (32 - 7 * k) := by
  rcases Nat.lt_or_eq_of_le hk with hlt | rfl
  · have hseven : 7 ≤ 32 - 7 * k := by omega
    exact Nat.lt_of_lt_of_le (Nat.mod_lt n (by decide)) (Nat.pow_le_pow_right Nat.two_pos hseven)
  · exact hsmall rfl

/-- One byte after the other adds the same to a word by its bits as to a number. -/
theorem alike_varintFrom {k : Nat} {word : UInt32} (hk : k ≤ 4) (hword : word.toNat < 2 ^ (7 * k))
    (hpos : pos ≤ data.length) :
    Alike data pos (fun r => varintFrom k word.toNat r.pos r.rest)
      (Indexed.varintFrom data (7 * k) word) := by
  -- By induction on the bytes left: the word has what those before add up to in its lowest bits,
  -- so that the bits of the next byte are free.
  induction hrest : data.drop pos generalizing k word pos with
  | nil =>
      have hend : data.length ≤ pos := List.drop_eq_nil_iff.1 hrest
      refine ⟨.error .beyondEnd, pos, ?_, ?_, Nat.le_refl pos, hpos⟩
      · show varintFrom k word.toNat pos (data.drop pos) = (_, ⟨pos, data.drop pos⟩)
        rw [hrest]
        rfl
      · rw [Indexed.varintFrom, dif_neg (Nat.not_lt.2 hend)]
  | cons b rest ih =>
      have hlt : pos < data.length := by
        by_contra hend
        rw [List.drop_eq_nil_iff.2 (Nat.not_lt.1 hend)] at hrest
        cases hrest
      obtain ⟨rfl, rfl⟩ := List.cons.inj ((List.drop_eq_getElem_cons hlt).symm.trans hrest)
      have hle := Nat.le_add_right pos 1
      show ∃ result stop, varintFrom k word.toNat pos (data.drop pos) = (result, _) ∧ _
      rw [hrest, varintFrom, varintFrom_eq hk word hlt]
      dsimp only
      split
      · exact ⟨_, pos + 1, rfl, rfl, hle, hlt⟩
      · rename_i hfits
        have hbits := bits_lt (n := data[pos].toNat) hk (by omega)
        have hsum := toNat_or_shift hk hword ((toNat_and_low data[pos]).symm ▸ hbits)
        rw [toNat_and_low] at hsum
        have hroom := add_bits_lt hword data[pos].toNat
        rw [← hsum] at hroom
        rw [show Nat.pow 2 (7 * k) = 2 ^ (7 * k) from rfl, ← hsum]
        split
        · exact ⟨_, pos + 1, rfl, rfl, hle, hlt⟩
        · split
          · exact ⟨_, pos + 1, rfl, rfl, hle, hlt⟩
          · obtain ⟨result, stop, hread, hindexed, hle', hstop⟩ := ih (by omega) hroom hlt rfl
            exact ⟨result, stop, hread, hindexed, hle.trans hle', hstop⟩

theorem alike_varint (hpos : pos ≤ data.length) : Alike data pos varint (Indexed.varint data) := by
  have hzero : (0 : UInt32).toNat < 2 ^ (7 * 0) := Nat.one_pos
  exact alike_varintFrom (Nat.zero_le 4) hzero hpos

theorem alike_count (hpos : pos ≤ data.length) : Alike data pos count (Indexed.count data) :=
  (alike_varint hpos).bind fun _ _ _ _ hstop =>
    (alike_remaining hstop).bind fun _ _ _ _ hstop =>
      .ite (fun _ => .position_bind (alike_fail hstop _)) fun _ => alike_pure hstop _

/-! ## Texts -/

theorem alike_string (hpos : pos ≤ data.length) : Alike data pos string (Indexed.string data) := by
  refine (alike_varint hpos).bind fun n middle _ _ hmiddle =>
    (alike_stretch hmiddle n).bind fun bs stop hread _ hstop => .position_bind ?_
  have hlength : n ≤ stop := by
    obtain ⟨used, hused, -, hlength⟩ := ensures_bytes n (List.drop_suffix middle data) hread
    rw [eq_add_of_drop hused hmiddle hstop, hlength]
    exact Nat.le_add_left n middle
  cases Utf8.decode bs with
  | ok s => exact alike_pure hstop s
  | error defect =>
      show Alike data stop (fail _) (Indexed.value (difference? stop n) >>= _)
      rw [difference?_of_le hlength, value_some_bind]
      exact alike_fail hstop _

theorem alike_optionalString (hpos : pos ≤ data.length) :
    Alike data pos optionalString (Indexed.optionalString data) :=
  (alike_bool hpos).bind fun _ _ _ _ hstop =>
    .ite (fun _ => (alike_string hstop).bind fun _ _ _ _ hstop => alike_pure hstop _) fun _ =>
      alike_pure hstop _

end Read

end BytecodeCoverage
