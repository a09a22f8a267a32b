import BytecodeCoverage.Proofs.Bytes.Indexed

/-!
# One reading after the other

A reader is asked for one thing after the other, and goes on from where it stands when something
could not be read.  Asked for what has been written, in the same order, it gives it back, whatever
bytes follow.  Whatever it is asked for and whatever fails, it never leaves its data and never goes
back.

**Main definitions.**
* `Reading`, `Datum`: what can be asked for, and what is given.
* `Datum.Fits`: what has a written form that is read back.
* `Reading.readAll`: one reading after the other, also after failures.
* `Reading.readAllAt`: the same by position.

**Results.**
* `Datum.restores_read`, `Reading.readAll_written`: what is written is read back.
* `Reading.alike_read`, `Reading.alike_readAll`: reading by position comes to the same.
* `Reading.stays_inside`: the reader stays within its data.
-/

namespace BytecodeCoverage

/-- What a reader can be asked for. -/
inductive Reading
  | int (kind : IntKind)
  | bool
  | varint
  /-- A number of elements. -/
  | count
  | string
  | optionalString
  deriving DecidableEq

/-- What a reader gives. -/
inductive Datum
  | int (kind : IntKind) (n : Int)
  | bool (b : Bool)
  | varint (n : Nat)
  | string (s : String)
  | optionalString (s : Option String)
  deriving DecidableEq

namespace Reading

/-- Reads what is asked for. -/
def read : Reading → Read ReadFault Datum
  | .int kind => Datum.int kind <$> Read.int kind
  | .bool => Datum.bool <$> Read.bool
  | .varint => Datum.varint <$> Read.varint
  | .count => Datum.varint <$> Read.count
  | .string => Datum.string <$> Read.string
  | .optionalString => Datum.optionalString <$> Read.optionalString

/-- One reading after the other, whatever fails: what each of them gives, and where the reader
stands at the end. -/
def readAll : List Reading → Reader → List (Except ReadFault Datum) × Reader
  | [], r => ([], r)
  | reading :: rest, r =>
      let step := reading.read r
      let others := readAll rest step.2
      (step.1 :: others.1, others.2)

end Reading

/-! ## What is written is read back -/

namespace Datum

/-- What is asked for to read it. -/
def reading : Datum → Reading
  | .int kind _ => .int kind
  | .bool _ => .bool
  | .varint _ => .varint
  | .string _ => .string
  | .optionalString _ => .optionalString

/-- Its written form. -/
def written : Datum → Written
  | .int kind n => Write.int kind n
  | .bool b => Write.bool b
  | .varint n => Write.varint n
  | .string s => Write.string s
  | .optionalString s => Write.option Write.string s

/-- Numbers are values of their kinds, and texts have less than `2 ^ 32` bytes. -/
def Fits : Datum → Prop
  | .int kind n => kind.Holds n
  | .bool _ => True
  | .varint n => n < 2 ^ 32
  | .string s => (Utf8.encode s).length < 2 ^ 32
  | .optionalString s => ∀ text ∈ s, (Utf8.encode text).length < 2 ^ 32

theorem restores_map {α β : Type} {item : Read ReadFault α} {w : Written} {x : α} (f : α → β)
    (h : item.Restores w x) : (f <$> item).Restores w (f x) := by
  show (item >>= fun x => Read.pure (f x)).Restores w (f x)
  exact h.map fun _ => rfl

theorem restores_read {d : Datum} (h : d.Fits) : d.reading.read.Restores d.written d := by
  cases d with
  | int kind n => exact restores_map _ (Read.restores_int h)
  | bool b => exact restores_map _ (Read.restores_bool b)
  | varint n => exact restores_map _ (Read.restores_varint (Nat.le_of_lt_succ h))
  | string s => exact restores_map _ (Read.restores_string (Nat.le_of_lt_succ h))
  | optionalString s =>
      exact restores_map _
        (Read.restores_optionalString fun text htext => Nat.le_of_lt_succ (h text htext))

end Datum

namespace Reading

open Datum (written Fits restores_read)

theorem exists_written {data : List Datum} (h : ∀ d ∈ data, d.Fits) :
    ∃ bytes, Write.sequence (data.map written) = .ok bytes ∧ ∀ pos more,
      readAll (data.map Datum.reading) ⟨pos, bytes ++ more⟩ =
        (data.map .ok, ⟨pos + bytes.length, more⟩) := by
  induction data with
  | nil => exact ⟨[], rfl, fun _ _ => rfl⟩
  | cons d data ih =>
      rw [List.forall_mem_cons] at h
      obtain ⟨bytes, hwritten, hread⟩ := restores_read h.1
      obtain ⟨others, hothers, hrest⟩ := ih h.2
      refine ⟨bytes ++ others, Write.sequence_cons hwritten hothers, fun pos more => ?_⟩
      rw [List.map_cons, readAll, List.append_assoc, hread, hrest, List.length_append,
        Nat.add_assoc]
      rfl

/-- What is written, one thing after the other, is read back if it is asked for in the same order,
whatever bytes follow, and the reader then stands right behind what was written. -/
theorem readAll_written {data : List Datum} (h : ∀ d ∈ data, d.Fits) :
    ∃ bytes, Write.sequence (data.map written) = .ok bytes ∧ ∀ more,
      readAll (data.map Datum.reading) (.ofBytes (bytes ++ more)) =
        (data.map .ok, ⟨bytes.length, more⟩) := by
  obtain ⟨bytes, hwritten, hread⟩ := exists_written h
  refine ⟨bytes, hwritten, fun more => ?_⟩
  rw [Reader.ofBytes, hread, Nat.zero_add]

/-- Data of all kinds, negative, greatest and empty ones among them. -/
def mixed : List Datum :=
  [.int .i16 (-2), .int .u64 0xffffffffffffffff, .bool true, .varint 300, .string "é",
    .optionalString none, .optionalString (some "")]

theorem fits_mixed : ∀ d ∈ mixed, d.Fits := by
  have hsigned : IntKind.i16.Holds (-2) := by
    simp [IntKind.Holds, IntKind.isSigned, IntKind.modulus, IntKind.size]
  have hgreatest : IntKind.u64.Holds 0xffffffffffffffff := by
    simp [IntKind.Holds, IntKind.isSigned, IntKind.modulus, IntKind.size]
  simp only [mixed, List.forall_mem_cons, Fits]
  refine ⟨hsigned, hgreatest, trivial, by decide, by decide, nofun, ?_, nofun⟩
  rintro text ⟨⟩
  decide

theorem readAll_written_mixed :
    (∀ d ∈ mixed, d.Fits) ∧
    Write.sequence (mixed.map written) =
      .ok [0xfe, 0xff, 0xff, 0xff, 0xff, 0xff, 0xff, 0xff, 0xff, 0xff, 1, 0xac, 2, 2, 0xc3, 0xa9,
        0, 1, 0] ∧
    ∃ bytes, Write.sequence (mixed.map written) = .ok bytes ∧ ∀ more,
      readAll (mixed.map Datum.reading) (.ofBytes (bytes ++ more)) =
        (mixed.map .ok, ⟨bytes.length, more⟩) :=
  ⟨fits_mixed, rfl, readAll_written fits_mixed⟩

/-! ## The reader stays within its data -/

section Position

variable {data : List UInt8} {pos : Nat}

/-- Reads what is asked for by position. -/
def indexed (data : List UInt8) : Reading → Indexed Datum
  | .int kind => Datum.int kind <$> Indexed.int data kind
  | .bool => Datum.bool <$> Indexed.bool data
  | .varint => Datum.varint <$> Indexed.varint data
  | .count => Datum.varint <$> Indexed.count data
  | .string => Datum.string <$> Indexed.string data
  | .optionalString => Datum.optionalString <$> Indexed.optionalString data

/-- One reading after the other by position, whatever fails. -/
def readAllAt (data : List UInt8) :
    List Reading → Nat → Option (List (Except ReadFault Datum) × Nat)
  | [], pos => some ([], pos)
  | reading :: rest, pos => do
      let (result, pos) ← reading.indexed data pos
      let (results, pos) ← readAllAt data rest pos
      return (result :: results, pos)

theorem alike_map {α β : Type} {item : Read ReadFault α} {itemAt : Indexed α} (f : α → β)
    (h : Read.Alike data pos item itemAt) : Read.Alike data pos (f <$> item) (f <$> itemAt) := by
  show Read.Alike data pos (item >>= fun x => Read.pure (f x))
    (itemAt >>= fun x => Indexed.pure (f x))
  exact h.bind fun _ _ _ _ hstop => Read.alike_pure hstop _

/-- Each reading is the same by position. -/
theorem alike_read (reading : Reading) (hpos : pos ≤ data.length) :
    Read.Alike data pos reading.read (reading.indexed data) := by
  cases reading with
  | int kind => exact alike_map _ (Read.alike_int hpos kind)
  | bool => exact alike_map _ (Read.alike_bool hpos)
  | varint => exact alike_map _ (Read.alike_varint hpos)
  | count => exact alike_map _ (Read.alike_count hpos)
  | string => exact alike_map _ (Read.alike_string hpos)
  | optionalString => exact alike_map _ (Read.alike_optionalString hpos)

/-- And so are all readings one after the other, those after a failure among them. -/
theorem alike_readAll (readings : List Reading) (hpos : pos ≤ data.length) :
    ∃ results stop, readAll readings (.placed data pos) = (results, .placed data stop) ∧
      readAllAt data readings pos = some (results, stop) ∧ pos ≤ stop ∧ stop ≤ data.length := by
  induction readings generalizing pos with
  | nil => exact ⟨[], pos, rfl, rfl, Nat.le_refl pos, hpos⟩
  | cons reading rest ih =>
      obtain ⟨result, middle, hread, hindexed, hle, hmiddle⟩ := alike_read reading hpos
      obtain ⟨results, stop, hrest, hrestAt, hle', hstop⟩ := ih hmiddle
      refine ⟨result :: results, stop, ?_, ?_, hle.trans hle', hstop⟩
      · rw [readAll, hread, hrest]
      · simp only [readAllAt, hindexed, Option.bind_eq_bind, Option.bind_some, hrestAt]
        rfl

section Failures

variable {α β : Type} {item : Read ReadFault α} {r after : Reader}

theorem map_ok (f : α → β) {x : α} (h : item r = (.ok x, after)) :
    (f <$> item) r = (.ok (f x), after) := by
  show (item >>= fun x => Read.pure (f x)) r = _
  rw [Read.bind_ok h]
  rfl

theorem map_error (f : α → β) {fault : ReadFault} (h : item r = (.error fault, after)) :
    (f <$> item) r = (.error fault, after) := by
  show (item >>= fun x => Read.pure (f x)) r = _
  rw [Read.bind_error h]

/-- An integer of fixed size that cannot be read leaves the reader where it is. -/
theorem read_int_error {kind : IntKind} {fault : ReadFault}
    (h : read (.int kind) r = (.error fault, after)) : after = r := by
  by_cases hfits : kind.size ≤ r.rest.length
  · have hbytes : Read.bytes kind.size r = (.ok (r.rest.take kind.size), _) := if_pos hfits
    have hint : Read.int kind r = (.ok _, _) := Read.bind_ok hbytes
    cases h.symm.trans (map_ok _ hint)
  · have hbytes : Read.bytes kind.size r = (.error .beyondEnd, r) := if_neg hfits
    have hint : Read.int kind r = (.error .beyondEnd, r) := Read.bind_error hbytes
    cases h.symm.trans (map_error _ hint)
    rfl

/-- So does a truth value for which there is no byte. -/
theorem read_bool_error {fault : ReadFault} (h : read .bool r = (.error fault, after))
    (hkind : Fault.kind fault = .outOfBounds) : after = r := by
  obtain ⟨pos, rest⟩ := r
  cases rest with
  | nil =>
      cases h
      rfl
  | cons b rest =>
      have hbyte : Read.byte ⟨pos, b :: rest⟩ = (.ok b, ⟨pos + 1, rest⟩) := rfl
      have hbool : Read.bool ⟨pos, b :: rest⟩ = _ := Read.bind_ok hbyte
      by_cases hfalse : b = 0
      · rw [if_pos hfalse] at hbool
        cases h.symm.trans (map_ok _ hbool)
      · by_cases htrue : b = 1
        · rw [if_neg hfalse, if_pos htrue] at hbool
          cases h.symm.trans (map_ok _ hbool)
        · rw [if_neg hfalse, if_neg htrue] at hbool
          have hbool : Read.bool ⟨pos, b :: rest⟩ = (.error (.boolByte b pos), _) := hbool
          cases h.symm.trans (map_error _ hbool)
          cases hkind

end Failures

/-- After any readings, failed ones among them, the reader stands within its data, and all
differences of positions, slices and shifts on the way have had their values.  No further reading
takes it back.  An integer of fixed size that cannot be read leaves it where it is, and so does a
truth value for which there is no byte. -/
theorem stays_inside (data : List UInt8) (readings : List Reading) :
    let past := readAll readings (.ofBytes data)
    (past.2.pos ≤ data.length ∧ past.2.rest = data.drop past.2.pos) ∧
    readAllAt data readings 0 = some (past.1, past.2.pos) ∧
    (∀ next : Reading, past.2.pos ≤ (next.read past.2).2.pos) ∧
    (∀ kind fault after, read (.int kind) past.2 = (.error fault, after) → after = past.2) ∧
    ∀ fault after, read .bool past.2 = (.error fault, after) →
      Fault.kind fault = .outOfBounds → after = past.2 := by
  obtain ⟨results, pos, hpast, hpastAt, -, hpos⟩ := alike_readAll readings (Nat.zero_le data.length)
  have hpast : readAll readings (.ofBytes data) = (results, .placed data pos) := hpast
  rw [hpast]
  refine ⟨⟨hpos, rfl⟩, hpastAt, fun next => ?_, fun _ _ _ => read_int_error,
    fun _ _ => read_bool_error⟩
  obtain ⟨result, stop, hnext, -, hle, -⟩ := alike_read next hpos
  rw [hnext]
  exact hle

/-- A byte that is no truth value has been read by then. -/
example : read .bool (.ofBytes [2, 1]) = (.error (.boolByte 2 0), ⟨1, [1]⟩) :=
  rfl

end Position

end Reading

end BytecodeCoverage
