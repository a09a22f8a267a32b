import BytecodeCoverage.Proofs.Bytes.RoundTrip

/-!
# Accesses to a buffer

An access reads an integer at an offset of a buffer or writes one there.  It takes place if its
bytes are in the buffer and its end is an offset; otherwise it fails.  Bytes other than its own
stay the same, so what has been written can be read until one of its bytes is overwritten, whatever
accesses of other sizes and signs come in between.

A buffer can also be changed byte by byte, where a failure would leave the bytes stored so far
behind.  No access leaves such a thing behind: its end is looked at before its first byte.

**Main definitions.**
* `Bytes.Access.perform`, `Bytes.Access.performAll`: accesses one after the other, failed ones among
  them.
* `Bytes.Access.stepwise`: an access byte by byte.
* `Bytes.Access.Overwrites`: which bytes a write changes.

**Results.**
* `Bytes.Access.stepwise_eq`: byte by byte is the same.
* `Bytes.Access.getElem?_performAll`: bytes that are not overwritten.
* `Bytes.Access.write_isolated`: what an access does and leaves alone, and reading what was
  written.
-/

namespace BytecodeCoverage

namespace Bytes

/-- An access to the integer at an offset. -/
inductive Access
  | read (kind : IntKind) (offset : UInt64)
  | write (kind : IntKind) (offset : UInt64) (n : Int)

/-- What comes of an access: the integer read, if it is a read that takes place, and the buffer and
the offset as the access leaves them. -/
structure Accessed where
  result : Except AccessFault (Option Int)
  buffer : List UInt8
  offset : UInt64

namespace Access

def kind : Access → IntKind
  | .read kind _ | .write kind _ _ => kind

def offset : Access → UInt64
  | .read _ offset | .write _ offset _ => offset

/-- The first place behind the bytes of an access; it need not be an offset. -/
def stop (a : Access) : Nat :=
  a.offset.toNat + a.kind.size

/-- Performs an access. -/
def perform (buffer : List UInt8) : Access → Accessed
  | .read kind offset =>
      match readAt kind buffer offset with
      | .ok (n, stop) => ⟨.ok (some n), buffer, stop⟩
      | .error fault => ⟨.error fault, buffer, offset⟩
  | .write kind offset n =>
      match writeAt kind buffer offset n with
      | .ok (buffer, stop) => ⟨.ok none, buffer, stop⟩
      | .error fault => ⟨.error fault, buffer, offset⟩

/-- The buffer after accesses, whatever comes of them. -/
def performAll (buffer : List UInt8) (accesses : List Access) : List UInt8 :=
  accesses.foldl (fun buffer a => (a.perform buffer).buffer) buffer

/-! ## Byte by byte -/

/-- Stores bytes from a place on, as far as the buffer goes; says whether all are stored. -/
def storeEach : List UInt8 → Nat → List UInt8 → List UInt8 × Bool
  | buffer, _, [] => (buffer, true)
  | buffer, place, b :: rest =>
      if place < buffer.length then storeEach (buffer.set place b) (place + 1) rest
      else (buffer, false)

/-- Loads so many bytes from a place on, if there are as many. -/
def loadEach (buffer : List UInt8) : Nat → Nat → Option (List UInt8)
  | _, 0 => some []
  | place, count + 1 => do
      let b ← buffer[place]?
      let rest ← loadEach buffer (place + 1) count
      return b :: rest

/-- The sum of two offsets, if it is one. -/
def checkedAdd (offset size : UInt64) : Option UInt64 :=
  if offset.toNat + size.toNat < offsetBound then some (offset + size) else none

/-- An access byte by byte.  What has been stored before a failure stays in the buffer. -/
def stepwise (buffer : List UInt8) (a : Access) : Accessed :=
  match checkedAdd a.offset (UInt64.ofNat a.kind.size) with
  | none => ⟨.error .beyondEnd, buffer, a.offset⟩
  | some stop =>
      if buffer.length < stop.toNat then ⟨.error .beyondEnd, buffer, a.offset⟩
      else
        match a with
        | .read kind offset =>
            match loadEach buffer offset.toNat kind.size with
            | some bytes => ⟨.ok (some (intOf kind bytes)), buffer, stop⟩
            | none => ⟨.error .beyondEnd, buffer, offset⟩
        | .write kind offset n =>
            match storeEach buffer offset.toNat (ofInt kind n) with
            | (buffer, true) => ⟨.ok none, buffer, stop⟩
            | (buffer, false) => ⟨.error .beyondEnd, buffer, offset⟩

/-- Bytes for which there is room are all stored. -/
theorem storeEach_eq {buffer bytes : List UInt8} {place : Nat}
    (h : place + bytes.length ≤ buffer.length) :
    storeEach buffer place bytes =
      (buffer.take place ++ bytes ++ buffer.drop (place + bytes.length), true) := by
  induction bytes generalizing buffer place with
  | nil => simp [storeEach]
  | cons b rest ih =>
      rw [List.length_cons] at h ⊢
      have hplace : place < buffer.length := by omega
      have hroom : place + 1 + rest.length ≤ (buffer.set place b).length := by
        rw [List.length_set]
        omega
      have htake : (buffer.set place b).take (place + 1) = buffer.take place ++ [b] := by
        rw [List.take_succ_eq_append_getElem (by rwa [List.length_set]), List.take_set_of_le le_rfl,
          List.getElem_set_self]
      have hdrop : (buffer.set place b).drop (place + 1 + rest.length) =
          buffer.drop (place + (rest.length + 1)) := by
        rw [List.drop_set_of_lt (by omega)]
        congr 1
        omega
      rw [storeEach, if_pos hplace, ih hroom, htake, hdrop, List.append_assoc, List.append_assoc,
        List.append_assoc, List.singleton_append, List.cons_append]

/-- Bytes that are there are all loaded. -/
theorem loadEach_eq {buffer : List UInt8} {place count : Nat}
    (h : place + count ≤ buffer.length) :
    loadEach buffer place count = some ((buffer.drop place).take count) := by
  induction count generalizing place with
  | zero => simp [loadEach]
  | succ count ih =>
      have hplace : place < buffer.length := by omega
      rw [loadEach, ih (by omega), List.getElem?_eq_getElem hplace,
        List.drop_eq_getElem_cons hplace]
      rfl

/-! ## One access -/

/-- The bytes of an access are in the buffer, and its end is an offset. -/
def Fits (a : Access) (buffer : List UInt8) : Prop :=
  a.stop < offsetBound ∧ a.stop ≤ buffer.length

/-- The places of the bytes that an access writes. -/
def Writes (a : Access) (i : Nat) : Prop :=
  match a with
  | .read .. => False
  | .write kind offset _ => offset.toNat ≤ i ∧ i < offset.toNat + kind.size

/-- An access writes a place of a buffer if it takes place. -/
def Overwrites (a : Access) (buffer : List UInt8) (i : Nat) : Prop :=
  a.Fits buffer ∧ a.Writes i

variable {a : Access} {buffer other : List UInt8}

theorem fits_congr (h : buffer.length = other.length) : a.Fits buffer ↔ a.Fits other := by
  rw [Fits, Fits, h]

theorem overwrites_congr (h : buffer.length = other.length) (i : Nat) :
    a.Overwrites buffer i ↔ a.Overwrites other i := by
  rw [Overwrites, Overwrites, fits_congr h]

theorem toNat_ofNat_stop (h : a.stop < offsetBound) :
    (UInt64.ofNat a.stop).toNat = a.stop := by
  rw [UInt64.toNat_ofNat']
  exact Nat.mod_eq_of_lt h

section Outcomes

variable {kind : IntKind} {offset : UInt64} {n : Int}

/-- A read that takes place gives the number that its bytes spell. -/
theorem perform_read (h : (read kind offset).Fits buffer) :
    (read kind offset).perform buffer =
      ⟨.ok (some (intOf kind ((buffer.drop offset.toNat).take kind.size))), buffer,
        UInt64.ofNat (read kind offset).stop⟩ := by
  have hend : endOf? buffer offset kind.size = some _ := if_pos h
  simp only [perform, readAt, hend]
  rfl

/-- A write that takes place replaces its bytes. -/
theorem perform_write (h : (write kind offset n).Fits buffer) :
    (write kind offset n).perform buffer =
      ⟨.ok none,
        buffer.take offset.toNat ++ ofInt kind n ++ buffer.drop (offset.toNat + kind.size),
        UInt64.ofNat (write kind offset n).stop⟩ := by
  have hend : endOf? buffer offset kind.size = some _ := if_pos h
  simp only [perform, writeAt, hend]
  rfl

/-- All other accesses fail. -/
theorem perform_of_not_fits (h : ¬ a.Fits buffer) :
    a.perform buffer = ⟨.error .beyondEnd, buffer, a.offset⟩ := by
  cases a with
  | read kind offset =>
      have hend : endOf? buffer offset kind.size = none := if_neg h
      simp only [perform, readAt, hend]
      rfl
  | write kind offset n =>
      have hend : endOf? buffer offset kind.size = none := if_neg h
      simp only [perform, writeAt, hend]
      rfl

theorem length_ofInt : (ofInt kind n).length = kind.size :=
  length_ofNat _ _

theorem checkedAdd_size (a : Access) :
    checkedAdd a.offset (UInt64.ofNat a.kind.size) =
      if a.stop < offsetBound then some (UInt64.ofNat a.stop) else none := by
  have hsize : (UInt64.ofNat a.kind.size).toNat = a.kind.size := by cases a.kind <;> rfl
  have hsum : a.offset + UInt64.ofNat a.kind.size = UInt64.ofNat a.stop := by
    rw [stop, UInt64.ofNat_add, UInt64.ofNat_toNat]
  rw [checkedAdd, hsize, hsum, stop]

/-- An access that takes place does all of it byte by byte, and one that fails has not begun. -/
theorem stepwise_eq (a : Access) (buffer : List UInt8) : a.stepwise buffer = a.perform buffer := by
  by_cases hfits : a.Fits buffer
  · rw [stepwise, checkedAdd_size, if_pos hfits.1]
    dsimp only
    rw [toNat_ofNat_stop hfits.1, if_neg (Nat.not_lt.2 hfits.2)]
    cases a with
    | read kind offset =>
        have hload : loadEach buffer offset.toNat kind.size = some _ := loadEach_eq hfits.2
        rw [perform_read hfits]
        dsimp only
        rw [hload]
    | write kind offset n =>
        have hroom : offset.toNat + (ofInt kind n).length ≤ buffer.length := by
          rw [length_ofInt]
          exact hfits.2
        rw [perform_write hfits]
        dsimp only
        rw [storeEach_eq hroom, length_ofInt]
  · rw [perform_of_not_fits hfits, stepwise, checkedAdd_size]
    by_cases hbound : a.stop < offsetBound
    · rw [if_pos hbound]
      dsimp only
      rw [toNat_ofNat_stop hbound, if_pos (Nat.not_le.1 fun hle => hfits ⟨hbound, hle⟩)]
    · rw [if_neg hbound]

end Outcomes

/-! ## What stays the same -/

theorem length_perform (a : Access) (buffer : List UInt8) :
    (a.perform buffer).buffer.length = buffer.length := by
  by_cases hfits : a.Fits buffer
  · cases a with
    | read kind offset => rw [perform_read hfits]
    | write kind offset n =>
        have hle : offset.toNat + kind.size ≤ buffer.length := hfits.2
        rw [perform_write hfits]
        simp only [List.length_append, List.length_take, List.length_drop, length_ofInt]
        omega
  · rw [perform_of_not_fits hfits]

/-- An access changes no byte but those that it writes. -/
theorem getElem?_perform {i : Nat} (h : ¬ a.Overwrites buffer i) :
    (a.perform buffer).buffer[i]? = buffer[i]? := by
  by_cases hfits : a.Fits buffer
  · cases a with
    | read kind offset => rw [perform_read hfits]
    | write kind offset n =>
        have hle : offset.toNat + kind.size ≤ buffer.length := hfits.2
        have hi : ¬ (offset.toNat ≤ i ∧ i < offset.toNat + kind.size) := fun hi => h ⟨hfits, hi⟩
        rw [perform_write hfits]
        dsimp only
        rcases Nat.lt_or_ge i offset.toNat with hbefore | hafter
        · rw [List.append_assoc, List.getElem?_append_left (by rw [List.length_take]; omega),
            List.getElem?_take_of_lt hbefore]
        · rw [List.getElem?_append_right (by
              rw [List.length_append, List.length_take, length_ofInt]
              omega), List.getElem?_drop]
          congr 1
          rw [List.length_append, List.length_take, length_ofInt]
          omega
  · rw [perform_of_not_fits hfits]

theorem length_performAll (accesses : List Access) (buffer : List UInt8) :
    (performAll buffer accesses).length = buffer.length := by
  induction accesses generalizing buffer with
  | nil => rfl
  | cons a rest ih => rw [performAll, List.foldl_cons, ← performAll, ih, length_perform]

/-- Accesses change no byte but those that one of them writes. -/
theorem getElem?_performAll {accesses : List Access} {i : Nat}
    (h : ∀ a ∈ accesses, ¬ a.Overwrites buffer i) :
    (performAll buffer accesses)[i]? = buffer[i]? := by
  induction accesses generalizing buffer with
  | nil => rfl
  | cons a rest ih =>
      have hrest : ∀ b ∈ rest, ¬ b.Overwrites (a.perform buffer).buffer i := by
        intro b hb hover
        exact h b (.tail a hb) ((overwrites_congr (length_perform a buffer) i).1 hover)
      rw [performAll, List.foldl_cons, ← performAll, ih hrest,
        getElem?_perform (h a List.mem_cons_self)]

/-- A slice is made up of its bytes. -/
theorem drop_take_congr {start count : Nat}
    (h : ∀ i, start ≤ i → i < start + count → buffer[i]? = other[i]?) :
    (buffer.drop start).take count = (other.drop start).take count := by
  refine List.ext_getElem? fun k => ?_
  rw [List.getElem?_take, List.getElem?_take]
  split
  · rw [List.getElem?_drop, List.getElem?_drop, h _ (Nat.le_add_right _ _) (by omega)]
  · rfl

/-- The bytes of a write are those written. -/
theorem slice_perform_write {kind : IntKind} {offset : UInt64} {n : Int}
    (h : (write kind offset n).Fits buffer) :
    (((write kind offset n).perform buffer).buffer.drop offset.toNat).take kind.size =
      ofInt kind n := by
  have hle : offset.toNat + kind.size ≤ buffer.length := h.2
  have hfront : (buffer.take offset.toNat).length = offset.toNat := by
    rw [List.length_take]
    omega
  rw [perform_write h]
  dsimp only
  rw [List.append_assoc, List.drop_left' hfront, List.take_left' length_ofInt]

/-- An integer that has been written is read again, unless one of its bytes has been overwritten. -/
theorem perform_read_write {kind : IntKind} {offset : UInt64} {n : Int} {between : List Access}
    (hn : kind.Holds n) (hfits : (write kind offset n).Fits buffer)
    (hbetween : ∀ i, (write kind offset n).Writes i → ∀ b ∈ between, ¬ b.Overwrites buffer i) :
    (read kind offset).perform
        (performAll buffer (write kind offset n :: between)) =
      ⟨.ok (some n), performAll buffer (write kind offset n :: between),
        UInt64.ofNat (write kind offset n).stop⟩ := by
  have hlength := length_perform (write kind offset n) buffer
  have hall := length_performAll (write kind offset n :: between) buffer
  have hslice : ((performAll buffer (write kind offset n :: between)).drop offset.toNat).take
      kind.size = ofInt kind n := by
    rw [← slice_perform_write hfits]
    refine drop_take_congr fun i hle hlt => ?_
    exact getElem?_performAll fun b hb hover =>
      hbetween i ⟨hle, hlt⟩ b hb ((overwrites_congr hlength i).1 hover)
  have hread : (read kind offset).Fits (performAll buffer (write kind offset n :: between)) :=
    (fits_congr hall).2 hfits
  rw [perform_read hread, hslice, intOf_ofInt hn]
  rfl

/-- Whatever accesses have come before, an access takes place just if its bytes are in the buffer
and its end is an offset.  It then advances the offset by its size and leaves the length of the
buffer and all bytes alone but those that it writes; byte by byte it is the same.  An access that
fails changes nothing.  An integer that has been written is read again as long as no other write
has taken place at one of its bytes. -/
theorem write_isolated (buffer : List UInt8) (before : List Access) (a : Access) :
    let found := performAll buffer before
    let done := a.perform found
    a.stepwise found = done ∧
    ((∃ x, done.result = .ok x) ↔ a.stop < offsetBound ∧ a.stop ≤ found.length) ∧
    (∀ x, done.result = .ok x →
      done.offset.toNat = a.offset.toNat + a.kind.size ∧ done.buffer.length = found.length ∧
      ∀ i, ¬ a.Writes i → done.buffer[i]? = found[i]?) ∧
    (∀ fault, done.result = .error fault → done.buffer = found ∧ done.offset = a.offset) ∧
    ∀ kind offset n between, a = write kind offset n → kind.Holds n →
      (∃ x, done.result = .ok x) →
      (∀ i, a.Writes i → ∀ b ∈ between, ¬ b.Overwrites found i) →
      let later := performAll done.buffer between
      (read kind offset).perform later = ⟨.ok (some n), later, done.offset⟩ := by
  intro found done
  have hok : (∃ x, done.result = .ok x) ↔ a.Fits found := by
    by_cases hfits : a.Fits found
    · cases a <;> simp [done, hfits, perform_read, perform_write]
    · simp [done, hfits, perform_of_not_fits]
  refine ⟨a.stepwise_eq found, hok, fun x hx => ?_, fun fault hfault => ?_, ?_⟩
  · have hfits := hok.1 ⟨x, hx⟩
    have hoffset : done.offset = UInt64.ofNat a.stop := by
      cases a <;> simp [done, hfits, perform_read, perform_write]
    refine ⟨hoffset ▸ toNat_ofNat_stop hfits.1, a.length_perform found, fun i hi => ?_⟩
    exact getElem?_perform fun hover => hi hover.2
  · by_cases hfits : a.Fits found
    · obtain ⟨x, hx⟩ := hok.2 hfits
      cases hx.symm.trans hfault
    · simp [done, perform_of_not_fits hfits]
  · rintro kind offset n between rfl hn hdone hbetween
    have hfits := hok.1 hdone
    have hoffset : done.offset = UInt64.ofNat (write kind offset n).stop := by
      simp [done, perform_write hfits]
    rw [hoffset]
    exact perform_read_write hn hfits hbetween

/-- An end that is no offset does not come around to the start of the buffer. -/
example : (write .u32 0xfffffffffffffffe 7).perform [1, 2, 3] =
    ⟨.error .beyondEnd, [1, 2, 3], 0xfffffffffffffffe⟩ :=
  rfl

end Access

end Bytes

end BytecodeCoverage
