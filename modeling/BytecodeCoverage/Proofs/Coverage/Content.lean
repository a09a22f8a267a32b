import BytecodeCoverage.Coverage.Decoding
import BytecodeCoverage.Proofs.Bytes.Extending

/-!
# What is read of a snapshot

Bytes are read as a snapshot if its content can be read from them and nothing is left.  Each part of
the content is read in the same way if more bytes follow, so bytes that are read as a snapshot are
not read as one any more if something is put after them.

**Main definitions.**
* `Decode.content`: everything of a snapshot up to its end.

**Results.**
* `Snapshot.decode_eq_ok`: the content and the end.
* `Decode.stable_content`: more bytes change nothing about the content.
* `Snapshot.decode_append`: more bytes are too many.
-/

namespace BytecodeCoverage

theorem Read.bind_assoc {ε α β γ : Type} (first : Read ε α) (second : α → Read ε β)
    (third : β → Read ε γ) :
    first >>= second >>= third = first >>= fun x => second x >>= third := by
  funext r
  cases h : first r with
  | mk result after =>
      cases result with
      | ok x =>
          rw [bind_ok h]
          show Read.bind (Read.bind first second) third r = Read.bind (second x) third after
          rw [Read.bind, Read.bind, Read.bind, h]
      | error e =>
          rw [bind_error h, bind_error (bind_error h)]

namespace Decode

/-- A snapshot, whatever stands after it. -/
def content : Get Snapshot := do
  exactly Snapshot.magic
  let version ← plain Read.byte
  if version ≠ Snapshot.version then Read.fail (.version version)
  else
    let mode ← mode
    let n ← plain Read.count
    classes n { mode }

/-- Nothing may stand after a snapshot. -/
def ended (s : Snapshot) : Get Snapshot := do
  let left ← Read.remaining
  if left = 0 then return s else Read.fail (.trailing left)

theorem snapshot_eq : snapshot = content >>= ended := by
  rw [content, Read.bind_assoc]
  refine congrArg (exactly Snapshot.magic >>= ·) (funext fun _ => ?_)
  rw [Read.bind_assoc]
  refine congrArg (plain Read.byte >>= ·) (funext fun version => ?_)
  split
  · rfl
  · rw [Read.bind_assoc]
    refine congrArg (mode >>= ·) (funext fun mode => ?_)
    rw [Read.bind_assoc]
    rfl

theorem ended_apply (s : Snapshot) (r : Reader) :
    ended s r = if r.rest = [] then (.ok s, r) else (.error (.trailing r.rest.length), r) := by
  show (if r.rest.length = 0 then _ else _ : Get Snapshot) r = _
  simp only [List.length_eq_zero_iff]
  split <;> rfl

/-! ## More bytes -/

variable {α : Type} {item : Get α}

theorem stable_plain {item : Read ReadFault α} (h : item.Stable) : (plain item).Stable :=
  h.mapFault _

theorem stable_nat : nat.Stable :=
  stable_plain Read.stable_varint

theorem stable_word : word.Stable :=
  stable_nat.bind fun _ => Read.stable_pure _

theorem stable_counted (h : item.Stable) : (counted item).Stable :=
  (stable_plain Read.stable_count).bind h.times

theorem stable_option (h : item.Stable) : (option item).Stable :=
  (stable_plain Read.stable_bool).bind fun _ =>
    .ite (h.bind fun _ => Read.stable_pure _) (Read.stable_pure _)

theorem stable_slot (slotCount : Nat) : (slot slotCount).Stable :=
  stable_nat.bind fun _ => .ite (Read.stable_pure _) (Read.stable_fail _)

theorem stable_jump (slotCount : Nat) : (jump slotCount).Stable :=
  (stable_slot slotCount).bind fun _ => (stable_slot slotCount).bind fun _ =>
    stable_word.bind fun _ => stable_word.bind fun _ => Read.stable_pure _

theorem stable_key : key.Stable :=
  (stable_plain (Read.stable_int .i32)).bind fun _ => Read.stable_pure _

theorem stable_switch (slotCount : Nat) : (switch slotCount).Stable :=
  (stable_plain Read.stable_count).bind fun n => (stable_key.times n).bind fun _ =>
    ((stable_slot slotCount).times n).bind fun _ => (stable_word.times n).bind fun _ =>
    (stable_option (stable_slot slotCount)).bind fun _ => stable_word.bind fun _ =>
    Read.stable_pure _

theorem stable_method (methods : List String) : (method methods).Stable := by
  refine (stable_plain Read.stable_count).bind fun index => ?_
  split
  · exact Read.stable_pure _
  · exact Read.stable_fail _

theorem stable_line (methods : List String) (slotCount : Nat) : (line methods slotCount).Stable :=
  stable_word.bind fun _ => (stable_method methods).bind fun _ =>
    (stable_slot slotCount).bind fun _ => stable_word.bind fun _ =>
    (stable_option stable_nat).bind fun _ => (stable_counted (stable_jump slotCount)).bind fun _ =>
    (stable_counted (stable_switch slotCount)).bind fun _ => Read.stable_pure _

theorem stable_lines (className : String) (methods : List String) (slotCount n : Nat)
    (known : SortedMap UInt32 LineRecord) :
    (lines className methods slotCount n known).Stable := by
  induction n generalizing known with
  | zero => exact Read.stable_pure known
  | succ n ih => exact (stable_line methods slotCount).bind fun _ => .ite (Read.stable_fail _) (ih _)

theorem stable_file : file.Stable :=
  stable_word.bind fun _ => (stable_plain Read.stable_string).bind fun _ =>
    (stable_plain Read.stable_optionalString).bind fun _ => Read.stable_pure _

theorem stable_range : range.Stable :=
  stable_word.bind fun _ => stable_word.bind fun _ => stable_word.bind fun _ =>
    stable_word.bind fun _ => stable_word.bind fun _ => Read.stable_pure _

theorem stable_sourceMap : sourceMap.Stable :=
  (stable_plain Read.stable_string).bind fun _ => (stable_plain Read.stable_string).bind fun _ =>
    (stable_counted stable_file).bind fun _ => (stable_counted stable_range).bind fun _ =>
    Read.stable_pure _

theorem stable_classRecord : classRecord.Stable :=
  (stable_plain Read.stable_string).bind fun _ =>
    (stable_plain Read.stable_optionalString).bind fun _ =>
    (stable_plain Read.stable_bool).bind fun _ => stable_nat.bind fun _ =>
    (stable_counted stable_word).bind fun _ =>
    (stable_option (stable_counted (stable_plain Read.stable_bool))).bind fun _ =>
    (stable_counted (stable_plain Read.stable_string)).bind fun _ =>
    (stable_plain Read.stable_count).bind fun _ => (stable_lines _ _ _ _ _).bind fun _ =>
    (stable_option stable_sourceMap).bind fun _ => Read.stable_pure _

theorem stable_classes (n : Nat) (s : Snapshot) : (classes n s).Stable := by
  induction n generalizing s with
  | zero => exact Read.stable_pure s
  | succ n ih => exact stable_classRecord.bind fun _ => .ite (Read.stable_fail _) (ih _)

theorem stable_exactly (expected : List UInt8) : (exactly expected).Stable := by
  induction expected with
  | nil => exact Read.stable_pure ()
  | cons b expected ih =>
      exact (stable_plain Read.stable_byte).bind fun _ => .ite ih (Read.stable_fail _)

theorem stable_mode : mode.Stable :=
  (stable_plain Read.stable_byte).bind fun _ => .ite (Read.stable_pure _) (Read.stable_fail _)

theorem stable_content : content.Stable :=
  (stable_exactly Snapshot.magic).bind fun _ => (stable_plain Read.stable_byte).bind fun _ =>
    .ite (Read.stable_fail _) (stable_mode.bind fun _ => (stable_plain Read.stable_count).bind fun _ =>
      stable_classes _ _)

end Decode

/-! ## Snapshots -/

namespace Snapshot

variable {data more : List UInt8} {s : Snapshot}

/-- What becomes of bytes that begin with a snapshot. -/
theorem decode_of_content {r : Reader} (h : Decode.content (.ofBytes data) = (.ok s, r)) :
    decode data = if r.rest = [] then .ok s else .error (.trailing r.rest.length) := by
  have hdata : data.isEmpty = false := by
    cases data with
    | nil => cases h
    | cons b rest => rfl
  rw [decode, hdata, if_neg Bool.false_ne_true, Decode.snapshot_eq, Read.bind_ok h,
    Decode.ended_apply]
  exact apply_ite Prod.fst _ _ _

/-- Bytes are a snapshot if they are its content and nothing more. -/
theorem decode_eq_ok :
    decode data = .ok s ↔ ∃ pos, Decode.content (.ofBytes data) = (.ok s, ⟨pos, []⟩) := by
  constructor
  · intro h
    cases hcontent : Decode.content (.ofBytes data) with
    | mk result r =>
        cases result with
        | ok t =>
            rw [decode_of_content hcontent] at h
            split at h
            · rename_i hend
              cases h
              exact ⟨r.pos, congrArg (Prod.mk _) (congrArg (Reader.mk r.pos) hend)⟩
            · cases h
        | error fault =>
            have hread : Decode.snapshot (.ofBytes data) = (.error fault, r) := by
              rw [Decode.snapshot_eq, Read.bind_error hcontent]
            rw [decode, hread] at h
            split at h <;> cases h
  · rintro ⟨pos, h⟩
    rw [decode_of_content h, if_pos rfl]

/-- After a snapshot there may be nothing. -/
theorem decode_append (h : decode data = .ok s) (hmore : more ≠ []) :
    decode (data ++ more) = .error (.trailing more.length) := by
  obtain ⟨pos, hcontent⟩ := decode_eq_ok.1 h
  have hextended : Decode.content (.ofBytes (data ++ more)) = (.ok s, ⟨pos, more⟩) :=
    Decode.stable_content hcontent more
  rw [decode_of_content hextended, if_neg hmore]

end Snapshot

end BytecodeCoverage
