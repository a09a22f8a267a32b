import BytecodeCoverage.Proofs.Bytes.Utf8
import BytecodeCoverage.Proofs.Class.Grammar

/-!
# Reading descriptors by byte offsets

Descriptors can also be read by byte offsets into the UTF-8 form of the text.  Single bytes may be
looked at anywhere, but a piece of the text may only be cut out between characters.  The readers of
this module give nothing if they cut inside a character.  They never do: an offset moves on over
characters of one byte and over whole class names only, so it always stands where a rest of the text
begins.

**Main definitions.**
* `Text.dropBytes?`, `Text.takeBytes?`: pieces of a text, cut out at byte offsets.
* `MethodDescriptor.parseAt?`: the reader by byte offsets.

**Results.**
* `FieldType.readAt?_offset`, `MethodDescriptor.readParamsAt?_offset`: the readers at the offset of
  a rest.
* `MethodDescriptor.parseAt?_eq`: no text is cut inside a character.
* `MethodDescriptor.parse_eq_ok_iff`: the texts that are descriptors.
-/

namespace BytecodeCoverage

/-! ## Bytes of texts -/

namespace Text

/-- The bytes of a text. -/
def bytes (cs : List Char) : List UInt8 :=
  cs.flatMap String.utf8EncodeChar

/-- The number of bytes of a text. -/
def size (cs : List Char) : Nat :=
  (bytes cs).length

/-- The text from a byte offset on; nothing if the offset is beyond the end or in a character. -/
def dropBytes? (offset : Nat) : List Char → Option (List Char)
  | [] => if offset = 0 then some [] else none
  | c :: cs =>
      if offset = 0 then some (c :: cs)
      else if c.utf8Size ≤ offset then dropBytes? (offset - c.utf8Size) cs
      else none

/-- The text before a byte offset; nothing if the offset is beyond the end or in a character. -/
def takeBytes? (offset : Nat) : List Char → Option (List Char)
  | [] => if offset = 0 then some [] else none
  | c :: cs =>
      if offset = 0 then some []
      else if c.utf8Size ≤ offset then (takeBytes? (offset - c.utf8Size) cs).map (c :: ·)
      else none

/-- The byte offset of the first occurrence of a character. -/
def byteIndex? (sep : Char) : List Char → Option Nat
  | [] => none
  | c :: cs => if c = sep then some 0 else (byteIndex? sep cs).map (· + c.utf8Size)

@[simp] theorem size_nil : size [] = 0 :=
  rfl

@[simp] theorem size_cons (c : Char) (cs : List Char) : size (c :: cs) = c.utf8Size + size cs := by
  simp [size, bytes]

@[simp] theorem size_append (before after : List Char) :
    size (before ++ after) = size before + size after := by
  simp [size, bytes]

theorem lt_size_of_getElem? {cs : List Char} {offset : Nat} {byte : UInt8}
    (h : (bytes cs)[offset]? = some byte) : offset < size cs :=
  (List.getElem?_eq_some_iff.1 h).1

theorem dropBytes?_append (before after : List Char) :
    dropBytes? (size before) (before ++ after) = some after := by
  induction before with
  | nil => cases after <;> rfl
  | cons c before ih =>
      have hpos := c.utf8Size_pos
      rw [List.cons_append, dropBytes?, size_cons, if_neg (by omega), if_pos (by omega),
        Nat.add_sub_cancel_left, ih]

theorem takeBytes?_append (before after : List Char) :
    takeBytes? (size before) (before ++ after) = some before := by
  induction before with
  | nil => cases after <;> rfl
  | cons c before ih =>
      have hpos := c.utf8Size_pos
      rw [List.cons_append, takeBytes?, size_cons, if_neg (by omega), if_pos (by omega),
        Nat.add_sub_cancel_left, ih, Option.map_some]

theorem byteIndex?_append {sep : Char} {before : List Char} (h : sep ∉ before)
    (after : List Char) : byteIndex? sep (before ++ sep :: after) = some (size before) := by
  induction before with
  | nil => simp [byteIndex?]
  | cons c before ih =>
      rw [List.mem_cons, not_or] at h
      rw [List.cons_append, byteIndex?, if_neg (Ne.symm h.1), ih h.2, Option.map_some, size_cons,
        Nat.add_comm]

theorem byteIndex?_eq_none {sep : Char} {cs : List Char} (h : sep ∉ cs) :
    byteIndex? sep cs = none := by
  induction cs with
  | nil => rfl
  | cons c cs ih =>
      rw [List.mem_cons, not_or] at h
      rw [byteIndex?, if_neg (Ne.symm h.1), ih h.2, Option.map_none]

end Text

namespace FieldType

open Text (bytes size dropBytes? takeBytes? byteIndex?)

theorem utf8EncodeChar_eq_cons (c : Char) :
    ∃ tail, String.utf8EncodeChar c = leadByte c :: tail := by
  have hlength := String.length_utf8EncodeChar c
  have hpos := c.utf8Size_pos
  unfold leadByte
  cases hbytes : String.utf8EncodeChar c with
  | nil =>
      rw [hbytes, List.length_nil] at hlength
      omega
  | cons lead tail => exact ⟨tail, rfl⟩

theorem toNat_leadByte {c : Char} (h : c.toNat < 128) : (leadByte c).toNat = c.toNat := by
  have hone : c.val.toNat ≤ 127 := Nat.le_of_lt_succ h
  unfold leadByte String.utf8EncodeChar
  rw [if_pos hone, List.headD_cons]
  exact UInt8.toNat_ofNat_of_lt' (Nat.lt_trans h (by decide))

/-- A longer character starts with a byte that is no character of its own. -/
theorem le_toNat_leadByte {c : Char} (h : 128 ≤ c.toNat) : 128 ≤ (leadByte c).toNat := by
  have hlong : ¬c.val.toNat ≤ 127 := Nat.not_le.2 h
  unfold leadByte String.utf8EncodeChar
  rw [if_neg hlong]
  split
  · rw [List.headD_cons, UInt8.toNat_ofNat']
    omega
  · split <;> rw [List.headD_cons, UInt8.toNat_ofNat'] <;> omega

/-- A character of one byte is told by its first byte. -/
theorem eq_of_leadByte {c d : Char} (h : Char.ofNat (leadByte c).toNat = d) (hd : d.toNat < 128) :
    c = d := by
  have hbyte : (leadByte c).toNat < 256 := (leadByte c).toNat_lt
  have hlead : (leadByte c).toNat = d.toNat := by
    rw [← h, Utf8.toNat_ofNat (.inl (by omega))]
  have hc : c.toNat < 128 := by
    refine Nat.lt_of_not_le fun hlong => ?_
    have := le_toNat_leadByte hlong
    omega
  rw [toNat_leadByte hc] at hlead
  exact Char.toNat_inj.1 hlead

/-! ## The readers -/

/-- What was read, with a byte offset in place of the rest; nothing if the text was cut inside a
character. -/
abbrev Placed (α : Type) : Type :=
  Option (Except DescriptorFault (α × Nat))

/-- Reads one type whose first byte is known. The text goes on at `offset`, and `component` is the
type that would be read there. -/
def readTagged? (whole : String) (offset : Nat) (tag : UInt8) (component : Placed FieldType) :
    Placed FieldType :=
  match Char.ofNat tag.toNat with
  | 'Z' => some (.ok (.boolean, offset))
  | 'B' => some (.ok (.byte, offset))
  | 'C' => some (.ok (.char, offset))
  | 'S' => some (.ok (.short, offset))
  | 'I' => some (.ok (.int, offset))
  | 'J' => some (.ok (.long, offset))
  | 'F' => some (.ok (.float, offset))
  | 'D' => some (.ok (.double, offset))
  | 'L' =>
      (dropBytes? offset whole.toList).bind fun rest =>
        match byteIndex? ';' rest with
        | none => some (.error (.unterminated whole))
        | some stop =>
            (takeBytes? stop rest).map fun name =>
              .ok (.object (String.ofList name), offset + stop + 1)
  | '[' => component.map (Except.map fun (type, next) => (.array type, next))
  | _ => some (.error (.badTag tag whole))

/-- Reads one type at a byte offset. -/
def readAt? (whole : String) (offset : Nat) : Placed FieldType :=
  match _h : (bytes whole.toList)[offset]? with
  | none => some (.error .ended)
  | some tag => readTagged? whole (offset + 1) tag (readAt? whole (offset + 1))
termination_by size whole.toList - offset
decreasing_by
  have := Text.lt_size_of_getElem? _h
  omega

/-- Reading moves on. -/
theorem le_of_readTagged? {whole : String} {offset next : Nat} {tag : UInt8}
    {component : Placed FieldType} {type : FieldType}
    (hcomponent : ∀ type next, component = some (.ok (type, next)) → offset ≤ next)
    (h : readTagged? whole offset tag component = some (.ok (type, next))) : offset ≤ next := by
  unfold readTagged? at h
  split at h
  case h_9 =>
      obtain ⟨rest, -, hrest⟩ := Option.bind_eq_some_iff.1 h
      split at hrest
      · cases hrest
      · obtain ⟨name, -, hname⟩ := Option.map_eq_some_iff.1 hrest
        cases hname
        omega
  case h_10 =>
      obtain ⟨found, hread, hfound⟩ := Option.map_eq_some_iff.1 h
      cases found with
      | error fault => cases hfound
      | ok found =>
          cases hfound
          exact hcomponent _ _ hread
  case h_11 => cases h
  all_goals
    cases h
    exact Nat.le_refl _

theorem lt_of_readAt? {whole : String} {offset next : Nat} {type : FieldType}
    (h : readAt? whole offset = some (.ok (type, next))) :
    offset < next ∧ offset < size whole.toList := by
  fun_induction readAt? whole offset generalizing type next with
  | case1 => cases h
  | case2 offset tag htag ih =>
      exact ⟨le_of_readTagged? (fun _ _ hread => Nat.le_of_lt (ih hread).1) h,
        Text.lt_size_of_getElem? htag⟩

/-- The byte offset at which a rest of the text begins. -/
def offsetOf (whole : String) (rest : List Char) : Nat :=
  size whole.toList - size rest

section Offsets

variable {whole : String} {c : Char} {cs rest : List Char}

theorem offsetOf_eq_size {before : List Char} (h : before ++ rest = whole.toList) :
    offsetOf whole rest = size before := by
  rw [offsetOf, ← h, Text.size_append, Nat.add_sub_cancel]

/-- The offset moves on by the bytes in between. -/
theorem offsetOf_append {between : List Char} (h : between ++ rest <:+ whole.toList) :
    offsetOf whole rest = offsetOf whole (between ++ rest) + size between := by
  obtain ⟨before, hbefore⟩ := h
  have hrest : (before ++ between) ++ rest = whole.toList := by rw [List.append_assoc, hbefore]
  rw [offsetOf_eq_size hbefore, offsetOf_eq_size hrest, Text.size_append]

theorem offsetOf_cons (h : c :: rest <:+ whole.toList) :
    offsetOf whole rest = offsetOf whole (c :: rest) + c.utf8Size := by
  have hone : [c] ++ rest <:+ whole.toList := h
  rw [offsetOf_append hone, Text.size_cons, Text.size_nil]
  rfl

theorem dropBytes?_offset (h : rest <:+ whole.toList) :
    dropBytes? (offsetOf whole rest) whole.toList = some rest := by
  obtain ⟨before, hbefore⟩ := h
  rw [offsetOf_eq_size hbefore, ← hbefore, Text.dropBytes?_append]

/-- Where a rest begins stands the first byte of its first character. -/
theorem getElem?_offset (h : c :: rest <:+ whole.toList) :
    (bytes whole.toList)[offsetOf whole (c :: rest)]? = some (leadByte c) := by
  obtain ⟨before, hbefore⟩ := h
  obtain ⟨tail, htail⟩ := utf8EncodeChar_eq_cons c
  rw [offsetOf_eq_size hbefore, ← hbefore, bytes, List.flatMap_append, List.flatMap_cons, htail]
  exact (List.getElem?_append_right (Nat.le_refl _)).trans (by simp)

theorem getElem?_offset_nil : (bytes whole.toList)[offsetOf whole []]? = none := by
  rw [List.getElem?_eq_none_iff]
  exact Nat.le_refl _

theorem suffix_of_read {type : FieldType} (hread : read whole cs = .ok (type, rest)) :
    rest <:+ cs :=
  ⟨type.chars, (chars_of_read hread).2.symm⟩

/-- What was read, with the offset of the rest in place of the rest. -/
def placed {α : Type} (whole : String) (found : Except DescriptorFault (α × List Char)) :
    Placed α :=
  some (found.map fun (result, rest) => (result, offsetOf whole rest))

theorem readAt?_nil : readAt? whole (offsetOf whole []) = some (.error .ended) := by
  rw [readAt?]
  split
  · rfl
  · rename_i htag
    rw [getElem?_offset_nil] at htag
    cases htag

theorem readAt?_cons (h : c :: rest <:+ whole.toList) :
    readAt? whole (offsetOf whole (c :: rest)) =
      readTagged? whole (offsetOf whole (c :: rest) + 1) (leadByte c)
        (readAt? whole (offsetOf whole (c :: rest) + 1)) := by
  rw [readAt?]
  split <;> rename_i htag <;> rw [getElem?_offset h] at htag <;> cases htag
  rfl

theorem readTagged?_object {name : List Char} (hname : ';' ∉ name)
    (h : name ++ ';' :: rest <:+ whole.toList) (component : Placed FieldType) :
    readTagged? whole (offsetOf whole (name ++ ';' :: rest)) (leadByte 'L') component =
      some (.ok (.object (String.ofList name), offsetOf whole rest)) := by
  have hnext : offsetOf whole rest = offsetOf whole (name ++ ';' :: rest) + size name + 1 := by
    have hrest : ';' :: rest <:+ whole.toList := (List.suffix_append _ _).trans h
    rw [offsetOf_cons hrest, offsetOf_append h]
    rfl
  change (dropBytes? _ whole.toList).bind _ = _
  rw [dropBytes?_offset h, Option.bind_some, Text.byteIndex?_append hname]
  simp only [Text.takeBytes?_append, Option.map_some, hnext]

theorem readTagged?_unterminated (hcs : ';' ∉ cs) (h : cs <:+ whole.toList)
    (component : Placed FieldType) :
    readTagged? whole (offsetOf whole cs) (leadByte 'L') component =
      some (.error (.unterminated whole)) := by
  change (dropBytes? _ whole.toList).bind _ = _
  rw [dropBytes?_offset h, Option.bind_some, Text.byteIndex?_eq_none hcs]

/-- Reading at the offset of a rest is reading the rest. -/
theorem readAt?_offset (h : cs <:+ whole.toList) :
    readAt? whole (offsetOf whole cs) = placed whole (read whole cs) := by
  fun_induction read whole cs with
  | case1 => exact readAt?_nil
  | case10 cs name rest hname =>
      obtain ⟨rfl, hplain⟩ := Text.cutAt?_eq_some_iff.1 hname
      have hnext : offsetOf whole _ = offsetOf whole ('L' :: _) + 1 := offsetOf_cons h
      rw [readAt?_cons h, ← hnext]
      exact readTagged?_object hplain ((List.suffix_cons _ _).trans h) _
  | case11 cs hnone =>
      have hnext : offsetOf whole cs = offsetOf whole ('L' :: cs) + 1 := offsetOf_cons h
      rw [readAt?_cons h, ← hnext]
      exact readTagged?_unterminated (Text.cutAt?_eq_none_iff.1 hnone)
        ((List.suffix_cons _ _).trans h) _
  | case12 cs ih =>
      have hcs : cs <:+ whole.toList := (List.suffix_cons _ _).trans h
      have hnext : offsetOf whole cs = offsetOf whole ('[' :: cs) + 1 := offsetOf_cons h
      rw [readAt?_cons h, ← hnext, ih hcs]
      cases read whole cs <;> rfl
  | case13 c rest =>
      rw [readAt?_cons h]
      unfold readTagged?
      split
      case h_11 => rfl
      all_goals
        rename_i htag
        exact absurd (eq_of_leadByte htag (by decide)) (by assumption)
  | _ rest =>
      rw [readAt?_cons h]
      exact congrArg (fun next => some (Except.ok (_, next))) (offsetOf_cons h).symm

end Offsets

end FieldType

namespace MethodDescriptor

open FieldType (Placed readAt? leadByte offsetOf placed)

/-- Reads types from a byte offset up to the closing parenthesis. -/
def readParamsAt? (whole : String) (offset : Nat) : Placed (List FieldType) :=
  match (Text.bytes whole.toList)[offset]? with
  | none => some (.error .ended)
  | some tag =>
      if Char.ofNat tag.toNat = ')' then some (.ok ([], offset + 1))
      else
        match _h : readAt? whole offset with
        | none => none
        | some (.error fault) => some (.error fault)
        | some (.ok (type, next)) =>
            (readParamsAt? whole next).map (Except.map fun (types, last) => (type :: types, last))
termination_by Text.size whole.toList - offset
decreasing_by
  have := FieldType.lt_of_readAt? _h
  omega

/-- Reads the result at a byte offset. -/
def readResultAt? (whole : String) (offset : Nat) : Placed (Option FieldType) :=
  if (Text.bytes whole.toList)[offset]? = some (leadByte 'V') then some (.ok (none, offset + 1))
  else (readAt? whole offset).map (Except.map fun (type, next) => (some type, next))

/-- Reads a descriptor by byte offsets; nothing if the text is cut inside a character. -/
def parseAt? (whole : String) : Option (Except DescriptorFault MethodDescriptor) :=
  if whole.toList.head? = some '(' then
    match readParamsAt? whole 1 with
    | none => none
    | some (.error fault) => some (.error fault)
    | some (.ok (params, offset)) =>
        match readResultAt? whole offset with
        | none => none
        | some (.error fault) => some (.error fault)
        | some (.ok (result, offset)) =>
            if offset = Text.size whole.toList then some (.ok ⟨params, result⟩)
            else some (.error (.trailing whole))
  else some (.error (.noOpening whole))

variable {whole : String} {cs rest : List Char}

theorem ne_closing_of_ne {c : Char} (h : ¬c = ')') : ¬Char.ofNat (leadByte c).toNat = ')' :=
  fun heq => h (FieldType.eq_of_leadByte heq (by decide))

theorem readParamsAt?_offset (h : cs <:+ whole.toList) :
    readParamsAt? whole (offsetOf whole cs) = placed whole (readParams whole cs) := by
  fun_induction readParams whole cs with
  | case1 =>
      rw [readParamsAt?, FieldType.getElem?_offset_nil]
      rfl
  | case2 rest =>
      have hnext : offsetOf whole rest = offsetOf whole (')' :: rest) + 1 :=
        FieldType.offsetOf_cons h
      rw [readParamsAt?, FieldType.getElem?_offset h]
      exact congrArg (fun next => some (Except.ok ([], next))) hnext.symm
  | case3 c cs hclosing fault hread =>
      have hat := FieldType.readAt?_offset h
      rw [readParamsAt?, FieldType.getElem?_offset h]
      simp only [ne_closing_of_ne hclosing, if_false]
      rw [hread] at hat
      split <;> rename_i heq <;> rw [hat] at heq <;> cases heq
      rfl
  | case4 c cs hclosing type rest hread ih =>
      have hat := FieldType.readAt?_offset h
      rw [readParamsAt?, FieldType.getElem?_offset h]
      simp only [ne_closing_of_ne hclosing, if_false]
      rw [hread] at hat
      split <;> rename_i heq <;> rw [hat] at heq <;> cases heq
      rw [ih ((FieldType.suffix_of_read hread).trans h)]
      cases readParams whole rest <;> rfl

theorem readResultAt?_offset (h : cs <:+ whole.toList) :
    readResultAt? whole (offsetOf whole cs) = placed whole (readResult whole cs) := by
  unfold readResult
  split
  · rename_i rest
    have hnext : offsetOf whole rest = offsetOf whole ('V' :: rest) + 1 :=
      FieldType.offsetOf_cons h
    rw [readResultAt?, if_pos (FieldType.getElem?_offset h)]
    exact congrArg (fun next => some (Except.ok (none, next))) hnext.symm
  · rename_i hvoid
    rw [readResultAt?, if_neg, FieldType.readAt?_offset h]
    · cases FieldType.read whole cs <;> rfl
    · intro htag
      cases cs with
      | nil =>
          rw [FieldType.getElem?_offset_nil] at htag
          cases htag
      | cons c rest =>
          rw [FieldType.getElem?_offset h, Option.some.injEq] at htag
          have hc : Char.ofNat (leadByte c).toNat = 'V' := by
            rw [htag]
            rfl
          exact hvoid rest (by rw [FieldType.eq_of_leadByte hc (by decide)])

theorem suffix_of_readParams {types : List FieldType}
    (h : readParams whole cs = .ok (types, rest)) :
    rest <:+ cs := by
  rw [(chars_of_readParams h).2]
  exact (List.suffix_cons _ _).trans (List.suffix_append _ _)

theorem suffix_of_readResult {result : Option FieldType}
    (h : readResult whole cs = .ok (result, rest)) : rest <:+ cs :=
  ⟨resultChars result, (readResult_eq_ok_iff.1 h).2.symm⟩

/-- The end of the text is the offset of the empty rest only. -/
theorem offsetOf_eq_size_iff (h : rest <:+ whole.toList) :
    offsetOf whole rest = Text.size whole.toList ↔ rest = [] := by
  cases rest with
  | nil => simp [offsetOf]
  | cons c rest =>
      have hlt := Text.lt_size_of_getElem? (FieldType.getElem?_offset h)
      exact iff_of_false (Nat.ne_of_lt hlt) (List.cons_ne_nil _ _)

/-- Reading by byte offsets is reading by characters, so no text is cut inside a character. -/
theorem parseAt?_eq (whole : String) : parseAt? whole = some (parse whole) := by
  unfold parseAt? parse
  split
  · rename_i hfirst
    obtain ⟨cs, hwhole⟩ := List.head?_eq_some_iff.1 hfirst
    have hopening : ['('] ++ cs = whole.toList := hwhole.symm
    have hcs : cs <:+ whole.toList := ⟨_, hopening⟩
    have hone : offsetOf whole cs = 1 := FieldType.offsetOf_eq_size hopening
    rw [← hone, readParamsAt?_offset hcs]
    simp only [hwhole]
    cases hparams : readParams whole cs with
    | error fault => rfl
    | ok found =>
        obtain ⟨params, rest⟩ := found
        have hrest := (suffix_of_readParams hparams).trans hcs
        have hresultAt := readResultAt?_offset hrest
        simp only [placed, Except.map, bind, Except.bind] at hresultAt ⊢
        rw [hresultAt]
        cases hresult : readResult whole rest with
        | error fault => rfl
        | ok found =>
            obtain ⟨result, left⟩ := found
            have hleft := (suffix_of_readResult hresult).trans hrest
            simp only [← hwhole, offsetOf_eq_size_iff hleft, List.isEmpty_iff]
            split <;> rfl
  · rename_i hfirst
    split
    · rename_i cs hwhole
      exact absurd (by rw [hwhole, List.head?_cons]) hfirst
    · rfl

/-- A text is read as a descriptor just if it is the written form of that descriptor, in which no
class name holds a semicolon; all other texts are refused.  Reading by byte offsets comes to the
same, and never cuts the text inside a character. -/
theorem parse_eq_ok_iff (whole : String) :
    (∀ d, parse whole = .ok d ↔ d.Readable ∧ whole = d.text) ∧
    ((∃ fault, parse whole = .error fault) ↔ ¬∃ d : MethodDescriptor, d.Readable ∧ whole = d.text) ∧
    parseAt? whole = some (parse whole) := by
  refine ⟨fun d => parse_eq_ok, ?_, parseAt?_eq whole⟩
  simp only [← parse_eq_ok]
  cases parse whole <;> simp

end MethodDescriptor

end BytecodeCoverage
