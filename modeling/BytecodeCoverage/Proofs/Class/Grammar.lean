import BytecodeCoverage.Class.Descriptor

/-!
# The language of descriptors

A text is read as a descriptor just if it is the written form of one.  A type shows by its first
character how it goes on, and a class name ends at the first semicolon, so that names with a
semicolon have no descriptor.  Hence each reader is described by one equation: what it reads is the
written form of its result, and what it leaves is the rest.

**Main definitions.**
* `FieldType.Readable`, `MethodDescriptor.Readable`: no class name holds a semicolon.

**Results.**
* `FieldType.read_eq_ok_iff`, `MethodDescriptor.readParams_eq_ok_iff`,
  `MethodDescriptor.readResult_eq_ok_iff`: what the readers accept, with any rest.
* `MethodDescriptor.parse_eq_ok`: the texts that are descriptors.
-/

namespace BytecodeCoverage

namespace FieldType

/-- A type whose class name, if it has one, holds no semicolon. -/
def Readable : FieldType → Prop
  | .object className => ';' ∉ className.toList
  | .array component => component.Readable
  | _ => True

/-- The characters of the written form. -/
def chars (type : FieldType) : List Char :=
  type.text.toList

variable {whole : String} {cs rest : List Char}

@[simp] theorem chars_object (className : String) :
    (object className).chars = 'L' :: className.toList ++ [';'] := by
  simp [chars, text]

@[simp] theorem chars_array (component : FieldType) :
    (array component).chars = '[' :: component.chars := by
  simp [chars, text]

/-- The written form of a type is read back, whatever follows it. -/
theorem read_chars {type : FieldType} (h : type.Readable) (rest : List Char) :
    read whole (type.chars ++ rest) = .ok (type, rest) := by
  induction type with
  | object className =>
      have hname : Text.cutAt? ';' (className.toList ++ ';' :: rest) =
          some (className.toList, rest) :=
        Text.cutAt?_eq_some_iff.2 ⟨rfl, h⟩
      rw [chars_object, List.append_assoc, List.cons_append, List.singleton_append, read, hname]
      simp only [String.ofList_toList]
  | array component ih => rw [chars_array, List.cons_append, read, ih h, Except.map]
  | _ => rfl

/-- What is read is the written form of the result. -/
theorem chars_of_read {type : FieldType} (h : read whole cs = .ok (type, rest)) :
    type.Readable ∧ cs = type.chars ++ rest := by
  fun_induction read whole cs generalizing type rest with
  | case10 cs name after hname =>
      obtain ⟨rfl, rfl⟩ : object (String.ofList name) = type ∧ after = rest := by simpa using h
      obtain ⟨rfl, hplain⟩ := Text.cutAt?_eq_some_iff.1 hname
      exact ⟨by simpa [Readable] using hplain, by simp⟩
  | case12 cs ih =>
      cases hread : read whole cs with
      | error fault => simp [hread, Except.map] at h
      | ok found =>
          obtain ⟨component, after⟩ := found
          obtain ⟨rfl, rfl⟩ : array component = type ∧ after = rest := by
            simpa [hread, Except.map] using h
          obtain ⟨hplain, rfl⟩ := ih hread
          exact ⟨hplain, by simp⟩
  | case1 | case11 | case13 => cases h
  | _ =>
      cases h
      exact ⟨trivial, rfl⟩

theorem read_eq_ok_iff {type : FieldType} :
    read whole cs = .ok (type, rest) ↔ type.Readable ∧ cs = type.chars ++ rest := by
  refine ⟨chars_of_read, ?_⟩
  rintro ⟨hplain, rfl⟩
  exact read_chars hplain rest

/-- A type starts neither as the end of the parameters nor as the lack of a result. -/
theorem exists_chars_eq_cons (type : FieldType) :
    ∃ c cs, type.chars = c :: cs ∧ c ≠ ')' ∧ c ≠ 'V' := by
  cases type with
  | object className => exact ⟨_, _, chars_object className, by decide, by decide⟩
  | array component => exact ⟨_, _, chars_array component, by decide, by decide⟩
  | _ => exact ⟨_, _, rfl, by decide, by decide⟩

end FieldType

namespace MethodDescriptor

/-- A descriptor in which no class name holds a semicolon. -/
structure Readable (d : MethodDescriptor) : Prop where
  params : ∀ type ∈ d.params, type.Readable
  result : ∀ type ∈ d.result, type.Readable

/-- The characters of the written form of a result. -/
def resultChars : Option FieldType → List Char
  | none => ['V']
  | some type => type.chars

variable {whole : String} {cs rest : List Char}

theorem toList_text (d : MethodDescriptor) :
    d.text.toList = '(' :: (d.params.flatMap FieldType.chars ++ ')' :: resultChars d.result) := by
  obtain ⟨params, result⟩ := d
  have hparams : (params.map FieldType.text).flatMap String.toList =
      params.flatMap FieldType.chars := by
    rw [List.flatMap_map]
    rfl
  cases result <;> simp [text, resultChars, FieldType.chars, hparams]

theorem readParams_chars {types : List FieldType} (h : ∀ type ∈ types, type.Readable)
    (rest : List Char) :
    readParams whole (types.flatMap FieldType.chars ++ ')' :: rest) = .ok (types, rest) := by
  induction types with
  | nil => rw [List.flatMap_nil, List.nil_append, readParams]
  | cons type types ih =>
      rw [List.forall_mem_cons] at h
      have hread := @FieldType.read_chars whole _ h.1
        (types.flatMap FieldType.chars ++ ')' :: rest)
      obtain ⟨c, cs, hchars, hclosing, -⟩ := type.exists_chars_eq_cons
      rw [List.flatMap_cons, List.append_assoc, hchars, List.cons_append, readParams]
      · rw [hchars, List.cons_append] at hread
        split
        · rename_i heq
          cases hread.symm.trans heq
        · rename_i heq
          cases hread.symm.trans heq
          rw [ih h.2, Except.map]
      · exact hclosing

theorem chars_of_readParams {types : List FieldType}
    (h : readParams whole cs = .ok (types, rest)) :
    (∀ type ∈ types, type.Readable) ∧ cs = types.flatMap FieldType.chars ++ ')' :: rest := by
  fun_induction readParams whole cs generalizing types rest with
  | case1 | case3 => cases h
  | case2 after =>
      cases h
      exact ⟨fun _ hmem => absurd hmem List.not_mem_nil, rfl⟩
  | case4 c cs _ type after hread ih =>
      cases hrest : readParams whole after with
      | error fault => simp [hrest, Except.map] at h
      | ok found =>
          obtain ⟨others, last⟩ := found
          obtain ⟨rfl, rfl⟩ : type :: others = types ∧ last = rest := by
            simpa [hrest, Except.map] using h
          obtain ⟨hplain, hchars⟩ := FieldType.chars_of_read hread
          obtain ⟨hothers, rfl⟩ := ih hrest
          exact ⟨List.forall_mem_cons.2 ⟨hplain, hothers⟩, by simp [hchars]⟩

theorem readParams_eq_ok_iff {types : List FieldType} :
    readParams whole cs = .ok (types, rest) ↔
      (∀ type ∈ types, type.Readable) ∧ cs = types.flatMap FieldType.chars ++ ')' :: rest := by
  refine ⟨chars_of_readParams, ?_⟩
  rintro ⟨hplain, rfl⟩
  exact readParams_chars hplain rest

theorem readResult_eq_ok_iff {result : Option FieldType} :
    readResult whole cs = .ok (result, rest) ↔
      (∀ type ∈ result, type.Readable) ∧ cs = resultChars result ++ rest := by
  constructor
  · intro h
    unfold readResult at h
    split at h
    · cases h
      exact ⟨fun _ hmem => (Option.not_mem_none _ hmem).elim, rfl⟩
    · cases hread : FieldType.read whole cs with
      | error fault => simp [hread, Except.map] at h
      | ok found =>
          obtain ⟨rfl, rfl⟩ : some found.1 = result ∧ found.2 = rest := by
            simpa [hread, Except.map] using h
          obtain ⟨hplain, hchars⟩ := FieldType.chars_of_read hread
          exact ⟨fun type hmem => Option.some.inj hmem ▸ hplain, hchars⟩
  · rintro ⟨hplain, rfl⟩
    cases result with
    | none => rfl
    | some type =>
        have hread := @FieldType.read_chars whole _ (hplain type rfl) rest
        obtain ⟨c, cs, hchars, -, hvoid⟩ := type.exists_chars_eq_cons
        rw [resultChars, readResult, hread, Except.map]
        rintro after hafter
        rw [hchars] at hafter
        exact hvoid (List.cons.inj hafter).1

/-- A descriptor is read by its parts, and nothing is left after the result. -/
theorem parse_cons_eq_ok_iff (hwhole : whole.toList = '(' :: cs) {d : MethodDescriptor} :
    parse whole = .ok d ↔
      ∃ rest, readParams whole cs = .ok (d.params, rest) ∧
        readResult whole rest = .ok (d.result, []) := by
  obtain ⟨params, result⟩ := d
  simp only [parse, hwhole]
  cases hparams : readParams whole cs with
  | error fault => simp [bind, Except.bind]
  | ok found =>
      obtain ⟨types, rest⟩ := found
      cases hresult : readResult whole rest with
      | error fault => simp [bind, Except.bind, hresult]
      | ok last =>
          obtain ⟨type, left⟩ := last
          simp only [bind, Except.bind, hresult, Except.ok.injEq, Prod.mk.injEq, and_assoc,
            exists_and_left, exists_eq_left', List.isEmpty_iff]
          by_cases hleft : left = []
          · simp [hleft]
          · simp [hleft]

/-- A text is read as a descriptor just if it is the written form of the descriptor, in which no
class name holds a semicolon. -/
theorem parse_eq_ok {d : MethodDescriptor} :
    parse whole = .ok d ↔ d.Readable ∧ whole = d.text := by
  rw [← String.toList_inj, toList_text]
  cases hwhole : whole.toList with
  | nil => simp [parse, hwhole]
  | cons c cs =>
      by_cases hc : c = '('
      · subst hc
        simp only [parse_cons_eq_ok_iff hwhole, readParams_eq_ok_iff, readResult_eq_ok_iff,
          List.append_nil, List.cons.injEq, true_and]
        constructor
        · rintro ⟨rest, ⟨hparams, rfl⟩, hresult, rfl⟩
          exact ⟨⟨hparams, hresult⟩, rfl⟩
        · rintro ⟨⟨hparams, hresult⟩, rfl⟩
          exact ⟨_, ⟨hparams, rfl⟩, hresult, rfl⟩
      · refine iff_of_false ?_ fun h => hc (List.cons.inj h.2).1
        unfold parse
        rw [hwhole]
        split
        · rename_i heq
          exact absurd (List.cons.inj heq).1 hc
        · exact nofun

end MethodDescriptor

end BytecodeCoverage
