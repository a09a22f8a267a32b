import BytecodeCoverage.Machine.Execute
import Mathlib.Data.List.Infix

/-!
# Code that knows nothing of counters

Code without probes has no business with the registry or with the members that an instrumented
class gets.  Such code does the same in a frame with more local variables, in a world whose
registry and whose field for the counters are different (`Instruction.execute_alike`).

To compare two executions, `Alike` says that both fail for the same cause or that their results
are related; it goes through a sequence of operations one by one.
-/

namespace BytecodeCoverage

namespace Instruction

/-- The owners and names of members in an instruction. -/
def mentions : Instruction → List String
  | .field _ owner name _ | .method _ owner name _ _ => [owner, name]
  | .ldc (.dynamic _ _ bootstrap _) => [bootstrap.owner, bootstrap.name]
  | _ => []

/-- The name of the called method. -/
def callee? : Instruction → Option String
  | .method _ _ name _ _ => some name
  | _ => none

/-- The local variable that is read or written. -/
def localIndex? : Instruction → Option UInt16
  | .localVar _ index | .iinc index _ => some index
  | _ => none

/-- An instruction that knows nothing of counters: it names neither the registry nor a member of
instrumented classes, and it does not call the class initializer. -/
structure Unaware (insn : Instruction) : Prop where
  owner : ∀ word ∈ insn.mentions, word ≠ Entry.owner
  field : ∀ word ∈ insn.mentions, ¬ Entry.field.toList <:+: word.toList
  accessor : ∀ word ∈ insn.mentions, word ≠ Entry.accessor
  callee : insn.callee? ≠ some Method.initializerName

end Instruction

/-- The static field that holds the counters of a class. -/
def Entry.fieldKey (className : String) : String :=
  className ++ "." ++ Entry.field

/-- No other field is taken for the one with the counters, wherever the dot between owner and
name is seen. -/
theorem Entry.key_ne_fieldKey {owner name className : String}
    (h : ¬ Entry.field.toList <:+: name.toList) :
    owner ++ "." ++ name ≠ Entry.fieldKey className := by
  intro heq
  have hlist : owner.toList ++ '.' :: name.toList =
      className.toList ++ '.' :: Entry.field.toList := by
    have := congrArg String.toList heq
    simpa [Entry.fieldKey, String.toList_append] using this
  have hname : '.' :: name.toList <:+ className.toList ++ '.' :: Entry.field.toList :=
    hlist ▸ List.suffix_append _ _
  have hfield : '.' :: Entry.field.toList <:+ className.toList ++ '.' :: Entry.field.toList :=
    List.suffix_append _ _
  rcases List.suffix_or_suffix_of_suffix hname hfield with hs | hs
  · rcases List.suffix_cons_iff.1 hs with heq' | hs'
    · simp only [List.cons.injEq, true_and] at heq'
      exact h (heq' ▸ List.infix_refl _)
    · have : '.' ∈ Entry.field.toList := hs'.subset List.mem_cons_self
      simp [Entry.field] at this
  · rcases List.suffix_cons_iff.1 hs with heq' | hs'
    · simp only [List.cons.injEq, true_and] at heq'
      exact h (heq' ▸ List.infix_refl _)
    · exact h ((List.suffix_cons _ _).trans hs').isInfix

namespace Machine

/-- A value that code without probes may meet: not an array of the registry. -/
def Value.Plain : Value → Prop
  | .hits _ | .mask _ => False
  | _ => True

@[simp] theorem Value.plain_int (n : Int32) : (Value.int n).Plain := trivial

@[simp] theorem Value.plain_null : Value.null.Plain := trivial

@[simp] theorem Value.plain_text (s : String) : (Value.text s).Plain := trivial

@[simp] theorem Value.plain_object : Value.object.Plain := trivial

@[simp] theorem Value.plain_ofBool (b : Bool) : (Value.ofBool b).Plain := trivial

/-! ## Comparing two executions -/

/-- Both fail for the same cause, or both give results that are related. -/
inductive Alike {ε α β : Type} (R : α → β → Prop) : Except ε α → Except ε β → Prop
  | ok {a : α} {b : β} : R a b → Alike R (.ok a) (.ok b)
  | error (e : ε) : Alike R (.error e) (.error e)

theorem Alike.bind {ε α β γ δ : Type} {R : α → β → Prop} {S : γ → δ → Prop} {x : Except ε α}
    {y : Except ε β} {g : α → Except ε γ} {h : β → Except ε δ} (hxy : Alike R x y)
    (hgh : ∀ a b, R a b → Alike S (g a) (h b)) : Alike S (x >>= g) (y >>= h) := by
  cases hxy with
  | ok hab => exact hgh _ _ hab
  | error e => exact .error e

/-- What two frames of a method have in common: the first runs the code without probes, the
second the code with probes, which has more local variables. -/
structure Twins where
  body : Body
  pos : Nat
  body' : Body
  pos' : Nat
  /-- The number of local variables of the first frame. -/
  count : Nat
  /-- What the second frame has in its additional local variables. -/
  extra : List Value

namespace Twins

variable {k : Twins} {f f' : Frame} {w₀ w₀' w w' : World} {key : String}

/-- Frames that hold the same values. -/
structure Frames (k : Twins) (f f' : Frame) : Prop where
  body : f.body = k.body
  pos : f.pos = k.pos
  body' : f'.body = k.body'
  pos' : f'.pos = k.pos'
  stack : f'.stack = f.stack
  locals : f'.locals = f.locals ++ k.extra
  count : f.locals.length = k.count
  plainStack : ∀ v ∈ f.stack, v.Plain
  plainLocals : ∀ v ∈ f.locals, v.Plain

/-- Outcomes with such frames. -/
inductive Outcomes (k : Twins) : Outcome → Outcome → Prop
  | next {f f' : Frame} : k.Frames f f' → k.Outcomes (.next f) (.next f')
  | jump {f f' : Frame} (target : Label) :
      k.Frames f f' → k.Outcomes (.jump f target) (.jump f' target)
  | call {f f' : Frame} {name descriptor : String} {args : List Value} {d : MethodDescriptor} :
      k.Frames f f' → name ≠ Entry.accessor → name ≠ Method.initializerName →
      MethodDescriptor.parse descriptor = .ok d → args.length = d.params.length →
      (∀ v ∈ args, v.Plain) →
      k.Outcomes (.call f name descriptor args) (.call f' name descriptor args)
  | leave {result : Option Value} :
      (∀ v ∈ result, v.Plain) → k.Outcomes (.leave result) (.leave result)

end Twins

/-- Two worlds that have come from `w₀` and `w₀'` by code without probes: only static fields have
changed, and none but the field `key` differ. -/
structure Worlds (key : String) (w₀ w₀' w w' : World) : Prop where
  first : w = { w₀ with statics := w.statics }
  second : w' = { w₀' with statics := w'.statics }
  own : w'.statics.get? key = w₀'.statics.get? key
  shared : ∀ other, other ≠ key → w'.statics.get? other = w.statics.get? other
  plain : ∀ other v, w.statics.get? other = some v → v.Plain

/-- Executions of an instruction by twins. -/
def AlikeExecuted (k : Twins) (key : String) (w₀ w₀' : World) : Executed → Executed → Prop :=
  Alike fun r r' => k.Outcomes r.1 r'.1 ∧ Worlds key w₀ w₀' r.2 r'.2

/-! ## Operations on frames -/

namespace Twins.Frames

variable {k : Twins} {f f' : Frame}

theorem push (h : k.Frames f f') {v : Value} (hv : v.Plain) : k.Frames (f.push v) (f'.push v) where
  body := h.body
  pos := h.pos
  body' := h.body'
  pos' := h.pos'
  stack := by simp [Frame.push, h.stack]
  locals := h.locals
  count := h.count
  plainStack := by
    intro u hu
    rcases List.mem_cons.1 hu with rfl | hu
    · exact hv
    · exact h.plainStack u hu
  plainLocals := h.plainLocals

/-- Taking values off both stacks. -/
theorem withStack (h : k.Frames f f') {rest : List Value} (hrest : ∀ v ∈ rest, v ∈ f.stack) :
    k.Frames { f with stack := rest } { f' with stack := rest } where
  body := h.body
  pos := h.pos
  body' := h.body'
  pos' := h.pos'
  stack := rfl
  locals := h.locals
  count := h.count
  plainStack v hv := h.plainStack v (hrest v hv)
  plainLocals := h.plainLocals

theorem pop (h : k.Frames f f') :
    Alike (fun p p' => p.1 = p'.1 ∧ p.1.Plain ∧ k.Frames p.2 p'.2) f.pop f'.pop := by
  unfold Frame.pop
  rw [h.stack]
  cases hs : f.stack with
  | nil => exact .error _
  | cons v rest =>
      refine .ok ⟨rfl, h.plainStack v (by simp [hs]), h.withStack fun u hu => ?_⟩
      rw [hs]
      exact List.mem_cons_of_mem _ hu

theorem popInt (h : k.Frames f f') :
    Alike (fun p p' => p.1 = p'.1 ∧ k.Frames p.2 p'.2) f.popInt f'.popInt := by
  refine h.pop.bind ?_
  rintro ⟨v, f⟩ ⟨v', f'⟩ ⟨rfl, -, hf⟩
  cases v with
  | int n => exact .ok ⟨rfl, hf⟩
  | _ => exact .error _

theorem popIndex (h : k.Frames f f') :
    Alike (fun p p' => p.1 = p'.1 ∧ k.Frames p.2 p'.2) f.popIndex f'.popIndex := by
  refine h.popInt.bind ?_
  rintro ⟨n, f⟩ ⟨n', f'⟩ ⟨rfl, hf⟩
  by_cases hn : n < 0
  · simp only [hn, if_true]
    exact .error _
  · simp only [hn, if_false]
    exact .ok ⟨rfl, hf⟩

theorem drop (h : k.Frames f f') (n : Nat) :
    Alike k.Frames (f.drop n) (f'.drop n) := by
  unfold Frame.drop
  rw [h.stack]
  by_cases hn : n ≤ f.stack.length
  · simp only [hn, if_true]
    exact .ok (h.withStack fun _ => List.mem_of_mem_drop)
  · simp only [hn, if_false]
    exact .error _

theorem popArgs (h : k.Frames f f') (n : Nat) :
    Alike (fun p p' => p.1 = p'.1 ∧ p.1.length = n ∧ (∀ v ∈ p.1, v.Plain) ∧ k.Frames p.2 p'.2)
      (f.popArgs n) (f'.popArgs n) := by
  unfold Frame.popArgs
  rw [h.stack]
  by_cases hn : n ≤ f.stack.length
  · simp only [hn, if_true]
    refine .ok ⟨rfl, by simp [hn], fun v hv => ?_, h.withStack fun _ => List.mem_of_mem_drop⟩
    exact h.plainStack v (List.mem_of_mem_take (List.mem_reverse.1 hv))
  · simp only [hn, if_false]
    exact .error _

theorem load (h : k.Frames f f') {index : UInt16} (hindex : index.toNat < k.count) :
    Alike (fun v v' => v = v' ∧ v.Plain) (f.load index) (f'.load index) := by
  have hlt : index.toNat < f.locals.length := h.count ▸ hindex
  unfold Frame.load
  rw [h.locals, List.getElem?_append_left hlt, List.getElem?_eq_getElem hlt]
  exact .ok ⟨rfl, h.plainLocals _ (List.getElem_mem hlt)⟩

theorem store (h : k.Frames f f') {index : UInt16} (hindex : index.toNat < k.count) {v : Value}
    (hv : v.Plain) : Alike k.Frames (f.store index v) (f'.store index v) := by
  have hlt : index.toNat < f.locals.length := h.count ▸ hindex
  have hlt' : index.toNat < f'.locals.length := by
    rw [h.locals, List.length_append]
    omega
  unfold Frame.store
  rw [if_pos hlt, if_pos hlt']
  refine .ok ⟨h.body, h.pos, h.body', h.pos', h.stack, ?_, ?_, h.plainStack, ?_⟩
  · simp [h.locals, List.set_append_left _ _ hlt]
  · simpa using h.count
  · intro u hu
    rcases List.mem_or_eq_of_mem_set hu with hu | rfl
    · exact h.plainLocals u hu
    · exact hv

end Twins.Frames

/-! ## Operations of the machine -/

namespace Worlds

variable {key : String} {w₀ w₀' w w' : World}

/-- A world of its own. -/
theorem insert (h : Worlds key w₀ w₀' w w') {other : String} (hother : other ≠ key) {v : Value}
    (hv : v.Plain) :
    Worlds key w₀ w₀' { w with statics := w.statics.insert other v }
      { w' with statics := w'.statics.insert other v } where
  first := by rw [h.first]
  second := by rw [h.second]
  own := by
    rw [← h.own]
    exact SortedMap.get?_insert_of_ne _ _ hother.symm
  shared o ho := by
    by_cases heq : o = other
    · subst heq
      simp [SortedMap.get?_insert_self]
    · simp [SortedMap.get?_insert_of_ne _ _ heq, h.shared o ho]
  plain o u hu := by
    by_cases heq : o = other
    · subst heq
      simp only [SortedMap.get?_insert_self, Option.some.injEq] at hu
      exact hu ▸ hv
    · exact h.plain o u (by simpa [SortedMap.get?_insert_of_ne _ _ heq] using hu)

end Worlds

section Executions

variable {k : Twins} {f f' : Frame} {key : String} {w₀ w₀' w w' : World}

theorem alike_next (hf : k.Frames f f') (hw : Worlds key w₀ w₀' w w') :
    AlikeExecuted k key w₀ w₀' (.ok (.next f, w)) (.ok (.next f', w')) :=
  .ok ⟨.next hf, hw⟩

theorem alike_push (hf : k.Frames f f') (hw : Worlds key w₀ w₀' w w') {v : Value} (hv : v.Plain) :
    AlikeExecuted k key w₀ w₀' (.ok (.next (f.push v), w)) (.ok (.next (f'.push v), w')) :=
  alike_next (hf.push hv) hw

theorem branch_alike (op : Opcode) (hf : k.Frames f f') :
    Alike (fun p p' => p.1 = p'.1 ∧ k.Frames p.2 p'.2) (branch op f) (branch op f') := by
  unfold branch
  cases test? op with
  | some test =>
      refine hf.popInt.bind ?_
      rintro ⟨a, g⟩ ⟨a', g'⟩ ⟨rfl, hg⟩
      exact .ok ⟨rfl, hg⟩
  | none =>
      cases comparison? op with
      | some compare =>
          refine hf.popInt.bind ?_
          rintro ⟨b, g⟩ ⟨b', g'⟩ ⟨rfl, hg⟩
          refine hg.popInt.bind ?_
          rintro ⟨a, g⟩ ⟨a', g'⟩ ⟨rfl, hg⟩
          exact .ok ⟨rfl, hg⟩
      | none =>
          cases op <;> try exact .error _
          case goto => exact .ok ⟨rfl, hf⟩
          case ifnull | ifnonnull =>
            refine hf.pop.bind ?_
            rintro ⟨v, g⟩ ⟨v', g'⟩ ⟨rfl, -, hg⟩
            exact .ok ⟨rfl, hg⟩
          case ifAcmpeq | ifAcmpne =>
            refine hf.pop.bind ?_
            rintro ⟨b, g⟩ ⟨b', g'⟩ ⟨rfl, -, hg⟩
            refine hg.pop.bind ?_
            rintro ⟨a, g⟩ ⟨a', g'⟩ ⟨rfl, -, hg⟩
            exact .ok ⟨rfl, hg⟩

/-- The arrays of the registry are out of reach. -/
theorem element_of_plain (w : World) {v : Value} (hv : v.Plain) (index : Nat) :
    w.element v index = .error .beyondEnd := by
  cases v <;> first | rfl | exact hv.elim

theorem setElement_of_plain (w : World) {v : Value} (hv : v.Plain) (index : Nat) (n : Int32) :
    w.setElement v index n = .error .beyondEnd := by
  cases v <;> first | rfl | exact hv.elim

theorem executeSimple_alike (op : Opcode) (hf : k.Frames f f') (hw : Worlds key w₀ w₀' w w') :
    AlikeExecuted k key w₀ w₀' (executeSimple op f w) (executeSimple op f' w') := by
  cases op <;> try exact .error _
  case nop => exact alike_next hf hw
  case aconstNull => exact alike_push hf hw trivial
  case ineg =>
    refine hf.popInt.bind ?_
    rintro ⟨n, g⟩ ⟨n', g'⟩ ⟨rfl, hg⟩
    exact alike_push hg hw trivial
  case dup =>
    have hplain := hf.plainStack
    simp only [executeSimple, hf.stack]
    cases hs : f.stack with
    | nil => exact .error _
    | cons v rest => exact alike_push hf hw (hplain v (by simp [hs]))
  case dup2 =>
    have hplain := hf.plainStack
    simp only [executeSimple, hf.stack]
    match hs : f.stack with
    | [] | [_] => exact .error _
    | v :: v' :: rest =>
        exact alike_push (hf.push (hplain v' (by simp [hs]))) hw (hplain v (by simp [hs]))
  case pop =>
    refine hf.pop.bind ?_
    rintro ⟨v, g⟩ ⟨v', g'⟩ ⟨rfl, -, hg⟩
    exact alike_next hg hw
  case pop2 =>
    refine hf.pop.bind ?_
    rintro ⟨v, g⟩ ⟨v', g'⟩ ⟨rfl, -, hg⟩
    refine hg.pop.bind ?_
    rintro ⟨v, g⟩ ⟨v', g'⟩ ⟨rfl, -, hg⟩
    exact alike_next hg hw
  case iaload | baload =>
    refine hf.popIndex.bind ?_
    rintro ⟨index, g⟩ ⟨index', g'⟩ ⟨rfl, hg⟩
    refine hg.pop.bind ?_
    rintro ⟨v, g⟩ ⟨v', g'⟩ ⟨rfl, hv, hg⟩
    change v.Plain at hv
    simp only [element_of_plain _ hv]
    exact .error _
  case iastore | bastore =>
    refine hf.popInt.bind ?_
    rintro ⟨n, g⟩ ⟨n', g'⟩ ⟨rfl, hg⟩
    refine hg.popIndex.bind ?_
    rintro ⟨index, g⟩ ⟨index', g'⟩ ⟨rfl, hg⟩
    refine hg.pop.bind ?_
    rintro ⟨v, g⟩ ⟨v', g'⟩ ⟨rfl, hv, hg⟩
    change v.Plain at hv
    simp only [setElement_of_plain _ hv]
    exact .error _
  case ireturn | areturn =>
    refine hf.pop.bind ?_
    rintro ⟨v, g⟩ ⟨v', g'⟩ ⟨rfl, hv, -⟩
    exact .ok ⟨.leave (by simpa using hv), hw⟩
  case returnVoid => exact .ok ⟨.leave (by simp), hw⟩

theorem executeOpcode_alike (op : Opcode) (hf : k.Frames f f') (hw : Worlds key w₀ w₀' w w') :
    AlikeExecuted k key w₀ w₀' (executeOpcode op f w) (executeOpcode op f' w') := by
  unfold executeOpcode
  cases op.intConstant with
  | some n => exact alike_push hf hw trivial
  | none =>
      cases binary? op with
      | none => exact executeSimple_alike op hf hw
      | some operation =>
          refine hf.popInt.bind ?_
          rintro ⟨b, g⟩ ⟨b', g'⟩ ⟨rfl, hg⟩
          refine hg.popInt.bind ?_
          rintro ⟨a, g⟩ ⟨a', g'⟩ ⟨rfl, hg⟩
          dsimp only
          cases operation a b with
          | error e => exact .error e
          | ok n => exact alike_push hg hw trivial

theorem executeConstant_alike (constant : Constant)
    (hunaware : ∀ word ∈ (Instruction.ldc constant).mentions, word ≠ Entry.owner)
    (hf : k.Frames f f') (hw : Worlds key w₀ w₀' w w') :
    AlikeExecuted k key w₀ w₀' (executeConstant constant f w) (executeConstant constant f' w') := by
  cases constant <;> try exact .error _
  case int n => exact alike_push hf hw trivial
  case string s => exact alike_push hf hw trivial
  case dynamic name descriptor bootstrap arguments =>
    have howner : bootstrap.owner ≠ Entry.owner := hunaware _ (by simp [Instruction.mentions])
    have : (bootstrap.owner == Entry.owner) = false := by simpa using howner
    simp only [executeConstant, this, Bool.false_and, Bool.false_eq_true, if_false]
    exact .error _

theorem executeVariable_alike (op : Opcode) {index : UInt16} (hindex : index.toNat < k.count)
    (hf : k.Frames f f') (hw : Worlds key w₀ w₀' w w') :
    AlikeExecuted k key w₀ w₀' (executeVariable op index f w)
      (executeVariable op index f' w') := by
  cases op <;> try exact .error _
  case iload | aload =>
    refine (hf.load hindex).bind ?_
    rintro v v' ⟨rfl, hv⟩
    exact alike_push hf hw hv
  case istore | astore =>
    refine hf.pop.bind ?_
    rintro ⟨v, g⟩ ⟨v', g'⟩ ⟨rfl, hv, hg⟩
    refine (hg.store hindex hv).bind ?_
    intro g g' hg
    exact alike_next hg hw

theorem executeType_alike (op : Opcode) (hf : k.Frames f f') (hw : Worlds key w₀ w₀' w w') :
    AlikeExecuted k key w₀ w₀' (executeType op f w) (executeType op f' w') := by
  cases op <;> try exact .error _
  case new => exact alike_push hf hw trivial
  case checkcast => exact alike_next hf hw
  case instanceof =>
    refine hf.pop.bind ?_
    rintro ⟨v, g⟩ ⟨v', g'⟩ ⟨rfl, -, hg⟩
    exact alike_push hg hw trivial

theorem executeField_alike (op : Opcode) {other : String} (hother : other ≠ key)
    (hf : k.Frames f f') (hw : Worlds key w₀ w₀' w w') :
    AlikeExecuted k key w₀ w₀' (executeField op other f w) (executeField op other f' w') := by
  cases op <;> try exact .error _
  case getstatic =>
    simp only [executeField, hw.shared other hother]
    refine alike_push hf hw ?_
    cases hv : w.statics.get? other with
    | none => trivial
    | some v => exact hw.plain other v hv
  case putstatic =>
    refine hf.pop.bind ?_
    rintro ⟨v, g⟩ ⟨v', g'⟩ ⟨rfl, hv, hg⟩
    exact alike_next hg (hw.insert hother hv)

theorem executeHash_alike (hf : k.Frames f f') (hw : Worlds key w₀ w₀' w w') :
    AlikeExecuted k key w₀ w₀' (executeHash f w) (executeHash f' w') := by
  refine hf.pop.bind ?_
  rintro ⟨v, g⟩ ⟨v', g'⟩ ⟨rfl, -, hg⟩
  cases v with
  | text s => exact alike_push hg hw trivial
  | _ => exact .error _

theorem executeEquals_alike (hf : k.Frames f f') (hw : Worlds key w₀ w₀' w w') :
    AlikeExecuted k key w₀ w₀' (executeEquals f w) (executeEquals f' w') := by
  refine hf.pop.bind ?_
  rintro ⟨v, g⟩ ⟨v', g'⟩ ⟨rfl, -, hg⟩
  refine hg.pop.bind ?_
  rintro ⟨u, e⟩ ⟨u', e'⟩ ⟨rfl, -, he⟩
  cases u with
  | null => exact .error _
  | text a =>
      cases v with
      | text b => exact alike_push he hw (Value.plain_ofBool (a == b))
      | _ => exact alike_push he hw (Value.plain_ofBool false)
  | _ => exact alike_push he hw (Value.plain_ofBool false)

/-- The number of parameters is that of the parsed descriptor. -/
theorem parameterCount_eq_ok {descriptor : String} {n : Nat}
    (h : parameterCount descriptor = .ok n) :
    ∃ d, MethodDescriptor.parse descriptor = .ok d ∧ d.params.length = n := by
  unfold parameterCount at h
  cases hd : MethodDescriptor.parse descriptor with
  | error fault => simp [hd] at h
  | ok d => exact ⟨d, rfl, by simpa [hd] using h⟩

theorem executeCall_alike {op : Opcode} {owner name descriptor : String} {onInterface : Bool}
    (hunaware : (Instruction.method op owner name descriptor onInterface).Unaware)
    (hname : w'.cls.name = w.cls.name) (hf : k.Frames f f') (hw : Worlds key w₀ w₀' w w') :
    AlikeExecuted k key w₀ w₀' (executeCall op owner name descriptor f w)
      (executeCall op owner name descriptor f' w') := by
  have howner : (owner == Entry.owner) = false := by
    simpa using hunaware.owner owner (by simp [Instruction.mentions])
  have haccessor : name ≠ Entry.accessor :=
    hunaware.accessor name (by simp [Instruction.mentions])
  have hcallee : name ≠ Method.initializerName := by
    simpa [Instruction.callee?] using hunaware.callee
  unfold executeCall
  simp only [howner, Bool.false_eq_true, if_false, hname]
  split_ifs
  · exact executeHash_alike hf hw
  · exact executeEquals_alike hf hw
  · cases parameterCount descriptor with
    | error e => exact .error e
    | ok n =>
        refine (hf.drop (n + 1)).bind ?_
        intro g g' hg
        exact alike_next hg hw
  · cases hn : parameterCount descriptor with
    | error e => exact .error e
    | ok n =>
        obtain ⟨d, hd, rfl⟩ := parameterCount_eq_ok hn
        refine (hf.popArgs d.params.length).bind ?_
        rintro ⟨args, g⟩ ⟨args', g'⟩ ⟨rfl, hlength, hplain, hg⟩
        exact .ok ⟨.call hg haccessor hcallee hd hlength hplain, hw⟩
  · exact .error _

/-- Code that knows nothing of counters does the same with more local variables, another registry
and other counters in the field. -/
theorem execute_alike {insn : Instruction} {className : String} (hunaware : insn.Unaware)
    (hlocal : ∀ index, insn.localIndex? = some index → index.toNat < k.count)
    (hname : w'.cls.name = w.cls.name) (hf : k.Frames f f')
    (hw : Worlds (Entry.fieldKey className) w₀ w₀' w w') :
    AlikeExecuted k (Entry.fieldKey className) w₀ w₀' (insn.execute f w) (insn.execute f' w') := by
  cases insn with
  | label placed | line number => exact alike_next hf hw
  | simple op => exact executeOpcode_alike op hf hw
  | int op operand => exact alike_push hf hw trivial
  | localVar op index => exact executeVariable_alike op (hlocal index rfl) hf hw
  | iinc index delta =>
      refine (hf.load (hlocal index rfl)).bind ?_
      rintro v v' ⟨rfl, -⟩
      cases v with
      | int n =>
          refine (hf.store (hlocal index rfl) (Value.plain_int _)).bind ?_
          intro g g' hg
          exact alike_next hg hw
      | _ => exact .error _
  | ldc constant => exact executeConstant_alike constant hunaware.owner hf hw
  | type op descriptor => exact executeType_alike op hf hw
  | field op owner name descriptor =>
      refine executeField_alike op (Entry.key_ne_fieldKey ?_) hf hw
      exact hunaware.field name (by simp [Instruction.mentions])
  | method op owner name descriptor onInterface =>
      exact executeCall_alike hunaware hname hf hw
  | jump op target =>
      refine (branch_alike op hf).bind ?_
      rintro ⟨taken, g⟩ ⟨taken', g'⟩ ⟨rfl, hg⟩
      cases taken with
      | true => exact .ok ⟨.jump target hg, hw⟩
      | false => exact alike_next hg hw
  | tableSwitch low high otherwise targets =>
      refine hf.popInt.bind ?_
      rintro ⟨key, g⟩ ⟨key', g'⟩ ⟨rfl, hg⟩
      exact .ok ⟨.jump _ hg, hw⟩
  | lookupSwitch otherwise keys targets =>
      refine hf.popInt.bind ?_
      rintro ⟨key, g⟩ ⟨key', g'⟩ ⟨rfl, hg⟩
      exact .ok ⟨.jump _ hg, hw⟩

end Executions

end Machine

end BytecodeCoverage
