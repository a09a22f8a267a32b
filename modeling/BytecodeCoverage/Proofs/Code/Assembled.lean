import BytecodeCoverage.Proofs.Code.Calls
import BytecodeCoverage.Proofs.Code.Labels
import BytecodeCoverage.Proofs.Code.Respelled

/-!
# Bodies that are assembled

An assembler accepts what it is told as long as the calls fit together: labels are drawn before they
are named, what is named is placed, nothing is placed twice, and the keys of every switch are in
order.  The body then consists of what the calls stand for, in their order.

An assembler goes on after a body has been built.  The next body starts without code and without
exception table, so it has to place its own labels, while labels already drawn are not drawn again
and the number of local variables never goes down.

**Main definitions.**
* `Assembler.Admissible`: calls that fit together.
* `Assembler.afterBodies`: an assembler that has built bodies.
* `Body.fresh`: labels drawn from a body.

**Results.**
* `Assembler.Lists.wellFormed`: what admissible calls list has no defect.
* `Assembler.finish_admissible`: the body that comes of admissible calls.
* `Assembler.unfinished`: calls for different bodies, or with too many targets, do not fit together.
-/

namespace BytecodeCoverage

namespace Assembler

namespace Call

/-- The labels that a call jumps to or protects. -/
def uses : Call → List Label
  | .emit insn => insn.targets
  | .tableSwitch _ otherwise targets => otherwise :: targets
  | .lookupSwitch otherwise cases => otherwise :: cases.map Prod.snd
  | .tryCatch start stop handler _ => [start, stop, handler]
  | _ => []

/-- The labels that a call places without drawing them. -/
def given : Call → List Label
  | .place placed => [placed]
  | .emit insn => Body.placedIn [insn]
  | _ => []

/-- The labels that a call places when `next` labels have been drawn. Above the greatest word the
labels begin again. -/
def places (next : Nat) : Call → List Label
  | .label => [⟨next⟩]
  | call => call.given

end Call

/-- The labels that calls place when `next` labels have been drawn before. -/
def placedBy (next : Nat) : List Call → List Label
  | [] => []
  | call :: calls => call.places next ++ placedBy (next + call.draws) calls

/-- Every label is drawn before a call names it. -/
def DrawnFirst (next : Nat) : List Call → Prop
  | [] => True
  | call :: calls =>
      (∀ label ∈ call.uses ++ call.given, label.id < next) ∧ DrawnFirst (next + call.draws) calls

/-- Calls that fit together: labels come from the assembler, each label that is used is placed, no
label is placed twice, and every switch has its keys in order. -/
structure Admissible (next : Nat) (calls : List Call) : Prop where
  drawn : DrawnFirst next calls
  placed : ∀ call ∈ calls, ∀ label ∈ call.uses, label ∈ placedBy next calls
  once : (placedBy next calls).Nodup
  proper : ∀ call ∈ calls, call.Proper

/-! ## What calls write -/

namespace Call.Writes

variable {next : Nat} {call : Call} {written : List Instruction}

/-- The labels that are placed in the code are those that the call places. -/
theorem placedIn_eq (h : call.Writes next written) : Body.placedIn written = call.places next := by
  cases h with
  | iconst value =>
      obtain ⟨op, hform⟩ | ⟨op, hform⟩ | hform := Instruction.forms_of_pushInt value <;>
        rw [hform] <;> rfl
  | _ => rfl

/-- The targets in the code are labels that the call uses. -/
theorem targets_mem (h : call.Writes next written) {insn : Instruction} (hinsn : insn ∈ written)
    {label : Label} (hlabel : label ∈ insn.targets) : label ∈ call.uses := by
  cases h with
  | iconst value =>
      obtain rfl := List.mem_singleton.1 hinsn
      obtain ⟨op, hform⟩ | ⟨op, hform⟩ | hform := Instruction.forms_of_pushInt value <;>
        rw [hform] at hlabel <;> cases hlabel
  | emit | tableSwitch =>
      obtain rfl := List.mem_singleton.1 hinsn
      exact hlabel
  | lookupSwitch hperm =>
      obtain rfl := List.mem_singleton.1 hinsn
      exact (List.Perm.cons _ (hperm.map Prod.snd)).subset hlabel
  | label | place | invoke =>
      obtain rfl := List.mem_singleton.1 hinsn
      cases hlabel
  | _ => cases hinsn

/-- A proper call writes well-shaped switches. -/
theorem wellShaped (h : call.Writes next written) (hproper : call.Proper) {insn : Instruction}
    (hinsn : insn ∈ written) : insn.WellShaped := by
  cases h with
  | iconst value =>
      obtain rfl := List.mem_singleton.1 hinsn
      obtain ⟨op, hform⟩ | ⟨op, hform⟩ | hform := Instruction.forms_of_pushInt value <;>
        rw [hform] <;> trivial
  | emit =>
      obtain rfl := List.mem_singleton.1 hinsn
      cases insn with
      | tableSwitch | lookupSwitch => cases hproper
      | _ => trivial
  | tableSwitch hlow hcount =>
      obtain rfl := List.mem_singleton.1 hinsn
      exact ⟨Int32.not_lt.2 hlow, hcount⟩
  | lookupSwitch hperm hkeys =>
      obtain rfl := List.mem_singleton.1 hinsn
      exact ⟨by rw [List.length_map, List.length_map], ascends_of_pairwise hkeys⟩
  | label | place | invoke =>
      obtain rfl := List.mem_singleton.1 hinsn
      trivial
  | _ => cases hinsn

end Call.Writes

/-- The bounds and the handler of an entry are labels that the call uses. -/
theorem Call.bounds_mem {call : Call} {range : TryRange} (hrange : range ∈ call.ranges)
    {label : Label} (hlabel : label ∈ range.labels) : label ∈ call.uses := by
  cases call with
  | tryCatch start stop handler catchType =>
      obtain rfl := List.mem_singleton.1 hrange
      exact hlabel
  | _ => cases hrange

/-! ## What sequences of calls list -/

namespace Lists

variable {next : Nat} {calls : List Call} {code : List Instruction}

theorem placedIn_eq (h : Lists next calls code) : Body.placedIn code = placedBy next calls := by
  induction h with
  | nil => rfl
  | cons hcall _ ih => rw [Body.placedIn_append, hcall.placedIn_eq, ih, placedBy]

theorem exists_uses (h : Lists next calls code) {insn : Instruction} (hinsn : insn ∈ code)
    {label : Label} (hlabel : label ∈ insn.targets) : ∃ call ∈ calls, label ∈ call.uses := by
  induction h with
  | nil => cases hinsn
  | cons hcall _ ih =>
      rcases List.mem_append.1 hinsn with hinsn | hinsn
      · exact ⟨_, List.mem_cons_self, hcall.targets_mem hinsn hlabel⟩
      · obtain ⟨call, hmem, huses⟩ := ih hinsn
        exact ⟨call, List.mem_cons_of_mem _ hmem, huses⟩

theorem wellShaped (h : Lists next calls code) (hproper : ∀ call ∈ calls, call.Proper)
    {insn : Instruction} (hinsn : insn ∈ code) : insn.WellShaped := by
  induction h with
  | nil => cases hinsn
  | cons hcall _ ih =>
      rw [List.forall_mem_cons] at hproper
      rcases List.mem_append.1 hinsn with hinsn | hinsn
      · exact hcall.wellShaped hproper.1 hinsn
      · exact ih hproper.2 hinsn

/-- What admissible calls list has no defect. -/
theorem wellFormed (h : Lists next calls code) (hcalls : Admissible next calls)
    (maxStack maxLocals : UInt16) :
    (Body.ofParts code (calls.flatMap Call.ranges) maxStack maxLocals).WellFormed where
  nodup := by
    rw [Body.placed, Body.ofParts, h.placedIn_eq]
    exact hcalls.once
  targets insn hinsn label hlabel := by
    obtain ⟨call, hcall, huses⟩ := h.exists_uses hinsn hlabel
    rw [Body.placed, Body.ofParts, h.placedIn_eq]
    exact hcalls.placed call hcall label huses
  shaped insn hinsn := h.wellShaped hcalls.proper hinsn
  bounds range hrange label hlabel := by
    obtain ⟨call, hcall, hentry⟩ := List.mem_flatMap.1 hrange
    rw [Body.placed, Body.ofParts, h.placedIn_eq]
    exact hcalls.placed call hcall label (Call.bounds_mem hentry hlabel)

end Lists

/-! ## Labels -/

section Labels

variable {next : Nat} {calls : List Call} {label : Label}

theorem Call.id_lt_of_places {call : Call} (hgiven : ∀ label ∈ call.given, label.id < next)
    (h : label ∈ call.places next) : label.id < next + call.draws := by
  cases call with
  | label =>
      obtain rfl := List.mem_singleton.1 h
      exact Nat.lt_succ_of_le (Label.id_ofNat_le next)
  | _ => exact Nat.lt_add_right _ (hgiven label h)

/-- Labels that calls use or place have been drawn by the end. -/
theorem DrawnFirst.id_lt (h : DrawnFirst next calls)
    (hlabel : label ∈ placedBy next calls ∨ ∃ call ∈ calls, label ∈ call.uses) :
    label.id < next + drawn calls := by
  induction calls generalizing next with
  | nil => rcases hlabel with hlabel | ⟨_, hlabel, -⟩ <;> cases hlabel
  | cons call calls ih =>
      obtain ⟨hcall, hcalls⟩ := h
      rw [drawn_cons, ← Nat.add_assoc]
      rcases hlabel with hplaced | ⟨other, hother, huses⟩
      · rcases List.mem_append.1 hplaced with hplaced | hplaced
        · refine Nat.lt_add_right _ (Call.id_lt_of_places (fun given hgiven => ?_) hplaced)
          exact hcall given (List.mem_append_right _ hgiven)
        · exact ih hcalls (.inl hplaced)
      · rcases List.mem_cons.1 hother with rfl | hother
        · have := hcall label (List.mem_append_left _ huses)
          omega
        · exact ih hcalls (.inr ⟨other, hother, huses⟩)

end Labels

end Assembler

/-! ## Labels drawn from a body -/

namespace Body

/-- The labels that are drawn from a body one after the other. -/
def fresh (body : Body) : Nat → List Label
  | 0 => []
  | count + 1 => body.newLabel.1 :: body.newLabel.2.fresh count

theorem fresh_eq (body : Body) (count : Nat) :
    body.fresh count = Label.successive body.nextLabel count := by
  induction count generalizing body with
  | zero => rfl
  | succ count ih =>
      rw [fresh, ih, Label.successive_succ]
      rfl

section OfParts

variable {code : List Instruction} {tryRanges : List TryRange} {maxStack maxLocals : UInt16}

/-- Labels that are drawn from a body are not mentioned there, and their numbers come right after
those of the labels that are, as long as they are words. -/
theorem apart_of_mem_fresh {bound count : Nat} (hroom : bound + count ≤ UInt32.size)
    (hbound : ∀ label ∈ (ofParts code tryRanges maxStack maxLocals).mentioned, label.id < bound)
    {label : Label} (h : label ∈ (ofParts code tryRanges maxStack maxLocals).fresh count) :
    label ∉ (ofParts code tryRanges maxStack maxLocals).mentioned ∧ label.id < bound + count := by
  have hwatermark := watermark_le hbound
  rw [watermark] at hwatermark
  rw [fresh_eq, Label.mem_successive (by omega)] at h
  obtain ⟨hfrom, hto⟩ := h
  refine ⟨fun hmentioned => Nat.not_lt.2 hfrom (id_lt_watermark (fun other hother => ?_)
    hmentioned), by omega⟩
  have := hbound other hother
  omega

end OfParts

end Body

namespace Assembler

/-- The labels that the body of drawn calls mentions have been drawn. -/
theorem Lists.id_lt_of_mentioned {next : Nat} {calls : List Call} {code : List Instruction}
    (h : Lists next calls code) (hdrawn : DrawnFirst next calls) (maxStack maxLocals : UInt16)
    {label : Label} (hlabel : label ∈
      (Body.ofParts code (calls.flatMap Call.ranges) maxStack maxLocals).mentioned) :
    label.id < next + drawn calls := by
  refine hdrawn.id_lt ?_
  rcases List.mem_append.1 hlabel with hlabel | hlabel
  · obtain ⟨insn, hinsn, hlabels⟩ := List.mem_flatMap.1 hlabel
    cases insn with
    | label placed =>
        obtain rfl := List.mem_singleton.1 hlabels
        exact .inl (h.placedIn_eq ▸ Body.mem_placedIn.2 hinsn)
    | _ => exact .inr (h.exists_uses hinsn hlabels)
  · obtain ⟨range, hrange, hlabels⟩ := List.mem_flatMap.1 hlabel
    obtain ⟨call, hcall, hentry⟩ := List.mem_flatMap.1 hrange
    exact .inr ⟨call, hcall, Call.bounds_mem hentry hlabels⟩

/-! ## Bodies one after the other -/

/-- The assembler after a body has been built of calls. -/
def nextBody (asm : Assembler) (calls : List Call) : Assembler :=
  (asm.run calls).build.2

/-- A new assembler after bodies have been built, each of the calls in one list. -/
def afterBodies (earlier : List (List Call)) : Assembler :=
  earlier.foldl nextBody {}

section AfterBodies

variable (earlier : List (List Call))

/-- Building a body collects its code and its exception table. -/
theorem collected_foldl {asm : Assembler} (h : asm.code = [] ∧ asm.tryRanges = []) :
    (earlier.foldl nextBody asm).code = [] ∧ (earlier.foldl nextBody asm).tryRanges = [] := by
  induction earlier generalizing asm with
  | nil => exact h
  | cons calls earlier ih => exact ih ⟨rfl, rfl⟩

theorem nextLabel_foldl (asm : Assembler) :
    (earlier.foldl nextBody asm).nextLabel = asm.nextLabel + drawn earlier.flatten := by
  induction earlier generalizing asm with
  | nil => exact (UInt32.add_zero _).symm
  | cons calls earlier ih =>
      have hbody : (asm.nextBody calls).nextLabel = asm.nextLabel + drawn calls :=
        asm.nextLabel_run calls
      rw [List.foldl_cons, ih, hbody, List.flatten_cons, drawn_append, UInt32.ofNat_add,
        UInt32.add_assoc]

theorem maxLocals_foldl (asm : Assembler) :
    (earlier.foldl nextBody asm).maxLocals.toNat =
      max asm.maxLocals.toNat (min (localsNeeded earlier.flatten) 0xffff) := by
  induction earlier generalizing asm with
  | nil => exact (Nat.max_eq_left (Nat.zero_le _)).symm
  | cons calls earlier ih =>
      have hbody : (asm.nextBody calls).maxLocals.toNat =
          max asm.maxLocals.toNat (min (localsNeeded calls) 0xffff) := asm.maxLocals_run calls
      rw [List.foldl_cons, ih, hbody, List.flatten_cons, localsNeeded_append]
      omega

theorem nextLabel_afterBodies : (afterBodies earlier).nextLabel = drawn earlier.flatten :=
  (nextLabel_foldl earlier {}).trans (UInt32.zero_add _)

theorem maxLocals_run_afterBodies (calls : List Call) :
    ((afterBodies earlier).run calls).maxLocals.toNat =
      min (localsNeeded (earlier.flatten ++ calls)) 0xffff := by
  rw [maxLocals_run, afterBodies, maxLocals_foldl, localsNeeded_append]
  have hstart : ({} : Assembler).maxLocals.toNat = 0 := rfl
  omega

end AfterBodies

/-- The parts that the assembler has collected after further calls. -/
theorem exists_lists_afterBodies (earlier : List (List Call)) {calls : List Call}
    (hproper : ∀ call ∈ calls, call.Proper) (hshort : ∀ call ∈ calls, call.Short) :
    Lists (drawn earlier.flatten) calls ((afterBodies earlier).run calls).code ∧
      ((afterBodies earlier).run calls).tryRanges = calls.flatMap Call.ranges := by
  have hstart : ({} : Assembler).code = [] ∧ ({} : Assembler).tryRanges = [] := ⟨rfl, rfl⟩
  obtain ⟨hcode, hranges⟩ := collected_foldl earlier hstart
  obtain ⟨code, hlists, hrun⟩ := (afterBodies earlier).exists_lists_run calls hproper hshort
    (nextLabel_afterBodies earlier)
  rw [tryRanges_run, hrun, afterBodies, hcode, hranges, List.nil_append, List.nil_append]
  exact ⟨hlists, rfl⟩

/-- The body that has been built is handed out just if it has no defect. -/
theorem finish_eq (asm : Assembler) :
    asm.finish = (asm.build.1.check.map fun _ => asm.build.1, asm.build.2) :=
  rfl

/-- Admissible calls give a body, whatever bodies the assembler has built before.  The code of the
body is what the calls stand for, and its exception table has their entries, both in the order of
the calls.  The limit on local variables is the greatest number that any call has asked for, those
for earlier bodies included, or the greatest word.  Labels that are drawn from the body are
different from each other and from the labels that the body mentions, and they are numbered on from
the labels that have been drawn before, as long as no more labels are drawn in all than there are
words. -/
theorem finish_admissible (earlier : List (List Call)) (calls : List Call)
    (h : Admissible (drawn earlier.flatten) calls) (hshort : ∀ call ∈ calls, call.Short) :
    ∃ body after, ((afterBodies earlier).run calls).finish = (.ok body, after) ∧
      Lists (drawn earlier.flatten) calls body.code ∧
      body.tryRanges = calls.flatMap Call.ranges ∧
      body.maxLocals.toNat = min (localsNeeded (earlier.flatten ++ calls)) 0xffff ∧
      ∀ count, drawn (earlier.flatten ++ calls) + count ≤ UInt32.size →
        (body.fresh count).Nodup ∧
          ∀ label ∈ body.fresh count, label ∉ body.mentioned ∧
            label.id < drawn (earlier.flatten ++ calls) + count := by
  obtain ⟨hlists, hranges⟩ := exists_lists_afterBodies earlier h.proper hshort
  have hbody : ((afterBodies earlier).run calls).build.1 =
      Body.ofParts ((afterBodies earlier).run calls).code (calls.flatMap Call.ranges)
        ((afterBodies earlier).run calls).maxStack ((afterBodies earlier).run calls).maxLocals := by
    rw [← hranges]
    rfl
  have hcheck := Body.check_eq_ok.2 (hlists.wellFormed h
    ((afterBodies earlier).run calls).maxStack ((afterBodies earlier).run calls).maxLocals)
  rw [← hbody] at hcheck
  refine ⟨((afterBodies earlier).run calls).build.1, ((afterBodies earlier).run calls).build.2,
    ?_, hlists, hranges, maxLocals_run_afterBodies earlier calls,
    fun count hroom => ⟨?_, fun label hlabel => ?_⟩⟩
  · rw [finish_eq, hcheck]
    rfl
  · rw [Body.fresh_eq]
    exact Label.nodup_successive (by omega)
  · rw [hbody] at hlabel ⊢
    rw [drawn_append] at hroom ⊢
    exact Body.apart_of_mem_fresh hroom (fun _ => hlists.id_lt_of_mentioned h.drawn _ _) hlabel

/-- The calls for a body with both kinds of switch and an exception table, when one label has been
drawn for the body before. -/
def dispatch : List Call :=
  [.newLabel, .label, .emit (.localVar .iload 1), .tableSwitch 3 ⟨1⟩ [⟨2⟩, ⟨1⟩],
    .emit (.localVar .lload 2), .lookupSwitch ⟨2⟩ [(5, ⟨2⟩), (-1, ⟨1⟩)], .place ⟨1⟩,
    .tryCatch ⟨2⟩ ⟨1⟩ ⟨1⟩ none]

theorem finish_admissible_dispatch :
    Admissible (drawn [[Call.label]].flatten) dispatch ∧ (∀ call ∈ dispatch, call.Short) ∧
      ∃ body after, ((afterBodies [[.label]]).run dispatch).finish = (.ok body, after) ∧
        Lists (drawn [[Call.label]].flatten) dispatch body.code ∧
        body.tryRanges = [⟨⟨2⟩, ⟨1⟩, ⟨1⟩, none⟩] ∧ body.maxLocals.toNat = 4 ∧
        ∀ count, 3 + count ≤ UInt32.size → (body.fresh count).Nodup ∧
          ∀ label ∈ body.fresh count, label ∉ body.mentioned ∧ label.id < 3 + count := by
  have hadmissible : Admissible (drawn [[Call.label]].flatten) dispatch :=
    { drawn := by simp [dispatch, DrawnFirst, Call.uses, Call.given, Call.draws, drawn,
        Instruction.targets, Body.placedIn]
      placed := by decide
      once := by decide
      proper := by simp [dispatch, Call.Proper, Instruction.isSwitch] }
  have hshort : ∀ call ∈ dispatch, call.Short := by simp [dispatch, Call.Short]
  exact ⟨hadmissible, hshort, finish_admissible [[.label]] dispatch hadmissible hshort⟩

/-! ## Calls that do not fit together -/

theorem wellFormed_of_finish {asm : Assembler} {body : Body} (h : asm.finish.1 = .ok body) :
    asm.build.1.WellFormed := by
  refine Body.check_eq_ok.1 ?_
  cases hcheck : asm.build.1.check with
  | error => rw [finish_eq, hcheck] at h; cases h
  | ok => rfl

/-- An accepted table switch has no more targets than the greatest integer there is: the last key
is that many keys beyond the first one at most. -/
theorem short_of_finish {asm : Assembler} {low : Int32} {otherwise : Label} {targets : List Label}
    {body : Body} (h : (asm.tableSwitch low otherwise targets).finish.1 = .ok body) :
    (Call.tableSwitch low otherwise targets).Short := by
  obtain ⟨-, hcount⟩ :=
    (wellFormed_of_finish h).shaped _ (List.mem_append_right _ List.mem_cons_self)
  have hlow := low.le_toInt
  have hmax : Int32.maxValue.toInt = 2147483647 := rfl
  have hmin : Int32.minValue.toInt = -2147483648 := rfl
  rw [hmax, hmin, Int32.toInt_ofInt_of_le (by omega) (by omega)] at hcount
  rw [Call.Short]
  omega

theorem admissible_tableSwitch {low : Int32} {targets : List Label} (hne : targets ≠ [])
    (htargets : ∀ target ∈ targets, target = ⟨0⟩)
    (hroom : low.toInt + targets.length - 1 ≤ 2147483647) :
    Admissible 0 [.label, .tableSwitch low ⟨0⟩ targets] where
  drawn := by simpa [DrawnFirst, Call.uses, Call.given, Call.draws] using
    fun target htarget => congrArg Label.id (htargets target htarget)
  placed := by simpa [Call.uses, placedBy, Call.places, Call.given] using htargets
  once := by simp [placedBy, Call.places, Call.given]
  proper := by
    rw [List.forall_mem_cons, List.forall_mem_singleton]
    exact ⟨trivial, hne, hroom⟩

/-- A label that was placed in the body before has not been placed in this one. Where a table switch
has as many targets as there are keys from the least integer to minus one, its last key comes out
one too low. -/
theorem unfinished :
    (Admissible 0 ([.newLabel, .place ⟨0⟩, .emit (.simple .returnVoid)] ++
        [.emit (.jump .goto ⟨0⟩)]) ∧
      ∀ body, ((afterBodies [[.newLabel, .place ⟨0⟩, .emit (.simple .returnVoid)]]).run
        [.emit (.jump .goto ⟨0⟩)]).finish.1 ≠ .ok body) ∧
    (Admissible 0 [.label, .tableSwitch Int32.minValue ⟨0⟩ (List.replicate 2147483648 ⟨0⟩)] ∧
      ∀ body, (run {} [.label,
        .tableSwitch Int32.minValue ⟨0⟩ (List.replicate 2147483648 ⟨0⟩)]).finish.1 ≠ .ok body) := by
  refine ⟨⟨?_, fun body h => ?_⟩, ?_, fun body h => ?_⟩
  · exact {
      drawn := by simp [DrawnFirst, Call.uses, Call.given, Call.draws, Instruction.targets,
        Body.placedIn]
      placed := by decide
      once := by decide
      proper := by simp [Call.Proper, Instruction.isSwitch] }
  · have hplaced := (wellFormed_of_finish h).targets _ List.mem_cons_self ⟨0⟩ List.mem_cons_self
    cases hplaced
  · generalize htargets : List.replicate 2147483648 (⟨0⟩ : Label) = targets
    have hcount : targets.length = 2147483648 := by rw [← htargets, List.length_replicate]
    refine admissible_tableSwitch (List.ne_nil_of_length_pos (by omega)) ?_ ?_
    · rw [← htargets]
      exact fun target htarget => List.eq_of_mem_replicate htarget
    · rw [hcount, Int32.toInt_minValue]
      decide
  · generalize htargets : List.replicate 2147483648 (⟨0⟩ : Label) = targets at h
    have hshort := short_of_finish h
    rw [Call.Short, ← htargets, List.length_replicate] at hshort
    omega

end Assembler

end BytecodeCoverage
