import BytecodeCoverage.Proofs.Scan.Enumerated
import BytecodeCoverage.Noise.Filter

/-!
# The history of a pass

A pattern sees what has been registered, and not what has been retracted.  So its state, and what it
asks for at an instruction, are functions of the history: of the instructions seen so far, the
latest first.

A pattern names a jump or a switch by its place among the registered ones.  It is shown that place
when it looks at the jump or the switch itself, and never again.

**Main definitions.**
* `Enumeration.registered`: what has been registered along a history.
* `Pattern.stateAfter`, `Pattern.askedAfter`: a pattern along a history.
* `Grows`: entries that are registered one after the other.

**Results.**
* `Enumeration.jumpHere_registered`, `Enumeration.switchHere_registered`: what a pattern is shown.
* `Enumeration.eq_of_jumpHere`, `Enumeration.eq_of_switchHere`: a place is shown only once.
-/

namespace BytecodeCoverage

/-! ## Histories -/

/-- What has been registered along a history. -/
def Enumeration.registered (e : Enumeration) : List Instruction → Ledger
  | [] => {}
  | insn :: seen => e.observe seen.length insn (e.registered seen)

namespace Pattern

/-- The state of a pattern after a history. -/
def stateAfter (p : Pattern) (e : Enumeration) : List Instruction → p.State
  | [] => p.idle
  | insn :: seen => (p.step (p.stateAfter e seen) insn (e.registered (insn :: seen))).1

/-- What a pattern asks for at the latest instruction of a history. -/
def askedAfter (p : Pattern) (e : Enumeration) : List Instruction → Action
  | [] => .nothing
  | insn :: seen => (p.step (p.stateAfter e seen) insn (e.registered (insn :: seen))).2

end Pattern

namespace Pattern

variable (p : Pattern) {e : Enumeration} {seen : List Instruction}

theorem stateAfter_eq_iff {state : p.State} {comes : p.State → Instruction → Ledger → Prop}
    (hidle : p.idle ≠ state)
    (hstep : ∀ before insn ledger,
      (p.step before insn ledger).1 = state ↔ comes before insn ledger) :
    p.stateAfter e seen = state ↔ ∃ insn earlier, seen = insn :: earlier ∧
      comes (p.stateAfter e earlier) insn (e.registered (insn :: earlier)) := by
  cases seen with
  | nil => simp [stateAfter, hidle]
  | cons insn earlier => simp [stateAfter, hstep]

/-- A state that is reached from one state by one instruction. -/
theorem stateAfter_eq_iff_cons {state previous : p.State} {fixed : Instruction}
    (hidle : p.idle ≠ state) (hstep : ∀ before insn ledger,
      (p.step before insn ledger).1 = state ↔ before = previous ∧ insn = fixed) :
    p.stateAfter e seen = state ↔
      ∃ earlier, seen = fixed :: earlier ∧ p.stateAfter e earlier = previous := by
  refine (p.stateAfter_eq_iff hidle hstep).trans ?_
  constructor
  · rintro ⟨_, earlier, rfl, hbefore, rfl⟩
    exact ⟨earlier, rfl, hbefore⟩
  · rintro ⟨earlier, rfl, hbefore⟩
    exact ⟨_, earlier, rfl, hbefore, rfl⟩

theorem askedAfter_eq_iff {action : Action} {asks : p.State → Instruction → Ledger → Prop}
    (hnothing : .nothing ≠ action)
    (hstep : ∀ before insn ledger,
      (p.step before insn ledger).2 = action ↔ asks before insn ledger) :
    p.askedAfter e seen = action ↔ ∃ insn earlier, seen = insn :: earlier ∧
      asks (p.stateAfter e earlier) insn (e.registered (insn :: earlier)) := by
  cases seen with
  | nil => simp [askedAfter, hnothing]
  | cons insn earlier => simp [askedAfter, hstep]

end Pattern

namespace Enumeration

variable (e : Enumeration) (insn : Instruction) (seen : List Instruction)

theorem reads_registered : (e.registered seen).Reads e seen.reverse := by
  induction seen with
  | nil => exact Ledger.Reads.start e
  | cons insn seen ih =>
      have h := ih.observe insn
      rw [List.length_reverse, ← List.reverse_cons] at h
      exact h

theorem bare_registered : (e.registered seen).bare = e.registered seen := by
  induction seen with
  | nil => rfl
  | cons insn seen ih => rw [registered, e.bare_observe, ih]

theorem position_observe (index : Nat) (ledger : Ledger) :
    (e.observe index insn ledger).position = index := by
  have hcount (ledger : Ledger) : ledger.countInstruction.position = ledger.position := by
    unfold Ledger.countInstruction
    split <;> rfl
  cases insn with
  | jump op target =>
      simp only [observe, register]
      split
      · rw [Ledger.registerJump_eq]
        exact hcount _
      · exact hcount _
  | tableSwitch low high otherwise targets | lookupSwitch otherwise keys targets =>
      simp only [observe, register, Instruction.switchKeys?]
      split
      · rw [Ledger.registerSwitch_eq]
        exact hcount _
      · exact hcount _
  | line number => rfl
  | label placed => rfl
  | _ => exact hcount _

/-- The jump that is registered for an instruction. -/
def newJump? : Option JumpSite :=
  if e.jumps then Body.jumpAt? (seen.reverse ++ [insn]) seen.length else none

/-- The switch that is registered for an instruction. -/
def newSwitch? : Option SwitchSite :=
  if e.switches then Body.switchAt? (seen.reverse ++ [insn]) seen.length else none

end Enumeration

/-! ## The places of entries -/

/-- A list of entries that grows along a history by at most one at each instruction. -/
structure Grows {α : Type} (entries : List Instruction → List α)
    (new? : Instruction → List Instruction → Option α) (index : α → Nat) : Prop where
  nil : entries [] = []
  cons : ∀ insn seen, entries (insn :: seen) = entries seen ++ (new? insn seen).toList
  index : ∀ insn seen, ∀ x ∈ new? insn seen, index x = seen.length

namespace Grows

variable {α : Type} {entries : List Instruction → List α}
  {new? : Instruction → List Instruction → Option α} {index : α → Nat}
  (h : Grows entries new? index) {seen upTo : List Instruction}

include h

theorem isPrefix (hupTo : upTo <:+ seen) : entries upTo <+: entries seen := by
  induction seen with
  | nil =>
      obtain rfl := List.suffix_nil.1 hupTo
      exact List.prefix_rfl
  | cons insn seen ih =>
      rcases List.suffix_cons_iff.1 hupTo with rfl | hearlier
      · exact List.prefix_rfl
      · rw [h.cons]
        exact (ih hearlier).trans (List.prefix_append _ _)

/-- An entry was new at the instruction where it stands. -/
theorem exists_new {k : Nat} {x : α} (hx : (entries seen)[k]? = some x) :
    ∃ insn before, insn :: before <:+ seen ∧ new? insn before = some x ∧
      (entries before).length = k := by
  induction seen with
  | nil => simp [h.nil] at hx
  | cons insn seen ih =>
      rw [h.cons] at hx
      rcases Nat.lt_or_ge k (entries seen).length with hlt | hge
      · rw [List.getElem?_append_left hlt] at hx
        obtain ⟨insn', before, hsuffix, hnew⟩ := ih hx
        exact ⟨insn', before, hsuffix.trans (List.suffix_cons insn seen), hnew⟩
      · rw [List.getElem?_append_right hge] at hx
        refine ⟨insn, seen, List.suffix_rfl, ?_, ?_⟩
        · cases hnew : new? insn seen with
          | none => simp [hnew] at hx
          | some y =>
              rw [hnew] at hx
              have hzero : k - (entries seen).length = 0 := by
                by_contra hne
                rw [Option.toList_some, List.getElem?_singleton, if_neg hne] at hx
                cases hx
              rw [hzero] at hx
              exact hx
        · have hlt := (List.getElem?_eq_some_iff.1 hx).1
          have hle : (new? insn seen).toList.length ≤ 1 := by cases new? insn seen <;> simp
          omega

theorem index_lt {x : α} (hx : x ∈ entries seen) : index x < seen.length := by
  obtain ⟨k, hk⟩ := List.mem_iff_getElem?.1 hx
  obtain ⟨insn, before, hsuffix, hnew, -⟩ := h.exists_new hk
  rw [h.index insn before x hnew]
  exact hsuffix.length_le

/-- A new entry keeps its place. -/
theorem getElem?_of_new {insn : Instruction} {before : List Instruction} {x : α}
    (hbefore : insn :: before <:+ seen) (hx : new? insn before = some x) :
    (entries seen)[(entries before).length]? = some x := by
  refine List.getElem?_eq_some_iff.2 ?_
  have hprefix := h.isPrefix hbefore
  rw [h.cons, hx] at hprefix
  obtain ⟨later, hlater⟩ := hprefix
  rw [← hlater]
  simp

/-- An entry is among the first ones as soon as its instruction has been seen. -/
theorem length_lt_iff {insn : Instruction} {before : List Instruction} {x : α}
    (hbefore : insn :: before <:+ seen) (hx : new? insn before = some x) (hupTo : upTo <:+ seen) :
    (entries before).length < (entries upTo).length ↔ insn :: before <:+ upTo := by
  constructor
  · intro hlt
    rcases Nat.le_total (insn :: before).length upTo.length with hle | hge
    · exact List.suffix_of_suffix_length_le hbefore hupTo hle
    · rcases List.suffix_cons_iff.1 (List.suffix_of_suffix_length_le hupTo hbefore hge) with
        rfl | hearlier
      · exact List.suffix_rfl
      · exact absurd (h.isPrefix hearlier).length_le (Nat.not_le.2 hlt)
  · intro hafter
    exact (List.getElem?_eq_some_iff.1 (h.getElem?_of_new hafter hx)).1

/-- Two instructions do not have entries at one place. -/
theorem eq_of_place {insn insn' : Instruction} {before before' : List Instruction} {x x' : α}
    (hbefore : insn :: before <:+ seen) (hx : new? insn before = some x)
    (hbefore' : insn' :: before' <:+ seen) (hx' : new? insn' before' = some x')
    (hplace : (entries before).length = (entries before').length) :
    insn :: before = insn' :: before' := by
  have hle : insn :: before <:+ insn' :: before' :=
    (h.length_lt_iff hbefore hx hbefore').1 (by simp [h.cons, hx', hplace])
  have hge : insn' :: before' <:+ insn :: before :=
    (h.length_lt_iff hbefore' hx' hbefore).1 (by simp [h.cons, hx, hplace])
  exact hle.eq_of_length (Nat.le_antisymm hle.length_le hge.length_le)

/-- The last entry stands at the latest instruction if it was new there. -/
theorem filter_lastOf (insn : Instruction) (seen : List Instruction) :
    ((Ledger.lastOf (entries (insn :: seen)).length).filter fun k =>
        (entries (insn :: seen))[k]?.any fun x => index x == seen.length) =
      (new? insn seen).map fun _ => (entries seen).length := by
  rw [h.cons]
  cases hnew : new? insn seen with
  | some x => simp [Ledger.lastOf, h.index insn seen x hnew]
  | none =>
      rw [Option.toList_none, List.append_nil, Option.map_none, Option.filter_eq_none_iff]
      intro k hk
      rw [Option.any_eq_true]
      rintro ⟨x, hx, hindex⟩
      -- Every entry stands at an earlier instruction.
      have hlt := h.index_lt (List.mem_of_getElem? hx)
      exact absurd (beq_iff_eq.1 hindex) (Nat.ne_of_lt hlt)

end Grows

namespace Enumeration

variable (e : Enumeration) {insn : Instruction} {seen : List Instruction}

theorem jumps_grow :
    Grows (fun seen => (e.registered seen).jumps) e.newJump? JumpSite.index where
  nil := rfl
  cons insn seen := by
    have hafter := (e.reads_registered (insn :: seen)).jumps
    have hbefore := (e.reads_registered seen).jumps
    rw [List.reverse_cons, Body.jumps_concat] at hafter
    rw [List.length_reverse] at hafter hbefore
    rw [hafter, hbefore, newJump?]
    split <;> rfl
  index insn seen site hsite := by
    unfold newJump? Body.jumpAt? at hsite
    split at hsite
    · split at hsite
      · obtain ⟨line, -, rfl⟩ := Option.map_eq_some_iff.1 hsite
        rfl
      · cases hsite
    · cases hsite

theorem switches_grow :
    Grows (fun seen => (e.registered seen).switches) e.newSwitch? SwitchSite.index where
  nil := rfl
  cons insn seen := by
    have hafter := (e.reads_registered (insn :: seen)).switches
    have hbefore := (e.reads_registered seen).switches
    rw [List.reverse_cons, Body.switches_concat] at hafter
    rw [List.length_reverse] at hafter hbefore
    rw [hafter, hbefore, newSwitch?]
    split <;> rfl
  index insn seen site hsite := by
    unfold newSwitch? Body.switchAt? at hsite
    split at hsite
    · obtain ⟨keys, -, hsite⟩ := Option.bind_eq_some_iff.1 hsite
      obtain ⟨line, -, rfl⟩ := Option.map_eq_some_iff.1 hsite
      rfl
    · cases hsite

/-- The jump that the filters are shown for an instruction. -/
theorem jumpHere_registered (insn : Instruction) (seen : List Instruction) :
    (e.registered (insn :: seen)).jumpHere =
      (e.newJump? insn seen).map fun _ => ⟨(e.registered seen).jumps.length⟩ := by
  have hlast := congrArg (Option.map JumpId.mk) (e.jumps_grow.filter_lastOf insn seen)
  rw [Option.map_map] at hlast
  refine Eq.trans ?_ hlast
  rw [Ledger.jumpHere, Ledger.lastJump, Option.filter_map]
  simp only [Function.comp_def, Ledger.jump?, registered, position_observe]

/-- The switch that the filters are shown for an instruction. -/
theorem switchHere_registered (insn : Instruction) (seen : List Instruction) :
    (e.registered (insn :: seen)).switchHere =
      (e.newSwitch? insn seen).map fun _ => ⟨(e.registered seen).switches.length⟩ := by
  have hlast := congrArg (Option.map SwitchId.mk) (e.switches_grow.filter_lastOf insn seen)
  rw [Option.map_map] at hlast
  refine Eq.trans ?_ hlast
  rw [Ledger.switchHere, Ledger.lastSwitch, Option.filter_map]
  simp only [Function.comp_def, Ledger.switch?, registered, position_observe]

/-- Only markers change the line. -/
theorem currentLine_registered (hline : insn.isLine = false) :
    (e.registered (insn :: seen)).currentLine = (e.registered seen).currentLine := by
  rw [(e.reads_registered _).currentLine, (e.reads_registered _).currentLine, List.reverse_cons,
    Body.markedLines_append]
  cases insn with
  | line number => cases hline
  | _ => exact congrArg List.getLast? (List.append_nil _)

/-- A conditional jump is shown if jumps are registered and a marker comes before it. -/
theorem isSome_jumpHere (insn : Instruction) (seen : List Instruction) :
    (e.registered (insn :: seen)).jumpHere.isSome =
      (e.jumps && insn.isConditionalJump && (e.registered seen).currentLine.isSome) := by
  have hconcat := Body.jumpAt?_concat seen.reverse insn
  rw [List.length_reverse] at hconcat
  rw [e.jumpHere_registered, Option.isSome_map, newJump?, hconcat,
    (e.reads_registered seen).currentLine]
  cases e.jumps <;> cases insn.isConditionalJump <;> simp

/-- A switch is shown if switches are registered and a marker comes before it. -/
theorem isSome_switchHere (insn : Instruction) (seen : List Instruction) :
    (e.registered (insn :: seen)).switchHere.isSome =
      (e.switches && insn.isSwitch && (e.registered seen).currentLine.isSome) := by
  have hconcat := Body.switchAt?_concat seen.reverse insn
  rw [List.length_reverse] at hconcat
  rw [e.switchHere_registered, Option.isSome_map, newSwitch?, hconcat,
    (e.reads_registered seen).currentLine]
  cases e.switches <;> cases insn <;> simp [Instruction.switchKeys?, Instruction.isSwitch]

theorem exists_newJump {e : Enumeration} {seen : List Instruction} {id : JumpId}
    (h : (e.registered seen).jumpHere = some id) : ∃ insn before site, seen = insn :: before ∧
      e.newJump? insn before = some site ∧ id = ⟨(e.registered before).jumps.length⟩ := by
  cases seen with
  | nil => cases h
  | cons insn before =>
      rw [e.jumpHere_registered] at h
      obtain ⟨site, hsite, rfl⟩ := Option.map_eq_some_iff.1 h
      exact ⟨insn, before, site, rfl, hsite, rfl⟩

/-- A jump is shown under its name only once. -/
theorem eq_of_jumpHere {e : Enumeration} {seen a b : List Instruction} {id : JumpId}
    (ha : a <:+ seen) (hb : b <:+ seen) (hida : (e.registered a).jumpHere = some id)
    (hidb : (e.registered b).jumpHere = some id) : a = b := by
  obtain ⟨insn, before, site, rfl, hsite, rfl⟩ := exists_newJump hida
  obtain ⟨insn', before', site', rfl, hsite', hplace⟩ := exists_newJump hidb
  exact e.jumps_grow.eq_of_place ha hsite hb hsite' (JumpId.mk.inj hplace)

theorem exists_newSwitch {e : Enumeration} {seen : List Instruction} {id : SwitchId}
    (h : (e.registered seen).switchHere = some id) : ∃ insn before site, seen = insn :: before ∧
      e.newSwitch? insn before = some site ∧ id = ⟨(e.registered before).switches.length⟩ := by
  cases seen with
  | nil => cases h
  | cons insn before =>
      rw [e.switchHere_registered] at h
      obtain ⟨site, hsite, rfl⟩ := Option.map_eq_some_iff.1 h
      exact ⟨insn, before, site, rfl, hsite, rfl⟩

/-- A switch is shown under its name only once. -/
theorem eq_of_switchHere {e : Enumeration} {seen a b : List Instruction} {id : SwitchId}
    (ha : a <:+ seen) (hb : b <:+ seen) (hida : (e.registered a).switchHere = some id)
    (hidb : (e.registered b).switchHere = some id) : a = b := by
  obtain ⟨insn, before, site, rfl, hsite, rfl⟩ := exists_newSwitch hida
  obtain ⟨insn', before', site', rfl, hsite', hplace⟩ := exists_newSwitch hidb
  exact e.switches_grow.eq_of_place ha hsite hb hsite' (SwitchId.mk.inj hplace)

end Enumeration

end BytecodeCoverage
