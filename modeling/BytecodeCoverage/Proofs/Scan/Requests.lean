import BytecodeCoverage.Proofs.Noise.Asked
import BytecodeCoverage.Proofs.Scan.Order

/-!
# What filters ask for along a pass

A scan is the one without filters, those entries being retracted that some filter asked for at some
point of the history, once they had been registered.  Markers, jumps, switches and defaults are
entries of four kinds, for which this is proved in one go.

**Main definitions.**
* `Scan.Kind`: entries of one kind, with the requests that retract them.
* `Scan.withFilters`: the pass with some filters of the library.

**Results.**
* `Scan.Kind.Lawful.retracted_passFrom`: an entry is retracted if a filter has asked for it.
* `Scan.exists_jump`, `Scan.exists_switch`: the jumps, the switches and the defaults that are
  retracted.
* `Scan.markers_withFilters`: filters that retract no markers.
* `Filter.Finds.retracted_iff`: the jumps that are retracted by a filter that finds a pattern.
* `Scan.exists_of_jumpAt?`, `Scan.exists_of_switchAt?`: what is registered.
-/

namespace BytecodeCoverage

open Noise

/-- The states of all filters after a history. -/
def Filter.States.after (e : Enumeration) (seen : List Instruction) : Filter.States :=
  fun filter => filter.pattern.stateAfter e seen

/-! ## Requests -/

/-- The entries of a list that are flagged are those at certain places. -/
def Flagged {α : Type} (flag : α → Bool) (l : List α) (places : Nat → Prop) : Prop :=
  ∀ k x, l[k]? = some x → (flag x = true ↔ places k)

namespace Flagged

variable {α : Type} {flag : α → Bool} {l : List α} {places places' : Nat → Prop}

theorem congr (h : Flagged flag l places) (hplaces : ∀ k < l.length, places k ↔ places' k) :
    Flagged flag l places' :=
  fun k x hx => (h k x hx).trans (hplaces k (List.getElem?_eq_some_iff.1 hx).1)

theorem modify (h : Flagged flag l places) {raise : α → α} (hraise : ∀ x, flag (raise x) = true)
    (n : Nat) : Flagged flag (l.modify n raise) fun k => places k ∨ k = n := by
  intro k x hx
  rw [List.getElem?_modify] at hx
  obtain ⟨y, hy, rfl⟩ := Option.map_eq_some_iff.1 hx
  by_cases hk : n = k
  · simp [hk, hraise]
  · simp [hk, Ne.symm hk, h k y hy]

/-- New entries are not flagged. -/
theorem append (h : Flagged flag l places) (hplaces : ∀ k, places k → k < l.length) {new : List α}
    (hnew : ∀ x ∈ new, flag x = false) : Flagged flag (l ++ new) places := by
  intro k x hx
  rcases Nat.lt_or_ge k l.length with hlt | hge
  · rw [List.getElem?_append_left hlt] at hx
    exact h k x hx
  · rw [List.getElem?_append_right hge] at hx
    rw [hnew x (List.mem_of_getElem? hx)]
    exact iff_of_false Bool.false_ne_true fun hk => absurd (hplaces k hk) (Nat.not_lt.2 hge)

end Flagged

/-- Entries of one kind: where they are held, which of them are retracted, and which requests
retract the one at a place. -/
structure Scan.Kind (α : Type) where
  entries : Ledger → List α
  retracted : α → Bool
  retracts : Action → Nat → Prop

namespace Scan.Kind

/-- Some filter has asked for the retraction of an entry that was registered. -/
def Asked {α : Type} (kind : Kind α) (filters : List Filter) (e : Enumeration)
    (seen : List Instruction) (k : Nat) : Prop :=
  ∃ filter ∈ filters, ∃ upTo, upTo <:+ seen ∧
    kind.retracts (filter.pattern.askedAfter e upTo) k ∧
      k < (kind.entries (e.registered upTo)).length

/-- A request retracts the entries that it says it does, and new entries are not retracted. -/
structure Lawful {α : Type} (kind : Kind α) : Prop where
  bare : ∀ ledger, (kind.entries ledger.bare).length = (kind.entries ledger).length
  observe : ∀ (e : Enumeration) (index : Nat) (insn : Instruction) (ledger : Ledger), ∃ new,
    kind.entries (e.observe index insn ledger) = kind.entries ledger ++ new ∧
      ∀ x ∈ new, kind.retracted x = false
  apply : ∀ {atSwitch : Bool} {action : Action}, action.Suits atSwitch → ∀ {ledger places},
    Flagged kind.retracted (kind.entries ledger) places →
      Flagged kind.retracted (kind.entries (action.apply ledger).1) fun k =>
        places k ∨ kind.retracts action k

namespace Lawful

variable {α : Type} {kind : Kind α} (hkind : kind.Lawful) {filters : List Filter} {e : Enumeration}
  {insn : Instruction} {seen : List Instruction} {ledger : Ledger}

include hkind

theorem perform {atSwitch : Bool} {actions : List Action}
    (hsuits : ∀ action ∈ actions, action.Suits atSwitch) {places : Nat → Prop}
    (h : Flagged kind.retracted (kind.entries ledger) places) :
    Flagged kind.retracted (kind.entries (ledger.perform actions)) fun k =>
      places k ∨ ∃ action ∈ actions, kind.retracts action k := by
  induction actions generalizing ledger places with
  | nil => exact h.congr fun k _ => by simp
  | cons action rest ih =>
      rw [List.forall_mem_cons] at hsuits
      exact (ih hsuits.2 (hkind.apply hsuits.1 h)).congr fun k _ => by simp [or_assoc]

theorem length_eq_of_bare (h : ledger.bare = e.registered seen) :
    (kind.entries ledger).length = (kind.entries (e.registered seen)).length := by
  rw [← hkind.bare, h]

theorem length_registered_le {upTo : List Instruction} (h : upTo <:+ seen) :
    (kind.entries (e.registered upTo)).length ≤ (kind.entries (e.registered seen)).length := by
  induction seen with
  | nil =>
      obtain rfl := List.suffix_nil.1 h
      exact Nat.le_refl _
  | cons insn seen ih =>
      rcases List.suffix_cons_iff.1 h with rfl | hearlier
      · exact Nat.le_refl _
      · obtain ⟨new, hnew, -⟩ := hkind.observe e seen.length insn (e.registered seen)
        rw [Enumeration.registered, hnew, List.length_append]
        exact Nat.le_add_right_of_le (ih hearlier)

end Lawful

end Scan.Kind

/-! ## The pass -/

namespace Scan

variable {filters : List Filter} {e : Enumeration} {insn : Instruction} {seen : List Instruction}
  {ledger : Ledger}

theorem bare_observe_of_bare (h : ledger.bare = e.registered seen) :
    (e.observe seen.length insn ledger).bare = e.registered (insn :: seen) := by
  rw [e.bare_observe, h, Enumeration.registered]

/-- One instruction: the filters go on along the history, and what they ask for is performed. -/
theorem observeAll_after (h : ledger.bare = e.registered seen) :
    Matcher.observeAll insn (filters.map (Filter.States.after e seen).matcher)
        (e.observe seen.length insn ledger) =
      (filters.map (Filter.States.after e (insn :: seen)).matcher,
        (e.observe seen.length insn ledger).perform
          (filters.map fun filter => filter.pattern.askedAfter e (insn :: seen))) := by
  -- The ledger at hand has retractions that the one of the history has not; no filter sees them.
  have hstep (filter : Filter) :
      filter.pattern.step (filter.pattern.stateAfter e seen) insn
          (e.observe seen.length insn ledger) =
        filter.pattern.step (filter.pattern.stateAfter e seen) insn
          (e.registered (insn :: seen)) := by
    refine filter.independent_pattern.step_congr _ insn ?_
    rw [bare_observe_of_bare h, e.bare_registered]
  have hnext : (Filter.States.after e seen).next insn (e.observe seen.length insn ledger) =
      Filter.States.after e (insn :: seen) :=
    funext fun filter => congrArg Prod.fst (hstep filter)
  have hasked : (Filter.States.after e seen).asked insn (e.observe seen.length insn ledger) =
      fun filter => filter.pattern.askedAfter e (insn :: seen) :=
    funext fun filter => congrArg Prod.snd (hstep filter)
  rw [Filter.States.observeAll_map, hnext, hasked]

theorem bare_perform_of_bare (h : ledger.bare = e.registered seen) :
    ((e.observe seen.length insn ledger).perform
      (filters.map fun filter => filter.pattern.askedAfter e (insn :: seen))).bare =
        e.registered (insn :: seen) := by
  have hall := Matcher.bare_observeAll insn (filters.map (Filter.States.after e seen).matcher)
    (e.observe seen.length insn ledger)
  rw [observeAll_after h, bare_observe_of_bare h] at hall
  exact hall

theorem suits_askedAfter (filter : Filter) (insn : Instruction) (seen : List Instruction) :
    (filter.pattern.askedAfter e (insn :: seen)).Suits insn.isSwitch :=
  filter.independent_pattern.suits_step ..

/-- The filters are in the states after the history, and nothing else has been registered. -/
theorem passFrom_after (filters : List Filter) (h : ledger.bare = e.registered seen)
    (rest : List Instruction) :
    (passFrom e seen.length rest (filters.map (Filter.States.after e seen).matcher) ledger).1 =
        filters.map (Filter.States.after e (rest.reverse ++ seen)).matcher ∧
      (passFrom e seen.length rest (filters.map (Filter.States.after e seen).matcher)
        ledger).2.bare = e.registered (rest.reverse ++ seen) := by
  induction rest generalizing seen ledger with
  | nil => exact ⟨rfl, h⟩
  | cons insn rest ih =>
      rw [passFrom, observeAll_after h, List.reverse_cons, List.append_assoc]
      exact ih (bare_perform_of_bare h)

end Scan

namespace Scan.Kind.Lawful

variable {α : Type} {kind : Kind α} (hkind : kind.Lawful) {filters : List Filter} {e : Enumeration}
  {insn : Instruction} {seen : List Instruction} {ledger : Ledger}

include hkind

/-- One instruction. -/
theorem observeAll (h : ledger.bare = e.registered seen)
    (hflagged : Flagged kind.retracted (kind.entries ledger) (kind.Asked filters e seen)) :
    Flagged kind.retracted
      (kind.entries ((e.observe seen.length insn ledger).perform
        (filters.map fun filter => filter.pattern.askedAfter e (insn :: seen))))
      (kind.Asked filters e (insn :: seen)) := by
  obtain ⟨new, hnew, hfresh⟩ := hkind.observe e seen.length insn ledger
  -- What is new here cannot have been asked for.
  have hregistered (k : Nat) (hk : kind.Asked filters e seen k) :
      k < (kind.entries ledger).length := by
    obtain ⟨filter, -, upTo, hupTo, -, hlt⟩ := hk
    rw [hkind.length_eq_of_bare h]
    exact Nat.lt_of_lt_of_le hlt (hkind.length_registered_le hupTo)
  have hobserved : Flagged kind.retracted (kind.entries (e.observe seen.length insn ledger))
      (kind.Asked filters e seen) := by
    rw [hnew]
    exact hflagged.append hregistered hfresh
  have hsuits : ∀ action ∈ filters.map fun filter => filter.pattern.askedAfter e (insn :: seen),
      action.Suits insn.isSwitch := by
    intro action haction
    obtain ⟨filter, -, rfl⟩ := List.mem_map.1 haction
    exact suits_askedAfter filter insn seen
  refine (hkind.perform hsuits hobserved).congr fun k hk => ?_
  rw [hkind.length_eq_of_bare (bare_perform_of_bare h)] at hk
  constructor
  · rintro (⟨filter, hfilter, upTo, hupTo, hrest⟩ | ⟨action, haction, hretracts⟩)
    · exact ⟨filter, hfilter, upTo, hupTo.trans (List.suffix_cons insn seen), hrest⟩
    · obtain ⟨filter, hfilter, rfl⟩ := List.mem_map.1 haction
      exact ⟨filter, hfilter, insn :: seen, List.suffix_rfl, hretracts, hk⟩
  · rintro ⟨filter, hfilter, upTo, hupTo, hretracts, hlt⟩
    rcases List.suffix_cons_iff.1 hupTo with rfl | hearlier
    · exact .inr ⟨_, List.mem_map_of_mem hfilter, hretracts⟩
    · exact .inl ⟨filter, hfilter, upTo, hearlier, hretracts, hlt⟩

/-- Along the pass those entries are retracted that some filter has asked for. -/
theorem retracted_passFrom (rest : List Instruction) (h : ledger.bare = e.registered seen)
    (hflagged : Flagged kind.retracted (kind.entries ledger) (kind.Asked filters e seen)) :
    Flagged kind.retracted
      (kind.entries (passFrom e seen.length rest
        (filters.map (Filter.States.after e seen).matcher) ledger).2)
      (kind.Asked filters e (rest.reverse ++ seen)) := by
  induction rest generalizing seen ledger with
  | nil => exact hflagged
  | cons insn rest ih =>
      rw [passFrom, observeAll_after h, List.reverse_cons, List.append_assoc]
      exact ih (bare_perform_of_bare h) (hkind.observeAll h hflagged)

end Scan.Kind.Lawful

/-! ## Markers, jumps and switches -/

theorem Enumeration.observe_appends (e : Enumeration) (index : Nat) (insn : Instruction)
    (ledger : Ledger) : ∃ markers jumps switches,
      (e.observe index insn ledger).markers = ledger.markers ++ markers ∧
      (e.observe index insn ledger).jumps = ledger.jumps ++ jumps ∧
      (e.observe index insn ledger).switches = ledger.switches ++ switches ∧
      (∀ marker ∈ markers, marker.retracted = false) ∧ (∀ site ∈ jumps, site.retracted = false) ∧
      ∀ site ∈ switches, site.retracted = false ∧ site.defaultRetracted = false := by
  have hcount := (ledger.advance index).countInstruction_keeps
  obtain ⟨-, hmarkers, hjumps, hswitches⟩ := hcount
  have hplain : ∃ markers jumps switches,
      (ledger.advance index).countInstruction.markers = ledger.markers ++ markers ∧
      (ledger.advance index).countInstruction.jumps = ledger.jumps ++ jumps ∧
      (ledger.advance index).countInstruction.switches = ledger.switches ++ switches ∧
      (∀ marker ∈ markers, marker.retracted = false) ∧ (∀ site ∈ jumps, site.retracted = false) ∧
      ∀ site ∈ switches, site.retracted = false ∧ site.defaultRetracted = false :=
    ⟨[], [], [], by rw [hmarkers]; simp [Ledger.advance], by rw [hjumps]; simp [Ledger.advance],
      by rw [hswitches]; simp [Ledger.advance], by simp⟩
  cases insn with
  | line number => exact ⟨[{ index, line := number }], [], [], by simp [observe, register,
      Ledger.registerLine, Ledger.advance]⟩
  | label placed => exact ⟨[], [], [], by simp [observe, register, Ledger.advance]⟩
  | jump op target =>
      simp only [observe, register]
      split
      · rw [Ledger.registerJump_eq]
        refine ⟨[], _, [], ?_, congrArg (· ++ _) hjumps, ?_, by simp, ?_, by simp⟩
        · rw [hmarkers, List.append_nil]
          rfl
        · rw [hswitches, List.append_nil]
          rfl
        · intro site hsite
          rw [Option.mem_toList, Option.map_eq_some_iff] at hsite
          obtain ⟨line, -, rfl⟩ := hsite
          rfl
      · exact hplain
  | tableSwitch low high otherwise targets | lookupSwitch otherwise keys targets =>
      simp only [observe, register, Instruction.switchKeys?]
      split
      · rw [Ledger.registerSwitch_eq]
        refine ⟨[], [], _, ?_, ?_, congrArg (· ++ _) hswitches, by simp, by simp, ?_⟩
        · rw [hmarkers, List.append_nil]
          rfl
        · rw [hjumps, List.append_nil]
          rfl
        · intro site hsite
          rw [Option.mem_toList, Option.map_eq_some_iff] at hsite
          obtain ⟨line, -, rfl⟩ := hsite
          exact ⟨rfl, rfl⟩
      · exact hplain
  | _ => exact hplain

namespace Scan.Kind

/-- The markers. -/
def markers : Kind Marker where
  entries ledger := ledger.markers
  retracted := Marker.retracted
  retracts action k := action = .line ⟨k⟩

/-- The jumps. -/
def jumps : Kind JumpSite where
  entries ledger := ledger.jumps
  retracted := JumpSite.retracted
  retracts action k := action = .jump ⟨k⟩

/-- The switches. -/
def switches : Kind SwitchSite where
  entries ledger := ledger.switches
  retracted := SwitchSite.retracted
  retracts action k := action = .switch ⟨k⟩

/-- The defaults: a switch without its default, or one that is retracted as a whole. -/
def defaults : Kind SwitchSite where
  entries ledger := ledger.switches
  retracted site := site.retracted || site.defaultRetracted
  retracts action k := action = .switch ⟨k⟩ ∨ action = .switchDefault ⟨k⟩

theorem lawful_markers : markers.Lawful where
  bare ledger := by simp [markers, Ledger.bare]
  observe e index insn ledger := by
    obtain ⟨new, -, -, hnew, -, -, hfresh, -⟩ := e.observe_appends index insn ledger
    exact ⟨new, hnew, hfresh⟩
  apply {_ action} hsuits ledger places h := by
    cases action with
    | line id =>
        simp only [Action.apply, ledger.removeLine_fst]
        refine (h.modify (fun _ => rfl) id.pos).congr fun k _ => or_congr_right ?_
        obtain ⟨pos⟩ := id
        simp [markers, eq_comm]
    | nothing | jump id | switch id | switchDefault id =>
        simp only [Action.apply, Ledger.removeJump_fst, Ledger.removeSwitch_fst,
          Ledger.removeSwitchDefault_fst]
        exact h.congr fun k _ => by simp [markers]
    | _ => exact hsuits.elim

theorem lawful_jumps : jumps.Lawful where
  bare ledger := by simp [jumps, Ledger.bare]
  observe e index insn ledger := by
    obtain ⟨-, new, -, -, hnew, -, -, hfresh, -⟩ := e.observe_appends index insn ledger
    exact ⟨new, hnew, hfresh⟩
  apply {_ action} hsuits ledger places h := by
    cases action with
    | jump id =>
        simp only [Action.apply, ledger.removeJump_fst]
        refine (h.modify (fun _ => rfl) id.pos).congr fun k _ => or_congr_right ?_
        obtain ⟨pos⟩ := id
        simp [jumps, eq_comm]
    | nothing | line id | switch id | switchDefault id =>
        simp only [Action.apply, Ledger.removeLine_fst, Ledger.removeSwitch_fst,
          Ledger.removeSwitchDefault_fst]
        exact h.congr fun k _ => by simp [jumps]
    | _ => exact hsuits.elim

theorem observe_switches (e : Enumeration) (index : Nat) (insn : Instruction) (ledger : Ledger) :
    ∃ new, (e.observe index insn ledger).switches = ledger.switches ++ new ∧
      ∀ site ∈ new, site.retracted = false ∧ site.defaultRetracted = false := by
  obtain ⟨-, -, new, -, -, hnew, -, -, hfresh⟩ := e.observe_appends index insn ledger
  exact ⟨new, hnew, hfresh⟩

theorem lawful_switches : switches.Lawful where
  bare ledger := by simp [switches, Ledger.bare]
  observe e index insn ledger := by
    obtain ⟨new, hnew, hfresh⟩ := observe_switches e index insn ledger
    exact ⟨new, hnew, fun site hsite => (hfresh site hsite).1⟩
  apply {_ action} hsuits ledger places h := by
    cases action with
    | switch id =>
        simp only [Action.apply, ledger.removeSwitch_fst]
        refine (h.modify (fun _ => rfl) id.pos).congr fun k _ => or_congr_right ?_
        obtain ⟨pos⟩ := id
        simp [switches, eq_comm]
    | switchDefault id =>
        -- The default of a switch is no switch, so the flag looked at stays.
        simp only [Action.apply, ledger.removeSwitchDefault_fst]
        intro k site hsite
        rw [switches, List.getElem?_modify] at hsite
        obtain ⟨before, hbefore, rfl⟩ := Option.map_eq_some_iff.1 hsite
        have hflag : (if id.pos = k then before.retractDefault else before).retracted =
            before.retracted := by
          split <;> rfl
        simpa [switches, hflag] using h k before hbefore
    | nothing | line id | jump id =>
        simp only [Action.apply, Ledger.removeLine_fst, Ledger.removeJump_fst]
        exact h.congr fun k _ => by simp [switches]
    | _ => exact hsuits.elim

theorem lawful_defaults : defaults.Lawful where
  bare ledger := by simp [defaults, Ledger.bare]
  observe e index insn ledger := by
    obtain ⟨new, hnew, hfresh⟩ := observe_switches e index insn ledger
    exact ⟨new, hnew, fun site hsite => by simp [defaults, hfresh site hsite]⟩
  apply {_ action} hsuits ledger places h := by
    cases action with
    | switch id =>
        simp only [Action.apply, ledger.removeSwitch_fst]
        refine (h.modify (fun _ => rfl) id.pos).congr fun k _ => or_congr_right ?_
        obtain ⟨pos⟩ := id
        simp [defaults, eq_comm]
    | switchDefault id =>
        simp only [Action.apply, ledger.removeSwitchDefault_fst]
        refine (h.modify (fun site => ?_) id.pos).congr fun k _ => or_congr_right ?_
        · cases hretracted : site.retracted <;>
            simp [defaults, SwitchSite.retractDefault, hretracted]
        · obtain ⟨pos⟩ := id
          simp [defaults, eq_comm]
    | nothing | line id | jump id =>
        simp only [Action.apply, Ledger.removeLine_fst, Ledger.removeJump_fst]
        exact h.congr fun k _ => by simp [defaults]
    | _ => exact hsuits.elim

end Scan.Kind

/-! ## The whole scan -/

theorem Noise.ClosingLine.onlyLine_finish (closing : State) (ledger : Ledger) :
    (finish closing ledger).OnlyLine := by
  unfold finish
  split
  · split
    · split <;> trivial
    · trivial
  · trivial

namespace Filter.States

theorem onlyLine_askedLast (states : States) (ledger : Ledger) (filter : Filter) :
    (states.askedLast ledger filter).OnlyLine := by
  cases filter with
  | tryFinally =>
      change (TryFinally.finish (states .tryFinally) ledger).OnlyLine
      cases states .tryFinally <;> trivial
  | closingLine => exact ClosingLine.onlyLine_finish (states .closingLine) ledger
  | _ => trivial

/-- The end of the pass leaves jumps and switches alone. -/
theorem branches_finishAll (states : States) (filters : List Filter) (ledger : Ledger) :
    (Matcher.finishAll (filters.map states.matcher) ledger).jumps = ledger.jumps ∧
      (Matcher.finishAll (filters.map states.matcher) ledger).switches = ledger.switches := by
  induction filters generalizing ledger with
  | nil => exact ⟨rfl, rfl⟩
  | cons filter rest ih =>
      obtain ⟨hjumps, hswitches⟩ := ih ((states.askedLast ledger filter).apply ledger).1
      have hkept : ((states.askedLast ledger filter).apply ledger).1.jumps = ledger.jumps ∧
          ((states.askedLast ledger filter).apply ledger).1.switches = ledger.switches := by
        have honly := states.onlyLine_askedLast ledger filter
        cases hasked : states.askedLast ledger filter with
        | nothing => exact ⟨rfl, rfl⟩
        | line id =>
            rw [Action.apply, ledger.removeLine_fst]
            exact ⟨rfl, rfl⟩
        | _ =>
            rw [hasked] at honly
            exact honly.elim
      exact ⟨hjumps.trans hkept.1, hswitches.trans hkept.2⟩

/-- Only the two filters of markers ask for something at the end. -/
theorem finishAll_of_ne (states : States) {filters : List Filter}
    (h : ∀ filter ∈ filters, filter ≠ .tryFinally ∧ filter ≠ .closingLine) (ledger : Ledger) :
    Matcher.finishAll (filters.map states.matcher) ledger = ledger := by
  induction filters with
  | nil => rfl
  | cons filter rest ih =>
      rw [List.forall_mem_cons] at h
      have hasked : states.askedLast ledger filter = .nothing := by
        cases filter with
        | tryFinally => exact absurd rfl h.1.1
        | closingLine => exact absurd rfl h.1.2
        | _ => rfl
      change Matcher.finishAll (rest.map states.matcher)
        ((states.askedLast ledger filter).apply ledger).1 = ledger
      rw [hasked]
      exact ih h.2

end Filter.States

namespace Scan

/-- Nothing has been registered at the start. -/
theorem bare_start (e : Enumeration) : ({} : Ledger).bare = e.registered [] :=
  rfl

/-- The pass with some filters of the library. -/
def withFilters (filters : List Filter) (e : Enumeration) (code : List Instruction) : Scan :=
  pass e code (filters.map Filter.States.idle.matcher)

variable {filters : List Filter} {e : Enumeration} {code : List Instruction}

/-- Along the pass, entries of a kind are retracted if asked for. -/
theorem Kind.Lawful.flagged_passFrom {α : Type} {kind : Kind α} (hkind : kind.Lawful)
    (hnone : kind.entries {} = []) :
    Flagged kind.retracted
      (kind.entries (passFrom e 0 code (filters.map Filter.States.idle.matcher) {}).2)
      (kind.Asked filters e code.reverse) := by
  have hstart : Flagged kind.retracted (kind.entries {}) (kind.Asked filters e []) := by
    rw [hnone]
    exact nofun
  have hpass := hkind.retracted_passFrom code (bare_start e) hstart
  rw [List.append_nil] at hpass
  exact hpass

/-- The ledger before the end of the pass. -/
def ledgerWith (filters : List Filter) (e : Enumeration) (code : List Instruction) : Ledger :=
  (passFrom e 0 code (filters.map Filter.States.idle.matcher) {}).2

variable (filters) in
theorem bare_ledgerWith : (ledgerWith filters e code).bare = e.registered code.reverse := by
  have hpass := (passFrom_after filters (bare_start e) code).2
  rw [List.append_nil] at hpass
  exact hpass

theorem withFilters_eq : withFilters filters e code =
    (Matcher.finishAll (filters.map (Filter.States.after e code.reverse).matcher)
      (ledgerWith filters e code)).toScan := by
  have hpass := (passFrom_after filters (bare_start e) code).1
  rw [List.append_nil] at hpass
  rw [← hpass]
  rfl

theorem jumps_withFilters :
    (withFilters filters e code).jumps = (ledgerWith filters e code).jumps := by
  rw [withFilters_eq]
  exact (Filter.States.branches_finishAll _ filters _).1

theorem switches_withFilters :
    (withFilters filters e code).switches = (ledgerWith filters e code).switches := by
  rw [withFilters_eq]
  exact (Filter.States.branches_finishAll _ filters _).2

variable (filters) in
/-- The registered jumps are those of the scan, before anything is retracted. -/
theorem map_bare_jumps :
    (withFilters filters e code).jumps.map JumpSite.bare = (e.registered code.reverse).jumps := by
  rw [jumps_withFilters, ← bare_ledgerWith filters]
  rfl

variable (filters) in
theorem map_bare_switches :
    (withFilters filters e code).switches.map SwitchSite.bare =
      (e.registered code.reverse).switches := by
  rw [switches_withFilters, ← bare_ledgerWith filters]
  rfl

/-- A jump of a scan was shown to the filters under its name.  It is retracted if some filter has
asked for that name since. -/
theorem exists_jump {site : JumpSite} (hsite : site ∈ (withFilters filters e code).jumps) :
    ∃ insn before id, insn :: before <:+ code.reverse ∧ site.index = before.length ∧
      (e.registered (insn :: before)).jumpHere = some id ∧
      (site.retracted = true ↔ ∃ filter ∈ filters, ∃ upTo, insn :: before <:+ upTo ∧
        upTo <:+ code.reverse ∧ filter.pattern.askedAfter e upTo = .jump id) := by
  obtain ⟨k, hk⟩ := List.mem_iff_getElem?.1 hsite
  have hbare : (e.registered code.reverse).jumps[k]? = some site.bare := by
    rw [← map_bare_jumps filters, List.getElem?_map, hk]
    rfl
  obtain ⟨insn, before, hbefore, hnew, hplace⟩ := e.jumps_grow.exists_new hbare
  have hindex : site.index = before.length := e.jumps_grow.index insn before site.bare hnew
  refine ⟨insn, before, ⟨k⟩, hbefore, hindex, ?_, ?_⟩
  · rw [e.jumpHere_registered, hnew, hplace]
    rfl
  · rw [jumps_withFilters] at hk
    refine (Kind.lawful_jumps.flagged_passFrom rfl k site hk).trans ?_
    refine exists_congr fun filter => and_congr_right fun _ => exists_congr fun upTo => ?_
    have hlt (hupTo : upTo <:+ code.reverse) :=
      e.jumps_grow.length_lt_iff hbefore hnew hupTo
    rw [hplace] at hlt
    exact ⟨fun ⟨hupTo, hasked, hk⟩ => ⟨(hlt hupTo).1 hk, hupTo, hasked⟩,
      fun ⟨hafter, hupTo, hasked⟩ => ⟨hupTo, hasked, (hlt hupTo).2 hafter⟩⟩

/-- A switch of a scan was shown to the filters under its name.  It is retracted if some filter has
asked for that name since.  Its default is retracted, on its own or with the switch, if some filter
has asked for the default or the switch. -/
theorem exists_switch {site : SwitchSite} (hsite : site ∈ (withFilters filters e code).switches) :
    ∃ insn before id, insn :: before <:+ code.reverse ∧ site.index = before.length ∧
      (e.registered (insn :: before)).switchHere = some id ∧
      (site.retracted = true ↔ ∃ filter ∈ filters, ∃ upTo, insn :: before <:+ upTo ∧
        upTo <:+ code.reverse ∧ filter.pattern.askedAfter e upTo = .switch id) ∧
      ((site.retracted || site.defaultRetracted) = true ↔ ∃ filter ∈ filters, ∃ upTo,
        insn :: before <:+ upTo ∧ upTo <:+ code.reverse ∧
          (filter.pattern.askedAfter e upTo = .switch id ∨
            filter.pattern.askedAfter e upTo = .switchDefault id)) := by
  obtain ⟨k, hk⟩ := List.mem_iff_getElem?.1 hsite
  have hbare : (e.registered code.reverse).switches[k]? = some site.bare := by
    rw [← map_bare_switches filters, List.getElem?_map, hk]
    rfl
  obtain ⟨insn, before, hbefore, hnew, hplace⟩ := e.switches_grow.exists_new hbare
  have hindex : site.index = before.length := e.switches_grow.index insn before site.bare hnew
  have hlt {upTo : List Instruction} (hupTo : upTo <:+ code.reverse) :
      k < (e.registered upTo).switches.length ↔ insn :: before <:+ upTo := by
    rw [← hplace]
    exact e.switches_grow.length_lt_iff hbefore hnew hupTo
  have hasked (retracts : Action → Nat → Prop) :
      (∃ filter ∈ filters, ∃ upTo, upTo <:+ code.reverse ∧
        retracts (filter.pattern.askedAfter e upTo) k ∧
          k < (e.registered upTo).switches.length) ↔
      ∃ filter ∈ filters, ∃ upTo, insn :: before <:+ upTo ∧ upTo <:+ code.reverse ∧
        retracts (filter.pattern.askedAfter e upTo) k := by
    refine exists_congr fun filter => and_congr_right fun _ => exists_congr fun upTo => ?_
    exact ⟨fun ⟨hupTo, hasked, hk⟩ => ⟨(hlt hupTo).1 hk, hupTo, hasked⟩,
      fun ⟨hafter, hupTo, hasked⟩ => ⟨hupTo, hasked, (hlt hupTo).2 hafter⟩⟩
  rw [switches_withFilters] at hk
  refine ⟨insn, before, ⟨k⟩, hbefore, hindex, ?_,
    (Kind.lawful_switches.flagged_passFrom rfl k site hk).trans (hasked _),
    (Kind.lawful_defaults.flagged_passFrom rfl k site hk).trans (hasked _)⟩
  rw [e.switchHere_registered, hnew, hplace]
  rfl

/-- Filters that ask for no marker along the code and for nothing at the end retract none. -/
theorem markers_withFilters
    (h : ∀ filter ∈ filters, filter ≠ .tryFinally ∧ filter ≠ .closingLine) :
    ∀ marker ∈ (withFilters filters e code).markers, marker.retracted = false := by
  intro marker hmarker
  rw [withFilters_eq, Filter.States.finishAll_of_ne _ h] at hmarker
  obtain ⟨k, hk⟩ := List.mem_iff_getElem?.1 hmarker
  refine Bool.eq_false_iff.2 fun hretracted => ?_
  obtain ⟨filter, hfilter, upTo, -, hasked, -⟩ :=
    (Kind.lawful_markers.flagged_passFrom rfl k marker hk).1 hretracted
  cases upTo with
  | nil => cases hasked
  | cons insn seen =>
      have hkeeps := Filter.keepsLines_step (h filter hfilter).1
        (filter.pattern.stateAfter e seen) insn (e.registered (insn :: seen))
      change (filter.pattern.askedAfter e (insn :: seen)).KeepsLines _ at hkeeps
      rw [show filter.pattern.askedAfter e (insn :: seen) = .line ⟨k⟩ from hasked] at hkeeps
      exact hkeeps

/-! ### A single filter of jumps -/

variable {filter : Filter}

theorem markers_of_jumps (h : filter ∈ Filter.ofJumps) :
    ∀ marker ∈ (pass e code [Matcher.start filter.pattern]).markers, marker.retracted = false := by
  have hsingle : filter ≠ .tryFinally ∧ filter ≠ .closingLine := by
    revert filter
    decide
  exact markers_withFilters (List.forall_mem_singleton.2 hsingle)

theorem switches_of_jumps (h : filter ∈ Filter.ofJumps) :
    ∀ site ∈ (pass e code [Matcher.start filter.pattern]).switches,
      site.retracted = false ∧ site.defaultRetracted = false := by
  intro site (hsite : site ∈ (withFilters [filter] e code).switches)
  obtain ⟨_, _, id, _, _, _, _, hdefault⟩ := exists_switch hsite
  have hkept : (site.retracted || site.defaultRetracted) = false := by
    refine Bool.eq_false_iff.2 fun hretracted => ?_
    obtain ⟨other, hother, upTo, _, _, hasked⟩ := hdefault.1 hretracted
    obtain rfl := List.mem_singleton.1 hother
    have honly := Filter.onlyJump_askedAfter h e upTo
    rcases hasked with hasked | hasked <;> exact (hasked ▸ honly : Action.OnlyJump _)
  exact Bool.or_eq_false_iff.1 hkept

end Scan

/-- What a filter of jumps looks for, each time with the code before it, read backwards: some
instructions, the jump that it asks for, and some more instructions. -/
def Filter.Finds (filter : Filter) (e : Enumeration) (words : List Instruction →
    List Instruction → Instruction → List Instruction → Prop) : Prop :=
  ∀ seen id, filter.pattern.askedAfter e seen = .jump id ↔ ∃ before jump after earlier,
    words earlier before jump after ∧
      seen = after.reverse ++ jump :: (before.reverse ++ earlier) ∧
      (e.registered (jump :: (before.reverse ++ earlier))).jumpHere = some id

/-- A history is told from its length. -/
theorem eq_of_suffix_reverse {code seen pre post : List Instruction} {insn other : Instruction}
    (hseen : insn :: seen <:+ code.reverse) (hcode : code = pre ++ other :: post)
    (hlength : seen.length = pre.length) : insn = other ∧ seen = pre.reverse := by
  have hother : other :: pre.reverse <:+ code.reverse := ⟨post.reverse, by simp [hcode]⟩
  have hsame : (insn :: seen).length = (other :: pre.reverse).length := by simp [hlength]
  exact List.cons.inj
    ((List.suffix_of_suffix_length_le hseen hother (Nat.le_of_eq hsame)).eq_of_length hsame)

/-- A history up to the end of a word is the code up to there, read backwards. -/
theorem suffix_reverse_iff {code before after earlier : List Instruction} {jump : Instruction} :
    after.reverse ++ jump :: (before.reverse ++ earlier) <:+ code.reverse ↔
      ∃ rest, code = earlier.reverse ++ before ++ jump :: after ++ rest := by
  rw [← List.reverse_prefix, List.reverse_reverse]
  simp [List.IsPrefix, eq_comm]

/-- The jump of a word is retracted, whatever other filters there are. -/
theorem Filter.Finds.retracted_of_word {filter : Filter} {e : Enumeration} {words :
      List Instruction → List Instruction → Instruction → List Instruction → Prop}
    (h : filter.Finds e words) {filters : List Filter} (hfilter : filter ∈ filters)
    {code : List Instruction} {site : JumpSite}
    (hsite : site ∈ (Scan.withFilters filters e code).jumps)
    {pre before after post : List Instruction} {jump : Instruction}
    (hword : words pre.reverse before jump after)
    (hcode : code = pre ++ before ++ jump :: after ++ post)
    (hindex : site.index = (pre ++ before).length) : site.retracted = true := by
  obtain ⟨insn, seen, id, hseen, hplace, hhere, hretracted⟩ := Scan.exists_jump hsite
  have hupTo : after.reverse ++ jump :: (before.reverse ++ pre.reverse) <:+ code.reverse :=
    suffix_reverse_iff.2 ⟨post, by rw [List.reverse_reverse, hcode]⟩
  obtain ⟨rfl, rfl⟩ : insn = jump ∧ seen = (pre ++ before).reverse :=
    eq_of_suffix_reverse hseen (by simpa using hcode) (hplace.symm.trans hindex)
  rw [List.reverse_append] at hhere hretracted
  exact hretracted.2 ⟨filter, hfilter, _, List.suffix_append _ _, hupTo,
    (h _ id).2 ⟨before, insn, after, pre.reverse, hword, rfl, hhere⟩⟩

/-- The jumps that a single filter retracts are those of its words. -/
theorem Filter.Finds.retracted_iff {filter : Filter} {e : Enumeration} {words : List Instruction →
      List Instruction → Instruction → List Instruction → Prop}
    (h : filter.Finds e words) {code : List Instruction} {site : JumpSite}
    (hsite : site ∈ (Scan.pass e code [Matcher.start filter.pattern]).jumps) :
    site.retracted = true ↔ ∃ pre before jump after post, words pre.reverse before jump after ∧
      code = pre ++ before ++ jump :: after ++ post ∧ site.index = (pre ++ before).length := by
  change site ∈ (Scan.withFilters [filter] e code).jumps at hsite
  constructor
  · intro hsiteRetracted
    obtain ⟨insn, seen, id, hseen, hindex, hhere, hretracted⟩ := Scan.exists_jump hsite
    obtain ⟨_, hfilter, upTo, -, hupTo, hasked⟩ := hretracted.1 hsiteRetracted
    obtain rfl := List.mem_singleton.1 hfilter
    obtain ⟨before, jump, after, earlier, hword, rfl, hhere'⟩ := (h upTo id).1 hasked
    obtain ⟨rest, hcode⟩ := suffix_reverse_iff.1 hupTo
    cases Enumeration.eq_of_jumpHere hseen ((List.suffix_append _ _).trans hupTo) hhere hhere'
    refine ⟨earlier.reverse, before, insn, after, rest, ?_, hcode, ?_⟩
    · rwa [List.reverse_reverse]
    · simp [hindex, Nat.add_comm]
  · rintro ⟨pre, before, jump, after, post, hword, hcode, hindex⟩
    exact h.retracted_of_word (List.mem_singleton_self _) hsite hword hcode hindex

namespace Scan

variable {filters : List Filter} {e : Enumeration} {code pre post : List Instruction}
  {insn : Instruction}

/-- A jump is retracted if some filter asks for it as it is looked at. -/
theorem jump_retracted_of_asks {filter : Filter} (hfilter : filter ∈ filters) {site : JumpSite}
    (hsite : site ∈ (withFilters filters e code).jumps) (hcode : code = pre ++ insn :: post)
    (hindex : site.index = pre.length) (hasked : filter.pattern.askedAfter e (insn :: pre.reverse) =
      Action.jumpHere (e.registered (insn :: pre.reverse))) :
    site.retracted = true := by
  obtain ⟨other, seen, id, hseen, hplace, hhere, hretracted⟩ := exists_jump hsite
  obtain ⟨rfl, rfl⟩ := eq_of_suffix_reverse hseen hcode (hplace.symm.trans hindex)
  rw [Action.jumpHere, hhere] at hasked
  exact hretracted.2 ⟨filter, hfilter, _, List.suffix_rfl, hseen, hasked⟩

/-! ## What is registered -/

theorem jumpAt?_of_mem {site : JumpSite} (hsite : site ∈ (withFilters filters e code).jumps) :
    Body.jumpAt? code site.index = some site.bare := by
  have hmem := List.mem_map_of_mem (f := JumpSite.bare) hsite
  rw [map_bare_jumps, (e.reads_registered _).jumps, List.reverse_reverse] at hmem
  split at hmem
  · obtain ⟨i, -, hi⟩ := List.mem_filterMap.1 hmem
    have hindex : site.index = i := by
      unfold Body.jumpAt? at hi
      split at hi
      · obtain ⟨line, -, hline⟩ := Option.map_eq_some_iff.1 hi
        exact (congrArg JumpSite.index hline).symm
      · cases hi
    rw [hindex, hi]
  · cases hmem

/-- A registered jump is a conditional one of the code, on its line. -/
theorem exists_conditionalJump {site : JumpSite}
    (hsite : site ∈ (withFilters filters e code).jumps) :
    ∃ op target, code[site.index]? = some (.jump op target) ∧ op.isConditionalJump = true ∧
      Body.lineBefore code site.index = some site.line := by
  have hat := jumpAt?_of_mem hsite
  unfold Body.jumpAt? at hat
  split at hat
  · rename_i hjump
    obtain ⟨insn, hinsn, hconditional⟩ := (Option.any_eq_true _ _).1 hjump
    obtain ⟨line, hline, hbare⟩ := Option.map_eq_some_iff.1 hat
    rw [hline, show line = site.line from congrArg JumpSite.line hbare]
    cases insn with
    | jump op target => exact ⟨op, target, hinsn, hconditional, rfl⟩
    | _ => cases hconditional
  · cases hat

theorem exists_of_jumpAt? (hregister : e.jumps = true) {i : Nat} {bare : JumpSite}
    (hi : Body.jumpAt? code i = some bare) :
    ∃ site ∈ (withFilters filters e code).jumps, site.bare = bare := by
  have hlt : i < code.length := by
    by_contra hge
    simp [Body.jumpAt?, List.getElem?_eq_none (Nat.not_lt.1 hge)] at hi
  rw [← List.mem_map, map_bare_jumps, (e.reads_registered _).jumps, List.reverse_reverse,
    if_pos hregister]
  exact List.mem_filterMap.2 ⟨i, List.mem_range.2 hlt, hi⟩

theorem switchAt?_of_mem {site : SwitchSite}
    (hsite : site ∈ (withFilters filters e code).switches) :
    Body.switchAt? code site.index = some site.bare := by
  have hmem := List.mem_map_of_mem (f := SwitchSite.bare) hsite
  rw [map_bare_switches, (e.reads_registered _).switches, List.reverse_reverse] at hmem
  split at hmem
  · obtain ⟨i, -, hi⟩ := List.mem_filterMap.1 hmem
    have hindex : site.index = i := by
      obtain ⟨keys, -, hkeys⟩ := Option.bind_eq_some_iff.1 hi
      obtain ⟨line, -, hline⟩ := Option.map_eq_some_iff.1 hkeys
      exact (congrArg SwitchSite.index hline).symm
    rw [hindex, hi]
  · cases hmem

/-- A registered switch is one of the code, on its line. -/
theorem exists_switchKeys {site : SwitchSite}
    (hsite : site ∈ (withFilters filters e code).switches) :
    ∃ insn, code[site.index]? = some insn ∧ insn.switchKeys? = some site.keys ∧
      Body.lineBefore code site.index = some site.line := by
  obtain ⟨keys, hkeys, hline⟩ := Option.bind_eq_some_iff.1 (switchAt?_of_mem hsite)
  obtain ⟨insn, hinsn, hinsnKeys⟩ := Option.bind_eq_some_iff.1 hkeys
  obtain ⟨line, hbefore, hbare⟩ := Option.map_eq_some_iff.1 hline
  refine ⟨insn, hinsn, ?_, ?_⟩
  · rw [hinsnKeys, show keys = site.keys from congrArg SwitchSite.keys hbare]
  · rw [hbefore, show line = site.line from congrArg SwitchSite.line hbare]

theorem exists_of_switchAt? (hregister : e.switches = true) {i : Nat} {bare : SwitchSite}
    (hi : Body.switchAt? code i = some bare) :
    ∃ site ∈ (withFilters filters e code).switches, site.bare = bare := by
  have hlt : i < code.length := by
    by_contra hge
    simp [Body.switchAt?, List.getElem?_eq_none (Nat.not_lt.1 hge)] at hi
  rw [← List.mem_map, map_bare_switches, (e.reads_registered _).switches, List.reverse_reverse,
    if_pos hregister]
  exact List.mem_filterMap.2 ⟨i, List.mem_range.2 hlt, hi⟩

end Scan

end BytecodeCoverage
