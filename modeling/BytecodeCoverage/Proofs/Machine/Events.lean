import BytecodeCoverage.Machine.Run

/-!
# Events of a run

What a run of a class does, as far as coverage is concerned: methods are entered, line markers are
passed, jumps are taken or not, switches select a case or their default.  An event names the
method by its place in the class, since two methods may have the same code, and the instruction
by its position.

**Main definitions.**
* `Instruction.deed?`: what an executed instruction did.
* `Thread.events`: the events of a run, in order.
* `Machine.invokeAll`, `Machine.eventsOf`: calls one after the other, and their events.

**Results.**
* `Machine.countP_eventsOf_le`: there are no more events than instructions executed, entered
  methods apart.
* `Machine.opened_invokeEvents`: events happen in methods that have been entered.
-/

namespace BytecodeCoverage

/-- What an event consists of. -/
inductive Deed
  /-- A method is entered. -/
  | entered
  /-- A marker of the line is passed. -/
  | passed (line : UInt32)
  /-- A jump transfers control. -/
  | taken
  /-- A jump falls through. -/
  | notTaken
  /-- A switch selects the case at a place of its targets. -/
  | case (pos : Nat)
  /-- A switch selects its default. -/
  | otherwise
  deriving DecidableEq

/-- Something that a run does at a position of a method's code. -/
structure Event where
  /-- The place of the method in its class. -/
  method : Nat
  index : Nat
  deed : Deed
  deriving DecidableEq

/-- Whether an event is more than that a method is entered. -/
def Event.isDone (e : Event) : Bool :=
  e.deed ≠ .entered

/-- The place of the first method with a name and descriptor. -/
def ClassFile.place? (cls : ClassFile) (name descriptor : String) : Option Nat :=
  cls.methods.findIdx? fun m => m.name == name && m.descriptor == descriptor

namespace Machine

/-- The place of the target that a table switch with `count` targets selects. -/
def tableCase? (low : Int32) (count : Nat) (key : Int32) : Option Nat :=
  if key < low then none
  else
    let pos := (key.toInt - low.toInt).toNat
    if pos < count then some pos else none

/-- The place of the target that a lookup switch selects. -/
def lookupCase? (key : Int32) : List Int32 → List Label → Option Nat
  | k :: keys, _ :: targets =>
      if k = key then some 0 else (lookupCase? key keys targets).map (· + 1)
  | _, _ => none

/-- The outcome of a switch. -/
def selected : Option Nat → Deed
  | some pos => .case pos
  | none => .otherwise

/-- The integer on top of the operand stack. -/
def Frame.topInt? (f : Frame) : Option Int32 :=
  match f.stack with
  | .int n :: _ => some n
  | _ => none

end Machine

open Machine in
/-- What an instruction did, given the frame before it and how execution goes on. -/
def Instruction.deed? (insn : Instruction) (f : Frame) (outcome : Outcome) : Option Deed :=
  match insn, outcome with
  | .line number, .next _ => some (.passed number)
  | .jump .., .next _ => some .notTaken
  | .jump .., .jump .. => some .taken
  | .tableSwitch low _ _ targets, .jump .. =>
      f.topInt?.map fun key => selected (tableCase? low targets.length key)
  | .lookupSwitch _ keys targets, .jump .. =>
      f.topInt?.map fun key => selected (lookupCase? key keys targets)
  | _, _ => none

namespace Machine

namespace Thread

/-- The events of one instruction, and the places of the methods under way after it, the
innermost first. -/
def observe (t : Thread) (insn : Instruction) (places : List Nat) : List Event × List Nat :=
  match insn.execute t.frame t.world with
  | .ok (.call _ name descriptor _, world) =>
      match world.cls.place? name descriptor with
      | some place => ([⟨place, 0, .entered⟩], place :: places)
      | none => ([], places)
  | .ok (.leave _, _) => ([], places.tail)
  | .ok (outcome, _) =>
      ((places.head?.bind fun place =>
        (insn.deed? t.frame outcome).map fun deed => ⟨place, t.frame.pos, deed⟩).toList, places)
  | .error _ => ([], places)

/-- The events of a run with at most `budget` instructions; `places` are the places of the
methods under way. -/
def events : Nat → Thread → List Nat → List Event
  | 0, _, _ => []
  | budget + 1, t, places =>
      match t.frame.current? with
      | none => []
      | some insn =>
          match t.step insn with
          | .running after =>
              (t.observe insn places).1 ++ after.events budget (t.observe insn places).2
          | .ended .. => []

end Thread

/-- A method to call, with its arguments. -/
structure Call where
  name : String
  descriptor : String
  args : List Int32

end Machine

namespace Machine

/-- The events of running a method to its end. -/
def callEvents (m : Machine) (name descriptor : String) (args : List Value) : List Event :=
  match m.world.code name descriptor, m.world.cls.place? name descriptor with
  | .ok body, some place =>
      ⟨place, 0, .entered⟩ ::
        Thread.events m.budget { frame := .enter body args, world := m.world } [place]
  | _, _ => []

/-- The events of running the class initializer, if there is one and it has not been started. -/
def startEvents (m : Machine) : List Event :=
  if m.initialized then []
  else
    match m.world.cls.method? Method.initializerName "()V" with
    | some _ => { m with initialized := true }.callEvents Method.initializerName "()V" []
    | none => []

/-- The events of a call. -/
def invokeEvents (m : Machine) (c : Call) : List Event :=
  m.startEvents ++
    match m.startClass with
    | (.ok (), m) => m.callEvents c.name c.descriptor (c.args.map .int)
    | (.error _, _) => []

/-- Calls methods one after the other on one machine, whatever comes of them. -/
def invokeAll (m : Machine) : List Call → List (Except MachineFault (Option Int32)) × Machine
  | [] => ([], m)
  | c :: rest =>
      let (result, m) := m.invoke c.name c.descriptor c.args
      let (results, m) := m.invokeAll rest
      (result :: results, m)

/-- The events of calls one after the other. -/
def eventsOf (m : Machine) : List Call → List Event
  | [] => []
  | c :: rest => m.invokeEvents c ++ (m.invoke c.name c.descriptor c.args).2.eventsOf rest

/-! ## The number of events -/

theorem Thread.length_observe_le (t : Thread) (insn : Instruction) (places : List Nat) :
    (t.observe insn places).1.length ≤ 1 := by
  unfold observe
  split
  · split <;> simp
  · simp
  · exact Option.length_toList_le
  · simp

/-- Each instruction is one event at most. -/
theorem Thread.countP_events_le (budget : Nat) (t : Thread) (places : List Nat) :
    (t.events budget places).countP Event.isDone + (t.run budget).budget ≤ budget := by
  induction budget generalizing t places with
  | zero => simpa [events] using t.budget_run_le 0
  | succ budget ih =>
      cases hinsn : t.frame.current? with
      | none => simpa [events, hinsn] using t.budget_run_le (budget + 1)
      | some insn =>
          cases hstep : t.step insn with
          | ended result world => simp [events, run, hinsn, hstep]
          | running after =>
              have hrun : t.run (budget + 1) = after.run budget := by simp [run, hinsn, hstep]
              have hfirst : (t.observe insn places).1.countP Event.isDone ≤ 1 :=
                Nat.le_trans List.countP_le_length (t.length_observe_le insn places)
              have hrest := ih after (t.observe insn places).2
              simp only [events, hinsn, hstep, List.countP_append, hrun]
              omega

theorem countP_callEvents_le (m : Machine) (name descriptor : String) (args : List Value) :
    (m.callEvents name descriptor args).countP Event.isDone +
      (m.call name descriptor args).2.budget ≤ m.budget := by
  unfold callEvents call
  cases m.world.code name descriptor with
  | error e => simp
  | ok body =>
      cases m.world.cls.place? name descriptor with
      | none => simpa using Thread.budget_run_le _ _
      | some place =>
          have := Thread.countP_events_le m.budget
            { frame := .enter body args, world := m.world } [place]
          simpa [Event.isDone] using this

theorem countP_startEvents_le (m : Machine) :
    m.startEvents.countP Event.isDone + m.startClass.2.budget ≤ m.budget := by
  unfold startEvents startClass
  cases m.initialized with
  | true => simp
  | false =>
      simp only [Bool.false_eq_true, if_false]
      cases m.world.cls.method? Method.initializerName "()V" with
      | none => simp
      | some method =>
          exact countP_callEvents_le { m with initialized := true } Method.initializerName "()V" []

theorem countP_invokeEvents_le (m : Machine) (c : Call) :
    (m.invokeEvents c).countP Event.isDone + (m.invoke c.name c.descriptor c.args).2.budget ≤
      m.budget := by
  have hstart := m.countP_startEvents_le
  unfold invokeEvents invoke
  rw [List.countP_append]
  generalize m.startClass = r at hstart ⊢
  obtain ⟨result, m₁⟩ := r
  cases result with
  | error e => simpa using hstart
  | ok =>
      have hcall := countP_callEvents_le m₁ c.name c.descriptor (c.args.map .int)
      simp only at hstart hcall ⊢
      omega

/-- Calls have no more events than the machine executes instructions, entered methods apart. -/
theorem countP_eventsOf_le (m : Machine) (calls : List Call) :
    (m.eventsOf calls).countP Event.isDone + (m.invokeAll calls).2.budget ≤ m.budget := by
  induction calls generalizing m with
  | nil => simp [eventsOf, invokeAll]
  | cons c rest ih =>
      have hfirst := m.countP_invokeEvents_le c
      have hrest := ih (m.invoke c.name c.descriptor c.args).2
      simp only [eventsOf, invokeAll, List.countP_append]
      omega

/-! ## Methods that have been entered -/

end Machine

namespace Event

/-- Whatever is done is done in a method that has been entered; those in `known` were entered
before. -/
def Opened (known : List Nat) : List Event → Prop
  | [] => True
  | e :: rest => (e.deed = .entered ∨ e.method ∈ known) ∧ Opened (e.method :: known) rest

theorem Opened.mono {known more : List Nat} {events : List Event} (h : Opened known events)
    (hsub : known ⊆ more) : Opened more events := by
  induction events generalizing known more with
  | nil => trivial
  | cons e rest ih =>
      constructor
      · exact h.1.imp_right fun hmem => hsub hmem
      · exact ih h.2 (List.cons_subset_cons _ hsub)

theorem Opened.append {known : List Nat} {a b : List Event} (ha : Opened known a)
    (hb : Opened known b) : Opened known (a ++ b) := by
  induction a generalizing known with
  | nil => exact hb
  | cons e rest ih =>
      constructor
      · exact ha.1
      · exact ih ha.2 (hb.mono (List.subset_cons_self _ _))

end Event

namespace Machine

open Event

/-- An instruction enters a method, does something in the innermost one, or does nothing. -/
theorem Thread.observe_cases (t : Thread) (insn : Instruction) (places : List Nat) :
    ((t.observe insn places).1 = [] ∧ (t.observe insn places).2 ⊆ places) ∨
      (∃ place, t.observe insn places = ([⟨place, 0, .entered⟩], place :: places)) ∨
      ∃ place ∈ places, ∃ index deed, t.observe insn places = ([⟨place, index, deed⟩], places) := by
  unfold observe
  cases insn.execute t.frame t.world with
  | error fault => exact .inl ⟨rfl, List.Subset.refl _⟩
  | ok r =>
      obtain ⟨outcome, world⟩ := r
      have hdeed (outcome : Outcome) :
          (places.head?.bind fun place => (insn.deed? t.frame outcome).map
              fun deed => (⟨place, t.frame.pos, deed⟩ : Event)).toList = [] ∨
            ∃ place ∈ places, ∃ index deed,
              (places.head?.bind fun place => (insn.deed? t.frame outcome).map
                fun deed => (⟨place, t.frame.pos, deed⟩ : Event)).toList =
                  [⟨place, index, deed⟩] := by
        cases places with
        | nil => exact .inl rfl
        | cons place rest =>
            cases insn.deed? t.frame outcome with
            | none => exact .inl rfl
            | some deed => exact .inr ⟨place, List.mem_cons_self, t.frame.pos, deed, rfl⟩
      cases outcome with
      | leave result => exact .inl ⟨rfl, fun _ => List.mem_of_mem_tail⟩
      | call f name descriptor args =>
          dsimp only
          cases world.cls.place? name descriptor with
          | none => exact .inl ⟨rfl, List.Subset.refl _⟩
          | some place => exact .inr (.inl ⟨place, rfl⟩)
      | next f =>
          rcases hdeed (.next f) with h | ⟨place, hplace, index, deed, h⟩
          · exact .inl ⟨h, List.Subset.refl _⟩
          · exact .inr (.inr ⟨place, hplace, index, deed, congrArg (Prod.mk · places) h⟩)
      | jump f target =>
          rcases hdeed (.jump f target) with h | ⟨place, hplace, index, deed, h⟩
          · exact .inl ⟨h, List.Subset.refl _⟩
          · exact .inr (.inr ⟨place, hplace, index, deed, congrArg (Prod.mk · places) h⟩)

/-- What an instruction does is done where the innermost frame is. -/
theorem Thread.eq_of_mem_observe {t : Thread} {insn : Instruction} {places : List Nat} {e : Event}
    (he : e ∈ (t.observe insn places).1) (hdone : e.isDone = true) :
    places.head? = some e.method ∧ e.index = t.frame.pos := by
  have hdeed (outcome : Outcome) (he : e ∈ (places.head?.bind fun place =>
      (insn.deed? t.frame outcome).map
        fun deed => (⟨place, t.frame.pos, deed⟩ : Event)).toList) :
      places.head? = some e.method ∧ e.index = t.frame.pos := by
    obtain ⟨place, hplace, he⟩ := Option.bind_eq_some_iff.1 (Option.mem_toList.1 he)
    obtain ⟨deed, -, rfl⟩ := Option.map_eq_some_iff.1 he
    exact ⟨hplace, rfl⟩
  unfold observe at he
  cases hexecute : insn.execute t.frame t.world with
  | error fault =>
      rw [hexecute] at he
      cases he
  | ok r =>
      obtain ⟨outcome, world⟩ := r
      rw [hexecute] at he
      cases outcome with
      | leave result => cases he
      | next f => exact hdeed (.next f) he
      | jump f target => exact hdeed (.jump f target) he
      | call f name descriptor args =>
          dsimp only at he
          cases hplace : world.cls.place? name descriptor with
          | none =>
              rw [hplace] at he
              cases he
          | some place =>
              rw [hplace] at he
              obtain rfl := List.mem_singleton.1 he
              cases hdone

/-- The methods under way have been entered. -/
theorem Thread.opened_events (budget : Nat) (t : Thread) {places known : List Nat}
    (hplaces : places ⊆ known) : Opened known (t.events budget places) := by
  induction budget generalizing t places known with
  | zero => trivial
  | succ budget ih =>
      cases hinsn : t.frame.current? with
      | none => simp [events, hinsn, Opened]
      | some insn =>
          cases hstep : t.step insn with
          | ended result world => simp [events, hinsn, hstep, Opened]
          | running after =>
              simp only [events, hinsn, hstep]
              rcases t.observe_cases insn places with ⟨hnone, hsub⟩ | ⟨place, heq⟩ |
                ⟨place, hplace, index, deed, heq⟩
              · rw [hnone]
                exact ih after (List.Subset.trans hsub hplaces)
              · rw [heq]
                constructor
                · exact .inl rfl
                · exact ih after (List.cons_subset_cons place hplaces)
              · rw [heq]
                constructor
                · exact .inr (hplaces hplace)
                · exact ih after (List.subset_cons_of_subset place hplaces)

theorem opened_callEvents (m : Machine) (name descriptor : String) (args : List Value)
    (known : List Nat) : Opened known (m.callEvents name descriptor args) := by
  unfold callEvents
  split
  · constructor
    · exact .inl rfl
    · exact Thread.opened_events _ _ (List.cons_subset_cons _ (List.nil_subset _))
  · trivial

theorem opened_invokeEvents (m : Machine) (c : Call) (known : List Nat) :
    Opened known (m.invokeEvents c) := by
  unfold invokeEvents
  refine Opened.append ?_ ?_
  · unfold startEvents
    split
    · trivial
    · split
      · exact opened_callEvents _ _ _ _ _
      · trivial
  · split
    · exact opened_callEvents _ _ _ _ _
    · trivial

end Machine

end BytecodeCoverage
