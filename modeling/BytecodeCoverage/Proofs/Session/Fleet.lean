import BytecodeCoverage.Proofs.Session.Unprobed
import Mathlib.Logic.Function.Basic

/-!
# Machines that share a registry

The machines of several classes take turns.  What one of them counts for its class stays in the
registry and does not touch what the others have counted.

**Main definitions.**
* `Fleet`: machines with a common registry.
* `Fleet.events`, `Fleet.eventsIn`: what the classes themselves do on the same calls.
* `Pairing.Told`: what events have made of the tally of a class.

**Results.**
* `Fleet.Alike.invokeAll`: calls on the machines of a fleet.
-/

namespace BytecodeCoverage

open Machine

/-- A machine with the registry as it is now. -/
def Machine.on (m : Machine) (registry : Registry) : Machine :=
  { m with world := { m.world with registry } }

/-- Machines with a common registry; the registries of the machines themselves do not count. -/
structure Fleet (ι : Type) where
  registry : Registry
  machine : ι → Machine

namespace Fleet

variable {ι : Type} [DecidableEq ι]

/-- New machines. -/
def start (registry : Registry) (cls : ι → ClassFile) (keeper : ι → Nat) : Fleet ι where
  registry
  machine i := .start (cls i) registry (keeper i)

/-- Calls a method on one of the machines. -/
def invoke (f : Fleet ι) (i : ι) (c : Call) : Except MachineFault (Option Int32) × Fleet ι :=
  let (result, m) := ((f.machine i).on f.registry).invoke c.name c.descriptor c.args
  (result, { registry := m.world.registry, machine := Function.update f.machine i m })

/-- Calls methods one after the other, whatever comes of them. -/
def invokeAll (f : Fleet ι) :
    List (ι × Call) → List (Except MachineFault (Option Int32)) × Fleet ι
  | [] => ([], f)
  | (i, c) :: rest =>
      let (result, f) := f.invoke i c
      let (results, f) := f.invokeAll rest
      (result :: results, f)

/-- The events of such calls on machines that share nothing. -/
def events (machine : ι → Machine) : List (ι × Call) → List (ι × Event)
  | [] => []
  | (i, c) :: rest =>
      ((machine i).invokeEvents c).map (Prod.mk i) ++
        events (Function.update machine i ((machine i).invoke c.name c.descriptor c.args).2) rest

/-- The events of the machines whose classes have a name. -/
def eventsIn (cls : ι → ClassFile) (name : String) (events : List (ι × Event)) : List Event :=
  (events.filter fun x => (cls x.1).name = name).map Prod.snd

end Fleet

/-! ## Registries later on -/

namespace Registry

/-- The second registry comes from the first by counting for any classes. -/
structure Later (r r' : Registry) : Prop where
  regular : r'.Regular
  layouts : r'.layouts = r.layouts
  made : ∀ className, (r.lookup? className).isSome → (r'.lookup? className).isSome

namespace Later

variable {r r₁ r₂ : Registry}

theorem refl (h : r.Regular) : Later r r :=
  ⟨h, rfl, fun _ h => h⟩

theorem trans (h₁ : Later r r₁) (h₂ : Later r₁ r₂) : Later r r₂ :=
  ⟨h₂.regular, h₂.layouts.trans h₁.layouts, fun name h => h₂.made name (h₁.made name h)⟩

theorem slotCount? (h : Later r r₁) (className : String) :
    r₁.slotCount? className = r.slotCount? className := by
  rw [Registry.slotCount?, h.layouts]
  rfl

theorem of_counted {className : String} (h : Counted className r r₁) : Later r r₁ where
  regular := h.regular
  layouts := h.layouts
  made other hmade := by
    by_cases heq : other = className
    · rw [heq] at hmade ⊢
      exact h.made hmade
    · rw [h.lookups other heq]
      exact hmade

end Later

end Registry

/-! ## Tallies of several classes -/

namespace Pairing

variable {p : Pairing} {r r₁ r₂ : Registry} {a b : List Event}

/-- The tally of the class in the second registry is what events have made of the one in the
first. -/
structure Told (p : Pairing) (r : Registry) (events : List Event) (r' : Registry) : Prop where
  tally : r'.tally p.cls.name = p.noteAll (r.tally p.cls.name) events
  marked : ∀ e ∈ events, p.Marked e
  opened : Event.Opened [] events

theorem Told.refl (h : r₁.tally p.cls.name = r.tally p.cls.name) : p.Told r [] r₁ :=
  ⟨h, by simp, trivial⟩

theorem Told.trans (h₁ : p.Told r a r₁) (h₂ : p.Told r₁ b r₂) : p.Told r (a ++ b) r₂ where
  tally := by rw [h₂.tally, h₁.tally, noteAll_append]
  marked := List.forall_mem_append.2 ⟨h₁.marked, h₂.marked⟩
  opened := h₁.opened.append h₂.opened

/-- A machine may find another registry, as long as its array is there if it was. -/
theorem Machines.moved {m m' : Machine} (h : p.Machines m (m'.on r)) (hregular : r₁.Regular)
    (hslots : r₁.slotCount? p.cls.name = some p.slots)
    (hmade : ∀ className, (r.lookup? className).isSome → (r₁.lookup? className).isSome) :
    p.Machines m (m'.on r₁) where
  worlds :=
    { cls := h.worlds.cls
      cls' := h.worlds.cls'
      shared := h.worlds.shared
      plain := h.worlds.plain
      field := h.worlds.field
      made := fun hfield => hmade _ (h.worlds.made hfield)
      regular := hregular
      slots := hslots }
  budget := h.budget
  initialized := h.initialized
  ready hinitialized hstrategy := by
    have hready := h.ready hinitialized hstrategy
    exact ⟨hready.field, hmade _ hready.made⟩

/-- Counting for other classes makes no difference. -/
theorem Machines.later {m m' : Machine} (h : p.Machines m (m'.on r)) (hlater : r.Later r₁) :
    p.Machines m (m'.on r₁) :=
  h.moved hlater.regular ((hlater.slotCount? _).trans h.worlds.slots) hlater.made

end Pairing

namespace Fleet

variable {ι : Type} [DecidableEq ι]

/-- A fleet of instrumented classes does what machines of the classes themselves do.  Classes that
have no pairing were left as they are. -/
structure Alike (pairing : String → Option Pairing) (cls : ι → ClassFile) (machine : ι → Machine)
    (f : Fleet ι) : Prop where
  regular : f.registry.Regular
  paired : ∀ i p, pairing (cls i).name = some p →
    p.Machines (machine i) ((f.machine i).on f.registry)
  quiet : ∀ i, pairing (cls i).name = none → (f.machine i).Quiet (cls i)

variable {pairing : String → Option Pairing} {cls : ι → ClassFile} {machine : ι → Machine}
  {f : Fleet ι} {i : ι} {c : Call}

omit [DecidableEq ι] in
theorem eventsIn_append (name : String) (a b : List (ι × Event)) :
    eventsIn cls name (a ++ b) = eventsIn cls name a ++ eventsIn cls name b := by
  simp [eventsIn]

omit [DecidableEq ι] in
theorem eventsIn_map (name : String) (i : ι) (es : List Event) :
    eventsIn cls name (es.map (Prod.mk i)) = if (cls i).name = name then es else [] := by
  by_cases h : (cls i).name = name <;> simp [eventsIn, List.filter_map, Function.comp_def, h]

/-- A call on a machine of an instrumented class. -/
theorem Alike.invoke_paired (h : f.Alike pairing cls machine) {p : Pairing}
    (hpairing : pairing (cls i).name = some p) (hgood : p.Good) (hc : p.cls.Callable c)
    (hlimit : (f.invoke i c).1 ≠ .error .stepLimit) :
    (f.invoke i c).2.Alike pairing cls
        (Function.update machine i ((machine i).invoke c.name c.descriptor c.args).2) ∧
      p.Noted f.registry ((machine i).invokeEvents c) (f.invoke i c).2.registry := by
  obtain ⟨-, hmachines, hnoted⟩ := hgood.invoke_alike (h.paired i p hpairing) hc hlimit
  have hlater := Registry.Later.of_counted hnoted.counted
  refine ⟨⟨hlater.regular, fun k q hq => ?_, fun k hk => ?_⟩, hnoted⟩
  · by_cases hki : k = i
    · subst hki
      rw [hpairing] at hq
      cases hq
      simp only [invoke, Function.update_self]
      exact hmachines
    · simp only [invoke, Function.update_of_ne hki]
      exact (h.paired k q hq).later hlater
  · have hki : k ≠ i := by
      rintro rfl
      rw [hpairing] at hk
      cases hk
    simp only [invoke, Function.update_of_ne hki]
    exact h.quiet k hk

/-- A call on a machine of a class that was left as it is. -/
theorem Alike.invoke_quiet (h : f.Alike pairing cls machine) (hpairing : pairing (cls i).name = none)
    (hcls : (cls i).Admissible) :
    (f.invoke i c).2.Alike pairing cls
        (Function.update machine i ((machine i).invoke c.name c.descriptor c.args).2) ∧
      (f.invoke i c).2.registry = f.registry := by
  have hon : ((f.machine i).on f.registry).Quiet (cls i) :=
    ⟨(h.quiet i hpairing).cls, (h.quiet i hpairing).plain⟩
  obtain ⟨hquiet, hregistry⟩ := hon.invoke hcls c
  have hsame : (f.invoke i c).2.registry = f.registry := hregistry
  refine ⟨⟨hsame ▸ h.regular, fun k q hq => ?_, fun k hk => ?_⟩, hsame⟩
  · have hki : k ≠ i := by
      rintro rfl
      rw [hpairing] at hq
      cases hq
    rw [hsame]
    simp only [invoke, Function.update_of_ne hki]
    exact h.paired k q hq
  · by_cases hki : k = i
    · subst hki
      simp only [invoke, Function.update_self]
      exact hquiet
    · simp only [invoke, Function.update_of_ne hki]
      exact h.quiet k hk

/-- Calls on the machines of a fleet: each instrumented class is told what its machines have done,
and nothing is told about other classes. -/
theorem Alike.invokeAll
    (hgood : ∀ i p, pairing (cls i).name = some p → p.Good ∧ p.cls = cls i)
    (hplain : ∀ i, pairing (cls i).name = none → (cls i).Admissible)
    (h : f.Alike pairing cls machine) {calls : List (ι × Call)}
    (hcalls : ∀ x ∈ calls, (cls x.1).Callable x.2)
    (hlimit : ∀ result ∈ (f.invokeAll calls).1, result ≠ .error .stepLimit) :
    f.registry.Later (f.invokeAll calls).2.registry ∧
      (∀ name p, pairing name = some p → p.cls.name = name →
        p.Told f.registry (eventsIn cls name (events machine calls))
          (f.invokeAll calls).2.registry) ∧
      ∀ name, pairing name = none →
        (f.invokeAll calls).2.registry.lookup? name = f.registry.lookup? name ∧
        (f.invokeAll calls).2.registry.tracker.mask? name = f.registry.tracker.mask? name := by
  induction calls generalizing f machine with
  | nil => exact ⟨.refl h.regular, fun _ _ _ _ => .refl rfl, fun _ _ => ⟨rfl, rfl⟩⟩
  | cons x rest ih =>
      obtain ⟨i, c⟩ := x
      simp only [Fleet.invokeAll, List.forall_mem_cons, events] at hcalls hlimit ⊢
      cases hpairing : pairing (cls i).name with
      | some p =>
          obtain ⟨hp, hcls⟩ := hgood i p hpairing
          obtain ⟨hafter, hnoted⟩ :=
            h.invoke_paired hpairing hp (hcls ▸ hcalls.1 : p.cls.Callable c) hlimit.1
          obtain ⟨hlater, htold, hothers⟩ := ih hafter hcalls.2 hlimit.2
          refine ⟨(Registry.Later.of_counted hnoted.counted).trans hlater,
            fun name q hq hname => ?_, fun name hnone => ?_⟩
          · rw [eventsIn_append, eventsIn_map]
            refine Pairing.Told.trans ?_ (htold name q hq hname)
            split
            · rename_i heq
              rw [heq, hq] at hpairing
              cases hpairing
              exact ⟨hnoted.tally, hnoted.marked, opened_invokeEvents _ _ _⟩
            · rename_i hne
              refine .refl (hnoted.counted.tally_other ?_)
              rw [hname, hcls]
              exact fun heq => hne heq.symm
          · have hne : name ≠ p.cls.name := by
              rintro rfl
              rw [hcls, hpairing] at hnone
              cases hnone
            obtain ⟨hlookup, hmask⟩ := hothers name hnone
            exact ⟨hlookup.trans (hnoted.counted.lookups name hne),
              hmask.trans (hnoted.counted.traces name hne)⟩
      | none =>
          obtain ⟨hafter, hsame⟩ := h.invoke_quiet (c := c) hpairing (hplain i hpairing)
          obtain ⟨hlater, htold, hothers⟩ := ih hafter hcalls.2 hlimit.2
          rw [hsame] at hlater htold hothers
          refine ⟨hlater, fun name q hq hname => ?_, hothers⟩
          have hne : (cls i).name ≠ name := by
            rintro rfl
            rw [hpairing] at hq
            cases hq
          rw [eventsIn_append, eventsIn_map, if_neg hne]
          exact htold name q hq hname

end Fleet

end BytecodeCoverage
