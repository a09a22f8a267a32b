import BytecodeCoverage.Proofs.Scan.Retraction
import Mathlib.Tactic.Tauto

/-!
# Fates of entries

Retractions that name their entries do not get in each other's way: what becomes of an entry is up
to those that name it (`Ledger.getElem?_perform`).  A marker or a jump is retracted in the end if it
was so before or one of them retracts it.  The default of a switch is retracted only while the
switch itself is not, so its flag depends on the order, but only for a switch that ends up
retracted.  Such a switch keeps no record, and nobody asks for its default
(`SwitchSite.settled_foldl_onSwitch`).

So the order of retractions and their repetitions cannot be seen in a scan.  Of the repetitions of
a retraction one at most says that it has retracted something.

**Main definitions.**
* `Action.Named`: retractions that name their entries.
* `Ledger.reports`: what retractions say of themselves.
* `Scan.survivingJumpsAt`, `Scan.survivingSwitchesAt`: what keeps a record, with its places.

**Results.**
* `Ledger.getElem?_perform`: the fate of an entry.
* `Ledger.count_reports_le_one`: no retraction retracts twice.
* `Ledger.retractions_unordered`: retractions with the same members leave the same.
-/

namespace BytecodeCoverage

namespace Scan

variable (scan : Scan)

/-- The jumps that keep a record, each with its place among the registered ones. -/
def survivingJumpsAt : List (JumpSite × Nat) :=
  scan.jumps.zipIdx.filter fun site => scan.keepsJump site.1

/-- The switches that keep a record, each with its place among the registered ones. -/
def survivingSwitchesAt : List (SwitchSite × Nat) :=
  scan.switches.zipIdx.filter fun site => scan.keepsSwitch site.1

/-- Without their places these are the jumps that keep a record. -/
theorem survivingJumpsAt_map_fst : scan.survivingJumpsAt.map Prod.fst = scan.survivingJumps := by
  rw [survivingJumps, ← List.zipIdx_map_fst 0 scan.jumps, List.filter_map]
  rfl

theorem survivingSwitchesAt_map_fst :
    scan.survivingSwitchesAt.map Prod.fst = scan.survivingSwitches := by
  rw [survivingSwitches, ← List.zipIdx_map_fst 0 scan.switches, List.filter_map]
  rfl

end Scan

/-- Doing to something what each `b` in a list asks for, if doing it again changes nothing. -/
theorem foldl_ite_eq {α β : Type} [DecidableEq β] {f : α → α} (hf : ∀ x, f (f x) = f x) (b : β)
    (l : List β) (x : α) :
    l.foldl (fun x a => if a = b then f x else x) x = if b ∈ l then f x else x := by
  induction l generalizing x with
  | nil => rfl
  | cons a rest ih =>
      rw [List.foldl_cons, ih]
      by_cases ha : a = b
      · simp [ha, hf]
      · simp [ha, Ne.symm ha]

theorem Marker.retract_retract (marker : Marker) : marker.retract.retract = marker.retract :=
  rfl

theorem JumpSite.retract_retract (site : JumpSite) : site.retract.retract = site.retract :=
  rfl

/-! ## One retraction -/

namespace Action

/-- A retraction that names its entry. -/
def Named : Action → Prop
  | .line _ | .jump _ | .switch _ | .switchDefault _ => True
  | .nothing | .lastLine | .lastJump | .lastSwitch | .lastSwitchDefault => False

/-- What becomes of the marker at a place. -/
def onMarker (k : Nat) (marker : Marker) (a : Action) : Marker :=
  if a = .line ⟨k⟩ then marker.retract else marker

/-- What becomes of the jump at a place. -/
def onJump (k : Nat) (site : JumpSite) (a : Action) : JumpSite :=
  if a = .jump ⟨k⟩ then site.retract else site

/-- What becomes of the switch at a place. -/
def onSwitch (k : Nat) (site : SwitchSite) (a : Action) : SwitchSite :=
  if a = .switch ⟨k⟩ then site.retract
  else if a = .switchDefault ⟨k⟩ then site.retractDefault
  else site

variable {a b : Action} (ledger : Ledger) (k : Nat)

theorem getElem?_markers_apply (ha : a.Named) :
    (a.apply ledger).1.markers[k]? = ledger.markers[k]?.map (onMarker k · a) := by
  cases a with
  | line id =>
      obtain ⟨pos⟩ := id
      simp [apply, ledger.removeLine_fst, List.getElem?_modify, onMarker]
  | jump id => simp [apply, ledger.removeJump_fst, onMarker]
  | switch id => simp [apply, ledger.removeSwitch_fst, onMarker]
  | switchDefault id => simp [apply, ledger.removeSwitchDefault_fst, onMarker]
  | _ => exact ha.elim

theorem getElem?_jumps_apply (ha : a.Named) :
    (a.apply ledger).1.jumps[k]? = ledger.jumps[k]?.map (onJump k · a) := by
  cases a with
  | line id => simp [apply, ledger.removeLine_fst, onJump]
  | jump id =>
      obtain ⟨pos⟩ := id
      simp [apply, ledger.removeJump_fst, List.getElem?_modify, onJump]
  | switch id => simp [apply, ledger.removeSwitch_fst, onJump]
  | switchDefault id => simp [apply, ledger.removeSwitchDefault_fst, onJump]
  | _ => exact ha.elim

theorem getElem?_switches_apply (ha : a.Named) :
    (a.apply ledger).1.switches[k]? = ledger.switches[k]?.map (onSwitch k · a) := by
  cases a with
  | line id => simp [apply, ledger.removeLine_fst, onSwitch]
  | jump id => simp [apply, ledger.removeJump_fst, onSwitch]
  | switch id =>
      obtain ⟨pos⟩ := id
      simp [apply, ledger.removeSwitch_fst, List.getElem?_modify, onSwitch]
  | switchDefault id =>
      obtain ⟨pos⟩ := id
      simp [apply, ledger.removeSwitchDefault_fst, List.getElem?_modify, onSwitch]
  | _ => exact ha.elim

end Action

/-! ## A sequence of retractions -/

namespace Ledger

/-- What an entry has become is what the retractions, one after the other, have made of it. -/
theorem getElem?_perform {α : Type} {entries : Ledger → List α} {on : Nat → α → Action → α}
    (happly : ∀ (a : Action) (ledger : Ledger) (k : Nat), a.Named →
      (entries (a.apply ledger).1)[k]? = (entries ledger)[k]?.map (on k · a))
    {actions : List Action} (hnamed : ∀ a ∈ actions, a.Named) (ledger : Ledger) (k : Nat) :
    (entries (ledger.perform actions))[k]? = (entries ledger)[k]?.map (actions.foldl (on k)) := by
  induction actions generalizing ledger with
  | nil => simp [perform]
  | cons a rest ih =>
      rw [List.forall_mem_cons] at hnamed
      rw [perform, List.foldl_cons, ← perform, ih hnamed.2, happly a ledger k hnamed.1,
        Option.map_map]
      rfl

theorem bare_perform (actions : List Action) (ledger : Ledger) :
    (ledger.perform actions).bare = ledger.bare := by
  induction actions generalizing ledger with
  | nil => rfl
  | cons a rest ih => rw [perform, List.foldl_cons, ← perform, ih, a.bare_apply]

end Ledger

/-- A switch as its record shows it: the default of a retracted switch does not matter. -/
def SwitchSite.settled (site : SwitchSite) : SwitchSite :=
  { site with defaultRetracted := site.defaultRetracted && !site.retracted }

namespace SwitchSite

theorem settled_of_kept {site : SwitchSite} (h : site.retracted = false) :
    site.settled = site := by
  obtain ⟨index, line, keys, retracted, defaultRetracted⟩ := site
  cases h
  cases defaultRetracted <;> rfl

/-- A switch is retracted if it was so or a retraction names it, and so is its default, unless the
switch itself is. -/
theorem settled_foldl_onSwitch (k : Nat) (site : SwitchSite) (actions : List Action) :
    (actions.foldl (Action.onSwitch k) site).settled =
      { site with
        retracted := site.retracted || decide (.switch ⟨k⟩ ∈ actions)
        defaultRetracted :=
          (site.defaultRetracted || decide (.switchDefault ⟨k⟩ ∈ actions)) &&
            !(site.retracted || decide (.switch ⟨k⟩ ∈ actions)) } := by
  induction actions generalizing site with
  | nil => simp [settled]
  | cons a rest ih =>
      rw [List.foldl_cons, ih, Action.onSwitch]
      by_cases hswitch : a = .switch ⟨k⟩
      · subst hswitch
        simp [retract]
      · rw [if_neg hswitch]
        by_cases hdefault : a = .switchDefault ⟨k⟩
        · subst hdefault
          cases hretracted : site.retracted <;> simp [retractDefault, hretracted]
        · simp [hdefault, Ne.symm hswitch, Ne.symm hdefault]

end SwitchSite

/-- Of switches that keep a record, all is seen in the settled ones. -/
theorem Scan.survivingSwitchesAt_eq (scan : Scan) :
    scan.survivingSwitchesAt =
      (scan.switches.map SwitchSite.settled).zipIdx.filter fun site => scan.keepsSwitch site.1 := by
  have hkeeps : (fun site : SwitchSite × Nat => scan.keepsSwitch site.1) ∘
      Prod.map SwitchSite.settled id = fun site => scan.keepsSwitch site.1 :=
    rfl
  have hsettled : ∀ site ∈ scan.survivingSwitchesAt,
      Prod.map SwitchSite.settled id site = site := by
    intro site hsite
    have hkept : scan.keepsSwitch site.1 = true := (List.mem_filter.1 hsite).2
    simp only [keepsSwitch, Bool.and_eq_true, Bool.not_eq_true'] at hkept
    exact Prod.ext (SwitchSite.settled_of_kept hkept.1) rfl
  rw [List.zipIdx_map, List.filter_map, hkeeps]
  exact ((List.map_congr_left hsettled).trans (List.map_id _)).symm

/-! ## Reports -/

/-- What an operation on a place says: whether there is an entry that is live. -/
theorem retractAt_snd {α : Type} (live : α → Bool) (retire : α → α) (l : List α) (n : Nat) :
    (retractAt live retire l n).2 = l[n]?.any live := by
  induction l generalizing n with
  | nil => cases n <;> rfl
  | cons x rest ih =>
      cases n with
      | zero => by_cases h : live x = true <;> simp [retractAt, h]
      | succ n => simp [retractAt, ih]

namespace Action

section Reports

variable (ledger : Ledger)

theorem report_line (id : MarkerId) :
    ((line id).apply ledger).2 = ledger.markers[id.pos]?.any fun m => !m.retracted :=
  retractAt_snd ..

theorem report_jump (id : JumpId) :
    ((jump id).apply ledger).2 = ledger.jumps[id.pos]?.any fun j => !j.retracted :=
  retractAt_snd ..

theorem report_switch (id : SwitchId) :
    ((switch id).apply ledger).2 = ledger.switches[id.pos]?.any fun s => !s.retracted :=
  retractAt_snd ..

theorem report_switchDefault (id : SwitchId) :
    ((switchDefault id).apply ledger).2 =
      ledger.switches[id.pos]?.any fun s => !s.retracted && !s.defaultRetracted :=
  retractAt_snd ..

end Reports

variable {a b : Action} {ledger : Ledger}

theorem any_map_eq_false {α : Type} {live : α → Bool} {f : α → α} {entry : Option α}
    (hf : ∀ x, entry = some x → live (f x) = false) : (entry.map f).any live = false := by
  cases entry with
  | none => rfl
  | some x => exact hf x rfl

/-- A retraction leaves nothing to retract again. -/
theorem report_apply_self (ha : a.Named) : (a.apply (a.apply ledger).1).2 = false := by
  cases a with
  | line id =>
      rw [report_line, getElem?_markers_apply _ _ ha]
      exact any_map_eq_false fun m _ => by simp [onMarker, Marker.retract]
  | jump id =>
      rw [report_jump, getElem?_jumps_apply _ _ ha]
      exact any_map_eq_false fun j _ => by simp [onJump, JumpSite.retract]
  | switch id =>
      rw [report_switch, getElem?_switches_apply _ _ ha]
      exact any_map_eq_false fun s _ => by simp [onSwitch, SwitchSite.retract]
  | switchDefault id =>
      rw [report_switchDefault, getElem?_switches_apply _ _ ha]
      refine any_map_eq_false fun s _ => ?_
      cases hs : s.retracted <;> simp [onSwitch, SwitchSite.retractDefault, hs]
  | _ => exact ha.elim

/-- Where there is nothing to retract, other retractions do not change that. -/
theorem report_apply (ha : a.Named) (hb : b.Named) (h : (a.apply ledger).2 = false) :
    (a.apply (b.apply ledger).1).2 = false := by
  cases a with
  | line id =>
      rw [report_line] at h ⊢
      rw [getElem?_markers_apply _ _ hb]
      refine any_map_eq_false fun m hm => ?_
      rw [hm] at h
      unfold onMarker
      split
      · rfl
      · exact h
  | jump id =>
      rw [report_jump] at h ⊢
      rw [getElem?_jumps_apply _ _ hb]
      refine any_map_eq_false fun j hj => ?_
      rw [hj] at h
      unfold onJump
      split
      · rfl
      · exact h
  | switch id =>
      rw [report_switch] at h ⊢
      rw [getElem?_switches_apply _ _ hb]
      refine any_map_eq_false fun s hs => ?_
      rw [hs] at h
      unfold onSwitch
      split
      · rfl
      · split <;> exact h
  | switchDefault id =>
      rw [report_switchDefault] at h ⊢
      rw [getElem?_switches_apply _ _ hb]
      refine any_map_eq_false fun s hs => ?_
      rw [hs] at h
      unfold onSwitch
      split
      · rfl
      · split
        · cases hretracted : s.retracted <;> simp [SwitchSite.retractDefault, hretracted]
        · exact h
  | _ => exact ha.elim

end Action

namespace Ledger

/-- What the retractions say one after the other: whether they have retracted something. -/
def reports (ledger : Ledger) : List Action → List Bool
  | [] => []
  | a :: rest => (a.apply ledger).2 :: (a.apply ledger).1.reports rest

/-- A retraction that finds nothing to retract does not find anything later either. -/
theorem count_reports_eq_zero {actions : List Action} (hnamed : ∀ a ∈ actions, a.Named)
    {a : Action} (ha : a.Named) {ledger : Ledger} (h : (a.apply ledger).2 = false) :
    (actions.zip (ledger.reports actions)).count (a, true) = 0 := by
  induction actions generalizing ledger with
  | nil => rfl
  | cons b rest ih =>
      rw [List.forall_mem_cons] at hnamed
      have hne : ((b, (b.apply ledger).2) == (a, true)) = false := by
        rw [beq_eq_false_iff_ne]
        rintro heq
        obtain ⟨rfl, htrue⟩ := Prod.mk.inj heq
        cases h.symm.trans htrue
      rw [reports, List.zip_cons_cons, List.count_cons, hne,
        ih hnamed.2 (Action.report_apply ha hnamed.1 h)]
      rfl

/-- Of the repetitions of a retraction, one at most has retracted something. -/
theorem count_reports_le_one {actions : List Action} (hnamed : ∀ a ∈ actions, a.Named)
    (a : Action) (ledger : Ledger) :
    (actions.zip (ledger.reports actions)).count (a, true) ≤ 1 := by
  induction actions generalizing ledger with
  | nil => exact Nat.zero_le 1
  | cons b rest ih =>
      rw [List.forall_mem_cons] at hnamed
      rw [reports, List.zip_cons_cons, List.count_cons]
      by_cases hb : b = a
      · subst hb
        rw [count_reports_eq_zero hnamed.2 hnamed.1 (Action.report_apply_self hnamed.1)]
        split <;> decide
      · have hne : ((b, (b.apply ledger).2) == (a, true)) = false := by
          rw [beq_eq_false_iff_ne]
          exact fun heq => hb (Prod.mk.inj heq).1
        rw [hne]
        exact ih hnamed.2 _

/-! ## The order of retractions -/

section Order

variable {actions actions' : List Action}

/-- What is seen of the entries is the same if it is so for the fate of each. -/
theorem map_perform_congr {α β : Type} (entries : Ledger → List α) (view : α → β)
    {on : Nat → α → Action → α}
    (happly : ∀ (a : Action) (ledger : Ledger) (k : Nat), a.Named →
      (entries (a.apply ledger).1)[k]? = (entries ledger)[k]?.map (on k · a))
    (hnamed : ∀ a ∈ actions, a.Named) (hnamed' : ∀ a ∈ actions', a.Named)
    (hview : ∀ k x, view (actions.foldl (on k) x) = view (actions'.foldl (on k) x))
    (ledger : Ledger) :
    (entries (ledger.perform actions)).map view = (entries (ledger.perform actions')).map view := by
  refine List.ext_getElem? fun k => ?_
  rw [List.getElem?_map, List.getElem?_map, getElem?_perform happly hnamed,
    getElem?_perform happly hnamed', Option.map_map, Option.map_map]
  exact congrArg ((entries ledger)[k]?.map ·) (funext (hview k))

variable (hnamed : ∀ a ∈ actions, a.Named) (hnamed' : ∀ a ∈ actions', a.Named)
  (hmem : ∀ a, a ∈ actions ↔ a ∈ actions') (ledger : Ledger)

include hnamed hnamed' hmem

theorem markers_perform_congr :
    (ledger.perform actions).markers = (ledger.perform actions').markers := by
  have hfates := map_perform_congr (fun ledger => ledger.markers) id
    (fun a ledger k => Action.getElem?_markers_apply (a := a) ledger k) hnamed hnamed'
    (fun k marker => by
      unfold Action.onMarker
      simp only [foldl_ite_eq Marker.retract_retract, hmem]) ledger
  rwa [List.map_id, List.map_id] at hfates

theorem jumps_perform_congr :
    (ledger.perform actions).jumps = (ledger.perform actions').jumps := by
  have hfates := map_perform_congr (fun ledger => ledger.jumps) id
    (fun a ledger k => Action.getElem?_jumps_apply (a := a) ledger k) hnamed hnamed'
    (fun k site => by
      unfold Action.onJump
      simp only [foldl_ite_eq JumpSite.retract_retract, hmem]) ledger
  rwa [List.map_id, List.map_id] at hfates

theorem settled_perform_congr :
    (ledger.perform actions).switches.map SwitchSite.settled =
      (ledger.perform actions').switches.map SwitchSite.settled :=
  map_perform_congr (fun ledger => ledger.switches) SwitchSite.settled
    (fun a ledger k => Action.getElem?_switches_apply (a := a) ledger k) hnamed hnamed'
    (fun k site => by simp only [SwitchSite.settled_foldl_onSwitch, hmem]) ledger

omit hnamed'

/-- The order of retractions that name their entries cannot be seen in a scan, and neither can
their repetitions: the same lines, jumps and switches keep a record, each switch with or without its
default, and nothing but flags has changed.  Of the repetitions of a retraction one at most says
that it has retracted something. -/
theorem retractions_unordered :
    let scan := (ledger.perform actions).toScan
    let scan' := (ledger.perform actions').toScan
    scan.keptLines = scan'.keptLines ∧
    scan.survivingJumpsAt = scan'.survivingJumpsAt ∧
    scan.survivingSwitchesAt = scan'.survivingSwitchesAt ∧
    (ledger.perform actions).bare = ledger.bare ∧ (ledger.perform actions').bare = ledger.bare ∧
    ∀ a, (actions.zip (ledger.reports actions)).count (a, true) ≤ 1 ∧
      (actions'.zip (ledger.reports actions')).count (a, true) ≤ 1 := by
  intro scan scan'
  have hnamed' : ∀ a ∈ actions', a.Named := fun a ha => hnamed a ((hmem a).2 ha)
  have hmarkers : scan.markers = scan'.markers := markers_perform_congr hnamed hnamed' hmem ledger
  have hjumps : scan.jumps = scan'.jumps := jumps_perform_congr hnamed hnamed' hmem ledger
  have hsettled : scan.switches.map SwitchSite.settled = scan'.switches.map SwitchSite.settled :=
    settled_perform_congr hnamed hnamed' hmem ledger
  have hlines : scan.keptLines = scan'.keptLines := by rw [Scan.keptLines, hmarkers, Scan.keptLines]
  refine ⟨hlines, ?_, ?_, bare_perform actions ledger, bare_perform actions' ledger, fun a => ?_⟩
  · simp only [Scan.survivingJumpsAt, Scan.keepsJump, Scan.keepsLine, hlines, hjumps]
  · simp only [Scan.survivingSwitchesAt_eq, Scan.keepsSwitch, Scan.keepsLine, hlines, hsettled]
  · exact ⟨count_reports_le_one hnamed a ledger, count_reports_le_one hnamed' a ledger⟩

end Order

/-! Two switches, one of which is retracted together with its default. -/

namespace Disordered

def ledger : Ledger where
  markers := [{ index := 0, line := 7 }, { index := 3, line := 8 }, { index := 6, line := 8 }]
  jumps := [{ index := 4, line := 8 }]
  switches := [{ index := 1, line := 7, keys := [1, 2] }, { index := 5, line := 8, keys := [3] }]

def defaultFirst : List Action :=
  [.switchDefault ⟨0⟩, .switch ⟨0⟩, .line ⟨1⟩, .switchDefault ⟨1⟩, .jump ⟨9⟩, .line ⟨1⟩]

def switchFirst : List Action :=
  [.switch ⟨0⟩, .switchDefault ⟨0⟩, .jump ⟨9⟩, .switchDefault ⟨1⟩, .switchDefault ⟨1⟩, .line ⟨1⟩]

end Disordered

open Disordered in
theorem retractions_unordered_flags :
    (∀ a ∈ defaultFirst, a.Named) ∧ (∀ a, a ∈ defaultFirst ↔ a ∈ switchFirst) ∧
    (ledger.perform defaultFirst).switches ≠ (ledger.perform switchFirst).switches ∧
    (ledger.perform defaultFirst).survivingSwitchesAt =
      (ledger.perform switchFirst).survivingSwitchesAt ∧
    (ledger.perform defaultFirst).survivingSwitchesAt.length = 1 := by
  have hnamed : ∀ a ∈ defaultFirst, a.Named := by simp [defaultFirst, Action.Named]
  have hmem : ∀ a, a ∈ defaultFirst ↔ a ∈ switchFirst := by
    intro a
    simp only [defaultFirst, switchFirst, List.mem_cons, List.not_mem_nil]
    tauto
  obtain ⟨-, -, hswitches, -⟩ := retractions_unordered hnamed hmem ledger
  exact ⟨hnamed, hmem, by decide, hswitches, by decide⟩

end Ledger

end BytecodeCoverage
