import Mathlib.Data.List.Dedup
import BytecodeCoverage.Scan.Ledger
import BytecodeCoverage.Noise.Pattern

/-!
# Retractions

A retraction changes flags only, so what is registered stays the same (`Ledger.bare`). Two
retractions may be performed in either order and each of them twice. The one exception is a switch
and its default, since the default of a retracted switch is left alone. No pattern asks for both
at one instruction (`Action.Suits`), so what a batch of retractions does depends on its members
only.

**Main definitions.**
* `Ledger.bare`: a ledger with every retraction undone.
* `Ledger.perform`: a batch of retractions, one after the other.
* `Action.Suits`: what may be asked for at a switch, and what elsewhere.

**Results.**
* `Action.bare_apply`: what is registered stays the same.
* `Ledger.perform_congr`: batches with the same members do the same.
-/

namespace BytecodeCoverage

/-! ## Entries -/

namespace Marker

def retract (marker : Marker) : Marker :=
  { marker with retracted := true }

def bare (marker : Marker) : Marker :=
  { marker with retracted := false }

theorem bare_retract (marker : Marker) : marker.retract.bare = marker.bare :=
  rfl

end Marker

namespace JumpSite

def retract (site : JumpSite) : JumpSite :=
  { site with retracted := true }

def bare (site : JumpSite) : JumpSite :=
  { site with retracted := false }

theorem bare_retract (site : JumpSite) : site.retract.bare = site.bare :=
  rfl

end JumpSite

namespace SwitchSite

def retract (site : SwitchSite) : SwitchSite :=
  { site with retracted := true }

/-- Only the default of a switch that is not retracted can be retracted. -/
def retractDefault (site : SwitchSite) : SwitchSite :=
  { site with defaultRetracted := site.defaultRetracted || !site.retracted }

def bare (site : SwitchSite) : SwitchSite :=
  { site with retracted := false, defaultRetracted := false }

theorem bare_retract (site : SwitchSite) : site.retract.bare = site.bare :=
  rfl

theorem bare_retractDefault (site : SwitchSite) : site.retractDefault.bare = site.bare :=
  rfl

theorem retractDefault_retractDefault (site : SwitchSite) :
    site.retractDefault.retractDefault = site.retractDefault := by
  simp [retractDefault]

end SwitchSite

/-- Retracting is modifying the entry at the place. -/
theorem retractAt_fst {α : Type} (live : α → Bool) (retire : α → α) (l : List α) (n : Nat) :
    (retractAt live retire l n).1 = l.modify n fun x => if live x then retire x else x := by
  induction l generalizing n with
  | nil => cases n <;> rfl
  | cons x rest ih =>
      cases n with
      | zero => by_cases h : live x = true <;> simp [retractAt, h]
      | succ n => simp [retractAt, ih]

/-- A modification that does not change what is seen of the modified entry. -/
theorem map_modify_of_eq {α β : Type} {view : α → β} {f : α → α} {l : List α} {n : Nat}
    (h : ∀ x, l[n]? = some x → view (f x) = view x) : (l.modify n f).map view = l.map view := by
  refine List.ext_getElem? fun i => ?_
  rw [List.getElem?_map, List.getElem?_map, List.getElem?_modify]
  by_cases hi : n = i
  · subst hi
    cases hx : l[n]? with
    | none => rfl
    | some x => simp [h x hx]
  · simp [hi]

/-- Commuting modifications commute wherever they take place. -/
theorem modify_comm {α : Type} {f g : α → α} (h : g ∘ f = f ∘ g) (l : List α) (i j : Nat) :
    (l.modify i f).modify j g = (l.modify j g).modify i f := by
  by_cases hij : i = j
  · subst hij
    rw [List.modify_modify_eq, List.modify_modify_eq, h]
  · exact List.modify_modify_ne f g l hij

namespace Ledger

variable (ledger : Ledger)

theorem removeLine_fst (id : MarkerId) :
    (ledger.removeLine id).1 =
      { ledger with markers := ledger.markers.modify id.pos Marker.retract } := by
  have hretract : (fun m : Marker => if !m.retracted then { m with retracted := true } else m) =
      Marker.retract := by
    funext ⟨index, line, retracted⟩
    cases retracted <;> rfl
  simp only [removeLine, retractAt_fst, hretract]

theorem removeJump_fst (id : JumpId) :
    (ledger.removeJump id).1 =
      { ledger with jumps := ledger.jumps.modify id.pos JumpSite.retract } := by
  have hretract : (fun j : JumpSite => if !j.retracted then { j with retracted := true } else j) =
      JumpSite.retract := by
    funext ⟨index, line, retracted⟩
    cases retracted <;> rfl
  simp only [removeJump, retractAt_fst, hretract]

theorem removeSwitch_fst (id : SwitchId) :
    (ledger.removeSwitch id).1 =
      { ledger with switches := ledger.switches.modify id.pos SwitchSite.retract } := by
  have hretract :
      (fun s : SwitchSite => if !s.retracted then { s with retracted := true } else s) =
        SwitchSite.retract := by
    funext ⟨index, line, keys, retracted, defaultRetracted⟩
    cases retracted <;> rfl
  simp only [removeSwitch, retractAt_fst, hretract]

theorem removeSwitchDefault_fst (id : SwitchId) :
    (ledger.removeSwitchDefault id).1 =
      { ledger with switches := ledger.switches.modify id.pos SwitchSite.retractDefault } := by
  have hretract :
      (fun s : SwitchSite =>
        if !s.retracted && !s.defaultRetracted then { s with defaultRetracted := true } else s) =
        SwitchSite.retractDefault := by
    funext ⟨index, line, keys, retracted, defaultRetracted⟩
    cases retracted <;> cases defaultRetracted <;> rfl
  simp only [removeSwitchDefault, retractAt_fst, hretract]

/-! ## What is registered -/

/-- A ledger with every retraction undone. -/
def bare : Ledger :=
  { ledger with
    markers := ledger.markers.map Marker.bare
    jumps := ledger.jumps.map JumpSite.bare
    switches := ledger.switches.map SwitchSite.bare }

@[simp] theorem lineHere_bare : ledger.bare.lineHere = ledger.lineHere := by
  simp [lineHere, lastLine, marker?, bare, Option.any_map, Marker.bare]

@[simp] theorem jumpHere_bare : ledger.bare.jumpHere = ledger.jumpHere := by
  simp [jumpHere, lastJump, jump?, bare, Option.any_map, JumpSite.bare]

@[simp] theorem switchHere_bare : ledger.bare.switchHere = ledger.switchHere := by
  simp [switchHere, lastSwitch, switch?, bare, Option.any_map, SwitchSite.bare]

@[simp] theorem map_line_switch?_bare (id : SwitchId) :
    (ledger.bare.switch? id).map SwitchSite.line = (ledger.switch? id).map SwitchSite.line := by
  simp [switch?, bare, Function.comp_def, SwitchSite.bare]

end Ledger

namespace Action

@[simp] theorem jumpHere_bare (ledger : Ledger) : jumpHere ledger.bare = jumpHere ledger := by
  simp [jumpHere]

/-- Nothing that a filter does changes what is registered. -/
theorem bare_apply (action : Action) (ledger : Ledger) :
    (action.apply ledger).1.bare = ledger.bare := by
  have hline (id : MarkerId) : (ledger.removeLine id).1.bare = ledger.bare := by
    simp only [ledger.removeLine_fst, Ledger.bare, map_modify_of_eq fun x _ => Marker.bare_retract x]
  have hjump (id : JumpId) : (ledger.removeJump id).1.bare = ledger.bare := by
    simp only [ledger.removeJump_fst, Ledger.bare, map_modify_of_eq fun x _ => JumpSite.bare_retract x]
  have hswitch (id : SwitchId) : (ledger.removeSwitch id).1.bare = ledger.bare := by
    simp only [ledger.removeSwitch_fst, Ledger.bare, map_modify_of_eq fun x _ => SwitchSite.bare_retract x]
  have hdefault (id : SwitchId) : (ledger.removeSwitchDefault id).1.bare = ledger.bare := by
    simp only [ledger.removeSwitchDefault_fst, Ledger.bare,
      map_modify_of_eq fun x _ => SwitchSite.bare_retractDefault x]
  have honSome {ι : Type} (remove : Ledger → ι → Ledger × Bool) (id : Option ι)
      (h : ∀ id, (remove ledger id).1.bare = ledger.bare) :
      (onSome remove ledger id).1.bare = ledger.bare := by
    cases id with
    | none => rfl
    | some id => exact h id
  cases action with
  | nothing => rfl
  | lastLine => exact honSome _ _ hline
  | lastJump => exact honSome _ _ hjump
  | lastSwitch => exact honSome _ _ hswitch
  | lastSwitchDefault => exact honSome _ _ hdefault
  | line id => exact hline id
  | jump id => exact hjump id
  | switch id => exact hswitch id
  | switchDefault id => exact hdefault id

/-! ## The order of retractions -/

/-- What may be asked for at a switch, and what elsewhere: an entry by its name, and never both a
switch and its default. -/
def Suits (atSwitch : Bool) : Action → Prop
  | .nothing | .line _ | .jump _ => True
  | .switch _ => atSwitch = true
  | .switchDefault _ => atSwitch = false
  | .lastLine | .lastJump | .lastSwitch | .lastSwitchDefault => False

variable {atSwitch : Bool} {a b : Action}

/-- The order of two retractions does not matter. -/
theorem apply_comm (ha : a.Suits atSwitch) (hb : b.Suits atSwitch) (ledger : Ledger) :
    (b.apply (a.apply ledger).1).1 = (a.apply (b.apply ledger).1).1 := by
  cases a <;> cases b <;>
    first
    | exact ha.elim
    | exact hb.elim
    | rfl
    | exact absurd (ha.symm.trans hb) (by decide)
    | exact absurd (hb.symm.trans ha) (by decide)
    | simp only [apply, Ledger.removeLine_fst, Ledger.removeJump_fst, Ledger.removeSwitch_fst,
        Ledger.removeSwitchDefault_fst, modify_comm rfl]

/-- A retraction performed twice does no more than once. -/
theorem apply_apply (ha : a.Suits atSwitch) (ledger : Ledger) :
    (a.apply (a.apply ledger).1).1 = (a.apply ledger).1 := by
  have hdefault : SwitchSite.retractDefault ∘ SwitchSite.retractDefault =
      SwitchSite.retractDefault :=
    funext SwitchSite.retractDefault_retractDefault
  cases a with
  | nothing => rfl
  | lastLine | lastJump | lastSwitch | lastSwitchDefault => exact ha.elim
  | line id =>
      simp only [apply, Ledger.removeLine_fst, List.modify_modify_eq]
      rfl
  | jump id =>
      simp only [apply, Ledger.removeJump_fst, List.modify_modify_eq]
      rfl
  | switch id =>
      simp only [apply, Ledger.removeSwitch_fst, List.modify_modify_eq]
      rfl
  | switchDefault id =>
      simp only [apply, Ledger.removeSwitchDefault_fst, List.modify_modify_eq, hdefault]

end Action

/-! ## Batches -/

/-- Folding over a list without its repetitions. -/
theorem foldl_dedup {α β : Type} [DecidableEq α] {f : β → α → β} {l : List α}
    (hcomm : ∀ x ∈ l, ∀ y ∈ l, ∀ z, f (f z x) y = f (f z y) x)
    (hidem : ∀ x ∈ l, ∀ z, f (f z x) x = f z x) (z : β) : l.dedup.foldl f z = l.foldl f z := by
  induction l generalizing z with
  | nil => rfl
  | cons x rest ih =>
      have ih := ih (fun x hx y hy => hcomm x (.tail _ hx) y (.tail _ hy))
        fun x hx => hidem x (.tail _ hx)
      by_cases hx : x ∈ rest
      · -- The repetition of `x` further on does the same, since `x` can be moved there.
        have hperm : rest.Perm (x :: rest.erase x) := List.perm_cons_erase hx
        have hrest (z : β) : rest.foldl f z = (rest.erase x).foldl f (f z x) :=
          hperm.foldl_eq' (fun x hx y hy => hcomm x (.tail _ hx) y (.tail _ hy)) z
        rw [List.dedup_cons_of_mem hx, ih, List.foldl_cons, hrest z, hrest (f z x),
          hidem x List.mem_cons_self]
      · rw [List.dedup_cons_of_notMem hx, List.foldl_cons, List.foldl_cons, ih]

namespace Ledger

/-- A batch of retractions, one after the other. -/
def perform (ledger : Ledger) (actions : List Action) : Ledger :=
  actions.foldl (fun ledger action => (action.apply ledger).1) ledger

/-- Batches with the same members do the same. -/
theorem perform_congr (atSwitch : Bool) {actions actions' : List Action}
    (hsuits : ∀ a ∈ actions, a.Suits atSwitch) (hmem : ∀ a, a ∈ actions ↔ a ∈ actions')
    (ledger : Ledger) : ledger.perform actions = ledger.perform actions' := by
  have hsuits' : ∀ a ∈ actions', a.Suits atSwitch := fun a ha => hsuits a ((hmem a).2 ha)
  have hperm : actions.dedup.Perm actions'.dedup := by
    refine (List.perm_ext_iff_of_nodup actions.nodup_dedup actions'.nodup_dedup).2 fun a => ?_
    rw [List.mem_dedup, List.mem_dedup, hmem]
  calc
    ledger.perform actions = ledger.perform actions.dedup :=
      (foldl_dedup (fun a ha b hb => Action.apply_comm (hsuits a ha) (hsuits b hb))
        (fun a ha => Action.apply_apply (hsuits a ha)) ledger).symm
    _ = ledger.perform actions'.dedup :=
      hperm.foldl_eq' (fun a ha b hb => Action.apply_comm (hsuits a (List.mem_dedup.1 ha))
        (hsuits b (List.mem_dedup.1 hb))) ledger
    _ = ledger.perform actions' :=
      foldl_dedup (fun a ha b hb => Action.apply_comm (hsuits' a ha) (hsuits' b hb))
        (fun a ha => Action.apply_apply (hsuits' a ha)) ledger

end Ledger

end BytecodeCoverage
