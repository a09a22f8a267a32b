import BytecodeCoverage.Proofs.Probe.Pairing
import Mathlib.Logic.Function.Iterate

/-!
# What events do to counters

Each event is counted in one slot at most.  So what a counter holds in the end depends only on how
many events are counted in its slot.

**Main definitions.**
* `Pairing.slotOf?`: the slot that an event is counted in.
* `HitMode.told`: what a counter tells about a number of events.

**Results.**
* `Pairing.Good.counts_noteAll`: every counter after some events.
* `Probe.toNat_bump_iterate`: what a counter that starts at zero holds.
-/

namespace BytecodeCoverage

/-- What a counter tells about a number of events. -/
def HitMode.told : HitMode → Nat → Nat
  | .count, n => n
  | .flag, n => min n 1

theorem HitMode.told_eq_zero (mode : HitMode) (n : Nat) : mode.told n = 0 ↔ n = 0 := by
  cases mode with
  | count => rfl
  | flag =>
      rw [told]
      omega

namespace Probe

theorem toNat_bump_count {n : UInt32} (h : n.toNat < 0x7fffffff) :
    (bump .count n).toNat = n.toNat + 1 := by
  have hmin : min n.toNat 0x7fffffff = n.toNat := Nat.min_eq_left (Nat.le_of_lt h)
  have hsum : (Int32.ofNat n.toNat + 1).toInt = n.toNat + 1 := by
    have hone : (1 : Int32) = Int32.ofNat 1 := rfl
    rw [hone, ← Int32.ofNat_add]
    exact Int32.toInt_ofNat_of_lt (by omega)
  have hlt : n.toNat + 1 < UInt32.size := Nat.lt_of_le_of_lt h (by decide)
  rw [bump, hmin, hsum]
  exact UInt32.toNat_ofNat_of_lt hlt

/-- A counter that starts at zero tells how many events there were. -/
theorem toNat_bump_iterate (mode : HitMode) {n : Nat} (h : n < 0x7fffffff) :
    ((bump mode)^[n] 0).toNat = mode.told n := by
  induction n with
  | zero => cases mode <;> rfl
  | succ n ih =>
      have hn := ih (by omega)
      rw [Function.iterate_succ_apply']
      cases mode with
      | count =>
          rw [HitMode.told] at hn ⊢
          rw [toNat_bump_count (by omega), hn]
      | flag =>
          rw [HitMode.told, Nat.min_eq_right (by omega)]
          rfl

end Probe

namespace Pairing

/-- The slot that an event is counted in. -/
def slotOf? (p : Pairing) (e : Event) : Option Nat :=
  (p.sheets e.method).bind fun s =>
    (s.weave.plan.site? e.index e.deed).bind s.weave.slots.slot?

namespace Good

variable {p : Pairing} (hp : p.Good)

include hp

theorem counts_note (t : Tally) (e : Event) :
    (p.note t e).counts =
      match p.slotOf? e with
      | some slot => t.counts.modify (Probe.place slot) (Probe.bump p.style.mode)
      | none => t.counts := by
  have htallied : ∀ s, p.sheets e.method = some s → ∀ site : Option ProbeSite,
      (s.weave.tallied site t).counts =
        match site.bind s.weave.slots.slot? with
        | some slot => t.counts.modify (Probe.place slot) (Probe.bump p.style.mode)
        | none => t.counts := by
    intro s hs site
    cases site with
    | none => rfl
    | some site =>
        rw [Weave.tallied, Option.bind_some, hp.style _ s hs]
        cases hslot : s.weave.slots.slot? site with
        | none => rfl
        | some slot =>
            simp only [ProbeStyle.tallied, Tally.hit]
            cases site with
            | line number => cases p.style.traced.isSome <;> rfl
            | _ => rfl
  unfold note slotOf?
  cases hs : p.sheets e.method with
  | none => rfl
  | some s =>
      rw [Option.bind_some, ← htallied s hs]
      cases e.deed with
      | entered =>
          show (if s.probed then p.style.entered p.slots t else t).counts = t.counts
          unfold ProbeStyle.entered
          split
          · split <;> rfl
          · rfl
      | _ => rfl

/-- A counter after some events. -/
theorem counts_noteAll (t : Tally) (events : List Event) (i : Nat) :
    (p.noteAll t events).counts[i]? =
      t.counts[i]?.map
        (Probe.bump p.style.mode)^[events.countP fun e => (p.slotOf? e).map Probe.place = some i] := by
  induction events generalizing t with
  | nil => simp [noteAll]
  | cons e rest ih =>
      rw [noteAll, List.foldl_cons]
      refine (ih (p.note t e)).trans ?_
      rw [hp.counts_note, List.countP_cons]
      cases hslot : p.slotOf? e with
      | none => simp
      | some slot =>
          dsimp only
          rw [List.getElem?_modify]
          by_cases heq : Probe.place slot = i
          · simp [heq, Function.comp_def]
          · simp [heq]

theorem length_noteAll (t : Tally) (events : List Event) :
    (p.noteAll t events).counts.length = t.counts.length := by
  induction events generalizing t with
  | nil => rfl
  | cons e rest ih =>
      refine (ih (p.note t e)).trans ?_
      rw [hp.counts_note]
      split <;> simp

end Good

end Pairing

end BytecodeCoverage
