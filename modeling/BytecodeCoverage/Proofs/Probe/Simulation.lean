import BytecodeCoverage.Proofs.Probe.Outcomes

/-!
# Steps and runs of corresponding threads

A step of a thread is one or more steps of the corresponding thread, after which the threads
correspond again; the tally of the class has changed as the events of the step demand.  A run
that is not cut short on the side with probes ends alike on both sides.

**Results.**
* `Pairing.Good.step_poised`: one step.
* `Pairing.Good.run_alike`: a run.
-/

namespace BytecodeCoverage

open Machine

namespace Pairing.Good

variable {p : Pairing} (hp : p.Good) {places : List Nat} {insn : Instruction} {t t' : Thread}

include hp

/-- A step goes on or ends alike on both sides, once the second side is at the instruction. -/
theorem step_poised {place : Nat} {s : Sheet} {drawn : UInt32}
    (hpoised : p.Poised place places s insn drawn t t') :
    (∃ t₁, t.step insn = .running t₁ ∧
      p.Continues (place :: places) (t.observe insn (place :: places)).2 t₁
        (t.observe insn (place :: places)).1 t') ∨
    ∃ result w, t.step insn = .ended result w ∧ p.Ends result w t' := by
  rcases hp.executed_alike hpoised with ⟨e, hexecute, hexecute'⟩ |
    ⟨o, u, o', o'', u', hexecute, hexecute', houtcomes, hw, hled⟩
  · refine .inr ⟨.error e, t.world, ?_, _, t'.world, hpoised.current, ?_, hpoised.worlds,
      hpoised.ready, .refl hpoised.worlds.regular⟩
    · simp only [Thread.step, hexecute]
    · simp only [Thread.step, hexecute']
  · cases houtcomes with
    | @next g g' hframes =>
        cases hled with
        | same _ =>
            refine .inl ⟨{ t with frame := g.next, world := u }, ?_,
              hp.continues_next hpoised hexecute hexecute' hframes hw⟩
            simp only [Thread.step, hexecute, Thread.resume]
    | @jump g g' target hframes =>
        have hbody : g.body = s.weave.body := hframes.body
        cases hposition : s.weave.body.position? target with
        | some j =>
            refine .inl ⟨{ t with frame := { g with pos := j }, world := u }, ?_,
              hp.continues_jump hpoised hexecute hexecute' hframes hw hled hposition⟩
            simp only [Thread.step, hexecute, Thread.resume, hbody, hposition]
        | none =>
            refine .inr ⟨.error (.unknownLabel target), u, ?_,
              hp.ends_jump hpoised hexecute hexecute' hframes hw hled hposition⟩
            simp only [Thread.step, hexecute, Thread.resume, hbody, hposition]
    | call hframes haccessor hinitializer hparse hlength hplain =>
        cases hled with
        | same _ =>
            rcases hp.step_call hpoised hexecute hexecute' hframes haccessor hinitializer hparse
              hlength hplain hw with hrunning | ⟨e, hended, hends⟩
            · exact .inl hrunning
            · exact .inr ⟨.error e, u, hended, hends⟩
    | @leave result hplain =>
        cases hled with
        | same _ =>
            cases hcallers : t.callers with
            | nil =>
                refine .inr ⟨.ok result, u, ?_, hp.ends_leave hpoised hexecute' hw hcallers⟩
                simp only [Thread.step, hexecute, Thread.resume, hcallers]
            | cons f fs =>
                refine .inl ⟨{ frame := f.pushAny result, callers := fs, world := u }, ?_,
                  hp.continues_leave hpoised hplain hexecute hexecute' hw hcallers⟩
                simp only [Thread.step, hexecute, Thread.resume, hcallers]

/-- Both sides come to the end of the code. -/
theorem current?_eq_none (h : p.Threads places t t') (hend : t.frame.current? = none) :
    t'.frame.current? = none := by
  obtain ⟨hstack, -, -, -⟩ := h
  cases hstack with
  | @cons place rest s _ _ _ _ hsheet hlinked hcallers =>
      obtain ⟨hat, htwins⟩ := hlinked
      have hbody : t.frame.body = s.weave.body := htwins.body
      have hbody' : t'.frame.body = s.body' := htwins.body'
      rw [Frame.current?, hbody] at hend
      rw [Frame.current?, hbody', (hp.sheet place s hsheet).code]
      generalize t'.frame.pos = pos at hat
      cases hat with
      | fell hreached => exact Weave.getElem?_start_of_none hend
      | jumped hlabel =>
          rw [hend] at hlabel
          cases hlabel

/-- A run that the budget does not cut short on the side with probes ends alike on both sides, and
the tally is what the events make of it. -/
theorem run_alike {budget budget' : Nat} (hle : budget' ≤ budget) (h : p.Threads places t t')
    (hlimit : (t'.run budget').result ≠ .error .stepLimit) :
    (t.run budget).result = (t'.run budget').result ∧
      (t'.run budget').budget ≤ (t.run budget).budget ∧
      p.Worlds (t.run budget).world (t'.run budget').world ∧
      p.Ready (t'.run budget').world ∧
      p.Noted t'.world.registry (t.events budget places) (t'.run budget').world.registry := by
  induction budget generalizing t t' places budget' with
  | zero =>
      obtain rfl : budget' = 0 := by omega
      cases hinsn : t.frame.current? with
      | none =>
          have hinsn' := hp.current?_eq_none h hinsn
          simp only [Thread.run, hinsn, hinsn']
          exact ⟨trivial, Nat.le_refl _, h.worlds, h.ready, .refl h.worlds.regular⟩
      | some insn =>
          obtain ⟨xs, t₀', place, rest, s, drawn, rfl, hmain, hpoised, -⟩ :=
            hp.exists_poised h hinsn
          obtain ⟨-, heq⟩ := hmain.run_eq hlimit
          rw [heq] at hlimit
          simp [Thread.run, hpoised.current] at hlimit
  | succ budget ih =>
      cases hinsn : t.frame.current? with
      | none =>
          have hinsn' := hp.current?_eq_none h hinsn
          simp only [Thread.run, hinsn, hinsn', Thread.events]
          exact ⟨trivial, hle, h.worlds, h.ready, .refl h.worlds.regular⟩
      | some insn =>
          obtain ⟨xs, t₀', place, rest, s, drawn, rfl, hmain, hpoised, hworld, -⟩ :=
            hp.exists_poised h hinsn
          obtain ⟨hn₀, heq₀⟩ := hmain.run_eq hlimit
          dsimp only at hn₀ heq₀
          rw [heq₀] at hlimit ⊢
          rw [← hworld]
          rcases hp.step_poised hpoised with ⟨t₁, hstep, ys, t₁', hrun, hthreads, hnoted, -⟩ |
            ⟨result, w, hstep, insn', w', hinsn', hstep', hworlds, hready, hnoted⟩
          · obtain ⟨hn, heq⟩ := hrun.run_eq hlimit
            dsimp only [List.length_cons] at hn heq
            rw [heq] at hlimit ⊢
            obtain ⟨hresult, hbudget, hworlds, hready, hnoted'⟩ :=
              ih (by omega : budget' - xs.length - (ys.length + 1) ≤ budget) hthreads hlimit
            have hfirst : t.run (budget + 1) = t₁.run budget := by simp [Thread.run, hinsn, hstep]
            have hevents : t.events (budget + 1) (place :: rest) =
                (t.observe insn (place :: rest)).1 ++
                  t₁.events budget (t.observe insn (place :: rest)).2 := by
              simp only [Thread.events, hinsn, hstep]
            rw [hfirst, hevents]
            exact ⟨hresult, hbudget, hworlds, hready, hnoted.trans hnoted'⟩
          · cases hrest : budget' - xs.length with
            | zero => simp [hrest, Thread.run, hinsn'] at hlimit
            | succ left =>
                have hlast : t₀'.run (left + 1) = { result, world := w', budget := left } := by
                  simp [Thread.run, hinsn', hstep']
                have hfirst : t.run (budget + 1) = { result, world := w, budget } := by
                  simp [Thread.run, hinsn, hstep]
                have hevents : t.events (budget + 1) (place :: rest) = [] := by
                  simp only [Thread.events, hinsn, hstep]
                rw [hlast, hfirst, hevents]
                exact ⟨rfl, by simp only; omega, hworlds, hready, hnoted⟩

end Pairing.Good

end BytecodeCoverage
