import BytecodeCoverage.Proofs.Probe.Notes
import BytecodeCoverage.Proofs.Session.Behaviour

/-!
# Counters are exact

The records of a class say what its slots stand for: each line has a slot, and its jumps and
switches are those that were kept of the scanned methods, in order.  What has been counted in a
slot is what the original class does.

**Main definitions.**
* `Occurrence.holds`: whether an event is the occurrence.
* `ClassRecord.StandsFor`: what a slot stands for, according to the records.

**Results.**
* `ClassFile.Made.slotOf?_eq_some_iff`: an event is counted where it should be.
* `Session.counters_of_probed`: what the counters hold.
-/

namespace BytecodeCoverage

open Machine

/-- The jumps of a line that were kept, with the places of their methods. -/
def survivingJumpsOn (number : UInt32) (scanned : List ScannedMethod) : List (Nat × JumpSite) :=
  scanned.flatMap fun m =>
    (m.scan.survivingJumps.filter fun site => site.line = number).map (Prod.mk m.index)

/-- The switches of a line that were kept, with the places of their methods. -/
def survivingSwitchesOn (number : UInt32) (scanned : List ScannedMethod) :
    List (Nat × SwitchSite) :=
  scanned.flatMap fun m =>
    (m.scan.survivingSwitches.filter fun site => site.line = number).map (Prod.mk m.index)

/-- Whether an event is the occurrence: a marker of a line is meant only if it was kept. -/
def Occurrence.holds (scanned : List ScannedMethod) : Occurrence → Event → Bool
  | .passes number, e =>
      e.deed = .passed number && scanned.any fun m =>
        m.index = e.method && m.scan.keptMarkers.any fun marker =>
          marker.index = e.index && marker.line = number
  | .performs method index deed, e => e = ⟨method, index, deed⟩

/-- What the slots of a record stand for, given the scanned methods. -/
inductive ClassRecord.StandsFor (record : ClassRecord) (scanned : List ScannedMethod) :
    Nat → Occurrence → Prop
  | line {number : UInt32} {line : LineRecord} :
      record.line? number = some line → StandsFor record scanned line.slot (.passes number)
  | taken {number : UInt32} {line : LineRecord} {k place : Nat} {jump : JumpRecord}
      {site : JumpSite} :
      record.line? number = some line → line.jumps[k]? = some jump →
      (survivingJumpsOn number scanned)[k]? = some (place, site) →
      StandsFor record scanned jump.takenSlot (.performs place site.index .taken)
  | notTaken {number : UInt32} {line : LineRecord} {k place : Nat} {jump : JumpRecord}
      {site : JumpSite} :
      record.line? number = some line → line.jumps[k]? = some jump →
      (survivingJumpsOn number scanned)[k]? = some (place, site) →
      StandsFor record scanned jump.notTakenSlot (.performs place site.index .notTaken)
  | case {number : UInt32} {line : LineRecord} {k place pos slot : Nat} {switch : SwitchRecord}
      {site : SwitchSite} :
      record.line? number = some line → line.switches[k]? = some switch →
      (survivingSwitchesOn number scanned)[k]? = some (place, site) →
      switch.keySlots[pos]? = some slot →
      StandsFor record scanned slot (.performs place site.index (.case pos))
  | otherwise {number : UInt32} {line : LineRecord} {k place slot : Nat} {switch : SwitchRecord}
      {site : SwitchSite} :
      record.line? number = some line → line.switches[k]? = some switch →
      (survivingSwitchesOn number scanned)[k]? = some (place, site) →
      switch.defaultSlot = some slot →
      StandsFor record scanned slot (.performs place site.index .otherwise)

/-- Slots stand for what is done, not for methods that are entered. -/
theorem ClassRecord.StandsFor.isDone {record : ClassRecord} {scanned : List ScannedMethod}
    {slot : Nat} {o : Occurrence} {e : Event} (h : record.StandsFor scanned slot o)
    (he : o.holds scanned e = true) : e.isDone = true := by
  cases h with
  | line =>
      simp only [Occurrence.holds, Bool.and_eq_true, decide_eq_true_eq] at he
      simp [Event.isDone, he.1]
  | _ =>
      obtain rfl := of_decide_eq_true he
      rfl

/-! ## Branches of a line -/

/-- What was laid out of a line is what was kept of it in each method. -/
theorem sitesOn_entriesOf {α : Type} {select : Kept → Option α} {line : α → UInt32}
    {sites : Scan → List α} (hline : ∀ kept site, select kept = some site → kept.number = line site)
    (number : UInt32) {scanned : List ScannedMethod}
    (hsites : ∀ m ∈ scanned, m.scan.kept.filterMap select = sites m.scan) :
    sitesOn select number (entriesOf scanned) = scanned.flatMap fun m =>
      ((sites m.scan).filter fun site => line site = number).map (Prod.mk m.index) := by
  induction scanned with
  | nil => rfl
  | cons m rest ih =>
      rw [entriesOf, List.flatMap_cons, List.flatMap_cons, sitesOn_append, sitesOn_map _ hline,
        hsites m List.mem_cons_self]
      exact congrArg _ (ih fun other hother => hsites other (List.mem_cons_of_mem _ hother))

theorem jumpsOn_entriesOf (number : UInt32) {scanned : List ScannedMethod}
    (hsited : ∀ m ∈ scanned, m.scan.outline.Sited m.body.code m.body.code.length) :
    sitesOn Kept.jump? number (entriesOf scanned) = survivingJumpsOn number scanned := by
  refine sitesOn_entriesOf ?_ number fun m hm => Scan.jumps_kept (hsited m hm)
  rintro (_ | _ | _) _ ⟨⟩
  rfl

theorem switchesOn_entriesOf (number : UInt32) {scanned : List ScannedMethod}
    (hsited : ∀ m ∈ scanned, m.scan.outline.Sited m.body.code m.body.code.length) :
    sitesOn Kept.switch? number (entriesOf scanned) = survivingSwitchesOn number scanned := by
  refine sitesOn_entriesOf ?_ number fun m hm => Scan.switches_kept (hsited m hm)
  rintro (_ | _ | _) _ ⟨⟩
  rfl

/-! ## What is probed -/

namespace Plan

variable {scan : Scan} {code : List Instruction} {stop index : Nat} {deed : Deed}
  {site : ProbeSite}

/-- Apart from lines, a site counts the deed of its instruction. -/
theorem occurrence_of_site? {plan : Plan} (method : Nat) (h : plan.site? index deed = some site)
    (hdeed : ∀ number, deed ≠ .passed number) :
    site.occurrence method = .performs method index deed := by
  cases deed with
  | entered => cases h
  | passed number => exact absurd rfl (hdeed number)
  | taken | notTaken =>
      simp only [site?] at h
      split at h
      · cases h
        rfl
      · cases h
  | case pos =>
      obtain ⟨_, -, rfl⟩ := Option.map_eq_some_iff.1 h
      rfl
  | otherwise =>
      obtain ⟨_, -, h⟩ := Option.bind_eq_some_iff.1 h
      split at h
      · cases h
      · cases h
        rfl

/-- The kept markers are probed. -/
theorem site?_passed (number : UInt32) :
    (Plan.ofScan scan).site? index (.passed number) =
      if scan.keptMarkers.any fun marker => marker.index = index then some (.line number)
      else none := by
  have hiff : (scan.keptMarkers.map Marker.index).contains index =
      scan.keptMarkers.any fun marker => decide (marker.index = index) := by
    rw [Bool.eq_iff_iff]
    simp
  simp only [site?, ofScan, hiff]

/-- The outcomes of kept entries are probed. -/
theorem exists_site?_of_outcome {method : Nat} (hsited : scan.outline.Sited code stop) {kept : Kept}
    (hkept : kept ∈ scan.kept) (h : .performs method index deed ∈ kept.outcomes method) :
    ∃ site, (Plan.ofScan scan).site? index deed = some site ∧
      site.occurrence method = .performs method index deed := by
  rcases Scan.mem_kept.1 hkept with ⟨marker, -, rfl⟩ | ⟨jump, hjump, rfl⟩ | ⟨switch, hswitch, rfl⟩
  · simp [Kept.outcomes] at h
  · have hcontains : (scan.survivingJumps.map JumpSite.index).contains jump.index = true :=
      List.contains_iff_mem.2 (List.mem_map_of_mem hjump)
    simp only [Kept.outcomes, List.mem_cons, List.not_mem_nil, or_false,
      Occurrence.performs.injEq, true_and] at h
    rcases h with ⟨rfl, rfl⟩ | ⟨rfl, rfl⟩
    · exact ⟨.taken jump.index, by simp only [site?, ofScan, hcontains, if_true], rfl⟩
    · exact ⟨.notTaken jump.index, by simp only [site?, ofScan, hcontains, if_true], rfl⟩
  · have hnodup : ((scan.survivingSwitches.map fun site => (site.index, site)).map
        Prod.fst).Nodup := by
      have horder := hsited.switchOrder
      simp only [Scan.outline, List.map_map] at horder
      rw [List.map_map]
      exact (horder.sublist (List.filter_sublist.map _)).imp Nat.ne_of_lt
    have hfound : (ofScan scan).switches.get? switch.index = some switch :=
      SortedMap.get?_ofList_of_mem hnodup (List.mem_map.2 ⟨switch, hswitch, rfl⟩)
    rcases List.mem_append.1 h with h | h
    · obtain ⟨pos, -, heq⟩ := List.mem_map.1 h
      cases heq
      exact ⟨.case switch.index pos, by simp only [site?, hfound, Option.map_some], rfl⟩
    · cases hretracted : switch.defaultRetracted with
      | true => simp [hretracted] at h
      | false =>
          simp only [hretracted, Bool.false_eq_true, if_false, List.mem_singleton,
            Occurrence.performs.injEq, true_and] at h
          obtain ⟨rfl, rfl⟩ := h
          exact ⟨.otherwise switch.index, by simp [site?, hfound, hretracted], rfl⟩

end Plan

namespace ClassFile

variable {cls : ClassFile} {style : ProbeStyle} {laidOut : List (ScannedMethod × MethodSlots)}
  {slots : Nat} {e : Event} {slot : Nat}

/-- A laid out method is found at its place. -/
theorem LaidOut.probedAt_of_mem (h : cls.LaidOut laidOut) {m : ScannedMethod}
    {methodSlots : MethodSlots} (hmem : (m, methodSlots) ∈ laidOut) :
    probedAt laidOut m.index = some (m, methodSlots) := by
  have hdistinct := h.distinct
  clear h
  induction laidOut with
  | nil => cases hmem
  | cons first rest ih =>
      rw [List.map_cons, List.nodup_cons] at hdistinct
      rw [probedAt, List.find?_cons]
      rcases List.mem_cons.1 hmem with rfl | hmem
      · simp
      · have hne : (first.1.index == m.index) = false := by
          rw [beq_eq_false_iff_ne]
          intro heq
          exact hdistinct.1 (List.mem_map.2 ⟨_, hmem, heq.symm⟩)
        rw [hne]
        exact ih hmem hdistinct.2

/-- An event is counted by the probe of its site, if there is one. -/
theorem slotOf?_eq_some (h : cls.LaidOut laidOut) :
    (cls.pairing style laidOut slots).slotOf? e = some slot ↔
      ∃ m methodSlots site, (m, methodSlots) ∈ laidOut ∧ m.index = e.method ∧
        (Plan.ofScan m.scan).site? e.index e.deed = some site ∧
        methodSlots.slot? site = some slot := by
  rw [Pairing.slotOf?, Option.bind_eq_some_iff]
  constructor
  · rintro ⟨s, hs, hslot⟩
    obtain ⟨method, body, hmethod, -, rfl⟩ := exists_of_sheets hs
    obtain ⟨site, hsite, hslot⟩ := Option.bind_eq_some_iff.1 hslot
    unfold sheetAt sheetOf at hsite hslot
    cases hprobed : probedAt laidOut e.method with
    | none =>
        rw [hprobed] at hsite
        rw [Sheet.site?_nothing] at hsite
        cases hsite
    | some found =>
        obtain ⟨m, methodSlots⟩ := found
        obtain ⟨-, hindex, hmem⟩ := h.of_probedAt hmethod hprobed
        rw [hprobed] at hsite hslot
        exact ⟨m, methodSlots, site, hmem, hindex, hsite, hslot⟩
  · rintro ⟨m, methodSlots, site, hmem, hindex, hsite, hslot⟩
    obtain ⟨method, hmethod, hbody⟩ := (h.method _ hmem).method
    have hprobed := h.probedAt_of_mem hmem
    rw [show (m, methodSlots).1.index = e.method from hindex] at hmethod
    rw [hindex] at hprobed
    refine ⟨_, sheets_pairing hmethod hbody, Option.bind_eq_some_iff.2 ⟨site, ?_, ?_⟩⟩
    · simp only [sheetAt, sheetOf, hprobed]
      exact hsite
    · simp only [sheetAt, sheetOf, hprobed]
      exact hslot

namespace Made

variable {options : Options} {filters : List Filter} {scanned : List ScannedMethod}
  {record : ClassRecord} {meanings : List Occurrence}

theorem sited (h : cls.Made options filters scanned record laidOut meanings) :
    ∀ m ∈ scanned, m.scan.outline.Sited m.body.code m.body.code.length := by
  intro m hm
  rw [← h.listed] at hm
  obtain ⟨e, he, rfl⟩ := List.mem_map.1 hm
  exact (h.methods.method e he).sited

/-- A marker that was kept of a method at the place of an event is of the line that is passed. -/
theorem line_eq_of_marked (h : cls.Made options filters scanned record laidOut meanings)
    {m : ScannedMethod} {methodSlots : MethodSlots} (hmem : (m, methodSlots) ∈ laidOut)
    (hmethod : m.index = e.method) {marker : Marker} (hmarker : marker ∈ m.scan.keptMarkers)
    (hindex : marker.index = e.index) {number : UInt32} (hdeed : e.deed = .passed number)
    (hmarked : (cls.pairing style laidOut slots).Marked e) : marker.line = number := by
  obtain ⟨s, hs, hcode⟩ := hmarked number hdeed
  obtain ⟨method, body, hfound, hbody, rfl⟩ := exists_of_sheets hs
  obtain ⟨method', hfound', hbody'⟩ := (h.methods.method _ hmem).method
  rw [show (m, methodSlots).1.index = e.method from hmethod, hfound, Option.some.injEq] at hfound'
  subst hfound'
  rw [hbody, Option.some.injEq] at hbody'
  have hcode' := (h.methods.method _ hmem).sited.marker (marker.index, marker.line)
    (List.mem_map.2 ⟨marker, (List.mem_filter.1 hmarker).1, rfl⟩)
  rw [body_sheetAt, hbody'] at hcode
  rw [hindex] at hcode'
  simpa using hcode'.symm.trans hcode

/-- An event that is counted in a slot is what the slot stands for. -/
theorem holds_of_slotOf? (h : cls.Made options filters scanned record laidOut meanings)
    {o : Occurrence} (hmeaning : meanings[slot]? = some o)
    (hmarked : (cls.pairing style laidOut slots).Marked e)
    (hslot : (cls.pairing style laidOut slots).slotOf? e = some slot) :
    o.holds scanned e = true := by
  obtain ⟨m, methodSlots, site, hmem, hmethod, hsite, hfound⟩ := (slotOf?_eq_some h.methods).1 hslot
  have hsound := (h.fits _ hmem).sound site slot hfound
  rw [hmeaning, Option.some.injEq] at hsound
  subst hsound
  by_cases hline : ∃ number, e.deed = .passed number
  · obtain ⟨number, hnumber⟩ := hline
    rw [hnumber, Plan.site?_passed] at hsite
    split at hsite
    · rename_i hany
      cases hsite
      obtain ⟨marker, hmarker, hat⟩ := List.any_eq_true.1 hany
      have hat : marker.index = e.index := of_decide_eq_true hat
      have hscanned : m ∈ scanned := h.listed ▸ List.mem_map_of_mem hmem
      simp only [ProbeSite.occurrence, Occurrence.holds, hnumber, Bool.and_eq_true,
        List.any_eq_true, decide_eq_true_eq, true_and]
      exact ⟨m, hscanned, hmethod, marker, hmarker, hat,
        h.line_eq_of_marked hmem hmethod hmarker hat hnumber hmarked⟩
    · cases hsite
  · have hoccurrence := Plan.occurrence_of_site? m.index hsite
      fun number hnumber => hline ⟨number, hnumber⟩
    show (site.occurrence m.index).holds scanned e = true
    rw [hoccurrence, Occurrence.holds, hmethod]
    exact decide_eq_true rfl

/-- An event that is what a slot stands for has a probe with this slot. -/
theorem slotOf?_of_holds (h : cls.Made options filters scanned record laidOut meanings)
    {o : Occurrence} (hmeaning : meanings[slot]? = some o) (hholds : o.holds scanned e = true) :
    (cls.pairing style laidOut slots).slotOf? e = some slot := by
  rw [slotOf?_eq_some h.methods]
  cases o with
  | passes number =>
      simp only [Occurrence.holds, Bool.and_eq_true, List.any_eq_true,
        decide_eq_true_eq] at hholds
      obtain ⟨hdeed, m, hm, hmethod, marker, hmarker, hat, hline⟩ := hholds
      rw [← h.listed] at hm
      obtain ⟨⟨m', methodSlots⟩, hmem, heq⟩ := List.mem_map.1 hm
      obtain rfl : m' = m := heq
      have hkept : Kept.line marker ∈ m'.scan.kept :=
        Scan.mem_kept.2 (.inl ⟨marker, hmarker, rfl⟩)
      obtain ⟨slot', hslot'⟩ := Option.isSome_iff_exists.1 ((h.fits _ hmem).line _ hkept)
      have hmeaning' := (h.fits _ hmem).sound _ _ hslot'
      simp only [Kept.number, hline] at hslot' hmeaning'
      obtain rfl := h.layout.slot_inj hmeaning hmeaning'
      refine ⟨m', methodSlots, .line number, hmem, hmethod, ?_, hslot'⟩
      rw [hdeed, Plan.site?_passed, if_pos]
      exact List.any_eq_true.2 ⟨marker, hmarker, decide_eq_true hat⟩
  | performs method index deed =>
      obtain rfl : e = ⟨method, index, deed⟩ := of_decide_eq_true hholds
      rcases h.layout.listed _ (List.mem_of_getElem? hmeaning) with ⟨_, heq, -⟩ | ⟨e, he, houtcome⟩
      · cases heq
      · obtain ⟨m, hm, he⟩ := List.mem_flatMap.1 he
        obtain ⟨kept, hkept, rfl⟩ := List.mem_map.1 he
        rw [← h.listed] at hm
        obtain ⟨⟨m', methodSlots⟩, hmem, heq⟩ := List.mem_map.1 hm
        obtain rfl : m' = m := heq
        obtain ⟨_, _, -, heq⟩ := Kept.eq_performs_of_mem houtcome
        obtain rfl : method = m'.index := (Occurrence.performs.inj heq).1
        obtain ⟨site, hsite, hoccurrence⟩ :=
          Plan.exists_site?_of_outcome (h.methods.method _ hmem).sited hkept houtcome
        obtain ⟨slot', hslot'⟩ := Option.isSome_iff_exists.1
          ((h.fits _ hmem).outcome kept hkept site (hoccurrence ▸ houtcome))
        have hmeaning' := (h.fits _ hmem).sound site slot' hslot'
        rw [hoccurrence] at hmeaning'
        obtain rfl := h.layout.slot_inj hmeaning hmeaning'
        exact ⟨m', methodSlots, site, hmem, rfl, hsite, hslot'⟩

/-- An event is counted in a slot if it is what the slot stands for. -/
theorem slotOf?_eq_some_iff (h : cls.Made options filters scanned record laidOut meanings)
    {o : Occurrence} (hmeaning : meanings[slot]? = some o)
    (hmarked : (cls.pairing style laidOut slots).Marked e) :
    (cls.pairing style laidOut slots).slotOf? e = some slot ↔ o.holds scanned e = true := by
  constructor
  · exact h.holds_of_slotOf? hmeaning hmarked
  · exact h.slotOf?_of_holds hmeaning

/-- What a slot stands for is what it was given for. -/
theorem meaning_of_standsFor (h : cls.Made options filters scanned record laidOut meanings)
    {o : Occurrence} (hs : record.StandsFor scanned slot o) : meanings[slot]? = some o := by
  cases hs with
  | line hline => exact h.layout.line _ _ hline
  | taken hline hjump hsite =>
      rw [← jumpsOn_entriesOf _ h.sited] at hsite
      exact (rel_of_forall₂ (h.layout.jumps _ _ hline) hjump hsite).1
  | notTaken hline hjump hsite =>
      rw [← jumpsOn_entriesOf _ h.sited] at hsite
      exact (rel_of_forall₂ (h.layout.jumps _ _ hline) hjump hsite).2
  | case hline hswitch hsite hslot =>
      rw [← switchesOn_entriesOf _ h.sited] at hsite
      exact (rel_of_forall₂ (h.layout.switches _ _ hline) hswitch hsite).case _ _ hslot
  | otherwise hline hswitch hsite hslot =>
      rw [← switchesOn_entriesOf _ h.sited] at hsite
      exact (rel_of_forall₂ (h.layout.switches _ _ hline) hswitch hsite).otherwise _ hslot

/-- Slots that stand for something are slots of the record. -/
theorem lt_of_standsFor (h : cls.Made options filters scanned record laidOut meanings)
    {o : Occurrence} (hs : record.StandsFor scanned slot o) : slot < record.slotCount := by
  rw [← h.layout.length]
  exact (List.getElem?_eq_some_iff.1 (h.meaning_of_standsFor hs)).1

/-- Every slot stands for something. -/
theorem exists_standsFor (h : cls.Made options filters scanned record laidOut meanings)
    (hslot : slot < record.slotCount) : ∃ o, record.StandsFor scanned slot o := by
  obtain ⟨o, hmeaning⟩ : ∃ o, meanings[slot]? = some o :=
    ⟨_, List.getElem?_eq_getElem (h.layout.length ▸ hslot)⟩
  refine ⟨o, ?_⟩
  rcases h.layout.listed o (List.mem_of_getElem? hmeaning) with ⟨number, rfl, hsome⟩ | ⟨e, he, hmem⟩
  · obtain ⟨line, hline⟩ := Option.isSome_iff_exists.1 hsome
    rw [h.layout.slot_inj hmeaning (h.layout.line number line hline)]
    exact .line hline
  · obtain ⟨line, hline⟩ := Option.isSome_iff_exists.1 (h.layout.known e he)
    obtain ⟨method, kept⟩ := e
    cases kept with
    | line marker => simp [Kept.outcomes] at hmem
    | jump site =>
        have hsite : (method, site) ∈ sitesOn Kept.jump? site.line (entriesOf scanned) :=
          mem_sitesOn he rfl
        obtain ⟨k, hk⟩ := List.getElem?_of_mem hsite
        obtain ⟨jump, hjump, hmeans⟩ := exists_of_forall₂ (h.layout.jumps _ _ hline) hk
        rw [jumpsOn_entriesOf _ h.sited] at hk
        simp only [Kept.outcomes, List.mem_cons, List.not_mem_nil, or_false] at hmem
        rcases hmem with rfl | rfl
        · rw [h.layout.slot_inj hmeaning hmeans.1]
          exact .taken hline hjump hk
        · rw [h.layout.slot_inj hmeaning hmeans.2]
          exact .notTaken hline hjump hk
    | switch site =>
        have hsite : (method, site) ∈ sitesOn Kept.switch? site.line (entriesOf scanned) :=
          mem_sitesOn he rfl
        obtain ⟨k, hk⟩ := List.getElem?_of_mem hsite
        obtain ⟨switch, hswitch, hmeans⟩ := exists_of_forall₂ (h.layout.switches _ _ hline) hk
        rw [switchesOn_entriesOf _ h.sited] at hk
        rcases List.mem_append.1 hmem with hmem | hmem
        · obtain ⟨pos, hpos, rfl⟩ := List.mem_map.1 hmem
          have hlt : pos < switch.keySlots.length := hmeans.length ▸ List.mem_range.1 hpos
          have hfound := List.getElem?_eq_getElem hlt
          rw [h.layout.slot_inj hmeaning (hmeans.case pos _ hfound)]
          exact .case hline hswitch hk hfound
        · cases hretracted : site.defaultRetracted with
          | true => simp [hretracted] at hmem
          | false =>
              simp only [hretracted, Bool.false_eq_true, if_false, List.mem_singleton] at hmem
              subst hmem
              have hdefault := hmeans.default
              rw [hretracted] at hdefault
              obtain ⟨found, hfound⟩ := Option.isSome_iff_exists.1 hdefault
              rw [h.layout.slot_inj hmeaning (hmeans.otherwise found hfound)]
              exact .otherwise hline hswitch hk hfound

/-- Events are counted in slots of the record. -/
theorem slotOf?_lt (h : cls.Made options filters scanned record laidOut meanings)
    (hslot : (cls.pairing style laidOut slots).slotOf? e = some slot) : slot < record.slotCount := by
  obtain ⟨m, methodSlots, site, hmem, -, -, hfound⟩ := (slotOf?_eq_some h.methods).1 hslot
  exact h.slot_lt hmem hfound

/-- What is counted at the place of a slot is what the slot stands for. -/
theorem countP_slotOf? (h : cls.Made options filters scanned record laidOut meanings)
    {o : Occurrence} (hs : record.StandsFor scanned slot o)
    (hnamed : slot < 0x7fffffff ∨ record.slotCount ≤ 0x80000000) {events : List Event}
    (hmarked : ∀ e ∈ events, (cls.pairing style laidOut slots).Marked e) :
    events.countP (fun e =>
        ((cls.pairing style laidOut slots).slotOf? e).map Probe.place = some slot) =
      events.countP (o.holds scanned) := by
  have hmeaning := h.meaning_of_standsFor hs
  have hlt := h.lt_of_standsFor hs
  refine List.countP_congr fun e he => ?_
  rw [← h.slotOf?_eq_some_iff hmeaning (hmarked e he), decide_eq_true_eq, Option.map_eq_some_iff]
  constructor
  · rintro ⟨slot', hslot', hplace⟩
    have hlt' := h.slotOf?_lt hslot'
    rw [Probe.place] at hplace
    rw [hslot', show slot' = slot by omega]
  · intro hslot'
    exact ⟨slot, hslot', by rw [Probe.place]; omega⟩

/-- Once zeros have been told of events, the counter of a slot tells how many of them the slot
stands for. -/
theorem counts_of_told (h : cls.Made options filters scanned record laidOut meanings)
    (hcls : cls.Admissible) {registry registry' : Registry} {events : List Event}
    (hunused : registry.Unused) (hslots : registry.slotCount? cls.name = some record.slotCount)
    (htally : registry'.tally cls.name =
      (cls.pairing (options.probeStyle cls) laidOut record.slotCount).noteAll
        (registry.tally cls.name) events)
    (hmarked : ∀ e ∈ events,
      (cls.pairing (options.probeStyle cls) laidOut record.slotCount).Marked e)
    {o : Occurrence} (hs : record.StandsFor scanned slot o)
    (hnamed : slot < 0x7fffffff ∨ record.slotCount ≤ 0x80000000)
    (hfew : events.countP (o.holds scanned) < 0x7fffffff) :
    (registry'.tally cls.name).counts[slot]?.map UInt32.toNat =
      some (options.hits.told (events.countP (o.holds scanned))) := by
  have hlt := h.lt_of_standsFor hs
  have hzero : (registry.tally cls.name).counts[slot]? = some 0 := by
    rw [hunused.tally hslots, List.getElem?_replicate, if_pos hlt]
  have hcounts := (h.good hcls).counts_noteAll (registry.tally cls.name) events slot
  rw [hzero, h.countP_slotOf? hs hnamed hmarked] at hcounts
  rw [htally]
  refine (congrArg (Option.map UInt32.toNat) hcounts).trans ?_
  exact congrArg some (Probe.toNat_bump_iterate options.hits hfew)

/-- Once events have been noted, the counter of a slot tells how many of them the slot stands
for. -/
theorem counts_of_noted (h : cls.Made options filters scanned record laidOut meanings)
    (hcls : cls.Admissible) {registry registry' : Registry} {events : List Event}
    (hunused : registry.Unused) (hslots : registry.slotCount? cls.name = some record.slotCount)
    (hnoted : (cls.pairing (options.probeStyle cls) laidOut record.slotCount).Noted registry events
      registry') {o : Occurrence} (hs : record.StandsFor scanned slot o)
    (hnamed : slot < 0x7fffffff ∨ record.slotCount ≤ 0x80000000)
    (hfew : events.countP Event.isDone < 0x7fffffff) :
    (registry'.tally cls.name).counts[slot]?.map UInt32.toNat =
      some (options.hits.told (events.countP (o.holds scanned))) := by
  have hle : events.countP (o.holds scanned) ≤ events.countP Event.isDone :=
    List.countP_mono_left fun _ _ => hs.isDone
  exact h.counts_of_told hcls hunused hslots hnoted.tally hnoted.marked hs hnamed
    (Nat.lt_of_le_of_lt hle hfew)

/-- There are as many counters as slots. -/
theorem length_counts_of_noted (h : cls.Made options filters scanned record laidOut meanings)
    (hcls : cls.Admissible) {registry registry' : Registry} {events : List Event}
    (hunused : registry.Unused) (hslots : registry.slotCount? cls.name = some record.slotCount)
    (hnoted : (cls.pairing (options.probeStyle cls) laidOut record.slotCount).Noted registry events
      registry') : (registry'.tally cls.name).counts.length = record.slotCount := by
  have htally : registry'.tally cls.name = _ := hnoted.tally
  have hzeros : (registry.tally cls.name).counts = List.replicate record.slotCount 0 := by
    rw [hunused.tally hslots]
  rw [htally, (h.good hcls).length_noteAll]
  exact (congrArg List.length hzeros).trans List.length_replicate

end Made

end ClassFile

/-! ## What the counters hold -/

/-- After any calls of methods of an admissible class that was instrumented in a new session,
every slot of its record stands for something, and its counter tells how often the class itself
does that on the same calls.  The class leaves room for the labels of windows (`Body.Roomy`), and
the slot is below `0x7fffffff` or the record has at most `0x80000000` slots: probes push slots as
integers, and with more slots the last ones would share a counter. -/
theorem Session.counters_of_probed {options : Options} {filters : List Filter}
    {cls cls' : ClassFile} {s' : Session} (hcls : cls.Admissible)
    (h : ({ options } : Session).instrument filters cls = (.probed cls', s'))
    (registry : Registry) (keeper keeper' : Nat) {calls : List Call}
    (hcalls : ∀ c ∈ calls, cls.Callable c)
    (hlimit : ∀ result ∈ ((Machine.start cls' s'.registry keeper').invokeAll calls).1,
      result ≠ .error .stepLimit) :
    ∃ scanned record hits,
      cls.scanAll options filters = .ok scanned ∧
      s'.record? cls.name = some record ∧
      ((Machine.start cls' s'.registry keeper').invokeAll calls).2.world.registry.counters?
        cls.name = some hits ∧
      hits.length = record.slotCount ∧
      (∀ slot < record.slotCount, ∃ o, record.StandsFor scanned slot o) ∧
      ∀ slot o, record.StandsFor scanned slot o →
        slot < 0x7fffffff ∨ record.slotCount ≤ 0x80000000 →
        hits[slot]?.map UInt32.toNat = some (options.hits.told
          (((Machine.start cls registry keeper).eventsOf calls).countP (o.holds scanned))) := by
  obtain ⟨scanned, record, laidOut, meanings, hmade, hlines, rfl, rfl⟩ := exists_of_probed h
  have hunused : (({ options } : Session).register record).registry.Unused := by
    rw [hmade.registry_register hlines]
    exact Registry.Unused.empty.declare cls.name record.slotCount
  have hslots : (({ options } : Session).register record).registry.slotCount? cls.name =
      some record.slotCount := by
    rw [hmade.registry_register hlines, Registry.slotCount?_declare, if_pos rfl]
  obtain ⟨-, hnoted⟩ :=
    hmade.invokeAll_start hcls registry keeper keeper' hunused.regular hslots hcalls hlimit
  have hfew : ((Machine.start cls registry keeper).eventsOf calls).countP Event.isDone <
      0x7fffffff :=
    Nat.lt_of_le_of_lt (Nat.le_of_add_right_le (countP_eventsOf_le _ calls))
      (show stepLimit < 0x7fffffff by decide)
  refine ⟨scanned, record, _, hmade.scan, ?_,
    Registry.counters?_eq_some ((hnoted.counted.slotCount? cls.name).trans hslots),
    hmade.length_counts_of_noted hcls hunused hslots hnoted,
    fun slot => hmade.exists_standsFor,
    fun slot o hs hnamed => hmade.counts_of_noted hcls hunused hslots hnoted hs hnamed hfew⟩
  rw [record?, register, hmade.name_record]
  exact SortedMap.get?_insert_self _ _ _

theorem Session.counters_of_probed_sign :
    ∃ scanned record,
      Sign.cls.scanAll {} [] = .ok scanned ∧
      (({ options := {} } : Session).register Sign.laid.1).record? "demo/Sign" = some record ∧
      (Sign.machine.invokeAll Sign.calls).2.world.registry.counters? "demo/Sign" =
        some [2, 1, 1] ∧
      ∀ slot o, record.StandsFor scanned slot o →
        ([2, 1, 1] : List UInt32)[slot]?.map UInt32.toNat = some
          (((Machine.start Sign.cls {} 0).eventsOf Sign.calls).countP (o.holds scanned)) := by
  obtain ⟨scanned, record, hits, hscan, hrecord, hhits, hlength, -, hexact⟩ :=
    counters_of_probed Sign.admissible Sign.instrument_cls {} 0 1 Sign.callable_calls
      Sign.limit_machine
  have hcounters : (Sign.machine.invokeAll Sign.calls).2.world.registry.counters? "demo/Sign" =
      some [2, 1, 1] := by
    with_unfolding_all rfl
  obtain rfl : hits = [2, 1, 1] := Option.some.inj (hhits.symm.trans hcounters)
  refine ⟨scanned, record, hscan, hrecord, hcounters, fun slot o hs => hexact slot o hs (.inr ?_)⟩
  rw [← hlength]
  decide

end BytecodeCoverage
