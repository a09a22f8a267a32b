import BytecodeCoverage.Proofs.Code.Defects
import BytecodeCoverage.Proofs.Probe.Assign
import BytecodeCoverage.Session.Instrument

/-!
# Scanned methods

The scanned methods are methods of the class, in order, with bodies that have no defect; what was
kept of them stands where it says.  So no branch is laid out twice, and what the slots of a class
stand for is settled when all its methods have been laid out.

**Main definitions.**
* `ScannedMethod.Of`: a scanned method of a class.
* `ScannedMethod.ScannedFrom`: the method that it comes from.
* `entriesOf`: the kept entries of all scanned methods.

**Results.**
* `ClassFile.of_scanAll`, `ClassFile.exists_of_mem_scanAll`: what is scanned.
* `ClassFile.layout_layOut`: what the slots of a class stand for.
-/

namespace BytecodeCoverage

/-- The branches that are kept stand at different positions. -/
theorem Scan.nodup_branches {scan : Scan} {code : List Instruction} {stop : Nat}
    (h : scan.outline.Sited code stop) : (scan.kept.filterMap Kept.branch?).Nodup := by
  have hperm := scan.perm_kept.filterMap Kept.branch?
  have hlist : (scan.keptMarkers.map Kept.line ++ scan.survivingJumps.map Kept.jump ++
      scan.survivingSwitches.map Kept.switch).filterMap Kept.branch? =
        scan.survivingJumps.map JumpSite.index ++ scan.survivingSwitches.map SwitchSite.index := by
    simp only [List.filterMap_append, List.filterMap_map, Function.comp_def, Kept.branch?]
    simp
  rw [hlist] at hperm
  refine hperm.nodup_iff.2 (List.nodup_append.2 ⟨?_, ?_, ?_⟩)
  · exact (h.jumpOrder.sublist (List.filter_sublist.map _)).imp Nat.ne_of_lt
  · have horder := h.switchOrder
    simp only [outline, List.map_map] at horder
    exact (horder.sublist (List.filter_sublist.map _)).imp Nat.ne_of_lt
  · rintro i hi _ hj rfl
    obtain ⟨jump, hjump, rfl⟩ := List.mem_map.1 hi
    obtain ⟨site, hsite, heq⟩ := List.mem_map.1 hj
    obtain ⟨-, op, target, hcode⟩ := h.jump _ (List.mem_map_of_mem (List.mem_filter.1 hjump).1)
    obtain ⟨-, insn, hinsn, hkeys⟩ :=
      h.switch (site.index, site.keys) (List.mem_map.2 ⟨site, (List.mem_filter.1 hsite).1, rfl⟩)
    rw [heq, hcode, Option.some.injEq] at hinsn
    subst hinsn
    cases hkeys

/-- A scanned method of a class. -/
structure ScannedMethod.Of (m : ScannedMethod) (methods : List Method) (place : Nat) : Prop where
  method : ∃ method, methods[place]? = some method ∧ method.body = some m.body
  sound : m.body.Sound
  sited : m.scan.outline.Sited m.body.code m.body.code.length

/-- A scanned method comes from a method of the class that is eligible, has code without defects
and keeps a line. -/
structure ScannedMethod.ScannedFrom (m : ScannedMethod) (cls : ClassFile) (options : Options)
    (filters : List Filter) (method : Method) : Prop where
  body : method.body = some m.body
  eligible : options.eligible method = true
  check : m.body.check = .ok ()
  scan : m.scan = options.scan filters ⟨cls, method⟩ m.body
  keeps : m.scan.isEmpty = false

namespace ClassFile

variable {cls : ClassFile} {options : Options} {filters : List Filter}

/-- Scanning goes on after a method, whether the method is passed over, keeps no line or keeps one. -/
theorem exists_of_scanFrom_cons {index : Nat} {method : Method} {rest : List Method}
    {scanned : List ScannedMethod}
    (h : cls.scanFrom options filters index (method :: rest) = .ok scanned) :
    ∃ others, cls.scanFrom options filters (index + 1) rest = .ok others ∧
      ((method.body.filter fun _ => options.eligible method) = none ∧ scanned = others ∨
        ∃ body, (method.body.filter fun _ => options.eligible method) = some body ∧
          body.check = .ok () ∧
          ((options.scan filters ⟨cls, method⟩ body).isEmpty = true ∧ scanned = others ∨
            (options.scan filters ⟨cls, method⟩ body).isEmpty = false ∧
              scanned = ⟨index, method.signature, body, options.scan filters ⟨cls, method⟩ body⟩ ::
                others)) := by
  rw [scanFrom] at h
  cases hbody : method.body.filter fun _ => options.eligible method with
  | none =>
      rw [hbody] at h
      exact ⟨scanned, h, .inl ⟨rfl, rfl⟩⟩
  | some body =>
      rw [hbody] at h
      cases hcheck : body.check with
      | error e => simp [hcheck, bind, Except.bind] at h
      | ok =>
          cases hothers : cls.scanFrom options filters (index + 1) rest with
          | error e => simp [hcheck, hothers, bind, Except.bind] at h
          | ok others =>
              refine ⟨others, rfl, .inr ⟨body, rfl, hcheck, ?_⟩⟩
              simp only [hcheck, hothers, bind, Except.bind] at h
              split at h <;> rename_i hempty <;> cases h
              · exact .inl ⟨hempty, rfl⟩
              · exact .inr ⟨Bool.not_eq_true _ ▸ hempty, rfl⟩

/-- The methods that are scanned, each once and in order. -/
theorem scannedFrom_scanFrom {index : Nat} {methods : List Method} {scanned : List ScannedMethod}
    (h : cls.scanFrom options filters index methods = .ok scanned) :
    (∀ m ∈ scanned, index ≤ m.index ∧ ∃ method, methods[m.index - index]? = some method ∧
        m.ScannedFrom cls options filters method) ∧
      (scanned.map ScannedMethod.index).Pairwise (· < ·) := by
  induction methods generalizing index scanned with
  | nil =>
      cases h
      simp
  | cons method rest ih =>
      obtain ⟨others, hothers, hcases⟩ := exists_of_scanFrom_cons h
      obtain ⟨hfrom, horder⟩ := ih hothers
      have hlater : ∀ m ∈ others, index ≤ m.index ∧ ∃ other,
          (method :: rest)[m.index - index]? = some other ∧
            m.ScannedFrom cls options filters other := by
        intro m hm
        obtain ⟨hle, other, hother, hscanned⟩ := hfrom m hm
        refine ⟨Nat.le_of_lt hle, other, ?_, hscanned⟩
        rw [show m.index - index = m.index - (index + 1) + 1 by omega]
        exact hother
      rcases hcases with ⟨-, rfl⟩ | ⟨body, hbody, hcheck, ⟨-, rfl⟩ | ⟨hkeeps, rfl⟩⟩
      · exact ⟨hlater, horder⟩
      · exact ⟨hlater, horder⟩
      · obtain ⟨hcode, heligible⟩ := Option.filter_eq_some_iff.1 hbody
        refine ⟨List.forall_mem_cons.2 ⟨⟨Nat.le_refl _, method, by simp, ?_⟩, hlater⟩,
          List.pairwise_cons.2 ⟨fun other hother => ?_, horder⟩⟩
        · exact ⟨hcode, heligible, hcheck, rfl, hkeeps⟩
        · obtain ⟨m, hm, rfl⟩ := List.mem_map.1 hother
          exact (hfrom m hm).1

variable {scanned : List ScannedMethod}

/-- What is scanned are methods of the class, each once. -/
theorem of_scanAll (h : cls.scanAll options filters = .ok scanned) :
    (∀ m ∈ scanned, m.Of cls.methods m.index) ∧
      (scanned.map ScannedMethod.index).Pairwise (· < ·) := by
  obtain ⟨hfrom, horder⟩ := scannedFrom_scanFrom h
  refine ⟨fun m hm => ?_, horder⟩
  obtain ⟨-, method, hmethod, hscanned⟩ := hfrom m hm
  exact ⟨⟨method, hmethod, hscanned.body⟩, Body.sound_of_check hscanned.check,
    hscanned.scan ▸ Scan.sited_ofMethod _ _ _ _⟩

/-- What is scanned was eligible and kept a line. -/
theorem exists_of_mem_scanAll (h : cls.scanAll options filters = .ok scanned) {m : ScannedMethod}
    (hm : m ∈ scanned) :
    ∃ method, cls.methods[m.index]? = some method ∧ options.eligible method = true ∧
      m.scan = options.scan filters ⟨cls, method⟩ m.body ∧ m.scan.isEmpty = false := by
  obtain ⟨-, method, hmethod, hscanned⟩ := (scannedFrom_scanFrom h).1 m hm
  exact ⟨method, hmethod, hscanned.eligible, hscanned.scan, hscanned.keeps⟩

end ClassFile

/-- The kept entries of scanned methods, with the places of the methods. -/
def entriesOf (scanned : List ScannedMethod) : List (Nat × Kept) :=
  scanned.flatMap fun m => m.scan.kept.map (Prod.mk m.index)

theorem branchesOf_append (a b : List (Nat × Kept)) :
    branchesOf (a ++ b) = branchesOf a ++ branchesOf b :=
  List.filterMap_append

theorem branchesOf_map (method : Nat) (kepts : List Kept) :
    branchesOf (kepts.map (Prod.mk method)) =
      (kepts.filterMap Kept.branch?).map (Prod.mk method) := by
  rw [branchesOf, List.filterMap_map, List.map_filterMap]
  rfl

/-- No branch of the scanned methods is met twice. -/
theorem nodup_branchesOf {scanned : List ScannedMethod}
    (hsited : ∀ m ∈ scanned, m.scan.outline.Sited m.body.code m.body.code.length)
    (horder : (scanned.map ScannedMethod.index).Pairwise (· < ·)) :
    (branchesOf (entriesOf scanned)).Nodup := by
  induction scanned with
  | nil => exact List.nodup_nil
  | cons m rest ih =>
      rw [List.map_cons, List.pairwise_cons] at horder
      rw [entriesOf, List.flatMap_cons, branchesOf_append, branchesOf_map]
      refine List.nodup_append.2 ⟨?_, ?_, ?_⟩
      · exact (Scan.nodup_branches (hsited m List.mem_cons_self)).map fun a b h => by simpa using h
      · exact ih (fun other hother => hsited other (List.mem_cons_of_mem _ hother)) horder.2
      · rintro branch hbranch _ hother rfl
        obtain ⟨i, -, rfl⟩ := List.mem_map.1 hbranch
        obtain ⟨e, he, hindex⟩ := List.mem_filterMap.1 hother
        obtain ⟨other, hother, he⟩ := List.mem_flatMap.1 he
        obtain ⟨kept, -, rfl⟩ := List.mem_map.1 he
        have hlt := horder.1 _ (List.mem_map_of_mem hother)
        obtain ⟨_, -, heq⟩ := Option.map_eq_some_iff.1 hindex
        exact Nat.ne_of_gt hlt (Prod.mk.inj heq).1

namespace ClassFile

/-- The scanned methods are laid out one after the other. -/
theorem layout_layOut (count : Bool) (scanned : List ScannedMethod) {record : ClassRecord}
    {entries : List (Nat × Kept)} {meanings : List Occurrence}
    (h : record.Layout entries meanings)
    (hnodup : (branchesOf (entries ++ entriesOf scanned)).Nodup) :
    ∃ more, (layOut count scanned record).1.Layout (entries ++ entriesOf scanned)
        (meanings ++ more) ∧
      ∀ e ∈ (layOut count scanned record).2,
        e.2.Fits e.1.index e.1.scan.kept (meanings ++ more) := by
  induction scanned generalizing record entries meanings with
  | nil =>
      refine ⟨[], ?_, by simp [layOut]⟩
      rw [entriesOf, List.flatMap_nil, List.append_nil, List.append_nil]
      exact h
  | cons m rest ih =>
      rw [entriesOf, List.flatMap_cons, ← List.append_assoc] at hnodup ⊢
      have hfirst : (branchesOf (entries ++ m.scan.kept.map (Prod.mk m.index))).Nodup := by
        rw [branchesOf_append] at hnodup
        exact (List.nodup_append.1 hnodup).1
      obtain ⟨more, hlayout, hfits⟩ := h.assign hfirst m.signature count
      obtain ⟨more', hlayout', hfits'⟩ := ih hlayout hnodup
      refine ⟨more ++ more', ?_, ?_⟩
      · rw [← List.append_assoc]
        exact hlayout'
      · intro e he
        rw [← List.append_assoc]
        rcases List.mem_cons.1 he with rfl | he
        · exact hfits.append more'
        · exact hfits' e he

/-- Each scanned method is laid out. -/
theorem map_fst_layOut (count : Bool) (scanned : List ScannedMethod) (record : ClassRecord) :
    (layOut count scanned record).2.map Prod.fst = scanned := by
  induction scanned generalizing record with
  | nil => rfl
  | cons m rest ih => simp [layOut, ih]

/-- Only lines and slots are added to the record. -/
theorem extends_layOut (count : Bool) (scanned : List ScannedMethod) (record : ClassRecord) :
    record.ExtendedBy (layOut count scanned record).1 := by
  induction scanned generalizing record with
  | nil => exact .refl record
  | cons m rest ih => exact (ClassRecord.extends_assign record m.signature m.scan count).trans (ih _)

/-- Nothing is laid out at first. -/
theorem layout_blankRecord (cls : ClassFile) : cls.blankRecord.Layout [] [] := by
  constructor <;> simp [blankRecord, ClassRecord.line?, SortedMap.get?, SortedMap.empty,
    SortedMap.findEntry]

end ClassFile

end BytecodeCoverage
