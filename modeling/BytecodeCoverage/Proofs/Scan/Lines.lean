import BytecodeCoverage.Proofs.Scan.Track

/-!
# Lines that survive

What the machine of the markers makes of a code is told from the code after each marker.  A marker
is retracted when it covers only labels and `nop`.  The last one is also retracted when it covers
only the implicit `return` and a marker of another line is left.

**Main definitions.**
* `Body.coveredAt`, `Body.HollowAt`, `Body.ClosesAt`: what a marker covers.
* `Track.markersFrom`, `Track.left`: the markers of a code, and what a scan makes of them.

**Results.**
* `Track.retractOpen_run`, `Track.closing_run`: the state of the machine after a code.
* `Options.markers_scan`: the markers of a scan.
* `Options.lines_survive`: which lines survive.
-/

namespace BytecodeCoverage

open Noise

/-! ## What a marker covers -/

namespace Body

/-- What the marker at a position covers: the instructions up to the next marker or the end. -/
def coveredAt (body : Body) (index : Nat) : List Instruction :=
  (body.code.drop (index + 1)).takeWhile fun insn => !insn.isLine

/-- The marker at the position covers only labels and `nop`. -/
def HollowAt (body : Body) (index : Nat) : Prop :=
  ∀ insn ∈ body.coveredAt index, insn.isFiller = true

/-- The marker at the position is the last one, and covers only labels and one `return`. -/
def ClosesAt (body : Body) (index : Nat) : Prop :=
  ∃ before after : List Label, body.code.drop (index + 1) =
    before.map .label ++ .simple .returnVoid :: after.map .label

end Body

namespace Track

/-- Only labels and `nop` come before the next marker or the end. -/
def hollow (code : List Instruction) : Bool :=
  (code.takeWhile fun insn => !insn.isLine).all Instruction.isFiller

/-- Labels and one `return`, and nothing else. -/
def closes : List Instruction → Bool
  | .label _ :: rest => closes rest
  | .simple .returnVoid :: rest => rest.all Instruction.isLabel
  | _ => false

/-- The markers in the code, the first instruction being at `index`, each with the code after
it. -/
def markersFrom (index : Nat) : List Instruction → List (Marker × List Instruction)
  | [] => []
  | .line number :: rest => ({ index, line := number }, rest) :: markersFrom (index + 1) rest
  | _ :: rest => markersFrom (index + 1) rest

end Track

/-! ## What the machine makes of a code -/

namespace Track

theorem hollow_other {insn : Instruction} {rest : List Instruction} (hline : insn.isLine = false)
    (hfiller : insn.isFiller = false) : hollow (insn :: rest) = false := by
  simp [hollow, hline, hfiller]

theorem closes_other {insn : Instruction} {rest : List Instruction}
    (hlabel : insn.isLabel = false) (hleave : insn ≠ .simple .returnVoid) :
    closes (insn :: rest) = false := by
  unfold closes
  split
  · cases ‹insn :: rest = _›
    cases hlabel
  · cases ‹insn :: rest = _›
    exact absurd rfl hleave
  · rfl

theorem markersFrom_other {insn : Instruction} (h : insn.isLine = false) (index : Nat)
    (rest : List Instruction) :
    markersFrom index (insn :: rest) = markersFrom (index + 1) rest := by
  cases insn with
  | line number => cases h
  | _ => rfl

/-- The marker, retracted if it covers no code. -/
def settled (site : Marker × List Instruction) : Marker :=
  { site.1 with retracted := hollow site.2 }

/-- The marker that has covered no code so far is among the registered ones. -/
def Bounded (t : Track) : Prop :=
  ∀ id, t.opening = .opened id → id.pos < t.markers.length

theorem length_retractOpen (opening : TryFinally.State) (markers : List Marker) :
    (retractOpen opening markers).length = markers.length := by
  cases opening with
  | idle => rfl
  | opened id => exact List.length_modify _ _ _

theorem modify_append_of_lt {α : Type} (f : α → α) {as : List α} (bs : List α) {n : Nat}
    (h : n < as.length) : (as ++ bs).modify n f = as.modify n f ++ bs := by
  induction as generalizing n with
  | nil => cases h
  | cons a as ih =>
      cases n with
      | zero => rfl
      | succ n => exact congrArg (a :: ·) (ih (Nat.lt_of_succ_lt_succ h))

/-- The next marker settles the one that is open. -/
theorem Bounded.markers_step_line {t : Track} (h : t.Bounded) (index : Nat) (number : UInt32) :
    (t.step index (.line number)).markers =
      retractOpen t.opening t.markers ++ [{ index, line := number }] := by
  change retractOpen t.opening _ = _
  cases hopening : t.opening with
  | idle => rfl
  | opened id => exact modify_append_of_lt _ _ (h id hopening)

theorem Bounded.length_step_line {t : Track} (h : t.Bounded) (index : Nat) (number : UInt32) :
    (t.step index (.line number)).markers.length = t.markers.length + 1 := by
  rw [h.markers_step_line, List.length_append, length_retractOpen, List.length_singleton]

theorem Bounded.step {t : Track} (h : t.Bounded) (index : Nat) (insn : Instruction) :
    (t.step index insn).Bounded := by
  cases kind insn with
  | line number =>
      rintro _ ⟨⟩
      exact (h.length_step_line index number).symm ▸ Nat.lt_succ_self _
  | label placed | nop => exact h
  | leave => exact nofun
  | other hline hfiller hlabel hleave =>
      rw [step_other hline hfiller hleave]
      exact nofun

/-- Whether the last marker is retracted depends on what follows it. -/
theorem settle_last (markers : List Marker) (index : Nat) (number : UInt32)
    (rest : List Instruction) :
    (if hollow rest then
        retractOpen (.opened ⟨markers.length⟩) (markers ++ [{ index, line := number }])
      else markers ++ [{ index, line := number }]) =
      markers ++ [settled ({ index, line := number }, rest)] := by
  rw [settled]
  cases hollow rest with
  | true => exact List.modifyTailIdx_add _ 0 markers _
  | false => rfl

/-- Once the marker that is open at the end has been retracted, those are retracted that cover no
code. -/
theorem retractOpen_run (index : Nat) (code : List Instruction) {t : Track} (h : t.Bounded) :
    retractOpen (t.run index code).opening (t.run index code).markers =
      (if hollow code then retractOpen t.opening t.markers else t.markers) ++
        (markersFrom index code).map settled := by
  induction code generalizing index t with
  | nil => exact (List.append_nil _).symm
  | cons insn rest ih =>
      refine (ih (index + 1) (h.step index insn)).trans ?_
      cases kind insn with
      | line number =>
          have hlast := settle_last (retractOpen t.opening t.markers) index number rest
          rw [length_retractOpen] at hlast
          rw [h.markers_step_line]
          exact (congrArg (· ++ (markersFrom (index + 1) rest).map settled) hlast).trans
            (List.append_assoc _ _ _)
      | label placed | nop => rfl
      | leave => exact congrArg (· ++ _) (ite_self _)
      | other hline hfiller hlabel hleave =>
          rw [step_other hline hfiller hleave, hollow_other hline hfiller,
            markersFrom_other hline]
          exact congrArg (· ++ _) (ite_self _)

/-- At the end, a marker stands for the closing brace if only the `return` comes after it. -/
theorem closing_run (index : Nat) (code : List Instruction) {t : Track} (h : t.Bounded)
    (id : MarkerId) :
    (t.run index code).closing = .returned id ↔
      (t.closing = .marked id ∧ closes code = true) ∨
      (t.closing = .returned id ∧ code.all Instruction.isLabel = true) ∨
      ∃ k site, (markersFrom index code)[k]? = some site ∧ closes site.2 = true ∧
        id.pos = t.markers.length + k := by
  induction code generalizing index t with
  | nil => simp [run, closes, markersFrom]
  | cons insn rest ih =>
      refine (ih (index + 1) (h.step index insn)).trans ?_
      cases kind insn with
      | line number =>
          have hlength := h.length_step_line index number
          constructor
          · rintro (⟨hmarked, hcloses⟩ | ⟨hreturned, -⟩ | ⟨k, site, hsite, hcloses, hpos⟩)
            · cases hmarked
              exact .inr (.inr ⟨0, _, rfl, hcloses, rfl⟩)
            · cases hreturned
            · exact .inr (.inr ⟨k + 1, site, hsite, hcloses, by omega⟩)
          · rintro (⟨-, hcloses⟩ | ⟨-, hall⟩ | ⟨k, site, hsite, hcloses, hpos⟩)
            · cases hcloses
            · cases hall
            · cases k with
              | zero =>
                  cases hsite
                  refine .inl ⟨?_, hcloses⟩
                  obtain ⟨pos⟩ := id
                  exact congrArg (fun pos => ClosingLine.State.marked ⟨pos⟩) hpos.symm
              | succ k => exact .inr (.inr ⟨k, site, hsite, hcloses, by omega⟩)
      | label placed => rfl
      | nop => simp [step, closes, Instruction.isLabel, markersFrom]
      | leave =>
          cases hclosing : t.closing <;>
            simp [step, hclosing, closes, Instruction.isLabel, markersFrom]
      | other hline hfiller hlabel hleave =>
          simp [step_other hline hfiller hleave, closes_other hlabel hleave, hlabel,
            markersFrom_other hline]

/-! ## The markers of a scan -/

theorem mem_markersFrom {index : Nat} {code : List Instruction}
    {site : Marker × List Instruction} :
    site ∈ markersFrom index code ↔ ∃ i number, code[i]? = some (.line number) ∧
      site = (⟨index + i, number, false⟩, code.drop (i + 1)) := by
  induction code generalizing index with
  | nil => simp [markersFrom]
  | cons insn rest ih =>
      have hlater : site ∈ markersFrom (index + 1) rest ↔
          ∃ i number, (insn :: rest)[i + 1]? = some (.line number) ∧
            site = (⟨index + (i + 1), number, false⟩, (insn :: rest).drop (i + 1 + 1)) := by
        rw [ih]
        simp only [List.getElem?_cons_succ, List.drop_succ_cons, Nat.add_assoc, Nat.add_comm 1]
      rw [← Nat.or_exists_add_one, ← hlater]
      cases insn with
      | line number => simp [markersFrom]
      | _ => simp [markersFrom]

theorem pairwise_markersFrom (index : Nat) (code : List Instruction) :
    (markersFrom index code).Pairwise fun site site' => site.1.index < site'.1.index := by
  induction code generalizing index with
  | nil => exact .nil
  | cons insn rest ih =>
      cases insn with
      | line number =>
          refine List.pairwise_cons.2 ⟨fun site hsite => ?_, ih (index + 1)⟩
          obtain ⟨i, _, -, rfl⟩ := mem_markersFrom.1 hsite
          exact Nat.lt_add_right i (Nat.lt_succ_self index)
      | _ => exact ih (index + 1)

theorem all_isLabel_map (labels : List Label) :
    (labels.map Instruction.label).all Instruction.isLabel = true := by
  simp [Instruction.isLabel]

theorem exists_of_all_isLabel {code : List Instruction}
    (h : code.all Instruction.isLabel = true) :
    ∃ labels : List Label, code = labels.map .label := by
  induction code with
  | nil => exact ⟨[], rfl⟩
  | cons insn rest ih =>
      rw [List.all_cons, Bool.and_eq_true] at h
      obtain ⟨labels, rfl⟩ := ih h.2
      cases insn with
      | label placed => exact ⟨placed :: labels, rfl⟩
      | _ => cases h.1

theorem closes_iff {code : List Instruction} : closes code = true ↔
    ∃ before after : List Label,
      code = before.map .label ++ .simple .returnVoid :: after.map .label := by
  constructor
  · intro h
    induction code with
    | nil => cases h
    | cons insn rest ih =>
        cases kind insn with
        | label placed =>
            obtain ⟨before, after, rfl⟩ := ih h
            exact ⟨placed :: before, after, rfl⟩
        | leave =>
            obtain ⟨after, rfl⟩ := exists_of_all_isLabel h
            exact ⟨[], after, rfl⟩
        | line | nop => cases h
        | other _ _ hlabel hleave => cases (closes_other hlabel hleave).symm.trans h
  · rintro ⟨before, after, rfl⟩
    induction before with
    | nil => exact all_isLabel_map after
    | cons placed rest ih => exact ih

/-- Some marker of another line covers code. -/
def otherCovers (sites : List (Marker × List Instruction)) (line : UInt32) : Bool :=
  sites.any fun site => site.1.line != line && !hollow site.2

/-- The marker as a scan leaves it. -/
def left (sites : List (Marker × List Instruction)) (site : Marker × List Instruction) : Marker :=
  { site.1 with retracted := hollow site.2 || (closes site.2 && otherCovers sites site.1.line) }

theorem left_of_not_closes {sites : List (Marker × List Instruction)}
    {site : Marker × List Instruction}
    (h : closes site.2 = true → otherCovers sites site.1.line = false) :
    left sites site = settled site := by
  rw [left, settled]
  cases hcloses : closes site.2 with
  | false => rw [Bool.false_and, Bool.or_false]
  | true => rw [h hcloses, Bool.and_false, Bool.or_false]

theorem any_keptLines_settled (sites : List (Marker × List Instruction)) (line : UInt32) :
    (({ markers := sites.map settled } : Scan).keptLines.any fun other => other != line) =
      otherCovers sites line := by
  simp only [Scan.keptLines, otherCovers, List.any_map, List.any_filter, Function.comp_def, settled,
    Bool.and_comm]

/-- Only one marker can stand for the closing brace. -/
theorem retractClosing_settled {sites : List (Marker × List Instruction)}
    {closing : ClosingLine.State}
    (h : ∀ id, closing = .returned id ↔
      ∃ site, sites[id.pos]? = some site ∧ closes site.2 = true) :
    retractClosing closing (sites.map settled) = sites.map (left sites) := by
  have hreturned : ∀ i site, sites[i]? = some site → closes site.2 = true →
      closing = .returned ⟨i⟩ := fun i site hsite hcloses => (h ⟨i⟩).2 ⟨site, hsite, hcloses⟩
  cases closing with
  | idle | marked =>
      refine List.map_congr_left fun site hsite => (left_of_not_closes fun hcloses => ?_).symm
      obtain ⟨i, hi⟩ := List.mem_iff_getElem?.1 hsite
      cases hreturned i site hi hcloses
  | returned id =>
      obtain ⟨site, hsite, hcloses⟩ := (h id).1 rfl
      simp only [retractClosing, List.getElem?_map, hsite, Option.map_some, any_keptLines_settled]
      split
      · rename_i hother
        refine List.ext_getElem? fun i => ?_
        rw [List.getElem?_modify, List.getElem?_map, List.getElem?_map]
        by_cases hi : id.pos = i
        · subst hi
          have hother : otherCovers sites site.1.line = true := hother
          simp [hsite, settled, Marker.retract, left, hcloses, hother]
        · cases hsite' : sites[i]? with
          | none => rfl
          | some site' =>
              have hleft : left sites site' = settled site' := left_of_not_closes fun hcloses' => by
                cases hreturned i site' hsite' hcloses'
                exact absurd rfl hi
              simp [hi, hleft]
      · rename_i hother
        refine List.map_congr_left fun site' hsite' => (left_of_not_closes fun hcloses' => ?_).symm
        obtain ⟨i, hi⟩ := List.mem_iff_getElem?.1 hsite'
        obtain ⟨⟩ := hreturned i site' hi hcloses'
        obtain rfl := Option.some.inj (hsite.symm.trans hi)
        exact (Bool.not_eq_true _).mp hother

/-- The machine before the first instruction. -/
def start : Track where
  markers := []
  opening := .idle
  closing := .idle

/-- The machine over a whole code, with what is retracted at the end. -/
theorem retract_run (code : List Instruction) :
    retractClosing (start.run 0 code).closing
        (retractOpen (start.run 0 code).opening (start.run 0 code).markers) =
      (markersFrom 0 code).map (left (markersFrom 0 code)) := by
  have hbounded : start.Bounded := nofun
  have hopened := retractOpen_run 0 code hbounded
  rw [show retractOpen start.opening start.markers = start.markers from rfl, ite_self] at hopened
  rw [hopened]
  refine retractClosing_settled fun id => (closing_run 0 code hbounded id).trans ?_
  simp [start]

end Track

/-- The markers of a scan with all filters. -/
theorem Options.markers_scan {options : Options} (h : options.filters = true) (scope : Scope)
    (body : Body) :
    (options.scan Filter.standard scope body).markers =
      (Track.markersFrom 0 body.code).map (Track.left (Track.markersFrom 0 body.code)) := by
  obtain ⟨last, ledger, hlast, hpass, hrun⟩ := Track.run_passFrom scope
    (.forMethod options.branches scope) body.code 0 Filter.States.settled_idle {}
  have hretract := Track.retract_run body.code
  rw [show Track.start.run 0 body.code = Track.of last ledger from hrun.symm] at hretract
  rw [Options.scan, if_pos h]
  change (Scan.pass _ _ (List.map Filter.States.idle.matcher _)).markers = _
  rw [Scan.pass, hpass]
  exact (Track.markers_finishAll scope hlast ledger).trans hretract

/-! ## The lines that survive -/

namespace Track

variable {body : Body} {site : Marker × List Instruction}

theorem snd_of_mem (h : site ∈ markersFrom 0 body.code) :
    site.2 = body.code.drop (site.1.index + 1) := by
  obtain ⟨i, number, -, rfl⟩ := mem_markersFrom.1 h
  rw [Nat.zero_add]

theorem hollow_iff (h : site ∈ markersFrom 0 body.code) :
    hollow site.2 = true ↔ body.HollowAt site.1.index := by
  rw [snd_of_mem h]
  exact List.all_eq_true

theorem closes_iff_closesAt (h : site ∈ markersFrom 0 body.code) :
    closes site.2 = true ↔ body.ClosesAt site.1.index := by
  rw [snd_of_mem h]
  exact closes_iff

theorem otherCovers_iff {line : UInt32} :
    otherCovers (markersFrom 0 body.code) line = true ↔
      ∃ site ∈ markersFrom 0 body.code, site.1.line ≠ line ∧ ¬body.HollowAt site.1.index := by
  rw [otherCovers, List.any_eq_true]
  refine exists_congr fun site => and_congr_right fun hsite => ?_
  rw [Bool.and_eq_true, bne_iff_ne, ← hollow_iff hsite, Bool.not_eq_true, Bool.not_eq_true']

/-- No marker comes after one that stands for the closing brace. -/
theorem eq_of_closes {site' : Marker × List Instruction} (h : site ∈ markersFrom 0 body.code)
    (h' : site' ∈ markersFrom 0 body.code) (hcloses : body.ClosesAt site.1.index)
    (hcloses' : body.ClosesAt site'.1.index) : site = site' := by
  have hlast {i j : Nat} {number : UInt32} (hi : body.ClosesAt i)
      (hj : body.code[j]? = some (.line number)) : j ≤ i := by
    obtain ⟨before, after, hdrop⟩ := hi
    refine Nat.le_of_not_lt fun hlt => ?_
    have hmem : Instruction.line number ∈ body.code.drop (i + 1) := by
      rw [List.mem_iff_getElem?]
      exact ⟨j - (i + 1), by rw [List.getElem?_drop, Nat.add_sub_cancel' hlt, hj]⟩
    simp [hdrop] at hmem
  obtain ⟨i, number, hi, rfl⟩ := mem_markersFrom.1 h
  obtain ⟨j, number', hj, rfl⟩ := mem_markersFrom.1 h'
  simp only [Nat.zero_add] at hcloses hcloses'
  obtain rfl := Nat.le_antisymm (hlast hcloses' hi) (hlast hcloses hj)
  cases hi.symm.trans hj
  rfl

/-- If some marker covers code, one survives. -/
theorem exists_left (h : site ∈ markersFrom 0 body.code) (hcovers : ¬body.HollowAt site.1.index) :
    ∃ other ∈ markersFrom 0 body.code,
      (left (markersFrom 0 body.code) other).retracted = false := by
  by_cases hcloses : body.ClosesAt site.1.index
  · by_cases hother : otherCovers (markersFrom 0 body.code) site.1.line = true
    · obtain ⟨other, hmem, hline, hcovers'⟩ := otherCovers_iff.1 hother
      refine ⟨other, hmem, Bool.or_eq_false_iff.2 ⟨?_, ?_⟩⟩
      · exact Bool.eq_false_iff.2 (mt (hollow_iff hmem).1 hcovers')
      · refine Bool.and_eq_false_imp.2 fun hcloses' => absurd ?_ hline
        rw [eq_of_closes hmem h ((closes_iff_closesAt hmem).1 hcloses') hcloses]
    · refine ⟨site, h, Bool.or_eq_false_iff.2 ⟨?_, ?_⟩⟩
      · exact Bool.eq_false_iff.2 (mt (hollow_iff h).1 hcovers)
      · exact Bool.and_eq_false_imp.2 fun _ => Bool.eq_false_iff.2 hother
  · refine ⟨site, h, Bool.or_eq_false_iff.2 ⟨?_, ?_⟩⟩
    · exact Bool.eq_false_iff.2 (mt (hollow_iff h).1 hcovers)
    · exact Bool.and_eq_false_imp.2 fun hcloses' =>
        absurd ((closes_iff_closesAt h).1 hcloses') hcloses

theorem left_retracted_iff (h : site ∈ markersFrom 0 body.code) :
    (left (markersFrom 0 body.code) site).retracted = true ↔
      body.HollowAt site.1.index ∨ body.ClosesAt site.1.index ∧
        ∃ other ∈ markersFrom 0 body.code,
          other.1.line ≠ site.1.line ∧ ¬body.HollowAt other.1.index := by
  rw [left, Bool.or_eq_true, Bool.and_eq_true, hollow_iff h, closes_iff_closesAt h,
    otherCovers_iff]

end Track

/-- A scan with all filters has the markers of the code.  One is retracted if it covers only labels
and `nop`, or if it is the last one, covers only labels and one `return`, and some marker of another
line is not retracted for the first reason.  So a method keeps a line if some marker covers anything
else than `nop` that executes. -/
theorem Options.lines_survive {options : Options} (h : options.filters = true) (scope : Scope)
    (body : Body) {scan : Scan} (hscan : options.scan Filter.standard scope body = scan) :
    (scan.markers.Pairwise fun marker marker' => marker.index < marker'.index) ∧
      (∀ index line, (∃ marker ∈ scan.markers, marker.index = index ∧ marker.line = line) ↔
        body.code[index]? = some (.line line)) ∧
      (∀ marker ∈ scan.markers, marker.retracted = true ↔
        body.HollowAt marker.index ∨
          body.ClosesAt marker.index ∧ ∃ other ∈ scan.markers,
            other.line ≠ marker.line ∧ ¬body.HollowAt other.index) ∧
      ((∃ marker ∈ scan.markers, ∃ insn ∈ body.coveredAt marker.index,
          insn.isExecutable = true ∧ insn ≠ .simple .nop) →
        scan.keptLines ≠ []) := by
  subst hscan
  rw [Scan.keptLines, markers_scan h]
  refine ⟨?_, fun index line => ⟨?_, fun hline => ?_⟩, ?_, ?_⟩
  · rw [List.pairwise_map]
    exact Track.pairwise_markersFrom 0 body.code
  · rintro ⟨_, hmarker, rfl, rfl⟩
    obtain ⟨site, hsite, rfl⟩ := List.mem_map.1 hmarker
    obtain ⟨i, number, hi, rfl⟩ := Track.mem_markersFrom.1 hsite
    exact (congrArg (body.code[·]?) (Nat.zero_add i)).trans hi
  · refine ⟨_, List.mem_map_of_mem (Track.mem_markersFrom.2 ⟨index, line, hline, rfl⟩), ?_, rfl⟩
    exact Nat.zero_add index
  · rw [List.forall_mem_map]
    intro site hsite
    simp only [List.mem_map, exists_exists_and_eq_and]
    exact Track.left_retracted_iff hsite
  · rintro ⟨_, hmarker, insn, hinsn, hexecutable, hnop⟩
    obtain ⟨site, hsite, rfl⟩ := List.mem_map.1 hmarker
    have hcovers : ¬body.HollowAt site.1.index := fun hhollow => by
      have hfiller := hhollow insn hinsn
      unfold Instruction.isFiller at hfiller
      split at hfiller
      · cases hexecutable
      · exact hnop rfl
      · cases hfiller
    obtain ⟨other, hother, hkept⟩ := Track.exists_left hsite hcovers
    refine List.ne_nil_of_mem (a := other.1.line) (List.mem_map.2 ⟨_, List.mem_filter.2
      ⟨List.mem_map_of_mem hother, ?_⟩, rfl⟩)
    rw [hkept]
    rfl

theorem Options.lines_survive_braces :
    ({} : Options).filters = true ∧
    (({} : Options).scan Filter.standard ⟨Braces.cls, Braces.method⟩ Braces.body).markers =
      [⟨0, 1, false⟩, ⟨3, 2, true⟩, ⟨5, 3, true⟩] ∧
    (({} : Options).scan Filter.standard ⟨Braces.cls, Braces.method⟩ Braces.body).keptLines ≠ [] :=
  have hmarkers :
      (({} : Options).scan Filter.standard ⟨Braces.cls, Braces.method⟩ Braces.body).markers =
        [⟨0, 1, false⟩, ⟨3, 2, true⟩, ⟨5, 3, true⟩] := by
    with_unfolding_all rfl
  ⟨rfl, hmarkers, (lines_survive rfl _ _ rfl).2.2.2
    ⟨⟨0, 1, false⟩, hmarkers ▸ List.mem_cons_self, .simple .iconst0, List.mem_cons_self, rfl,
      nofun⟩⟩

end BytecodeCoverage
