import BytecodeCoverage.Proofs.Probe.Placed

/-!
# Splitting branches can be undone

Take the probes out of split code, then the fresh labels, then the jumps that lead around windows.
Let every branch lead again where the windows at its target stand.  What is left is the code.

Split code without its probes is woven code in which no probe has a slot, so each instruction of
the code has its main position there.  A jump around windows looks like any other; where the kept
instructions are, the code must say.

**Main definitions.**
* `SplitBody.bare`: split code without its probes.
* `Body.home`: the label of the code that the windows at a label stand before.
* `Body.Erases`: how split code is erased to a body.

**Results.**
* `Weave.home_window`: the home of a window is its destination.
* `Weave.count_outcomes`: how often branches lead to a fresh label.
* `Body.erases_split`: split code is erased to the code.
-/

namespace BytecodeCoverage

/-! ## Erasing -/

/-- The instruction of an element. -/
def Item.insn? : Item → Option Instruction
  | .insn content => some content
  | .probe _ => none

/-- Split code without its probes. -/
def SplitBody.bare (split : SplitBody) : Body :=
  .ofParts (split.items.filterMap Item.insn?) split.tryRanges split.maxStack split.maxLocals

/-- The instruction with other targets. -/
def Instruction.retarget (f : Label → Label) : Instruction → Instruction
  | .jump op target => .jump op (f target)
  | .tableSwitch low high otherwise targets =>
      .tableSwitch low high (f otherwise) (targets.map f)
  | .lookupSwitch otherwise keys targets => .lookupSwitch (f otherwise) keys (targets.map f)
  | insn => insn

namespace Body

variable (body : Body)

/-- The first label below the watermark that is placed where a label is placed, or behind it. -/
def home (watermark : Nat) (label : Label) : Label :=
  ((body.position? label).bind fun pos =>
    (placedIn (body.code.drop pos)).find? fun placed => placed.id < watermark).getD label

/-- The position lies inside a protected range. -/
def Protects (range : TryRange) (pos : Nat) : Prop :=
  ∃ start stop, body.position? range.start = some start ∧ body.position? range.stop = some stop ∧
    start ≤ pos ∧ pos < stop

/-- A label from the watermark on is placed at the position. -/
def FreshAt (watermark pos : Nat) : Prop :=
  ∃ label, watermark ≤ label.id ∧ body.code[pos]? = some (.label label)

/-- At the position stands a jump to the label of the code that the windows right behind it stand
before. -/
def DetourAt (watermark pos : Nat) : Prop :=
  ∃ label destination, watermark ≤ label.id ∧ destination.id < watermark ∧
    body.home watermark label = destination ∧
    body.code[pos]? = some (.jump .goto destination) ∧
    body.code[pos + 1]? = some (.label label)

/-- The positions of split code that are kept when it is erased to a body. -/
structure Erases (body split : Body) (kept : List Nat) : Prop where
  ordered : kept.Pairwise (· < ·)
  /-- The kept instructions are those of the body, once their targets are led home. -/
  code : kept.map (fun pos => split.code[pos]?.map
    (Instruction.retarget (split.home body.watermark))) = body.code.map some
  /-- Nothing else is erased than fresh labels and jumps around windows. -/
  added : ∀ pos < split.code.length, pos ∉ kept →
    split.FreshAt body.watermark pos ∨ split.DetourAt body.watermark pos
  /-- A fresh label is placed once, and one outcome leads to it. -/
  fresh : ∀ label, body.watermark ≤ label.id → label ∈ split.placed ∨ label ∈ split.outcomes →
    split.placed.count label = 1 ∧ split.outcomes.count label = 1
  ranges : split.tryRanges = body.tryRanges
  protects : ∀ range ∈ body.tryRanges, ∀ i pos, kept[i]? = some pos →
    (split.Protects range pos ↔ body.Protects range i)

theorem home_of_old {watermark : Nat} {label : Label} (h : label.id < watermark) :
    body.home watermark label = label := by
  rw [home]
  cases hpos : body.position? label with
  | none => rfl
  | some pos =>
      obtain ⟨hlt, hget⟩ := List.getElem?_eq_some_iff.1 (getElem?_position hpos)
      rw [Option.bind_some, List.drop_eq_getElem_cons hlt, hget, placedIn, List.find?_cons_of_pos]
      · rfl
      · exact decide_eq_true h

end Body

/-! ## Targets led home -/

namespace Instruction

theorem retarget_eq_self {f : Label → Label} {insn : Instruction}
    (h : ∀ label ∈ insn.targets, f label = label) : insn.retarget f = insn := by
  cases insn with
  | jump op target => rw [retarget, h target List.mem_cons_self]
  | tableSwitch low high otherwise targets | lookupSwitch otherwise keys targets =>
      have htargets : targets.map f = targets :=
        (List.map_congr_left fun label hlabel => h label (List.mem_cons_of_mem _ hlabel)).trans
          (List.map_id' targets)
      rw [retarget, htargets, h otherwise List.mem_cons_self]
  | _ => rfl

theorem count_targets_eq_zero {label : Label} {code : List Instruction}
    (h : ∀ insn ∈ code, label ∉ insn.targets) : (code.flatMap targets).count label = 0 := by
  refine List.count_eq_zero.2 fun hmem => ?_
  obtain ⟨insn, hinsn, hlabel⟩ := List.mem_flatMap.1 hmem
  exact h insn hinsn hlabel

end Instruction

theorem Unlabelled.count_targets {code : List Instruction} (h : Unlabelled code) (label : Label) :
    (code.flatMap Instruction.targets).count label = 0 :=
  Instruction.count_targets_eq_zero fun insn hinsn => by
    rw [Instruction.targets_of_labels_nil (h insn hinsn)]
    exact List.not_mem_nil

namespace Window

theorem destinations_ofTargets (index pos : Nat) (fresh : UInt32) (targets : List Label) :
    (ofTargets index pos fresh targets).map destination = targets := by
  induction targets generalizing pos fresh with
  | nil => rfl
  | cons target rest ih => exact congrArg (target :: ·) (ih (pos + 1) (fresh + 1))

variable {site : SwitchSite} {index : Nat} {fresh : UInt32} {otherwise : Label}
  {targets : List Label}

variable {f : Label → Label}
  (h : ∀ w ∈ ofSwitch site index fresh otherwise targets, f w.label = w.destination)

include h

theorem map_divertedTargets : (divertedTargets fresh targets).map f = targets := by
  have hlabels := labels_ofTargets index 0 fresh targets
  have hwindows : ∀ w ∈ ofTargets index 0 fresh targets, f w.label = w.destination :=
    fun w hw => h w (List.mem_append_left _ hw)
  calc (divertedTargets fresh targets).map f
      = ((ofTargets index 0 fresh targets).map label).map f := by rw [hlabels, divertedTargets]
    _ = (ofTargets index 0 fresh targets).map destination := by
        rw [List.map_map]
        exact List.map_congr_left hwindows
    _ = targets := destinations_ofTargets index 0 fresh targets

theorem apply_divertedDefault (hold : f otherwise = otherwise) :
    f (divertedDefault site fresh otherwise targets) = otherwise := by
  rw [divertedDefault]
  rw [ofSwitch] at h
  cases hretracted : site.defaultRetracted with
  | true => exact hold
  | false =>
      rw [hretracted] at h
      exact h _ (List.mem_append_right _ List.mem_cons_self)

end Window

namespace Plan

variable (plan : Plan) {index : Nat} {fresh : UInt32} {insn : Instruction}

/-- A diverted instruction led home is the instruction. -/
theorem retarget_divert {f : Label → Label}
    (hwindows : ∀ w ∈ (plan.divert index fresh insn).2, f w.label = w.destination)
    (hold : ∀ label ∈ insn.targets, f label = label) :
    (plan.divert index fresh insn).1.insn.retarget f = insn := by
  cases insn with
  | jump op target =>
      unfold divert at hwindows ⊢
      by_cases hkept : plan.jumps.contains index = true
      · simp only [hkept, if_true] at hwindows ⊢
        exact congrArg (Instruction.jump op) (hwindows _ List.mem_cons_self)
      · simp only [hkept, Bool.false_eq_true, if_false]
        exact Instruction.retarget_eq_self hold
  | tableSwitch low high otherwise targets | lookupSwitch otherwise keys targets =>
      unfold divert at hwindows ⊢
      cases hsite : plan.switches.get? index with
      | none => exact Instruction.retarget_eq_self hold
      | some site =>
          simp only [hsite] at hwindows ⊢
          rw [Instruction.retarget, Window.map_divertedTargets hwindows,
            Window.apply_divertedDefault hwindows (hold otherwise List.mem_cons_self)]
  | _ => rfl

/-- An outcome leads to a label that the instruction did not target for each window of that
label. -/
theorem count_targets_divert {label : Label} (h : label ∉ insn.targets) :
    (plan.divert index fresh insn).1.insn.targets.count label =
      ((plan.divert index fresh insn).2.map Window.label).count label := by
  cases insn with
  | jump op target =>
      unfold divert
      by_cases hkept : plan.jumps.contains index = true
      · simp only [hkept, if_true]
        rfl
      · simp only [hkept, Bool.false_eq_true, if_false]
        exact List.count_eq_zero.2 h
  | tableSwitch low high otherwise targets | lookupSwitch otherwise keys targets =>
      unfold divert
      cases plan.switches.get? index with
      | none => exact List.count_eq_zero.2 h
      | some site =>
          have hother : otherwise ≠ label := fun heq => h (heq ▸ List.mem_cons_self)
          simp only [Instruction.targets, Window.labels_ofSwitch_eq, List.count_cons,
            List.count_append]
          cases hretracted : site.defaultRetracted with
          | true => simp [Window.divertedDefault, hretracted, hother]
          | false => simp [List.count_cons]
  | _ => rfl

theorem count_targets_divertAll {label : Label} {code : List Instruction}
    (h : ∀ insn ∈ code, label ∉ insn.targets) :
    ((plan.divertAll index fresh code).1.flatMap fun d => d.insn.targets).count label =
      ((plan.divertAll index fresh code).2.map Window.label).count label := by
  induction code generalizing index fresh with
  | nil => rfl
  | cons insn rest ih =>
      rw [List.forall_mem_cons] at h
      rw [divertAll, List.flatMap_cons, List.count_append, List.map_append, List.count_append,
        plan.count_targets_divert h.1, ih h.2]

end Plan

/-! ## Windows and their labels -/

namespace Weave

variable {v : Weave} {body' : Body}

/-- The home of a window is its destination. -/
theorem home_window (hv : v.Valid) (hcode : body'.code = v.code) {w : Window}
    (hw : w ∈ v.windows) : body'.home v.body.watermark w.label = w.destination := by
  obtain ⟨j, c, pre, post, hj, hc, hplaced, hbefore, -, hlabel, hdrop⟩ :=
    exists_place hv hcode hw
  have hwindows : ∀ label ∈ Body.placedIn (v.emit c.before), ¬label.id < v.body.watermark := by
    intro label hmem
    obtain ⟨other, hother, rfl⟩ := List.mem_map.1
      (v.style.mem_placedIn_before _ _ (List.mem_of_getElem? hc) hmem)
    exact Nat.not_lt.2 (watermark_le hv hother)
  have hemit : Body.placedIn (v.emit c.before) = Body.placedIn (v.emit pre) ++
      w.label :: (Body.placedIn (v.emit [.probe w.site]) ++ Body.placedIn (v.emit post)) := by
    rw [hbefore, emit, ProbeStyle.emit_append, ProbeStyle.emit_insn, ProbeStyle.emit_probe,
      Body.placedIn_append, Body.placedIn, Body.placedIn_append]
    rfl
  have hskip : (w.label :: (Body.placedIn (v.emit [.probe w.site]) ++
      Body.placedIn (v.emit post))).find? (fun placed => placed.id < v.body.watermark) = none := by
    refine List.find?_eq_none.2 fun label hmem => ?_
    rw [decide_eq_true_eq]
    exact hwindows label (hemit ▸ List.mem_append_right _ hmem)
  have hplacedIn : Body.placedIn (v.code.drop (v.start j + (v.emit pre).length)) =
      (w.label :: (Body.placedIn (v.emit [.probe w.site]) ++ Body.placedIn (v.emit post))) ++
        Body.placedIn (v.code.drop (v.main j)) := by
    rw [hdrop, Body.placedIn, Body.placedIn_append, Body.placedIn_append, List.cons_append,
      List.append_assoc]
  have hold : w.destination.id < v.body.watermark :=
    hv.drawn.below _ (List.mem_of_getElem? (Body.getElem?_position hj)) _ List.mem_cons_self
  rw [Body.home, hlabel, Option.bind_some, hcode, hplacedIn, List.find?_append, hskip,
    Option.none_or, drop_main hc, hplaced, Body.placedIn, List.find?_cons_of_pos]
  · rfl
  · exact decide_eq_true hold

theorem not_mem_of_fresh (hv : v.Valid) {label : Label} (hfresh : v.body.watermark ≤ label.id)
    {insn : Instruction} (hinsn : insn ∈ v.body.code) : label ∉ insn.labels :=
  fun hmem => Nat.not_lt.2 hfresh (hv.drawn.below insn hinsn label hmem)

/-- Nothing that stands before an instruction targets a fresh label. -/
theorem not_mem_targets_before (hv : v.Valid) {label : Label}
    (hfresh : v.body.watermark ≤ label.id) {c : Chunk} (hc : c ∈ v.chunks) {insn : Instruction}
    (hinsn : insn ∈ v.emit c.before) : label ∉ insn.targets := by
  rcases mem_emit_before hc hinsn with ⟨site, hprobe⟩ | ⟨other, rfl⟩ | ⟨placed, hplaced, rfl⟩
  · rw [Instruction.targets_of_labels_nil (Unlabelled.item _ _ _ site insn hprobe)]
    exact List.not_mem_nil
  · exact List.not_mem_nil
  · intro hmem
    obtain rfl := List.mem_singleton.1 hmem
    have hdiverted : Instruction.label label ∈
        (v.plan.divertAll 0 v.body.nextLabel v.body.code).1.map Diverted.insn := by
      rw [← insns_chunks, List.map_map, ← hplaced]
      exact List.mem_map_of_mem hc
    rw [← Body.mem_placedIn, Plan.placedIn_divertAll, Body.mem_placedIn] at hdiverted
    exact not_mem_of_fresh hv hfresh hdiverted List.mem_cons_self

/-- In a chunk only the instruction itself leads to fresh labels. -/
theorem count_targets_chunk (hv : v.Valid) {label : Label} (hfresh : v.body.watermark ≤ label.id)
    {c : Chunk} (hc : c ∈ v.chunks) :
    ((v.emit c.items).flatMap Instruction.targets).count label =
      c.diverted.insn.targets.count label := by
  have hbefore : ((v.emit c.before).flatMap Instruction.targets).count label = 0 :=
    Instruction.count_targets_eq_zero fun insn => not_mem_targets_before hv hfresh hc
  have hprobe : Unlabelled (v.emit (c.diverted.probe.map Item.probe).toList) := by
    cases c.diverted.probe with
    | none => exact .nil
    | some site => exact Unlabelled.append (Unlabelled.item _ _ _ site) .nil
  rw [emit_items, List.flatMap_append, List.flatMap_cons, List.count_append, List.count_append,
    hbefore, hprobe.count_targets, Nat.zero_add, Nat.add_zero]

/-- Branches lead to a fresh label for each window of that label. -/
theorem count_outcomes (hv : v.Valid) (hlead : Unlabelled v.lead) {label : Label}
    (hfresh : v.body.watermark ≤ label.id) :
    (v.code.flatMap Instruction.targets).count label =
      (v.windows.map Window.label).count label := by
  have hchunks : ∀ cs : List Chunk, (∀ c ∈ cs, c ∈ v.chunks) →
      ((cs.flatMap fun c => v.emit c.items).flatMap Instruction.targets).count label =
        ((cs.map Chunk.diverted).flatMap fun d => d.insn.targets).count label := by
    intro cs hcs
    induction cs with
    | nil => rfl
    | cons c rest ih =>
        rw [List.forall_mem_cons] at hcs
        rw [List.flatMap_cons, List.flatMap_append, List.count_append,
          count_targets_chunk hv hfresh hcs.1, ih hcs.2, List.map_cons, List.flatMap_cons,
          List.count_append]
  rw [code, List.flatMap_append, List.count_append, hlead.count_targets, Nat.zero_add,
    hchunks _ fun _ h => h, insns_chunks]
  exact v.plan.count_targets_divertAll fun insn hinsn hmem =>
    not_mem_of_fresh hv hfresh hinsn (insn.targets_subset_labels hmem)

/-- A fresh label is placed once, and one outcome leads to it. -/
theorem count_fresh (hv : v.Valid) (hlead : Unlabelled v.lead) (hcode : body'.code = v.code)
    {label : Label} (hfresh : v.body.watermark ≤ label.id)
    (h : label ∈ body'.placed ∨ label ∈ body'.outcomes) :
    body'.placed.count label = 1 ∧ body'.outcomes.count label = 1 := by
  have houtcomes : body'.outcomes.count label = (v.windows.map Window.label).count label := by
    rw [Body.outcomes, hcode]
    exact count_outcomes hv hlead hfresh
  have hplaced : body'.placed.count label ≤ (v.windows.map Window.label).count label := by
    have hchunks := v.style.count_placedIn_chunks_le v.body.maxLocals v.slots v.windows true
      (v.plan.divertAll 0 v.body.nextLabel v.body.code).1 label
    have hold : (Body.placedIn v.body.code).count label = 0 :=
      List.count_eq_zero.2 fun hmem =>
        not_mem_of_fresh hv hfresh (Body.mem_placedIn.1 hmem) List.mem_cons_self
    rw [Plan.placedIn_divertAll, hold] at hchunks
    rw [Body.placed, hcode, code, Body.placedIn_append, hv.lead, List.nil_append]
    exact hchunks
  have hwindow : label ∈ v.windows.map Window.label := by
    rw [← List.count_pos_iff]
    rcases h with h | h
    · exact Nat.lt_of_lt_of_le (List.count_pos_iff.2 h) hplaced
    · exact houtcomes ▸ List.count_pos_iff.2 h
  have hone := List.count_eq_one_of_mem (nodup_windows hv) hwindow
  obtain ⟨w, hw, rfl⟩ := List.mem_map.1 hwindow
  refine ⟨Nat.le_antisymm (hone ▸ hplaced) ?_, houtcomes.trans hone⟩
  exact List.count_pos_iff.2 (placed_of_window hv hcode hw)

/-- An instruction lies inside a protected range in woven code if it does so in the code. -/
theorem protects_main_iff (hv : v.Valid) (hcode : body'.code = v.code) {range : TryRange}
    (hrange : ∀ label ∈ range.labels, label.id < v.body.watermark) {i : Nat}
    (hi : i < v.body.code.length) : body'.Protects range (v.main i) ↔ v.body.Protects range i := by
  have hstart := position?_of_old hv hcode (hrange range.start List.mem_cons_self)
  have hstop := position?_of_old hv hcode
    (hrange range.stop (List.mem_cons_of_mem _ List.mem_cons_self))
  have hlt {label : Label} {pos : Nat} (h : v.body.position? label = some pos) :
      pos < v.body.code.length :=
    (List.getElem?_eq_some_iff.1 (Body.getElem?_position h)).1
  rw [Body.Protects, Body.Protects, hstart, hstop]
  constructor
  · rintro ⟨_, _, hfirst', hlast', hle, hbelow⟩
    obtain ⟨first, hfirst, rfl⟩ := Option.map_eq_some_iff.1 hfirst'
    obtain ⟨last, hlast, rfl⟩ := Option.map_eq_some_iff.1 hlast'
    refine ⟨first, last, hfirst, hlast, (main_le_main_iff (hlt hfirst) hi).1 hle, ?_⟩
    exact Nat.lt_of_not_le fun h => Nat.not_le.2 hbelow ((main_le_main_iff (hlt hlast) hi).2 h)
  · rintro ⟨first, last, hfirst, hlast, hle, hbelow⟩
    rw [hfirst, hlast]
    exact ⟨_, _, rfl, rfl, (main_le_main_iff (hlt hfirst) hi).2 hle,
      main_lt_main hbelow (hlt hlast)⟩

/-- An instruction led home from where it stands in woven code. -/
theorem retarget_main (hv : v.Valid) (hcode : body'.code = v.code)
    (htargets : ∀ insn ∈ v.body.code, ∀ label ∈ insn.targets, label.id < v.body.watermark)
    {i : Nat} {insn : Instruction} (h : v.body.code[i]? = some insn) :
    v.code[v.main i]?.map (Instruction.retarget (body'.home v.body.watermark)) = some insn := by
  obtain ⟨c, drawn, hc, hdiverted, hwindows⟩ := exists_chunk h
  have hmain : v.code[v.main i]? = some c.diverted.insn := by
    rw [← List.head?_drop, drop_main hc]
    rfl
  rw [hmain, Option.map_some, hdiverted, Plan.retarget_divert]
  · exact fun w hw => home_window hv hcode (hwindows w hw)
  · exact fun label hlabel =>
      body'.home_of_old (htargets insn (List.mem_of_getElem? h) label hlabel)

end Weave

/-! ## What is added -/

namespace Window

theorem exists_chain_cons (destination : Label) (w : Window) (rest : List Window) :
    ∃ more, chain destination (w :: rest) = .insn (.label w.label) :: more := by
  cases rest <;> exact ⟨_, rfl⟩

/-- Without probes a group consists of the labels of windows and jumps right before them. -/
theorem getElem?_chain {destination : Label} {windows : List Window} {q : Nat}
    {insn : Instruction}
    (h : ((chain destination windows).filterMap Item.insn?)[q]? = some insn) :
    (∃ w ∈ windows, insn = .label w.label) ∨
      insn = .jump .goto destination ∧
        ∃ w ∈ windows, ((chain destination windows).filterMap Item.insn?)[q + 1]? =
          some (.label w.label) := by
  induction windows generalizing q with
  | nil => cases h
  | cons w rest ih =>
      cases rest with
      | nil =>
          cases q with
          | zero => exact .inl ⟨w, List.mem_cons_self, (Option.some.inj h).symm⟩
          | succ q => cases h
      | cons next rest =>
          obtain ⟨more, hmore⟩ := exists_chain_cons destination next rest
          match q with
          | 0 => exact .inl ⟨w, List.mem_cons_self, (Option.some.inj h).symm⟩
          | 1 =>
              refine .inr ⟨(Option.some.inj h).symm, next,
                List.mem_cons_of_mem _ List.mem_cons_self, ?_⟩
              change ((chain destination (next :: rest)).filterMap Item.insn?)[0]? = _
              rw [hmore]
              rfl
          | q + 2 =>
              rcases ih h with ⟨other, hother, rfl⟩ | ⟨rfl, other, hother, hget⟩
              · exact .inl ⟨other, List.mem_cons_of_mem _ hother, rfl⟩
              · exact .inr ⟨rfl, other, List.mem_cons_of_mem _ hother, hget⟩

theorem getElem?_before {destination : Label} {reachable : Bool} {windows : List Window} {q : Nat}
    {insn : Instruction}
    (h : ((before destination reachable windows).filterMap Item.insn?)[q]? = some insn) :
    (∃ w ∈ windows, insn = .label w.label) ∨
      insn = .jump .goto destination ∧
        ∃ w ∈ windows, ((before destination reachable windows).filterMap Item.insn?)[q + 1]? =
          some (.label w.label) := by
  cases windows with
  | nil => cases h
  | cons w rest =>
      cases reachable with
      | false => exact getElem?_chain h
      | true =>
          cases q with
          | zero =>
              refine .inr ⟨(Option.some.inj h).symm, w, List.mem_cons_self, ?_⟩
              obtain ⟨more, hmore⟩ := exists_chain_cons destination w rest
              change ((chain destination (w :: rest)).filterMap Item.insn?)[0]? = _
              rw [hmore]
              rfl
          | succ q => exact getElem?_chain (q := q) h

end Window

namespace Weave

variable {v : Weave} {body' : Body}

theorem emit_of_no_slots (h : ∀ site, v.slots.slot? site = none) (items : List Item) :
    v.emit items = items.filterMap Item.insn? := by
  induction items with
  | nil => rfl
  | cons item rest ih =>
      cases item with
      | insn insn => exact congrArg (insn :: ·) ih
      | probe site =>
          rw [List.filterMap_cons_none rfl, ← ih]
          simp [emit, ProbeStyle.emit, ProbeStyle.item, h]

/-- What stands before an instruction is where the instruction starts. -/
theorem getElem?_start_add (hcode : body'.code = v.code) {i q : Nat} {c : Chunk}
    {insn : Instruction} (hc : v.chunks[i]? = some c) (h : (v.emit c.before)[q]? = some insn) :
    body'.code[v.start i + q]? = some insn := by
  obtain ⟨hlt, -⟩ := List.getElem?_eq_some_iff.1 h
  rw [hcode, ← List.getElem?_drop, drop_start_eq_main hc, List.getElem?_append_left hlt, h]

variable (hv : v.Valid) (hsound : v.body.Sound) (hcode : body'.code = v.code)
  (hslots : ∀ site, v.slots.slot? site = none)

include hv hsound hcode hslots

/-- Without probes only fresh labels and jumps around windows stand before an instruction. -/
theorem added_of_before {i q : Nat} {c : Chunk} {insn : Instruction} (hc : v.chunks[i]? = some c)
    (h : (v.emit c.before)[q]? = some insn) :
    body'.FreshAt v.body.watermark (v.start i + q) ∨
      body'.DetourAt v.body.watermark (v.start i + q) := by
  have hinsn := getElem?_start_add hcode hc h
  by_cases hlabel : ∃ placed, c.diverted.insn = .label placed
  · obtain ⟨placed, hplaced⟩ := hlabel
    have hbefore := before_of_placed hsound hc hplaced
    rw [emit_of_no_slots hslots, hbefore] at h
    rcases Window.getElem?_before h with ⟨w, hw, rfl⟩ | ⟨rfl, w, hw, hnext⟩
    · exact .inl ⟨w.label, watermark_le hv (List.mem_filter.1 hw).1, hinsn⟩
    · obtain ⟨hwindow, hdestination⟩ := List.mem_filter.1 hw
      obtain rfl := of_decide_eq_true hdestination
      rw [← hbefore, ← emit_of_no_slots hslots] at hnext
      obtain ⟨j, -, -, hj, -⟩ := exists_window hv hcode hwindow
      have hold := hv.drawn.below _ (List.mem_of_getElem? (Body.getElem?_position hj)) _
        List.mem_cons_self
      exact .inr ⟨w.label, w.destination, watermark_le hv hwindow, hold,
        home_window hv hcode hwindow, hinsn, getElem?_start_add hcode hc hnext⟩
  · have hbefore := Diverted.before_of_other hc fun placed hp => hlabel ⟨placed, hp⟩
    rw [hbefore] at h
    cases h

/-- Without probes each position holds an instruction of the code, a fresh label, or a jump around
windows. -/
theorem main_or_added {p : Nat} (hlead : v.lead.length ≤ p) (hp : p < v.code.length) :
    (∃ i < v.body.code.length, v.main i = p) ∨ body'.FreshAt v.body.watermark p ∨
      body'.DetourAt v.body.watermark p := by
  obtain ⟨i, hi, hle, hlt⟩ := exists_start_le hlead hp
  have hc := List.getElem?_eq_getElem hi
  have hprobe : (v.emit (v.chunks[i].diverted.probe.map Item.probe).toList).length = 0 := by
    rw [emit_of_no_slots hslots]
    cases v.chunks[i].diverted.probe <;> rfl
  rw [start_succ_eq_main hc, hprobe] at hlt
  by_cases hat : p = v.main i
  · exact .inl ⟨i, length_chunks v ▸ hi, hat.symm⟩
  · rw [main_eq hc] at hlt hat
    obtain ⟨q, rfl⟩ := Nat.exists_eq_add_of_le hle
    have hq : q < (v.emit v.chunks[i].before).length := by omega
    exact .inr (added_of_before hv hsound hcode hslots hc (List.getElem?_eq_getElem hq))

end Weave

/-! ## Split code -/

namespace Body

variable {body : Body}

/-- Split code without its probes, as woven code.  None of its probes has a slot, so neither the
style nor the kind of the counters matters. -/
def bareWeave (body : Body) (scan : Scan) : Weave where
  body
  plan := .ofScan scan
  slots := {}
  style := { counters := { strategy := .constant, className := "", mode := .flag }, traced := none }
  lead := []

theorem slot?_bareWeave (scan : Scan) (site : ProbeSite) :
    (body.bareWeave scan).slots.slot? site = none := by
  cases site <;> rfl

theorem valid_bareWeave (hdrawn : body.Drawn) (hsound : body.Sound) (scan : Scan) :
    (body.bareWeave scan).Valid :=
  ⟨hdrawn, rfl, fun _ => hsound⟩

theorem code_bare_split (body : Body) (scan : Scan) :
    (body.split scan).bare.code = (body.bareWeave scan).code := by
  have hitems : (body.split scan).items =
      (body.bareWeave scan).chunks.flatMap Chunk.items :=
    Diverted.writeOut_eq_chunks _ _ _
  rw [SplitBody.bare, ofParts, hitems, List.filterMap_flatMap, Weave.code]
  exact List.flatMap_congr fun c _ =>
    (Weave.emit_of_no_slots (slot?_bareWeave scan) c.items).symm

/-- Splitting the branches of a body without defects can be undone if there is room for the fresh
labels. -/
theorem erases_split {code : List Instruction} {tryRanges : List TryRange}
    {maxStack maxLocals : UInt16}
    (hparts : ofParts code tryRanges maxStack maxLocals = body) (hroom : body.Roomy)
    (h : body.check = .ok ()) (scan : Scan) : ∃ kept, body.Erases (body.split scan).bare kept := by
  have hbody := check_eq_ok.1 h
  have hdrawn : body.Drawn := drawn_ofParts hparts hroom
  have hvalid := valid_bareWeave hdrawn hbody.toSound scan
  have hcode := code_bare_split body scan
  have hold : ∀ label ∈ body.placed, label.id < body.watermark := fun label hlabel =>
    hdrawn.below _ (mem_placedIn.1 hlabel) label List.mem_cons_self
  refine ⟨(List.range body.code.length).map (body.bareWeave scan).main, ?_, ?_, ?_, ?_, rfl, ?_⟩
  · rw [List.pairwise_map]
    exact List.pairwise_lt_range.imp_of_mem fun _ hj hlt =>
      Weave.main_lt_main hlt (List.mem_range.1 hj)
  · rw [List.map_map]
    refine List.ext_getElem? fun i => ?_
    rw [List.getElem?_map, List.getElem?_map]
    cases hi : body.code[i]? with
    | none => simp [List.getElem?_eq_none_iff.1 hi]
    | some insn =>
        have hlt := (List.getElem?_eq_some_iff.1 hi).1
        rw [List.getElem?_range hlt]
        refine congrArg some ?_
        rw [Function.comp_apply, hcode]
        exact Weave.retarget_main hvalid hcode (fun insn hinsn label hlabel =>
          hold label (hbody.targets insn hinsn label hlabel)) hi
  · intro pos hpos hnot
    rw [hcode] at hpos
    rcases Weave.main_or_added hvalid hbody.toSound hcode (slot?_bareWeave scan) (Nat.zero_le _)
      hpos with ⟨i, hi, rfl⟩ | hadded
    · exact absurd (List.mem_map_of_mem (List.mem_range.2 hi)) hnot
    · exact hadded
  · exact fun label hfresh huse => Weave.count_fresh hvalid .nil hcode hfresh huse
  · intro range hrange i pos hpos
    rw [List.getElem?_map] at hpos
    obtain ⟨j, hj, rfl⟩ := Option.map_eq_some_iff.1 hpos
    obtain ⟨hlt, rfl⟩ := List.getElem?_eq_some_iff.1 hj
    rw [List.getElem_range]
    rw [List.length_range] at hlt
    exact Weave.protects_main_iff hvalid hcode
      (fun label hlabel => hold label (hbody.bounds range hrange label hlabel)) hlt

end Body

/-! ## A method whose branches meet -/

namespace Junction

/-- The jump and the default of the switch lead to the `return`, which is also reached by falling
through. -/
def body : Body :=
  .ofParts [.line 1, .label ⟨0⟩, .localVar .iload 0, .jump .ifeq ⟨1⟩, .localVar .iload 0,
    .lookupSwitch ⟨1⟩ [7] [⟨2⟩], .label ⟨2⟩, .simple .nop, .label ⟨1⟩, .simple .returnVoid]
    [⟨⟨0⟩, ⟨1⟩, ⟨1⟩, none⟩] 1 1

/-- All its outcomes survive. -/
def scan : Scan where
  markers := [⟨0, 1, false⟩]
  jumps := [{ index := 3, line := 1 }]
  switches := [{ index := 5, line := 1, keys := [7] }]

end Junction

theorem Body.erases_split_junction :
    (Junction.body.split Junction.scan).bare.code =
      [.line 1, .label ⟨0⟩, .localVar .iload 0, .jump .ifeq ⟨3⟩, .localVar .iload 0,
        .lookupSwitch ⟨5⟩ [7] [⟨4⟩], .label ⟨4⟩, .label ⟨2⟩, .simple .nop, .jump .goto ⟨1⟩,
        .label ⟨3⟩, .jump .goto ⟨1⟩, .label ⟨5⟩, .label ⟨1⟩, .simple .returnVoid] ∧
    Junction.body.Roomy ∧ Junction.body.check = .ok () ∧
    ∃ kept, Junction.body.Erases (Junction.body.split Junction.scan).bare kept :=
  have hroom : Junction.body.Roomy := by unfold Body.Roomy; decide
  have hcheck : Junction.body.check = .ok () := by with_unfolding_all rfl
  ⟨by with_unfolding_all rfl, hroom, hcheck, erases_split rfl hroom hcheck Junction.scan⟩

end BytecodeCoverage
