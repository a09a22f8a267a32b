import BytecodeCoverage.Proofs.Coverage.Merging
import Mathlib.Data.List.Forall2
import Mathlib.Data.String.Basic

/-!
# Order and grouping of merges

Reports of several runs are merged two at a time, in whatever order they come in.  Where records
of a class overlap they must have one layout: a merge keeps the slots of its first side, and it
drops the counters of keys that only its second side has.  Everything else may differ, and then
neither the order of the sides nor the grouping of merges is seen in the result.

Commutativity needs the two sides to be compatible.  For the grouping it is enough that the two
later sides are.

**Main definitions.**
* `SwitchRecord.Agrees`, `LineRecord.Agrees`, `ClassRecord.Agrees`: records with one layout.
* `Snapshot.Compatible`: snapshots whose records have one layout wherever they overlap.

**Results.**
* `ClassRecord.merge_comm`, `ClassRecord.merge_assoc`: the laws for records of one class.
* `Snapshot.merge_comm_assoc`: the laws for snapshots.
-/

namespace BytecodeCoverage

/-! ## Joining place by place -/

section Joining

variable {α : Type} {f : α → α → α}

theorem joinOption_comm {x y : Option α} (h : ∀ a ∈ x, ∀ b ∈ y, f a b = f b a) :
    joinOption f x y = joinOption f y x := by
  cases x with
  | none => cases y <;> rfl
  | some a =>
      cases y with
      | none => rfl
      | some b => exact congrArg some (h a rfl b rfl)

theorem joinOption_assoc {x y z : Option α}
    (h : ∀ a ∈ x, ∀ b ∈ y, ∀ c ∈ z, f (f a b) c = f a (f b c)) :
    joinOption f (joinOption f x y) z = joinOption f x (joinOption f y z) := by
  cases x with
  | none => cases y <;> cases z <;> rfl
  | some a =>
      cases y with
      | none => cases z <;> rfl
      | some b =>
          cases z with
          | none => rfl
          | some c => exact congrArg some (h a rfl b rfl c rfl)

theorem zipLongest_comm {as bs : List α}
    (h : ∀ i : Nat, ∀ a ∈ as[i]?, ∀ b ∈ bs[i]?, f a b = f b a) :
    zipLongest f as bs = zipLongest f bs as := by
  refine List.ext_getElem? fun i => ?_
  rw [getElem?_zipLongest, getElem?_zipLongest]
  exact joinOption_comm (h i)

theorem zipLongest_assoc {as bs cs : List α}
    (h : ∀ i : Nat, ∀ a ∈ as[i]?, ∀ b ∈ bs[i]?, ∀ c ∈ cs[i]?, f (f a b) c = f a (f b c)) :
    zipLongest f (zipLongest f as bs) cs = zipLongest f as (zipLongest f bs cs) := by
  refine List.ext_getElem? fun i => ?_
  simp only [getElem?_zipLongest]
  exact joinOption_assoc (h i)

end Joining

namespace SortedMap

variable {κ ν : Type} [Ord κ] [Std.TransOrd κ] [Std.LawfulEqOrd κ] {f : ν → ν → ν}

theorem union_comm {a b : SortedMap κ ν}
    (h : ∀ k, ∀ x ∈ a.get? k, ∀ y ∈ b.get? k, f x y = f y x) :
    a.union f b = b.union f a := by
  refine ext fun k => ?_
  rw [get?_union, get?_union]
  exact joinOption_comm (h k)

theorem union_assoc {a b c : SortedMap κ ν}
    (h : ∀ k, ∀ x ∈ a.get? k, ∀ y ∈ b.get? k, ∀ z ∈ c.get? k, f (f x y) z = f x (f y z)) :
    (a.union f b).union f c = a.union f (b.union f c) := by
  refine ext fun k => ?_
  simp only [get?_union]
  exact joinOption_assoc (h k)

theorem isEmpty_iff {m : SortedMap κ ν} : m.isEmpty = true ↔ ∀ k, m.get? k = none := by
  constructor
  · intro h k
    obtain ⟨entries, ascending⟩ := m
    obtain rfl := List.isEmpty_iff.1 h
    rfl
  · intro h
    by_contra hne
    obtain ⟨k, x, hx⟩ := exists_get?_of_not_isEmpty (Bool.not_eq_true _ ▸ hne)
    rw [h k] at hx
    cases hx

theorem isEmpty_union (f : ν → ν → ν) (a b : SortedMap κ ν) :
    (a.union f b).isEmpty = (a.isEmpty && b.isEmpty) := by
  rw [Bool.eq_iff_iff, Bool.and_eq_true]
  simp only [isEmpty_iff, get?_union]
  rw [← forall_and]
  refine forall_congr' fun k => ?_
  cases a.get? k <;> cases b.get? k <;> simp [joinOption]

end SortedMap

theorem lesser_eq_min (a b : String) : lesser a b = min a b := by
  rw [lesser, min_def]
  simp only [← not_lt, ite_not]

theorem lesser_comm (a b : String) : lesser a b = lesser b a := by
  rw [lesser_eq_min, lesser_eq_min, min_comm]

theorem lesser_assoc (a b c : String) : lesser (lesser a b) c = lesser a (lesser b c) := by
  simp only [lesser_eq_min, min_assoc]

/-! ## Branches -/

theorem JumpRecord.accumulate_comm {a b : JumpRecord} (h : a.slots = b.slots) :
    a.accumulate b = b.accumulate a := by
  simp only [slots, List.cons.injEq, and_true] at h
  simp only [accumulate, h.1, h.2, satAdd_comm]

theorem JumpRecord.accumulate_assoc (a b c : JumpRecord) :
    (a.accumulate b).accumulate c = a.accumulate (b.accumulate c) := by
  simp only [accumulate, satAdd_assoc]

namespace SwitchRecord

/-- Every key has a counter, and a missing default counts nothing. -/
structure Counted (switch : SwitchRecord) : Prop where
  keys : switch.keyHits.length = switch.keys.length
  otherwise : switch.defaultSlot = none → switch.defaultHits = 0

/-- Two records of one switch that differ in their counters only. -/
structure Agrees (a b : SwitchRecord) : Prop where
  keys : a.keys = b.keys
  keySlots : a.keySlots = b.keySlots
  defaultSlot : a.defaultSlot = b.defaultSlot
  left : a.Counted
  right : b.Counted

variable {a b : SwitchRecord}

theorem Agrees.length_eq (h : a.Agrees b) : a.keyHits.length = b.keyHits.length := by
  rw [h.left.keys, h.keys, h.right.keys]

theorem addHits_comm {as bs : List UInt32} (h : as.length = bs.length) :
    addHits as bs = addHits bs as := by
  induction as generalizing bs with
  | nil =>
      obtain rfl := List.length_eq_zero_iff.1 h.symm
      rfl
  | cons a as ih =>
      cases bs with
      | nil => cases h
      | cons b bs => rw [addHits, addHits, satAdd_comm, ih (Nat.succ.inj h)]

theorem addHits_assoc (as : List UInt32) {bs cs : List UInt32} (h : bs.length = cs.length) :
    addHits (addHits as bs) cs = addHits as (addHits bs cs) := by
  induction as generalizing bs cs with
  | nil => cases bs <;> cases cs <;> rfl
  | cons a as ih =>
      cases bs with
      | nil =>
          obtain rfl := List.length_eq_zero_iff.1 h.symm
          rfl
      | cons b bs =>
          cases cs with
          | nil => cases h
          | cons c cs => simp only [addHits, satAdd_assoc, ih (Nat.succ.inj h)]

theorem accumulate_comm (h : a.Agrees b) : a.accumulate b = b.accumulate a := by
  simp only [accumulate, h.keys, h.keySlots, h.defaultSlot, addHits_comm h.length_eq]
  cases hslot : b.defaultSlot with
  | some slot => simp only [satAdd_comm]
  | none => simp only [h.left.otherwise (h.defaultSlot.trans hslot), h.right.otherwise hslot]

/-- A default that only the later sides lacked would be added to by one grouping alone. -/
theorem accumulate_assoc (c : SwitchRecord) (h : a.Agrees b) :
    (c.accumulate a).accumulate b = c.accumulate (a.accumulate b) := by
  simp only [accumulate, addHits_assoc _ h.length_eq]
  cases c.defaultSlot with
  | none => rfl
  | some slot =>
      cases hslot : a.defaultSlot with
      | some slot' => simp only [satAdd_assoc]
      | none =>
          have hzero := h.right.otherwise (h.defaultSlot.symm.trans hslot)
          simp only [hzero, h.left.otherwise hslot, satAdd_zero]

end SwitchRecord

/-! ## Lines -/

namespace LineRecord

/-- Two records of one line with the same slots. -/
structure Agrees (a b : LineRecord) : Prop where
  slot : a.slot = b.slot
  jumps : a.jumps.map JumpRecord.slots = b.jumps.map JumpRecord.slots
  switches : List.Forall₂ SwitchRecord.Agrees a.switches b.switches

variable {a b : LineRecord}

theorem Agrees.jump (h : a.Agrees b) {i : Nat} {jump jump' : JumpRecord}
    (hjump : a.jumps[i]? = some jump) (hjump' : b.jumps[i]? = some jump') :
    jump.slots = jump'.slots := by
  have hslots := congrArg (·[i]?) h.jumps
  simpa [hjump, hjump'] using hslots

theorem Agrees.switch (h : a.Agrees b) {i : Nat} {switch switch' : SwitchRecord}
    (hswitch : a.switches[i]? = some switch) (hswitch' : b.switches[i]? = some switch') :
    switch.Agrees switch' := by
  obtain ⟨hi, rfl⟩ := List.getElem?_eq_some_iff.1 hswitch
  obtain ⟨hi', rfl⟩ := List.getElem?_eq_some_iff.1 hswitch'
  exact h.switches.get hi hi'

theorem merge_comm (h : a.Agrees b) : a.merge b = b.merge a := by
  have hjumps : zipLongest JumpRecord.accumulate a.jumps b.jumps =
      zipLongest JumpRecord.accumulate b.jumps a.jumps :=
    zipLongest_comm fun i x hx y hy => JumpRecord.accumulate_comm (h.jump hx hy)
  have hswitches : zipLongest SwitchRecord.accumulate a.switches b.switches =
      zipLongest SwitchRecord.accumulate b.switches a.switches :=
    zipLongest_comm fun i x hx y hy => SwitchRecord.accumulate_comm (h.switch hx hy)
  have hinstructions : joinOption max a.instructions b.instructions =
      joinOption max b.instructions a.instructions :=
    joinOption_comm fun x _ y _ => Nat.max_comm x y
  simp only [merge, h.slot, hjumps, hswitches, hinstructions, satAdd_comm a.hits,
    lesser_comm a.method]

theorem merge_assoc (c : LineRecord) (h : a.Agrees b) :
    (c.merge a).merge b = c.merge (a.merge b) := by
  have hjumps : zipLongest JumpRecord.accumulate
        (zipLongest JumpRecord.accumulate c.jumps a.jumps) b.jumps =
      zipLongest JumpRecord.accumulate c.jumps
        (zipLongest JumpRecord.accumulate a.jumps b.jumps) :=
    zipLongest_assoc fun i z _ x _ y _ => JumpRecord.accumulate_assoc z x y
  have hswitches : zipLongest SwitchRecord.accumulate
        (zipLongest SwitchRecord.accumulate c.switches a.switches) b.switches =
      zipLongest SwitchRecord.accumulate c.switches
        (zipLongest SwitchRecord.accumulate a.switches b.switches) :=
    zipLongest_assoc fun i z _ x hx y hy => SwitchRecord.accumulate_assoc z (h.switch hx hy)
  have hinstructions : joinOption max (joinOption max c.instructions a.instructions)
        b.instructions =
      joinOption max c.instructions (joinOption max a.instructions b.instructions) :=
    joinOption_assoc fun z _ x _ y _ => Nat.max_assoc z x y
  simp only [merge, hjumps, hswitches, hinstructions, satAdd_assoc, lesser_assoc]

end LineRecord

/-! ## Classes -/

namespace ClassRecord

/-- Two records of one class with one layout: lines that are in both agree, and so do the
mappings. -/
structure Agrees (a b : ClassRecord) : Prop where
  lines : ∀ e ∈ a.lines.entries, ∀ e' ∈ b.lines.entries, e.1 = e'.1 → e.2.Agrees e'.2
  mapping : ∀ map ∈ a.mapping, ∀ map' ∈ b.mapping, map = map'

variable {a b c : ClassRecord}

theorem Agrees.line (h : a.Agrees b) {number : UInt32} {line line' : LineRecord}
    (hline : a.lines.get? number = some line) (hline' : b.lines.get? number = some line') :
    line.Agrees line' :=
  h.lines _ (SortedMap.mem_entries.2 hline) _ (SortedMap.mem_entries.2 hline') rfl

theorem mergeParts_comm (hname : a.name = b.name) (h : a.Agrees b) :
    a.mergeParts b = b.mergeParts a := by
  have hlines : a.lines.union LineRecord.merge b.lines = b.lines.union LineRecord.merge a.lines :=
    SortedMap.union_comm fun number x hx y hy => LineRecord.merge_comm (h.line hx hy)
  have hfile : joinOption lesser a.sourceFile b.sourceFile =
      joinOption lesser b.sourceFile a.sourceFile :=
    joinOption_comm fun x _ y _ => lesser_comm x y
  have hhits : zipLongest satAdd a.hits b.hits = zipLongest satAdd b.hits a.hits :=
    zipLongest_comm fun _ x _ y _ => satAdd_comm x y
  have htrace : joinOption (zipLongest or) a.trace b.trace =
      joinOption (zipLongest or) b.trace a.trace :=
    joinOption_comm fun _ _ _ _ => zipLongest_comm fun _ x _ y _ => Bool.or_comm x y
  have hmapping : a.mapping.or b.mapping = b.mapping.or a.mapping := by
    cases ha : a.mapping with
    | none => cases b.mapping <;> rfl
    | some map =>
        cases hb : b.mapping with
        | none => rfl
        | some map' => exact congrArg some (h.mapping map ha map' hb)
  simp only [mergeParts, hname, hlines, hfile, hhits, htrace, hmapping,
    Nat.max_comm a.slotCount, Bool.or_comm a.fullyAnalyzed]

theorem mergeParts_assoc (a : ClassRecord) (h : b.Agrees c) :
    (a.mergeParts b).mergeParts c = a.mergeParts (b.mergeParts c) := by
  have hlines : (a.lines.union LineRecord.merge b.lines).union LineRecord.merge c.lines =
      a.lines.union LineRecord.merge (b.lines.union LineRecord.merge c.lines) :=
    SortedMap.union_assoc fun number x _ y hy z hz => LineRecord.merge_assoc x (h.line hy hz)
  have hfile : joinOption lesser (joinOption lesser a.sourceFile b.sourceFile) c.sourceFile =
      joinOption lesser a.sourceFile (joinOption lesser b.sourceFile c.sourceFile) :=
    joinOption_assoc fun x _ y _ z _ => lesser_assoc x y z
  have hhits : zipLongest satAdd (zipLongest satAdd a.hits b.hits) c.hits =
      zipLongest satAdd a.hits (zipLongest satAdd b.hits c.hits) :=
    zipLongest_assoc fun _ x _ y _ z _ => satAdd_assoc x y z
  have htrace : joinOption (zipLongest or) (joinOption (zipLongest or) a.trace b.trace) c.trace =
      joinOption (zipLongest or) a.trace (joinOption (zipLongest or) b.trace c.trace) :=
    joinOption_assoc fun _ _ _ _ _ _ =>
      zipLongest_assoc fun _ x _ y _ z _ => Bool.or_assoc x y z
  simp only [mergeParts, hlines, hfile, hhits, htrace, Nat.max_assoc, Bool.or_assoc,
    Option.or_assoc]

/-! ### Sides that only name the class -/

theorem merge_left (ha : a.contributes = true) (hb : b.contributes = false) : a.merge b = a := by
  simp only [merge, ha, hb]

theorem merge_right (ha : a.contributes = false) (hb : b.contributes = true) : a.merge b = b := by
  simp only [merge, ha, hb]

theorem merge_parts (h : a.contributes = b.contributes) : a.merge b = a.mergeParts b := by
  cases hb : b.contributes <;> simp only [merge, h, hb]

theorem contributes_mergeParts (a b : ClassRecord) :
    (a.mergeParts b).contributes = (a.contributes || b.contributes) := by
  simp only [contributes, mergeParts, SortedMap.isEmpty_union]
  grind

theorem merge_comm (hname : a.name = b.name) (h : a.Agrees b) : a.merge b = b.merge a := by
  cases ha : a.contributes <;> cases hb : b.contributes
  case false.true => rw [merge_right ha hb, merge_left hb ha]
  case true.false => rw [merge_left ha hb, merge_right hb ha]
  all_goals
    rw [merge_parts (ha.trans hb.symm), merge_parts (hb.trans ha.symm), mergeParts_comm hname h]

theorem contributes_merge (a b : ClassRecord) :
    (a.merge b).contributes = (a.contributes || b.contributes) := by
  cases ha : a.contributes <;> cases hb : b.contributes
  case false.true => rw [merge_right ha hb, hb, Bool.false_or]
  case true.false => rw [merge_left ha hb, ha, Bool.or_false]
  all_goals rw [merge_parts (ha.trans hb.symm), contributes_mergeParts, ha, hb]

/-- A side that only names the class is dropped before or after the others are merged; only if
all or none of the sides do so are the parts of all three merged. -/
theorem merge_assoc (a : ClassRecord) (h : b.Agrees c) :
    (a.merge b).merge c = a.merge (b.merge c) := by
  have hab := contributes_merge a b
  have hbc := contributes_merge b c
  cases ha : a.contributes <;> cases hb : b.contributes <;> cases hc : c.contributes
  all_goals rw [ha, hb] at hab
  all_goals rw [hb, hc] at hbc
  case false.false.true => rw [merge_right hab hc, merge_right hb hc, merge_right ha hc]
  case false.true.false => rw [merge_right ha hb, merge_left hb hc, merge_right ha hb]
  case false.true.true => rw [merge_right ha hb, merge_right ha hbc]
  case true.false.false => rw [merge_left ha hb, merge_left ha hc, merge_left ha hbc]
  case true.false.true => rw [merge_left ha hb, merge_right hb hc]
  case true.true.false => rw [merge_left hab hc, merge_left hb hc]
  all_goals
    rw [merge_parts (hab.trans hc.symm), merge_parts (ha.trans hbc.symm),
      merge_parts (ha.trans hb.symm), merge_parts (hb.trans hc.symm), mergeParts_assoc a h]

end ClassRecord

/-! ## Snapshots -/

theorem Mode.merge_comm (a b : Mode) : a.merge b = b.merge a := by
  simp only [merge, Bool.or_comm, Bool.and_comm]

theorem Mode.merge_assoc (a b c : Mode) : (a.merge b).merge c = a.merge (b.merge c) := by
  simp only [merge, Bool.or_assoc, Bool.and_assoc]

namespace Snapshot

/-- Every record is stored under the name of its class. -/
def Named (s : Snapshot) : Prop :=
  ∀ e ∈ s.classes.entries, e.2.name = e.1

instance (s : Snapshot) : Decidable s.Named :=
  inferInstanceAs (Decidable (∀ e ∈ s.classes.entries, _))

/-- Records are stored under their names, and both records of a class have one layout. -/
structure Compatible (a b : Snapshot) : Prop where
  left : a.Named
  right : b.Named
  agrees : ∀ e ∈ a.classes.entries, ∀ e' ∈ b.classes.entries, e.1 = e'.1 → e.2.Agrees e'.2

variable {a b c : Snapshot}

theorem Named.name_eq (h : a.Named) {name : String} {record : ClassRecord}
    (hrecord : a.classes.get? name = some record) : record.name = name :=
  h _ (SortedMap.mem_entries.2 hrecord)

theorem Compatible.class (h : a.Compatible b) {name : String} {record record' : ClassRecord}
    (hrecord : a.classes.get? name = some record)
    (hrecord' : b.classes.get? name = some record') : record.Agrees record' :=
  h.agrees _ (SortedMap.mem_entries.2 hrecord) _ (SortedMap.mem_entries.2 hrecord') rfl

theorem merge_comm (h : a.Compatible b) : a.merge b = b.merge a := by
  have hclasses : a.classes.union ClassRecord.merge b.classes =
      b.classes.union ClassRecord.merge a.classes :=
    SortedMap.union_comm fun _ _ hx _ hy =>
      ClassRecord.merge_comm ((h.left.name_eq hx).trans (h.right.name_eq hy).symm) (h.class hx hy)
  simp only [merge, hclasses, Mode.merge_comm a.mode]

theorem merge_assoc (a : Snapshot) (h : b.Compatible c) :
    (a.merge b).merge c = a.merge (b.merge c) := by
  have hclasses : (a.classes.union ClassRecord.merge b.classes).union ClassRecord.merge c.classes =
      a.classes.union ClassRecord.merge (b.classes.union ClassRecord.merge c.classes) :=
    SortedMap.union_assoc fun _ x _ _ hy _ hz => ClassRecord.merge_assoc x (h.class hy hz)
  simp only [merge, hclasses, Mode.merge_assoc]

/-- Compatible snapshots merge to the same whichever comes first and however they are grouped. -/
theorem merge_comm_assoc (hab : a.Compatible b) (hbc : b.Compatible c) :
    a.merge b = b.merge a ∧ (a.merge b).merge c = a.merge (b.merge c) :=
  ⟨merge_comm hab, merge_assoc a hbc⟩

/-! ### Three reports of one class -/

/-- A line with a jump and a switch that has no default. -/
def branchingLine (method : String) (hits : UInt32) : LineRecord where
  method
  slot := 0
  hits
  jumps := [{ takenSlot := 1, notTakenSlot := 2, takenHits := hits }]
  switches := [{ keys := [7], keySlots := [3], keyHits := [hits], defaultSlot := none }]

def reportOfLine : Snapshot where
  classes := .ofList
    [("A",
      { name := "A"
        lines := .ofList [(4, branchingLine "f()V" 1)]
        slotCount := 4
        hits := [1, 1, 0, 1]
        fullyAnalyzed := true })]

def reportOfTwoLines : Snapshot where
  mode := { counts := false }
  classes := .ofList
    [("A",
      { name := "A"
        sourceFile := some "A.java"
        lines := .ofList [(4, branchingLine "e()V" 3), (5, { method := "f()V", slot := 4 })]
        slotCount := 5
        hits := [3, 3, 0, 3, 0]
        fullyAnalyzed := true })]

/-- The class was named, and nothing of it was seen. -/
def reportOfName : Snapshot where
  classes := .ofList [("A", { name := "A", trace := some [true] })]

theorem agrees_branchingLine (method method' : String) (hits hits' : UInt32) :
    (branchingLine method hits).Agrees (branchingLine method' hits') where
  slot := rfl
  jumps := rfl
  switches := .cons ⟨rfl, rfl, rfl, ⟨rfl, fun _ => rfl⟩, ⟨rfl, fun _ => rfl⟩⟩ .nil

theorem compatible_line_twoLines : reportOfLine.Compatible reportOfTwoLines where
  left := by decide
  right := by decide
  agrees e he e' he' _ := by
    obtain rfl := List.mem_singleton.1 he
    obtain rfl := List.mem_singleton.1 he'
    refine ⟨fun l hl l' hl' hnumber => ?_, nofun⟩
    obtain rfl := List.mem_singleton.1 hl
    rcases List.mem_pair.1 hl' with rfl | rfl
    · exact agrees_branchingLine ..
    · cases hnumber

theorem compatible_twoLines_name : reportOfTwoLines.Compatible reportOfName where
  left := by decide
  right := by decide
  agrees e he e' he' _ := by
    obtain rfl := List.mem_singleton.1 he'
    exact ⟨nofun, nofun⟩

theorem merge_comm_assoc_reports :
    reportOfLine.merge reportOfTwoLines = reportOfTwoLines.merge reportOfLine ∧
      (reportOfLine.merge reportOfTwoLines).merge reportOfName =
        reportOfLine.merge (reportOfTwoLines.merge reportOfName) :=
  merge_comm_assoc compatible_line_twoLines compatible_twoLines_name

end Snapshot

end BytecodeCoverage
