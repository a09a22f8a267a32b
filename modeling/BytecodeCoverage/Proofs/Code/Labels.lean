import BytecodeCoverage.Code.Body
import Mathlib.Data.List.Nodup
import Mathlib.Data.UInt

/-!
# Labels drawn in a row

Labels are drawn by counting in 32 bits.  As long as the count does not go beyond the greatest word,
the labels drawn are different from each other and from all labels below the first of them.

A body has room if the count for it stays below the greatest word even when a label is drawn for
each outcome of its branches.  The greatest label that a body mentions decides this, so a body that
mentions the greatest word has no room for any label.

**Main definitions.**
* `Body.mentioned`, `Body.outcomes`: the labels of a body, and those that its branches lead to.
* `Body.Roomy`: bodies that labels can be drawn from.
* `Body.Drawn`: what the watermark of such a body promises.

**Results.**
* `Label.nodup_successive`, `Label.mem_successive`: the labels drawn in a row.
* `Body.drawn_ofParts`: the watermark of a body with room.
-/

namespace BytecodeCoverage

namespace Label

@[simp] theorem id_mk (word : UInt32) : (⟨word⟩ : Label).id = word.toNat :=
  rfl

theorem ext_id {label other : Label} (h : label.id = other.id) : label = other := by
  cases label
  cases other
  exact congrArg Label.mk (UInt32.toNat_inj.1 h)

/-- The count goes on by numbers as long as it stays below the greatest word. -/
theorem toNat_add_ofNat {word : UInt32} {n : Nat} (h : word.toNat + n < UInt32.size) :
    (word + UInt32.ofNat n).toNat = word.toNat + n := by
  rw [UInt32.toNat_add, UInt32.toNat_ofNat', Nat.add_mod_mod]
  exact Nat.mod_eq_of_lt h

theorem id_ofNat_le (n : Nat) : (⟨n⟩ : Label).id ≤ n :=
  Nat.le_trans (Nat.le_of_eq UInt32.toNat_ofNat') (Nat.mod_le _ _)

/-! ## Labels in a row -/

variable {first : UInt32} {count : Nat}

@[simp] theorem length_successive : (successive first count).length = count := by
  simp [successive]

theorem getElem?_successive {i : Nat} (h : i < count) :
    (successive first count)[i]? = some ⟨first + i⟩ := by
  simp [successive, h]

theorem successive_add (first : UInt32) (count more : Nat) :
    successive first (count + more) =
      successive first count ++ successive (first + count) more := by
  simp only [successive, List.range_add, List.map_append, List.map_map]
  refine congrArg _ (List.map_congr_left fun i _ => ?_)
  rw [Function.comp_apply, UInt32.ofNat_add, UInt32.add_assoc]

theorem successive_succ (first : UInt32) (count : Nat) :
    successive first (count + 1) = ⟨first⟩ :: successive (first + 1) count := by
  rw [Nat.add_comm, successive_add]
  simp [successive]

theorem successive_concat (first : UInt32) (count : Nat) :
    successive first (count + 1) = successive first count ++ [⟨first + count⟩] := by
  rw [successive_add]
  simp [successive]

/-- Until the count has gone round, all labels are different. -/
theorem nodup_successive (h : count ≤ UInt32.size) : (successive first count).Nodup := by
  refine List.Nodup.map_on (fun i hi j hj heq => ?_) List.nodup_range
  have hword : UInt32.ofNat i = UInt32.ofNat j := (UInt32.add_right_inj first).1 (Label.mk.inj heq)
  rw [List.mem_range] at hi hj
  rw [← UInt32.toNat_ofNat_of_lt' (Nat.lt_of_lt_of_le hi h),
    ← UInt32.toNat_ofNat_of_lt' (Nat.lt_of_lt_of_le hj h), hword]

/-- As long as the count does not go beyond the greatest word, the numbers of the labels follow each
other. -/
theorem mem_successive (h : first.toNat + count ≤ UInt32.size) {label : Label} :
    label ∈ successive first count ↔
      first.toNat ≤ label.id ∧ label.id < first.toNat + count := by
  have hid : ∀ i < count, (⟨first + i⟩ : Label).id = first.toNat + i :=
    fun i hi => toNat_add_ofNat (by omega)
  rw [successive, List.mem_map]
  constructor
  · rintro ⟨i, hi, rfl⟩
    rw [List.mem_range] at hi
    rw [hid i hi]
    omega
  · rintro ⟨hfrom, hto⟩
    refine ⟨label.id - first.toNat, List.mem_range.2 (by omega), ext_id ?_⟩
    rw [hid _ (by omega)]
    omega

/-! ## The first label above others -/

theorem firstAbove_le {labels : List Label} {bound : Nat} (h : ∀ label ∈ labels, label.id < bound) :
    (firstAbove labels).toNat ≤ bound := by
  induction labels with
  | nil => exact Nat.zero_le _
  | cons label rest ih =>
      rw [List.forall_mem_cons] at h
      rw [firstAbove, UInt32.toNat_max]
      refine Nat.max_le.2 ⟨Nat.le_trans ?_ h.1, ih h.2⟩
      rw [UInt32.toNat_add]
      exact Nat.mod_le _ _

/-- Only the greatest word has none above it. -/
theorem id_lt_firstAbove {labels : List Label}
    (hroom : ∀ label ∈ labels, label.id + 1 < UInt32.size) {label : Label} (h : label ∈ labels) :
    label.id < (firstAbove labels).toNat := by
  induction labels with
  | nil => cases h
  | cons other rest ih =>
      rw [List.forall_mem_cons] at hroom
      rw [firstAbove, UInt32.toNat_max, lt_max_iff]
      rcases List.mem_cons.1 h with rfl | h
      · refine .inl (Nat.lt_of_succ_le (Nat.le_of_eq ?_))
        exact (toNat_add_ofNat hroom.1).symm
      · exact .inr (ih hroom.2 h)

end Label

namespace TryRange

variable {range : TryRange}

theorem firstAbove_le {bound : Nat} (h : ∀ label ∈ range.labels, label.id < bound) :
    range.firstAbove.toNat ≤ bound := by
  simp only [labels, List.forall_mem_cons, Label.id] at h
  rw [firstAbove, UInt32.toNat_add, UInt32.toNat_max, UInt32.toNat_max]
  exact Nat.le_trans (Nat.mod_le _ _) (by change _ + 1 ≤ _; omega)

theorem id_lt_firstAbove (hroom : ∀ label ∈ range.labels, label.id + 1 < UInt32.size)
    {label : Label} (h : label ∈ range.labels) : label.id < range.firstAbove.toNat := by
  have hmax : (max (max range.start.word range.stop.word) range.handler.word).toNat =
      max (max range.start.id range.stop.id) range.handler.id := by
    rw [UInt32.toNat_max, UInt32.toNat_max]
    rfl
  simp only [labels, List.forall_mem_cons] at hroom
  have habove : range.firstAbove.toNat =
      max (max range.start.id range.stop.id) range.handler.id + 1 := by
    rw [← hmax]
    exact Label.toNat_add_ofNat (n := 1) (by rw [hmax]; omega)
  simp only [labels, List.mem_cons, List.not_mem_nil, or_false] at h
  rcases h with rfl | rfl | rfl <;> omega

end TryRange

theorem toNat_foldl_max_le_iff {words : List UInt32} {word : UInt32} {bound : Nat} :
    (words.foldl max word).toNat ≤ bound ↔
      word.toNat ≤ bound ∧ ∀ other ∈ words, other.toNat ≤ bound := by
  induction words generalizing word with
  | nil => simp
  | cons other rest ih =>
      rw [List.foldl_cons, ih, UInt32.toNat_max, Nat.max_le, List.forall_mem_cons, and_assoc]

theorem Instruction.targets_subset_labels (insn : Instruction) : insn.targets ⊆ insn.labels := by
  cases insn with
  | label => exact List.nil_subset _
  | _ => exact List.Subset.refl _

namespace Body

variable (body : Body)

/-- The labels that a body mentions. -/
def mentioned : List Label :=
  body.code.flatMap Instruction.labels ++ body.tryRanges.flatMap TryRange.labels

/-- Where the branches lead, with a label for each outcome. -/
def outcomes : List Label :=
  body.code.flatMap Instruction.targets

/-- Above the labels that the body mentions there is room for a label for each outcome. The number
behind them is still a word, so that counting them nowhere goes beyond the greatest one. -/
def Roomy : Prop :=
  ∀ label ∈ body.mentioned, label.id + body.outcomes.length + 1 < UInt32.size

/-- The watermark stands above the labels of the code, with room for a label for each outcome. -/
structure Drawn : Prop where
  below : ∀ insn ∈ body.code, ∀ label ∈ insn.labels, label.id < body.watermark
  room : body.watermark + body.outcomes.length < UInt32.size

variable {body}

theorem outcomes_subset_mentioned : body.outcomes ⊆ body.mentioned := by
  intro label hlabel
  obtain ⟨insn, hinsn, htarget⟩ := List.mem_flatMap.1 hlabel
  refine List.mem_append_left _ (List.mem_flatMap.2 ⟨insn, hinsn, ?_⟩)
  exact insn.targets_subset_labels htarget

theorem Roomy.length_outcomes_lt (h : body.Roomy) : body.outcomes.length < UInt32.size := by
  cases houtcomes : body.outcomes with
  | nil => decide
  | cons label rest =>
      have hmem : label ∈ body.outcomes := houtcomes ▸ List.mem_cons_self
      have hroom := h label (outcomes_subset_mentioned hmem)
      rw [houtcomes] at hroom
      omega

section OfParts

variable {code : List Instruction} {tryRanges : List TryRange} {maxStack maxLocals : UInt16}

theorem watermark_le {bound : Nat}
    (h : ∀ label ∈ (ofParts code tryRanges maxStack maxLocals).mentioned, label.id < bound) :
    (ofParts code tryRanges maxStack maxLocals).watermark ≤ bound := by
  refine toNat_foldl_max_le_iff.2 ⟨Label.firstAbove_le fun label hlabel =>
    h label (List.mem_append_left _ hlabel), fun word hword => ?_⟩
  obtain ⟨range, hrange, rfl⟩ := List.mem_map.1 hword
  exact TryRange.firstAbove_le fun label hlabel =>
    h label (List.mem_append_right _ (List.mem_flatMap.2 ⟨range, hrange, hlabel⟩))

/-- The labels that a body mentions stand below its watermark. -/
theorem id_lt_watermark
    (hroom : ∀ label ∈ (ofParts code tryRanges maxStack maxLocals).mentioned,
      label.id + 1 < UInt32.size)
    {label : Label} (h : label ∈ (ofParts code tryRanges maxStack maxLocals).mentioned) :
    label.id < (ofParts code tryRanges maxStack maxLocals).watermark := by
  obtain ⟨hcode, hranges⟩ :=
    toNat_foldl_max_le_iff.1 (Nat.le_refl (ofParts code tryRanges maxStack maxLocals).watermark)
  rcases List.mem_append.1 h with h | h
  · refine Nat.lt_of_lt_of_le (Label.id_lt_firstAbove (fun other hother => ?_) h) hcode
    exact hroom other (List.mem_append_left _ hother)
  · obtain ⟨range, hrange, hlabel⟩ := List.mem_flatMap.1 h
    refine Nat.lt_of_lt_of_le (TryRange.id_lt_firstAbove (fun other hother => ?_) hlabel)
      (hranges _ (List.mem_map_of_mem hrange))
    exact hroom other (List.mem_append_right _ (List.mem_flatMap.2 ⟨range, hrange, hother⟩))

/-- A body with room that is made from its parts has its watermark above all its labels. -/
theorem drawn_ofParts (hparts : ofParts code tryRanges maxStack maxLocals = body)
    (h : body.Roomy) : body.Drawn := by
  have hwatermark : body.watermark ≤ UInt32.size - 1 - body.outcomes.length := by
    rw [← hparts]
    refine watermark_le fun label hlabel => ?_
    rw [hparts] at hlabel ⊢
    have := h label hlabel
    omega
  have houtcomes := h.length_outcomes_lt
  refine ⟨fun insn hinsn label hlabel => ?_, by omega⟩
  have hmentioned : label ∈ body.mentioned :=
    List.mem_append_left _ (List.mem_flatMap.2 ⟨insn, hinsn, hlabel⟩)
  rw [← hparts] at hmentioned ⊢
  refine id_lt_watermark (fun other hother => ?_) hmentioned
  have := h other (hparts ▸ hother)
  omega

end OfParts

end Body

end BytecodeCoverage
