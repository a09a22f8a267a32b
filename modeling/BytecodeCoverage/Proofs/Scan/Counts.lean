import BytecodeCoverage.Proofs.Scan.Enumerated
import BytecodeCoverage.Proofs.Scan.Lines

/-!
# Numbers of instructions

Filters have no say in how many instructions a scan counts for a line.  They only retract markers,
and those of the library leave a line without markers if nothing is counted for it: a marker that
covers only labels is retracted.

**Results.**
* `Options.counts_scan`: what is counted, whatever the filters are.
* `Body.countOn_pos`: what a marker covers is counted for its line.
* `Options.countOn_pos`: a line that all filters leave has instructions.
-/

namespace BytecodeCoverage

open Body

/-- The numbers of instructions of a scan are those of the code. -/
theorem Options.counts_scan (options : Options) (filters : List Filter) (scope : Scope)
    (body : Body) (line : UInt32) :
    (options.scan filters scope body).counts.get? line =
      if countOn body.code line = 0 then none else some (countOn body.code line) := by
  obtain ⟨ledger, hledger, hreads⟩ := Scan.reads_pass (.forMethod options.branches scope) body.code
  have hbare : (options.scan filters scope body).bare = ledger.toScan :=
    (Scan.bare_pass _ _ _).trans hledger
  calc
    (options.scan filters scope body).counts.get? line =
        (options.scan filters scope body).bare.counts.get? line := rfl
    _ = ledger.counts.get? line := by rw [hbare]
    _ = _ := hreads.counts line

namespace Body

/-- An executable instruction counts for the line of a marker if no other one stands between. -/
theorem countOn_pos_of_marked {before between rest : List Instruction} {number : UInt32}
    {insn : Instruction} (hexecutes : insn.isExecutable = true)
    (hbetween : ∀ other ∈ between, other.isLine = false) :
    0 < countOn (before ++ .line number :: between ++ insn :: rest) number := by
  have hmarked : markedLines (before ++ .line number :: between) = markedLines before ++ [number] := by
    rw [markedLines_append, markedLines, markedLines_eq_nil hbetween]
  refine List.countP_pos_iff.2 ⟨(before ++ .line number :: between).length, ?_, ?_⟩
  · have hlength : (before ++ .line number :: between ++ insn :: rest).length =
        (before ++ .line number :: between).length + (insn :: rest).length := List.length_append
    rw [List.mem_range, hlength]
    exact Nat.lt_add_of_pos_right (Nat.succ_pos _)
  · rw [List.getElem?_append_right (Nat.le_refl _), Nat.sub_self,
      lineBefore_append (Nat.le_refl _), lineBefore_length, hmarked, List.getLast?_concat]
    simp [hexecutes]

/-- What a marker covers is counted for its line. -/
theorem countOn_pos {body : Body} {index : Nat} {number : UInt32}
    (hmarker : body.code[index]? = some (.line number)) {insn : Instruction}
    (hinsn : insn ∈ body.coveredAt index) (hexecutes : insn.isExecutable = true) :
    0 < countOn body.code number := by
  obtain ⟨between, after, hcovered⟩ := List.append_of_mem hinsn
  have hbetween : ∀ other ∈ between, other.isLine = false := by
    intro other hother
    have hmem : other ∈ body.coveredAt index := hcovered ▸ List.mem_append_left _ hother
    exact (Bool.not_eq_true' _).mp (List.all_eq_true.1 List.all_takeWhile other hmem)
  obtain ⟨rest, hrest⟩ : body.coveredAt index <+: body.code.drop (index + 1) :=
    List.takeWhile_prefix _
  have hcode : body.code =
      body.code.take index ++ .line number :: between ++ insn :: (after ++ rest) := by
    obtain ⟨hlt, hget⟩ := List.getElem?_eq_some_iff.1 hmarker
    calc
      body.code = body.code.take index ++ body.code[index] :: body.code.drop (index + 1) := by
        rw [List.getElem_cons_drop, List.take_append_drop]
      _ = body.code.take index ++ .line number :: between ++ insn :: (after ++ rest) := by
        rw [hget, ← hrest, hcovered]
        simp
  rw [hcode]
  exact countOn_pos_of_marked hexecutes hbetween

end Body

/-- A line that is left by all filters has instructions. -/
theorem Options.countOn_pos {options : Options} (h : options.filters = true) (scope : Scope)
    (body : Body) {line : UInt32}
    (hkeeps : (options.scan Filter.standard scope body).keepsLine line = true) :
    0 < countOn body.code line := by
  rw [Scan.keepsLine, List.contains_iff_mem, Scan.keptLines, markers_scan h] at hkeeps
  obtain ⟨marker, hmarker, rfl⟩ := List.mem_map.1 hkeeps
  obtain ⟨hmem, hkept⟩ := List.mem_filter.1 hmarker
  obtain ⟨site, hsite, rfl⟩ := List.mem_map.1 hmem
  have hcovers : ¬body.HollowAt site.1.index := by
    intro hhollow
    rw [(Track.left_retracted_iff hsite).2 (.inl hhollow)] at hkept
    cases hkept
  obtain ⟨i, number, hline, rfl⟩ := Track.mem_markersFrom.1 hsite
  simp only [Body.HollowAt, not_forall, Nat.zero_add] at hcovers
  obtain ⟨insn, hinsn, hfiller⟩ := hcovers
  refine Body.countOn_pos hline hinsn ?_
  -- A marker covers no marker, and what is no filler is no label either.
  have hunmarked := List.all_eq_true.1 List.all_takeWhile insn hinsn
  cases insn with
  | line other => cases hunmarked
  | label placed => exact absurd rfl hfiller
  | _ => rfl

end BytecodeCoverage
