import BytecodeCoverage.Probe.Code
import BytecodeCoverage.Proofs.Code.Forms
import BytecodeCoverage.Proofs.Probe.Chunks

/-!
# Woven code

Woven code is what becomes of a method's code: some instructions that run first, and then the
chunks of the split code with their probes.  A method that gets no probes is woven with a plan
that probes nothing, so that the same facts hold of every method.

Each instruction of the code has two positions in woven code.  At its start the code arrives that
falls through to it; its main position is that of the instruction itself.  They differ only for
labels with windows before them.

**Main definitions.**
* `Weave`, `Weave.code`: a method and its woven code.
* `Weave.start`, `Weave.main`: the positions of an instruction.
* `Weave.Beside`: the positions of what was added.

**Results.**
* `Weave.main_lt_main`: the instructions of the code keep their order.
* `Weave.position?_of_old`: a label of the code stands where its instruction stands.
* `Weave.exists_window`: a window is where its label says, and goes on at its destination.
-/

namespace BytecodeCoverage

namespace Instruction

theorem pushInt_ne_label (value : Int32) (placed : Label) : pushInt value ≠ .label placed := by
  obtain ⟨op, h⟩ | ⟨op, h⟩ | h := forms_of_pushInt value <;> rw [h] <;> exact Instruction.noConfusion

end Instruction

namespace ProbeStyle

variable (style : ProbeStyle) (array : UInt16) (slots : MethodSlots)

/-- The code for elements of split code. -/
def emit (items : List Item) : List Instruction :=
  items.flatMap (style.item array slots)

@[simp] theorem emit_nil : style.emit array slots [] = [] :=
  rfl

@[simp] theorem emit_insn (insn : Instruction) (items : List Item) :
    style.emit array slots (.insn insn :: items) = insn :: style.emit array slots items :=
  rfl

theorem emit_append (a b : List Item) :
    style.emit array slots (a ++ b) = style.emit array slots a ++ style.emit array slots b :=
  List.flatMap_append

theorem emit_probe (site : ProbeSite) (items : List Item) :
    style.emit array slots (.probe site :: items) =
      style.emit array slots [.probe site] ++ style.emit array slots items :=
  style.emit_append array slots [.probe site] items

/-- Probes place no label. -/
theorem placedIn_emit_probe (site : ProbeSite) :
    Body.placedIn (style.emit array slots [.probe site]) = [] := by
  have hcode : ∀ mode place slot, Body.placedIn (Probe.code mode place slot) = [] := by
    intro mode place slot
    have hpush := Instruction.pushInt_ne_label (Int32.ofNat (min slot 0x7fffffff))
    cases mode <;> simp [Probe.code, Probe.pushSlot, Body.placedIn]
  simp only [emit, item, List.flatMap_cons, List.flatMap_nil, List.append_nil]
  cases slots.slot? site with
  | none => rfl
  | some slot =>
      simp only [probe, Body.placedIn_append, hcode, List.nil_append]
      cases site with
      | line number => by_cases h : style.traced.isSome = true <;> simp [h, hcode, Body.placedIn]
      | _ => rfl

theorem placedIn_emit_chain (destination : Label) (windows : List Window) :
    Body.placedIn (style.emit array slots (Window.chain destination windows)) =
      windows.map Window.label := by
  induction windows with
  | nil => rfl
  | cons w rest ih =>
      cases rest with
      | nil => simp [Window.chain, Body.placedIn, placedIn_emit_probe]
      | cons next rest =>
          have hchain : Window.chain destination (w :: next :: rest) =
              .insn (.label w.label) :: .probe w.site :: .insn (.jump .goto destination) ::
                Window.chain destination (next :: rest) := rfl
          rw [hchain, emit_insn, emit_probe, emit_insn, Body.placedIn, Body.placedIn_append,
            placedIn_emit_probe]
          simp [Body.placedIn, ih]

/-- The labels before an instruction and those that are left are those of all windows. -/
theorem count_placedIn_before (windows : List Window) (reachable : Bool) (d : Diverted)
    (label : Label) :
    (Body.placedIn (style.emit array slots (d.before windows reachable))).count label +
        ((d.remaining windows).map Window.label).count label =
      (windows.map Window.label).count label := by
  obtain ⟨insn, probe⟩ := d
  cases insn with
  | label placed =>
      have hbefore : Body.placedIn (style.emit array slots
          (Window.before placed reachable (windows.filter fun w => w.destination = placed))) =
          (windows.filter fun w => w.destination = placed).map Window.label := by
        cases hw : windows.filter fun w => w.destination = placed with
        | nil => rfl
        | cons w rest =>
            cases reachable <;>
              simp [Window.before, Body.placedIn, placedIn_emit_chain]
      have hperm := (List.filter_append_perm (fun w : Window => decide (w.destination = placed))
        windows).map Window.label
      rw [← hperm.count_eq label, List.map_append, List.count_append]
      simp [Diverted.before, Diverted.remaining, hbefore]
  | _ => simp [Diverted.before, Diverted.remaining, Body.placedIn]

theorem emit_diverted (d : Diverted) :
    style.emit array slots d.items =
      d.insn :: style.emit array slots (d.probe.map Item.probe).toList :=
  rfl

theorem placedIn_emit_probes (probe : Option ProbeSite) :
    Body.placedIn (style.emit array slots (probe.map Item.probe).toList) = [] := by
  cases probe with
  | none => rfl
  | some site => exact style.placedIn_emit_probe array slots site

/-- A chunk places the labels before its instruction and the one of its instruction. -/
theorem placedIn_chunk (c : Chunk) :
    Body.placedIn (style.emit array slots c.items) =
      Body.placedIn (style.emit array slots c.before) ++ Body.placedIn [c.diverted.insn] := by
  rw [Chunk.items, emit_append, emit_diverted, Body.placedIn_append, ← List.singleton_append,
    Body.placedIn_append, placedIn_emit_probes, List.append_nil]

theorem mem_placedIn_before {windows : List Window} {reachable : Bool} {ds : List Diverted}
    {c : Chunk} (hc : c ∈ Diverted.chunks windows reachable ds) {label : Label}
    (h : label ∈ Body.placedIn (style.emit array slots c.before)) :
    label ∈ windows.map Window.label := by
  induction ds generalizing windows reachable with
  | nil => simp [Diverted.chunks] at hc
  | cons d rest ih =>
      have hcount := style.count_placedIn_before array slots windows reachable d label
      rw [← List.count_pos_iff]
      rcases List.mem_cons.1 hc with rfl | hc
      · have hpos : 0 < (Body.placedIn (style.emit array slots
            (d.before windows reachable))).count label := List.count_pos_iff.2 h
        omega
      · have hpos := List.count_pos_iff.2 (ih hc)
        omega

/-- A label occurs in split code no more often than among the windows and in the code. -/
theorem count_placedIn_chunks_le (windows : List Window) (reachable : Bool)
    (ds : List Diverted) (label : Label) :
    (Body.placedIn ((Diverted.chunks windows reachable ds).flatMap
        fun c => style.emit array slots c.items)).count label ≤
      (windows.map Window.label).count label +
        (Body.placedIn (ds.map Diverted.insn)).count label := by
  induction ds generalizing windows reachable with
  | nil => simp [Diverted.chunks, Body.placedIn]
  | cons d rest ih =>
      have hbefore := style.count_placedIn_before array slots windows reachable d label
      have hrest := ih (d.remaining windows) (d.passes reachable)
      have hinsns : Body.placedIn (d.insn :: rest.map Diverted.insn) =
          Body.placedIn [d.insn] ++ Body.placedIn (rest.map Diverted.insn) :=
        Body.placedIn_append [d.insn] _
      rw [Diverted.chunks, List.flatMap_cons, Body.placedIn_append, placedIn_chunk, List.map_cons,
        hinsns]
      simp only [List.count_append]
      omega

/-- How far the instruction of a chunk is from the beginning of the chunks. -/
def offset (cs : List Chunk) (i : Nat) : Nat :=
  ((cs.take i).flatMap fun c => style.emit array slots c.items).length +
    (style.emit array slots ((cs[i]?.map Chunk.before).getD [])).length

theorem offset_succ (c : Chunk) (rest : List Chunk) (i : Nat) :
    style.offset array slots (c :: rest) (i + 1) =
      (style.emit array slots c.items).length + style.offset array slots rest i := by
  simp [offset, Nat.add_assoc]

/-- A label that is no window's is found at the instruction that places it. -/
theorem go_chunks {label : Label} (cs : List Chunk)
    (h : ∀ c ∈ cs, label ∉ Body.placedIn (style.emit array slots c.before)) (pos : Nat) :
    Body.position?.go label pos (cs.flatMap fun c => style.emit array slots c.items) =
      (Body.position?.go label 0 (cs.map fun c => c.diverted.insn)).map
        fun i => pos + style.offset array slots cs i := by
  induction cs generalizing pos with
  | nil => rfl
  | cons c rest ih =>
      have hhere : Body.position?.go label pos (style.emit array slots c.items) =
          (Body.position?.go label 0 [c.diverted.insn]).map
            fun i => pos + style.offset array slots (c :: rest) i := by
        have hinsn : Body.position?.go label (pos + (style.emit array slots c.before).length)
            [c.diverted.insn] = (Body.position?.go label 0 [c.diverted.insn]).map
              fun i => pos + style.offset array slots (c :: rest) i := by
          cases c.diverted.insn with
          | label placed =>
              by_cases hp : placed = label <;> simp [Body.position?.go, hp, offset]
          | _ => rfl
        rw [Chunk.items, emit_append, emit_diverted, Body.position?.go_append,
          Body.position?.go_eq_none (h c List.mem_cons_self), Option.or_none,
          ← List.singleton_append, Body.position?.go_append,
          Body.position?.go_eq_none (by simp [placedIn_emit_probes]), Option.none_or, hinsn]
      have hrest := ih (fun c hc => h c (List.mem_cons_of_mem _ hc))
        (pos + (style.emit array slots c.items).length)
      have hsplit : Body.position?.go label 0 ((c :: rest).map fun c => c.diverted.insn) =
          ((Body.position?.go label 0 (rest.map fun c => c.diverted.insn)).map (· + 1)).or
            (Body.position?.go label 0 [c.diverted.insn]) := by
        rw [List.map_cons, ← List.singleton_append, Body.position?.go_append,
          ← Body.position?.go_shift]
        rfl
      rw [List.flatMap_cons, Body.position?.go_append, hrest, hhere, hsplit]
      cases Body.position?.go label 0 (rest.map fun c => c.diverted.insn) with
      | none => simp
      | some i => simp [offset_succ, Nat.add_assoc]

end ProbeStyle

/-- A method, what of it is probed, and how. -/
structure Weave where
  body : Body
  plan : Plan
  slots : MethodSlots
  style : ProbeStyle
  /-- What runs before the code. -/
  lead : List Instruction

namespace Weave

variable (v : Weave)

/-- The code for elements of split code. -/
def emit (items : List Item) : List Instruction :=
  v.style.emit v.body.maxLocals v.slots items

/-- All windows. -/
def windows : List Window :=
  (v.plan.divertAll 0 v.body.nextLabel v.body.code).2

/-- The chunks of the split code. -/
def chunks : List Chunk :=
  Diverted.chunks v.windows true (v.plan.divertAll 0 v.body.nextLabel v.body.code).1

/-- The code that the method gets. -/
def code : List Instruction :=
  v.lead ++ v.chunks.flatMap fun c => v.emit c.items

/-- Where code arrives that falls through to an instruction. -/
def start (i : Nat) : Nat :=
  v.lead.length + ((v.chunks.take i).flatMap fun c => v.emit c.items).length

/-- Where an instruction stands. -/
def main (i : Nat) : Nat :=
  v.lead.length + v.style.offset v.body.maxLocals v.slots v.chunks i

theorem start_zero : v.start 0 = v.lead.length := by
  simp [start]

theorem length_chunks : v.chunks.length = v.body.code.length := by
  rw [← Plan.length_divertAll v.plan 0 v.body.nextLabel v.body.code,
    ← List.length_map Chunk.diverted, chunks, Diverted.diverted_chunks]

theorem insns_chunks :
    v.chunks.map Chunk.diverted = (v.plan.divertAll 0 v.body.nextLabel v.body.code).1 :=
  Diverted.diverted_chunks _ _ _

variable {v} {i : Nat} {c : Chunk}

/-- Each instruction of the code has its chunk. -/
theorem exists_chunk {insn : Instruction} (h : v.body.code[i]? = some insn) :
    ∃ c drawn, v.chunks[i]? = some c ∧ c.diverted = (v.plan.divert i drawn insn).1 ∧
      ∀ w ∈ (v.plan.divert i drawn insn).2, w ∈ v.windows := by
  obtain ⟨drawn, hinsn, hwindows⟩ :=
    v.plan.exists_divert 0 v.body.nextLabel h
  rw [← insns_chunks, List.getElem?_map] at hinsn
  obtain ⟨c, hc, hd⟩ := Option.map_eq_some_iff.1 hinsn
  rw [Nat.zero_add] at hd hwindows
  exact ⟨c, drawn, hc, hd, hwindows⟩

theorem start_succ (h : v.chunks[i]? = some c) :
    v.start (i + 1) = v.start i + (v.emit c.items).length := by
  simp [start, List.take_add_one, h, Nat.add_assoc]

theorem main_eq (h : v.chunks[i]? = some c) : v.main i = v.start i + (v.emit c.before).length := by
  simp [main, start, ProbeStyle.offset, emit, h, Nat.add_assoc]

/-- Behind the last instruction the woven code ends, too. -/
theorem getElem?_start_of_none (h : v.body.code[i]? = none) : v.code[v.start i]? = none := by
  have hle : v.chunks.length ≤ i := by
    rw [length_chunks]
    exact List.getElem?_eq_none_iff.1 h
  have hlength : v.code.length = v.start i := by
    rw [start, List.take_of_length_le hle, code, List.length_append]
  exact List.getElem?_eq_none_iff.2 (Nat.le_of_eq hlength)

/-- The woven code from the start of an instruction on. -/
theorem drop_start (h : v.chunks[i]? = some c) :
    v.code.drop (v.start i) = v.emit c.items ++ v.code.drop (v.start (i + 1)) := by
  have hdrop : ∀ n, v.code.drop (v.start n) = (v.chunks.drop n).flatMap fun c => v.emit c.items := by
    intro n
    have hsplit : v.code = (v.lead ++ (v.chunks.take n).flatMap fun c => v.emit c.items) ++
        (v.chunks.drop n).flatMap fun c => v.emit c.items := by
      rw [List.append_assoc, ← List.flatMap_append, List.take_append_drop]
      rfl
    rw [hsplit, start, ← List.length_append, List.drop_left]
  obtain ⟨hlt, hget⟩ := List.getElem?_eq_some_iff.1 h
  rw [hdrop, hdrop, List.drop_eq_getElem_cons hlt, hget, List.flatMap_cons]

theorem emit_items (v : Weave) (c : Chunk) :
    v.emit c.items = v.emit c.before ++
      c.diverted.insn :: v.emit (c.diverted.probe.map Item.probe).toList := by
  rw [Chunk.items, emit, ProbeStyle.emit_append, ProbeStyle.emit_diverted]
  rfl

/-- The woven code from an instruction on. -/
theorem drop_main (h : v.chunks[i]? = some c) :
    v.code.drop (v.main i) =
      c.diverted.insn :: (v.emit (c.diverted.probe.map Item.probe).toList ++
        v.code.drop (v.start (i + 1))) := by
  rw [main_eq h, ← List.drop_drop, drop_start h, emit_items, List.append_assoc, List.drop_left]
  rfl

/-- What stands before an instruction comes right before it. -/
theorem drop_start_eq_main (h : v.chunks[i]? = some c) :
    v.code.drop (v.start i) = v.emit c.before ++ v.code.drop (v.main i) := by
  rw [drop_start h, drop_main h, emit_items, List.append_assoc, List.cons_append]

theorem start_succ_eq_main (h : v.chunks[i]? = some c) :
    v.start (i + 1) =
      v.main i + 1 + (v.emit (c.diverted.probe.map Item.probe).toList).length := by
  rw [start_succ h, main_eq h, emit_items]
  simp [Nat.add_assoc, Nat.add_comm 1]

variable (v) in
theorem start_le_start {i j : Nat} (h : i ≤ j) : v.start i ≤ v.start j := by
  obtain ⟨rest, hrest⟩ := (List.take_prefix_take_left h : v.chunks.take i <+: v.chunks.take j)
  rw [start, start, ← hrest, List.flatMap_append, List.length_append]
  omega

/-- The instructions of the code keep their order. -/
theorem main_lt_main {i j : Nat} (h : i < j) (hj : j < v.body.code.length) :
    v.main i < v.main j := by
  rw [← length_chunks] at hj
  have hi := List.getElem?_eq_getElem (Nat.lt_trans h hj)
  calc v.main i
      < v.start (i + 1) := by rw [start_succ_eq_main hi]; omega
    _ ≤ v.start j := v.start_le_start h
    _ ≤ v.main j := by rw [main_eq (List.getElem?_eq_getElem hj)]; omega

variable (v) in
/-- At the position stands something that was added to the code. -/
def Beside (pos : Nat) : Prop :=
  ∀ i < v.body.code.length, v.main i ≠ pos

theorem main_lt_start_succ {j : Nat} (hj : j < v.body.code.length) :
    v.main j < v.start (j + 1) := by
  rw [← length_chunks] at hj
  rw [start_succ_eq_main (List.getElem?_eq_getElem hj)]
  omega

theorem start_le_main {j : Nat} (hj : j < v.body.code.length) : v.start j ≤ v.main j := by
  rw [← length_chunks] at hj
  rw [main_eq (List.getElem?_eq_getElem hj)]
  exact Nat.le_add_right _ _

theorem beside_of_lead {pos : Nat} (h : pos < v.lead.length) : v.Beside pos := by
  rintro j hj rfl
  have hstart := v.start_zero ▸ v.start_le_start (Nat.zero_le j)
  exact Nat.not_lt.2 (Nat.le_trans hstart (start_le_main hj)) h

/-- What stands before an instruction was added. -/
theorem beside_before {pos : Nat} (hstart : v.start i ≤ pos) (hmain : pos < v.main i) :
    v.Beside pos := by
  rintro j hj rfl
  rcases Nat.lt_trichotomy j i with hlt | rfl | hgt
  · have hle := v.start_le_start (Nat.succ_le_of_lt hlt)
    exact absurd (main_lt_start_succ hj) (Nat.not_lt.2 (Nat.le_trans hle hstart))
  · exact Nat.lt_irrefl _ hmain
  · exact Nat.lt_asymm hmain (main_lt_main hgt hj)

/-- So was what stands between an instruction and the start of the next one. -/
theorem beside_behind (hi : i < v.body.code.length) {pos : Nat} (hmain : v.main i < pos)
    (hstart : pos < v.start (i + 1)) : v.Beside pos := by
  rintro j hj rfl
  rcases Nat.lt_trichotomy j i with hlt | rfl | hgt
  · exact Nat.lt_asymm hmain (main_lt_main hlt hi)
  · exact Nat.lt_irrefl _ hmain
  · have hle := v.start_le_start (Nat.succ_le_of_lt hgt)
    exact Nat.not_lt.2 (Nat.le_trans hle (start_le_main hj)) hstart

theorem main_le_main_iff {i j : Nat} (hi : i < v.body.code.length) (hj : j < v.body.code.length) :
    v.main i ≤ v.main j ↔ i ≤ j := by
  constructor
  · intro h
    exact Nat.le_of_not_lt fun hlt => Nat.not_lt.2 h (main_lt_main hlt hi)
  · intro h
    rcases Nat.lt_or_eq_of_le h with hlt | rfl
    · exact Nat.le_of_lt (main_lt_main hlt hj)
    · exact Nat.le_refl _

/-- Every position behind the lead lies in some chunk. -/
theorem exists_start_le {p : Nat} (hlead : v.lead.length ≤ p) (hp : p < v.code.length) :
    ∃ i < v.chunks.length, v.start i ≤ p ∧ p < v.start (i + 1) := by
  have hbelow : ∀ n ≤ v.chunks.length, p < v.start n →
      ∃ i < v.chunks.length, v.start i ≤ p ∧ p < v.start (i + 1) := by
    intro n hn hlt
    induction n with
    | zero => exact absurd (Nat.lt_of_lt_of_le hlt (Nat.le_of_eq v.start_zero)) (Nat.not_lt.2 hlead)
    | succ n ih =>
        by_cases hstart : p < v.start n
        · exact ih (Nat.le_of_succ_le hn) hstart
        · exact ⟨n, hn, Nat.le_of_not_lt hstart, hlt⟩
  refine hbelow _ (Nat.le_refl _) (Nat.lt_of_lt_of_le hp (Nat.le_of_eq ?_))
  rw [start, List.take_length, code, List.length_append]

variable (v) in
/-- What the positions of labels depend on. Windows need a sound body. -/
structure Valid : Prop where
  drawn : v.body.Drawn
  lead : Body.placedIn v.lead = []
  sound : v.windows ≠ [] → v.body.Sound

variable {body' : Body}

/-- There is room for the labels of all windows. -/
theorem room_windows (hv : v.Valid) : v.body.watermark + v.windows.length < UInt32.size := by
  have hwindows := v.plan.length_divertAll_le 0 v.body.nextLabel v.body.code
  have hroom := hv.drawn.room
  rw [Body.outcomes] at hroom
  rw [windows]
  omega

theorem watermark_le (hv : v.Valid) {w : Window} (h : w ∈ v.windows) :
    v.body.watermark ≤ w.label.id := by
  have hmem : w.label ∈ v.windows.map Window.label := List.mem_map_of_mem h
  rw [windows, Plan.labels_divertAll] at hmem
  exact ((Label.mem_successive (Nat.le_of_lt (room_windows hv))).1 hmem).1

theorem nodup_windows (hv : v.Valid) : (v.windows.map Window.label).Nodup := by
  have hroom := room_windows hv
  rw [windows] at hroom ⊢
  rw [Plan.labels_divertAll]
  exact Label.nodup_successive (by omega)

/-- A label of the code stands where its instruction stands. -/
theorem position?_of_old (hv : v.Valid) (hcode : body'.code = v.code) {label : Label}
    (hold : label.id < v.body.watermark) :
    body'.position? label = (v.body.position? label).map v.main := by
  have hbefore : ∀ c ∈ v.chunks,
      label ∉ Body.placedIn (v.style.emit v.body.maxLocals v.slots c.before) := by
    intro c hc hmem
    obtain ⟨w, hw, rfl⟩ := List.mem_map.1 (v.style.mem_placedIn_before _ _ hc hmem)
    have := watermark_le hv hw
    omega
  have hchunks := v.style.go_chunks v.body.maxLocals v.slots v.chunks hbefore v.lead.length
  have hold : Body.position?.go label 0 (v.chunks.map fun c => c.diverted.insn) =
      v.body.position? label := by
    have hinsns : v.chunks.map (fun c => c.diverted.insn) =
        (v.plan.divertAll 0 v.body.nextLabel v.body.code).1.map Diverted.insn := by
      rw [← insns_chunks, List.map_map]
      rfl
    rw [hinsns]
    exact v.plan.go_divertAll label 0 0 v.body.nextLabel v.body.code
  have hlead : Body.position?.go label 0 v.lead = none :=
    Body.position?.go_eq_none (by simp [hv.lead]) 0
  rw [Body.position?, hcode, code, Body.position?.go_append, hlead, Option.or_none, Nat.zero_add]
  exact hchunks.trans (by rw [hold]; rfl)

/-- Woven code places no label twice if the code does not. -/
theorem nodup_code (hv : v.Valid) (hsound : v.body.Sound) : (Body.placedIn v.code).Nodup := by
  rw [List.nodup_iff_count_le_one]
  intro label
  have hchunks := v.style.count_placedIn_chunks_le v.body.maxLocals v.slots v.windows true
    (v.plan.divertAll 0 v.body.nextLabel v.body.code).1 label
  rw [Plan.placedIn_divertAll] at hchunks
  have hwindows := List.nodup_iff_count_le_one.1 (nodup_windows hv) label
  have hplaced := List.nodup_iff_count_le_one.1 hsound.nodup label
  have hdisjoint : (v.windows.map Window.label).count label = 0 ∨
      v.body.placed.count label = 0 := by
    by_cases hmem : label ∈ v.windows.map Window.label
    · obtain ⟨w, hw, rfl⟩ := List.mem_map.1 hmem
      refine .inr (List.count_eq_zero.2 fun hplaced => ?_)
      have hle := watermark_le hv hw
      have hlt := hv.drawn.below _ (Body.mem_placedIn.1 hplaced) w.label List.mem_cons_self
      omega
    · exact .inl (List.count_eq_zero.2 hmem)
  rw [code, Body.placedIn_append, hv.lead, List.nil_append]
  rw [Body.placed] at hplaced hdisjoint
  exact Nat.le_trans hchunks (by omega)

/-- All windows that lead to a label stand before it. -/
theorem before_of_placed (hsound : v.body.Sound) (h : v.chunks[i]? = some c) {placed : Label}
    (hplaced : c.diverted.insn = .label placed) :
    c.before =
      Window.before placed c.reached (v.windows.filter fun w => w.destination = placed) := by
  refine Diverted.before_of_label h hplaced ?_
  rw [Plan.placedIn_divertAll]
  exact hsound.nodup

/-- At its start an instruction stands, or a jump over the windows of a label. -/
theorem start_cases (hv : v.Valid) (h : v.chunks[i]? = some c) (hreached : c.reached = true) :
    v.start i = v.main i ∨
      v.windows ≠ [] ∧ v.start i < v.main i ∧ ∃ placed, c.diverted.insn = .label placed ∧
        v.code[v.start i]? = some (.jump .goto placed) := by
  by_cases hwindows : v.windows = []
  · rw [chunks, hwindows] at h
    have hbefore := Diverted.before_of_no_windows (List.mem_of_getElem? h)
    rw [← hwindows, ← chunks] at h
    exact .inl (by simp [main_eq h, hbefore, emit])
  by_cases hlabel : ∃ placed, c.diverted.insn = .label placed
  · obtain ⟨placed, hplaced⟩ := hlabel
    have hbefore := before_of_placed (hv.sound hwindows) h hplaced
    rw [hreached] at hbefore
    rcases Window.before_cases placed (v.windows.filter fun w => w.destination = placed) with
      hnil | ⟨more, hmore⟩
    · exact .inl (by simp [main_eq h, hbefore, hnil, emit])
    · have hlt : v.start i < v.main i := by
        rw [main_eq h, hbefore, hmore, emit, ProbeStyle.emit_insn, List.length_cons]
        omega
      refine .inr ⟨hwindows, hlt, placed, hplaced, ?_⟩
      rw [← List.head?_drop, drop_start h, Chunk.items, hbefore, hmore]
      rfl
  · have hbefore := Diverted.before_of_other h fun placed hp => hlabel ⟨placed, hp⟩
    exact .inl (by simp [main_eq h, hbefore, emit])

/-- A window stands before its destination. -/
theorem exists_place (hv : v.Valid) (hcode : body'.code = v.code) {w : Window}
    (hw : w ∈ v.windows) :
    ∃ j c pre post, v.body.position? w.destination = some j ∧ v.chunks[j]? = some c ∧
      c.diverted.insn = .label w.destination ∧
      c.before = pre ++ .insn (.label w.label) :: .probe w.site :: post ∧
      (post = [] ∨ ∃ more, post = .insn (.jump .goto w.destination) :: more) ∧
      body'.position? w.label = some (v.start j + (v.emit pre).length) ∧
      v.code.drop (v.start j + (v.emit pre).length) =
        .label w.label :: (v.emit [.probe w.site] ++ (v.emit post ++ v.code.drop (v.main j))) := by
  have hsound := hv.sound (List.ne_nil_of_mem hw)
  obtain ⟨insn, hinsn, htarget⟩ := v.plan.destination_divertAll hw
  obtain ⟨j, hj⟩ := Body.exists_position (hsound.targets insn hinsn _ htarget)
  obtain ⟨c, drawn, hc, hd, -⟩ := exists_chunk (Body.getElem?_position hj)
  have hplaced : c.diverted.insn = .label w.destination := by rw [hd]; rfl
  have hbefore := before_of_placed hsound hc hplaced
  obtain ⟨pre, post, hchain, hpost⟩ := Window.exists_before w.destination c.reached
    (List.mem_filter.2 ⟨hw, by simp⟩ :
      w ∈ v.windows.filter fun other => other.destination = w.destination)
  rw [hchain] at hbefore
  have hemit : v.emit c.before = v.emit pre ++
      .label w.label :: (v.emit [.probe w.site] ++ v.emit post) := by
    rw [hbefore, emit, ProbeStyle.emit_append, ProbeStyle.emit_insn, ProbeStyle.emit_probe]
    rfl
  have hdrop : v.code.drop (v.start j + (v.emit pre).length) =
      .label w.label :: (v.emit [.probe w.site] ++ (v.emit post ++ v.code.drop (v.main j))) := by
    rw [← List.drop_drop, drop_start_eq_main hc, hemit]
    simp only [List.append_assoc, List.drop_left, List.cons_append]
  refine ⟨j, c, pre, post, hj, hc, hplaced, hbefore, hpost, Body.position?_of_nodup ?_ ?_, hdrop⟩
  · rw [Body.placed, hcode]
    exact nodup_code hv hsound
  · rw [hcode, ← List.head?_drop, hdrop]
    rfl

/-- A window is where its label says, and goes on at its destination. -/
theorem exists_window (hv : v.Valid) (hcode : body'.code = v.code) {w : Window}
    (hw : w ∈ v.windows) :
    ∃ j p rest, v.body.position? w.destination = some j ∧ body'.position? w.label = some p ∧
      v.code.drop p = .label w.label :: (v.emit [.probe w.site] ++ rest) ∧ v.start j ≤ p ∧
      (p + 1 + (v.emit [.probe w.site]).length = v.main j ∨
        p + 1 + (v.emit [.probe w.site]).length < v.main j ∧
          ∃ more, rest = .jump .goto w.destination :: more) := by
  obtain ⟨j, c, pre, post, hj, hc, -, hbefore, hpost, hlabel, hdrop⟩ := exists_place hv hcode hw
  have hmain : v.main j = v.start j + (v.emit pre).length + 1 + (v.emit [.probe w.site]).length +
      (v.emit post).length := by
    rw [main_eq hc, hbefore, emit, ProbeStyle.emit_append, ProbeStyle.emit_insn,
      ProbeStyle.emit_probe]
    simp only [List.length_append, List.length_cons, emit]
    omega
  refine ⟨j, v.start j + (v.emit pre).length, _, hj, hlabel, hdrop, Nat.le_add_right _ _, ?_⟩
  rcases hpost with rfl | ⟨more, rfl⟩
  · exact .inl hmain.symm
  · refine .inr ⟨?_, _, rfl⟩
    rw [hmain]
    simp [emit]

end Weave

end BytecodeCoverage
