import BytecodeCoverage.Probe.Site

/-!
# Splitting branches

Every surviving outcome of a branch gets a window of its own, a stretch of code that runs exactly
when that outcome is chosen. The outcome "not taken" has the place right after its jump. Every
other outcome is diverted to a fresh label, which is placed right before the label that the
outcome led to:

    goto L             only if the code before could fall through
    T1: probe          first outcome that led to L
    goto L
    T2: probe          second outcome that led to L
    L: ...

The last window falls into its destination and every other one jumps there. The labels of the
code stay where they are, so protected ranges and branches that are not split are as before.
A surviving line marker has its probe right behind it.

**Main definitions.**
* `Plan`: what of a method is to be probed.
* `Diverted`, `Window`: the instructions with their outcomes diverted, and the windows needed.
* `Body.split`: the split code.
-/

namespace BytecodeCoverage

/-- An element of split code. -/
inductive Item
  | insn (insn : Instruction)
  /-- The place of a probe. -/
  | probe (site : ProbeSite)

/-- The code of a method with places for probes. -/
structure SplitBody where
  items : List Item
  tryRanges : List TryRange
  maxStack : UInt16
  maxLocals : UInt16

/-- The sites of the places for probes, in code order. -/
def SplitBody.probes (split : SplitBody) : List ProbeSite :=
  split.items.filterMap fun
    | .insn _ => none
    | .probe site => some site

/-- What of a method is to be probed: positions of markers and of jumps, and switches. -/
structure Plan where
  lines : List Nat
  jumps : List Nat
  switches : SortedMap Nat SwitchSite

/-- Everything that a scan kept. Of several switches at one position the last counts. -/
def Plan.ofScan (scan : Scan) : Plan where
  lines := scan.keptMarkers.map Marker.index
  jumps := scan.survivingJumps.map JumpSite.index
  switches := .ofList (scan.survivingSwitches.map fun site => (site.index, site))

/-- A stretch of code for one outcome: its label, and the label where the outcome led. -/
structure Window where
  destination : Label
  label : Label
  site : ProbeSite

/-- An instruction whose surviving outcomes are diverted, with the probe that follows it. -/
structure Diverted where
  insn : Instruction
  probe : Option ProbeSite := none

namespace Window

/-- Windows for the targets of the switch at `index` from place `pos` on; their labels are those
from `fresh` on. -/
def ofTargets (index : Nat) : (pos : Nat) → (fresh : UInt32) → List Label → List Window
  | _, _, [] => []
  | pos, fresh, target :: rest =>
      { destination := target, label := ⟨fresh⟩, site := .case index pos } ::
        ofTargets index (pos + 1) (fresh + 1) rest

/-- Windows for the outcomes of a switch: the targets, and then the default unless it is
retracted. -/
def ofSwitch (site : SwitchSite) (index : Nat) (fresh : UInt32) (otherwise : Label)
    (targets : List Label) : List Window :=
  ofTargets index 0 fresh targets ++
    if site.defaultRetracted then []
    else [{ destination := otherwise, label := ⟨fresh + targets.length⟩, site := .otherwise index }]

/-- The labels to which the targets of a switch are diverted. -/
def divertedTargets (fresh : UInt32) (targets : List Label) : List Label :=
  Label.successive fresh targets.length

/-- The label to which the default of a switch is diverted, if it is. -/
def divertedDefault (site : SwitchSite) (fresh : UInt32) (otherwise : Label)
    (targets : List Label) : Label :=
  if site.defaultRetracted then otherwise else ⟨fresh + targets.length⟩

end Window

namespace Plan

/-- Diverts the instruction at `index`; the windows' labels are those from `fresh` on. -/
def divert (plan : Plan) (index : Nat) (fresh : UInt32) (insn : Instruction) :
    Diverted × List Window :=
  match insn with
  | .line number =>
      ({ insn, probe := if plan.lines.contains index then some (.line number) else none }, [])
  | .jump op target =>
      if plan.jumps.contains index then
        ({ insn := .jump op ⟨fresh⟩, probe := some (.notTaken index) },
          [{ destination := target, label := ⟨fresh⟩, site := .taken index }])
      else ({ insn }, [])
  | .tableSwitch low high otherwise targets =>
      match plan.switches.get? index with
      | some site =>
          ({ insn := .tableSwitch low high (Window.divertedDefault site fresh otherwise targets)
              (Window.divertedTargets fresh targets) },
            Window.ofSwitch site index fresh otherwise targets)
      | none => ({ insn }, [])
  | .lookupSwitch otherwise keys targets =>
      match plan.switches.get? index with
      | some site =>
          ({ insn := .lookupSwitch (Window.divertedDefault site fresh otherwise targets) keys
              (Window.divertedTargets fresh targets) },
            Window.ofSwitch site index fresh otherwise targets)
      | none => ({ insn }, [])
  | insn => ({ insn }, [])

/-- Diverts the instructions from `index` on; each takes up the labels where the one before
stopped. -/
def divertAll (plan : Plan) :
    (index : Nat) → (fresh : UInt32) → List Instruction → List Diverted × List Window
  | _, _, [] => ([], [])
  | index, fresh, insn :: rest =>
      let (diverted, windows) := plan.divert index fresh insn
      let (others, more) := plan.divertAll (index + 1) (fresh + windows.length) rest
      (diverted :: others, windows ++ more)

/-- Every instruction is kept or diverted, and none is added. -/
theorem length_divertAll (plan : Plan) (index : Nat) (fresh : UInt32) (code : List Instruction) :
    (plan.divertAll index fresh code).1.length = code.length := by
  induction code generalizing index fresh with
  | nil => rfl
  | cons insn rest ih => simp [divertAll, ih]

end Plan

namespace Window

/-- Every target of a switch has its window. -/
theorem length_ofTargets (index pos : Nat) (fresh : UInt32) (targets : List Label) :
    (ofTargets index pos fresh targets).length = targets.length := by
  induction targets generalizing pos fresh with
  | nil => rfl
  | cons target rest ih => simp [ofTargets, ih]

/-- The windows of one destination, one after the other; all but the last jump to it. -/
def chain (destination : Label) : List Window → List Item
  | [] => []
  | [w] => [.insn (.label w.label), .probe w.site]
  | w :: rest =>
      .insn (.label w.label) :: .probe w.site :: .insn (.jump .goto destination) ::
        chain destination rest

/-- What stands before a placed label: its windows, and a jump over them for code that falls
through to the label. -/
def before (destination : Label) (reachable : Bool) : List Window → List Item
  | [] => []
  | w :: rest =>
      (if reachable then [.insn (.jump .goto destination)] else []) ++
        chain destination (w :: rest)

end Window

namespace Diverted

/-- The instruction and its probe. -/
def items (d : Diverted) : List Item :=
  .insn d.insn :: (d.probe.map Item.probe).toList

/-- Whether control can arrive behind the instruction by falling through; line markers do not
matter. -/
def passes (reachable : Bool) (d : Diverted) : Bool :=
  match d.insn with
  | .label _ => true
  | .line _ => reachable
  | insn => insn.fallsThrough

/-- Writes the instructions out with the windows before the labels they belong to. The windows
of a label stand before its first placement. -/
def writeOut (windows : List Window) (reachable : Bool) : List Diverted → List Item
  | [] => []
  | d :: rest =>
      match d.insn with
      | .label placed =>
          Window.before placed reachable (windows.filter fun w => w.destination = placed) ++
            (d.items ++
              writeOut (windows.filter fun w => w.destination ≠ placed) (d.passes reachable) rest)
      | _ => d.items ++ writeOut windows (d.passes reachable) rest

end Diverted

/-- Splits the surviving branches of a body and marks the places of probes. -/
def Body.split (body : Body) (scan : Scan) : SplitBody :=
  let (diverted, windows) := (Plan.ofScan scan).divertAll 0 body.nextLabel body.code
  { items := Diverted.writeOut windows true diverted
    tryRanges := body.tryRanges
    maxStack := body.maxStack
    maxLocals := body.maxLocals }

end BytecodeCoverage
