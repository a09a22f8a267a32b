import BytecodeCoverage.Machine.Execute

/-!
# Running methods

The machine runs static methods of one class with a registry. Calls that have not returned yet
form a stack of frames, so a step is a step of the innermost one. A machine executes a limited
number of instructions in all, whatever it is asked to run; when they are used up, the next
instruction fails.

The class initializer runs once, before the first method.

**Main definitions.**
* `Thread.step`: one instruction.
* `Thread.run`: as many as the budget allows.
* `Machine.invoke`: calling a method with integers.

**Results.**
* `Machine.Thread.budget_run_le`: the number of instructions left never grows.
-/

namespace BytecodeCoverage

namespace Machine

/-- A call under way: the innermost frame, the frames that wait for it, and the world. -/
structure Thread where
  frame : Frame
  callers : List Frame := []
  world : World

/-- What comes of a call: its result, the world, and the number of instructions left. -/
structure Finished where
  result : Except MachineFault (Option Value)
  world : World
  budget : Nat

/-- A call after a step: under way, or at its end. -/
inductive Progress
  | running (thread : Thread)
  | ended (result : Except MachineFault (Option Value)) (world : World)

namespace World

/-- The code of a method of the class. -/
def code (w : World) (name descriptor : String) : Except MachineFault Body :=
  match (w.cls.method? name descriptor).bind Method.body with
  | some body => .ok body
  | none => .error (.noCode (name ++ descriptor))

end World

namespace Thread

/-- Goes on as an instruction of the innermost frame demands. -/
def resume (t : Thread) (world : World) : Outcome → Progress
  | .next f => .running { t with frame := f.next, world }
  | .jump f target =>
      match f.body.position? target with
      | some pos => .running { t with frame := { f with pos }, world }
      | none => .ended (.error (.unknownLabel target)) world
  | .call f name descriptor args =>
      match world.code name descriptor with
      | .ok body =>
          .running { frame := .enter body args, callers := f.next :: t.callers, world }
      | .error fault => .ended (.error fault) world
  | .leave result =>
      match t.callers with
      | [] => .ended (.ok result) world
      | f :: callers => .running { frame := f.pushAny result, callers, world }

/-- Executes one instruction of the innermost frame. -/
def step (t : Thread) (insn : Instruction) : Progress :=
  match insn.execute t.frame t.world with
  | .ok (outcome, world) => t.resume world outcome
  | .error fault => .ended (.error fault) t.world

/-- Runs to the end, with at most `budget` instructions. -/
def run (budget : Nat) (t : Thread) : Finished :=
  match t.frame.current?, budget with
  | none, budget => { result := .error .fellOff, world := t.world, budget }
  | some _, 0 => { result := .error .stepLimit, world := t.world, budget := 0 }
  | some insn, budget + 1 =>
      match t.step insn with
      | .running t => t.run budget
      | .ended result world => { result, world, budget }

/-- A run leaves no more than it was given. -/
theorem budget_run_le (budget : Nat) (t : Thread) : (t.run budget).budget ≤ budget := by
  induction budget generalizing t with
  | zero =>
      unfold run
      cases t.frame.current? <;> simp
  | succ budget ih =>
      unfold run
      cases t.frame.current? with
      | none => simp
      | some insn =>
          cases hstep : t.step insn with
          | running t' => simpa [hstep] using Nat.le_succ_of_le (ih t')
          | ended result world => simp [hstep]

end Thread

end Machine

/-- A machine between two calls. -/
structure Machine where
  world : Machine.World
  /-- How many instructions may still be executed. -/
  budget : Nat
  /-- Whether the class initializer has been started. -/
  initialized : Bool := false

namespace Machine

/-- How many instructions a machine executes at most. -/
def stepLimit : Nat := 100000

/-- A machine for the methods of a class; `keeper` tells its texts from those of other
machines. -/
def start (cls : ClassFile) (registry : Registry) (keeper : Nat) : Machine where
  world := { cls, registry, keeper }
  budget := stepLimit

/-- Runs a method to its end. -/
def call (m : Machine) (name descriptor : String) (args : List Value) :
    Except MachineFault (Option Value) × Machine :=
  match m.world.code name descriptor with
  | .ok body =>
      let ended := Thread.run m.budget { frame := .enter body args, world := m.world }
      (ended.result, { m with world := ended.world, budget := ended.budget })
  | .error fault => (.error fault, m)

/-- Runs the class initializer, if there is one and it has not been started. -/
def startClass (m : Machine) : Except MachineFault Unit × Machine :=
  if m.initialized then (.ok (), m)
  else
    let m := { m with initialized := true }
    match m.world.cls.method? Method.initializerName "()V" with
    | some _ =>
        let (result, m) := m.call Method.initializerName "()V" []
        (result.map fun _ => (), m)
    | none => (.ok (), m)

/-- A result as the caller gets it: an integer or nothing. -/
def integerResult : Option Value → Except MachineFault (Option Int32)
  | none => .ok none
  | some (.int n) => .ok (some n)
  | some found => .error (.notInteger found)

/-- Calls a method with integers; the first call starts the class initializer. -/
def invoke (m : Machine) (name descriptor : String) (args : List Int32) :
    Except MachineFault (Option Int32) × Machine :=
  match m.startClass with
  | (.error fault, m) => (.error fault, m)
  | (.ok (), m) =>
      let (result, m) := m.call name descriptor (args.map .int)
      (result.bind integerResult, m)

end Machine

end BytecodeCoverage
