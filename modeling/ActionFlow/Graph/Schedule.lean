import ActionFlow.Graph.Basic

/-!
# Schedules

Actions run in waves. Starting from the seed flows, every action whose flows are all available
joins the current wave; a gate joins as soon as one of its inputs is. What a wave produces becomes
available after the whole wave, so the actions of a wave never wait for one another.
-/

namespace ActionFlow

/-- The waves in which the actions of a graph run, first wave first. -/
structure Schedule where
  waves : List (List ActionId)
deriving DecidableEq, Inhabited

/-- Why a graph cannot be scheduled. -/
inductive SchedulingError where
  /-- Actions wait for flows that nothing produces. -/
  | orphanedFlows (flows : List FlowId) (actions : List ActionId)
  | cycle (actions : List ActionId)
deriving DecidableEq, Inhabited

/-- The wording of a scheduling error. -/
def SchedulingError.message : SchedulingError → String
  | .orphanedFlows flows actions =>
    "Flows [" ++ ", ".intercalate (flows.map FlowId.name) ++ "] have no producer, so actions ["
      ++ ", ".intercalate (actions.map ActionId.name) ++ "] can never run"
  | .cycle actions =>
    "Actions [" ++ ", ".intercalate (actions.map ActionId.name)
      ++ "] depend on each other in a cycle"

namespace Schedule

/-- The schedule without waves. -/
def empty : Schedule := ⟨[]⟩

/-- The actions of a wave, the first wave having the number one. -/
def wave? (s : Schedule) : Nat → Option (List ActionId)
  | 0 => none
  | n + 1 => s.waves[n]?

/-- The number of the wave an action is in. -/
def waveOf? (s : Schedule) (a : ActionId) : Option Nat :=
  (s.waves.findIdx? (·.contains a)).map (· + 1)

/-- How many waves there are. -/
def length (s : Schedule) : Nat := s.waves.length

/-- How many actions are scheduled. -/
def actionCount (s : Schedule) : Nat := s.waves.flatten.length

/-- The waves with their numbers. -/
def numbered (s : Schedule) : List (Nat × List ActionId) :=
  s.waves.zipIdx.map fun w => (w.2 + 1, w.1)

end Schedule

/-- Whether an action can run once the given flows are available. -/
def Action.isReady (a : Action) (available : List FlowId) : Bool :=
  if a.isGate then
    a.control.all available.contains && a.kind.inputs.any available.contains
  else
    a.requiredFlows.all available.contains

namespace Graph

/-- The actions that can run once the given flows are available. -/
def ready (available : List FlowId) (remaining : List Action) : List Action :=
  remaining.filter fun a => a.isReady available

/-- The actions that have to wait for further flows. -/
def waiting (available : List FlowId) (remaining : List Action) : List Action :=
  remaining.filter fun a => !a.isReady available

theorem length_waiting_lt {available : List FlowId} {remaining : List Action}
    (h : ready available remaining ≠ []) :
    (waiting available remaining).length < remaining.length := by
  obtain ⟨a, ha⟩ := List.exists_mem_of_ne_nil _ h
  obtain ⟨hmem, hready⟩ := List.mem_filter.1 ha
  exact List.length_filter_lt_length_iff_exists.2 ⟨a, hmem, by simp [hready]⟩

/-- Splits the remaining actions into waves, as long as some action is ready. Returns the waves
and the actions that never become ready. -/
def assignWaves (available : List FlowId) (remaining : List Action) :
    List (List Action) × List Action :=
  if _h : ready available remaining = [] then
    ([], remaining)
  else
    let wave := ready available remaining
    let later := assignWaves (available ++ wave.flatMap fun a => a.kind.outputs)
      (waiting available remaining)
    (wave :: later.1, later.2)
termination_by remaining.length
decreasing_by exact length_waiting_lt _h

/-- The flows without a source among those that actions wait for. -/
def orphans (g : Graph) (stuck : List Action) : List FlowId :=
  let required := stuck.flatMap Action.requiredFlows
  (g.flows.filter fun f => f.source.isNone && required.contains f.id).map (·.id)

/-- Assigns every action of a graph to the earliest wave it can run in. -/
def schedule (g : Graph) : Except SchedulingError Schedule :=
  match assignWaves (g.seeds.map (·.id)) g.actions with
  | (waves, []) => .ok ⟨waves.map fun wave => wave.map (·.id)⟩
  | (_, stuck) =>
    match g.orphans stuck with
    | [] => .error (.cycle (stuck.map (·.id)))
    | flows => .error (.orphanedFlows flows (stuck.map (·.id)))

end Graph

/-! ## A schedule as a tree -/

/-- What is told about a kind of action beside its name. -/
def ActionKind.detail : ActionKind → String
  | .traverse _ _ path _ _ => " " ++ path
  | .select _ _ condition | .restrict _ _ condition => " (" ++ condition.text ++ ")"
  | .read _ attr _ | .extract _ attr _ | .write _ attr _ => " ." ++ attr
  | .signal _ event _ _ _ => " " ++ event
  | .methodCall _ method _ _ _ => " " ++ method
  | .externalCall _ operation _ _ => " " ++ operation
  | .typeAction _ operation _ _ => " " ++ operation
  | .set op _ _ _ => " " ++ op.symbol
  | .project .. | .rename .. | .create .. | .delete .. | .cardinality .. | .cast .. | .gate ..
  | .pass .. | .iterator .. | .switch .. => ""

/-- An action on one line: its kind and what it consumes and produces. -/
def ActionKind.render (k : ActionKind) : String :=
  k.name ++ k.detail ++ " [" ++ ", ".intercalate (k.inputs.map FlowId.name) ++ "] -> ["
    ++ ", ".intercalate (k.outputs.map FlowId.name) ++ "]"

namespace Schedule

/-- The line of an action below a branch. -/
def branchLine (g : Graph) (branch : String) (id : ActionId) : String :=
  let a := g.action id
  let condition := (a.control.map fun c => " if " ++ c.name).getD ""
  branch ++ id.name ++ " " ++ a.kind.render ++ condition ++ "\n"

/-- The lines of a wave below its heading, the last branch closing the tree. -/
def branchLines (g : Graph) : List ActionId → List String
  | [] => []
  | [last] => [branchLine g "└── " last]
  | id :: rest => branchLine g "├── " id :: branchLines g rest

/-- A schedule as a tree of waves and actions. -/
def render (s : Schedule) (g : Graph) : String :=
  String.join (s.numbered.flatMap fun w => s!"Wave {w.1}\n" :: branchLines g w.2)

end Schedule

end ActionFlow
