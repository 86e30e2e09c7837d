import Blackgeorge.Workflow.Nodes

/-! The graph of a flow: the path of every node in it, its signature, and the stored form
of continuations, in which nodes are named by their paths. -/

namespace Blackgeorge.Workflow

open Data Program Desk

/-! ### Paths -/

mutual

/-- `executable_entries` from the step with number `i` on. -/
def entries : List Node → StepPath → ℕ → List (StepPath × Node)
  | [], _, _ => []
  | step :: steps, path, i =>
    (path ++ [.int i], step) :: (childEntries step (path ++ [.int i]) ++ entries steps path (i + 1))

def childEntries : Node → StepPath → List (StepPath × Node)
  | .step .., _ => []
  | .parallel _ steps, path => entries steps (path ++ [.str "parallel"]) 0
  | .condition _ _ _ ifTrue ifFalse, path =>
    entries ifTrue (path ++ [.str "true"]) 0 ++ entries ifFalse (path ++ [.str "false"]) 0
  | .router _ _ routes, path => routeEntries routes (path ++ [.str "route"])
  | .loop _ _ _ _ _ _ steps, path => entries steps (path ++ [.str "loop"]) 0

def routeEntries : List (String × List Node) → StepPath → List (StepPath × Node)
  | [], _ => []
  | (route, steps) :: routes, path =>
    entries steps (path ++ [.str route]) 0 ++ routeEntries routes path

end

/-- `path_for`: the one path of a node object. -/
def pathFor (steps : List Node) (id : ℕ) : Except Exn StepPath :=
  match (entries steps [] 0).filter (·.2.id = id) with
  | [] => .error (valueError "Workflow continuation references a step outside the flow")
  | [entry] => .ok entry.1
  | _ => .error (valueError "Workflow step instances cannot be reused across continuation paths")

/-- `resolve`. -/
def resolve (steps : List Node) (path : StepPath) : Except Exn Node :=
  match (entries steps [] 0).find? (·.1 = path) with
  | some entry => .ok entry.2
  | none => .error (valueError "Workflow continuation path does not exist in this flow")

/-! ### The signature -/

def nodesModule : String := "blackgeorge.workflow.nodes."

def Runner.typeName : Runner → String
  | .worker _ => "blackgeorge.worker.Worker"
  | .workforce _ => "blackgeorge.workforce.Workforce"

mutual

/-- `executable_shape`. -/
def shape : Node → Value
  | .step _ runner name _ =>
    .dict [("type", .str (nodesModule ++ "Step")), ("name", .str name),
      ("runner_type", .str (Runner.typeName runner)), ("runner_name", .str runner.name)]
  | .parallel _ steps =>
    .dict [("type", .str (nodesModule ++ "Parallel")), ("steps", .list (shapes steps))]
  | .condition _ cls _ ifTrue ifFalse =>
    .dict [("type", .str cls), ("true", .list (shapes ifTrue)), ("false", .list (shapes ifFalse))]
  | .router _ _ routes =>
    .dict [("type", .str (nodesModule ++ "Router")), ("routes", .dict (routeShapes routes))]
  | .loop _ cls name explicitName maxIterations _ steps =>
    .dict [("type", .str cls), ("name", if explicitName then .str name else .none),
      ("max_iterations", .int maxIterations), ("steps", .list (shapes steps))]

def shapes : List Node → List Value
  | [] => []
  | step :: steps => shape step :: shapes steps

def routeShapes : List (String × List Node) → List (String × Value)
  | [] => []
  | (route, steps) :: routes => (route, .list (shapes steps)) :: routeShapes routes

end

/-- `signature`. The encoded shape stands for its digest. -/
def signature (steps : List Node) : String :=
  (Value.list (shapes steps)).sortKeys.write ⟨",", ":", true⟩

/-! ### Storing continuations -/

section

variable (steps : List Node)

mutual

/-- `serialize_continuation`. -/
def serialize : Continuation → Except Exn StoredContinuation
  | .sequence nodes pos first => do
    pure (.sequence (← nodes.mapM fun node => pathFor steps node.id) pos first)
  | .loop loop startIndex _ pos round => do
    pure (.loop (← pathFor steps loop.id) startIndex loop.name pos round)
  | .outputs outputs => do pure (.outputs (← serializeOutputs outputs))

def serializeOutputs : List StepOutput →
    Except Exn (List (Pos × Report × Option StepState × List StoredContinuation))
  | [] => pure []
  | .bare held :: outputs => do
    let report ← orSerializationError held.report.persisted
    let outputs ← serializeOutputs outputs
    pure ((held.pos, report, none, []) :: outputs)
  | .result held state continuations :: outputs => do
    let report ← orSerializationError held.report.persisted
    let state ← orSerializationError (state.mapM StepState.persisted)
    let continuations ← serializeAll continuations
    let outputs ← serializeOutputs outputs
    pure ((held.pos, report, state, continuations) :: outputs)

/-- `serialize_continuations`. -/
def serializeAll : List Continuation → Except Exn (List StoredContinuation)
  | [] => pure []
  | continuation :: continuations => do
    let stored ← serialize continuation
    let rest ← serializeAll continuations
    pure (stored :: rest)

end

/-! ### Restoring them -/

def restoredLoop (node : Node) (startIndex : ℕ) (loopName : String) (pos : Pos) (round : ℕ) :
    Except Exn Continuation :=
  match node.loop? with
  | none => .error (valueError "Invalid loop continuation")
  | some loop =>
    if loop.steps.length < startIndex then
      .error (valueError "Invalid loop continuation index")
    else .ok (.loop loop startIndex (some loopName) pos round)

mutual

/-- `restore_continuation`. Every restored report is a new object, numbered from the
second argument on. -/
def restore : StoredContinuation → Ref → Except Exn (Continuation × Ref)
  | .sequence paths pos first, ref => do
    let nodes ← paths.mapM (resolve steps)
    pure (.sequence nodes pos first, ref)
  | .loop path startIndex loopName pos round, ref => do
    let node ← resolve steps path
    pure (← restoredLoop node startIndex loopName pos round, ref)
  | .outputs outputs, ref => do
    let (outputs, ref) ← restoreOutputs outputs ref
    pure (.outputs outputs, ref)

def restoreOutputs : List (Pos × Report × Option StepState × List StoredContinuation) → Ref →
    Except Exn (List StepOutput × Ref)
  | [], ref => pure ([], ref)
  | (pos, report, state, continuations) :: outputs, ref => do
    let (continuations, next) ← restoreAll continuations (ref + 1)
    let (outputs, next) ← restoreOutputs outputs next
    pure (.result ⟨ref, pos, report⟩ state continuations :: outputs, next)

/-- `restore_continuations`. -/
def restoreAll : List StoredContinuation → Ref → Except Exn (List Continuation × Ref)
  | [], ref => pure ([], ref)
  | stored :: rest, ref => do
    let (continuation, ref) ← restore stored ref
    let (continuations, ref) ← restoreAll rest ref
    pure (continuation :: continuations, ref)

end

end

end Blackgeorge.Workflow
