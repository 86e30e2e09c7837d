import Blackgeorge.Desk.Store

/-! The nodes of a workflow. Executing one gives a list of step results, in which a
paused step carries the continuations that finish what its pause left undone. -/

namespace Blackgeorge.Workflow

open Data Program Desk

/-! ### Results and continuations -/

mutual

/-- `StepOutput`: a bare report, or a `StepResult` of a report, the runner's state if it paused,
and what follows. -/
inductive StepOutput where
  | bare (held : Held)
  | result (held : Held) (state : Option StepState) (continuations : List Continuation)

/-- `SequenceContinuation`, `LoopContinuation` and `OutputContinuation`, with the position
their steps run at. -/
inductive Continuation where
  | sequence (steps : List Node) (pos : Pos) (first : ℕ)
  | loop (loop : Loop) (startIndex : ℕ) (previousName : Option String) (pos : Pos) (round : ℕ)
  | outputs (outputs : List StepOutput)

end

namespace StepOutput

def held : StepOutput → Held
  | bare held => held
  | result held _ _ => held

def state : StepOutput → Option StepState
  | bare _ => none
  | result _ state _ => state

def continuations : StepOutput → List Continuation
  | bare _ => []
  | result _ _ continuations => continuations

/-- `StepResult(item, None)` of a bare report. -/
def normalized (output : StepOutput) : StepOutput :=
  result output.held output.state output.continuations

def report (output : StepOutput) : Report := output.held.report

def status (output : StepOutput) : RunStatus := output.report.status

end StepOutput

def shouldStop (outputs : List StepOutput) : Bool :=
  outputs.any fun o => o.status = .paused || o.status = .failed

/-- The outputs behind a paused one, if there are any, wait in a continuation. -/
def parked (tail : List StepOutput) : List Continuation :=
  if tail.isEmpty then [] else [.outputs tail]

/-- The part of `defer_after_pause` for outputs without a failure: the first paused one
takes over the outputs behind it and the continuations. -/
def deferPaused (continuations : List Continuation) : List StepOutput → List StepOutput
  | [] => []
  | output :: tail =>
    if output.status = .paused then
      [.result output.held output.state
        (output.continuations ++ (parked tail ++ continuations))]
    else output :: deferPaused continuations tail

def deferAfterPause (outputs : List StepOutput) (continuations : List Continuation) :
    List StepOutput :=
  let failures := outputs.filter fun o => o.status = .failed
  if failures.isEmpty then deferPaused continuations outputs else failures

/-- The outputs of a sequence that stops at a step, with what is left of the sequence. -/
def stopOutputs (outputs stepOutputs : List StepOutput) (continuations : List Continuation) :
    List StepOutput :=
  if stepOutputs.any fun o => o.status = .paused then deferAfterPause outputs continuations
  else outputs

/-! ### The context -/

section

variable (context : Ref)

def getContext : Prog Context := Prog.get fun w => w.contexts context

def modifyContext (f : Context → Context) : Prog Unit :=
  Prog.modify fun w => { w with contexts := Function.update w.contexts context (f (w.contexts context)) }

/-- `add_output`: a report object is added once. -/
def Context.addOutput (output : Held) (c : Context) : Context :=
  if c.outputs.any fun o => o.ref = output.ref then c else { c with outputs := c.outputs ++ [output] }

def Context.setLoopIteration (name : String) (iteration : ℕ) (c : Context) : Context :=
  { c with loopIterations := Function.update c.loopIterations name iteration }

/-- `publish_outputs`. -/
def publishOutputs (outputs : List StepOutput) : Prog Unit :=
  modifyContext context fun c =>
    outputs.foldl (fun c o => if o.status = .completed then Context.addOutput o.held c else c) c

/-- A callback's result; it leaves its artifacts in the context. -/
def applyCallback {α : Type} : Callback α → Prog α
  | .error e => Prog.raise e
  | .ok (a, artifacts) => do
    modifyContext context fun c => { c with artifacts := artifacts }
    pure a

def evalPredicate (fn : FnId) (pos : Pos) : Prog Bool := do
  let c ← getContext context
  applyCallback context (← Prog.ask (.predicate fn pos c))

def evalSelector (fn : FnId) (pos : Pos) : Prog String := do
  let c ← getContext context
  applyCallback context (← Prog.ask (.selector fn pos c))

def evalStop (fn : FnId) (pos : Pos) : Prog Bool := do
  let c ← getContext context
  applyCallback context (← Prog.ask (.stop fn pos c))

/-- The job of a step: its builder's, or the context's. -/
def stepJob (jobBuilder : Option FnId) (pos : Pos) : Prog Job := do
  let c ← getContext context
  match jobBuilder with
  | none => pure c.job
  | some fn => applyCallback context (← Prog.ask (.jobBuilder fn pos c))

/-- The head of a loop's `while`: whether an iteration begins, which is counted unless it
is started already. -/
def beginIteration (name : String) (maxIterations : ℕ) (started : Bool) : Prog Bool :=
  Coroutine.Coro.exchange (S := sig)
    (fun w => started || decide ((w.contexts context).loopIterations name < maxIterations))
    fun w =>
      let c := w.contexts context
      if !started && decide (c.loopIterations name < maxIterations) then
        { w with
          contexts := Function.update w.contexts context
            (Context.setLoopIteration name (c.loopIterations name + 1) c) }
      else w

end

/-! ### Running a step -/

section

variable (desk : DeskSettings) (api : RunnerApi) (flow : Flow) (context : Ref)

/-- `Flow._make_run_config`: under the run id and totals the flow has at this moment. -/
def flowRunConfig (stream : FlowFields → Bool) : Prog RunConfig := do
  let fields ← Prog.get fun w => w.flows flow.id
  pure (makeRunConfig desk (.flow flow.id) fields.runId fields.usageTotals (stream fields))

/-- `Flow.run_runner`. -/
def runRunner (runner : Runner) (job : Job) (pos : Pos) : Prog (Held × Option StepState) := do
  let config ← flowRunConfig desk flow FlowFields.stream
  registerRunner runner
  let job ← prepareJob desk runner job
  let (report, state) ← api.arun runner config job pos
  recordMemory (some runner) report
  let ref ← Prog.newRef
  pure (⟨ref, pos, report⟩, state)

def RunStatus.text : RunStatus → String
  | .completed => "completed"
  | .paused => "paused"
  | .failed => "failed"
  | .running => "running"

/-- `Step.execute`. -/
def executeStep (runner : Runner) (name : String) (jobBuilder : Option FnId) (pos : Pos) :
    Prog (List StepOutput) := do
  let job ← stepJob context jobBuilder pos
  flowEmit flow.id "step.started" name []
  let (held, state) ← runRunner desk api flow runner job pos
  let paused := state.isSome && held.report.status = .paused
  flowEmit flow.id (if paused then "step.paused" else "step.completed") name
    [("status", .str (RunStatus.text held.report.status))]
  pure [.result held state []]

/-! ### Executing a node -/

/-- How one pass over a loop's steps ends: at its end, or at a step that stops it. -/
inductive Pass where
  | through (outputs : List StepOutput)
  | stopped (outputs : List StepOutput)

/-- `Loop.run_iterations` with its `for` loop as an argument. The first number bounds the
rounds that the run goes on for; `started` says that an iteration is already counted. -/
def iterate (loop : Loop) (pos : Pos) (pass : ℕ → ℕ → List StepOutput → Prog Pass) :
    ℕ → ℕ → ℕ → Bool → List StepOutput → Prog (List StepOutput)
  | 0, _, _, _, _ => Prog.raise cancelledError
  | fuel + 1, startIndex, round, started, outputs => do
    if ← beginIteration context loop.name loop.maxIterations started then
      match ← pass startIndex round outputs with
      | .stopped outputs => pure outputs
      | .through outputs =>
        if ← evalStop context loop.stop (pos ++ [.iter round]) then pure outputs
        else iterate loop pos pass fuel 0 (round + 1) false outputs
    else pure outputs

mutual

/-- `execute` of a node at a position. -/
def execute : Node → Pos → Prog (List StepOutput)
  | .step _ runner name jobBuilder, pos =>
    executeStep desk api flow context runner name jobBuilder pos
  | .parallel _ steps, pos => do
    let groups ← Prog.gather (executeBranches steps pos 0)
    pure (deferAfterPause groups.flatten [])
  | .condition _ _ predicate ifTrue ifFalse, pos => do
    if ← evalPredicate context predicate pos then executeSequence ifTrue pos 0 []
    else executeSequence ifFalse pos 0 []
  | .router _ selector routes, pos => do
    let route ← evalSelector context selector pos
    executeRoute routes route pos
  | .loop id cls name explicitName maxIterations stop steps, pos => do
    modifyContext context (Context.setLoopIteration name 0)
    let fuel ← Prog.ask .rounds
    iterate context ⟨id, cls, name, explicitName, maxIterations, stop, steps⟩ pos
      (fun startIndex round outputs => executePass
        (fun index => .loop ⟨id, cls, name, explicitName, maxIterations, stop, steps⟩ index none
          pos round)
        steps startIndex (pos ++ [.iter round]) 0 outputs)
      fuel 0 1 false []

/-- The branches of a parallel group. -/
def executeBranches : List Node → Pos → ℕ → List (Prog (List StepOutput))
  | [], _, _ => []
  | step :: steps, pos, i => execute step (pos ++ [.par i]) :: executeBranches steps pos (i + 1)

/-- `execute_sequence` from the step with number `i` on. -/
def executeSequence : List Node → Pos → ℕ → List StepOutput → Prog (List StepOutput)
  | [], _, _, outputs => pure outputs
  | step :: steps, pos, i, outputs => do
    let stepOutputs ← execute step (pos ++ [.seq i])
    publishOutputs context stepOutputs
    if shouldStop stepOutputs then
      pure (stopOutputs (outputs ++ stepOutputs) stepOutputs
        (if steps.isEmpty then [] else [.sequence steps pos (i + 1)]))
    else executeSequence steps pos (i + 1) (outputs ++ stepOutputs)

/-- The route a router selects, or nothing. -/
def executeRoute : List (String × List Node) → String → Pos → Prog (List StepOutput)
  | [], _, _ => pure []
  | (name, steps) :: routes, route, pos =>
    if name = route then executeSequence steps pos 0 [] else executeRoute routes route pos

/-- The `for` loop of `run_iterations`: the steps behind the first `skip` ones, the next
of which has the number `i`. -/
def executePass (continuation : ℕ → Continuation) :
    List Node → ℕ → Pos → ℕ → List StepOutput → Prog Pass
  | [], _, _, _, outputs => pure (.through outputs)
  | _ :: steps, skip + 1, pos, i, outputs =>
    executePass continuation steps skip pos (i + 1) outputs
  | step :: steps, 0, pos, i, outputs => do
    let stepOutputs ← execute step (pos ++ [.seq i])
    publishOutputs context stepOutputs
    if shouldStop stepOutputs then
      pure (.stopped (stopOutputs (outputs ++ stepOutputs) stepOutputs [continuation (i + 1)]))
    else executePass continuation steps 0 pos (i + 1) (outputs ++ stepOutputs)

end

/-- A loop whose name has changed since its pause takes over the counter. -/
def takeOverCounter (loop : Loop) (previousName : Option String) : Prog Unit :=
  match previousName.filter (· ≠ loop.name) with
  | some previous =>
    modifyContext context fun c => Context.setLoopIteration loop.name (c.loopIterations previous) c
  | none => pure ()

/-- `LoopContinuation.__call__`. -/
def resumeLoop (loop : Loop) (startIndex : ℕ) (previousName : Option String) (pos : Pos)
    (round : ℕ) : Prog (List StepOutput) := do
  takeOverCounter context loop previousName
  let fuel ← Prog.ask .rounds
  iterate context loop pos
    (fun startIndex round outputs => executePass desk api flow context
      (fun index => .loop loop index none pos round)
      loop.steps startIndex (pos ++ [.iter round]) 0 outputs)
    fuel startIndex round true []

def runContinuation : Continuation → Prog (List StepOutput)
  | .sequence steps pos first => executeSequence desk api flow context steps pos first []
  | .loop loop startIndex previousName pos round =>
    resumeLoop desk api flow context loop startIndex previousName pos round
  | .outputs outputs => pure outputs

end

end Blackgeorge.Workflow
