import Blackgeorge.Data.Records

/-! The two executions of a tool, `execute_tool` and `aexecute_tool`. What the hooks, the
validation of the input and the attempts do is given; every attempt ends before the timeout
and nothing is cancelled. An exception that crosses a coroutine or a future on its way may
become another one, and a wait that blocks the thread is refused when it is too long for the
clock of the platform. -/

namespace Blackgeorge.Tools

open Data

/-! ### Exceptions of hooks and callables -/

/-- What tells the exceptions of user code apart. The three errors of tools carry the name
of their class; a `TimeoutError` that is of no subclass carries the text of one made anew
from its arguments. -/
inductive RaisedKind where
  | toolError (typeName : String)
  | timeout (remade : Option String)
  | stopIteration
  | futuresCancelled
  | other
  deriving DecidableEq

/-- An `Exception`: its kind and its `str`. -/
structure Raised where
  kind : RaisedKind
  text : String
  deriving DecidableEq

def coroutineText : String := "coroutine raised StopIteration"

def futureText : String :=
  "StopIteration interacts badly with generators and cannot be raised into a Future"

/-- What comes out of a coroutine for an exception raised in it. -/
def Raised.outOfCoroutine (e : Raised) : Raised :=
  if e.kind = .stopIteration then ⟨.other, coroutineText⟩ else e

/-- What `asyncio.to_thread` raises for an exception of the function: an exception again, or
a cancellation. -/
def Raised.outOfThread (e : Raised) : Except Exn Raised :=
  match e.kind with
  | .stopIteration => .ok ⟨.other, futureText⟩
  | .futuresCancelled => .error ⟨.cancelled, "CancelledError", e.text⟩
  | .timeout (some remade) => .ok ⟨e.kind, remade⟩
  | _ => .ok e

/-! ### Waiting -/

/-- A float that counts seconds and is not below zero. -/
inductive Seconds where
  | finite (q : ℚ)
  | infinite
  | nan
  deriving DecidableEq

/-- `not seconds < 0`: no comparison holds of what is no number. -/
def Seconds.NotNegative : Seconds → Prop
  | finite q => 0 ≤ q
  | infinite | nan => True

/-- A timeout above zero, with its text. Nothing ends before one that is no number. -/
inductive Timeout where
  | seconds (q : ℚ) (positive : 0 < q) (text : String)
  | unbounded

def Timeout.text : Timeout → String
  | seconds _ _ text => text
  | unbounded => "inf"

/-- The platform: the longest wait of a thread, in seconds, and the text of the error on a
longer one; and what `asyncio.sleep` makes of a delay that is no number, an error from
Python 3.13 on. -/
structure Clock where
  longest : ℚ
  longest_lt : longest < 2 ^ 1024
  tooLong : String
  awaitsNan : Except Exn Unit

def Clock.overflow (clock : Clock) : Exn := ⟨.other, "OverflowError", clock.tooLong⟩

/-- `time.sleep`. -/
def Clock.sleep (clock : Clock) : Seconds → Except Exn Unit
  | .finite q => if clock.longest < q then .error clock.overflow else .ok ()
  | .infinite => .error clock.overflow
  | .nan => .error (valueError "Invalid value NaN (not a number)")

/-- An execution that returns no result. -/
inductive NoResult where
  | raised (e : Exn)
  | waitsForever

/-- `asyncio.sleep`. -/
def Clock.asyncSleep (clock : Clock) : Seconds → Except NoResult Unit
  | .finite _ => .ok ()
  | .infinite => .error .waitsForever
  | .nan => clock.awaitsNan.mapError .raised

/-- A timeout that no lock can be waited for. -/
def Clock.refuses (clock : Clock) : Timeout → Bool
  | .seconds q _ _ => clock.longest < q
  | .unbounded => true

/-! ### What is given -/

/-- A tool, with what its output type makes of a value. -/
structure ExecutableTool where
  name : String
  isCoroutine : Bool
  timeout : Option Timeout := none
  retries : ℕ := 0
  retryDelay : Seconds := .finite 1
  delay_notNegative : retryDelay.NotNegative := by simp [Seconds.NotNegative]
  outputType : Option (Value → Except String Value) := none

/-- What a hook does: an exception comes from its call or from awaiting what it returned. -/
inductive HookOutcome where
  | passed
  | raised (awaited : Bool) (e : Raised)

/-- What the callable does in one attempt. -/
inductive Attempt where
  | returned (value : Value)
  | result (r : ToolResult)
  | raised (e : Raised)

/-- One execution: the outcomes of the hooks, the error of the input validation if there is
one, the outcomes of the attempts, and whether the thread of an attempt is done already when
its future is asked for the result. -/
structure ToolRun where
  pre : List HookOutcome
  invalid : Option String
  attempts : ℕ → Attempt
  done : ℕ → Bool
  post : List HookOutcome

/-- The calls of user code and the waits between attempts. -/
inductive ToolEvent where
  | pre (index : ℕ)
  | call (attempt : ℕ)
  | wait (delay : Seconds)
  | post (index : ℕ) (result : ToolResult)

/-! ### Shared by both -/

/-- `_to_content`. -/
def toContent : Value → String
  | .none => ""
  | .str s => s
  | .model cls text fields => (Value.model cls text fields).dumped.write .compact
  | v => v.dumps

/-- The text of a `ToolExecutionError` made of another one's. -/
def failedText (tool : ExecutableTool) (text : String) : String :=
  "Tool '" ++ tool.name ++ "' failed: " ++ text

/-- `_execution_error_result`. -/
def executionErrorResult (tool : ExecutableTool) (e : Raised) : ToolResult :=
  match e.kind with
  | .toolError typeName => { error := some e.text, exceptionType := some typeName }
  | _ =>
    { error := some (failedText tool e.text), exceptionType := some "ToolExecutionError" }

def validationErrorResult (tool : ExecutableTool) (text : String) : ToolResult where
  error := some ("Tool '" ++ tool.name ++ "' validation failed: " ++ text)
  exceptionType := some "ToolValidationError"

def timeoutResult (tool : ExecutableTool) (seconds : String) : ToolResult where
  error := some ("Tool '" ++ tool.name ++ "' timed out after " ++ seconds ++ "s")
  timedOut := true
  exceptionType := some "ToolTimeoutError"

/-- What both make of a value that is no `ToolResult`. -/
def valueResult (tool : ExecutableTool) (value : Value) : ToolResult :=
  match tool.outputType with
  | none => { content := some (toContent value), data := value }
  | some validate =>
    match validate value with
    | .ok value => { content := some (toContent value), data := value }
    | .error text => validationErrorResult tool ("Output validation failed: " ++ text)

/-- `_post_hook_error_result`. -/
def postHookErrorResult (tool : ExecutableTool) (result : ToolResult) (e : Raised) : ToolResult :=
  let hook := executionErrorResult tool e
  { result with
    error :=
      match result.error with
      | none => hook.error
      | some error => some (error ++ ". Post-hook error: " ++ hook.error.getD "None")
    exceptionType := (result.exceptionType.filter (· ≠ "")).or hook.exceptionType }

/-- `_backoff_delay`: an integer above every float is no factor of one, and a product above
every float is infinite. -/
def backoffDelay (retryDelay : Seconds) (attempt : ℕ) : Except Exn Seconds :=
  if 1024 ≤ attempt then .error ⟨.other, "OverflowError", "int too large to convert to float"⟩
  else .ok <|
    match retryDelay with
    | .finite q => if q * 2 ^ attempt < 2 ^ 1024 then .finite (q * 2 ^ attempt) else .infinite
    | .infinite => .infinite
    | .nan => .nan

/-- The hooks of a list from an index on, up to the first that raises. -/
def invokeHooks (invoke : HookOutcome → Option Raised) (event : ℕ → ToolEvent) :
    List HookOutcome → ℕ → List ToolEvent × Option Raised
  | [], _ => ([], none)
  | hook :: hooks, index =>
    match invoke hook with
    | some e => ([event index], some e)
    | none =>
      let (events, raised) := invokeHooks invoke event hooks (index + 1)
      (event index :: events, raised)

/-! ### The synchronous execution -/

/-- `_sync_invoke_hook`: what the hook returned is awaited in a coroutine. -/
def syncInvokeHook : HookOutcome → Option Raised
  | .passed => none
  | .raised awaited e => some (if awaited then e.outOfCoroutine else e)

def syncPreHooks (hooks : List HookOutcome) : List ToolEvent × Option Raised :=
  invokeHooks syncInvokeHook .pre hooks 0

def syncPostHooks (hooks : List HookOutcome) (result : ToolResult) :
    List ToolEvent × Option Raised :=
  invokeHooks syncInvokeHook (.post · result) hooks 0

/-- The future of the attempt is waited for, longer than the clock can. -/
def ExecutableTool.overrun (tool : ExecutableTool) (clock : Clock) (done : Bool) : Bool :=
  !done && tool.timeout.any clock.refuses

/-- `_execute_sync_once`: with a timeout, a `TimeoutError` of the callable is taken for the
one of the future. -/
def executeSyncOnce (tool : ExecutableTool) (clock : Clock) (done : Bool)
    (outcome : Attempt) : ToolResult :=
  if tool.overrun clock done then executionErrorResult tool ⟨.other, clock.tooLong⟩
  else
    match outcome with
    | .returned value => valueResult tool value
    | .result r => r
    | .raised e =>
      let raised := if tool.isCoroutine then e.outOfCoroutine else e
      match tool.timeout, raised.kind with
      | some timeout, .timeout _ => timeoutResult tool timeout.text
      | _, _ => executionErrorResult tool raised

/-- `_execute_sync_with_retries`, from an attempt on after which `left` more are allowed. -/
def executeSyncWithRetries (tool : ExecutableTool) (clock : Clock) (run : ToolRun) :
    (left attempt : ℕ) → List ToolEvent × Except NoResult ToolResult
  | 0, attempt =>
    ([.call attempt],
      .ok (executeSyncOnce tool clock (run.done attempt) (run.attempts attempt)))
  | left + 1, attempt =>
    let result := executeSyncOnce tool clock (run.done attempt) (run.attempts attempt)
    if result.error.isNone || result.cancelled then ([.call attempt], .ok result)
    else
      match backoffDelay tool.retryDelay attempt with
      | .error e => ([.call attempt], .error (.raised e))
      | .ok delay =>
        match clock.sleep delay with
        | .error e => ([.call attempt], .error (.raised e))
        | .ok () =>
          let (events, result) := executeSyncWithRetries tool clock run left (attempt + 1)
          (.call attempt :: .wait delay :: events, result)

/-- The end of `execute_tool`: the post hooks on a result. -/
def syncFinish (tool : ExecutableTool) (run : ToolRun) (result : ToolResult) :
    List ToolEvent × Except NoResult ToolResult :=
  let (events, raised) := syncPostHooks run.post result
  (events, .ok (raised.elim result (postHookErrorResult tool result)))

def executeTool (tool : ExecutableTool) (clock : Clock) (run : ToolRun) :
    List ToolEvent × Except NoResult ToolResult :=
  match syncPreHooks run.pre with
  | (events, some e) => (events, .ok (executionErrorResult tool e))
  | (events, none) =>
    match run.invalid with
    | some text =>
      let (finish, result) := syncFinish tool run (validationErrorResult tool text)
      (events ++ finish, result)
    | none =>
      match executeSyncWithRetries tool clock run tool.retries 0 with
      | (calls, .error e) => (events ++ calls, .error e)
      | (calls, .ok result) =>
        let (finish, result) := syncFinish tool run result
        (events ++ calls ++ finish, result)

/-! ### The asynchronous execution -/

/-- `_async_invoke_hook`: the hook is called in a coroutine. -/
def asyncInvokeHook : HookOutcome → Option Raised
  | .passed => none
  | .raised _ e => some e.outOfCoroutine

def asyncPreHooks (hooks : List HookOutcome) : List ToolEvent × Option Raised :=
  invokeHooks asyncInvokeHook .pre hooks 0

def asyncPostHooks (hooks : List HookOutcome) (result : ToolResult) :
    List ToolEvent × Option Raised :=
  invokeHooks asyncInvokeHook (.post · result) hooks 0

/-- `_execute_once` with no cancel event: a plain function runs in a thread. -/
def executeOnce (tool : ExecutableTool) : Attempt → Except Exn ToolResult
  | .returned value => .ok (valueResult tool value)
  | .result r => .ok r
  | .raised e =>
    if tool.isCoroutine then .ok (executionErrorResult tool e.outOfCoroutine)
    else e.outOfThread.map (executionErrorResult tool)

/-- The loop of `aexecute_tool`, from an attempt on after which `left` more are allowed. -/
def aexecuteWithRetries (tool : ExecutableTool) (clock : Clock) (run : ToolRun) :
    (left attempt : ℕ) → List ToolEvent × Except NoResult ToolResult
  | 0, attempt =>
    ([.call attempt], (executeOnce tool (run.attempts attempt)).mapError .raised)
  | left + 1, attempt =>
    match executeOnce tool (run.attempts attempt) with
    | .error e => ([.call attempt], .error (.raised e))
    | .ok result =>
      if result.error.isNone || result.cancelled then ([.call attempt], .ok result)
      else
        match backoffDelay tool.retryDelay attempt with
        | .error e => ([.call attempt], .error (.raised e))
        | .ok delay =>
          match clock.asyncSleep delay with
          | .error e => ([.call attempt], .error e)
          | .ok () =>
            let (events, result) := aexecuteWithRetries tool clock run left (attempt + 1)
            (.call attempt :: .wait delay :: events, result)

def asyncFinish (tool : ExecutableTool) (run : ToolRun) (result : ToolResult) :
    List ToolEvent × Except NoResult ToolResult :=
  let (events, raised) := asyncPostHooks run.post result
  (events, .ok (raised.elim result (postHookErrorResult tool result)))

def aexecuteTool (tool : ExecutableTool) (clock : Clock) (run : ToolRun) :
    List ToolEvent × Except NoResult ToolResult :=
  match asyncPreHooks run.pre with
  | (events, some e) => (events, .ok (executionErrorResult tool e))
  | (events, none) =>
    match run.invalid with
    | some text =>
      let (finish, result) := asyncFinish tool run (validationErrorResult tool text)
      (events ++ finish, result)
    | none =>
      match aexecuteWithRetries tool clock run tool.retries 0 with
      | (calls, .error e) => (events ++ calls, .error e)
      | (calls, .ok result) =>
        let (finish, result) := asyncFinish tool run result
        (events ++ calls ++ finish, result)

/-! ### When the two agree -/

/-- The attempts among the calls. -/
def attemptsOf (events : List ToolEvent) : List ℕ :=
  events.filterMap fun
    | .call attempt => some attempt
    | _ => none

/-- The attempt ends in a result with an error. -/
def Attempt.fails (tool : ExecutableTool) : Attempt → Bool
  | .returned value => (valueResult tool value).error.isSome
  | .result r => r.error.isSome
  | .raised _ => true

/-- The attempts are made in turn until the first without an error, at most `retries + 1`. -/
def AttemptedInTurn (tool : ExecutableTool) (run : ToolRun) (events : List ToolEvent) : Prop :=
  ∃ n, attemptsOf events = List.range n ∧ n ≤ tool.retries + 1 ∧
    (∀ k, k + 1 < n → (run.attempts k).fails tool = true) ∧
    (0 < n → n ≤ tool.retries → (run.attempts (n - 1)).fails tool = false)

/-- Both executions make the same calls and return the same result, with the attempts made
in turn. -/
def Agrees (tool : ExecutableTool) (clock : Clock) (run : ToolRun) : Prop :=
  ∃ events result, executeTool tool clock run = (events, .ok result) ∧
    aexecuteTool tool clock run = (events, .ok result) ∧ AttemptedInTurn tool run events

def HookOutcome.raises : HookOutcome → Bool
  | passed => false
  | raised .. => true

/-- Called in a coroutine the hook raises the same. -/
def HookOutcome.Alike : HookOutcome → Prop
  | passed => True
  | raised awaited e => awaited = true ∨ e.kind ≠ .stopIteration ∨ e.text = coroutineText

/-- Either execution makes the same result of the exception of a last attempt. -/
def Raised.EndsAlike (tool : ExecutableTool) (e : Raised) : Prop :=
  match e.kind with
  | .timeout remade =>
    tool.timeout = none ∧ (tool.isCoroutine = false → ∀ text ∈ remade, text = e.text)
  | .stopIteration => tool.isCoroutine = true ∨ e.text = futureText
  | .futuresCancelled => tool.isCoroutine = true
  | _ => True

def Attempt.EndsAlike (tool : ExecutableTool) : Attempt → Prop
  | .raised e => e.EndsAlike tool
  | _ => True

/-- The result is marked as cancelled. -/
def Attempt.marked : Attempt → Bool
  | .result r => r.cancelled
  | _ => false

/-- The exception comes out of a thread as a cancellation. -/
def Attempt.escapes (tool : ExecutableTool) : Attempt → Bool
  | .raised e => !tool.isCoroutine && e.kind = .futuresCancelled
  | _ => false

/-- The delay after the attempt is one the thread can sleep for. -/
def Seconds.Slept (clock : Clock) (attempt : ℕ) (retryDelay : Seconds) : Prop :=
  attempt < 1024 ∧ ∃ q, retryDelay = .finite q ∧ q * 2 ^ attempt ≤ clock.longest

/-- After a failed attempt both executions go on to the next. -/
def Attempt.GoesOn (tool : ExecutableTool) (clock : Clock) (attempt : ℕ)
    (outcome : Attempt) : Prop :=
  outcome.marked = false ∧ outcome.escapes tool = false ∧ tool.retryDelay.Slept clock attempt

/-- The asynchronous execution makes the result of a last attempt that the synchronous one
makes of an error with the text. -/
def Raised.EndsAs (tool : ExecutableTool) (text : String) (e : Raised) : Prop :=
  match e.kind with
  | .toolError typeName => typeName = "ToolExecutionError" ∧ e.text = failedText tool text
  | .timeout remade => (if tool.isCoroutine then e.text else remade.getD e.text) = text
  | .stopIteration => (if tool.isCoroutine then coroutineText else futureText) = text
  | .futuresCancelled => tool.isCoroutine = true ∧ e.text = text
  | .other => e.text = text

def Attempt.EndsAs (tool : ExecutableTool) (text : String) : Attempt → Prop
  | .returned _ => False
  | .result r =>
    r = { error := some (failedText tool text), exceptionType := some "ToolExecutionError" }
  | .raised e => e.EndsAs tool text

/-- Both executions make the same of the last attempt. -/
def LastAlike (tool : ExecutableTool) (clock : Clock) (run : ToolRun) (k : ℕ) : Prop :=
  if tool.overrun clock (run.done k) then (run.attempts k).EndsAs tool clock.tooLong
  else (run.attempts k).EndsAlike tool

/-- Both go on after an attempt that is not the last, or both end with it. -/
def EarlierAlike (tool : ExecutableTool) (clock : Clock) (run : ToolRun) (k : ℕ) : Prop :=
  (tool.overrun clock (run.done k) = true → (run.attempts k).fails tool = true) ∧
    ((run.attempts k).fails tool = true → (run.attempts k).GoesOn tool clock k)

/-- No exception changes on its way in one execution only: neither that of the first hook
that raises, nor that of the last attempt; and no attempt before the last keeps an execution
from the next, or sends one on alone. -/
def RunsAlike (tool : ExecutableTool) (clock : Clock) (run : ToolRun) : Prop :=
  match run.pre.find? HookOutcome.raises with
  | some hook => hook.Alike
  | none =>
    (run.invalid = none → ∀ k ≤ tool.retries, (∀ j < k, (run.attempts j).fails tool = true) →
      if k < tool.retries then EarlierAlike tool clock run k else LastAlike tool clock run k) ∧
    ∀ hook ∈ run.post.find? HookOutcome.raises, hook.Alike

/-! ### Hooks -/

def hookEvents (event : ℕ → ToolEvent) : List HookOutcome → ℕ → List ToolEvent
  | [], _ => []
  | hook :: hooks, index =>
    event index :: if hook.raises then [] else hookEvents event hooks (index + 1)

theorem invokeHooks_eq {invoke : HookOutcome → Option Raised}
    (hinvoke : ∀ hook, (invoke hook).isSome = hook.raises) (event : ℕ → ToolEvent)
    (hooks : List HookOutcome) : ∀ index, invokeHooks invoke event hooks index =
      (hookEvents event hooks index, (hooks.find? HookOutcome.raises).bind invoke) := by
  induction hooks with
  | nil => exact fun _ => rfl
  | cons hook hooks ih =>
    intro index
    have hhook := hinvoke hook
    unfold invokeHooks hookEvents
    rw [ih, List.find?_cons]
    cases hraises : hook.raises with
    | false =>
      rw [hraises, Option.isSome_eq_false_iff, Option.isNone_iff_eq_none] at hhook
      rw [hhook]
      simp
    | true =>
      rw [hraises] at hhook
      obtain ⟨e, he⟩ := Option.isSome_iff_exists.mp hhook
      simp [he]

theorem syncInvokeHook_isSome (hook : HookOutcome) :
    (syncInvokeHook hook).isSome = hook.raises := by
  cases hook <;> rfl

theorem asyncInvokeHook_isSome (hook : HookOutcome) :
    (asyncInvokeHook hook).isSome = hook.raises := by
  cases hook <;> rfl

/-! ### Results of exceptions -/

theorem executionErrorResult_untyped (tool : ExecutableTool) {e : Raised}
    (h : ∀ typeName, e.kind ≠ .toolError typeName) :
    executionErrorResult tool e =
      { error := some (failedText tool e.text), exceptionType := some "ToolExecutionError" } := by
  unfold executionErrorResult
  cases hkind : e.kind with
  | toolError typeName => exact absurd hkind (h typeName)
  | _ => rfl

theorem executionErrorResult_inj {tool : ExecutableTool} {e e' : Raised}
    (h : ∀ typeName, e.kind ≠ .toolError typeName)
    (h' : ∀ typeName, e'.kind ≠ .toolError typeName) :
    executionErrorResult tool e = executionErrorResult tool e' ↔ e.text = e'.text := by
  rw [executionErrorResult_untyped tool h, executionErrorResult_untyped tool h']
  simp [failedText, String.append_right_inj]

theorem executionErrorResult_outOfCoroutine (tool : ExecutableTool) (e : Raised) :
    executionErrorResult tool e = executionErrorResult tool e.outOfCoroutine ↔
      e.kind ≠ .stopIteration ∨ e.text = coroutineText := by
  unfold Raised.outOfCoroutine
  by_cases hstop : e.kind = .stopIteration
  · rw [if_pos hstop, executionErrorResult_inj (by simp [hstop]) (by simp)]
    simp [hstop]
  · rw [if_neg hstop]
    simp [hstop]

/-- A post hook's exception is told apart in the merged result. -/
theorem postHookErrorResult_outOfCoroutine (tool : ExecutableTool) (result : ToolResult)
    (e : Raised) :
    postHookErrorResult tool result e = postHookErrorResult tool result e.outOfCoroutine ↔
      e.kind ≠ .stopIteration ∨ e.text = coroutineText := by
  rw [← executionErrorResult_outOfCoroutine tool e]
  constructor
  · intro h
    by_cases hstop : e.kind = .stopIteration
    · have hkind : e.outOfCoroutine.kind = .other := by simp [Raised.outOfCoroutine, hstop]
      have herror := congrArg ToolResult.error h
      have hsync := executionErrorResult_untyped tool (e := e) (by simp [hstop])
      have hasync := executionErrorResult_untyped tool (e := e.outOfCoroutine) (by simp [hkind])
      rw [hsync, hasync]
      simp only [postHookErrorResult, hsync, hasync] at herror
      cases hresult : result.error with
      | none =>
        rw [hresult] at herror
        simpa [failedText] using herror
      | some text =>
        rw [hresult] at herror
        simpa [failedText] using herror
    · simp [Raised.outOfCoroutine, hstop]
  · intro h
    simp only [postHookErrorResult, h]

theorem alike_iff (tool : ExecutableTool) (hook : HookOutcome) :
    (syncInvokeHook hook).map (executionErrorResult tool) =
        (asyncInvokeHook hook).map (executionErrorResult tool) ↔ hook.Alike := by
  cases hook with
  | passed => simp [syncInvokeHook, asyncInvokeHook, HookOutcome.Alike]
  | raised awaited e =>
    cases awaited with
    | true => simp [syncInvokeHook, asyncInvokeHook, HookOutcome.Alike]
    | false =>
      have h := executionErrorResult_outOfCoroutine tool e
      simpa [syncInvokeHook, asyncInvokeHook, HookOutcome.Alike] using h

theorem post_alike_iff (tool : ExecutableTool) (result : ToolResult) (hook : HookOutcome) :
    (syncInvokeHook hook).elim result (postHookErrorResult tool result) =
        (asyncInvokeHook hook).elim result (postHookErrorResult tool result) ↔ hook.Alike := by
  cases hook with
  | passed => simp [syncInvokeHook, asyncInvokeHook, HookOutcome.Alike]
  | raised awaited e =>
    cases awaited with
    | true => simp [syncInvokeHook, asyncInvokeHook, HookOutcome.Alike]
    | false =>
      have h := postHookErrorResult_outOfCoroutine tool result e
      simpa [syncInvokeHook, asyncInvokeHook, HookOutcome.Alike] using h

/-! ### The post hooks -/

theorem syncFinish_eq (tool : ExecutableTool) (run : ToolRun) (result : ToolResult) :
    syncFinish tool run result =
      (hookEvents (.post · result) run.post 0,
        .ok (((run.post.find? HookOutcome.raises).bind syncInvokeHook).elim result
          (postHookErrorResult tool result))) := by
  simp only [syncFinish, syncPostHooks, invokeHooks_eq syncInvokeHook_isSome]

theorem asyncFinish_eq (tool : ExecutableTool) (run : ToolRun) (result : ToolResult) :
    asyncFinish tool run result =
      (hookEvents (.post · result) run.post 0,
        .ok (((run.post.find? HookOutcome.raises).bind asyncInvokeHook).elim result
          (postHookErrorResult tool result))) := by
  simp only [asyncFinish, asyncPostHooks, invokeHooks_eq asyncInvokeHook_isSome]

/-- The post hooks are called alike when they get the same result and the first that raises
raises the same. -/
theorem finish_iff (tool : ExecutableTool) (run : ToolRun) (result result' : ToolResult) :
    syncFinish tool run result = asyncFinish tool run result' ↔
      result = result' ∧ ∀ hook ∈ run.post.find? HookOutcome.raises, hook.Alike := by
  rw [syncFinish_eq, asyncFinish_eq, Prod.mk.injEq, Except.ok.injEq]
  have hsame : (((run.post.find? HookOutcome.raises).bind syncInvokeHook).elim result
        (postHookErrorResult tool result) =
      ((run.post.find? HookOutcome.raises).bind asyncInvokeHook).elim result
        (postHookErrorResult tool result)) ↔
      ∀ hook ∈ run.post.find? HookOutcome.raises, hook.Alike := by
    cases run.post.find? HookOutcome.raises with
    | none => simp
    | some hook => simpa using post_alike_iff tool result hook
  constructor
  · rintro ⟨hevents, hresult⟩
    obtain rfl : result = result' := by
      cases hpost : run.post with
      | nil => simpa [hpost] using hresult
      | cons hook hooks =>
        rw [hpost] at hevents
        unfold hookEvents at hevents
        have hhead := (List.cons.inj hevents).1
        exact (ToolEvent.post.inj hhead).2
    exact ⟨rfl, hsame.mp hresult⟩
  · rintro ⟨rfl, halike⟩
    exact ⟨rfl, hsame.mpr halike⟩

/-! ### One attempt -/

theorem cancelled_executionErrorResult (tool : ExecutableTool) (e : Raised) :
    (executionErrorResult tool e).error.isSome = true ∧
      (executionErrorResult tool e).cancelled = false := by
  unfold executionErrorResult
  cases e.kind <;> exact ⟨rfl, rfl⟩

theorem cancelled_valueResult (tool : ExecutableTool) (value : Value) :
    (valueResult tool value).cancelled = false := by
  unfold valueResult
  split
  · rfl
  · split <;> rfl

/-- An attempt that is waited for too long ends in an error. -/
theorem executeSyncOnce_overrun {tool : ExecutableTool} {clock : Clock} {done : Bool}
    (h : tool.overrun clock done = true) (outcome : Attempt) :
    executeSyncOnce tool clock done outcome =
      executionErrorResult tool ⟨.other, clock.tooLong⟩ := by
  unfold executeSyncOnce
  rw [if_pos h]

theorem executeSyncOnce_spec {tool : ExecutableTool} {clock : Clock} {done : Bool}
    (h : tool.overrun clock done = false) (outcome : Attempt) :
    (executeSyncOnce tool clock done outcome).error.isSome = outcome.fails tool ∧
      (executeSyncOnce tool clock done outcome).cancelled = outcome.marked := by
  unfold executeSyncOnce
  rw [if_neg (by simp [h])]
  cases outcome with
  | returned value => exact ⟨rfl, cancelled_valueResult tool value⟩
  | result r => exact ⟨rfl, rfl⟩
  | raised e =>
    simp only [Attempt.fails, Attempt.marked]
    split
    · exact ⟨rfl, rfl⟩
    · exact cancelled_executionErrorResult tool _

theorem outOfThread_error {e : Raised} {c : Exn} (h : e.outOfThread = .error c) :
    e.kind = .futuresCancelled := by
  unfold Raised.outOfThread at h
  cases hkind : e.kind with
  | futuresCancelled => rfl
  | timeout remade =>
    rw [hkind] at h
    cases remade <;> cases h
  | _ =>
    rw [hkind] at h
    cases h

theorem executeOnce_error {tool : ExecutableTool} {outcome : Attempt} {c : Exn}
    (h : executeOnce tool outcome = .error c) : outcome.escapes tool = true := by
  cases outcome with
  | returned value => cases h
  | result r => cases h
  | raised e =>
    unfold executeOnce at h
    cases hcoroutine : tool.isCoroutine with
    | true =>
      rw [hcoroutine] at h
      cases h
    | false =>
      rw [hcoroutine] at h
      cases hthread : e.outOfThread with
      | error c' => simp [Attempt.escapes, hcoroutine, outOfThread_error hthread]
      | ok e' =>
        simp only [Bool.false_eq_true, if_false, hthread] at h
        cases h

theorem executeOnce_escapes {tool : ExecutableTool} {outcome : Attempt}
    (h : outcome.escapes tool = true) : ∃ c, executeOnce tool outcome = .error c := by
  cases outcome with
  | returned value => cases h
  | result r => cases h
  | raised e =>
    simp only [Attempt.escapes, Bool.and_eq_true, Bool.not_eq_eq_eq_not, Bool.not_true,
      decide_eq_true_eq] at h
    refine ⟨⟨.cancelled, "CancelledError", e.text⟩, ?_⟩
    simp only [executeOnce, h.1, Raised.outOfThread, h.2, Bool.false_eq_true, if_false]
    rfl

theorem executeOnce_spec {tool : ExecutableTool} {outcome : Attempt} {result : ToolResult}
    (h : executeOnce tool outcome = .ok result) :
    result.error.isSome = outcome.fails tool ∧ result.cancelled = outcome.marked := by
  cases outcome with
  | returned value =>
    cases h
    exact ⟨rfl, cancelled_valueResult tool value⟩
  | result r =>
    cases h
    exact ⟨rfl, rfl⟩
  | raised e =>
    simp only [executeOnce] at h
    by_cases hcoroutine : tool.isCoroutine = true
    · rw [if_pos hcoroutine] at h
      cases h
      exact cancelled_executionErrorResult tool _
    · rw [if_neg hcoroutine] at h
      cases hthread : e.outOfThread with
      | error c =>
        rw [hthread] at h
        cases h
      | ok e' =>
        rw [hthread] at h
        cases h
        exact cancelled_executionErrorResult tool _

theorem timeoutResult_ne (tool : ExecutableTool) (seconds : String) (e : Raised) :
    executionErrorResult tool e ≠ timeoutResult tool seconds := by
  intro h
  have htimed := congrArg ToolResult.timedOut h
  unfold executionErrorResult at htimed
  cases hkind : e.kind <;> rw [hkind] at htimed <;> cases htimed

section Once

variable {tool : ExecutableTool} {clock : Clock} {done : Bool}

/-- A plain function's exception. -/
theorem once_thread_iff (hover : tool.overrun clock done = false) (h : tool.isCoroutine = false)
    (e : Raised) :
    executeOnce tool (.raised e) = .ok (executeSyncOnce tool clock done (.raised e)) ↔
      e.EndsAlike tool := by
  simp only [executeOnce, executeSyncOnce, Raised.EndsAlike, hover, h, Bool.false_eq_true,
    if_false]
  cases hkind : e.kind with
  | toolError typeName => simp [Raised.outOfThread, hkind, Except.map]
  | other => simp [Raised.outOfThread, hkind, Except.map]
  | futuresCancelled => simp [Raised.outOfThread, hkind, Except.map]
  | stopIteration =>
    have hinj := @executionErrorResult_inj tool ⟨.other, futureText⟩ e
      (by simp) (by simp [hkind])
    simpa [Raised.outOfThread, hkind, Except.map, eq_comm] using hinj
  | timeout remade =>
    cases htimeout : tool.timeout with
    | some timeout =>
      cases remade <;> simp [Raised.outOfThread, hkind, Except.map, timeoutResult_ne]
    | none =>
      cases remade with
      | none => simp [Raised.outOfThread, hkind, Except.map]
      | some text =>
        have hinj := @executionErrorResult_inj tool ⟨e.kind, text⟩ e
          (by simp [hkind]) (by simp [hkind])
        simpa [Raised.outOfThread, hkind, Except.map] using hinj

/-- A coroutine's exception. -/
theorem once_coroutine_iff (hover : tool.overrun clock done = false)
    (h : tool.isCoroutine = true) (e : Raised) :
    executeOnce tool (.raised e) = .ok (executeSyncOnce tool clock done (.raised e)) ↔
      e.EndsAlike tool := by
  simp only [executeOnce, executeSyncOnce, Raised.EndsAlike, hover, h, if_true,
    Bool.false_eq_true, if_false]
  cases hkind : e.kind with
  | timeout remade =>
    have hsame : e.outOfCoroutine = e := by simp [Raised.outOfCoroutine, hkind]
    cases htimeout : tool.timeout with
    | some timeout => simp [hsame, hkind, timeoutResult_ne]
    | none => simp [hsame]
  | stopIteration => simp [Raised.outOfCoroutine, hkind]
  | _ => simp [Raised.outOfCoroutine, hkind]

/-- The two executions make the same of an attempt exactly when it ends alike. -/
theorem once_iff (hover : tool.overrun clock done = false) (outcome : Attempt) :
    executeOnce tool outcome = .ok (executeSyncOnce tool clock done outcome) ↔
      outcome.EndsAlike tool := by
  cases outcome with
  | returned value => simp [executeOnce, executeSyncOnce, hover, Attempt.EndsAlike]
  | result r => simp [executeOnce, executeSyncOnce, hover, Attempt.EndsAlike]
  | raised e =>
    cases hcoroutine : tool.isCoroutine with
    | false => exact once_thread_iff hover hcoroutine e
    | true => exact once_coroutine_iff hover hcoroutine e

end Once

section EndsAs

variable {tool : ExecutableTool} {text : String}

theorem executionErrorResult_eq_iff (e : Raised) :
    executionErrorResult tool e = executionErrorResult tool ⟨.other, text⟩ ↔
      match e.kind with
      | .toolError typeName => typeName = "ToolExecutionError" ∧ e.text = failedText tool text
      | _ => e.text = text := by
  cases hkind : e.kind with
  | toolError typeName =>
    simp only [executionErrorResult, hkind, ToolResult.mk.injEq, Option.some.injEq, true_and]
    exact and_comm.trans (by simp)
  | _ => exact executionErrorResult_inj (by simp [hkind]) (by simp)

theorem raised_endsAs_iff (e : Raised) :
    executeOnce tool (.raised e) = .ok (executionErrorResult tool ⟨.other, text⟩) ↔
      e.EndsAs tool text := by
  simp only [executeOnce, Raised.EndsAs]
  cases hcoroutine : tool.isCoroutine with
  | true =>
    rw [if_pos rfl, Except.ok.injEq, executionErrorResult_eq_iff]
    cases hkind : e.kind <;> simp [Raised.outOfCoroutine, hkind]
  | false =>
    rw [if_neg (by simp)]
    cases hkind : e.kind with
    | timeout remade =>
      cases remade <;>
        simp [Raised.outOfThread, hkind, Except.map, executionErrorResult_eq_iff]
    | _ => simp [Raised.outOfThread, hkind, Except.map, executionErrorResult_eq_iff]

/-- An attempt whose asynchronous result is an error with the text. -/
theorem endsAs_iff (outcome : Attempt) :
    executeOnce tool outcome = .ok (executionErrorResult tool ⟨.other, text⟩) ↔
      outcome.EndsAs tool text := by
  cases outcome with
  | returned value =>
    simp only [executeOnce, Attempt.EndsAs, iff_false, Except.ok.injEq]
    intro h
    have htype := congrArg ToolResult.exceptionType h
    revert htype
    unfold valueResult
    split
    · simp [executionErrorResult]
    · split <;> simp [executionErrorResult, validationErrorResult]
  | result r => exact ⟨fun h => Except.ok.inj h, fun h => congrArg Except.ok h⟩
  | raised e => exact raised_endsAs_iff e

end EndsAs

/-- The two executions make the same of the last attempt exactly when it is alike. -/
theorem last_iff (tool : ExecutableTool) (clock : Clock) (run : ToolRun) (k : ℕ) :
    executeOnce tool (run.attempts k) =
        .ok (executeSyncOnce tool clock (run.done k) (run.attempts k)) ↔
      LastAlike tool clock run k := by
  unfold LastAlike
  cases hover : tool.overrun clock (run.done k) with
  | true => simpa [executeSyncOnce_overrun hover] using endsAs_iff (run.attempts k)
  | false => simpa using once_iff hover (run.attempts k)

/-! ### The waits -/

section Waits

variable {clock : Clock} {retryDelay delay : Seconds} {attempt : ℕ}

theorem slept_ok (h : retryDelay.Slept clock attempt) :
    ∃ delay, backoffDelay retryDelay attempt = .ok delay ∧ clock.sleep delay = .ok () ∧
      clock.asyncSleep delay = .ok () := by
  obtain ⟨hlt, q, rfl, hq⟩ := h
  refine ⟨.finite (q * 2 ^ attempt), ?_, ?_, rfl⟩
  · have hfloat : q * 2 ^ attempt < 2 ^ 1024 := hq.trans_lt clock.longest_lt
    rw [backoffDelay, if_neg (by omega)]
    simp only [if_pos hfloat]
  · rw [Clock.sleep, if_neg (not_lt.mpr hq)]

/-- The thread sleeps for no other delay. -/
theorem slept_of_ok (h : backoffDelay retryDelay attempt = .ok delay)
    (hsleep : clock.sleep delay = .ok ()) : retryDelay.Slept clock attempt := by
  unfold backoffDelay at h
  by_cases hlt : 1024 ≤ attempt
  · rw [if_pos hlt] at h
    cases h
  · rw [if_neg hlt] at h
    refine ⟨by omega, ?_⟩
    cases retryDelay with
    | finite q =>
      obtain rfl := Except.ok.inj h
      refine ⟨q, rfl, ?_⟩
      by_cases hfloat : q * 2 ^ attempt < 2 ^ 1024
      · simp only [if_pos hfloat, Clock.sleep] at hsleep
        by_contra hlong
        rw [if_pos (not_le.mp hlong)] at hsleep
        cases hsleep
      · simp only [if_neg hfloat] at hsleep
        cases hsleep
    | infinite =>
      obtain rfl := Except.ok.inj h
      cases hsleep
    | nan =>
      obtain rfl := Except.ok.inj h
      cases hsleep

end Waits

/-! ### The attempts -/

section Attempts

variable {tool : ExecutableTool} {clock : Clock} {run : ToolRun}

/-- The last attempt is the `left`-th from here on. -/
def LoopAlike (tool : ExecutableTool) (clock : Clock) (run : ToolRun) :
    (left attempt : ℕ) → Prop
  | 0, k => LastAlike tool clock run k
  | left + 1, k => EarlierAlike tool clock run k ∧
      ((run.attempts k).fails tool = true → LoopAlike tool clock run left (k + 1))

theorem loopAlike_iff (left : ℕ) : ∀ k, LoopAlike tool clock run left k ↔
    ∀ i ≤ left, (∀ j < i, (run.attempts (k + j)).fails tool = true) →
      if i < left then EarlierAlike tool clock run (k + i)
      else LastAlike tool clock run (k + i) := by
  induction left with
  | zero =>
    intro k
    constructor
    · intro h i hi _
      obtain rfl : i = 0 := by omega
      simpa [LoopAlike] using h
    · intro h
      simpa [LoopAlike] using h 0 le_rfl (by simp)
  | succ left ih =>
    intro k
    simp only [LoopAlike, ih (k + 1)]
    constructor
    · rintro ⟨hfirst, hlater⟩ i hi hearlier
      cases i with
      | zero => simpa using hfirst
      | succ i =>
        have hk := hearlier 0 (by omega)
        have hnext := hlater hk i (by omega)
          (fun j hj => by
            have hj' := hearlier (j + 1) (by omega)
            rwa [← Nat.add_assoc, Nat.add_right_comm] at hj')
        have heq : k + (i + 1) = k + 1 + i := by omega
        rw [heq]
        by_cases hlt : i < left
        · rw [if_pos (by omega)]
          simpa [hlt] using hnext
        · rw [if_neg (by omega)]
          simpa [hlt] using hnext
    · intro h
      refine ⟨by simpa using h 0 (by omega) (by simp), fun hfails i hi hearlier => ?_⟩
      have heq : k + (i + 1) = k + 1 + i := by omega
      have hnext := h (i + 1) (by omega)
        (fun j hj => by
          cases j with
          | zero => exact hfails
          | succ j =>
            have hj' := hearlier j (by omega)
            rwa [Nat.add_right_comm] at hj')
      rw [heq] at hnext
      by_cases hlt : i < left
      · rw [if_pos hlt]
        simpa [hlt] using hnext
      · rw [if_neg hlt]
        simpa [hlt] using hnext

/-- The result of an attempt that fails, whether or not it is waited for too long. -/
theorem executeSyncOnce_fails {done : Bool} {outcome : Attempt}
    (hfails : outcome.fails tool = true) :
    (executeSyncOnce tool clock done outcome).error.isSome = true ∧
      (outcome.marked = false →
        (executeSyncOnce tool clock done outcome).cancelled = false) := by
  cases hover : tool.overrun clock done with
  | true =>
    rw [executeSyncOnce_overrun hover]
    have h := cancelled_executionErrorResult tool ⟨.other, clock.tooLong⟩
    exact ⟨h.1, fun _ => h.2⟩
  | false =>
    obtain ⟨herror, hcancelled⟩ := executeSyncOnce_spec hover outcome
    exact ⟨herror.trans hfails, fun hmarked => hcancelled.trans hmarked⟩

/-- A failed attempt that goes on, in either execution. -/
theorem goesOn_step (left k : ℕ) (hfails : (run.attempts k).fails tool = true)
    (hgoes : (run.attempts k).GoesOn tool clock k) :
    ∃ delay, executeSyncWithRetries tool clock run (left + 1) k =
        (.call k :: .wait delay :: (executeSyncWithRetries tool clock run left (k + 1)).1,
          (executeSyncWithRetries tool clock run left (k + 1)).2) ∧
      aexecuteWithRetries tool clock run (left + 1) k =
        (.call k :: .wait delay :: (aexecuteWithRetries tool clock run left (k + 1)).1,
          (aexecuteWithRetries tool clock run left (k + 1)).2) := by
  obtain ⟨hmarked, hescapes, hslept⟩ := hgoes
  obtain ⟨delay, hdelay, hsleep, hasleep⟩ := slept_ok hslept
  obtain ⟨herror, hcancelled⟩ := @executeSyncOnce_fails tool clock (run.done k) _ hfails
  refine ⟨delay, ?_, ?_⟩
  · rw [executeSyncWithRetries]
    simp only [← Option.not_isSome, herror, hcancelled hmarked, hdelay, hsleep]
    rfl
  · rw [aexecuteWithRetries]
    cases honce : executeOnce tool (run.attempts k) with
    | error c =>
      rw [executeOnce_error honce] at hescapes
      cases hescapes
    | ok result =>
      have hasync := executeOnce_spec honce
      rw [hfails, hmarked] at hasync
      simp only [← Option.not_isSome, hasync, hdelay, hasleep]
      rfl

/-- `n` attempts from `k` on, of `left + 1` that are allowed. -/
structure InTurn (tool : ExecutableTool) (run : ToolRun) (left k n : ℕ)
    (events : List ToolEvent) : Prop where
  made : attemptsOf events = List.range' k n
  pos : 0 < n
  bound : n ≤ left + 1
  earlier : ∀ j, j + 1 < n → (run.attempts (k + j)).fails tool = true
  last : n ≤ left → (run.attempts (k + (n - 1))).fails tool = false

theorem InTurn.single {left k : ℕ} (h : 0 < left → (run.attempts k).fails tool = false) :
    InTurn tool run left k 1 [.call k] where
  made := rfl
  pos := by omega
  bound := by omega
  earlier j hj := absurd hj (by omega)
  last hleft := h (by omega)

theorem InTurn.cons {left k n : ℕ} {events : List ToolEvent} {delay : Seconds}
    (hfails : (run.attempts k).fails tool = true) (h : InTurn tool run left (k + 1) n events) :
    InTurn tool run (left + 1) k (n + 1) (.call k :: .wait delay :: events) where
  made := by
    have hmade := h.made
    simp only [attemptsOf, List.filterMap_cons] at hmade ⊢
    rw [hmade, List.range'_succ]
  pos := by omega
  bound := by have := h.bound; omega
  earlier j hj := by
    cases j with
    | zero => exact hfails
    | succ j =>
      have hj' := h.earlier j (by omega)
      rwa [Nat.add_right_comm] at hj'
  last hleft := by
    have hpos := h.pos
    have hlast := h.last (by omega)
    have heq : k + (n + 1 - 1) = k + 1 + (n - 1) := by omega
    rwa [heq]

theorem InTurn.uncons {left k n : ℕ} {events : List ToolEvent} {delay : Seconds}
    (h : InTurn tool run (left + 1) k n (.call k :: .wait delay :: events))
    (hne : attemptsOf events ≠ []) : InTurn tool run left (k + 1) (n - 1) events := by
  have hmade : k :: attemptsOf events = List.range' k n := by
    rw [← h.made]
    rfl
  obtain ⟨n, rfl⟩ : ∃ m, n = m + 1 := ⟨n - 1, by have := h.pos; omega⟩
  rw [List.range'_succ] at hmade
  have hrest := (List.cons.inj hmade).2
  have hpos : 0 < n := by
    rcases n with _ | n
    · exact absurd hrest hne
    · omega
  refine ⟨hrest, hpos, by have := h.bound; omega, fun j hj => ?_, fun hleft => ?_⟩
  · have hj' := h.earlier (j + 1) (by omega)
    rwa [← Nat.add_assoc, Nat.add_right_comm] at hj'
  · have hlast := h.last (by omega)
    have heq : k + (n + 1 - 1) = k + 1 + (n + 1 - 1 - 1) := by omega
    rwa [heq] at hlast

theorem attemptsOf_sync_ne (left k : ℕ) :
    attemptsOf (executeSyncWithRetries tool clock run left k).1 ≠ [] := by
  cases left with
  | zero => simp [executeSyncWithRetries, attemptsOf]
  | succ left =>
    rw [executeSyncWithRetries]
    dsimp only
    split_ifs
    · simp [attemptsOf]
    · cases backoffDelay tool.retryDelay k with
      | error e => simp [attemptsOf]
      | ok delay =>
        dsimp only
        cases clock.sleep delay <;> simp [attemptsOf]

/-- An attempt that does not fail ends either loop, with one result. -/
theorem succeeds_step (left k : ℕ) (h : (run.attempts k).fails tool = false)
    (hover : tool.overrun clock (run.done k) = false) :
    executeSyncWithRetries tool clock run (left + 1) k =
        ([.call k], .ok (executeSyncOnce tool clock (run.done k) (run.attempts k))) ∧
      aexecuteWithRetries tool clock run (left + 1) k =
        ([.call k], .ok (executeSyncOnce tool clock (run.done k) (run.attempts k))) := by
  have hsync := (executeSyncOnce_spec hover (run.attempts k)).1
  rw [h] at hsync
  have hends : (run.attempts k).EndsAlike tool := by
    cases hk : run.attempts k with
    | raised e =>
      rw [hk] at h
      cases h
    | _ => trivial
  have honce := (once_iff hover (run.attempts k)).mpr hends
  constructor
  · rw [executeSyncWithRetries]
    simp only [← Option.not_isSome, hsync]
    rfl
  · rw [aexecuteWithRetries, honce]
    simp only [← Option.not_isSome, hsync]
    rfl

/-- The synchronous loop goes on after an error only when the thread can sleep. -/
theorem sync_slept {left k : ℕ} {events : List ToolEvent} {result : ToolResult}
    (hsync : executeSyncWithRetries tool clock run (left + 1) k = (events, .ok result))
    (herror : (executeSyncOnce tool clock (run.done k) (run.attempts k)).error.isSome = true)
    (hcancelled : (executeSyncOnce tool clock (run.done k) (run.attempts k)).cancelled = false) :
    tool.retryDelay.Slept clock k ∧ events ≠ [.call k] := by
  rw [executeSyncWithRetries] at hsync
  simp only [← Option.not_isSome, herror, hcancelled] at hsync
  rw [if_neg (by simp)] at hsync
  cases hdelay : backoffDelay tool.retryDelay k with
  | error e =>
    rw [hdelay] at hsync
    cases (Prod.mk.inj hsync).2
  | ok delay =>
    rw [hdelay] at hsync
    dsimp only at hsync
    cases hsleep : clock.sleep delay with
    | error e =>
      rw [hsleep] at hsync
      cases (Prod.mk.inj hsync).2
    | ok _ =>
      rw [hsleep] at hsync
      refine ⟨slept_of_ok hdelay hsleep, ?_⟩
      rw [← (Prod.mk.inj hsync).1]
      simp

/-- The asynchronous loop ends with an attempt that does not fail or is marked. -/
theorem async_ends {left k : ℕ} {events : List ToolEvent} {result : ToolResult}
    (hasync : aexecuteWithRetries tool clock run (left + 1) k = (events, .ok result))
    (h : (run.attempts k).fails tool = false ∨ (run.attempts k).marked = true) :
    events = [.call k] := by
  rw [aexecuteWithRetries] at hasync
  cases honce : executeOnce tool (run.attempts k) with
  | error c =>
    rw [honce] at hasync
    cases (Prod.mk.inj hasync).2
  | ok once =>
    obtain ⟨herror, hcancelled⟩ := executeOnce_spec honce
    rw [honce] at hasync
    simp only [← Option.not_isSome, herror, hcancelled] at hasync
    rw [if_pos (by rcases h with h | h <;> simp [h])] at hasync
    exact (Prod.mk.inj hasync).1.symm

/-- With more attempts to come, both loops go on, or end, or they do not agree. -/
theorem earlierAlike_of_agree {left k n : ℕ} {events : List ToolEvent} {result : ToolResult}
    (hsync : executeSyncWithRetries tool clock run (left + 1) k = (events, .ok result))
    (hasync : aexecuteWithRetries tool clock run (left + 1) k = (events, .ok result))
    (hturn : InTurn tool run (left + 1) k n events) : EarlierAlike tool clock run k := by
  constructor
  · intro hover
    by_contra hfails
    have hends := async_ends hasync (.inl (by simpa using hfails))
    have h := cancelled_executionErrorResult tool ⟨.other, clock.tooLong⟩
    rw [← executeSyncOnce_overrun hover (run.attempts k)] at h
    exact (sync_slept hsync h.1 h.2).2 hends
  · intro hfails
    have hmarked : (run.attempts k).marked = false := by
      by_contra hmarked
      have hends := async_ends hasync (.inr (by simpa using hmarked))
      have hlength := congrArg List.length hturn.made
      have hn : n = 1 := by simpa [hends, attemptsOf] using hlength.symm
      have hlast := hturn.last (by omega)
      rw [hn] at hlast
      rw [show k + (1 - 1) = k from rfl, hfails] at hlast
      cases hlast
    refine ⟨hmarked, ?_, ?_⟩
    · by_contra hescapes
      obtain ⟨c, hc⟩ := executeOnce_escapes (by simpa using hescapes)
      rw [aexecuteWithRetries, hc] at hasync
      cases (Prod.mk.inj hasync).2
    · obtain ⟨herror, hcancelled⟩ := @executeSyncOnce_fails tool clock (run.done k) _ hfails
      exact (sync_slept hsync herror (hcancelled hmarked)).1

/-- The two loops agree exactly when their attempts go alike. -/
theorem loop_iff (left : ℕ) : ∀ k,
    (∃ events result n, executeSyncWithRetries tool clock run left k = (events, .ok result) ∧
        aexecuteWithRetries tool clock run left k = (events, .ok result) ∧
        InTurn tool run left k n events) ↔
      LoopAlike tool clock run left k := by
  induction left with
  | zero =>
    intro k
    simp only [LoopAlike, ← last_iff, executeSyncWithRetries, aexecuteWithRetries]
    constructor
    · rintro ⟨events, result, n, hsync, hasync, -⟩
      have hresult := Except.ok.inj (Prod.mk.inj hsync).2
      have honce := (Prod.mk.inj hasync).2
      cases hk : executeOnce tool (run.attempts k) with
      | error c =>
        rw [hk] at honce
        cases honce
      | ok once =>
        rw [hk] at honce
        rw [hresult]
        exact congrArg _ (Except.ok.inj honce)
    · intro h
      exact ⟨_, _, 1, rfl, by rw [h]; rfl, InTurn.single (by omega)⟩
  | succ left ih =>
    intro k
    constructor
    · rintro ⟨events, result, n, hsync, hasync, hturn⟩
      have hearlier := earlierAlike_of_agree hsync hasync hturn
      refine ⟨hearlier, fun hfails => (ih (k + 1)).mp ?_⟩
      obtain ⟨delay, hs, ha⟩ := goesOn_step left k hfails (hearlier.2 hfails)
      rw [hs] at hsync
      rw [ha] at hasync
      obtain ⟨rfl, hresult⟩ := Prod.mk.inj hsync
      obtain ⟨hevents, hresult'⟩ := Prod.mk.inj hasync
      have hlater := (List.cons.inj (List.cons.inj hevents).2).2
      exact ⟨_, result, n - 1, Prod.ext rfl hresult, Prod.ext hlater hresult',
        hturn.uncons (attemptsOf_sync_ne left (k + 1))⟩
    · rintro ⟨hearlier, hlater⟩
      cases hfails : (run.attempts k).fails tool with
      | false =>
        have hover : tool.overrun clock (run.done k) = false := by
          by_contra hover
          rw [hearlier.1 (by simpa using hover)] at hfails
          cases hfails
        obtain ⟨hsync, hasync⟩ := succeeds_step left k hfails hover
        exact ⟨_, _, 1, hsync, hasync, InTurn.single fun _ => hfails⟩
      | true =>
        obtain ⟨events, result, n, hsync, hasync, hturn⟩ := (ih (k + 1)).mpr (hlater hfails)
        obtain ⟨delay, hs, ha⟩ := goesOn_step left k hfails (hearlier.2 hfails)
        rw [hsync] at hs
        rw [hasync] at ha
        exact ⟨_, result, n + 1, hs, ha, hturn.cons hfails⟩

/-! ### The calls of the post hooks are told from those of the loop -/

def ToolEvent.isPost : ToolEvent → Bool
  | .post .. => true
  | _ => false

theorem sync_isPost (left : ℕ) : ∀ k,
    ∀ event ∈ (executeSyncWithRetries tool clock run left k).1, event.isPost = false := by
  induction left with
  | zero =>
    intro k event hevent
    rw [executeSyncWithRetries, List.mem_singleton] at hevent
    rw [hevent]
    rfl
  | succ left ih =>
    intro k
    rw [executeSyncWithRetries]
    dsimp only
    split_ifs
    · simp [ToolEvent.isPost]
    · cases backoffDelay tool.retryDelay k with
      | error e => simp [ToolEvent.isPost]
      | ok delay =>
        dsimp only
        cases clock.sleep delay with
        | error e => simp [ToolEvent.isPost]
        | ok _ => simpa [ToolEvent.isPost] using ih (k + 1)

theorem async_isPost (left : ℕ) : ∀ k,
    ∀ event ∈ (aexecuteWithRetries tool clock run left k).1, event.isPost = false := by
  induction left with
  | zero =>
    intro k event hevent
    rw [aexecuteWithRetries, List.mem_singleton] at hevent
    rw [hevent]
    rfl
  | succ left ih =>
    intro k
    rw [aexecuteWithRetries]
    cases executeOnce tool (run.attempts k) with
    | error e => simp [ToolEvent.isPost]
    | ok result =>
      dsimp only
      split_ifs
      · simp [ToolEvent.isPost]
      · cases backoffDelay tool.retryDelay k with
        | error e => simp [ToolEvent.isPost]
        | ok delay =>
          dsimp only
          cases clock.asyncSleep delay with
          | error e => simp [ToolEvent.isPost]
          | ok _ => simpa [ToolEvent.isPost] using ih (k + 1)

theorem isPost_hookEvents (result : ToolResult) (hooks : List HookOutcome) : ∀ index,
    ∀ event ∈ hookEvents (.post · result) hooks index, event.isPost = true := by
  induction hooks with
  | nil => simp [hookEvents]
  | cons hook hooks ih =>
    intro index
    rw [hookEvents]
    cases hook.raises
    · simpa [ToolEvent.isPost] using ih (index + 1)
    · simp [ToolEvent.isPost]

/-- Calls of a loop, followed by those of post hooks, are read off the whole. -/
theorem calls_inj {calls calls' finish finish' : List ToolEvent}
    (hcalls : ∀ event ∈ calls, event.isPost = false)
    (hcalls' : ∀ event ∈ calls', event.isPost = false)
    (hfinish : ∀ event ∈ finish, event.isPost = true)
    (hfinish' : ∀ event ∈ finish', event.isPost = true)
    (h : calls ++ finish = calls' ++ finish') : calls = calls' ∧ finish = finish' := by
  have hfilter {calls finish : List ToolEvent}
      (hcalls : ∀ event ∈ calls, event.isPost = false)
      (hfinish : ∀ event ∈ finish, event.isPost = true) :
      (calls ++ finish).filter (! ·.isPost) = calls := by
    rw [List.filter_append, List.filter_eq_self.mpr (by simpa using hcalls),
      List.filter_eq_nil_iff.mpr (by simpa using hfinish), List.append_nil]
  have hsame : calls = calls' := by
    rw [← hfilter hcalls hfinish, h, hfilter hcalls' hfinish']
  exact ⟨hsame, List.append_cancel_left (hsame ▸ h)⟩

end Attempts

/-! ### A whole execution -/

theorem attemptsOf_hookEvents {event : ℕ → ToolEvent} (h : ∀ index, attemptsOf [event index] = [])
    (hooks : List HookOutcome) : ∀ index, attemptsOf (hookEvents event hooks index) = [] := by
  induction hooks with
  | nil => exact fun _ => rfl
  | cons hook hooks ih =>
    intro index
    have hcons (events : List ToolEvent) :
        attemptsOf (event index :: events) = attemptsOf [event index] ++ attemptsOf events := by
      rw [← List.singleton_append, attemptsOf, List.filterMap_append]
      rfl
    rw [hookEvents, hcons, h]
    cases hook.raises
    · exact ih (index + 1)
    · rfl

theorem attemptsOf_append (events later : List ToolEvent) :
    attemptsOf (events ++ later) = attemptsOf events ++ attemptsOf later :=
  List.filterMap_append

theorem attemptsOf_pre (hooks : List HookOutcome) : attemptsOf (hookEvents .pre hooks 0) = [] :=
  attemptsOf_hookEvents (fun _ => rfl) hooks 0

theorem attemptsOf_post (hooks : List HookOutcome) (result : ToolResult) :
    attemptsOf (hookEvents (.post · result) hooks 0) = [] :=
  attemptsOf_hookEvents (fun _ => rfl) hooks 0

theorem AttemptedInTurn.none {tool : ExecutableTool} {run : ToolRun} {events : List ToolEvent}
    (h : attemptsOf events = []) : AttemptedInTurn tool run events :=
  ⟨0, h, by omega, fun k hk => absurd hk (by omega), fun h0 => absurd h0 (by omega)⟩

/-- A pre hook raises. -/
theorem agrees_pre {tool : ExecutableTool} {clock : Clock} {run : ToolRun} {hook : HookOutcome}
    (h : run.pre.find? HookOutcome.raises = some hook) : Agrees tool clock run ↔ hook.Alike := by
  have hraises := List.find?_some h
  obtain ⟨e, he⟩ := Option.isSome_iff_exists.mp ((syncInvokeHook_isSome hook).trans hraises)
  obtain ⟨e', he'⟩ := Option.isSome_iff_exists.mp ((asyncInvokeHook_isSome hook).trans hraises)
  have halike := alike_iff tool hook
  rw [he, he', Option.map_some, Option.map_some, Option.some.injEq] at halike
  have hsync : executeTool tool clock run =
      (hookEvents .pre run.pre 0, .ok (executionErrorResult tool e)) := by
    simp only [executeTool, syncPreHooks, invokeHooks_eq syncInvokeHook_isSome, h,
      Option.bind_some, he]
  have hasync : aexecuteTool tool clock run =
      (hookEvents .pre run.pre 0, .ok (executionErrorResult tool e')) := by
    simp only [aexecuteTool, asyncPreHooks, invokeHooks_eq asyncInvokeHook_isSome, h,
      Option.bind_some, he']
  rw [← halike, Agrees, hsync, hasync]
  constructor
  · rintro ⟨events, result, hs, ha, -⟩
    have hsame := (Prod.mk.inj (hs.trans ha.symm)).2
    exact Except.ok.inj hsame
  · intro hsame
    exact ⟨_, _, rfl, by rw [hsame], .none (attemptsOf_pre run.pre)⟩

/-- The hooks let the input through and its validation fails. -/
theorem agrees_invalid {tool : ExecutableTool} {clock : Clock} {run : ToolRun} {text : String}
    (h : run.pre.find? HookOutcome.raises = none) (hinvalid : run.invalid = some text) :
    Agrees tool clock run ↔ ∀ hook ∈ run.post.find? HookOutcome.raises, hook.Alike := by
  have hfinish := finish_iff tool run (validationErrorResult tool text)
    (validationErrorResult tool text)
  rw [eq_self_iff_true, true_and] at hfinish
  have hsync : executeTool tool clock run =
      (hookEvents .pre run.pre 0 ++ (syncFinish tool run (validationErrorResult tool text)).1,
        (syncFinish tool run (validationErrorResult tool text)).2) := by
    simp only [executeTool, syncPreHooks, invokeHooks_eq syncInvokeHook_isSome, h,
      Option.bind_none, hinvalid]
  have hasync : aexecuteTool tool clock run =
      (hookEvents .pre run.pre 0 ++ (asyncFinish tool run (validationErrorResult tool text)).1,
        (asyncFinish tool run (validationErrorResult tool text)).2) := by
    simp only [aexecuteTool, asyncPreHooks, invokeHooks_eq asyncInvokeHook_isSome, h,
      Option.bind_none, hinvalid]
  rw [← hfinish, Agrees, hsync, hasync]
  constructor
  · rintro ⟨events, result, hs, ha, -⟩
    obtain ⟨hevents, hresult⟩ := Prod.mk.inj (hs.trans ha.symm)
    exact Prod.ext (List.append_cancel_left hevents) hresult
  · intro hsame
    rw [hsame]
    refine ⟨_, _, rfl, rfl, .none ?_⟩
    rw [attemptsOf_append, attemptsOf_pre, asyncFinish_eq]
    exact attemptsOf_post run.post _

/-- The attempts are made. -/
theorem agrees_attempts {tool : ExecutableTool} {clock : Clock} {run : ToolRun}
    (h : run.pre.find? HookOutcome.raises = none) (hvalid : run.invalid = none) :
    Agrees tool clock run ↔ LoopAlike tool clock run tool.retries 0 ∧
      ∀ hook ∈ run.post.find? HookOutcome.raises, hook.Alike := by
  have hsync : executeTool tool clock run =
      match executeSyncWithRetries tool clock run tool.retries 0 with
      | (calls, .error e) => (hookEvents .pre run.pre 0 ++ calls, .error e)
      | (calls, .ok result) =>
        (hookEvents .pre run.pre 0 ++ calls ++ (syncFinish tool run result).1,
          (syncFinish tool run result).2) := by
    simp only [executeTool, syncPreHooks, invokeHooks_eq syncInvokeHook_isSome, h,
      Option.bind_none, hvalid]
  have hasync : aexecuteTool tool clock run =
      match aexecuteWithRetries tool clock run tool.retries 0 with
      | (calls, .error e) => (hookEvents .pre run.pre 0 ++ calls, .error e)
      | (calls, .ok result) =>
        (hookEvents .pre run.pre 0 ++ calls ++ (asyncFinish tool run result).1,
          (asyncFinish tool run result).2) := by
    simp only [aexecuteTool, asyncPreHooks, invokeHooks_eq asyncInvokeHook_isSome, h,
      Option.bind_none, hvalid]
  have hattempts (calls finish : List ToolEvent) (hfinish : attemptsOf finish = []) :
      attemptsOf (hookEvents .pre run.pre 0 ++ calls ++ finish) = attemptsOf calls := by
    rw [attemptsOf_append, attemptsOf_append, attemptsOf_pre, hfinish, List.append_nil,
      List.nil_append]
  rw [← loop_iff, Agrees, hsync, hasync]
  constructor
  · rintro ⟨events, result, hs, ha, n, hmade, hbound, hearlier, hlast⟩
    cases hloop : executeSyncWithRetries tool clock run tool.retries 0 with
    | mk calls end? =>
      cases haloop : aexecuteWithRetries tool clock run tool.retries 0 with
      | mk calls' end?' =>
        rw [hloop] at hs
        rw [haloop] at ha
        cases end? with
        | error e => cases (Prod.mk.inj hs).2
        | ok r =>
          cases end?' with
          | error e => cases (Prod.mk.inj ha).2
          | ok r' =>
            have hcalls := @sync_isPost tool clock run tool.retries 0
            have hcalls' := @async_isPost tool clock run tool.retries 0
            rw [hloop] at hcalls
            rw [haloop] at hcalls'
            dsimp only at hs ha hcalls hcalls'
            obtain ⟨hevents, hresult⟩ := Prod.mk.inj (hs.trans ha.symm)
            rw [List.append_assoc, List.append_assoc] at hevents
            obtain ⟨rfl, hposts⟩ := calls_inj hcalls hcalls'
              (by rw [syncFinish_eq]; exact isPost_hookEvents r run.post 0)
              (by rw [asyncFinish_eq]; exact isPost_hookEvents r' run.post 0)
              (List.append_cancel_left hevents)
            have hfinish : syncFinish tool run r = asyncFinish tool run r' :=
              Prod.ext hposts hresult
            obtain ⟨rfl, hpost⟩ := (finish_iff tool run r r').mp hfinish
            refine ⟨⟨calls, r, n, rfl, rfl, ?_⟩, hpost⟩
            have hcalls : attemptsOf events = attemptsOf calls := by
              rw [← (Prod.mk.inj hs).1]
              exact hattempts calls _ (by rw [syncFinish_eq]; exact attemptsOf_post run.post _)
            have hne := @attemptsOf_sync_ne tool clock run tool.retries 0
            rw [hloop, ← hcalls, hmade] at hne
            have hpos : 0 < n := by
              rcases n with _ | n
              · exact absurd rfl hne
              · omega
            refine ⟨?_, hpos, hbound, fun j hj => ?_, fun hn => ?_⟩
            · rw [← hcalls, hmade, List.range_eq_range']
            · rw [Nat.zero_add]
              exact hearlier j hj
            · rw [Nat.zero_add]
              exact hlast hpos hn
  · rintro ⟨⟨calls, r, n, hloop, haloop, hturn⟩, hpost⟩
    have hfinish := (finish_iff tool run r r).mpr ⟨rfl, hpost⟩
    rw [hloop, haloop]
    dsimp only
    rw [← hfinish]
    refine ⟨_, _, rfl, rfl, n, ?_, hturn.bound, fun k hk => ?_, fun _ hn => ?_⟩
    · rw [hattempts calls _ (by rw [syncFinish_eq]; exact attemptsOf_post run.post _), hturn.made,
        List.range_eq_range']
    · have hk' := hturn.earlier k hk
      rwa [Nat.zero_add] at hk'
    · have hlast := hturn.last hn
      rwa [Nat.zero_add] at hlast

/-- The two executions of a tool agree exactly when no exception that decides becomes another
one in one of them only, and no wait is refused in one of them only. -/
theorem agrees_iff (tool : ExecutableTool) (clock : Clock) (run : ToolRun) :
    Agrees tool clock run ↔ RunsAlike tool clock run := by
  unfold RunsAlike
  cases hpre : run.pre.find? HookOutcome.raises with
  | some hook => exact agrees_pre hpre
  | none =>
    cases hinvalid : run.invalid with
    | some text =>
      rw [agrees_invalid hpre hinvalid]
      simp
    | none =>
      have hloop := @loopAlike_iff tool clock run tool.retries 0
      simp only [Nat.zero_add] at hloop
      rw [agrees_attempts hpre hinvalid, hloop]
      simp

/-- The clock of a platform that counts nanoseconds in 64 bits. -/
def nanoClock : Clock where
  longest := 9223372036
  longest_lt := lt_of_lt_of_le (by norm_num) (pow_le_pow_right₀ (by norm_num) (by omega : 64 ≤ 1024))
  tooLong := "timestamp out of range for platform time_t"
  awaitsNan := .ok ()

def slowTool : ExecutableTool where
  name := "slow"
  isCoroutine := true
  timeout := some (.seconds 5 (by norm_num) "5.0")

/-- The callable raises a `TimeoutError` of its own. -/
def slowRun : ToolRun where
  pre := []
  invalid := none
  attempts := fun _ => .raised ⟨.timeout (some "no answer"), "no answer"⟩
  done := fun _ => false
  post := []

/-- The synchronous execution reports the timeout of the tool, the other one the error. -/
theorem not_agrees : ¬ Agrees slowTool nanoClock slowRun := by
  rintro ⟨events, result, hsync, hasync, -⟩
  have hwaits : slowTool.overrun nanoClock false = false := by
    simp [ExecutableTool.overrun, slowTool, Clock.refuses, nanoClock]
    norm_num
  have htimed : result = timeoutResult slowTool "5.0" := by
    have h := (Prod.mk.inj hsync).2
    have honce : executeSyncOnce slowTool nanoClock false (slowRun.attempts 0) =
        timeoutResult slowTool "5.0" := by
      unfold executeSyncOnce
      rw [hwaits]
      rfl
    exact (Except.ok.inj h).symm.trans honce
  have hfailed : result = executionErrorResult slowTool ⟨.timeout (some "no answer"), "no answer"⟩ := by
    have h := (Prod.mk.inj hasync).2
    exact (Except.ok.inj h).symm
  exact timeoutResult_ne slowTool "5.0" _ (hfailed.symm.trans htimed)

end Blackgeorge.Tools
