import Blackgeorge.Coroutine.First
import Blackgeorge.WorkerRunner.Blind
import Blackgeorge.WorkerRunner.Waiting

/-! The first model call of a run. It sends the messages the run begins with, unless these
are so many that they are summarized first. -/

namespace Blackgeorge.WorkerRunner

open Data Program Coroutine Coro

/-- The messages of a model call's request. -/
def sentMessages : Event sig → Option (List PayloadMessage)
  | ⟨.complete _ call, _⟩ => some call.messages
  | ⟨.structured _ call, _⟩ => some call.messages
  | _ => none

/-- The event sends the messages. -/
def Sends (messages : List Message) (e : Event sig) : Prop :=
  sentMessages e = some (messagesToPayload messages)

/-- The messages need no compaction before they are sent. -/
def FitsLimit (limit : Option ℕ) (messages : List Message) : Prop :=
  ∀ l, limit = some l → messages.length ≤ l

/-- The first model call of a run sends the messages, or it makes none and ends. -/
abbrev Opens {α : Type} (messages : List Message) (ended : α → Prop) (t : Trace sig)
    (r : Except Exn α) : Prop :=
  Begins (S := sig) isModelCall (Sends messages) ended t r

variable {ok : ∀ q, Answer q → Prop}

theorem opens_bind {α β : Type} {messages : List Message} {c : Prog α} {g : α → Prog β} {P : α → Prop}
    {ended : β → Prop} (hc : Each speechless c P)
    (hg : ∀ a, P a → Tells (S := sig) ok (g a) (Opens messages ended)) :
    Tells (S := sig) ok (c >>= g) (Opens messages ended) := by
  have hsilent : Tells (S := sig) ok c fun t r => (∀ e ∈ t, isModelCall e = false) ∧ ∀ a, r = .ok a → P a := by
    intro w
    exact wp_mono (R := speechless.rules) (fun _ _ _ => trivial) (fun _ _ _ => trivial)
      (fun _ _ _ => trivial) (fun _ _ _ h => h) (hc w)
  refine tells_bind hsilent ?_ ?_
  · rintro t e ⟨ht, -⟩
    exact begins_of_none ht fun _ h => nomatch h
  · rintro t a ⟨ht, ha⟩
    exact (hg a (ha a rfl)).mono fun t' r ht' => ht'.after_none ht

/-! ### The call of a turn -/

/-- The program begins with a model call that sends the messages. -/
abbrev Calls {α : Type} (messages : List Message) (c : Prog α) : Prop :=
  Asks (S := sig) isModelCall (Sends messages) c

theorem calls_completion (ctx : RunContext) (messages : List Message) (tools : List Tool) (job : Job) :
    Calls messages (completion ctx messages tools job) :=
  Asks.bind (S := sig) fun _ => ⟨rfl, rfl⟩

theorem calls_streamCompletion (ctx : RunContext) (workerName : String) (messages : List Message)
    (tools : List Tool) (job : Job) (schema : Option Schema) :
    Calls messages (streamCompletion ctx workerName messages tools job schema) :=
  Asks.bind (S := sig) fun _ => ⟨rfl, rfl⟩

theorem calls_structuredOrReport (ctx : RunContext) (state : LoopState) (job : Job) (schema : Schema) :
    Calls state.messages (structuredOrReport ctx state job schema) := by
  have hanswer : Calls state.messages (structuredAnswer (structuredRequest ctx state.messages job schema)) :=
    Asks.bind (S := sig) fun _ => ⟨rfl, rfl⟩
  exact Asks.bind (S := sig) (Asks.attempt (S := sig) (Asks.bind (S := sig) hanswer))

theorem calls_acquireTurnResponse (ctx : RunContext) (state : LoopState) (job : Job)
    (tools : List Tool) : Calls state.messages (acquireTurnResponse ctx state job tools) := by
  have hcompletion := Asks.attempt (S := sig) (calls_completion ctx state.messages tools job)
  unfold acquireTurnResponse
  split
  · split_ifs
    · exact Asks.bind (S := sig) (Asks.attempt (S := sig) (calls_streamCompletion _ _ _ _ _ _))
    · exact calls_structuredOrReport _ _ _ _
    · exact Asks.bind (S := sig) hcompletion
  · apply Asks.bind (S := sig)
    split_ifs
    · exact Asks.attempt (S := sig) (calls_streamCompletion _ _ _ _ _ _)
    · exact hcompletion

/-! ### The first turn -/

theorem compactToLimit_fits {ctx : RunContext} {state : LoopState} (h : FitsLimit ctx.config.maxContextMessages state.messages) :
    compactToLimit ctx state = pure state := by
  unfold compactToLimit
  cases hlimit : ctx.config.maxContextMessages with
  | none => rfl
  | some limit => exact if_neg (Nat.not_lt.mpr (h limit hlimit))

theorem speechless_failReport (ctx : RunContext) (state : LoopState) (message : String) :
    Each speechless (failReport ctx state message) fun _ => True :=
  each_bind (each_emit permits_speechless _ _ _ _) fun _ _ => each_pure trivial

/-- The run ended without a paused state. -/
abbrev Unpaused (outcome : Report × Option WorkerState) : Prop := outcome.2 = none

theorem opens_failed {messages : List Message} (report : Report) :
    Tells (S := sig) ok (pure (report, none)) (Opens messages Unpaused) := by
  refine tells_pure (begins_of_none (by simp) ?_)
  rintro _ ⟨⟩
  rfl

theorem opens_runLoop (ctx : RunContext) (job : Job) (tools : List Tool) (left : ℕ) {state : LoopState}
    (h : FitsLimit ctx.config.maxContextMessages state.messages) :
    Tells (S := sig) ok (runLoop ctx job tools left state) (Opens state.messages Unpaused) := by
  cases left with
  | zero => exact opens_bind (speechless_failReport _ _ _) fun _ _ => opens_failed _
  | succ left =>
    refine opens_bind (P := fun _ => True) (each_look (fun _ => trivial) fun _ => trivial) ?_
    intro totals _
    dsimp only
    split
    · exact opens_bind (speechless_failReport _ _ _) fun _ _ => opens_failed _
    · have hcompacted := @compactToLimit_fits ctx { state with iteration := state.iteration + 1 } h
      have hcalls := calls_acquireTurnResponse ctx { state with iteration := state.iteration + 1 } job tools
      rw [hcompacted, pure_bind]
      exact Asks.tells (Asks.bind (S := sig) hcalls)

theorem opens_arun (worker : Worker) (config : RunConfig) (job : Job)
    (h : FitsLimit config.maxContextMessages (buildMessages worker.instructions job)) :
    Tells (S := sig) ok (arun worker config job)
      (Opens (buildMessages worker.instructions job) Unpaused) := by
  unfold arun
  dsimp only
  split_ifs
  · exact opens_bind (each_emit permits_speechless _ _ _ _) fun _ _ => opens_failed _
  · refine opens_bind (P := fun _ => True) (each_query fun _ _ => ⟨rfl, trivial⟩) fun registered _ => ?_
    refine opens_bind (each_emit permits_speechless _ _ _ _) fun _ _ => ?_
    exact @opens_runLoop ok _ _ _ _ (startState worker config job registered) h

end Blackgeorge.WorkerRunner
