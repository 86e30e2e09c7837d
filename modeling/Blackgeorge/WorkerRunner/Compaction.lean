import Blackgeorge.Coroutine.Solo
import Blackgeorge.Program.Environment
import Blackgeorge.Program.Laws
import Blackgeorge.WorkerRunner.Run

/-! What a compaction leaves of the history: all of it, or the system messages, a summary and
a suffix of the rest. -/

namespace Blackgeorge.WorkerRunner

open Data Program Coroutine Coro

def systemMessages (messages : List Message) : List Message := messages.filter (·.role = .system)

def nonSystem (messages : List Message) : List Message := messages.filter (·.role ≠ .system)

theorem length_systemMessages (messages : List Message) :
    (systemMessages messages).length + (nonSystem messages).length = messages.length := by
  induction messages with
  | nil => rfl
  | cons m messages ih =>
    unfold systemMessages nonSystem at ih ⊢
    by_cases h : m.role = .system
    · rw [List.filter_cons_of_pos (by simpa using h), List.filter_cons_of_neg (by simpa using h),
        List.length_cons, List.length_cons]
      omega
    · rw [List.filter_cons_of_neg (by simpa using h), List.filter_cons_of_pos (by simpa using h),
        List.length_cons, List.length_cons]
      omega

/-! ### The cut -/

theorem moveBoundary_le (messages : List Message) (fuel : ℕ) : ∀ boundary,
    moveBoundary messages fuel boundary ≤ boundary := by
  induction fuel with
  | zero => exact fun _ => le_rfl
  | succ fuel ih =>
    intro boundary
    unfold moveBoundary
    by_cases hzero : boundary = 0
    · rw [if_pos hzero]
      exact Nat.zero_le _
    · rw [if_neg hzero]
      dsimp only
      by_cases hids : toolCallIdSet (messages.drop boundary) = []
      · rw [if_pos hids]
      · rw [if_neg hids]
        split
        · exact le_rfl
        · next index hindex => exact (ih index).trans (matchingAssistantIndex_lt hindex).le

theorem clampBoundary_nat (messages : List Message) (boundary : ℕ) :
    clampBoundary messages boundary = min boundary messages.length := by
  unfold clampBoundary
  omega

theorem preserveToolCallBoundary_le (messages : List Message) (boundary : ℤ) :
    preserveToolCallBoundary messages boundary ≤ clampBoundary messages boundary :=
  moveBoundary_le _ _ _

/-- At the end of the history nothing is cut apart. -/
theorem preserveToolCallBoundary_length (messages : List Message) :
    preserveToolCallBoundary messages messages.length = messages.length := by
  unfold preserveToolCallBoundary moveBoundary
  rw [clampBoundary_nat, Nat.min_self]
  by_cases hzero : messages.length = 0
  · rw [if_pos hzero, hzero]
  · rw [if_neg hzero]
    simp [toolCallIdSet]

/-- How many messages behind the summary are asked for. -/
def tailLimit (messages : List Message) : Option ℕ → ℕ
  | none => summaryTailMessages
  | some limit => min summaryTailMessages (limit - (systemMessages messages).length - 1)

/-- Where the cut is asked for. -/
def requestedCut (messages : List Message) (limit : Option ℕ) : ℕ :=
  (nonSystem messages).length - tailLimit messages limit

/-- The tail that is kept is longer than asked for, to keep a group of tool calls together. -/
def TailExtended (messages : List Message) (preserveRecent : Bool) (limit : Option ℕ) : Prop :=
  preserveRecent = true ∧
    preserveToolCallBoundary (nonSystem messages) (requestedCut messages limit) < requestedCut messages limit

/-- What a split promises: the parts make up the history, and the tail is short. -/
structure Split (messages : List Message) (preserveRecent : Bool) (limit : Option ℕ)
    (parts : List Message × List Message × List Message) : Prop where
  system_eq : parts.1 = systemMessages messages
  rest_eq : parts.2.1 ++ parts.2.2 = nonSystem messages
  tail_le : parts.2.1 ≠ [] →
    parts.2.2.length ≤ tailLimit messages limit ∨ TailExtended messages preserveRecent limit

theorem summarySplit_eq (messages : List Message) (preserveRecent : Bool) (limit : Option ℕ) :
    summarySplit messages preserveRecent limit =
      if nonSystem messages = [] then (systemMessages messages, [], [])
      else if (nonSystem messages).length ≤ tailLimit messages limit then
        if preserveRecent then (systemMessages messages, [], nonSystem messages)
        else (systemMessages messages, nonSystem messages, [])
      else
        let boundary := preserveToolCallBoundary (nonSystem messages)
          (if preserveRecent then requestedCut messages limit else (nonSystem messages).length : ℕ)
        (systemMessages messages, (nonSystem messages).take boundary,
          (nonSystem messages).drop boundary) := by
  cases limit <;> rfl

theorem summarySplit_split (messages : List Message) (preserveRecent : Bool) (limit : Option ℕ) :
    Split messages preserveRecent limit (summarySplit messages preserveRecent limit) := by
  rw [summarySplit_eq]
  by_cases hnil : nonSystem messages = []
  · rw [if_pos hnil]
    exact ⟨rfl, hnil.symm, fun h => absurd rfl h⟩
  · rw [if_neg hnil]
    by_cases hshort : (nonSystem messages).length ≤ tailLimit messages limit
    · rw [if_pos hshort]
      cases preserveRecent with
      | true => exact ⟨rfl, rfl, fun h => absurd rfl h⟩
      | false => exact ⟨rfl, List.append_nil _, fun _ => .inl (Nat.zero_le _)⟩
    · rw [if_neg hshort]
      dsimp only
      refine ⟨rfl, List.take_append_drop _ _, fun _ => ?_⟩
      rw [List.length_drop]
      cases preserveRecent with
      | false =>
        left
        rw [if_neg Bool.false_ne_true, preserveToolCallBoundary_length, Nat.sub_self]
        exact Nat.zero_le _
      | true =>
        rw [if_pos rfl]
        by_cases hmoved : preserveToolCallBoundary (nonSystem messages) (requestedCut messages limit) <
            requestedCut messages limit
        · exact .inr ⟨rfl, hmoved⟩
        · left
          have hcut := Nat.le_of_not_lt hmoved
          unfold requestedCut at hcut ⊢
          omega

/-! ### The compaction -/

theorem runs_tryExcept {α : Type} {ok : ∀ q, Answer q → Prop} {c : Prog α} {handler : Exn → Prog α}
    {w w' : World} {t : Trace sig} {r : Except Exn α}
    (h : Runs (S := sig) ok (Prog.tryExcept c handler) w t r w') :
    ∃ outcome t₁ t₂ w₁, Runs (S := sig) ok c w t₁ outcome w₁ ∧ t = t₁ ++ t₂ ∧
      ((∃ a, outcome = .ok a ∧ r = .ok a ∧ t₂ = [] ∧ w' = w₁) ∨
        ∃ e, outcome = .error e ∧
          ((e.isException = true ∧ Runs (S := sig) ok (handler e) w₁ t₂ r w') ∨
            (e.isException = false ∧ r = .error e ∧ t₂ = [] ∧ w' = w₁))) := by
  rcases runs_bind h with ⟨e, hc, rfl⟩ | ⟨outcome, t₁, t₂, w₁, hc, hrest, rfl⟩
  · obtain ⟨_, h', -⟩ := runs_attempt hc
    cases h'
  · obtain ⟨outcome', h', hc'⟩ := runs_attempt hc
    obtain rfl := Except.ok.inj h'
    refine ⟨outcome, t₁, t₂, w₁, hc', rfl, ?_⟩
    cases outcome with
    | ok a =>
      cases hrest
      exact .inl ⟨a, rfl, rfl, rfl, rfl⟩
    | error e =>
      refine .inr ⟨e, rfl, ?_⟩
      dsimp only at hrest
      by_cases he : e.isException = true
      · rw [if_pos he] at hrest
        exact .inl ⟨he, hrest⟩
      · rw [if_neg he] at hrest
        cases hrest
        exact .inr ⟨by simpa using he, rfl, rfl, rfl⟩

/-- All system messages, one summary and a suffix of the rest: no longer than before, and
within the limit but for a group of tool calls that is kept together. -/
structure Shortened (preserveRecent : Bool) (limit : Option ℕ) (summary : String)
    (state state' : LoopState) : Prop where
  replaced : ∃ kept, kept <:+ nonSystem state.messages ∧
    state'.messages = systemMessages state.messages ++ summaryMessage summary :: kept
  length_le : state'.messages.length ≤ state.messages.length
  within : ∀ l, limit = some l →
    state'.messages.length ≤ max l ((systemMessages state.messages).length + 1) ∨
      TailExtended state.messages preserveRecent limit

theorem shortened_of_split {preserveRecent : Bool} {limit : Option ℕ} {state state' : LoopState}
    {summary : String} {parts : List Message × List Message × List Message}
    (h : Split state.messages preserveRecent limit parts) (hhead : parts.2.1 ≠ [])
    (hmessages : state'.messages = parts.1 ++ [summaryMessage summary] ++ parts.2.2) :
    Shortened preserveRecent limit summary state state' := by
  have hlength := length_systemMessages state.messages
  have hrest := congrArg List.length h.rest_eq
  have hpos := List.length_pos_iff.mpr hhead
  rw [List.length_append] at hrest
  have hnew : state'.messages.length = (systemMessages state.messages).length + 1 + parts.2.2.length := by
    rw [hmessages, h.system_eq, List.length_append, List.length_append, List.length_singleton]
  refine ⟨⟨parts.2.2, ⟨parts.2.1, h.rest_eq⟩, ?_⟩, by omega, ?_⟩
  · rw [hmessages, h.system_eq, List.append_assoc]
    rfl
  · rintro l rfl
    refine (h.tail_le hhead).imp_left fun htail => ?_
    have hlimit : tailLimit state.messages (some l) ≤ l - (systemMessages state.messages).length - 1 :=
      Nat.min_le_right _ _
    omega

/-- The messages that a compaction summarizes. -/
def summarized (state : LoopState) (preserveRecent : Bool) (limit : Option ℕ) : List Message :=
  (summarySplit state.messages preserveRecent limit).2.1

/-! ### Empty summaries -/

/-- None of the messages has anything to summarize. -/
def Textless (messages : List Message) : Prop :=
  messages ≠ [] ∧ ∀ m ∈ messages, messageSummaryText m = .ok ""

section

variable {ok : ∀ q, Answer q → Prop}

theorem filled_summarizeChunk (modelName chunk : String) (temperature : Option ℚ) :
    Each anyLaw (summarizeChunk modelName chunk temperature) fun _ => True := by
  refine each_bind (each_query fun _ _ => ⟨trivial, trivial⟩) ?_
  rintro (e | answer) -
  · dsimp only
    split_ifs
    · refine each_bind (P := fun _ => True) (each_query fun _ _ => ⟨trivial, trivial⟩) fun r _ => ?_
      exact each_bind (P := fun _ => True) (each_ofExcept fun _ _ => trivial) fun _ _ => each_pure trivial
    · exact each_raise
  · exact each_pure trivial

theorem filled_summarizeChunks (modelName : String) (temperature : Option ℚ) (chunks : List String) :
    Each anyLaw (summarizeChunks modelName temperature chunks) fun summaries => "" ∉ summaries := by
  induction chunks with
  | nil => exact each_pure List.not_mem_nil
  | cons chunk chunks ih =>
    refine each_bind (filled_summarizeChunk modelName chunk temperature) fun summary _ => each_bind ih fun summaries hsummaries => each_pure ?_
    split_ifs with hempty
    · exact hsummaries
    · simpa [hsummaries] using Ne.symm hempty

theorem intercalate_ne {separator text : String} {texts : List String} (h : text ≠ "") :
    separator.intercalate (text :: texts) ≠ "" := by
  cases texts with
  | nil => rwa [String.intercalate_singleton]
  | cons next texts =>
    rw [String.intercalate_cons_cons]
    intro hempty
    rw [String.append_eq_empty_iff, String.append_eq_empty_iff] at hempty
    exact h hempty.1.1

/-- What the model makes of a text is never empty. -/
theorem filled_summarizeText (modelName text : String) (temperature : Option ℚ) (targetTokens : ℕ) :
    Each anyLaw (summarizeText modelName text temperature targetTokens) (· ≠ some "") := by
  have hcount : Each anyLaw (tokenCount modelName text) fun _ => True := by
    unfold tokenCount
    split_ifs
    · exact each_pure trivial
    · exact each_query fun _ _ => ⟨trivial, trivial⟩
  refine each_bind (P := fun _ => True) ?_ fun chunks _ => ?_
  · unfold chunkText
    split_ifs
    · exact each_pure trivial
    · refine each_bind hcount fun count _ => ?_
      split_ifs <;> exact each_pure trivial
  refine each_bind (filled_summarizeChunks modelName temperature chunks) fun summaries hsummaries => ?_
  cases summaries with
  | nil => exact each_pure (by simp)
  | cons summary summaries =>
    have hmerged : "\n".intercalate (summary :: summaries) ≠ "" := by
      refine intercalate_ne fun hempty => hsummaries ?_
      rw [hempty]
      exact List.mem_cons_self
    rw [if_neg (List.cons_ne_nil _ _)]
    dsimp only
    split_ifs
    · refine each_bind (filled_summarizeChunk modelName _ temperature) fun combined _ => each_pure ?_
      split_ifs with hcombined
      · simpa using hmerged
      · simpa using hcombined
    · exact each_pure (by simpa using hmerged)

theorem filled_summarizeAttempts (modelName text : String) (temperature : Option ℚ) (attempts targetTokens : ℕ) :
    Each anyLaw (summarizeAttempts modelName text temperature attempts targetTokens) (· ≠ some "") := by
  induction attempts generalizing targetTokens with
  | zero => exact each_pure (by simp)
  | succ attempts ih =>
    refine each_tryExcept (filled_summarizeText modelName text temperature targetTokens) fun e => ?_
    split_ifs
    · exact ih _
    · exact each_raise

theorem lines_eq_nil_iff {messages : List Message} {lines : List String}
    (h : messages.mapM messageSummaryText = .ok lines) :
    lines.filter (· ≠ "") = [] ↔ ∀ m ∈ messages, messageSummaryText m = .ok "" := by
  induction messages generalizing lines with
  | nil =>
    obtain rfl := Except.ok.inj h
    simp
  | cons m messages ih =>
    rw [List.mapM_cons] at h
    cases hm : messageSummaryText m with
    | error e => rw [hm] at h; cases h
    | ok line =>
      cases hrest : messages.mapM messageSummaryText with
      | error e => rw [hm, hrest] at h; cases h
      | ok rest =>
        rw [hm, hrest] at h
        obtain rfl : line :: rest = lines := Except.ok.inj h
        by_cases hline : line = ""
        · rw [List.filter_cons_of_neg (by simpa using hline), ih hrest, List.forall_mem_cons, hm, hline]
          simp
        · rw [List.filter_cons_of_pos (by simpa using hline), List.forall_mem_cons, hm]
          simp [hline]

theorem mapM_textless {messages : List Message} (h : ∀ m ∈ messages, messageSummaryText m = .ok "") :
    ∃ lines, messages.mapM messageSummaryText = .ok lines := by
  induction messages with
  | nil => exact ⟨[], rfl⟩
  | cons m messages ih =>
    obtain ⟨hm, hrest⟩ := List.forall_mem_cons.mp h
    obtain ⟨lines, hlines⟩ := ih hrest
    exact ⟨"" :: lines, by rw [List.mapM_cons, hm, hlines]; rfl⟩

/-- Without any text the summary is empty, and the model is not asked. -/
theorem summarizeMessages_textless {messages : List Message}
    (h : ∀ m ∈ messages, messageSummaryText m = .ok "") (modelName : String) (temperature : Option ℚ) :
    summarizeMessages modelName messages temperature = pure (some "") := by
  obtain ⟨lines, hlines⟩ := mapM_textless h
  have hempty := (lines_eq_nil_iff hlines).mpr h
  unfold summarizeMessages
  rw [hlines]
  show (if lines.filter (· ≠ "") = [] then _ else _) = _
  rw [if_pos hempty]

/-- Only messages without any text have an empty summary. -/
theorem textless_of_summary {modelName : String} {messages : List Message} {temperature : Option ℚ}
    {w w' : World} {t : Trace sig}
    (h : Runs (S := sig) ok (summarizeMessages modelName messages temperature) w t (.ok (some "")) w') :
    ∀ m ∈ messages, messageSummaryText m = .ok "" := by
  unfold summarizeMessages at h
  cases hlines : messages.mapM messageSummaryText with
  | error e => rw [hlines] at h; cases h
  | ok lines =>
    rw [hlines] at h
    change Runs (S := sig) ok (if lines.filter (· ≠ "") = [] then _ else _) w t _ w' at h
    by_cases hempty : lines.filter (· ≠ "") = []
    · exact (lines_eq_nil_iff hlines).mp hempty
    · rw [if_neg hempty] at h
      exact absurd rfl (((filled_summarizeAttempts _ _ _ _ _).runs (h.mono fun _ _ _ => trivial)).2 _ rfl)

end

/-! ### What a compaction owes -/

/-- What a compaction returns: without anything to summarize, or without a summary of it, the
state as it was. It raises a cancellation, or what storing its event raises. -/
theorem applyContextSummary_runs (ok : ∀ q, Answer q → Prop) (config : RunConfig)
    (modelName : String) (state : LoopState) (preserveRecent : Bool) (limit : Option ℕ) {w w' : World}
    {t : Trace sig} {r : Except Exn (Bool × LoopState)}
    (h : Runs (S := sig) ok (applyContextSummary config modelName state preserveRecent limit) w t r w') :
    (summarized state preserveRecent limit = [] ∧ r = .ok (false, state)) ∨
    ∃ outcome t₁ t₂ w₁, Runs (S := sig) ok
        (summarizeMessages modelName (summarized state preserveRecent limit) config.temperature)
        w t₁ outcome w₁ ∧ t = t₁ ++ t₂ ∧
      match outcome with
      | .ok none => r = .ok (false, state)
      | .ok (some summary) => (∃ state', r = .ok (true, state') ∧ Shortened preserveRecent limit summary state state') ∨
          ∃ e info, r = .error e ∧ Runs (S := sig) ok
            (config.emit "worker.context_summarized" state.workerName info) w₁ t₂ (.error e) w'
      | .error e => if e.isException then r = .ok (false, state) else r = .error e := by
  have hsplit := summarySplit_split state.messages preserveRecent limit
  unfold summarized
  unfold applyContextSummary at h
  generalize summarySplit state.messages preserveRecent limit = parts at h hsplit ⊢
  obtain ⟨systemMessages, head, tail⟩ := parts
  dsimp only at h ⊢
  by_cases hhead : head = []
  · rw [if_pos hhead] at h
    cases h
    exact .inl ⟨hhead, rfl⟩
  · rw [if_neg hhead] at h
    right
    rcases runs_bind h with ⟨e, hsummary, rfl⟩ | ⟨found, t₁, t₂, w₁, hsummary, hrest, rfl⟩
    · obtain ⟨outcome, t₁, t₂, w₁, hruns, rfl, ⟨_, _, he, _⟩ | ⟨e', rfl, ⟨_, hhandler⟩ | ⟨hcancel, he, _⟩⟩⟩ :=
        runs_tryExcept hsummary
      · cases he
      · cases hhandler
      · obtain rfl := Except.error.inj he
        exact ⟨_, t₁, t₂, w₁, hruns, rfl, by simp [hcancel]⟩
    · obtain ⟨outcome, s₁, s₂, v₁, hruns, rfl, ⟨a, rfl, ha, rfl, rfl⟩ | ⟨e, rfl, ⟨he, hhandler⟩ | ⟨_, he, _⟩⟩⟩ :=
        runs_tryExcept hsummary
      · obtain rfl := Except.ok.inj ha
        refine ⟨_, s₁, t₂, w₁, hruns, by simp, ?_⟩
        cases found with
        | none =>
          cases hrest
          rfl
        | some summary =>
          dsimp only at hrest ⊢
          rcases runs_bind hrest with ⟨e, hemit, rfl⟩ | ⟨_, t₃, t₄, w₂, hemit, hpure, rfl⟩
          · exact .inr ⟨e, _, rfl, hemit⟩
          · cases hpure
            exact .inl ⟨_, rfl, shortened_of_split hsplit hhead rfl⟩
      · cases hhandler
        cases hrest
        exact ⟨.error e, s₁, [], w', hruns, by simp, by simp [he]⟩
      · cases he

/-- What a compaction owes for the outcome of its summarization: without a summary, with an empty
one and after an exception the state as it was, else a shorter history. It raises a cancellation, or
what storing its own event raises. -/
def Owed (ok : ∀ q, Answer q → Prop) (config : RunConfig) (state : LoopState) (preserveRecent : Bool)
    (limit : Option ℕ) (w w' : World) (t : Trace sig) (r : Except Exn (Bool × LoopState)) :
    Except Exn (Option String) → Prop
  | .ok none => r = .ok (false, state)
  | .ok (some summary) =>
    if summary = "" then r = .ok (false, state)
    else (∃ state', r = .ok (true, state') ∧ Shortened preserveRecent limit summary state state') ∨
      ∃ e info, r = .error e ∧ Runs (S := sig) ok
        (config.emit "worker.context_summarized" state.workerName info) w t (.error e) w'
  | .error e => if e.isException then r = .ok (false, state) else r = .error e

/-- A compaction either leaves the state, as there is nothing to summarize, or does what it owes. -/
def Compacts (ok : ∀ q, Answer q → Prop) (config : RunConfig) (modelName : String) (state : LoopState)
    (preserveRecent : Bool) (limit : Option ℕ) (w w' : World) (t : Trace sig)
    (r : Except Exn (Bool × LoopState)) : Prop :=
  (summarized state preserveRecent limit = [] ∧ r = .ok (false, state)) ∨
  ∃ outcome t₁ t₂ w₁, Runs (S := sig) ok
      (summarizeMessages modelName (summarized state preserveRecent limit) config.temperature)
      w t₁ outcome w₁ ∧ t = t₁ ++ t₂ ∧ Owed ok config state preserveRecent limit w₁ w' t₂ r outcome

theorem compacts_of_text {ok : ∀ q, Answer q → Prop} {config : RunConfig} {modelName : String}
    {state : LoopState} {preserveRecent : Bool} {limit : Option ℕ} {w w' : World} {t : Trace sig}
    {r : Except Exn (Bool × LoopState)}
    (h : Runs (S := sig) ok (applyContextSummary config modelName state preserveRecent limit) w t r w')
    (htext : ¬ Textless (summarized state preserveRecent limit)) :
    Compacts ok config modelName state preserveRecent limit w w' t r := by
  rcases applyContextSummary_runs ok config modelName state preserveRecent limit h with
    hnone | ⟨outcome, t₁, t₂, w₁, hruns, ht, hr⟩
  · exact .inl hnone
  by_cases hhead : summarized state preserveRecent limit = []
  · -- an empty head is not summarized at all
    left
    refine ⟨hhead, ?_⟩
    unfold summarized at hhead
    unfold applyContextSummary at h
    dsimp only at h
    rw [if_pos hhead] at h
    cases h
    rfl
  refine .inr ⟨outcome, t₁, t₂, w₁, hruns, ht, ?_⟩
  match outcome, hruns, hr with
  | .ok none, _, hr => exact hr
  | .error e, _, hr => exact hr
  | .ok (some summary), hruns, hr =>
    have hsummary : summary ≠ "" := by
      rintro rfl
      exact htext ⟨hhead, textless_of_summary hruns⟩
    show if summary = "" then _ else _
    rw [if_neg hsummary]
    exact hr

/-- Messages without any text are replaced by an empty summary, or the event that tells of it
cannot be stored. -/
theorem not_compacts_of_textless {ok : ∀ q, Answer q → Prop} {config : RunConfig} {modelName : String}
    {state : LoopState} {preserveRecent : Bool} {limit : Option ℕ} {w w' : World} {t : Trace sig}
    {r : Except Exn (Bool × LoopState)}
    (h : Runs (S := sig) ok (applyContextSummary config modelName state preserveRecent limit) w t r w')
    (htextless : Textless (summarized state preserveRecent limit)) :
    ¬ Compacts ok config modelName state preserveRecent limit w w' t r := by
  have hempty := summarizeMessages_textless htextless.2 modelName config.temperature
  have hr : r ≠ .ok (false, state) := by
    rcases applyContextSummary_runs ok config modelName state preserveRecent limit h with
      ⟨hnone, -⟩ | ⟨outcome, t₁, t₂, w₁, hruns, -, hr⟩
    · exact absurd hnone htextless.1
    · rw [hempty] at hruns
      cases hruns
      rcases hr with ⟨state', rfl, -⟩ | ⟨e, info, rfl, -⟩ <;> simp
  rintro (⟨hnone, -⟩ | ⟨outcome, t₁, t₂, w₁, hruns, -, howed⟩)
  · exact htextless.1 hnone
  · rw [hempty] at hruns
    cases hruns
    exact hr (by simpa [Owed] using howed)

/-- A compaction does what it owes exactly when the messages that it summarizes have some text. -/
theorem applyContextSummary_compacts_iff {ok : ∀ q, Answer q → Prop} {config : RunConfig}
    {modelName : String} {state : LoopState} {preserveRecent : Bool} {limit : Option ℕ} {w w' : World}
    {t : Trace sig} {r : Except Exn (Bool × LoopState)}
    (h : Runs (S := sig) ok (applyContextSummary config modelName state preserveRecent limit) w t r w') :
    Compacts ok config modelName state preserveRecent limit w w' t r ↔
      ¬ Textless (summarized state preserveRecent limit) :=
  ⟨fun hcompacts htextless => not_compacts_of_textless h htextless hcompacts, compacts_of_text h⟩

/-- A history of three user messages behind a system message. -/
def longState : LoopState where
  runId := "run"
  workerName := "worker"
  messages := [{ role := .system, content := .text "Be brief." }, { role := .user, content := .text "one" },
    { role := .user, content := .text "two" }, { role := .user, content := .text "three" }]
  modelRegistered := true

/-- The first two user messages of that history without their text. -/
def blankState : LoopState :=
  { longState with
    messages := [{ role := .system, content := .text "Be brief." }, { role := .user, content := .text "" },
      { role := .user, content := .text "" }, { role := .user, content := .text "three" }] }

/-- A compaction to three messages, of which the last one is kept. -/
@[irreducible] def compacted (state : LoopState) : Trace sig × Except Exn (Bool × LoopState) × World :=
  runIn (plainAnswers fun _ => { content := some "short" })
    (applyContextSummary plainConfig "model" state true (some 3)) {}

theorem runs_compacted (state : LoopState) : Runs (S := sig) (fun _ _ => True)
    (applyContextSummary plainConfig "model" state true (some 3)) {} (compacted state).1 (compacted state).2.1
    (compacted state).2.2 := by
  rw [compacted]
  exact runIn_runs (fun _ _ => trivial) _ _

theorem applyContextSummary_compacts_long : Compacts (fun _ _ => True) plainConfig "model" longState true
    (some 3) {} (compacted longState).2.2 (compacted longState).1 (compacted longState).2.1 :=
  (applyContextSummary_compacts_iff (runs_compacted longState)).mpr fun htextless =>
    absurd (htextless.2 _ List.mem_cons_self) (by decide +kernel)

/-- The compaction says that it replaced the history. -/
def applied : Except Exn (Bool × LoopState) → Bool
  | .ok (applied, _) => applied
  | .error _ => false

theorem not_compacts_blank : applied (compacted blankState).2.1 = true ∧
    ¬ Compacts (fun _ _ => True) plainConfig "model" blankState true (some 3) {} (compacted blankState).2.2
      (compacted blankState).1 (compacted blankState).2.1 := by
  refine ⟨by decide +kernel, not_compacts_of_textless (runs_compacted blankState) ⟨by decide +kernel, ?_⟩⟩
  have hhead : summarized blankState true (some 3) =
      [{ role := .user, content := .text "" }, { role := .user, content := .text "" }] := rfl
  rw [hhead]
  intro m hm
  rcases List.mem_pair.mp hm with rfl | rfl <;> rfl

end Blackgeorge.WorkerRunner
