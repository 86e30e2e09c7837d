import Blackgeorge.Coroutine.Triples
import Blackgeorge.Program.World

/-! Triples for the program's primitives. Most steps of a runner only write events and
totals and ask questions that no law cares about; a law that permits these leaves its
users with the calls that matter. -/

namespace Blackgeorge.Program

open Data Coroutine Coro

variable {α β : Type} {L : Law sig}

/-- Questions of bookkeeping. -/
def Query.Routine : Query → Prop
  | .validateJson .. | .tokenCount .. | .modelRegistered _ | .reduce .. => True
  | .store (.addEvent ..) => True
  | _ => False

/-- The law lets events be written and routine questions be asked. -/
structure Permits (L : Law sig) : Prop where
  refl : ∀ w, L.step w w
  eventLists : ∀ w f, L.step w { w with eventLists := f }
  storedEvents : ∀ w f, L.step w { w with storedEvents := f }
  routine : ∀ q a, q.Routine → L.event ⟨q, a⟩

/-- The law of any program. -/
def anyLaw : Law sig where
  step _ _ := True
  admits _ _ := True
  event _ := True

/-- The law also lets usage be priced and added to totals. -/
structure Bills (L : Law sig) : Prop extends Permits L where
  totals : ∀ w f, L.step w { w with totals := f }
  usageCost : ∀ modelName usage cost, L.event ⟨.usageCost modelName usage, cost⟩

/-! ### Primitives -/

theorem each_tryExcept {c : Prog α} {handler : Exn → Prog α} {P : α → Prop} (hc : Each L c P)
    (hh : ∀ e, Each L (handler e) P) : Each L (Prog.tryExcept c handler) P := by
  refine each_bind (each_attempt hc) ?_
  rintro (e | a) ha
  · dsimp only
    split_ifs
    · exact hh e
    · exact each_raise
  · exact each_pure (ha a rfl)

theorem mapM_id_ok {rs : List (Except Exn α)} {as : List α} (h : rs.mapM id = .ok as) :
    rs = as.map .ok := by
  induction rs generalizing as with
  | nil =>
    obtain rfl : [] = as := Except.ok.inj h
    rfl
  | cons r rs ih =>
    simp only [List.mapM_cons, id_eq] at h
    cases r with
    | error e => cases h
    | ok a =>
      cases hrs : rs.mapM id with
      | error e => rw [hrs] at h; cases h
      | ok bs =>
        rw [hrs] at h
        obtain rfl : a :: bs = as := Except.ok.inj h
        rw [ih hrs, List.map_cons]

theorem each_gather {cs : List (Prog α)} {P : α → Prop} (h : ∀ c ∈ cs, Each L c P) :
    Each L (Prog.gather cs) fun as => as.length = cs.length ∧ ∀ a ∈ as, P a := by
  refine each_bind (each_parAll h) ?_
  rintro rs ⟨hlen, hall⟩
  cases hrs : rs.mapM id with
  | error e => exact each_raise
  | ok as =>
    obtain rfl := mapM_id_ok hrs
    refine each_pure ⟨by simpa using hlen, fun a ha => ?_⟩
    exact hall (.ok a) (by simpa using ha) a rfl

theorem each_forM {l : List β} {f : β → Prog Unit} (h : ∀ b ∈ l, Each L (f b) fun _ => True) :
    Each L (l.forM f) fun _ => True := by
  induction l with
  | nil => exact each_pure trivial
  | cons b l ih =>
    rw [List.forM_eq_forM, List.forM_cons]
    exact each_bind (h b (by simp)) fun _ _ => ih fun b' hb' => h b' (by simp [hb'])

/-! ### Events and totals -/

theorem each_deskEmit (hL : Permits L) (events : Ref) (runId : RunId) (type source : String)
    (payload : Dict) : Each L (deskEmit events runId type source payload) fun _ => True := by
  refine each_bind (P := fun _ => True) (each_update (fun w => hL.eventLists w _) trivial) ?_
  intro _ _
  refine each_bind (P := fun _ => True) ?_ fun _ _ =>
    each_update (fun w => hL.storedEvents w _) trivial
  refine each_bind (P := fun _ => True) (each_query fun a _ => ⟨hL.routine _ a trivial, trivial⟩) ?_
  exact fun a _ => each_ofExcept fun _ _ => trivial

theorem each_emit (hL : Permits L) (config : RunConfig) (type source : String) (payload : Dict) :
    Each L (config.emit type source payload) fun _ => True := by
  unfold RunConfig.emit
  split
  · exact each_deskEmit hL _ _ _ _ _
  · refine each_bind (P := fun _ => True) (each_look hL.refl fun _ => trivial) fun fields _ => ?_
    split_ifs
    · exact each_pure trivial
    · exact each_deskEmit hL _ _ _ _ _

theorem each_getTotals (hL : Permits L) (r : Ref) : Each L (getTotals r) fun _ => True :=
  each_look hL.refl fun _ => trivial

theorem each_modifyTotals (hL : Bills L) (r : Ref) (f : UsageTotals → UsageTotals) :
    Each L (modifyTotals r f) fun _ => True :=
  each_update (fun w => hL.totals w _) trivial

/-- A routine question. -/
theorem each_routine (hL : Permits L) {q : Query} (hq : q.Routine) :
    Each L (Prog.ask q) fun _ => True :=
  each_query fun a _ => ⟨hL.routine q a hq, trivial⟩

/-! ### Quiet programs -/

/-- Records, histories, flow objects and what the desk remembers of its runs stay. -/
structure Quiet (w w' : World) : Prop where
  records : w'.records = w.records
  histories : w'.histories = w.histories
  flows : w'.flows = w.flows
  flowRuns : w'.flowRuns = w.flowRuns
  runtimeToolsOverrides : w'.runtimeToolsOverrides = w.runtimeToolsOverrides
  closed : w'.closed = w.closed

theorem Quiet.refl (w : World) : Quiet w w := ⟨rfl, rfl, rfl, rfl, rfl, rfl⟩

theorem Quiet.trans (u v w : World) (h : Quiet u v) (h' : Quiet v w) : Quiet u w where
  records := h'.records.trans h.records
  histories := h'.histories.trans h.histories
  flows := h'.flows.trans h.flows
  flowRuns := h'.flowRuns.trans h.flowRuns
  runtimeToolsOverrides := h'.runtimeToolsOverrides.trans h.runtimeToolsOverrides
  closed := h'.closed.trans h.closed

/-- The law of quiet programs whose questions and answers are of a kind. -/
def quietLaw (event : Event sig → Prop) : Law sig where
  step := Quiet
  admits _ _ := True
  event := event

/-- The tool is not held back when the model calls it. -/
structure Unguarded (tool : Tool) : Prop where
  handoff : tool.requiresHandoff = false
  confirmation : tool.requiresConfirmation = false
  userInput : tool.requiresUserInput = false

/-- No decision meets a pending action, and no tool runs that is held back for one. -/
def Undecided : Event sig → Prop
  | ⟨.decide .., _⟩ => False
  | ⟨.runTool _ _ (some _), _⟩ => False
  | ⟨.runTool tool _ none, _⟩ => Unguarded tool
  | _ => True

theorem quietLaw_bills {event : Event sig → Prop} (h : ∀ e, Undecided e → event e) :
    Bills (quietLaw event) where
  refl := Quiet.refl
  eventLists _ _ := ⟨rfl, rfl, rfl, rfl, rfl, rfl⟩
  storedEvents _ _ := ⟨rfl, rfl, rfl, rfl, rfl, rfl⟩
  totals _ _ := ⟨rfl, rfl, rfl, rfl, rfl, rfl⟩
  routine q a hq := by
    apply h
    cases q <;> first | exact trivial | exact False.elim hq
  usageCost _ _ _ := h _ trivial

end Blackgeorge.Program
