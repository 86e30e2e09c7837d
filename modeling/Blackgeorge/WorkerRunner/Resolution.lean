import Blackgeorge.Program.Environment
import Blackgeorge.WorkerRunner.Run

/-! Which tool a name stands for: to the turns of a worker, which map each name to the last
entry of an override that resolves, and to a resume, which stops at the first entry. -/

namespace Blackgeorge.WorkerRunner

open Data Program

/-- The entries of an override under a name. -/
def named (name : String) : ToolRef → Bool
  | .tool tool => tool.name = name
  | .name s => s = name
  | .other _ => false

/-- The last of the tools with a name counts. -/
theorem allowedTools_eq (tools : List Tool) (name : String) :
    allowedTools tools name = (tools.filter (·.name = name)).getLast? := by
  rw [allowedTools, List.getLast?_eq_head?_reverse, ← List.filter_reverse, List.head?_filter]

/-- Of different names none is found twice. -/
theorem find?_reverse {tools : List Tool} (h : (tools.map Tool.name).Nodup) (name : String) :
    tools.reverse.find? (·.name = name) = tools.find? (·.name = name) := by
  induction tools with
  | nil => rfl
  | cons tool tools ih =>
    rw [List.map_cons, List.nodup_cons] at h
    rw [List.reverse_cons, List.find?_append, ih h.2, List.find?_cons, List.find?_cons]
    by_cases hname : tool.name = name
    · have hnone : tools.find? (·.name = name) = none := by
        rw [List.find?_eq_none]
        intro other hother hsame
        have hsame' : other.name = tool.name := by rw [hname]; simpa using hsame
        exact h.1 (hsame' ▸ List.mem_map_of_mem hother)
      simp [hnone, hname]
    · simp [hname]

/-- A worker without an override has its toolbelt. -/
theorem allowedTools_toolbelt (belt : Toolbelt) (name : String) :
    allowedTools belt.tools name = belt.resolve name :=
  find?_reverse belt.nodup name

theorem resolveRef_name {belt : Toolbelt} {ref : ToolRef} {tool : Tool} {name : String}
    (h : resolveRef belt ref = some tool) : tool.name = name ↔ named name ref = true := by
  cases ref with
  | tool t =>
    obtain rfl := Option.some.inj h
    simp [named]
  | name s =>
    have hs : tool.name = s := belt.resolve_name h
    simp [named, hs]
  | other text => cases h

/-- The tools with a name are those of the entries under it. -/
theorem filter_resolved (belt : Toolbelt) (name : String) (refs : List ToolRef) :
    (refs.filterMap (resolveRef belt)).filter (·.name = name) =
      (refs.filter (named name)).filterMap (resolveRef belt) := by
  induction refs with
  | nil => rfl
  | cons ref refs ih =>
    cases hnamed : named name ref with
    | true =>
      rw [List.filter_cons_of_pos hnamed]
      cases href : resolveRef belt ref with
      | none => rw [List.filterMap_cons_none href, List.filterMap_cons_none href, ih]
      | some tool =>
        have hname : tool.name = name := (resolveRef_name href).mpr hnamed
        rw [List.filterMap_cons_some href, List.filterMap_cons_some href,
          List.filter_cons_of_pos (by simpa using hname), ih]
    | false =>
      rw [List.filter_cons_of_neg (by simp [hnamed])]
      cases href : resolveRef belt ref with
      | none => rw [List.filterMap_cons_none href, ih]
      | some tool =>
        have hname : ¬ tool.name = name := by
          rw [resolveRef_name href, hnamed]
          exact Bool.false_ne_true
        rw [List.filterMap_cons_some href, List.filter_cons_of_neg (by simpa using hname), ih]

theorem allowedTools_override (belt : Toolbelt) (name : String) (refs : List ToolRef) :
    allowedTools (refs.filterMap (resolveRef belt)) name =
      ((refs.filter (named name)).filterMap (resolveRef belt)).getLast? := by
  rw [allowedTools_eq, filter_resolved]

/-- A resume takes the first entry under the name. -/
theorem resumeToolFrom_eq (belt : Toolbelt) (name : String) (refs : List ToolRef) :
    resumeToolFrom belt name refs = ((refs.filter (named name)).head?).bind (resolveRef belt) := by
  induction refs with
  | nil => rfl
  | cons ref refs ih =>
    cases ref with
    | tool t =>
      unfold resumeToolFrom
      by_cases hname : t.name = name
      · rw [if_pos hname, List.filter_cons_of_pos (by simpa [named] using hname)]
        rfl
      · rw [if_neg hname, List.filter_cons_of_neg (by simpa [named] using hname), ih]
    | name s =>
      unfold resumeToolFrom
      by_cases hname : s = name
      · rw [if_pos hname, List.filter_cons_of_pos (by simpa [named] using hname)]
        rfl
      · rw [if_neg hname, List.filter_cons_of_neg (by simpa [named] using hname), ih]
    | other text => exact ih

/-- The last entry under the name that resolves, if there is one, stands for the tool of the
first entry under it. -/
def FirstIsLast (belt : Toolbelt) (job : Job) (name : String) : Prop :=
  ∀ refs, job.toolsOverride = some refs → ∀ last ∈ ((refs.filter (named name)).filter
    fun ref => (resolveRef belt ref).isSome).getLast?,
    ∃ first ∈ (refs.filter (named name)).head?, resolveRef belt first = resolveRef belt last

theorem getLast?_filterMap {α β : Type} (f : α → Option β) (l : List α) :
    (l.filterMap f).getLast? = ((l.filter fun a => (f a).isSome).getLast?).bind f := by
  induction l using List.reverseRecOn with
  | nil => rfl
  | append_singleton l a ih =>
    rw [List.filterMap_append, List.filter_append]
    cases ha : f a with
    | none => simpa [ha] using ih
    | some b => simp [ha]

/-- A resume runs the tool that the turns map the name to exactly when the first entry under
the name stands for the same tool as the last one that resolves. -/
theorem resolveResumeTool_iff (belt : Toolbelt) (job : Job) (name : String) :
    resolveResumeTool belt job name = allowedTools (resolveTools belt job) name ↔
      FirstIsLast belt job name := by
  unfold resolveResumeTool resolveTools FirstIsLast
  cases job.toolsOverride with
  | none => simp [allowedTools_toolbelt]
  | some refs =>
    simp only [Option.some.injEq, forall_eq']
    rw [allowedTools_override, getLast?_filterMap, resumeToolFrom_eq]
    generalize refs.filter (named name) = entries
    cases hlast : (entries.filter fun ref => (resolveRef belt ref).isSome).getLast? with
    | none =>
      have hnone : ∀ ref ∈ entries, resolveRef belt ref = none := by
        rw [List.getLast?_eq_none_iff, List.filter_eq_nil_iff] at hlast
        intro ref href
        simpa using hlast ref href
      cases entries with
      | nil => simp
      | cons first entries => simp [hnone first List.mem_cons_self]
    | some last =>
      have hmem := List.mem_filter.mp (List.mem_of_getLast? hlast)
      cases entries with
      | nil => cases hmem.1
      | cons first entries => simp

/-- Another implementation of the guarded tool that needs no confirmation. -/
def laxTool : Tool :=
  { plainTool with
    name := "deploy", description := "Deploy the release", callable := 3
    name_ne := guardedTool.name_ne }

/-- The worker confirmed one of two tools of a name, and the other one runs. -/
theorem not_resolveResumeTool :
    (resolveResumeTool {} { plainJob with toolsOverride := some [.tool laxTool, .tool guardedTool] }
        "deploy").map Tool.callable ≠
      (allowedTools (resolveTools {} { plainJob with
        toolsOverride := some [.tool laxTool, .tool guardedTool] }) "deploy").map Tool.callable := by
  decide

end Blackgeorge.WorkerRunner
