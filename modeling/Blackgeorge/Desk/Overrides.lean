import Blackgeorge.Desk.Calls
import Blackgeorge.WorkerRunner.Resolution

/-! What a pause makes of a job's tool override. The stored override holds names only; the
desk puts the tools it remembers back in, each at the first entry of its name. -/

namespace Blackgeorge.Desk

open Data Program WorkerRunner

/-! ### What the desk remembers -/

theorem find?_setTool (tools : List Tool) (tool : Tool) (name : String) :
    (setTool tools tool).find? (·.name = name) =
      if tool.name = name then some tool else tools.find? (·.name = name) := by
  induction tools with
  | nil => by_cases h : tool.name = name <;> simp [setTool, h]
  | cons t tools ih =>
    unfold setTool
    by_cases hsame : t.name = tool.name
    · rw [if_pos hsame, List.find?_cons, List.find?_cons, hsame]
      by_cases h : tool.name = name <;> simp [h]
    · rw [if_neg hsame, List.find?_cons, List.find?_cons, ih]
      by_cases h : t.name = name
      · have hother : tool.name ≠ name := fun htool => hsame (h.trans htool.symm)
        simp [h, hother]
      · simp [h]

/-- Of the tools with a name the last one is kept. -/
theorem find?_foldl_setTool (tools : List Tool) (name : String) : ∀ known : List Tool,
    (tools.foldl setTool known).find? (·.name = name) =
      (allowedTools tools name).or (known.find? (·.name = name)) := by
  induction tools with
  | nil => exact fun _ => rfl
  | cons tool tools ih =>
    intro known
    rw [List.foldl_cons, ih, find?_setTool, allowedTools, allowedTools, List.reverse_cons,
      List.find?_append, Option.or_assoc]
    by_cases h : tool.name = name <;> simp [h]

/-- The tools of an override under a name. -/
theorem filter_runtimeTools (name : String) (refs : List ToolRef) :
    (runtimeTools refs).filter (·.name = name) = runtimeTools (refs.filter (named name)) := by
  induction refs with
  | nil => rfl
  | cons ref refs ih =>
    cases ref with
    | tool t =>
      have hcons : runtimeTools (.tool t :: refs) = t :: runtimeTools refs := rfl
      rw [hcons]
      by_cases h : t.name = name
      · rw [List.filter_cons_of_pos (by simpa using h),
          List.filter_cons_of_pos (by simpa [named] using h), ih]
        rfl
      · rw [List.filter_cons_of_neg (by simpa using h),
          List.filter_cons_of_neg (by simpa [named] using h), ih]
    | name s =>
      have hcons : runtimeTools (.name s :: refs) = runtimeTools refs := rfl
      rw [hcons, ih, List.filter_cons]
      split_ifs <;> rfl
    | other text => exact ih

theorem names_setTool (tools : List Tool) (tool : Tool) :
    (setTool tools tool).map Tool.name =
      if tool.name ∈ tools.map Tool.name then tools.map Tool.name
      else tools.map Tool.name ++ [tool.name] := by
  induction tools with
  | nil => rfl
  | cons t tools ih =>
    unfold setTool
    by_cases hsame : t.name = tool.name
    · simp [hsame]
    · have hother : ¬ tool.name = t.name := fun h => hsame h.symm
      rw [if_neg hsame, List.map_cons, ih, List.map_cons]
      by_cases hmem : tool.name ∈ tools.map Tool.name
      · rw [if_pos hmem, if_pos (List.mem_cons_of_mem _ hmem)]
      · rw [if_neg hmem, if_neg (by simp only [List.mem_cons, not_or]; exact ⟨hother, hmem⟩),
          List.cons_append]

theorem nodup_foldl_setTool (tools : List Tool) : ∀ known : List Tool, (known.map Tool.name).Nodup →
    ((tools.foldl setTool known).map Tool.name).Nodup := by
  induction tools with
  | nil => exact fun _ h => h
  | cons tool tools ih =>
    intro known h
    rw [List.foldl_cons]
    apply ih
    rw [names_setTool]
    split_ifs with hmem
    · exact h
    · rw [List.nodup_append]
      refine ⟨h, by simp, ?_⟩
      rintro name hname _ hsingle rfl
      rw [List.mem_singleton] at hsingle
      exact hmem (hsingle ▸ hname)

/-! ### What it restores -/

theorem restoreRefs_nil (refs : List ToolRef) : restoreRefs refs [] = refs := by
  induction refs with
  | nil => rfl
  | cons ref refs ih =>
    cases ref with
    | tool t => exact congrArg (List.cons _) ih
    | name s => exact congrArg (List.cons _) ih
    | other text => exact congrArg (List.cons _) ih

/-- The entries under a name once its tool is put back at the first of them. -/
def Placed (byName : List Tool) (name : String) (entries : List ToolRef) : List ToolRef :=
  match byName.find? (·.name = name) with
  | none => entries
  | some tool => .tool tool :: entries.tail

theorem find?_filter_ne (byName : List Tool) (other name : String) :
    (byName.filter (·.name ≠ other)).find? (·.name = name) =
      if other = name then none else byName.find? (·.name = name) := by
  rw [List.find?_filter]
  by_cases h : other = name
  · subst h
    rw [if_pos rfl, List.find?_eq_none]
    simp
  · rw [if_neg h]
    congr 1
    funext tool
    by_cases hname : tool.name = name
    · simp [hname, Ne.symm h]
    · simp [hname]

/-- The entries of a restored override under a name. -/
theorem filter_restoreRefs (name : String) (names : List String) : ∀ byName : List Tool,
    (byName.map Tool.name).Nodup →
    (restoreRefs (names.map .name) byName).filter (named name) =
      Placed byName name ((names.map ToolRef.name).filter (named name)) := by
  induction names with
  | nil =>
    intro byName hnodup
    show (byName.map ToolRef.tool).filter (named name) = Placed byName name []
    unfold Placed
    induction byName with
    | nil => rfl
    | cons tool byName ih =>
      rw [List.map_cons, List.nodup_cons] at hnodup
      rw [List.map_cons, List.find?_cons]
      by_cases h : tool.name = name
      · have hrest : (byName.map ToolRef.tool).filter (named name) = [] := by
          rw [List.filter_eq_nil_iff]
          intro ref href hnamed
          obtain ⟨other, hother, rfl⟩ := List.mem_map.mp href
          have hsame : other.name = tool.name := by rw [h]; simpa [named] using hnamed
          exact hnodup.1 (hsame ▸ List.mem_map_of_mem hother)
        rw [List.filter_cons_of_pos (by simpa [named] using h), hrest]
        simp [h]
      · rw [List.filter_cons_of_neg (by simpa [named] using h), ih hnodup.2]
        simp [h]
  | cons s names ih =>
    intro byName hnodup
    rw [List.map_cons]
    unfold restoreRefs
    cases hfind : byName.find? (·.name = s) with
    | none =>
      dsimp only
      by_cases h : s = name
      · subst h
        have hkeep : Placed byName s = id := by
          funext entries
          simp [Placed, hfind]
        rw [List.filter_cons_of_pos (by simp [named]), List.filter_cons_of_pos (by simp [named]),
          ih byName hnodup, hkeep]
        rfl
      · rw [List.filter_cons_of_neg (by simpa [named] using h),
          List.filter_cons_of_neg (by simpa [named] using h), ih byName hnodup]
    | some tool =>
      have htool : tool.name = s := by simpa using List.find?_some hfind
      have hrest := ih (byName.filter (·.name ≠ s))
        (hnodup.sublist (List.filter_sublist.map Tool.name))
      dsimp only
      by_cases h : s = name
      · subst h
        rw [List.filter_cons_of_pos (by simpa [named] using htool),
          List.filter_cons_of_pos (by simp [named]), hrest]
        unfold Placed
        rw [find?_filter_ne, if_pos rfl, hfind]
        rfl
      · have htool' : ¬ tool.name = name := by rwa [htool]
        rw [List.filter_cons_of_neg (by simpa [named] using htool'),
          List.filter_cons_of_neg (by simpa [named] using h), hrest]
        unfold Placed
        rw [find?_filter_ne, if_neg h]

/-! ### The effective tools -/

/-- The tool that the entries under a name come to. -/
def effective (belt : Toolbelt) (entries : List ToolRef) : Option Tool :=
  (entries.filterMap (resolveRef belt)).getLast?

theorem effective_concat (belt : Toolbelt) (entries : List ToolRef) (ref : ToolRef) :
    effective belt (entries ++ [ref]) = (resolveRef belt ref).or (effective belt entries) := by
  unfold effective
  rw [List.filterMap_append]
  cases h : resolveRef belt ref <;> simp [h]

/-- A tool with entries of its name behind it gives way to the toolbelt's. -/
theorem effective_placed (belt : Toolbelt) (tool : Tool) (name : String) (count : ℕ) :
    effective belt (.tool tool :: List.replicate count (.name name)) =
      if count = 0 then some tool else (belt.resolve name).or (some tool) := by
  induction count with
  | zero => rfl
  | succ count ih =>
    rw [List.replicate_succ', ← List.cons_append, effective_concat, ih, if_neg (Nat.succ_ne_zero count)]
    show (belt.resolve name).or _ = _
    split_ifs
    · rfl
    · cases belt.resolve name <;> rfl

/-- Entries that are a tool or a name. -/
def Known (refs : List ToolRef) : Prop := ∀ ref ∈ refs, ∀ text, ref ≠ .other text

/-- What the toolbelt does not know is what the instances say. -/
theorem effective_unresolved {belt : Toolbelt} {name : String} (hbelt : belt.resolve name = none)
    {entries : List ToolRef} (hnamed : ∀ ref ∈ entries, named name ref = true) :
    effective belt entries = (runtimeTools entries).getLast? := by
  induction entries using List.reverseRecOn with
  | nil => rfl
  | append_singleton entries ref ih =>
    have ih := ih fun other hother => hnamed other (List.mem_append_left _ hother)
    have href := hnamed ref (List.mem_append_right _ List.mem_cons_self)
    rw [effective_concat, ih, runtimeTools, runtimeTools, List.filterMap_append]
    cases ref with
    | tool t => simp [resolveRef, ToolRef.tool?]
    | name s =>
      have hs : s = name := by simpa [named] using href
      simp [resolveRef, ToolRef.tool?, hs, hbelt]
    | other text => simp [named] at href

/-- The stored entries under a name. -/
theorem filter_stored (name : String) {refs : List ToolRef} (hknown : Known refs) :
    ((refs.map ToolRef.text).map ToolRef.name).filter (named name) =
      List.replicate (refs.filter (named name)).length (.name name) := by
  induction refs with
  | nil => rfl
  | cons ref refs ih =>
    have ih := ih fun other hother => hknown other (List.mem_cons_of_mem _ hother)
    have hcons (text : String) (htext : ref.text = text) (hiff : named name ref = true ↔ text = name) :
        (((ref :: refs).map ToolRef.text).map ToolRef.name).filter (named name) =
          List.replicate ((ref :: refs).filter (named name)).length (.name name) := by
      rw [List.map_cons, List.map_cons, htext]
      by_cases h : text = name
      · rw [List.filter_cons_of_pos (by simpa [named] using h), List.filter_cons_of_pos (hiff.mpr h), ih,
          List.length_cons, List.replicate_succ, h]
      · rw [List.filter_cons_of_neg (by simpa [named] using h), List.filter_cons_of_neg (by rwa [hiff]), ih]
    cases ref with
    | tool t => exact hcons t.name rfl (by simp [named])
    | name s => exact hcons s rfl (by simp [named])
    | other text => exact absurd rfl (hknown (.other text) List.mem_cons_self text)

/-- Of several entries under a name the last is no tool instance, or it is the toolbelt's tool. -/
def KeepsLast (belt : Toolbelt) (name : String) (entries : List ToolRef) : Prop :=
  ∀ init tool, entries = init ++ [.tool tool] → init ≠ [] → ∀ other, belt.resolve name = some other →
    other = tool

theorem keepsLast_of_name {belt : Toolbelt} {name s : String} {init : List ToolRef} :
    KeepsLast belt name (init ++ [.name s]) := by
  intro init' tool h
  have := List.append_inj_right' h rfl
  simp at this

/-- The restored entries under a name come to the same tool exactly when the last one is kept. -/
theorem effective_restored_iff {belt : Toolbelt} {name : String} {entries : List ToolRef}
    (hnamed : ∀ ref ∈ entries, named name ref = true) {byName : List Tool}
    (hbyName : byName.find? (·.name = name) = (runtimeTools entries).getLast?) :
    effective belt (Placed byName name (List.replicate entries.length (.name name))) =
      effective belt entries ↔ KeepsLast belt name entries := by
  unfold Placed
  rw [hbyName]
  induction entries using List.reverseRecOn with
  | nil =>
    have hkeeps : KeepsLast belt name [] := by
      intro init tool h
      simp at h
    exact iff_of_true rfl hkeeps
  | append_singleton init last _ =>
    have hinit : ∀ ref ∈ init, named name ref = true :=
      fun ref href => hnamed ref (List.mem_append_left _ href)
    have hlast := hnamed last (List.mem_append_right _ List.mem_cons_self)
    have htail (tool : Tool) : (ToolRef.tool tool ::
        (List.replicate (init ++ [last]).length (ToolRef.name name)).tail) =
        .tool tool :: List.replicate init.length (.name name) := by
      rw [List.length_append, List.length_singleton, List.tail_replicate, Nat.add_sub_cancel]
    cases last with
    | tool t =>
      have hruntime : (runtimeTools (init ++ [.tool t])).getLast? = some t := by
        simp [runtimeTools, List.filterMap_append, ToolRef.tool?]
      rw [hruntime]
      dsimp only
      rw [htail, effective_placed, effective_concat]
      show _ = some t ↔ _
      constructor
      · rintro h init' tool heq hne other hother
        obtain ⟨rfl, hsame⟩ := List.append_inj' heq rfl
        obtain rfl : t = tool := by simpa using hsame
        rw [if_neg (by simpa using hne), hother] at h
        exact Option.some.inj h
      · intro h
        by_cases hnil : init = []
        · rw [if_pos (by simp [hnil])]
        · rw [if_neg (by simpa using hnil)]
          cases hother : belt.resolve name with
          | none => rfl
          | some other => rw [h init t rfl hnil other hother]; rfl
    | name s =>
      obtain rfl : s = name := by simpa [named] using hlast
      refine iff_of_true ?_ keepsLast_of_name
      have hruntime : runtimeTools (init ++ [.name s]) = runtimeTools init := by
        simp [runtimeTools, List.filterMap_append, ToolRef.tool?]
      rw [hruntime]
      cases hv : (runtimeTools init).getLast? with
      | none =>
        -- no instance: the entries are what they were
        have hnil : runtimeTools init = [] := List.getLast?_eq_none_iff.mp hv
        have hsame : init = List.replicate init.length (.name s) := by
          rw [List.eq_replicate_iff]
          refine ⟨rfl, fun ref href => ?_⟩
          have hname := hinit ref href
          cases ref with
          | tool t =>
            have : t ∈ runtimeTools init := List.mem_filterMap.mpr ⟨_, href, rfl⟩
            simp [hnil] at this
          | name s' => rw [show s' = s by simpa [named] using hname]
          | other text => simp [named] at hname
        dsimp only
        rw [List.length_append, List.length_singleton, List.replicate_succ', ← hsame]
      | some v =>
        dsimp only
        have hne : init.length ≠ 0 := by
          intro hzero
          rw [List.length_eq_zero_iff.mp hzero] at hv
          cases hv
        rw [htail, effective_placed, if_neg hne, effective_concat]
        show _ = (belt.resolve s).or _
        cases hbelt : belt.resolve s with
        | some other => rfl
        | none => rw [effective_unresolved hbelt hinit, hv]
    | other text => simp [named] at hlast

/-- Restoring a stored override with what the desk remembers of it maps all names to the same
tools exactly when under each name with several entries the last one is no tool instance, or
is the toolbelt's tool. -/
theorem restored_tools_iff (belt : Toolbelt) (job stored : Job) (hstored : job.persisted = some stored)
    (hknown : ∀ refs, job.toolsOverride = some refs → Known refs) :
    (∀ name, allowedTools (resolveTools belt
        (restoredJob (rememberedTools job.toolsOverride none) stored)) name =
      allowedTools (resolveTools belt job) name) ↔
    ∀ refs, job.toolsOverride = some refs → ∀ name, KeepsLast belt name (refs.filter (named name)) := by
  have hrefs : stored.toolsOverride =
      job.toolsOverride.map fun refs => (refs.map ToolRef.text).map ToolRef.name := by
    simp only [Job.persisted, Option.bind_eq_bind, Option.bind_eq_some_iff] at hstored
    obtain ⟨_, -, _, -, _, -, _, -, _, -, hjob⟩ := hstored
    obtain rfl := Option.some.inj hjob
    simp only [List.map_map]
    rfl
  cases hjob : job.toolsOverride with
  | none =>
    rw [hjob] at hrefs
    have hbelt : resolveTools belt (restoredJob (rememberedTools none none) stored) =
        resolveTools belt job := by
      show resolveTools belt stored = _
      rw [resolveTools, resolveTools, hrefs, hjob]
      rfl
    rw [hbelt]
    exact iff_of_true (fun _ => rfl) (fun _ h => by cases h)
  | some refs =>
    rw [hjob] at hrefs
    have hrestored : resolveTools belt (restoredJob (rememberedTools (some refs) none) stored) =
        (restoreRefs ((refs.map ToolRef.text).map ToolRef.name)
          ((runtimeTools refs).foldl setTool [])).filterMap (resolveRef belt) := by
      cases hruntime : runtimeTools refs with
      | nil =>
        have hknown : rememberedTools (some refs) none = none := by simp [rememberedTools, hruntime]
        rw [hknown]
        show resolveTools belt stored = _
        rw [resolveTools, hrefs, List.foldl_nil, restoreRefs_nil]
        rfl
      | cons tool tools =>
        have hknown : rememberedTools (some refs) none = some (tool :: tools) := by
          simp [rememberedTools, hruntime]
        rw [hknown]
        unfold restoredJob
        rw [hrefs]
        rfl
    have hturns : resolveTools belt job = refs.filterMap (resolveRef belt) := by
      rw [resolveTools, hjob]
    have hname (name : String) : allowedTools (resolveTools belt
          (restoredJob (rememberedTools (some refs) none) stored)) name =
        allowedTools (resolveTools belt job) name ↔ KeepsLast belt name (refs.filter (named name)) := by
      have hnodup : (((runtimeTools refs).foldl setTool []).map Tool.name).Nodup :=
        nodup_foldl_setTool _ [] List.nodup_nil
      have hbyName : ((runtimeTools refs).foldl setTool []).find? (·.name = name) =
          (runtimeTools (refs.filter (named name))).getLast? := by
        rw [find?_foldl_setTool, allowedTools_eq, filter_runtimeTools, List.find?_nil, Option.or_none]
      have hnamed : ∀ ref ∈ refs.filter (named name), named name ref = true :=
        fun ref href => (List.mem_filter.mp href).2
      rw [hrestored, hturns, allowedTools_override, allowedTools_override,
        filter_restoreRefs name _ _ hnodup, filter_stored name (hknown refs hjob)]
      exact effective_restored_iff hnamed hbyName
    simp only [hname, Option.some.injEq, forall_eq']

/-- A guarded tool in front of its name, and another tool. -/
def duplicateJob : Job :=
  { plainJob with toolsOverride := some [.tool guardedTool, .name "deploy", .tool plainTool] }

/-- What is stored of it. -/
def duplicateStored : Job :=
  { plainJob with toolsOverride := some [.name "deploy", .name "deploy", .name "lookup"] }

/-- The name behind the guarded tool means the toolbelt's, before a pause and after it. -/
theorem restored_tools_duplicates :
    (fun name => allowedTools (resolveTools { tools := [laxTool] }
        (restoredJob (rememberedTools duplicateJob.toolsOverride none) duplicateStored)) name) =
      (fun name => allowedTools (resolveTools { tools := [laxTool] } duplicateJob) name) := by
  funext name
  refine (restored_tools_iff { tools := [laxTool] } duplicateJob duplicateStored rfl ?_).mpr ?_ name
  · rintro refs ⟨⟩ ref href text rfl
    simp at href
  · rintro refs ⟨⟩ name init tool h hne other -
    by_cases hname : name = "deploy"
    · subst hname
      have hlast := congrArg List.getLast? h
      rw [List.getLast?_concat] at hlast
      cases hlast
    · have hlen := congrArg List.length h
      have hshort : (List.filter (named name)
          [.tool guardedTool, .name "deploy", .tool plainTool]).length ≤ 1 := by
        have hguarded : named name (.tool guardedTool) = false :=
          decide_eq_false (Ne.symm hname)
        have hdeploy : named name (.name "deploy") = false := decide_eq_false (Ne.symm hname)
        rw [List.filter_cons_of_neg (by simp [hguarded]), List.filter_cons_of_neg (by simp [hdeploy])]
        exact List.length_filter_le _ _
      rw [List.length_append, List.length_singleton] at hlen
      have hpos := List.length_pos_iff.mpr hne
      omega

/-- The guarded instance behind a name gives way to the tool of the toolbelt. -/
theorem not_restored_tools :
    ({ plainJob with toolsOverride := some [.name "deploy", .tool guardedTool] } : Job).persisted =
        some { plainJob with toolsOverride := some [.name "deploy", .name "deploy"] } ∧
      (allowedTools (resolveTools { tools := [laxTool] }
        (restoredJob (rememberedTools (some [.name "deploy", .tool guardedTool]) none)
          { plainJob with toolsOverride := some [.name "deploy", .name "deploy"] })) "deploy").map
        Tool.requiresConfirmation ≠
      (allowedTools (resolveTools { tools := [laxTool] }
        { plainJob with toolsOverride := some [.name "deploy", .tool guardedTool] }) "deploy").map
        Tool.requiresConfirmation := by
  exact ⟨rfl, by decide⟩

end Blackgeorge.Desk
