import Blackgeorge.Data.Documents
import Blackgeorge.Data.Search

/-! The JSON text in a model's output: what a preview stream parses. It is cut out at the
first and the last bracket of the text, whatever stands around it. -/

namespace Blackgeorge.WorkerRunner

open Data Json Text

/-! ### The extraction -/

def fence : List Char := "```".toList

/-- The text behind the line of an opening fence, without a closing fence at its end. -/
def unfenced (text : List Char) : List Char :=
  if fence.isPrefixOf text then removeSuffix (rstrip (afterFirst text '\n')) fence else text

/-- `starts`. -/
def jsonStarts (text : List Char) : List ℤ :=
  [find text '\x7b', find text '['].filter (· ≠ -1)

/-- `end`. -/
def jsonEnd (text : List Char) : ℤ := max (rfind text '\x7d') (rfind text ']')

def cutJson (text : List Char) : List Char :=
  match (jsonStarts text).min? with
  | none => stripped text
  | some start =>
    if jsonEnd text < start then stripped text else slice text start (jsonEnd text + 1)

def extractJsonText (content : String) : String :=
  String.ofList (cutJson (unfenced (stripped content.toList)))

/-- `parse_structured_stream_json` with the strict validation of a document against the
response schema. -/
def parseStructuredStreamJson {α : Type} (validateJson : String → Except Exn α)
    (content : String) : Except Exn α :=
  validateJson (extractJsonText content)

/-! ### The cut -/

theorem jsonStarts_of_none {text : List Char} (h : ∀ c ∈ text, isOpening c = false) :
    (jsonStarts text).min? = none := by
  have hbrace : '\x7b' ∉ text := notMem_of_kind h (by decide)
  have hbracket : '[' ∉ text := notMem_of_kind h (by decide)
  simp [jsonStarts, find, hbrace, hbracket]

/-- Of two places one of which is the first, the other missing or behind it. -/
theorem min_filter {n : ℕ} {i : ℤ} (h : i = -1 ∨ (n : ℤ) ≤ i) :
    (([(n : ℤ), i].filter (· ≠ -1)).min? = some (n : ℤ)) ∧
      ([i, (n : ℤ)].filter (· ≠ -1)).min? = some (n : ℤ) := by
  have hn : (n : ℤ) ≠ -1 := by omega
  rcases h with rfl | h
  · simp [hn]
  · have hi : i ≠ -1 := by omega
    simp [hn, hi, h]

theorem jsonStarts_append {u : List Char} (hu : ∀ c ∈ u, isOpening c = false) {o : Char}
    (ho : isOpening o = true) (w : List Char) :
    (jsonStarts (u ++ o :: w)).min? = some (u.length : ℤ) := by
  have hbrace : '\x7b' ∉ u := notMem_of_kind hu (by decide)
  have hbracket : '[' ∉ u := notMem_of_kind hu (by decide)
  obtain rfl | rfl : o = '\x7b' ∨ o = '[' := by simpa [isOpening] using ho
  · rw [jsonStarts, find_of_first hbrace]
    exact (min_filter (le_find hbracket _)).1
  · rw [jsonStarts, find_of_first hbracket]
    exact (min_filter (le_find hbrace _)).2

theorem jsonEnd_lt {w : List Char} (hw : ∀ c ∈ w, isClosing c = false) (u : List Char) :
    jsonEnd (u ++ w) < u.length := by
  have hbrace : '\x7d' ∉ w := notMem_of_kind hw (by decide)
  have hbracket : ']' ∉ w := notMem_of_kind hw (by decide)
  exact max_lt (rfind_lt hbrace u) (rfind_lt hbracket u)

theorem jsonEnd_append {w : List Char} (hw : ∀ c ∈ w, isClosing c = false) {c : Char}
    (hc : isClosing c = true) (u : List Char) : jsonEnd (u ++ c :: w) = u.length := by
  have hlt := jsonEnd_lt hw (u ++ [c])
  have hassoc : u ++ [c] ++ w = u ++ c :: w := by simp
  have hbrace : '\x7d' ∉ w := notMem_of_kind hw (by decide)
  have hbracket : ']' ∉ w := notMem_of_kind hw (by decide)
  rw [hassoc, List.length_append, List.length_singleton] at hlt
  have hle : (u.length : ℤ) ≤ jsonEnd (u ++ c :: w) := by
    obtain rfl | rfl : c = '\x7d' ∨ c = ']' := by simpa [isClosing] using hc
    · exact (rfind_of_last hbrace u).symm.le.trans (le_max_left _ _)
    · exact (rfind_of_last hbracket u).symm.le.trans (le_max_right _ _)
  omega

/-- No bracket opens in front of one that closes: the text stays. -/
theorem cutJson_apart {u w : List Char} (hu : ∀ c ∈ u, isOpening c = false)
    (hw : ∀ c ∈ w, isClosing c = false) : cutJson (u ++ w) = stripped (u ++ w) := by
  by_cases hopen : ∃ c ∈ w, isOpening c = true
  · obtain ⟨m, o, v, rfl, ho, hm⟩ := exists_first hopen
    have hstart := jsonStarts_append (u := u ++ m) (fun c hc =>
      (List.mem_append.mp hc).elim (hu c) (hm c)) ho v
    rw [List.append_assoc] at hstart
    have hend := jsonEnd_lt hw u
    rw [cutJson, hstart]
    dsimp only
    rw [if_pos]
    rw [List.length_append]
    omega
  · have hnone : ∀ c ∈ u ++ w, isOpening c = false := by
      intro c hc
      rcases List.mem_append.mp hc with hc | hc
      · exact hu c hc
      · simpa using fun h => hopen ⟨c, hc, h⟩
    rw [cutJson, jsonStarts_of_none hnone]

/-- What stands between the first bracket that opens and the last one that closes. -/
theorem cutJson_between {u m w : List Char} {o c : Char} (hu : ∀ d ∈ u, isOpening d = false)
    (ho : isOpening o = true) (hc : isClosing c = true) (hw : ∀ d ∈ w, isClosing d = false) :
    cutJson (u ++ o :: (m ++ c :: w)) = o :: (m ++ [c]) := by
  have hend := jsonEnd_append hw hc (u ++ o :: m)
  have hassoc : u ++ o :: m ++ c :: w = u ++ o :: (m ++ c :: w) := by simp
  have hmiddle := slice_middle u (o :: (m ++ [c])) w
  have hparts : u ++ (o :: (m ++ [c]) ++ w) = u ++ o :: (m ++ c :: w) := by simp
  rw [hassoc] at hend
  rw [hparts] at hmiddle
  have hlen : ((u ++ o :: m).length : ℤ) + 1 = u.length + (o :: (m ++ [c])).length := by
    simp
    omega
  rw [cutJson, jsonStarts_append hu ho]
  dsimp only
  rw [if_neg, hend, hlen, hmiddle]
  rw [hend, List.length_append]
  omega

theorem cutJson_sublist (text : List Char) : (cutJson text).Sublist text := by
  unfold cutJson
  split
  · exact stripped_sublist text
  · split_ifs
    · exact stripped_sublist text
    · exact slice_sublist text _ _

/-! ### The text behind a fence -/

theorem unfenced_of_not {text : List Char} (h : fence.isPrefixOf text = false) :
    unfenced text = text := by
  rw [unfenced, if_neg (by simp [h])]

theorem unfenced_cons {c : Char} (hc : c ∉ fence) (s : List Char) : unfenced (c :: s) = c :: s :=
  unfenced_of_not (isPrefixOf_append (u := []) hc s)

theorem of_mem_fence {c : Char} (hc : c ∈ fence) : isMark c = false ∧ isBracket c = false := by
  have hall : fence.all (fun d => !isMark d && !isBracket d) = true := by decide
  simpa using List.all_eq_true.mp hall c hc

theorem bracket_notMem_fence {c : Char} (hc : isBracket c = true) : c ∉ fence := by
  intro hmem
  rw [(of_mem_fence hmem).2] at hc
  cases hc

theorem isSpace_bracket {c : Char} (hc : isBracket c = true) : isSpace c = false :=
  of_isBracket (P := (isSpace · = false)) hc (by decide)

/-- What leads up to a document: no bracket opens in it, in or behind the line of a fence. -/
def Leads (u : List Char) : Prop :=
  (fence.isPrefixOf u = false ∧ ∀ c ∈ u, isOpening c = false) ∨
    ∃ line rest, u = line ++ '\n' :: rest ∧ fence.isPrefixOf u = true ∧ '\n' ∉ line ∧
      ∀ c ∈ rest, isOpening c = false

/-- The document that stands behind such a lead and in front of what closes no bracket. -/
theorem cutJson_unfenced {u m w : List Char} {o c : Char} (hu : Leads u) (ho : isOpening o = true)
    (hc : isClosing c = true) (hw : ∀ d ∈ w, isClosing d = false) :
    cutJson (unfenced (u ++ o :: (m ++ c :: w))) = o :: (m ++ [c]) := by
  have hhead := isPrefixOf_append (u := u) (bracket_notMem_fence (bracket_of_opening ho)) (m ++ c :: w)
  rcases hu with ⟨hnot, hu⟩ | ⟨line, rest, hline, hfence, hnl, hrest⟩
  · rw [unfenced_of_not (hhead.trans hnot)]
    exact cutJson_between hu ho hc hw
  · have hbehind : afterFirst (u ++ o :: (m ++ c :: w)) '\n' = (rest ++ o :: m) ++ c :: w := by
      rw [hline, List.append_assoc, afterFirst_append hnl, List.cons_append, afterFirst_cons]
      simp
    obtain ⟨w', htail, hle⟩ := removeSuffix_append (rest ++ o :: m)
      (bracket_notMem_fence (bracket_of_closing hc)) (rstrip w)
    have hassoc : rest ++ o :: m ++ c :: w' = rest ++ o :: (m ++ c :: w') := by simp
    rw [unfenced, if_pos (hhead.trans hfence), hbehind,
      rstrip_append _ (isSpace_bracket (bracket_of_closing hc)), htail, hassoc]
    refine cutJson_between hrest ho hc fun d hd => hw d ?_
    exact (rstrip_sublist w).subset (hle.subset hd)

/-- A line of a fence that goes on into the document takes its first bracket with it. -/
theorem cutJson_unfenced_ne {u m w : List Char} {o c : Char} (hfence : fence.isPrefixOf u = true)
    (hnl : '\n' ∉ u) (ho : isOpening o = true) (hw : ∀ d ∈ w, isOpening d = false) :
    cutJson (unfenced (u ++ o :: (m ++ c :: w))) ≠ o :: (m ++ [c]) := by
  intro heq
  have hhead := isPrefixOf_append (u := u) (bracket_notMem_fence (bracket_of_opening ho)) (m ++ c :: w)
  have hne : o ≠ '\n' := by
    rintro rfl
    cases ho
  have hbehind : (afterFirst (u ++ o :: (m ++ c :: w)) '\n').Sublist (m ++ c :: w) := by
    have hcons := afterFirst_append (u := [o]) (c := '\n') (by simpa using hne.symm) (m ++ c :: w)
    rw [afterFirst_append hnl, ← List.singleton_append, hcons]
    exact afterFirst_sublist _ _
  have hsub : (o :: (m ++ [c])).Sublist (m ++ c :: w) := by
    rw [← heq]
    refine (cutJson_sublist _).trans ?_
    rw [unfenced, if_pos (hhead.trans hfence)]
    exact ((removeSuffix_sublist _ _).trans (rstrip_sublist _)).trans hbehind
  -- the document opens one bracket more than what is left of it
  have hcount := hsub.countP_le (p := isOpening)
  have hnone : w.countP isOpening = 0 := List.countP_eq_zero.mpr fun d hd => by simp [hw d hd]
  simp only [List.countP_cons, List.countP_append, ho, hnone, List.countP_nil, if_true] at hcount
  omega

/-! ### What an output carries -/

/-- An object or an array document, without spaces around it. -/
def Container (float : String → ℚ × String) (doc : String) : Prop :=
  ∃ v, loads float doc = some v ∧ isContainer v = true ∧ strip doc = doc

/-- A text without brackets. -/
def Prose (s : String) : Prop := ∀ c ∈ s.toList, isBracket c = false

/-- The output is a document, an object or an array in prose, or one in a fence that prose
may follow. -/
inductive Carries (float : String → ℚ × String) : String → String → Prop
  | document {content : String} (h : (loads float (strip content)).isSome = true) :
    Carries float content (strip content)
  | inProse {before doc after : String} (hdoc : Container float doc) (hbefore : Prose before)
    (hafter : Prose after) : Carries float (before ++ doc ++ after) doc
  | fenced {lead info space doc space' after : String} (hdoc : Container float doc)
    (hlead : lead.toList.all isSpace = true) (hinfo : '\n' ∉ info.toList)
    (hspace : space.toList.all isSpace = true) (hspace' : space'.toList.all isSpace = true)
    (hafter : Prose after) :
    Carries float
      (lead ++ "```" ++ info ++ "\n" ++ space ++ doc ++ space' ++ "```" ++ after) doc

/-- A bracket opens in front of one that closes. -/
def Bracketed (s : List Char) : Prop :=
  ∃ u m w o c, s = u ++ o :: (m ++ c :: w) ∧ isOpening o = true ∧ isClosing c = true

/-- The output is a JSON string in which a bracket opens in front of one that closes. -/
def QuotedBrackets (float : String → ℚ × String) (content : String) : Prop :=
  ∃ text, loads float (strip content) = some (.str text) ∧ Bracketed (strip content).toList

/-- The output is an object or an array in prose that begins with the line of a fence and does
not end it in front of the document. -/
def OneLineFence (float : String → ℚ × String) (content : String) : Prop :=
  ∃ before doc after, content = before ++ doc ++ after ∧ Container float doc ∧ Prose before ∧
    Prose after ∧ fence.isPrefixOf (before.toList.dropWhile isSpace) = true ∧
    '\n' ∉ before.toList.dropWhile isSpace

variable {float : String → ℚ × String}

theorem Container.brackets {doc : String} (h : Container float doc) :
    ∃ o m c, doc.toList = o :: (m ++ [c]) ∧ isOpening o = true ∧ isClosing c = true := by
  obtain ⟨v, hloads, hv, hstrip⟩ := h
  have hshape := shape_of_loads hstrip hloads
  generalize doc.toList = s at hshape
  cases hshape with
  | container ho hc _ => exact ⟨_, _, _, rfl, ho, hc⟩
  | quoted => cases hv
  | plain _ hv' => rw [hv] at hv'; cases hv'

/-! ### Documents -/

theorem toList_extractJsonText (content : String) :
    (extractJsonText content).toList = cutJson (unfenced (strip content).toList) := by
  rw [extractJsonText, String.toList_ofList, toList_strip]

theorem leads_nil : Leads [] := .inl ⟨by decide, fun c hc => nomatch hc⟩

theorem isMark_bracket {c : Char} (hc : isBracket c = true) : isMark c = false :=
  of_isBracket (P := (isMark · = false)) hc (by decide)

theorem cutJson_marks {s : List Char} (hs : Marks s) : cutJson (unfenced s) = stripped s := by
  have hopen : ∀ c ∈ s, isOpening c = false := by
    intro c hc
    by_contra hopening
    have hmark := hs c hc
    rw [isMark_bracket (bracket_of_opening (by simpa using hopening))] at hmark
    cases hmark
  have hfence : unfenced s = s := by
    cases s with
    | nil => decide
    | cons c t =>
      refine unfenced_cons (fun hc => ?_) t
      have hmark := hs c List.mem_cons_self
      rw [(of_mem_fence hc).1] at hmark
      cases hmark
  have hcut := cutJson_apart (w := []) hopen fun c hc => nomatch hc
  rw [List.append_nil] at hcut
  rw [hfence, hcut]

/-- A text in which no bracket opens in front of one that closes, or one in which one does. -/
theorem apart_or_between (s : List Char) :
    (∃ u w, s = u ++ w ∧ (∀ c ∈ u, isOpening c = false) ∧ ∀ c ∈ w, isClosing c = false) ∨
      ∃ u m w o c, s = u ++ o :: (m ++ c :: w) ∧ isOpening o = true ∧ isClosing c = true ∧
        (∀ d ∈ u, isOpening d = false) ∧ ∀ d ∈ w, isClosing d = false := by
  by_cases hopen : ∃ c ∈ s, isOpening c = true
  · obtain ⟨u, o, v, rfl, ho, hu⟩ := exists_first hopen
    by_cases hclose : ∃ c ∈ v, isClosing c = true
    · obtain ⟨m, c, w, rfl, hc, hw⟩ := exists_last hclose
      exact .inr ⟨u, m, w, o, c, rfl, ho, hc, hu, hw⟩
    · refine .inl ⟨u, o :: v, rfl, hu, fun d hd => ?_⟩
      rcases List.mem_cons.mp hd with rfl | hd
      · obtain rfl | rfl : d = '\x7b' ∨ d = '[' := by simpa [isOpening] using ho
        · decide
        · decide
      · simpa using fun h => hclose ⟨d, hd, h⟩
  · refine .inl ⟨s, [], (List.append_nil s).symm, fun c hc => ?_, fun c hc => by cases hc⟩
    simpa using fun h => hopen ⟨c, hc, h⟩

theorem not_bracketed {u w : List Char} (hu : ∀ c ∈ u, isOpening c = false)
    (hw : ∀ c ∈ w, isClosing c = false) : ¬ Bracketed (u ++ w) := by
  rintro ⟨a, m, b, o, c, h, ho, hc⟩
  rcases List.append_eq_append_iff.mp h with ⟨x, rfl, rfl⟩ | ⟨x, rfl, hx⟩
  · rw [hw c (by simp)] at hc
    cases hc
  · cases x with
    | nil =>
      rw [List.nil_append] at hx
      rw [hw c (by simp [← hx])] at hc
      cases hc
    | cons d x =>
      obtain ⟨rfl, -⟩ := List.cons.inj hx
      rw [hu o (by simp)] at ho
      cases ho

/-- A document is returned as it stands, unless it is a string with brackets. -/
theorem extract_document {content : String} (h : (loads float (strip content)).isSome = true)
    (hquoted : ¬ QuotedBrackets float content) : extractJsonText content = strip content := by
  obtain ⟨v, hloads⟩ := Option.isSome_iff_exists.mp h
  have hshape := shape_of_loads (strip_strip content) hloads
  have hself : stripped (strip content).toList = (strip content).toList := by
    rw [toList_strip, stripped_stripped]
  rw [← String.toList_inj, toList_extractJsonText]
  generalize hs : (strip content).toList = s at hshape hself
  cases hshape with
  | container ho hc _ =>
    exact cutJson_unfenced (u := []) (w := []) leads_nil ho hc fun d hd => nomatch hd
  | @quoted u text =>
    rw [unfenced_cons (by decide)]
    rcases apart_or_between ('"' :: u) with ⟨a, b, hab, ha, hb⟩ | ⟨a, m, b, o, c, hab, ho, hc, _, _⟩
    · rw [hab] at hself ⊢
      rw [cutJson_apart ha hb, hself]
    · exact absurd ⟨text, hloads, hs ▸ ⟨a, m, b, o, c, hab, ho, hc⟩⟩ hquoted
  | plain hmarks _ => rw [cutJson_marks hmarks, hself]

theorem extract_quoted {content : String} (h : QuotedBrackets float content) :
    (loads float (strip content)).isSome = true ∧ extractJsonText content ≠ strip content := by
  obtain ⟨text, hloads, hbracketed⟩ := h
  refine ⟨by simp [hloads], fun heq => ?_⟩
  have hshape := shape_of_loads (strip_strip content) hloads
  rw [← String.toList_inj, toList_extractJsonText] at heq
  generalize (strip content).toList = s at hshape heq hbracketed
  cases hshape with
  | @quoted v =>
    rw [unfenced_cons (by decide)] at heq
    rcases apart_or_between ('"' :: v) with ⟨a, b, hab, ha, hb⟩ | ⟨a, m, b, o, c, hab, ho, hc, ha, hb⟩
    · exact not_bracketed ha hb (hab ▸ hbracketed)
    · rw [hab, cutJson_between ha ho hc hb, ← hab] at heq
      obtain ⟨rfl, -⟩ := List.cons.inj heq
      cases ho
  | container _ _ hv => cases hv
  | plain hmarks _ =>
    obtain ⟨a, m, b, o, c, rfl, ho, -⟩ := hbracketed
    have hmark := hmarks o (by simp)
    rw [isMark_bracket (bracket_of_opening ho)] at hmark
    cases hmark

/-! ### Documents with something around them -/

theorem toList_strip_around {doc : String} {o c : Char} {m : List Char}
    (hdoc : doc.toList = o :: (m ++ [c])) (ho : isOpening o = true) (hc : isClosing c = true)
    (before after : String) :
    (strip (before ++ doc ++ after)).toList =
      before.toList.dropWhile isSpace ++ o :: (m ++ c :: rstrip after.toList) := by
  have hparts : (before ++ doc ++ after).toList =
      before.toList ++ o :: (m ++ c :: after.toList) := by
    simp [String.toList_append, hdoc]
  rw [toList_strip, hparts]
  exact stripped_append (isSpace_bracket (bracket_of_opening ho))
    (isSpace_bracket (bracket_of_closing hc)) _ _ _

theorem Prose.opening {s : String} (h : Prose s) : ∀ c ∈ s.toList, isOpening c = false :=
  fun c hc => (not_bracket (h c hc)).1

theorem Prose.closing {s : String} (h : Prose s) : ∀ c ∈ s.toList, isClosing c = false :=
  fun c hc => (not_bracket (h c hc)).2

theorem extract_around {before doc after : String} (hdoc : Container float doc)
    (hbefore : Leads (before.toList.dropWhile isSpace))
    (hafter : ∀ c ∈ after.toList, isClosing c = false) :
    extractJsonText (before ++ doc ++ after) = doc := by
  obtain ⟨o, m, c, htext, ho, hc⟩ := hdoc.brackets
  rw [← String.toList_inj, toList_extractJsonText, toList_strip_around htext ho hc, htext]
  exact cutJson_unfenced hbefore ho hc fun d hd =>
    hafter d ((rstrip_sublist after.toList).subset hd)

/-- Prose leads up to a document unless it begins with the line of a fence that does not end. -/
theorem leads_of_prose {before : String} (h : Prose before)
    (hline : fence.isPrefixOf (before.toList.dropWhile isSpace) = true →
      '\n' ∈ before.toList.dropWhile isSpace) :
    Leads (before.toList.dropWhile isSpace) := by
  have hopen : ∀ c ∈ before.toList.dropWhile isSpace, isOpening c = false := fun c hc =>
    h.opening c ((List.dropWhile_suffix isSpace).subset hc)
  cases hfence : fence.isPrefixOf (before.toList.dropWhile isSpace) with
  | false => exact .inl ⟨hfence, hopen⟩
  | true =>
    obtain ⟨line, rest, hsplit, hnl⟩ := List.eq_append_cons_of_mem (hline hfence)
    refine .inr ⟨line, rest, hsplit, hfence, hnl, fun c hc => hopen c ?_⟩
    rw [hsplit]
    simp [hc]

theorem extract_oneLine {before doc after : String} (hdoc : Container float doc)
    (hafter : Prose after) (hfence : fence.isPrefixOf (before.toList.dropWhile isSpace) = true)
    (hnl : '\n' ∉ before.toList.dropWhile isSpace) :
    extractJsonText (before ++ doc ++ after) ≠ doc := by
  obtain ⟨o, m, c, htext, ho, hc⟩ := hdoc.brackets
  rw [Ne, ← String.toList_inj, toList_extractJsonText, toList_strip_around htext ho hc, htext]
  exact cutJson_unfenced_ne hfence hnl ho fun d hd =>
    hafter.opening d ((rstrip_sublist after.toList).subset hd)

theorem bracket_of_space {s : List Char} (hs : s.all isSpace = true) :
    ∀ c ∈ s, isBracket c = false := by
  intro c hc
  by_contra hbracket
  have hspace := List.all_eq_true.mp hs c hc
  rw [isSpace_bracket (by simpa using hbracket)] at hspace
  cases hspace

theorem leads_of_fence {lead info space : String} (hlead : lead.toList.all isSpace = true)
    (hinfo : '\n' ∉ info.toList) (hspace : space.toList.all isSpace = true) :
    Leads ((lead ++ "```" ++ info ++ "\n" ++ space).toList.dropWhile isSpace) := by
  have htext : (lead ++ "```" ++ info ++ "\n" ++ space).toList =
      lead.toList ++ (fence ++ info.toList ++ '\n' :: space.toList) := by
    simp [String.toList_append, fence]
  have hdrop : (fence ++ info.toList ++ '\n' :: space.toList).dropWhile isSpace =
      fence ++ info.toList ++ '\n' :: space.toList := by
    simp [fence, isSpace]
  rw [htext, List.dropWhile_append_of_pos (List.all_eq_true.mp hlead), hdrop]
  refine .inr ⟨fence ++ info.toList, space.toList, rfl, ?_, ?_, fun c hc => ?_⟩
  · rw [List.isPrefixOf_iff_prefix, List.append_assoc]
    exact List.prefix_append _ _
  · intro hnl
    rcases List.mem_append.mp hnl with hnl | hnl
    · exact absurd hnl (by decide)
    · exact hinfo hnl
  · exact (not_bracket (bracket_of_space hspace c hc)).1

theorem extract_fenced {lead info space doc space' after : String} (hdoc : Container float doc)
    (hlead : lead.toList.all isSpace = true) (hinfo : '\n' ∉ info.toList)
    (hspace : space.toList.all isSpace = true) (hspace' : space'.toList.all isSpace = true)
    (hafter : Prose after) :
    extractJsonText (lead ++ "```" ++ info ++ "\n" ++ space ++ doc ++ space' ++ "```" ++ after) =
      doc := by
  have hparts : lead ++ "```" ++ info ++ "\n" ++ space ++ doc ++ space' ++ "```" ++ after =
      lead ++ "```" ++ info ++ "\n" ++ space ++ doc ++ (space' ++ "```" ++ after) := by
    simp only [String.append_assoc]
  rw [hparts]
  refine extract_around hdoc (leads_of_fence hlead hinfo hspace) fun c hc => ?_
  rw [String.toList_append, String.toList_append, List.mem_append, List.mem_append] at hc
  rcases hc with (hc | hc) | hc
  · exact (not_bracket (bracket_of_space hspace' c hc)).2
  · exact (not_bracket (of_mem_fence hc).2).2
  · exact hafter.closing c hc

/-! ### Every output -/

/-- What the output carries is returned as it stands, and parsed as it is validated. -/
def Extracts (float : String → ℚ × String) (content : String) : Prop :=
  ∀ doc, Carries float content doc →
    extractJsonText content = doc ∧
      ∀ {α : Type} (validateJson : String → Except Exn α),
        parseStructuredStreamJson validateJson content = validateJson doc

theorem extracts_of_eq {content : String}
    (h : ∀ doc, Carries float content doc → extractJsonText content = doc) :
    Extracts float content := by
  intro doc hdoc
  refine ⟨h doc hdoc, fun validateJson => ?_⟩
  rw [parseStructuredStreamJson, h doc hdoc]

/-- A document is extracted unless it is a string with brackets, or stands in prose that
begins with a fence on its own line. -/
theorem extracts_iff (float : String → ℚ × String) (content : String) :
    Extracts float content ↔ ¬ QuotedBrackets float content ∧ ¬ OneLineFence float content := by
  constructor
  · intro h
    constructor
    · intro hquoted
      obtain ⟨hloads, hne⟩ := extract_quoted hquoted
      exact hne (h _ (.document hloads)).1
    · rintro ⟨before, doc, after, rfl, hdoc, hbefore, hafter, hfence, hnl⟩
      exact extract_oneLine hdoc hafter hfence hnl (h _ (.inProse hdoc hbefore hafter)).1
  · rintro ⟨hquoted, hline⟩
    refine extracts_of_eq fun doc hdoc => ?_
    cases hdoc with
    | document h => exact extract_document h hquoted
    | @inProse before doc after hdoc hbefore hafter =>
      refine extract_around hdoc (leads_of_prose hbefore fun hfence => ?_) hafter.closing
      by_contra hnl
      exact hline ⟨before, doc, after, rfl, hdoc, hbefore, hafter, hfence, hnl⟩
    | fenced hdoc hlead hinfo hspace hspace' hafter =>
      exact extract_fenced hdoc hlead hinfo hspace hspace' hafter

/-- A JSON string with braces in it is cut down to what stands in them, and a document on the
line of its fence is lost with the line. -/
theorem not_extracts :
    ¬ Extracts noFloats "\"a \x7bb\x7d c\"" ∧ ¬ Extracts noFloats "```[1]```" := by
  constructor
  · intro h
    have hcut := (h _ (.document (by decide +kernel))).1
    exact absurd hcut (by decide +kernel)
  · intro h
    have hprose : Prose "```" := fun c hc => (of_mem_fence hc).2
    have hlist : Container noFloats "[1]" := ⟨.list [.int 1], rfl, rfl, by decide +kernel⟩
    have hparts : "```" ++ "[1]" ++ "```" = "```[1]```" := by decide
    have hcut := (h "[1]" (hparts ▸ .inProse hlist hprose hprose)).1
    exact absurd hcut (by decide +kernel)

end Blackgeorge.WorkerRunner
