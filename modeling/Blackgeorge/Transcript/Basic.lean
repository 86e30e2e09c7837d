import Mathlib.Data.List.Nodup
import Mathlib.Data.List.Perm.Basic

/-! Transcripts of requests and answers. A transcript is a list of plain items, groups
of calls with identities of any type, and answers to single calls. In a well-formed one
every group is answered directly behind it, each call once, and nothing else is
answered. The results say which edits keep that: appending, dropping plain items and
cutting off a head. -/

namespace Blackgeorge.Transcript

inductive Item (ι : Type) where
  | text
  | calls (ids : List ι)
  | answer (id : ι)
  deriving DecidableEq

variable {ι μ : Type}

/-- The identities answered in front of the first item that is no answer. -/
def answers : List (Item ι) → List ι
  | .answer id :: l => id :: answers l
  | _ => []

variable [DecidableEq ι]

/-- The scan behind a group of calls `ids`: only those may be answered until the next
item that is no answer. -/
def WellFormedFrom : List ι → List (Item ι) → Prop
  | _, [] => True
  | _, .text :: l => WellFormedFrom [] l
  | _, .calls ids :: l => (∀ id ∈ ids, (answers l).count id = 1) ∧ WellFormedFrom ids l
  | ids, .answer id :: l => id ∈ ids ∧ WellFormedFrom ids l

/-- Each group of calls is followed, before the next item that is no answer, by exactly
one answer for each of its calls, and no answer stands anywhere else. -/
def WellFormed (l : List (Item ι)) : Prop := WellFormedFrom [] l

instance : ∀ (ids : List ι) (l : List (Item ι)), Decidable (WellFormedFrom ids l)
  | _, [] => isTrue trivial
  | _, .text :: l => instDecidableWellFormedFrom [] l
  | _, .calls ids :: l =>
    have := instDecidableWellFormedFrom ids l
    inferInstanceAs (Decidable ((∀ id ∈ ids, (answers l).count id = 1) ∧ WellFormedFrom ids l))
  | ids, .answer id :: l =>
    have := instDecidableWellFormedFrom ids l
    inferInstanceAs (Decidable (id ∈ ids ∧ WellFormedFrom ids l))

instance (l : List (Item ι)) : Decidable (WellFormed l) :=
  inferInstanceAs (Decidable (WellFormedFrom [] l))

/-! ### The first item -/

/-- The list does not begin with an answer. -/
def Detached (l : List (Item ι)) : Prop := ∀ id, l.head? ≠ some (.answer id)

theorem WellFormed.detached {l : List (Item ι)} (h : WellFormed l) : Detached l := by
  rintro id hid
  obtain ⟨l', rfl⟩ := List.head?_eq_some_iff.mp hid
  simpa using h.1

theorem WellFormedFrom.of_detached {ids ids' : List ι} {l : List (Item ι)}
    (h : WellFormedFrom ids l) (hl : Detached l) : WellFormedFrom ids' l := by
  match l, h with
  | [], _ => trivial
  | .text :: _, h => exact h
  | .calls _ :: _, h => exact h
  | .answer id :: _, _ => exact absurd rfl (hl id)

omit [DecidableEq ι] in
theorem answers_append {l m : List (Item ι)} (hm : Detached m) :
    answers (l ++ m) = answers l := by
  induction l with
  | nil =>
    match m, hm with
    | [], _ => rfl
    | .text :: _, _ => rfl
    | .calls _ :: _, _ => rfl
    | .answer id :: _, hm => exact absurd rfl (hm id)
  | cons x l ih =>
    cases x with
    | answer id => simp only [List.cons_append, answers, ih]
    | _ => rfl

/-! ### Appending -/

theorem WellFormedFrom.append {ids : List ι} {l m : List (Item ι)} (hl : WellFormedFrom ids l)
    (hm : WellFormed m) : WellFormedFrom ids (l ++ m) := by
  induction l generalizing ids with
  | nil => exact WellFormedFrom.of_detached hm hm.detached
  | cons x l ih =>
    cases x with
    | text => exact @ih [] hl
    | calls ids' =>
      refine ⟨fun id hid => ?_, ih hl.2⟩
      have h := hl.1 id hid
      rwa [← answers_append hm.detached] at h
    | answer id => exact ⟨hl.1, ih hl.2⟩

theorem WellFormed.append {l m : List (Item ι)} (hl : WellFormed l) (hm : WellFormed m) :
    WellFormed (l ++ m) :=
  WellFormedFrom.append hl hm

theorem wellFormed_texts (l : List (Item ι)) (h : ∀ x ∈ l, x = .text) : WellFormed l := by
  induction l with
  | nil => trivial
  | cons x l ih =>
    obtain rfl := h x (by simp)
    exact ih fun y hy => h y (by simp [hy])

omit [DecidableEq ι] in
theorem answers_map (as : List ι) : answers (as.map .answer) = as := by
  induction as with
  | nil => rfl
  | cons a as ih => simp only [List.map_cons, answers, ih]

theorem wellFormedFrom_answers {ids as : List ι} (h : ∀ a ∈ as, a ∈ ids) :
    WellFormedFrom ids (as.map .answer) := by
  induction as with
  | nil => trivial
  | cons a as ih => exact ⟨h a (by simp), ih fun b hb => h b (by simp [hb])⟩

/-- A group whose distinct calls are all answered, in any order. -/
theorem wellFormed_group {ids as : List ι} (hids : ids.Nodup) (h : as.Perm ids) :
    WellFormed (.calls ids :: as.map .answer) := by
  refine ⟨fun id hid => ?_, wellFormedFrom_answers fun a ha => h.mem_iff.mp ha⟩
  rw [answers_map, h.count_eq, List.count_eq_one_of_mem hids hid]

/-! ### Dropping plain items -/

omit [DecidableEq ι] in
theorem answers_eq_nil {l : List (Item ι)} (h : Detached l) : answers l = [] := by
  simpa [answers] using answers_append (l := ([] : List (Item ι))) h

/-- Items that `p` drops are plain, so the groups stay together. -/
theorem WellFormedFrom.filter {f : μ → Item ι} {p : μ → Bool} (hp : ∀ m, p m = false → f m = .text)
    {ids : List ι} {l : List μ} (h : WellFormedFrom ids (l.map f)) :
    WellFormedFrom ids ((l.filter p).map f) ∧
      answers ((l.filter p).map f) = answers (l.map f) := by
  induction l generalizing ids with
  | nil => exact ⟨trivial, rfl⟩
  | cons m l ih =>
    simp only [List.map_cons] at h
    rw [List.filter_cons]
    split_ifs with hm
    · simp only [List.map_cons]
      cases hf : f m with
      | text =>
        rw [hf] at h
        exact ⟨(@ih [] h).1, rfl⟩
      | calls ids' =>
        rw [hf] at h
        obtain ⟨h₁, h₂⟩ := ih h.2
        exact ⟨⟨fun id hid => h₂ ▸ h.1 id hid, h₁⟩, rfl⟩
      | answer id =>
        rw [hf] at h
        obtain ⟨h₁, h₂⟩ := ih h.2
        exact ⟨⟨h.1, h₁⟩, by simp only [answers, h₂]⟩
    · simp only [List.map_cons]
      rw [hp m (by simpa using hm)] at h ⊢
      obtain ⟨h₁, -⟩ := @ih [] h
      have hd : Detached ((l.filter p).map f) := WellFormed.detached h₁
      exact ⟨WellFormedFrom.of_detached h₁ hd, answers_eq_nil hd⟩

theorem WellFormed.filter {f : μ → Item ι} {p : μ → Bool} (hp : ∀ m, p m = false → f m = .text)
    {l : List μ} (h : WellFormed (l.map f)) : WellFormed ((l.filter p).map f) :=
  (WellFormedFrom.filter hp h).1

/-! ### Cutting off a head -/

theorem WellFormedFrom.of_append {ids : List ι} {l m : List (Item ι)}
    (h : WellFormedFrom ids (l ++ m))
    (hm : ∀ id, m.head? = some (.answer id) → id ∉ ids ∧ ∀ ids', .calls ids' ∈ l → id ∉ ids') :
    WellFormed m := by
  induction l generalizing ids with
  | nil =>
    refine @WellFormedFrom.of_detached _ _ ids _ _ h fun id hid => ?_
    obtain ⟨m', rfl⟩ := List.head?_eq_some_iff.mp hid
    exact (hm id hid).1 h.1
  | cons x l ih =>
    have hl : ∀ id, m.head? = some (.answer id) → ∀ ids', .calls ids' ∈ l → id ∉ ids' :=
      fun id hid ids' hids' => (hm id hid).2 ids' (by simp [hids'])
    cases x with
    | text => exact @ih [] h fun id hid => ⟨by simp, hl id hid⟩
    | calls ids' => exact ih h.2 fun id hid => ⟨(hm id hid).2 ids' (by simp), hl id hid⟩
    | answer _ => exact ih h.2 fun id hid => ⟨(hm id hid).1, hl id hid⟩

/-- The tail may be kept when its first answer, if it begins with one, belongs to no
group of the head. -/
theorem WellFormed.of_append {l m : List (Item ι)} (h : WellFormed (l ++ m))
    (hm : ∀ id, m.head? = some (.answer id) → ∀ ids, .calls ids ∈ l → id ∉ ids) :
    WellFormed m :=
  WellFormedFrom.of_append h fun id hid => ⟨by simp, hm id hid⟩

/-! ### What well-formedness says -/

theorem WellFormedFrom.answered {ids : List ι} {pre post : List (Item ι)} {ids' : List ι}
    (h : WellFormedFrom ids (pre ++ .calls ids' :: post)) :
    ∀ id ∈ ids', (answers post).count id = 1 := by
  induction pre generalizing ids with
  | nil => exact h.1
  | cons x pre ih =>
    cases x with
    | text => exact @ih [] h
    | calls _ => exact ih h.2
    | answer _ => exact ih h.2

/-- Each call of a group has exactly one answer in front of the next item that is no
answer. -/
theorem WellFormed.answered {pre post : List (Item ι)} {ids : List ι}
    (h : WellFormed (pre ++ .calls ids :: post)) : ∀ id ∈ ids, (answers post).count id = 1 :=
  WellFormedFrom.answered h

theorem WellFormedFrom.asked {ids : List ι} {pre post : List (Item ι)} {id : ι}
    (h : WellFormedFrom ids (pre ++ .answer id :: post)) :
    (id ∈ ids ∧ ∃ as : List ι, pre = as.map .answer) ∨
      ∃ (p : List (Item ι)) (ids' as : List ι), pre = p ++ .calls ids' :: as.map .answer ∧ id ∈ ids' := by
  induction pre generalizing ids with
  | nil => exact .inl ⟨h.1, [], rfl⟩
  | cons x pre ih =>
    cases x with
    | text =>
      rcases @ih [] h with ⟨hid, -⟩ | ⟨p, ids', as, rfl, hid⟩
      · simp at hid
      · exact .inr ⟨.text :: p, ids', as, rfl, hid⟩
    | calls ids' =>
      rcases ih h.2 with ⟨hid, as, rfl⟩ | ⟨p, ids'', as, rfl, hid⟩
      · exact .inr ⟨[], ids', as, rfl, hid⟩
      · exact .inr ⟨.calls ids' :: p, ids'', as, rfl, hid⟩
    | answer a =>
      rcases ih h.2 with ⟨hid, as, rfl⟩ | ⟨p, ids', as, rfl, hid⟩
      · exact .inl ⟨hid, a :: as, rfl⟩
      · exact .inr ⟨.answer a :: p, ids', as, rfl, hid⟩

/-- An answer has a group with its call in front of it and only answers in between. -/
theorem WellFormed.asked {pre post : List (Item ι)} {id : ι}
    (h : WellFormed (pre ++ .answer id :: post)) :
    ∃ (p : List (Item ι)) (ids as : List ι), pre = p ++ .calls ids :: as.map .answer ∧ id ∈ ids := by
  rcases WellFormedFrom.asked h with ⟨hid, -⟩ | h
  · simp at hid
  · exact h

end Blackgeorge.Transcript
