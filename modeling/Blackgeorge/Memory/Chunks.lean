import Blackgeorge.Memory.SQLite

/-! The chunks of a text are the windows that start at the multiples of the step, up to the
first one that reaches the end of the text. -/

namespace Blackgeorge.Memory

open Data Json

/-- The chunks are windows of `size` characters, one every `step` of them, and together they
hold the whole text. -/
structure Windows (text : List Char) (size step : ℕ) (chunks : List (List Char)) : Prop where
  ne_nil : chunks ≠ []
  window : ∀ i c, chunks[i]? = some c → c = (text.drop (i * step)).take size
  covered : ∀ p, p < text.length → ∃ i, i < chunks.length ∧ i * step ≤ p ∧ p < i * step + size
  filled : text ≠ [] → ∀ c ∈ chunks, c ≠ []

variable {text : List Char} {size step : ℕ}

theorem Windows.length_le {chunks : List (List Char)} (h : Windows text size step chunks) :
    ∀ c ∈ chunks, c.length ≤ size := by
  intro c hc
  obtain ⟨i, hi⟩ := List.mem_iff_getElem?.mp hc
  rw [h.window i c hi, List.length_take]
  exact min_le_left _ _

/-- A text that is no longer than a chunk. -/
theorem windows_single (hshort : text.length ≤ size) : Windows text size step [text] where
  ne_nil := List.cons_ne_nil _ _
  window i c hi := by
    cases i with
    | zero =>
      obtain rfl : text = c := by simpa using hi
      rw [Nat.zero_mul, List.drop_zero, List.take_of_length_le hshort]
    | succ i => simp at hi
  covered p hp := ⟨0, Nat.one_pos, by omega, by omega⟩
  filled hne c hc := List.mem_singleton.mp hc ▸ hne

/-- A chunk in front of those of the text behind the step. -/
theorem Windows.cons {chunks : List (List Char)} (h : Windows (text.drop step) size step chunks)
    (hstep : 0 < step) (hle : step ≤ size) (hlong : size < text.length) :
    Windows text size step (text.take size :: chunks) where
  ne_nil := List.cons_ne_nil _ _
  window i c hi := by
    cases i with
    | zero =>
      obtain rfl : text.take size = c := by simpa using hi
      rw [Nat.zero_mul, List.drop_zero]
    | succ i =>
      rw [List.getElem?_cons_succ] at hi
      rw [h.window i c hi, List.drop_drop, Nat.succ_mul, Nat.add_comm]
  covered p hp := by
    by_cases hfirst : p < size
    · exact ⟨0, Nat.succ_pos _, by omega, by omega⟩
    · obtain ⟨i, hi, hlow, hhigh⟩ := h.covered (p - step) (by rw [List.length_drop]; omega)
      refine ⟨i + 1, Nat.succ_lt_succ hi, ?_, ?_⟩
      · rw [Nat.succ_mul]
        omega
      · rw [Nat.succ_mul]
        omega
  filled hne c hc := by
    rcases List.mem_cons.mp hc with rfl | hc
    · intro hnil
      have hlen := congrArg List.length hnil
      rw [List.length_take] at hlen
      simp only [List.length_nil] at hlen
      omega
    · refine h.filled (fun hnil => ?_) c hc
      have hlen := congrArg List.length hnil
      rw [List.length_drop] at hlen
      simp only [List.length_nil] at hlen
      omega

theorem windows_chunkLoop (hstep : 0 < step) (hle : step ≤ size) {fuel : ℕ} :
    ∀ {text : List Char}, text ≠ [] → text.length ≤ fuel →
      Windows text size step (chunkLoop size step fuel text) := by
  induction fuel with
  | zero =>
    intro text hne hfuel
    exact absurd (List.length_eq_zero_iff.mp (Nat.le_zero.mp hfuel)) hne
  | succ fuel ih =>
    intro text hne hfuel
    rw [chunkLoop, if_neg hne]
    by_cases hshort : text.length ≤ size
    · rw [if_pos hshort]
      exact windows_single hshort
    · rw [if_neg hshort]
      have hlen : (text.drop step).length = text.length - step := List.length_drop
      have hrest : text.drop step ≠ [] := by
        intro hnil
        rw [hnil, List.length_nil] at hlen
        omega
      exact (ih hrest (by omega)).cons hstep hle (by omega)

/-- The loop ends before the fuel does. -/
theorem chunkLoop_fuel (hstep : 0 < step) {fuel more : ℕ} :
    ∀ {text : List Char}, text.length ≤ fuel → fuel ≤ more →
      chunkLoop size step more text = chunkLoop size step fuel text := by
  induction fuel generalizing more with
  | zero =>
    intro text hfuel _
    obtain rfl := List.length_eq_zero_iff.mp (Nat.le_zero.mp hfuel)
    cases more <;> rfl
  | succ fuel ih =>
    intro text hfuel hmore
    obtain ⟨more, rfl⟩ : ∃ n, more = n + 1 := ⟨more - 1, by omega⟩
    rw [chunkLoop, chunkLoop]
    by_cases hnil : text = []
    · rw [if_pos hnil, if_pos hnil]
    · have hlen : (text.drop step).length = text.length - step := List.length_drop
      have hpos := List.length_pos_of_ne_nil hnil
      rw [if_neg hnil, if_neg hnil, ih (by omega) (by omega)]

/-! ### The chunks of a text -/

/-- `step` of `_chunk_text`. -/
def chunkStep (chunkSize overlap : ℤ) : ℕ := (chunkSize - min (max overlap 0) (chunkSize - 1)).toNat

theorem windows_chunkText (text : List Char) {chunkSize : ℤ} (overlap : ℤ) (hsize : 1 ≤ chunkSize) :
    Windows text chunkSize.toNat (chunkStep chunkSize overlap)
      (chunkText text chunkSize overlap) := by
  rw [chunkText]
  by_cases hshort : (text.length : ℤ) ≤ chunkSize
  · rw [if_pos hshort]
    exact windows_single (by omega)
  · rw [if_neg hshort, if_neg (by omega)]
    refine windows_chunkLoop ?_ ?_ ?_ le_rfl
    · unfold chunkStep at *
      omega
    · unfold chunkStep at *
      omega
    · rintro rfl
      simp only [List.length_nil] at hshort
      omega

/-- A text is cut into windows that are no longer than the chunk size and hold all of it, and
a store that reads the chunks puts them together to the text, however it is configured. -/
theorem fullText_write (text : String) {chunkSize : ℤ} (overlap : ℤ) (hsize : 1 ≤ chunkSize)
    (reader : VectorMemoryStore) {get : List Entry → List Entry}
    (hget : ∀ found, (get found).Perm found) (limits : Limits) (float : String → ℚ × String)
    (collection : Collection) (key scope : String) :
    (∀ fuel, text.toList.length ≤ fuel →
      chunkLoop chunkSize.toNat (chunkStep chunkSize overlap) fuel text.toList =
        chunkLoop chunkSize.toNat (chunkStep chunkSize overlap) text.toList.length text.toList) ∧
    Windows text.toList chunkSize.toNat (chunkStep chunkSize overlap)
      (chunkText text.toList chunkSize overlap) ∧
    (∀ c ∈ chunkText text.toList chunkSize overlap, (c.length : ℤ) ≤ chunkSize) ∧
    ∃ collection',
      (VectorMemoryStore.init chunkSize overlap).write limits collection key (.str text) scope =
        .ok collection' ∧
      reader.fullText get collection' key scope = some text ∧
      reader.read limits float get collection' key scope = deserializeValue limits float text := by
  have hstep : 0 < chunkStep chunkSize overlap := by
    unfold chunkStep
    omega
  have hwindows := windows_chunkText text.toList overlap hsize
  refine ⟨fun fuel hfuel => chunkLoop_fuel hstep le_rfl hfuel, hwindows, fun c hc => ?_, _, rfl, ?_,
    ?_⟩
  · have hlen := hwindows.length_le c hc
    omega
  · exact VectorMemoryStore.fullText_put _ reader hget collection key text scope
  · exact VectorMemoryStore.read_put _ reader hget collection key text scope

theorem fullText_write_letters : ∃ collection,
    (VectorMemoryStore.init 3 7).write defaultLimits [] "k" (.str "abcdef") "s" = .ok collection ∧
    (VectorMemoryStore.init 8000 200).fullText List.reverse collection "k" "s" = some "abcdef" := by
  obtain ⟨-, -, -, collection, hwrite, hfull, -⟩ := fullText_write "abcdef" 7 (show (1 : ℤ) ≤ 3 by decide)
    (VectorMemoryStore.init 8000 200) (fun found => List.reverse_perm found) defaultLimits
    Json.noFloats [] "k" "s"
  exact ⟨collection, hwrite, hfull⟩

example : chunkText "abcdef".toList 3 1 = ["abc".toList, "cde".toList, "ef".toList] := by decide

end Blackgeorge.Memory
