import Mathlib.Data.List.Infix
import Mathlib.Data.List.TakeWhile
import Mathlib.Tactic

/-!
# Words of a text

A word is a run of word characters that nothing extends, and a text is words with
other characters between them. `mapWords` puts something in the place of every word; it
works on the two sides of a character between words apart, and what it does twice it
does once if it leaves its own words alone.

A run of a class has a given number of characters in a row. A character that is not in
the class parts the runs of a text.
-/
namespace AikoIsland.WordRuns

variable {α : Type}

/-- The first character, if any, is not of the class. -/
def Ends (cls : α → Bool) (s : List α) : Prop := ∀ c ∈ s.head?, cls c = false

/-- Some text of the length has only characters of the class. -/
def HasRun (cls : α → Bool) (n : ℕ) (s : List α) : Prop :=
  ∃ run, run <:+: s ∧ run.length = n ∧ ∀ c ∈ run, cls c = true

section
variable {cls : α → Bool} {s w rest : List α} {c : α}

theorem ends_nil : Ends cls [] := by
  intro c hc
  cases hc

theorem ends_cons : Ends cls (c :: s) ↔ cls c = false := by
  simp [Ends]

theorem Ends.mono {cls' : α → Bool} (h : Ends cls s) (hcls : ∀ c, cls' c = true → cls c = true) :
    Ends cls' s := by
  intro c hc
  by_contra hnot
  have hfalse := h c hc
  rw [hcls c (by simpa using hnot)] at hfalse
  cases hfalse

theorem ends_dropWhile (cls : α → Bool) (s : List α) : Ends cls (s.dropWhile cls) := by
  intro c hc
  have hhead := List.head?_dropWhile_not cls s
  rw [Option.mem_def.mp hc] at hhead
  simpa using hhead

/-- A run up to a text that ends it is all that is taken. -/
theorem takeWhile_append (hw : ∀ c ∈ w, cls c = true) (h : Ends cls rest) :
    (w ++ rest).takeWhile cls = w ∧ (w ++ rest).dropWhile cls = rest := by
  rw [List.takeWhile_append_of_pos hw, List.dropWhile_append_of_pos hw]
  cases rest with
  | nil => simp
  | cons c rest =>
      have hc := ends_cons.mp h
      rw [List.takeWhile_cons_of_neg (by simp [hc]), List.dropWhile_cons_of_neg (by simp [hc]),
        List.append_nil]
      exact ⟨rfl, rfl⟩

/-- Characters between words, and words up to the next of those characters. -/
theorem word_induction {P : List α → Prop} (cls : α → Bool) (nil : P [])
    (between : ∀ c s, cls c = false → P s → P (c :: s))
    (word : ∀ w s, w ≠ [] → (∀ c ∈ w, cls c = true) → Ends cls s → P s → P (w ++ s))
    (s : List α) : P s := by
  induction hlen : s.length using Nat.strong_induction_on generalizing s with
  | _ n ih =>
      cases s with
      | nil => exact nil
      | cons c s =>
          rw [List.length_cons] at hlen
          cases hc : cls c with
          | false => exact between c s hc (ih s.length (by omega) s rfl)
          | true =>
              rw [← List.takeWhile_append_dropWhile (p := cls) (l := c :: s)]
              apply word
              · rw [List.takeWhile_cons_of_pos hc]
                exact List.cons_ne_nil _ _
              · exact fun d hd => List.mem_takeWhile_imp hd
              · exact ends_dropWhile cls _
              · apply ih _ _ _ rfl
                rw [List.dropWhile_cons_of_pos hc]
                have hle := (List.dropWhile_sublist cls (l := s)).length_le
                omega

/-! ## Runs -/

theorem infix_append_cons {run a b : List α} (h : run <:+: a ++ c :: b) (hc : c ∉ run) :
    run <:+: a ∨ run <:+: b := by
  obtain ⟨front, back, h⟩ := h
  rw [List.append_assoc, List.append_eq_append_iff] at h
  rcases h with ⟨mid, ha, hmid⟩ | ⟨mid, hfront, hmid⟩
  · rw [List.append_eq_append_iff] at hmid
    rcases hmid with ⟨last, hlast, _⟩ | ⟨last, hrun, hlast⟩
    · left
      exact ⟨front, last, by rw [ha, hlast, List.append_assoc]⟩
    · cases last with
      | nil =>
          left
          exact ⟨front, [], by rw [ha, hrun]; simp⟩
      | cons d last =>
          obtain ⟨rfl, _⟩ := List.cons_eq_cons.mp hlast
          exact absurd (by rw [hrun]; simp) hc
  · cases mid with
    | nil =>
        cases run with
        | nil => exact Or.inr List.nil_infix
        | cons d run =>
            obtain ⟨rfl, _⟩ := List.cons_eq_cons.mp hmid
            exact absurd List.mem_cons_self hc
    | cons d mid =>
        right
        rw [List.cons_append] at hmid
        obtain ⟨_, hb⟩ := List.cons_eq_cons.mp hmid
        exact ⟨mid, back, by rw [hb, List.append_assoc]⟩

variable {n : ℕ}

theorem HasRun.mono {a b : List α} (h : HasRun cls n a) (hsub : a <:+: b) : HasRun cls n b := by
  obtain ⟨run, hrun, hlen, hcls⟩ := h
  exact ⟨run, hrun.trans hsub, hlen, hcls⟩

theorem hasRun_append_cons {a b : List α} (hc : cls c = false) :
    HasRun cls n (a ++ c :: b) ↔ HasRun cls n a ∨ HasRun cls n b := by
  constructor
  · rintro ⟨run, hrun, hlen, hcls⟩
    have hnot : c ∉ run := fun hmem => by
      rw [hcls c hmem] at hc
      cases hc
    exact (infix_append_cons hrun hnot).imp (fun h => ⟨run, h, hlen, hcls⟩)
      fun h => ⟨run, h, hlen, hcls⟩
  · rintro (h | h)
    · exact h.mono (List.infix_append' [] a (c :: b))
    · exact h.mono ⟨a ++ [c], [], by simp⟩

theorem hasRun_append_of_ends {a b : List α} (hn : 0 < n) (h : Ends cls b) :
    HasRun cls n (a ++ b) ↔ HasRun cls n a ∨ HasRun cls n b := by
  cases b with
  | nil =>
      rw [List.append_nil]
      constructor
      · exact Or.inl
      · rintro (h | ⟨run, hrun, hlen, _⟩)
        · exact h
        · rw [List.infix_nil.mp hrun, List.length_nil] at hlen
          omega
  | cons c b =>
      have hc := ends_cons.mp h
      have hcons : HasRun cls n (c :: b) ↔ HasRun cls n b := by
        rw [← List.nil_append (c :: b), hasRun_append_cons hc]
        constructor
        · rintro (⟨run, hrun, hlen, _⟩ | h)
          · rw [List.infix_nil.mp hrun, List.length_nil] at hlen
            omega
          · exact h
        · exact Or.inr
      rw [hasRun_append_cons hc, hcons]

theorem hasRun_of_all (h : ∀ c ∈ s, cls c = true) (hlen : n ≤ s.length) : HasRun cls n s := by
  refine ⟨s.take n, (List.take_prefix n s).isInfix, ?_, ?_⟩
  · rw [List.length_take]
    omega
  · exact fun c hc => h c (List.mem_of_mem_take hc)

theorem HasRun.length_le (h : HasRun cls n s) : n ≤ s.length := by
  obtain ⟨run, hrun, rfl, _⟩ := h
  exact hrun.length_le

end

/-! ## In the place of words -/

/-- Every word replaced. -/
def mapWords (cls : α → Bool) (f : List α → List α) : List α → List α
  | [] => []
  | c :: s =>
      if cls c then f ((c :: s).takeWhile cls) ++ mapWords cls f ((c :: s).dropWhile cls)
      else c :: mapWords cls f s
  termination_by s => s.length
  decreasing_by
  · rename_i hc
    rw [List.dropWhile_cons_of_pos hc, List.length_cons]
    exact Nat.lt_succ_of_le (List.dropWhile_sublist cls).length_le
  · simp

section
variable {cls : α → Bool} {f : List α → List α} {s w : List α} {c : α}

theorem mapWords_nil : mapWords cls f [] = [] := by
  rw [mapWords]

theorem mapWords_cons (hc : cls c = false) (s : List α) :
    mapWords cls f (c :: s) = c :: mapWords cls f s := by
  rw [mapWords, if_neg (by simp [hc])]

theorem mapWords_word (hne : w ≠ []) (hw : ∀ c ∈ w, cls c = true) (hs : Ends cls s) :
    mapWords cls f (w ++ s) = f w ++ mapWords cls f s := by
  obtain ⟨htake, hdrop⟩ := takeWhile_append hw hs
  cases w with
  | nil => exact absurd rfl hne
  | cons c w =>
      rw [List.cons_append] at htake hdrop
      rw [List.cons_append, mapWords, if_pos (hw c List.mem_cons_self), htake, hdrop]

/-- What a text becomes in front of one that ends its last word. -/
theorem mapWords_append (hs : Ends cls s) (a : List α) :
    mapWords cls f (a ++ s) = mapWords cls f a ++ mapWords cls f s := by
  induction a using word_induction cls with
  | nil => rw [mapWords_nil, List.nil_append, List.nil_append]
  | between c a hc ih =>
      rw [List.cons_append, mapWords_cons hc, mapWords_cons hc, ih, List.cons_append]
  | word w a hne hw ha ih =>
      have hends : Ends cls (a ++ s) := by
        cases a with
        | nil => exact hs
        | cons c a => exact ends_cons.mpr (ends_cons.mp ha)
      rw [List.append_assoc, mapWords_word hne hw hends, mapWords_word hne hw ha, ih,
        List.append_assoc]

/-- The head of a text stays if the head of every word does. -/
theorem head_mapWords (hf : ∀ w, (f w).head? = w.head?) (s : List α) :
    (mapWords cls f s).head? = s.head? := by
  induction s using word_induction cls with
  | nil => rw [mapWords_nil]
  | between c s hc _ => rw [mapWords_cons hc, List.head?_cons, List.head?_cons]
  | word w s hne hw hs _ =>
      rw [mapWords_word hne hw hs]
      have hword : (f w).head? = w.head? := hf w
      cases w with
      | nil => exact absurd rfl hne
      | cons c w =>
          cases hfw : f (c :: w) with
          | nil =>
              rw [hfw] at hword
              cases hword
          | cons d tail =>
              rw [hfw] at hword
              rw [List.cons_append, List.cons_append, List.head?_cons, List.head?_cons]
              exact hword

theorem Ends.mapWords (hf : ∀ w, (f w).head? = w.head?) {cls' : α → Bool} (h : Ends cls' s) :
    Ends cls' (mapWords cls f s) := by
  intro c hc
  rw [head_mapWords hf] at hc
  exact h c hc

theorem mem_mapWords {P : α → Prop} (hf : ∀ w, (∀ c ∈ w, P c) → ∀ c ∈ f w, P c)
    (hs : ∀ c ∈ s, P c) : ∀ c ∈ mapWords cls f s, P c := by
  induction s using word_induction cls with
  | nil =>
      rw [mapWords_nil]
      exact hs
  | between c s hc ih =>
      rw [mapWords_cons hc]
      intro d hd
      rcases List.mem_cons.mp hd with rfl | hd
      · exact hs d List.mem_cons_self
      · exact ih (fun e he => hs e (List.mem_cons_of_mem c he)) d hd
  | word w s hne hw hends ih =>
      rw [mapWords_word hne hw hends]
      intro d hd
      rcases List.mem_append.mp hd with hd | hd
      · exact hf w (fun e he => hs e (List.mem_append_left s he)) d hd
      · exact ih (fun e he => hs e (List.mem_append_right w he)) d hd

/-- Once is enough if the words in the place of a word are left alone. -/
theorem mapWords_mapWords (hf : ∀ w, (f w).head? = w.head?)
    (hword : ∀ w, w ≠ [] → (∀ c ∈ w, cls c = true) → mapWords cls f (f w) = f w) (s : List α) :
    mapWords cls f (mapWords cls f s) = mapWords cls f s := by
  induction s using word_induction cls with
  | nil => rw [mapWords_nil, mapWords_nil]
  | between c s hc ih => rw [mapWords_cons hc, mapWords_cons hc, ih]
  | word w s hne hw hs ih =>
      rw [mapWords_word hne hw hs, mapWords_append (hs.mapWords hf), hword w hne hw, ih]

/-- The words of a text, with nothing where two other characters stand together. -/
def words (cls : α → Bool) (s : List α) : List (List α) := s.splitOnP fun c => !cls c

theorem words_cons (hc : cls c = false) (s : List α) : words cls (c :: s) = [] :: words cls s := by
  rw [words, List.splitOnP_cons_eq_if_modifyHead, if_pos (by simp [hc]), words]

theorem forall_words {P : List α → Prop} (hnil : P []) (hw : ∀ c ∈ w, cls c = true)
    (hs : Ends cls s) :
    (∀ v ∈ words cls (w ++ s), P v) ↔ P w ∧ ∀ v ∈ words cls s, P v := by
  have hnot : ∀ c ∈ w, (!cls c) = false := fun c hc => by simp [hw c hc]
  cases s with
  | nil =>
      rw [List.append_nil, words, List.splitOnP_eq_singleton hnot, words, List.splitOnP_nil]
      simp [hnil]
  | cons c s =>
      have hc := ends_cons.mp hs
      rw [words_cons hc, words, List.splitOnP_append_cons_of_forall_mem hnot c (by simp [hc]), ← words]
      simp [hnil]

end

end AikoIsland.WordRuns
