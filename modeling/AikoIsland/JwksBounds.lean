import AikoIsland.Jwks

/-!
# The floor and the ceiling of the JWKS cache

The ceiling holds in every run: a key that is returned was in a set whose fetch
succeeded less than `max_age` before. The floor is measured from the last fetch
that succeeded, so it holds in every run whose fetches all succeed: two of them
start at least `min_refresh_interval` apart. A fetch that fails does not move the
floor, and the next call fetches again at once.

Both are invariants of the segments, whichever coroutine runs next.
-/
namespace AikoIsland.JwksBounds
open FloatingPoint JsonText OrderedDict Jwks

variable {π Key : Type}

/-- When the fetches started, newest first. -/
def starts (events : List (Event Key)) : List ℕ :=
  events.filterMap fun e => match e with
    | .started now => some now
    | _ => none

/-- The key was in a set that had been fetched less than `max_age` before. -/
def Backed (settings : Settings) (events : List (Event Key)) (kid : Text) (key : Key)
    (now : ℕ) : Prop :=
  ∃ keys f, .fetched keys f ∈ events ∧ get keys kid = some key ∧ f ≤ now ∧
    now < f + settings.maxAge

/-- The cached set is one that was fetched, and so is the source of every key returned. -/
structure Ceiling (settings : Settings) (s : State π Key) : Prop where
  fetched : ∀ f, s.fetchedAt = some f → f ≤ s.clock ∧ .fetched s.keys f ∈ s.events
  unfetched : s.fetchedAt = none → s.keys = []
  returned : ∀ kid key now, .returned kid key now ∈ s.events →
    Backed settings s.events kid key now

/-- No fetch has started since the last success, unless it is running, and the starts are apart. -/
structure Floor (settings : Settings) (s : State π Key) : Prop where
  past : ∀ t ∈ starts s.events, t ≤ s.clock
  settled : s.lock = none → ∀ t ∈ starts s.events, ∃ f, s.fetchedAt = some f ∧ t ≤ f
  apart : (starts s.events).Pairwise fun later earlier =>
    earlier + settings.minRefreshInterval ≤ later

/-- The reply of a fetch that succeeds; the other segments end no fetch. -/
def Succeeds (fromJwk : Json → Option Key) : Action π → Prop
  | .finish _ reply _ => ∃ keys, reply.keys fromJwk = some keys
  | _ => True

section
variable {settings : Settings} {events : List (Event Key)} {kid : Text} {key : Key} {now : ℕ}

theorem Backed.cons (h : Backed settings events kid key now) (e : Event Key) :
    Backed settings (e :: events) kid key now := by
  obtain ⟨keys, f, hmem, hget, hle, hlt⟩ := h
  exact ⟨keys, f, List.mem_cons_of_mem e hmem, hget, hle, hlt⟩

/-- A set that is not stale is younger than the ceiling. -/
theorem backed_of_fresh {s : State π Key} (h : Ceiling settings s) (hclock : s.clock ≤ now)
    (hfresh : s.fresh settings kid now = some key) : Backed settings s.events kid key now := by
  unfold State.fresh at hfresh
  split_ifs at hfresh with hstale
  cases hf : s.fetchedAt with
  | none => simp [State.stale, hf] at hstale
  | some f =>
      obtain ⟨hle, hmem⟩ := h.fetched f hf
      have hyoung : now - f < settings.maxAge := by simpa [State.stale, hf] using hstale
      exact ⟨s.keys, f, hmem, hfresh, by omega, by omega⟩

/-- Inside the floor the set is not stale, so it does not hold the key that was looked up. -/
theorem get_of_floor {s : State π Key} {allowedAt : ℕ} (hle : now ≤ allowedAt)
    (hfresh : s.fresh settings kid now = none)
    (hallowed : s.refreshAllowed settings allowedAt = false) : get s.keys kid = none := by
  cases hf : s.fetchedAt with
  | none => simp [State.refreshAllowed, hf] at hallowed
  | some f =>
      have hfloor : allowedAt - f < settings.minRefreshInterval := by
        simpa [State.refreshAllowed, hf] using hallowed
      have hceiling := settings.ceiling_above_floor
      have hnot : s.stale settings now = false := by
        simp only [State.stale, hf, decide_eq_false_iff_not, not_le]
        omega
      simpa [State.fresh, hnot] using hfresh

variable [DecidableEq π]

theorem ceiling_put {s : State π Key} (h : Ceiling settings s) (hclock : s.clock ≤ now) (p : π)
    (t : Coroutine Key) : Ceiling settings (s.put p t now) where
  fetched := by
    intro f hf
    obtain ⟨hle, hmem⟩ := h.fetched f hf
    exact ⟨hle.trans hclock, hmem⟩
  unfetched := h.unfetched
  returned := h.returned

theorem ceiling_answer {s : State π Key} (h : Ceiling settings s) (hclock : s.clock ≤ now)
    (p : π) {found : Option Key}
    (hback : ∀ key, found = some key → Backed settings s.events kid key now) :
    Ceiling settings (s.answer p kid found now) := by
  cases found with
  | none => exact ceiling_put h hclock p _
  | some key =>
      constructor
      · intro f hf
        obtain ⟨hle, hmem⟩ := h.fetched f hf
        exact ⟨hle.trans hclock, List.mem_cons_of_mem _ hmem⟩
      · exact h.unfetched
      · intro kid' key' now' hmem
        cases List.mem_cons.mp hmem with
        | inl heq =>
            cases heq
            exact (hback key rfl).cons _
        | inr hold => exact (h.returned kid' key' now' hold).cons _

theorem floor_put {s : State π Key} (h : Floor settings s) (hclock : s.clock ≤ now) (p : π)
    (t : Coroutine Key) : Floor settings (s.put p t now) where
  past := by
    intro t ht
    exact (h.past t ht).trans hclock
  settled := h.settled
  apart := h.apart

theorem floor_answer {s : State π Key} (h : Floor settings s) (hclock : s.clock ≤ now) (p : π)
    (found : Option Key) : Floor settings (s.answer p kid found now) := by
  cases found with
  | none => exact floor_put h hclock p _
  | some key =>
      constructor
      · intro t ht
        exact (h.past t ht).trans hclock
      · exact h.settled
      · exact h.apart

end

/-! ## One segment -/

section
variable [DecidableEq π] {settings : Settings} {fromJwk : Json → Option Key} {s s' : State π Key}
  {a : Action π}

/-- What a segment can do, with what its guard has checked. -/
theorem step_cases (h : step settings fromJwk s a = some s') :
    (∃ p kid now, a = .look p now ∧ s.clock ≤ now ∧ s' = look settings s p kid now) ∨
    (∃ p kid t₁ t₂ t₃, a = .enter p t₁ t₂ t₃ ∧ s.lock = none ∧ s.clock ≤ t₁ ∧ t₁ ≤ t₂ ∧ t₂ ≤ t₃ ∧
      s' = enter settings s p kid t₁ t₂ t₃) ∨
    (∃ p kid reply now, a = .finish p reply now ∧ s.lock = some p ∧ s.clock ≤ now ∧
      s' = finish fromJwk s p kid reply now) ∨
    ∃ p, a = .abandon p ∧ s' = s.put p .raised s.clock := by
  cases a with
  | look p now =>
      simp only [step] at h
      split at h
      · rename_i kid _
        split_ifs at h with hclock
        exact Or.inl ⟨p, kid, now, rfl, hclock, (Option.some.inj h).symm⟩
      · cases h
  | enter p t₁ t₂ t₃ =>
      simp only [step] at h
      split at h
      · rename_i kid _
        split_ifs at h with hguard
        simp only [Bool.and_eq_true, decide_eq_true_eq, Option.isNone_iff_eq_none] at hguard
        obtain ⟨⟨⟨hlock, h₁⟩, h₂⟩, h₃⟩ := hguard
        exact Or.inr (Or.inl ⟨p, kid, t₁, t₂, t₃, rfl, hlock, h₁, h₂, h₃, (Option.some.inj h).symm⟩)
      · cases h
  | finish p reply now =>
      simp only [step] at h
      split at h
      · rename_i kid _
        split_ifs at h with hguard
        simp only [Bool.and_eq_true, decide_eq_true_eq] at hguard
        exact Or.inr (Or.inr (Or.inl ⟨p, kid, reply, now, rfl, hguard.1, hguard.2,
          (Option.some.inj h).symm⟩))
      · cases h
  | abandon p =>
      simp only [step] at h
      split at h
      · exact Or.inr (Or.inr (Or.inr ⟨p, rfl, (Option.some.inj h).symm⟩))
      · cases h

theorem ceiling_enter (h : Ceiling settings s) (p : π) (kid : Text) {t₁ t₂ t₃ : ℕ}
    (h₁ : s.clock ≤ t₁) (h₂ : t₁ ≤ t₂) (h₃ : t₂ ≤ t₃) :
    Ceiling settings (enter settings s p kid t₁ t₂ t₃) := by
  unfold enter
  cases hfresh : s.fresh settings kid t₁ with
  | some key =>
      apply ceiling_answer h h₁
      intro key' heq
      obtain rfl := Option.some.inj heq
      exact backed_of_fresh h h₁ hfresh
  | none =>
      dsimp only
      split_ifs with hallowed
      · constructor
        · intro f hf
          obtain ⟨hle, hmem⟩ := h.fetched f hf
          exact ⟨hle.trans (h₁.trans (h₂.trans h₃)), List.mem_cons_of_mem _ hmem⟩
        · exact h.unfetched
        · intro kid' key now hmem
          cases List.mem_cons.mp hmem with
          | inl heq => cases heq
          | inr hold => exact (h.returned kid' key now hold).cons _
      · have hnone : get s.keys kid = none := get_of_floor h₂ hfresh (by simpa using hallowed)
        apply ceiling_answer h (h₁.trans h₂)
        intro key heq
        rw [hnone] at heq
        cases heq

theorem ceiling_finish (h : Ceiling settings s) (p : π) (kid : Text) (reply : Reply) {now : ℕ}
    (hclock : s.clock ≤ now) : Ceiling settings (finish fromJwk s p kid reply now) := by
  unfold finish
  cases hkeys : reply.keys fromJwk with
  | none =>
      constructor
      · intro f hf
        obtain ⟨hle, hmem⟩ := h.fetched f hf
        exact ⟨hle.trans hclock, hmem⟩
      · exact h.unfetched
      · exact h.returned
  | some keys =>
      dsimp only
      -- the set that is answered from is the one that was fetched at this reading
      set s₁ : State π Key := { s with
        keys := keys
        fetchedAt := some now
        lock := none
        clock := now
        events := .fetched keys now :: s.events } with hs₁
      have hfetched : Ceiling settings s₁ := by
        constructor
        · intro f hf
          obtain rfl := Option.some.inj hf
          exact ⟨le_refl _, List.mem_cons_self⟩
        · intro hf
          cases hf
        · intro kid' key' now' hmem
          cases List.mem_cons.mp hmem with
          | inl heq => cases heq
          | inr hold => exact (h.returned kid' key' now' hold).cons _
      have hback : ∀ key, get keys kid = some key → Backed settings s₁.events kid key now := by
        intro key hget
        have hpos := settings.ceiling_above_floor
        exact ⟨keys, now, List.mem_cons_self, hget, le_refl now, by omega⟩
      exact ceiling_answer hfetched (le_refl now) p hback

theorem ceiling_step (h : Ceiling settings s) (hs : step settings fromJwk s a = some s') :
    Ceiling settings s' := by
  cases step_cases hs with
  | inl hlook =>
      obtain ⟨p, kid, now, rfl, hclock, rfl⟩ := hlook
      unfold look
      cases hfresh : s.fresh settings kid now with
      | none => exact ceiling_put h hclock p _
      | some key =>
          apply ceiling_answer h hclock
          intro key' heq
          obtain rfl := Option.some.inj heq
          exact backed_of_fresh h hclock hfresh
  | inr hrest =>
      rcases hrest with ⟨p, kid, t₁, t₂, t₃, rfl, _, h₁, h₂, h₃, rfl⟩ |
        ⟨p, kid, reply, now, rfl, _, hclock, rfl⟩ | ⟨p, rfl, rfl⟩
      · exact ceiling_enter h p kid h₁ h₂ h₃
      · exact ceiling_finish h p kid reply hclock
      · exact ceiling_put h (le_refl _) p _

theorem floor_enter (hc : Ceiling settings s) (h : Floor settings s) (hlock : s.lock = none)
    (p : π) (kid : Text) {t₁ t₂ t₃ : ℕ} (h₁ : s.clock ≤ t₁) (h₂ : t₁ ≤ t₂) (h₃ : t₂ ≤ t₃) :
    Floor settings (enter settings s p kid t₁ t₂ t₃) := by
  unfold enter
  cases hfresh : s.fresh settings kid t₁ with
  | some key => exact floor_answer h h₁ p _
  | none =>
      dsimp only
      split_ifs with hallowed
      · constructor
        · intro t ht
          cases List.mem_cons.mp ht with
          | inl heq =>
              rw [heq]
              exact le_refl t₃
          | inr hold =>
              have hpast := h.past t hold
              change t ≤ t₃
              omega
        · intro hfree
          cases hfree
        · apply List.Pairwise.cons
          · intro t ht
            obtain ⟨f, hf, hle⟩ := h.settled hlock t ht
            obtain ⟨hfc, _⟩ := hc.fetched f hf
            have hwait : settings.minRefreshInterval ≤ t₂ - f := by
              simpa [State.refreshAllowed, hf] using hallowed
            omega
          · exact h.apart
      · exact floor_answer h (h₁.trans h₂) p _

theorem floor_step (hc : Ceiling settings s) (h : Floor settings s) (ha : Succeeds fromJwk a)
    (hs : step settings fromJwk s a = some s') : Floor settings s' := by
  cases step_cases hs with
  | inl hlook =>
      obtain ⟨p, kid, now, rfl, hclock, rfl⟩ := hlook
      unfold look
      cases s.fresh settings kid now with
      | none => exact floor_put h hclock p _
      | some key => exact floor_answer h hclock p _
  | inr hrest =>
      rcases hrest with ⟨p, kid, t₁, t₂, t₃, rfl, hlock, h₁, h₂, h₃, rfl⟩ |
        ⟨p, kid, reply, now, rfl, _, hclock, rfl⟩ | ⟨p, rfl, rfl⟩
      · exact floor_enter hc h hlock p kid h₁ h₂ h₃
      · obtain ⟨keys, hkeys⟩ := ha
        have hpast : ∀ t ∈ starts s.events, t ≤ now := fun t ht => (h.past t ht).trans hclock
        have hfetched : Floor settings ({ s with
            keys := keys
            fetchedAt := some now
            lock := none
            clock := now
            events := .fetched keys now :: s.events } : State π Key) := by
          constructor
          · exact hpast
          · intro _ t ht
            exact ⟨now, rfl, hpast t ht⟩
          · exact h.apart
        have hfinish : finish fromJwk s p kid reply now = ({ s with
            keys := keys
            fetchedAt := some now
            lock := none
            clock := now
            events := .fetched keys now :: s.events } : State π Key).answer p kid
              (get keys kid) now := by
          simp only [finish, hkeys]
          rfl
        rw [hfinish]
        exact floor_answer hfetched (le_refl now) p _
      · exact floor_put h (le_refl _) p _

/-! ## Runs -/

theorem ceiling_run {acts : List (Action π)} (h : Ceiling settings s)
    (hr : run settings fromJwk s acts = some s') : Ceiling settings s' := by
  induction acts generalizing s with
  | nil =>
      obtain rfl := Option.some.inj hr
      exact h
  | cons a acts ih =>
      obtain ⟨s₁, hs, hr⟩ := Option.bind_eq_some_iff.mp hr
      exact ih (ceiling_step h hs) hr

theorem floor_run {acts : List (Action π)} (hc : Ceiling settings s) (h : Floor settings s)
    (ha : ∀ a ∈ acts, Succeeds fromJwk a) (hr : run settings fromJwk s acts = some s') :
    Floor settings s' := by
  induction acts generalizing s with
  | nil =>
      obtain rfl := Option.some.inj hr
      exact h
  | cons a acts ih =>
      obtain ⟨s₁, hs, hr⟩ := Option.bind_eq_some_iff.mp hr
      have hfirst : Succeeds fromJwk a := ha a List.mem_cons_self
      exact ih (ceiling_step hc hs) (floor_step hc h hfirst hs)
        (fun b hb => ha b (List.mem_cons_of_mem a hb)) hr

/-- A new cache and the calls that will be made of it. -/
def opened (kids : π → Text) : State π Key := { tasks := fun p => .called (kids p) }

omit [DecidableEq π] in
theorem ceiling_opened (settings : Settings) (kids : π → Text) :
    Ceiling settings (opened kids : State π Key) where
  fetched := by
    intro f hf
    cases hf
  unfetched := fun _ => rfl
  returned := by
    intro kid key now hmem
    cases hmem

omit [DecidableEq π] in
theorem floor_opened (settings : Settings) (kids : π → Text) :
    Floor settings (opened kids : State π Key) where
  past := by
    intro t ht
    cases ht
  settled := by
    intro _ t ht
    cases ht
  apart := List.Pairwise.nil

end

section
variable [DecidableEq π]

/-- No two fetches start within the floor, and every key returned is backed by a young set. -/
def Bounded (settings : Settings) (s : State π Key) : Prop :=
  ((starts s.events).Pairwise fun later earlier =>
    earlier + settings.minRefreshInterval ≤ later) ∧
  ∀ kid key now, .returned kid key now ∈ s.events → Backed settings s.events kid key now

/-- A run whose fetches all succeed keeps both bounds, and every run the second. -/
theorem jwks_cache_is_bounded (settings : Settings) (fromJwk : Json → Option Key)
    (kids : π → Text) (acts : List (Action π)) (s : State π Key)
    (hr : run settings fromJwk (opened kids) acts = some s) :
    ((∀ a ∈ acts, Succeeds fromJwk a) → Bounded settings s) ∧
      ∀ kid key now, .returned kid key now ∈ s.events →
        Backed settings s.events kid key now := by
  have hceiling : Ceiling settings s := ceiling_run (ceiling_opened settings kids) hr
  constructor
  · intro ha
    have hfloor : Floor settings s :=
      floor_run (ceiling_opened settings kids) (floor_opened settings kids) ha hr
    exact ⟨hfloor.apart, hceiling.returned⟩
  · exact hceiling.returned

end

/-- Two calls; the fetch of the first ends with this reply after one second. -/
def twoCalls (reply : Reply) : List (Action Bool) :=
  [.look true 0, .enter true 0 0 0, .finish true reply 1, .look false 40, .enter false 40 40 40]

def emptySet : Reply := .json (.obj [([107, 101, 121, 115], .arr [])])

def noKey (_ : Json) : Option ℕ := none

theorem two_fetched_sets_are_bounded :
    ∃ s, run {} noKey (opened fun _ : Bool => [97]) (twoCalls emptySet) = some s ∧
      Bounded {} s := by
  cases hr : run {} noKey (opened fun _ : Bool => [97]) (twoCalls emptySet) with
  | none => cases hr
  | some s =>
      have hbounds := jwks_cache_is_bounded {} noKey (fun _ : Bool => [97]) (twoCalls emptySet) s hr
      have hsucceeds : ∀ a ∈ twoCalls emptySet, Succeeds noKey a := by
        intro a ha
        simp only [twoCalls, List.mem_cons, List.not_mem_nil, or_false] at ha
        rcases ha with rfl | rfl | rfl | rfl | rfl
        · trivial
        · trivial
        · exact ⟨[], rfl⟩
        · trivial
        · trivial
      exact ⟨s, rfl, hbounds.1 hsucceeds⟩

/-- A second call fetches one second after the first one's fetch has failed. -/
def failedFetch : List (Action Bool) :=
  [.look true 0, .enter true 0 0 0, .finish true .raised 1, .look false 2, .enter false 2 2 2]

/-- After a failed fetch the next call fetches at once, and so does every later one. -/
theorem failed_fetch_does_not_hold_the_floor :
    ¬∀ (settings : Settings) (fromJwk : Json → Option ℕ) (kids : Bool → Text)
      (acts : List (Action Bool)) (s : State Bool ℕ),
      run settings fromJwk (opened kids) acts = some s → Bounded settings s := by
  intro h
  cases hr : run {} noKey (opened fun _ : Bool => [97]) failedFetch with
  | none => cases hr
  | some s =>
      have hstarts : (run {} noKey (opened fun _ : Bool => [97]) failedFetch).map
          (fun s => starts s.events) = some [2, 0] := by decide
      rw [hr] at hstarts
      have hlist : starts s.events = [2, 0] := Option.some.inj hstarts
      have hbounded := (h {} noKey (fun _ => [97]) failedFetch s hr).1
      rw [hlist] at hbounded
      revert hbounded
      decide

end AikoIsland.JwksBounds
