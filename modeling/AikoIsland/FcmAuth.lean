import Mathlib.Data.List.Basic
import Mathlib.Order.WithBot
import Mathlib.Tactic

/-!
# The credential of the Android transport

One value holds what the island knows about its FCM credential, and `transition`
is its only writer. Requests run at the same time, so an event can be about a
token or a phase that is gone by now: a refused bearer is compared with the
token, and a denial with the time when the phase began.

Times are rationals. The float clock of the source rounds sums that are exact
here.

`Step` lists what one event can do. A run applies events in the order of their
arrival.
-/
namespace AikoIsland.FcmAuth

def oauthFailureBackoffSeconds : ℚ := 60

def grantBackoffBaseSeconds : ℕ := 10

def deniedBackoffBaseSeconds : ℕ := 60

def backoffCapSeconds : ℕ := 900

inductive Phase
  | empty
  | cached (token : String) (expiresAt : ℚ)
  | mintBackoff (untilTime : ℚ)
  | sendDenied (untilTime : ℚ)
  deriving DecidableEq, Repr

/-- `since` is when the phase was entered, `⊥` when the process started in it. -/
structure AuthState where
  phase : Phase
  strikes : ℕ := 0
  since : WithBot ℚ := ⊥
  deriving DecidableEq

def initial : AuthState := { phase := .empty }

inductive MintFailure
  | credential
  | unreadable
  | grant
  deriving DecidableEq, Repr

inductive Event
  | minted (token : String) (expiresAt : ℚ)
  | mintFailed (kind : MintFailure)
  | blinked
  | refused (bearer : String)
  | denied (sentAt : ℚ)
  | delivered
  | deviceLocal
  | tick
  | unclassified (status : ℤ) (errorCode : String)
  deriving DecidableEq, Repr

/-- The subtraction is truncated, as the source takes the maximum with zero. -/
def grow (base strikes : ℕ) : ℚ := ↑(min (base * 2 ^ min (strikes - 1) 16) backoffCapSeconds)

/-- How long the island keeps quiet after a mint that failed. -/
def mintWindow (kind : MintFailure) (strikes : ℕ) : ℚ :=
  match kind with
  | .grant => grow grantBackoffBaseSeconds strikes
  | .credential | .unreadable => oauthFailureBackoffSeconds

def transition (state : AuthState) (event : Event) (now : ℚ) : AuthState :=
  let enter (new : Phase) (strikes : ℕ) : AuthState := ⟨new, strikes, now⟩
  match event, state.phase with
  | .tick, .cached _ expiresAt =>
      if expiresAt ≤ now then enter .empty state.strikes else state
  | .tick, .mintBackoff untilTime | .tick, .sendDenied untilTime =>
      if untilTime ≤ now then enter .empty state.strikes else state
  | .tick, .empty => state
  -- A denial is ended by time only.
  | _, .sendDenied _ => state
  | .minted token expiresAt, _ => enter (.cached token expiresAt) state.strikes
  | .mintFailed kind, _ =>
      let strikes := state.strikes + 1
      enter (.mintBackoff (now + mintWindow kind strikes)) strikes
  | .denied sentAt, _ =>
      if (sentAt : WithBot ℚ) < state.since then state
      else
        let strikes := state.strikes + 1
        enter (.sendDenied (now + grow deniedBackoffBaseSeconds strikes)) strikes
  | .refused bearer, .cached token _ =>
      if token = bearer then enter .empty state.strikes else state
  | .delivered, .empty | .delivered, .cached _ _ => { state with strikes := 0 }
  | _, _ => state

inductive Action
  | have (token : String)
  | mint
  | silent
  deriving DecidableEq, Repr

def get (state : AuthState) : Action :=
  match state.phase with
  | .cached token _ => .have token
  | .empty => .mint
  | .mintBackoff _ | .sendDenied _ => .silent

/-- The events with the times when they are applied. -/
abbrev History := List (Event × ℚ)

def run (state : AuthState) (history : History) : AuthState :=
  history.foldl (fun state x => transition state x.1 x.2) state

/-! ## One event -/

def AuthState.Denied (state : AuthState) : Prop := ∃ untilTime, state.phase = .sendDenied untilTime

/-- The event arrives outside the denied phase and is no stale denial. -/
structure Accepted (state : AuthState) (event : Event) : Prop where
  open_ : ¬state.Denied
  fresh : ∀ sentAt, event = .denied sentAt → ¬(sentAt : WithBot ℚ) < state.since

/-- Nothing in the event asks for a change: it was not accepted, names another bearer or has
nothing to say about the phase. -/
structure Ignored (now : ℚ) (state : AuthState) (event : Event) : Prop where
  minted : ∀ token expiresAt, event = .minted token expiresAt → ¬Accepted state event
  mintFailed : ∀ kind, event = .mintFailed kind → ¬Accepted state event
  denied : ∀ sentAt, event = .denied sentAt → ¬Accepted state event
  refused : ∀ token expiresAt, state.phase = .cached token expiresAt → event ≠ .refused token
  tick : ∀ token expiresAt, state.phase = .cached token expiresAt → event = .tick →
    now < expiresAt

inductive Step (now : ℚ) (state : AuthState) : Event → AuthState → Prop
  | expired (token : String) (expiresAt : ℚ) : state.phase = .cached token expiresAt →
      expiresAt ≤ now → Step now state .tick ⟨.empty, state.strikes, now⟩
  | lapsed (untilTime : ℚ) :
      state.phase = .mintBackoff untilTime ∨ state.phase = .sendDenied untilTime →
      untilTime ≤ now → Step now state .tick ⟨.empty, state.strikes, now⟩
  | minted (token : String) (expiresAt : ℚ) : Accepted state (.minted token expiresAt) →
      Step now state (.minted token expiresAt) ⟨.cached token expiresAt, state.strikes, now⟩
  | mintFailed (kind : MintFailure) : Accepted state (.mintFailed kind) →
      Step now state (.mintFailed kind)
        ⟨.mintBackoff (now + mintWindow kind (state.strikes + 1)), state.strikes + 1, now⟩
  | denied (sentAt : ℚ) : Accepted state (.denied sentAt) →
      Step now state (.denied sentAt)
        ⟨.sendDenied (now + grow deniedBackoffBaseSeconds (state.strikes + 1)),
          state.strikes + 1, now⟩
  | refused (token : String) (expiresAt : ℚ) : state.phase = .cached token expiresAt →
      Step now state (.refused token) ⟨.empty, state.strikes, now⟩
  | delivered : (∀ untilTime, state.phase ≠ .mintBackoff untilTime) → ¬state.Denied →
      Step now state .delivered { state with strikes := 0 }
  | keep (event : Event) : Ignored now state event → Step now state event state

section
variable {state after : AuthState} {event : Event} {now : ℚ}

theorem transition_of_denied (h : state.Denied) (ht : event ≠ .tick) (now : ℚ) :
    transition state event now = state := by
  obtain ⟨untilTime, hphase⟩ := h
  unfold transition
  rw [hphase]
  cases event with
  | tick => exact absurd rfl ht
  | minted | mintFailed | blinked | refused | denied | delivered | deviceLocal | unclassified =>
      rfl

theorem ignored_of_denied (h : state.Denied) (ht : event ≠ .tick) (now : ℚ) :
    Ignored now state event := by
  have hno : ¬Accepted state event := fun ha => ha.open_ h
  constructor
  · exact fun _ _ _ => hno
  · exact fun _ _ => hno
  · exact fun _ _ => hno
  · intro token expiresAt hphase
    obtain ⟨untilTime, hdenied⟩ := h
    rw [hdenied] at hphase
    cases hphase
  · exact fun _ _ _ he => absurd he ht

theorem step_tick (state : AuthState) (now : ℚ) :
    Step now state .tick (transition state .tick now) := by
  have keep (h : ∀ token expiresAt, state.phase = .cached token expiresAt → now < expiresAt) :
      Step now state .tick state :=
    .keep _ ⟨by simp, by simp, by simp, by simp, fun token expiresAt hp _ => h token expiresAt hp⟩
  unfold transition
  cases hphase : state.phase with
  | empty => exact keep (by simp [hphase])
  | cached token expiresAt =>
      dsimp only
      split_ifs with h
      · exact .expired token expiresAt hphase h
      · apply keep
        intro token' expiresAt' hcached
        rw [hphase] at hcached
        cases hcached
        exact lt_of_not_ge h
  | mintBackoff untilTime =>
      dsimp only
      split_ifs with h
      · exact .lapsed untilTime (Or.inl hphase) h
      · exact keep (by simp [hphase])
  | sendDenied untilTime =>
      dsimp only
      split_ifs with h
      · exact .lapsed untilTime (Or.inr hphase) h
      · exact keep (by simp [hphase])

theorem transition_minted (h : ¬state.Denied) (token : String) (expiresAt now : ℚ) :
    transition state (.minted token expiresAt) now =
      ⟨.cached token expiresAt, state.strikes, now⟩ := by
  unfold transition
  cases hphase : state.phase with
  | sendDenied untilTime => exact absurd ⟨untilTime, hphase⟩ h
  | empty | cached | mintBackoff => rfl

theorem transition_mintFailed (h : ¬state.Denied) (kind : MintFailure) (now : ℚ) :
    transition state (.mintFailed kind) now =
      ⟨.mintBackoff (now + mintWindow kind (state.strikes + 1)), state.strikes + 1, now⟩ := by
  unfold transition
  cases hphase : state.phase with
  | sendDenied untilTime => exact absurd ⟨untilTime, hphase⟩ h
  | empty | cached | mintBackoff => rfl

theorem transition_deniedSend (h : ¬state.Denied) (sentAt now : ℚ) :
    transition state (.denied sentAt) now =
      if (sentAt : WithBot ℚ) < state.since then state
      else ⟨.sendDenied (now + grow deniedBackoffBaseSeconds (state.strikes + 1)),
        state.strikes + 1, now⟩ := by
  unfold transition
  cases hphase : state.phase with
  | sendDenied untilTime => exact absurd ⟨untilTime, hphase⟩ h
  | empty | cached | mintBackoff => rfl

theorem transition_refused (state : AuthState) (bearer : String) (now : ℚ) :
    (∃ expiresAt, state.phase = .cached bearer expiresAt ∧
      transition state (.refused bearer) now = ⟨.empty, state.strikes, now⟩) ∨
    (∀ expiresAt, state.phase ≠ .cached bearer expiresAt) ∧
      transition state (.refused bearer) now = state := by
  unfold transition
  cases hphase : state.phase with
  | cached token expiresAt =>
      dsimp only
      by_cases h : token = bearer
      · left
        use expiresAt
        simp [h]
      · right
        simp [h]
  | empty | mintBackoff | sendDenied => simp

theorem transition_delivered (h : ∀ untilTime, state.phase ≠ .mintBackoff untilTime)
    (hd : ¬state.Denied) (now : ℚ) :
    transition state .delivered now = { state with strikes := 0 } := by
  unfold transition
  cases hphase : state.phase with
  | sendDenied untilTime => exact absurd ⟨untilTime, hphase⟩ hd
  | mintBackoff untilTime => exact absurd hphase (h untilTime)
  | empty | cached => rfl

theorem transition_step (state : AuthState) (event : Event) (now : ℚ) :
    Step now state event (transition state event now) := by
  by_cases ht : event = .tick
  · rw [ht]
    exact step_tick state now
  by_cases hd : state.Denied
  · rw [transition_of_denied hd ht]
    exact .keep _ (ignored_of_denied hd ht now)
  have keep (hm : ∀ token e, event ≠ .minted token e) (hf : ∀ kind, event ≠ .mintFailed kind)
      (hs : ∀ sentAt, event = .denied sentAt → ¬Accepted state event)
      (hr : ∀ token e, state.phase = .cached token e → event ≠ .refused token) :
      Step now state event state :=
    .keep _ ⟨fun _ _ he => absurd he (hm _ _), fun _ he => absurd he (hf _), hs, hr,
      fun _ _ _ he => absurd he ht⟩
  have hinert (he : event = .blinked ∨ event = .deviceLocal ∨
      ∃ status code, event = .unclassified status code) : transition state event now = state := by
    rcases he with he | he | ⟨status, code, he⟩
    all_goals
      rw [he]
      unfold transition
      cases state.phase <;> rfl
  cases event with
  | minted token expiresAt =>
      rw [transition_minted hd]
      exact .minted token expiresAt ⟨hd, by simp⟩
  | mintFailed kind =>
      rw [transition_mintFailed hd]
      exact .mintFailed kind ⟨hd, by simp⟩
  | blinked =>
      rw [hinert (Or.inl rfl)]
      exact keep (by simp) (by simp) (by simp) (by simp)
  | refused bearer =>
      rcases transition_refused state bearer now with ⟨expiresAt, hphase, hafter⟩ | ⟨hphase, hafter⟩
      · rw [hafter]
        exact .refused bearer expiresAt hphase
      · rw [hafter]
        apply keep (by simp) (by simp) (by simp)
        intro token e hcached he
        cases he
        exact hphase e hcached
  | denied sentAt =>
      rw [transition_deniedSend hd]
      split_ifs with hstale
      · apply keep (by simp) (by simp) _ (by simp)
        intro sentAt' he haccepted
        cases he
        exact haccepted.fresh sentAt rfl hstale
      · apply Step.denied sentAt
        constructor
        · exact hd
        · intro sentAt' he
          cases he
          exact hstale
  | delivered =>
      by_cases hb : ∀ untilTime, state.phase ≠ .mintBackoff untilTime
      · rw [transition_delivered hb hd]
        exact .delivered hb hd
      · obtain ⟨untilTime, hphase⟩ := not_forall_not.mp hb
        have hafter : transition state .delivered now = state := by
          unfold transition
          rw [hphase]
        rw [hafter]
        exact keep (by simp) (by simp) (by simp) (by simp)
  | deviceLocal =>
      rw [hinert (Or.inr (Or.inl rfl))]
      exact keep (by simp) (by simp) (by simp) (by simp)
  | tick => exact absurd rfl ht
  | unclassified status errorCode =>
      rw [hinert (Or.inr (Or.inr ⟨status, errorCode, rfl⟩))]
      exact keep (by simp) (by simp) (by simp) (by simp)

/-! ## What one event can change -/

theorem Step.leaves_denied (h : Step now state event after) {untilTime : ℚ}
    (hphase : state.phase = .sendDenied untilTime) :
    after = state ∨ event = .tick ∧ untilTime ≤ now := by
  cases h with
  | expired token expiresAt hcached => rw [hphase] at hcached; cases hcached
  | lapsed u hu hnow =>
      right
      rw [hphase] at hu
      rcases hu with hu | hu
      · cases hu
      · cases hu
        exact ⟨rfl, hnow⟩
  | minted _ _ ha | mintFailed _ ha | denied _ ha => exact absurd ⟨_, hphase⟩ ha.open_
  | refused token expiresAt hcached => rw [hphase] at hcached; cases hcached
  | delivered _ hd => exact absurd ⟨_, hphase⟩ hd
  | keep => exact Or.inl rfl

/-- Strikes rise by one, fall to zero or stay. -/
theorem Step.strikes (h : Step now state event after) :
    after.strikes = state.strikes ∨
    (after.strikes = state.strikes + 1 ∧ ¬state.Denied ∧
      ((∃ kind, event = .mintFailed kind) ∨ ∃ sentAt, event = .denied sentAt)) ∨
    after.strikes = 0 ∧ event = .delivered := by
  cases h with
  | expired | lapsed | minted | refused | keep => exact Or.inl rfl
  | mintFailed kind ha => exact Or.inr (Or.inl ⟨rfl, ha.open_, Or.inl ⟨kind, rfl⟩⟩)
  | denied sentAt ha => exact Or.inr (Or.inl ⟨rfl, ha.open_, Or.inr ⟨sentAt, rfl⟩⟩)
  | delivered => exact Or.inr (Or.inr ⟨rfl, rfl⟩)

/-- The length of a window follows from the strikes, since they stay while it is open. -/
structure Windows (state : AuthState) : Prop where
  mint : ∀ untilTime, state.phase = .mintBackoff untilTime →
    ∃ (opened : ℚ) (kind : MintFailure), state.since = opened ∧
      untilTime = opened + mintWindow kind state.strikes
  send : ∀ untilTime, state.phase = .sendDenied untilTime →
    ∃ opened : ℚ, state.since = opened ∧
      untilTime = opened + grow deniedBackoffBaseSeconds state.strikes

theorem Step.windows (h : Step now state event after) (hw : Windows state) : Windows after := by
  cases h with
  | expired | lapsed | minted | refused => exact ⟨by simp, by simp⟩
  | mintFailed kind =>
      constructor
      · intro untilTime hphase
        cases hphase
        exact ⟨now, kind, rfl, rfl⟩
      · simp
  | denied sentAt =>
      constructor
      · simp
      · intro untilTime hphase
        cases hphase
        exact ⟨now, rfl, rfl⟩
  | delivered hb hd =>
      constructor
      · exact fun untilTime hphase => absurd hphase (hb untilTime)
      · exact fun untilTime hphase => absurd ⟨untilTime, hphase⟩ hd
  | keep => exact hw

/-- A token was minted now or was there before. -/
theorem Step.cached (h : Step now state event after) {token : String} {expiresAt : ℚ}
    (hphase : after.phase = .cached token expiresAt) :
    (event = .minted token expiresAt ∧ Accepted state event) ∨
    state.phase = .cached token expiresAt ∧ Ignored now state event ∨
    state.phase = .cached token expiresAt ∧ event = .delivered := by
  cases h with
  | expired | lapsed | mintFailed | denied | refused => cases hphase
  | minted token' expiresAt' ha =>
      cases hphase
      exact Or.inl ⟨rfl, ha⟩
  | delivered => exact Or.inr (Or.inr ⟨hphase, rfl⟩)
  | keep _ hi => exact Or.inr (Or.inl ⟨hphase, hi⟩)

/-! ## Windows -/

theorem grow_bounds {base : ℕ} (hbase : base ≤ backoffCapSeconds) (strikes : ℕ) :
    (base : ℚ) ≤ grow base strikes ∧ grow base strikes ≤ backoffCapSeconds := by
  have hpow : base * 1 ≤ base * 2 ^ min (strikes - 1) 16 := Nat.mul_le_mul_left _ Nat.one_le_two_pow
  have hle : base ≤ min (base * 2 ^ min (strikes - 1) 16) backoffCapSeconds := by omega
  unfold grow
  constructor
  · exact_mod_cast hle
  · exact_mod_cast min_le_right (base * 2 ^ min (strikes - 1) 16) backoffCapSeconds

theorem grow_mono (base : ℕ) : Monotone (grow base) := by
  intro strikes strikes' h
  have hexp : min (strikes - 1) 16 ≤ min (strikes' - 1) 16 := by omega
  have hpow : base * 2 ^ min (strikes - 1) 16 ≤ base * 2 ^ min (strikes' - 1) 16 :=
    Nat.mul_le_mul_left _ (Nat.pow_le_pow_right (by decide) hexp)
  unfold grow
  exact_mod_cast min_le_min_right backoffCapSeconds hpow

/-- The least window of a kind. -/
def mintBase : MintFailure → ℚ
  | .grant => grantBackoffBaseSeconds
  | .credential | .unreadable => oauthFailureBackoffSeconds

theorem mintWindow_bounds (kind : MintFailure) (strikes : ℕ) :
    mintBase kind ≤ mintWindow kind strikes ∧ mintWindow kind strikes ≤ backoffCapSeconds := by
  cases kind with
  | grant => exact grow_bounds (by decide) strikes
  | credential | unreadable =>
      norm_num [mintBase, mintWindow, oauthFailureBackoffSeconds, backoffCapSeconds]

theorem mintWindow_mono (kind : MintFailure) : Monotone (mintWindow kind) := by
  cases kind with
  | grant => exact grow_mono _
  | credential | unreadable => exact monotone_const

/-! ## Runs -/

theorem run_append (state : AuthState) (xs ys : History) :
    run state (xs ++ ys) = run (run state xs) ys := List.foldl_append

theorem windows_run (history : History) : Windows (run initial history) := by
  induction history using List.reverseRecOn with
  | nil => exact ⟨by simp [run, initial], by simp [run, initial]⟩
  | append_singleton history x ih =>
      rw [run_append]
      exact (transition_step _ x.1 x.2).windows ih

/-- A denial that arrives in the denied phase or was sent before the phase is dropped, and so are
any number of them. -/
theorem run_stale (state : AuthState) (burst : History)
    (h : ∀ x ∈ burst, ∃ sentAt : ℚ, x.1 = .denied sentAt ∧
      ((sentAt : WithBot ℚ) < state.since ∨ state.Denied)) :
    run state burst = state := by
  induction burst with
  | nil => rfl
  | cons x burst ih =>
      have hx : transition state x.1 x.2 = state := by
        obtain ⟨sentAt, hevent, hstale⟩ := h x List.mem_cons_self
        rw [hevent]
        by_cases hd : state.Denied
        · exact transition_of_denied hd (by simp) x.2
        · rw [transition_deniedSend hd, if_pos (hstale.resolve_right hd)]
      change run (transition state x.1 x.2) burst = state
      rw [hx]
      exact ih fun y hy => h y (List.mem_cons_of_mem _ hy)

/-- The events that would end the use of a token. -/
structure Harmless (token : String) (event : Event) : Prop where
  minted : ∀ token' expiresAt, event ≠ .minted token' expiresAt
  mintFailed : ∀ kind, event ≠ .mintFailed kind
  denied : ∀ sentAt, event ≠ .denied sentAt
  refused : event ≠ .refused token

/-- `history` ends with the minting of the token and events that left it in place. -/
structure MintedLast (token : String) (expiresAt : ℚ) (history before after : History)
    (time : ℚ) : Prop where
  split : history = before ++ (.minted token expiresAt, time) :: after
  minted : Accepted (run initial before) (.minted token expiresAt)
  since : ∀ early event t late, after = early ++ (event, t) :: late →
    Accepted (run initial (before ++ (.minted token expiresAt, time) :: early)) event →
      Harmless token event

theorem mintedLast_of_cached {history : History} {token : String} {expiresAt : ℚ}
    (h : (run initial history).phase = .cached token expiresAt) :
    ∃ before after time, MintedLast token expiresAt history before after time := by
  induction history using List.reverseRecOn with
  | nil => simp [run, initial] at h
  | append_singleton history x ih =>
      rw [run_append] at h
      have hstep := (transition_step (run initial history) x.1 x.2).cached h
      rcases hstep with ⟨hevent, hopen⟩ | hkept
      · use history, [], x.2
        constructor
        · rw [← hevent]
        · rwa [← hevent]
        · intro early event t late hafter
          simp at hafter
      · have hphase : (run initial history).phase = .cached token expiresAt := by
          rcases hkept with hkept | hkept
          · exact hkept.1
          · exact hkept.1
        have hlast : Accepted (run initial history) x.1 → Harmless token x.1 := by
          intro ha
          rcases hkept with ⟨_, hi⟩ | ⟨_, hdelivered⟩
          · constructor
            · exact fun _ _ he => hi.minted _ _ he ha
            · exact fun _ he => hi.mintFailed _ he ha
            · exact fun _ he => hi.denied _ he ha
            · exact hi.refused _ _ hphase
          · rw [hdelivered]
            constructor <;> simp
        obtain ⟨before, after, time, hminted⟩ := ih hphase
        use before, after ++ [x], time
        constructor
        · rw [hminted.split]
          simp
        · exact hminted.minted
        · intro early event t late hafter ha
          cases late using List.reverseRecOn with
          | nil =>
              obtain ⟨hearly, hx⟩ := List.append_inj' hafter rfl
              have hevent : x.1 = event := by simp [List.singleton_inj.mp hx]
              rw [← hearly, ← hminted.split, ← hevent] at ha
              rw [← hevent]
              exact hlast ha
          | append_singleton late y =>
              apply hminted.since early event t late _ ha
              have hsplit : after ++ [x] = (early ++ (event, t) :: late) ++ [y] := by
                rw [hafter]
                simp
              exact (List.append_inj' hsplit rfl).1

theorem cached_of_get_tick {state : AuthState} {now : ℚ} {token : String}
    (h : get (transition state .tick now) = .have token) :
    ∃ expiresAt, state.phase = .cached token expiresAt ∧ now < expiresAt := by
  have hcached : ∃ expiresAt, (transition state .tick now).phase = .cached token expiresAt := by
    unfold get at h
    cases hphase : (transition state .tick now).phase with
    | cached token' expiresAt =>
        rw [hphase] at h
        cases h
        exact ⟨expiresAt, rfl⟩
    | empty | mintBackoff | sendDenied => rw [hphase] at h; cases h
  obtain ⟨expiresAt, hphase⟩ := hcached
  use expiresAt
  rcases (transition_step state .tick now).cached hphase with ⟨hevent, _⟩ | ⟨hkept, hi⟩ | ⟨_, hevent⟩
  · cases hevent
  · exact ⟨hkept, hi.tick token expiresAt hkept rfl⟩
  · cases hevent

/-- In a state that any history leads to, and for the next event: a denial ends by a tick after
its deadline, strikes count failures since the last delivery, stale denials change nothing, an open
window has the length of its kind, and a token that is handed out was minted last, is not expired
and was not refused. -/
theorem auth_machine (history : History) (event : Event) (now : ℚ) :
    (∀ untilTime, (run initial history).phase = .sendDenied untilTime →
      transition (run initial history) event now = run initial history ∨
        event = .tick ∧ untilTime ≤ now) ∧
    ((transition (run initial history) event now).strikes = (run initial history).strikes ∨
      ((transition (run initial history) event now).strikes = (run initial history).strikes + 1 ∧
        ¬(run initial history).Denied ∧
        ((∃ kind, event = .mintFailed kind) ∨ ∃ sentAt, event = .denied sentAt)) ∨
      (transition (run initial history) event now).strikes = 0 ∧ event = .delivered) ∧
    (∀ burst : History, (∀ x ∈ burst, ∃ sentAt : ℚ, x.1 = .denied sentAt ∧
        ((sentAt : WithBot ℚ) < (run initial history).since ∨ (run initial history).Denied)) →
      run (run initial history) burst = run initial history) ∧
    Windows (run initial history) ∧
    (∀ kind strikes, mintBase kind ≤ mintWindow kind strikes ∧
      mintWindow kind strikes ≤ backoffCapSeconds) ∧
    (∀ kind, Monotone (mintWindow kind)) ∧
    (∀ strikes, (deniedBackoffBaseSeconds : ℚ) ≤ grow deniedBackoffBaseSeconds strikes ∧
      grow deniedBackoffBaseSeconds strikes ≤ backoffCapSeconds) ∧
    Monotone (grow deniedBackoffBaseSeconds) ∧
    (∀ token, get (transition (run initial history) .tick now) = .have token →
      ∃ expiresAt before after time, MintedLast token expiresAt history before after time ∧
        now < expiresAt) ∧
    ∀ token expiresAt bearer, (run initial history).phase = .cached token expiresAt →
      bearer ≠ token → transition (run initial history) (.refused bearer) now = run initial history := by
  have hstep := transition_step (run initial history) event now
  constructor
  · exact fun untilTime hphase => hstep.leaves_denied hphase
  constructor
  · exact hstep.strikes
  constructor
  · exact run_stale _
  constructor
  · exact windows_run history
  constructor
  · exact mintWindow_bounds
  constructor
  · exact mintWindow_mono
  constructor
  · exact grow_bounds (by decide)
  constructor
  · exact grow_mono _
  constructor
  · intro token hget
    obtain ⟨expiresAt, hphase, hnow⟩ := cached_of_get_tick hget
    obtain ⟨before, after, time, hminted⟩ := mintedLast_of_cached hphase
    exact ⟨expiresAt, before, after, time, hminted, hnow⟩
  · intro token expiresAt bearer hphase hne
    rcases transition_refused (run initial history) bearer now with ⟨e, hcached, _⟩ | ⟨_, hafter⟩
    · rw [hphase] at hcached
      cases hcached
      exact absurd rfl hne
    · exact hafter

end

end AikoIsland.FcmAuth
