import AikoIsland.Conversions
import AikoIsland.FcmAuth
import AikoIsland.Actuation

/-!
# One exchange at the token endpoint

`_mint_once` signs an assertion, posts it, reads the body of the answer and feeds
one event to the credential's state. Signing and posting arrive as their outcome.
`classify_mint` is pure: it takes the status, the body and a reading of the clock.

Its two conversions are the ones that raise. `int` on an infinity is an
`OverflowError`, and so is adding an integer to the clock that no float can hold;
neither is a `ValueError`.
-/
namespace AikoIsland.Minting
open Tables FloatingPoint JsonText Conversions OrderedDict FcmAuth
open Actuation (plainText)

/-- `time.monotonic()`: nanoseconds that fit in 64 bits, as a float of seconds. -/
structure Monotonic where
  seconds : ℚ
  isFloat : nearest seconds = .finite seconds
  nonneg : 0 ≤ seconds
  bounded : seconds < 2 ^ 34

/-- `infinite` is no exception: the sum would be an infinity. -/
inductive Raised where
  | overflowError
  | recursionError
  | infinite
  deriving DecidableEq, Repr

def accessTokenSkewSeconds : ℤ := 300

def assertionTtlSeconds : ℤ := 3600

/-- A float plus an integer. -/
def plusInt (now : Monotonic) (n : ℤ) : Except Raised ℚ :=
  match ofInt n with
  | none => .error .overflowError
  | some q =>
      match nearest (now.seconds + q) with
      | .finite t => .ok t
      | _ => .error .infinite

def expiresIn (items : List (Text × Json)) : Except IntError ℤ :=
  match get items (codes "expires_in") with
  | none => .ok assertionTtlSeconds
  | some v => toInt v

def isInvalidGrant : Json → Bool
  | .obj items =>
      match get items (codes "error") with
      | some (.str s) => s = codes "invalid_grant"
      | _ => false
  | _ => false

/-- The token of a body, if it is a text that is not empty. -/
def accessToken (items : List (Text × Json)) : Option Text :=
  match get items (codes "access_token") with
  | some (.str token) => if token = [] then none else some token
  | _ => none

/-- The arm of a 200. A surrogate in a token is read as NUL. -/
def classifyGranted (items : List (Text × Json)) (now : Monotonic) : Except Raised Event :=
  match accessToken items with
  | none => .ok (.mintFailed .unreadable)
  | some token =>
      match expiresIn items with
      | .error .overflowError => .error .overflowError
      | .error _ => .ok (.mintFailed .unreadable)
      | .ok n =>
          (plusInt now (max (n - accessTokenSkewSeconds) 0)).map (.minted (plainText token))

def classifyMint (status : ℕ) (body : Json) (now : Monotonic) : Except Raised Event :=
  if status = 429 || 500 ≤ status then .ok .blinked
  else if status = 200 then
    match body with
    | .obj items => classifyGranted items now
    | _ => .ok (.mintFailed .unreadable)
  else if status = 400 && isInvalidGrant body then .ok (.mintFailed .grant)
  else .ok (.mintFailed .unreadable)

/-- What signing and posting gave. -/
inductive Exchange where
  | credentialFails
  | transportFails
  | answered (status : ℕ) (content : Option Text)

/-- The credential's state with the events that were applied to it. -/
structure Machine where
  state : AuthState
  applied : History := []

/-- `_apply`. -/
def Machine.apply (m : Machine) (event : Event) (at_ : ℚ) : Machine :=
  ⟨transition m.state event at_, m.applied ++ [(event, at_)]⟩

def tokenOf : Event → Option String
  | .minted token _ => some token
  | _ => none

/-- `_mint_once`; the clock is read once for the answer and once more in `_apply`. -/
def mintOnce (levels : ℕ) (x : Exchange) (now : Monotonic) (at_ : ℚ) (m : Machine) :
    Except Raised (Option String) × Machine :=
  match x with
  | .credentialFails => (.ok none, m.apply (.mintFailed .credential) at_)
  | .transportFails => (.ok none, m.apply .blinked at_)
  | .answered status content =>
      match responseJson levels content with
      | .error .recursionError => (.error .recursionError, m)
      | body =>
          match classifyMint status (body.toOption.getD .null) now with
          | .error e => (.error e, m)
          | .ok event => (.ok (tokenOf event), m.apply event at_)

/-! ## The clock -/

section
variable {now : Monotonic} {n : ℤ}

/-- What is not before a reading of the clock is not rounded to before it. -/
theorem le_nearest {q v : ℚ} (hq : now.seconds ≤ q) (h : nearest q = .finite v) :
    now.seconds ≤ v := by
  have hfloat := now.isFloat
  rcases now.nonneg.eq_or_lt with hzero | hpos
  · rw [← hzero] at hq ⊢
    rcases hq.eq_or_lt with rfl | hq
    · rw [nearest_zero] at h
      cases h
      exact le_refl _
    · rw [nearest_of_pos hq] at h
      split_ifs at h
      cases h
      exact rounded_nonneg hq
  · rw [nearest_of_pos hpos] at hfloat
    rw [nearest_of_pos (hpos.trans_le hq)] at h
    split_ifs at hfloat h
    cases h
    exact le_rounded hpos hq (Binary64.finite.inj hfloat)

theorem plusInt_of_large (h : (2 ^ 1024 - 2 ^ 970 : ℚ) ≤ n) :
    plusInt now n = .error .overflowError := by
  rw [plusInt, ofInt_eq_none h]

/-- The sum is finite and not before the clock; the room above the largest float is enough for
every reading. -/
theorem plusInt_of_small (hn : 0 ≤ n) (h : (n : ℚ) < 2 ^ 1024 - 2 ^ 970) :
    ∃ t, plusInt now n = .ok t ∧ now.seconds ≤ t := by
  obtain ⟨q, hq, hnonneg, hlargest⟩ := exists_ofInt hn h
  have hnow := now.nonneg
  have hbounded := now.bounded
  have hsum : now.seconds + q < 2 ^ 1024 - 2 ^ 970 := by
    have hroom : (2 : ℚ) ^ 34 ≤ 2 ^ 970 := pow_le_pow_right₀ (by norm_num) (by norm_num)
    rw [pow_1024, pow_971] at hlargest
    rw [pow_1024]
    generalize (2 : ℚ) ^ 970 = unit at *
    linarith
  obtain ⟨t, ht, _⟩ := exists_nearest (by linarith) hsum
  refine ⟨t, ?_, le_nearest (by linarith) ht⟩
  rw [plusInt, hq]
  dsimp only
  rw [ht]

end

/-! ## Classifying -/

/-- The lifetime is an infinity, or an integer that no float holds once the skew is taken off. -/
def Overflows (items : List (Text × Json)) : Prop :=
  (∃ negative, get items (codes "expires_in") = some (.float (.inf negative))) ∨
    ∃ n, expiresIn items = .ok n ∧ (2 ^ 1024 - 2 ^ 970 : ℚ) ≤ ((n - 300 : ℤ) : ℚ)

/-- A 200 with a token whose lifetime cannot be added to the clock. -/
def Unconvertible (status : ℕ) (body : Json) : Prop :=
  status = 200 ∧ ∃ items token, body = .obj items ∧ accessToken items = some token ∧
    Overflows items

/-- An event, and a minted one has a token that does not expire before now. -/
def Classified (status : ℕ) (body : Json) (now : Monotonic) : Prop :=
  ∃ event, classifyMint status body now = .ok event ∧
    (∀ token expiresAt, event = .minted token expiresAt → token ≠ "" ∧ now.seconds ≤ expiresAt) ∧
    (event = .blinked → status = 429 ∨ 500 ≤ status)

section
variable {items : List (Text × Json)} {token : Text} {now : Monotonic}

theorem accessToken_ne_nil (h : accessToken items = some token) : token ≠ [] := by
  unfold accessToken at h
  split at h
  · split_ifs at h with hnil
    cases h
    exact hnil
  · cases h

theorem plainText_ne_empty {s : Text} (h : s ≠ []) : plainText s ≠ "" := by
  intro hempty
  have hlist := congrArg String.toList hempty
  rw [plainText, String.toList_ofList] at hlist
  exact h (List.map_eq_nil_iff.mp hlist)

theorem expiresIn_eq_overflowError :
    expiresIn items = .error .overflowError ↔
      ∃ negative, get items (codes "expires_in") = some (.float (.inf negative)) := by
  unfold expiresIn
  cases get items (codes "expires_in") with
  | none => simp
  | some v => simp [toInt_eq_overflowError]

/-- The arm of a 200 raises exactly on a lifetime that cannot be added. -/
theorem classifyGranted_cases (items : List (Text × Json)) (now : Monotonic) :
    (classifyGranted items now = .error .overflowError ∧ (∃ token, accessToken items = some token) ∧
      Overflows items) ∨
    (classifyGranted items now = .ok (.mintFailed .unreadable) ∧
      ¬((∃ token, accessToken items = some token) ∧ Overflows items)) ∨
    ∃ token t, classifyGranted items now = .ok (.minted (plainText token) t) ∧ token ≠ [] ∧
      now.seconds ≤ t ∧ ¬Overflows items := by
  unfold classifyGranted
  cases htoken : accessToken items with
  | none => exact Or.inr (Or.inl ⟨rfl, by simp⟩)
  | some token =>
      dsimp only
      cases hexpires : expiresIn items with
      | error e =>
          cases e with
          | overflowError =>
              have hinf := expiresIn_eq_overflowError.mp hexpires
              exact Or.inl ⟨rfl, ⟨token, rfl⟩, Or.inl hinf⟩
          | typeError | valueError =>
              right
              left
              constructor
              · rfl
              · intro hboth
                cases hboth.2 with
                | inl hinf =>
                    rw [expiresIn_eq_overflowError.mpr hinf] at hexpires
                    cases hexpires
                | inr hlarge =>
                    obtain ⟨n, hn, _⟩ := hlarge
                    rw [hexpires] at hn
                    cases hn
      | ok n =>
          dsimp only
          by_cases hlarge : (2 ^ 1024 - 2 ^ 970 : ℚ) ≤ ((n - 300 : ℤ) : ℚ)
          · left
            have hmax : ((n - 300 : ℤ) : ℚ) ≤ ((max (n - accessTokenSkewSeconds) 0 : ℤ) : ℚ) := by
              exact_mod_cast le_max_left _ _
            rw [plusInt_of_large (hlarge.trans hmax)]
            exact ⟨rfl, ⟨token, rfl⟩, Or.inr ⟨n, hexpires, hlarge⟩⟩
          · right
            right
            have hsmall : ((max (n - accessTokenSkewSeconds) 0 : ℤ) : ℚ) < 2 ^ 1024 - 2 ^ 970 := by
              rw [Int.cast_max, max_lt_iff]
              constructor
              · exact not_le.mp hlarge
              · rw [Int.cast_zero]
                exact sub_pos.mpr (pow_lt_pow_right₀ (by norm_num) (by norm_num))
            obtain ⟨t, ht, hle⟩ := plusInt_of_small (le_max_right _ 0) hsmall
            have hfits : ¬Overflows items := by
              intro hover
              cases hover with
              | inl hinf =>
                  rw [expiresIn_eq_overflowError.mpr hinf] at hexpires
                  cases hexpires
              | inr hlarge' =>
                  obtain ⟨n', hn', hover⟩ := hlarge'
                  cases hexpires.symm.trans hn'
                  exact hlarge hover
            exact ⟨token, t, by rw [ht]; rfl, accessToken_ne_nil htoken, hle, hfits⟩

theorem classified_of_kept {status : ℕ} {body : Json} {event : Event}
    (h : classifyMint status body now = .ok event) (hkept : ∀ t x, event ≠ .minted t x)
    (hblinked : event ≠ .blinked) : Classified status body now :=
  ⟨event, h, fun t x he => absurd he (hkept t x), fun he => absurd he hblinked⟩

/-- Classifying an answer is total but for the lifetimes that cannot be added. -/
theorem classified_iff (status : ℕ) (body : Json) (now : Monotonic) :
    Classified status body now ↔ ¬Unconvertible status body := by
  by_cases hblinked : status = 429 ∨ 500 ≤ status
  · have hclassify : classifyMint status body now = .ok .blinked := by
      unfold classifyMint
      rw [if_pos (by simpa using hblinked)]
    constructor
    · intro _ hover
      have hstatus := hover.1
      omega
    · intro _
      exact ⟨.blinked, hclassify, by simp, fun _ => hblinked⟩
  · by_cases hgranted : status = 200
    · have hother : (∀ items, body ≠ .obj items) →
          classifyMint status body now = .ok (.mintFailed .unreadable) := by
        intro hne
        unfold classifyMint
        rw [if_neg (by simpa using hblinked), if_pos hgranted]
        split
        · rename_i items
          exact absurd rfl (hne items)
        · rfl
      by_cases hobj : ∃ items, body = .obj items
      · obtain ⟨items, rfl⟩ := hobj
        have hclassify : classifyMint status (.obj items) now = classifyGranted items now := by
          unfold classifyMint
          rw [if_neg (by simpa using hblinked), if_pos hgranted]
        have hover : Unconvertible status (.obj items) ↔
            (∃ token, accessToken items = some token) ∧ Overflows items := by
          constructor
          · intro h
            obtain ⟨_, items', token, heq, htoken, hlarge⟩ := h
            cases heq
            exact ⟨⟨token, htoken⟩, hlarge⟩
          · intro h
            obtain ⟨⟨token, htoken⟩, hlarge⟩ := h
            exact ⟨hgranted, items, token, rfl, htoken, hlarge⟩
        rw [hover]
        rcases classifyGranted_cases items now with ⟨hraised, hboth⟩ | ⟨hfailed, hneither⟩ | hminted
        · constructor
          · intro h
            obtain ⟨event, hevent, _⟩ := h
            rw [hclassify, hraised] at hevent
            cases hevent
          · intro h
            exact absurd hboth h
        · constructor
          · intro _
            exact hneither
          · intro _
            exact classified_of_kept (hclassify.trans hfailed) (by simp) (by simp)
        · obtain ⟨token, t, hok, htoken, hle, hfits⟩ := hminted
          constructor
          · intro _ hboth
            exact hfits hboth.2
          · intro _
            refine ⟨_, hclassify.trans hok, ?_, by simp⟩
            intro token' t' heq
            cases heq
            exact ⟨plainText_ne_empty htoken, hle⟩
      · have hne : ∀ items, body ≠ .obj items := fun items h => hobj ⟨items, h⟩
        constructor
        · intro _ hover
          obtain ⟨_, items, _, heq, _⟩ := hover
          exact hne items heq
        · intro _
          exact classified_of_kept (hother hne) (by simp) (by simp)
    · constructor
      · intro _ hover
        exact hgranted hover.1
      · intro _
        by_cases hgrant : (status = 400 && isInvalidGrant body) = true
        · have hclassify : classifyMint status body now = .ok (.mintFailed .grant) := by
            unfold classifyMint
            rw [if_neg (by simpa using hblinked), if_neg hgranted, if_pos hgrant]
          exact classified_of_kept hclassify (by simp) (by simp)
        · have hclassify : classifyMint status body now = .ok (.mintFailed .unreadable) := by
            unfold classifyMint
            rw [if_neg (by simpa using hblinked), if_neg hgranted, if_neg hgrant]
          exact classified_of_kept hclassify (by simp) (by simp)

end

/-! ## One event for each exchange -/

/-- An answer whose body is nested too deeply, or gives a lifetime that cannot be added. -/
def Escapes (levels : ℕ) (x : Exchange) : Prop :=
  ∃ status content, x = .answered status content ∧
    (responseJson levels content = .error .recursionError ∨
      ∃ body, responseJson levels content = .ok body ∧ Unconvertible status body)

/-- The endpoint blinked: no answer, a 429 or a 5xx. -/
def Blinks (x : Exchange) : Prop :=
  x = .transportFails ∨ ∃ status content, x = .answered status content ∧
    (status = 429 ∨ 500 ≤ status)

/-- Exactly one event was applied. What was minted is a token that does not expire before now, and
an event that is neither minted nor a blink closes an empty phase for at least ten seconds. -/
def Answered (levels : ℕ) (x : Exchange) (now : Monotonic) (at_ : ℚ) (m : Machine) : Prop :=
  ∃ result event, mintOnce levels x now at_ m = (.ok result, m.apply event at_) ∧
    (∀ token expiresAt, event = .minted token expiresAt → token ≠ "" ∧ now.seconds ≤ expiresAt) ∧
    (event = .blinked → Blinks x) ∧
    ((∀ token expiresAt, event ≠ .minted token expiresAt) → event ≠ .blinked →
      m.state.phase = .empty → ∃ untilTime,
        (m.apply event at_).state.phase = .mintBackoff untilTime ∧ at_ + 10 ≤ untilTime)

section
variable {levels status : ℕ} {x : Exchange} {content : Option Text} {now : Monotonic} {at_ : ℚ}
  {m : Machine} {event : Event}

theorem mintWindow_ge (kind : MintFailure) (strikes : ℕ) : 10 ≤ mintWindow kind strikes := by
  have hbase := (mintWindow_bounds kind strikes).1
  have hten : 10 ≤ mintBase kind := by
    cases kind <;> norm_num [mintBase, grantBackoffBaseSeconds, oauthFailureBackoffSeconds]
  exact hten.trans hbase

/-- A failed mint closes an empty phase. -/
theorem closes_of_mintFailed (kind : MintFailure) (h : m.state.phase = .empty) :
    ∃ untilTime, (m.apply (.mintFailed kind) at_).state.phase = .mintBackoff untilTime ∧
      at_ + 10 ≤ untilTime := by
  have hopen : ¬m.state.Denied := by
    intro hdenied
    obtain ⟨untilTime, hphase⟩ := hdenied
    rw [h] at hphase
    cases hphase
  refine ⟨at_ + mintWindow kind (m.state.strikes + 1), ?_, ?_⟩
  · rw [Machine.apply, transition_mintFailed hopen]
  · have := mintWindow_ge kind (m.state.strikes + 1)
    linarith

/-- The events of an exchange: minted, failed or a blink. -/
theorem event_of_classifyMint {body : Json} (h : classifyMint status body now = .ok event) :
    (∃ token expiresAt, event = .minted token expiresAt) ∨ (∃ kind, event = .mintFailed kind) ∨
      event = .blinked := by
  unfold classifyMint at h
  split_ifs at h with hblinked hgranted hgrant
  · cases h
    exact Or.inr (Or.inr rfl)
  · split at h
    · rename_i items
      rcases classifyGranted_cases items now with ⟨hraised, _⟩ | ⟨hfailed, _⟩ | hminted
      · rw [hraised] at h
        cases h
      · rw [hfailed] at h
        cases h
        exact Or.inr (Or.inl ⟨_, rfl⟩)
      · obtain ⟨token, t, hok, _⟩ := hminted
        rw [hok] at h
        cases h
        exact Or.inl ⟨_, _, rfl⟩
    · cases h
      exact Or.inr (Or.inl ⟨_, rfl⟩)
  · cases h
    exact Or.inr (Or.inl ⟨_, rfl⟩)
  · cases h
    exact Or.inr (Or.inl ⟨_, rfl⟩)

theorem answered_of_mintFailed {result : Option String} {kind : MintFailure}
    (h : mintOnce levels x now at_ m = (.ok result, m.apply (.mintFailed kind) at_)) :
    Answered levels x now at_ m :=
  ⟨result, .mintFailed kind, h, by simp, by simp, fun _ _ hempty =>
    closes_of_mintFailed kind hempty⟩

/-- The answer is read as JSON, as nothing, or not at all. -/
theorem mintOnce_answered (levels status : ℕ) (content : Option Text) (now : Monotonic) (at_ : ℚ)
    (m : Machine) :
    (responseJson levels content = .error .recursionError ∧
      mintOnce levels (.answered status content) now at_ m = (.error .recursionError, m)) ∨
    responseJson levels content ≠ .error .recursionError ∧
      mintOnce levels (.answered status content) now at_ m =
        match classifyMint status ((responseJson levels content).toOption.getD .null) now with
        | .error e => (.error e, m)
        | .ok event => (.ok (tokenOf event), m.apply event at_) := by
  unfold mintOnce
  dsimp only
  cases hbody : responseJson levels content with
  | ok body => exact Or.inr ⟨by simp, rfl⟩
  | error e =>
      cases e with
      | recursionError => exact Or.inl ⟨rfl, rfl⟩
      | valueError | outOfFuel => exact Or.inr ⟨by simp, rfl⟩

theorem apply_inj {event' : Event} (h : m.apply event at_ = m.apply event' at_) :
    event = event' := by
  have happlied := congrArg Machine.applied h
  exact congrArg Prod.fst (List.singleton_inj.mp (List.append_cancel_left happlied))

theorem escapes_answered_iff (hread : responseJson levels content ≠ .error .recursionError) :
    Escapes levels (.answered status content) ↔
      Unconvertible status ((responseJson levels content).toOption.getD .null) := by
  constructor
  · intro h
    obtain ⟨status', content', heq, hcase⟩ := h
    cases heq
    cases hcase with
    | inl hdeep => exact absurd hdeep hread
    | inr hover =>
        obtain ⟨body, hbody, hover⟩ := hover
        rw [hbody]
        exact hover
  · intro hover
    refine ⟨status, content, rfl, Or.inr ?_⟩
    cases hbody : responseJson levels content with
    | ok body =>
        rw [hbody] at hover
        exact ⟨body, rfl, hover⟩
    | error e =>
        -- Nothing was read, so the body is no object.
        rw [hbody] at hover
        obtain ⟨_, items, _, heq, _⟩ := hover
        cases heq

theorem answered_iff_not_escapes (levels : ℕ) (x : Exchange) (now : Monotonic) (at_ : ℚ)
    (m : Machine) : Answered levels x now at_ m ↔ ¬Escapes levels x := by
  cases x with
  | credentialFails =>
      constructor
      · intro _ hescapes
        obtain ⟨_, _, heq, _⟩ := hescapes
        cases heq
      · intro _
        have hfailed : mintOnce levels .credentialFails now at_ m =
            (.ok none, m.apply (.mintFailed .credential) at_) := rfl
        exact answered_of_mintFailed hfailed
  | transportFails =>
      constructor
      · intro _ hescapes
        obtain ⟨_, _, heq, _⟩ := hescapes
        cases heq
      · intro _
        exact ⟨none, .blinked, rfl, by simp, fun _ => Or.inl rfl, fun _ hne => absurd rfl hne⟩
  | answered status content =>
      rcases mintOnce_answered levels status content now at_ m with ⟨hdeep, hmint⟩ | ⟨hread, hmint⟩
      · constructor
        · intro h
          obtain ⟨_, _, heq, _⟩ := h
          rw [hmint] at heq
          cases congrArg Prod.fst heq
        · intro hescapes
          exact absurd ⟨status, content, rfl, Or.inl hdeep⟩ hescapes
      · rw [escapes_answered_iff hread, ← classified_iff status _ now]
        generalize (responseJson levels content).toOption.getD .null = body at hmint ⊢
        constructor
        · intro h
          obtain ⟨result, event, heq, hminted, hblinks, _⟩ := h
          rw [hmint] at heq
          cases hclassify : classifyMint status body now with
          | error e =>
              rw [hclassify] at heq
              cases congrArg Prod.fst heq
          | ok event' =>
              rw [hclassify] at heq
              have hsame := apply_inj (congrArg Prod.snd heq)
              rw [hsame] at hclassify
              refine ⟨event, hclassify, hminted, ?_⟩
              intro hblinked
              cases hblinks hblinked with
              | inl hnone => cases hnone
              | inr hstatus =>
                  obtain ⟨_, _, hx, hstatus⟩ := hstatus
                  cases hx
                  exact hstatus
        · intro h
          obtain ⟨event, hclassify, hminted, hblinked⟩ := h
          rw [hclassify] at hmint
          refine ⟨_, event, hmint, hminted, ?_, ?_⟩
          · intro heq
            exact Or.inr ⟨status, content, rfl, hblinked heq⟩
          · intro hno hne hempty
            rcases event_of_classifyMint hclassify with ⟨token, t, heq⟩ | ⟨kind, rfl⟩ | heq
            · exact absurd heq (hno token t)
            · exact closes_of_mintFailed kind hempty
            · exact absurd heq hne

end

/-- Classifying is total, and an exchange applies one event, but for a body that is nested too
deeply and for a lifetime that cannot be added to the clock. -/
theorem mint_is_total_iff (status : ℕ) (body : Json) (now : Monotonic) (levels : ℕ) (x : Exchange)
    (at_ : ℚ) (m : Machine) :
    (Classified status body now ↔ ¬Unconvertible status body) ∧
      (Answered levels x now at_ m ↔ ¬Escapes levels x) :=
  ⟨classified_iff status body now, answered_iff_not_escapes levels x now at_ m⟩

/-- The clock at its start. -/
def bootClock : Monotonic where
  seconds := 0
  isFloat := nearest_zero
  nonneg := le_refl 0
  bounded := by norm_num

theorem infinity_escapes : ¬∀ (status : ℕ) (body : Json) (now : Monotonic),
    Classified status body now := by
  intro h
  obtain ⟨event, hevent, _⟩ := h 200 (.obj [(codes "access_token", .str (codes "t")),
    (codes "expires_in", .float (.inf false))]) bootClock
  have hraised : classifyMint 200 (.obj [(codes "access_token", .str (codes "t")),
      (codes "expires_in", .float (.inf false))]) bootClock = .error .overflowError := by
    rfl
  rw [hraised] at hevent
  cases hevent

end AikoIsland.Minting
