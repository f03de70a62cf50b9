import AikoIsland.Payload

/-!
# The contract of the payload codec

`parse_payload` promises never to raise, and what it returns goes to
`persist_inbound`, which turns the timestamp into a date. The first tier keeps the
promise whatever the framework does. The second does not: the reader may run out
of stack, `float` may overflow on an integer, and a float may be no date. The
condition names the payloads on which none of this happens.
-/
namespace AikoIsland.PayloadContract
open Tables Gateway Messages FloatingPoint JsonText Payload

/-- The parse returns, and `created_at` can be computed. -/
def TakenIn (aikoParse : Text → Parsed) (levels : ℕ) (payloadIn : Text)
    (fallbackChannel : Option Text) : Prop :=
  ∃ inbound, parsePayload aikoParse levels payloadIn fallbackChannel = .ok inbound ∧
    ∀ now, ∃ created, createdFrom inbound.toMessage.timestamp now = pure created

/-- The fields are those of a message whose timestamp converts. -/
def Structured (get : Fields) : Prop :=
  (asText (get messageKey)).isSome ∧ Converts (get timestampKey)

/-- The framework's call is taken as it is. -/
def ByFramework (aikoParse : Text → Parsed) (payloadIn : Text) (get : Fields) : Prop :=
  aikoParse payloadIn = .call true (some get) ∧ Structured get

/-- The payload is a framework message with a date, or is none and as JSON not nested too deeply,
and as a JSON message one whose timestamp converts and is a date. -/
def Sound (aikoParse : Text → Parsed) (levels : ℕ) (payloadIn : Text) : Prop :=
  (∃ get, ByFramework aikoParse payloadIn get ∧ DatedField (get timestampKey)) ∨
  (¬∃ get, ByFramework aikoParse payloadIn get) ∧
    loads levels payloadIn ≠ .error .recursionError ∧
    ∀ data get, loads levels payloadIn = .ok data → fieldsOf data = some get →
      (asText (get messageKey)).isSome →
        Converts (get timestampKey) ∧ DatedField (get timestampKey)

theorem createdFrom_iff {stamp : Stamp} :
    (∀ now, ∃ created, createdFrom stamp now = pure created) ↔ stamp ≠ .unrepresentable := by
  cases stamp with
  | absent => simp [createdFrom]
  | zero => simp [createdFrom]
  | instant t => simp [createdFrom]
  | unrepresentable =>
      constructor
      · intro h
        obtain ⟨created, hcreated⟩ := h 0
        cases hcreated
      · intro h
        exact absurd rfl h

section
variable {get : Fields} {payloadIn : Text} {fallbackChannel : Option Text}

/-- A message whose timestamp converts is built, with what the conversion gives. -/
theorem structured_of (payloadIn : Text) (fallbackChannel : Option Text) {message : Text}
    (hmessage : asText (get messageKey) = some message) (h : Converts (get timestampKey)) :
    ∃ inbound, structured (some get) payloadIn fallbackChannel = .ok (some inbound) ∧
      coerceTimestamp (get timestampKey) = .ok inbound.timestamp := by
  obtain ⟨x, hx⟩ := coerceTimestamp_ok h
  refine ⟨⟨asText (get usernameKey), (asText (get channelKey)).orElse fun _ => fallbackChannel,
    x, message, payloadIn⟩, ?_, hx⟩
  simp only [structured, hmessage, hx]
  rfl

theorem structured_raises (payloadIn : Text) (fallbackChannel : Option Text) {message : Text}
    (hmessage : asText (get messageKey) = some message) (h : ¬Converts (get timestampKey)) :
    ∃ e, structured (some get) payloadIn fallbackChannel = .error e := by
  obtain ⟨e, he⟩ := coerceTimestamp_error h
  refine ⟨e, ?_⟩
  simp only [structured, hmessage, he]
  rfl

theorem structured_of_none (h : asText (get messageKey) = none) :
    structured (some get) payloadIn fallbackChannel = .ok none := by
  simp only [structured, h]

theorem framework_of (fallbackChannel : Option Text) {aikoParse : Text → Parsed}
    (h : ByFramework aikoParse payloadIn get) :
    ∃ inbound, framework aikoParse payloadIn fallbackChannel = some inbound ∧
      coerceTimestamp (get timestampKey) = .ok inbound.timestamp := by
  obtain ⟨hcall, hmessage, hconverts⟩ := h
  obtain ⟨message, hmessage⟩ := Option.isSome_iff_exists.mp hmessage
  obtain ⟨inbound, hinbound, hx⟩ := structured_of payloadIn fallbackChannel hmessage hconverts
  exact ⟨inbound, by simp [framework, hcall, hinbound], hx⟩

/-- Whatever the framework does, a payload that is none of its messages goes to the next tier. -/
theorem framework_of_not (fallbackChannel : Option Text) {aikoParse : Text → Parsed}
    (h : ¬∃ get, ByFramework aikoParse payloadIn get) :
    framework aikoParse payloadIn fallbackChannel = none := by
  unfold framework
  split
  · rfl
  · rfl
  · rename_i fields hcall
    cases fields with
    | none => rfl
    | some get =>
        cases hmessage : asText (get messageKey) with
        | none => rw [structured_of_none hmessage]
        | some message =>
            have hnot : ¬Converts (get timestampKey) := by
              intro hconverts
              exact h ⟨get, hcall, by simp [hmessage], hconverts⟩
            obtain ⟨e, he⟩ := structured_raises payloadIn fallbackChannel hmessage hnot
            rw [he]

end

theorem takenIn_iff_of_ok {aikoParse : Text → Parsed} {levels : ℕ} {payloadIn : Text}
    {fallbackChannel : Option Text} {inbound : Inbound}
    (h : parsePayload aikoParse levels payloadIn fallbackChannel = .ok inbound) :
    TakenIn aikoParse levels payloadIn fallbackChannel ↔
      stampOf inbound.timestamp ≠ .unrepresentable := by
  constructor
  · intro ht
    obtain ⟨other, hother, hcreated⟩ := ht
    rw [h] at hother
    obtain rfl := Except.ok.inj hother
    exact createdFrom_iff.mp hcreated
  · intro hs
    exact ⟨inbound, h, createdFrom_iff.mpr hs⟩

theorem not_takenIn_of_error {aikoParse : Text → Parsed} {levels : ℕ} {payloadIn : Text}
    {fallbackChannel : Option Text} {e : Raised}
    (h : parsePayload aikoParse levels payloadIn fallbackChannel = .error e) :
    ¬TakenIn aikoParse levels payloadIn fallbackChannel := by
  intro ht
  obtain ⟨inbound, hinbound, _⟩ := ht
  rw [h] at hinbound
  cases hinbound

section
variable {aikoParse : Text → Parsed} {levels : ℕ} {payloadIn : Text} {fallbackChannel : Option Text}
  {get : Fields}

/-- In the first tier only the date is left to ask for. -/
theorem takenIn_of_framework (h : ByFramework aikoParse payloadIn get) :
    TakenIn aikoParse levels payloadIn fallbackChannel ↔ DatedField (get timestampKey) := by
  obtain ⟨inbound, hinbound, hx⟩ := framework_of fallbackChannel h
  have hparse : parsePayload aikoParse levels payloadIn fallbackChannel = .ok inbound := by
    simp only [parsePayload, hinbound]
  rw [takenIn_iff_of_ok hparse, dated_coerced hx]

/-- The later tiers, once the JSON reader has ended. -/
theorem parsePayload_legacy {data : Option Json}
    (hnone : framework aikoParse payloadIn fallbackChannel = none)
    (hdata : legacyData levels payloadIn = .ok data) :
    parsePayload aikoParse levels payloadIn fallbackChannel =
      match structured (data.bind fieldsOf) payloadIn fallbackChannel with
      | .ok (some inbound) => .ok inbound
      | .ok none => .ok (bare payloadIn fallbackChannel)
      | .error e => .error e := by
  simp only [parsePayload, hnone, hdata]
  change (structured (data.bind fieldsOf) payloadIn fallbackChannel >>= _ :
    Except Raised Inbound) = _
  cases structured (data.bind fieldsOf) payloadIn fallbackChannel with
  | error e => rfl
  | ok found =>
      cases found with
      | none => rfl
      | some inbound => rfl

theorem takenIn_bare {data : Option Json}
    (hnone : framework aikoParse payloadIn fallbackChannel = none)
    (hdata : legacyData levels payloadIn = .ok data)
    (h : structured (data.bind fieldsOf) payloadIn fallbackChannel = .ok none) :
    TakenIn aikoParse levels payloadIn fallbackChannel := by
  have hparse := parsePayload_legacy hnone hdata
  rw [h] at hparse
  rw [takenIn_iff_of_ok hparse]
  intro hs
  cases hs

/-- The second tier: a message has to convert and to be a date, anything else is bare. -/
theorem takenIn_of_fields {data : Json}
    (hnone : framework aikoParse payloadIn fallbackChannel = none)
    (hdata : legacyData levels payloadIn = .ok (some data)) (hfields : fieldsOf data = some get) :
    TakenIn aikoParse levels payloadIn fallbackChannel ↔ ((asText (get messageKey)).isSome →
      Converts (get timestampKey) ∧ DatedField (get timestampKey)) := by
  have hparse := parsePayload_legacy hnone hdata
  rw [Option.bind_some, hfields] at hparse
  cases hmessage : asText (get messageKey) with
  | none =>
      rw [structured_of_none hmessage] at hparse
      rw [takenIn_iff_of_ok hparse]
      constructor
      · intro _ hsome
        cases hsome
      · intro _ hs
        cases hs
  | some message =>
      by_cases hconverts : Converts (get timestampKey)
      · obtain ⟨inbound, hinbound, hx⟩ := structured_of payloadIn fallbackChannel hmessage hconverts
        rw [hinbound] at hparse
        rw [takenIn_iff_of_ok hparse, dated_coerced hx]
        constructor
        · intro h _
          exact ⟨hconverts, h⟩
        · intro h
          exact (h rfl).2
      · obtain ⟨e, he⟩ := structured_raises payloadIn fallbackChannel hmessage hconverts
        rw [he] at hparse
        constructor
        · intro ht
          exact absurd ht (not_takenIn_of_error hparse)
        · intro h
          exact absurd (h rfl).1 hconverts

/-- A payload that is no framework message. -/
theorem takenIn_of_legacy (hframework : ¬∃ get, ByFramework aikoParse payloadIn get) :
    TakenIn aikoParse levels payloadIn fallbackChannel ↔
      loads levels payloadIn ≠ .error .recursionError ∧
        ∀ data get, loads levels payloadIn = .ok data → fieldsOf data = some get →
          (asText (get messageKey)).isSome →
            Converts (get timestampKey) ∧ DatedField (get timestampKey) := by
  have hnone := framework_of_not fallbackChannel hframework
  cases hloads : loads levels payloadIn with
  | ok data =>
      have hdata : legacyData levels payloadIn = .ok (some data) := by
        simp only [legacyData, hloads]
      cases hfields : fieldsOf data with
      | none =>
          have hbare : TakenIn aikoParse levels payloadIn fallbackChannel :=
            takenIn_bare hnone hdata (by rw [Option.bind_some, hfields]; rfl)
          constructor
          · intro _
            constructor
            · intro heq
              cases heq
            · intro data' get hsame hget
              obtain rfl := Except.ok.inj hsame
              rw [hfields] at hget
              cases hget
          · intro _
            exact hbare
      | some get =>
          rw [takenIn_of_fields hnone hdata hfields]
          constructor
          · intro h
            constructor
            · intro heq
              cases heq
            · intro data' get' hsame hget
              obtain rfl := Except.ok.inj hsame
              rw [hfields] at hget
              obtain rfl := Option.some.inj hget
              exact h
          · intro h
            exact h.2 data get rfl hfields
  | error e =>
      have hloaded : ∀ data get, (.error e : Loads Json) = .ok data → fieldsOf data = some get →
          (asText (get messageKey)).isSome →
            Converts (get timestampKey) ∧ DatedField (get timestampKey) := by
        intro data get hdata
        cases hdata
      by_cases he : e = .recursionError
      · subst he
        have hparse : parsePayload aikoParse levels payloadIn fallbackChannel =
            .error .recursionError := by
          simp only [parsePayload, hnone, legacyData, hloads]
          rfl
        constructor
        · intro ht
          exact absurd ht (not_takenIn_of_error hparse)
        · intro h
          exact absurd rfl h.1
      · have hdata : legacyData levels payloadIn = .ok none := by
          simp only [legacyData, hloads]
        constructor
        · intro _
          constructor
          · intro heq
            exact he (Except.error.inj heq)
          · exact hloaded
        · intro _
          exact takenIn_bare hnone hdata rfl

end

/-- Exactly on the payloads of `Sound` the parse returns and gives a date. -/
theorem payload_is_taken_in_iff (aikoParse : Text → Parsed) (levels : ℕ) (payloadIn : Text)
    (fallbackChannel : Option Text) :
    TakenIn aikoParse levels payloadIn fallbackChannel ↔ Sound aikoParse levels payloadIn := by
  by_cases hframework : ∃ get, ByFramework aikoParse payloadIn get
  · obtain ⟨get, hget⟩ := hframework
    rw [takenIn_of_framework hget]
    constructor
    · intro h
      exact Or.inl ⟨get, hget, h⟩
    · intro h
      cases h with
      | inl h =>
          obtain ⟨get', hget', hdated⟩ := h
          have hcalls := (Parsed.call.inj (hget'.1.symm.trans hget.1)).2
          rw [Option.some.inj hcalls] at hdated
          exact hdated
      | inr h => exact absurd ⟨get, hget⟩ h.1
  · rw [takenIn_of_legacy hframework]
    constructor
    · intro h
      exact Or.inr ⟨hframework, h⟩
    · intro h
      cases h with
      | inl h =>
          obtain ⟨get, hget, _⟩ := h
          exact absurd ⟨get, hget⟩ hframework
      | inr h => exact h.2

/-- A JSON message whose timestamp is the text `nan`. -/
def nanPayload : Text := codes "\x7b\"message\":\"hi\",\"timestamp\":\"nan\"\x7d"

theorem nan_timestamp_is_no_date :
    ¬∀ (aikoParse : Text → Parsed) (levels : ℕ) (payloadIn : Text)
      (fallbackChannel : Option Text), TakenIn aikoParse levels payloadIn fallbackChannel := by
  intro h
  have hparse : parsePayload (fun _ => .raised) 1000 nanPayload none =
      .ok ⟨none, none, some .nan, codes "hi", nanPayload⟩ := by decide +kernel
  have htaken := h (fun _ => .raised) 1000 nanPayload none
  rw [takenIn_iff_of_ok hparse] at htaken
  exact htaken rfl

end AikoIsland.PayloadContract
