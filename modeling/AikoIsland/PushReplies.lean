import AikoIsland.DeliveryPlans

/-!
# What the transports make of a reply

The body of a reply is remote text. Both transports read it as JSON and catch the
`ValueError` of a text that is none, but not the `RecursionError` of a nested one.
FCM then asks every value for its type. APNs asks the body for its `get`, which
only an object has, and on a 410 turns an integer timestamp into an instant: it
divides the milliseconds as a float, and `datetime` takes the years 1 to 9999.

So a send over FCM fails on nesting only. Over APNs it keeps what it promises
unless the answer is no 200 and its body is nested too deeply, is JSON but no
object, or dates a 410 with milliseconds that leave those years or come out of
the division half a microsecond off. Up to the year 2242 none does.
-/
namespace AikoIsland.PushReplies
open Tables Actuation FloatingPoint JsonText Payload Conversions ReapInstants Calls Transports

/-! ## Sending -/

section
variable (repr : Binary64 → String)

mutual

/-- A JSON value as the program holds it. -/
def valueOf : Json → Value
  | .null => .none
  | .bool b => .bool b
  | .int n => .int n
  | .float x => .float (repr x)
  | .str s => .str s
  | .arr xs => .list (valuesOf xs)
  | .obj items => .dict (itemsOf items)

def valuesOf : List Json → List Value
  | [] => []
  | x :: xs => valueOf x :: valuesOf xs

def itemsOf : List (Text × Json) → List (PyStr × Value)
  | [] => []
  | (key, x) :: items => (key, valueOf x) :: itemsOf items

end

/-- What the post of one push gives; a missing bearer gives no response either. -/
inductive Outcome where
  | noResponse
  | reply (status : ℕ) (content : Option Text)

/-- The answer with its body read, `except ValueError`. -/
def answered (status : ℕ) (body : Loads Json) : Answer :=
  match body with
  | .ok v => .response status (some (valueOf repr v))
  | .error e => if e = .recursionError then .raised else .response status none

variable (levels : ℕ)

/-- `apns.send`, which has no lifetime for the end of a call on an alert token and does not read
the body of a 200. -/
def apnsSend (kind : TokenKind) (wake : WakeKind) (outcome : Outcome) : Option SendResult :=
  match kind, wake with
  | .alert, .callEnd => none
  | .alert, .callInvite | .voip, .callInvite | .voip, .callEnd =>
      match outcome with
      | .noResponse => Apns.send .noResponse
      | .reply status content =>
          if status = 200 then Apns.send (.response status none)
          else Apns.send (answered repr status (responseJson levels content))

/-- `fcm.send`. -/
def fcmSend (outcome : Outcome) : Option SendResult :=
  match outcome with
  | .noResponse => Fcm.send .noResponse
  | .reply status content => Fcm.send (answered repr status (responseJson levels content))

/-- What `_send_one` sends; `none` when an exception leaves the transport. -/
def sendOne (d : PushDelivery) (wake : WakeKind) (outcome : Outcome) : Option SendResult :=
  match d with
  | .apns _ _ kind => apnsSend repr levels kind wake outcome
  | .fcm _ => fcmSend repr levels outcome

/-- The answer of a reply whose body is read. -/
def Outcome.answer (outcome : Outcome) : Answer :=
  match outcome with
  | .noResponse => .noResponse
  | .reply status content => answered repr status (responseJson levels content)

/-- What permits an order to delete the row: a 410 of APNs with an integer timestamp, whose
instant the order carries, or an `FcmError` of FCM. -/
def Permits (d : PushDelivery) (outcome : Outcome) (order : ReapOrder) : Prop :=
  match d with
  | .apns _ _ _ => ∃ ms, Apns.Death (outcome.answer repr levels) ms ∧
      order.notReregisteredSince = some (1000 * ms)
  | .fcm _ => Fcm.Detail (outcome.answer repr levels) "UNREGISTERED" ∧
      order.notReregisteredSince = none

/-- The send returns, and orders a row deleted only with permission. -/
def KeepsPromise (d : PushDelivery) (wake : WakeKind) (outcome : Outcome) : Prop :=
  ∃ r, sendOne repr levels d wake outcome = some r ∧
    ∀ order, r.reap = some order → Permits repr levels d outcome order

/-- The replies on which a transport fails. -/
def Upsets (d : PushDelivery) (outcome : Outcome) : Prop :=
  match d, outcome with
  | _, .noResponse => False
  | .apns _ _ _, .reply status content =>
      status ≠ 200 ∧
        match responseJson levels content with
        | .error e => e = .recursionError
        | .ok (.obj items) =>
            status = 410 ∧
              ∃ ms, Transports.field (itemsOf repr items) "timestamp" = .int ms ∧ ¬Datable ms
        | .ok _ => True
  | .fcm _, .reply _ content => responseJson levels content = .error .recursionError

end

/-! ## Sends that keep their promise -/

section
variable {repr : Binary64 → String} {levels : ℕ}

theorem invalidSinceMs_eq_some {d : List (PyStr × Value)} {ms : ℤ} :
    Apns.invalidSinceMs d = some ms ↔ Transports.field d "timestamp" = .int ms := by
  unfold Apns.invalidSinceMs
  cases Transports.field d "timestamp" <;> simp

/-- What a result of APNs needs of its timestamp. -/
theorem resultOf_iff (v : Verdict) (since : Option ℤ) :
    (∃ r, Apns.resultOf v since = some r ∧
        ∀ order, r.reap = some order → v = .deadToken ∧ ∃ ms, since = some ms ∧
          order.notReregisteredSince = some (1000 * ms)) ↔
      ¬(v = .deadToken ∧ ∃ ms, since = some ms ∧ ¬Datable ms) := by
  cases since with
  | none => simp [Apns.resultOf]
  | some ms =>
      unfold Apns.resultOf
      dsimp only
      by_cases hdead : v = .deadToken
      · rw [if_pos hdead]
        constructor
        · intro hkeeps hupset
          obtain ⟨r, hr, hpermits⟩ := hkeeps
          obtain ⟨t, ht, rfl⟩ := Option.map_eq_some_iff.mp hr
          obtain ⟨_, ms', hms', horder⟩ := hpermits _ rfl
          obtain ⟨_, ms'', hms'', hundatable⟩ := hupset
          cases hms'
          cases hms''
          apply hundatable
          rw [← reapInstant_eq_iff, ht]
          exact horder
        · intro hdatable
          have hms : Datable ms := by
            by_contra hundatable
            exact hdatable ⟨hdead, ms, rfl, hundatable⟩
          rw [(reapInstant_eq_iff ms).mpr hms]
          refine ⟨_, rfl, fun order horder => ⟨hdead, ms, rfl, ?_⟩⟩
          rw [← Option.some.inj horder]
      · rw [if_neg hdead]
        constructor
        · intro _ hupset
          exact hdead hupset.1
        · intro _
          exact ⟨_, rfl, by simp⟩

theorem verdict_eq_deadToken {status : ℕ} (h : status ≠ 200) :
    Apns.verdict status = .deadToken ↔ status = 410 := by
  constructor
  · exact Apns.status_of_deadToken
  · intro h410
    unfold Apns.verdict
    rw [if_neg h, if_pos h410]

/-- A 410 with an object is a death at the instant of its timestamp. -/
theorem death_iff {status : ℕ} {d : List (PyStr × Value)} {since : Option ℤ} :
    (∃ ms, Apns.Death (.response status (some (.dict d))) ms ∧ since = some (1000 * ms)) ↔
      status = 410 ∧ ∃ ms, Transports.field d "timestamp" = .int ms ∧ since = some (1000 * ms) := by
  constructor
  · intro h
    obtain ⟨ms, ⟨d', hanswer, hstamp⟩, hsince⟩ := h
    cases hanswer
    exact ⟨rfl, ms, hstamp, hsince⟩
  · intro h
    obtain ⟨rfl, ms, hstamp, hsince⟩ := h
    exact ⟨ms, ⟨d, rfl, hstamp⟩, hsince⟩

theorem apns_object_iff {status : ℕ} (hstatus : status ≠ 200) (d : List (PyStr × Value)) :
    (∃ r, Apns.send (.response status (some (.dict d))) = some r ∧
        ∀ order, r.reap = some order → ∃ ms, Apns.Death (.response status (some (.dict d))) ms ∧
          order.notReregisteredSince = some (1000 * ms)) ↔
      ¬(status = 410 ∧ ∃ ms, Transports.field d "timestamp" = .int ms ∧ ¬Datable ms) := by
  have hresult := resultOf_iff (Apns.verdict status) (Apns.invalidSinceMs d)
  simp only [verdict_eq_deadToken hstatus, invalidSinceMs_eq_some] at hresult
  unfold Apns.send
  dsimp only
  rw [if_neg hstatus]
  simp only [death_iff]
  exact hresult

/-- A send over APNs keeps its promise but on the replies that upset it. -/
theorem apns_iff (o : Observation) (environment : ApnsEnvironment) {kind : TokenKind}
    {wake : WakeKind} (hroutable : ¬(kind = .alert ∧ wake = .callEnd)) (outcome : Outcome) :
    KeepsPromise repr levels (.apns o environment kind) wake outcome ↔
      ¬Upsets repr levels (.apns o environment kind) outcome := by
  have hsend : sendOne repr levels (.apns o environment kind) wake outcome =
      match outcome with
      | .noResponse => Apns.send .noResponse
      | .reply status content =>
          if status = 200 then Apns.send (.response status none)
          else Apns.send (answered repr status (responseJson levels content)) := by
    unfold sendOne apnsSend
    cases kind with
    | voip => cases wake <;> rfl
    | alert =>
        cases wake with
        | callInvite => rfl
        | callEnd => exact absurd ⟨rfl, rfl⟩ hroutable
  unfold KeepsPromise
  rw [hsend]
  cases outcome with
  | noResponse => exact ⟨fun _ h => h, fun _ => ⟨_, rfl, by simp⟩⟩
  | reply status content =>
      dsimp only
      unfold Permits Upsets Outcome.answer
      by_cases hstatus : status = 200
      · rw [if_pos hstatus]
        constructor
        · intro _ hupset
          exact hupset.1 hstatus
        · intro _
          refine ⟨⟨.delivered, none⟩, ?_, by simp⟩
          unfold Apns.send
          dsimp only
          rw [if_pos hstatus]
      · rw [if_neg hstatus]
        dsimp only
        cases hbody : responseJson levels content with
        | error e =>
            dsimp only [answered]
            by_cases hdeep : e = .recursionError
            · rw [if_pos hdeep]
              constructor
              · intro hkeeps
                obtain ⟨r, hr, _⟩ := hkeeps
                cases hr
              · intro hcalm
                exact absurd ⟨hstatus, hdeep⟩ hcalm
            · rw [if_neg hdeep]
              constructor
              · intro _ hupset
                exact hdeep hupset.2
              · intro _
                refine ⟨⟨Apns.verdict status, none⟩, ?_, by simp⟩
                unfold Apns.send
                dsimp only
                rw [if_neg hstatus]
                rfl
        | ok v =>
            cases v with
            | obj items =>
                have hobject := apns_object_iff hstatus (itemsOf repr items)
                constructor
                · intro hkeeps hupset
                  exact hobject.mp hkeeps hupset.2
                · intro hcalm
                  exact hobject.mpr fun hupset => hcalm ⟨hstatus, hupset⟩
            | _ =>
                constructor
                · intro hkeeps
                  obtain ⟨r, hr, _⟩ := hkeeps
                  unfold Apns.send answered valueOf at hr
                  dsimp only at hr
                  rw [if_neg hstatus] at hr
                  cases hr
                · intro hcalm
                  exact absurd ⟨hstatus, trivial⟩ hcalm

/-- Reading FCM's answer is total: every value is asked for its type. -/
theorem exists_fcm_send {answer : Answer} (h : answer ≠ .raised) :
    ∃ r, Fcm.send answer = some r := by
  cases answer with
  | raised => exact absurd rfl h
  | noResponse => exact ⟨_, rfl⟩
  | response status body =>
      unfold Fcm.send
      dsimp only
      split_ifs
      · exact ⟨_, rfl⟩
      · exact ⟨_, rfl⟩
      · exact ⟨_, rfl⟩

theorem answered_eq_raised (repr : Binary64 → String) (status : ℕ) {body : Loads Json} :
    answered repr status body = .raised ↔ body = .error .recursionError := by
  cases body with
  | ok v => simp [answered]
  | error e => by_cases h : e = .recursionError <;> simp [answered, h]

theorem fcm_iff (o : Observation) (wake : WakeKind) (outcome : Outcome) :
    KeepsPromise repr levels (.fcm o) wake outcome ↔ ¬Upsets repr levels (.fcm o) outcome := by
  unfold KeepsPromise sendOne fcmSend
  cases outcome with
  | noResponse => exact ⟨fun _ h => h, fun _ => ⟨_, rfl, by simp⟩⟩
  | reply status content =>
      dsimp only
      unfold Permits Upsets Outcome.answer
      dsimp only
      rw [← answered_eq_raised repr status]
      constructor
      · intro hkeeps hraised
        obtain ⟨r, hr, _⟩ := hkeeps
        rw [hraised] at hr
        cases hr
      · intro hanswered
        obtain ⟨r, hr⟩ := exists_fcm_send hanswered
        exact ⟨r, hr, fun order horder => Fcm.detail_of_reap hr horder⟩

/-- What is planned for APNs has a lifetime there. -/
theorem routable_of_planned {rows : List DeviceToken} {wake : WakeKind}
    {configured : List Platform} {gate : Bool} {o : Observation} {environment : ApnsEnvironment}
    {kind : TokenKind} (h : .apns o environment kind ∈ planDeliveries rows wake configured gate) :
    ¬(kind = .alert ∧ wake = .callEnd) := by
  intro hcell
  obtain ⟨rfl, rfl⟩ := hcell
  obtain ⟨row, _, hplan⟩ := mem_planDeliveries.mp h
  rcases planRow_cases hplan with ⟨_, _, hd, _, _, _, hend⟩ | ⟨hd, _⟩
  · cases hd
    cases (hend rfl).1
  · cases hd

/-- Whatever a transport is answered for a planned delivery, it returns a result that orders no row
deleted without permission, but on exactly the replies that upset it. -/
theorem keepsPromise_iff {rows : List DeviceToken} {wake : WakeKind} {configured : List Platform}
    {gate : Bool} {d : PushDelivery} (hd : d ∈ planDeliveries rows wake configured gate)
    (repr : Binary64 → String) (levels : ℕ) (outcome : Outcome) :
    KeepsPromise repr levels d wake outcome ↔ ¬Upsets repr levels d outcome := by
  cases d with
  | apns o environment kind => exact apns_iff o environment (routable_of_planned hd) outcome
  | fcm o => exact fcm_iff o wake outcome

end

/-! ## An answer of each kind -/

def alertRow : DeviceToken where
  id := "d1"
  userId := "u1"
  platform := "apns"
  tokenKind := "alert"
  apnsEnvironment := "production"
  token := "ab"
  updatedAt := 0

def alertDelivery : PushDelivery := .apns ⟨"d1", "ab", 0⟩ .production .alert

theorem alertDelivery_planned :
    alertDelivery ∈ planDeliveries [alertRow] .callInvite [.apns] false := by
  decide

def goneContent : Text := codes "\x7b\"timestamp\":1700000000000\x7d"

/-- The body is an object of one timestamp. -/
def dates (ms : ℤ) : Loads Json → Bool
  | .ok (.obj [(key, .int found)]) => decide (key = codes "timestamp" ∧ found = ms)
  | _ => false

theorem of_dates {ms : ℤ} {r : Loads Json} (h : dates ms r = true) :
    r = .ok (.obj [(codes "timestamp", .int ms)]) := by
  unfold dates at h
  split at h
  · obtain ⟨rfl, rfl⟩ := of_decide_eq_true h
    rfl
  · cases h

theorem responseJson_goneContent :
    responseJson 10 (some goneContent) =
      .ok (.obj [(codes "timestamp", .int 1700000000000)]) := by
  -- the kernel runs the reader; the elaborator would unfold its digits
  apply of_dates
  decide +kernel

theorem a_dated_death_keeps_the_promise :
    KeepsPromise (fun _ => "") 10 alertDelivery .callInvite (.reply 410 (some goneContent)) := by
  rw [keepsPromise_iff alertDelivery_planned]
  unfold Upsets alertDelivery
  dsimp only
  rw [responseJson_goneContent]
  intro hupset
  obtain ⟨_, _, ms, hstamp, hundatable⟩ := hupset
  have hfield : Value.int 1700000000000 = .int ms := hstamp
  cases hfield
  exact hundatable (datable_of_small (by norm_num) (by norm_num))

/-- The body of a refusal may be a list. -/
theorem a_list_is_no_reply : ¬∀ (rows : List DeviceToken) (wake : WakeKind)
    (configured : List Platform) (gate : Bool), ∀ d ∈ planDeliveries rows wake configured gate,
    ∀ (repr : Binary64 → String) (levels : ℕ) (outcome : Outcome),
      KeepsPromise repr levels d wake outcome := by
  intro h
  obtain ⟨r, hr, _⟩ := h [alertRow] .callInvite [.apns] false alertDelivery alertDelivery_planned
    (fun _ => "") 10 (.reply 400 (some (codes "[]")))
  have hbody : responseJson 10 (some (codes "[]")) = .ok (.arr []) := by rfl
  have hraises : sendOne (fun _ => "") 10 alertDelivery .callInvite
      (.reply 400 (some (codes "[]"))) = none := by
    unfold sendOne alertDelivery apnsSend
    dsimp only
    rw [if_neg (by norm_num), hbody]
    rfl
  rw [hraises] at hr
  cases hr

end AikoIsland.PushReplies
