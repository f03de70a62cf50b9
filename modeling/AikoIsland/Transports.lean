import AikoIsland.Actuation
import AikoIsland.ReapInstants

/-!
# The push transports: verdicts and orders to reap

Each transport reduces one answer of its provider to a verdict and, where the
answer proves the device gone, an order to delete the row. APNs proves it with a
410 whose body dates the death; FCM with an `FcmError` detail, which dates
nothing.

An answer is what posting one push gives. Headers, the request itself, logging
and the state of the FCM credential are left out: no bearer is an answer without
a response. Where the milliseconds of a death have no instant, `_reap_order`
raises.
-/
namespace AikoIsland.Transports
open Tables Actuation
open ReapInstants (reapInstant)

inductive Verdict where
  | delivered
  | deadToken
  | rejected
  | transient
  deriving DecidableEq, Repr

/-- Permission to delete one row; without an instant it dates nothing. -/
structure ReapOrder where
  notReregisteredSince : Option ℤ
  deriving DecidableEq, Repr

structure SendResult where
  verdict : Verdict
  reap : Option ReapOrder := none
  deriving DecidableEq, Repr

/-- `raised` is any exception that leaves `send`; a body that is no JSON is `none`. -/
inductive Answer where
  | raised
  | noResponse
  | response (status : ℕ) (body : Option Value)

/-- `d.get(key)`. -/
def field (d : List (PyStr × Value)) (key : String) : Value :=
  (OrderedDict.get d (codes key)).getD .none

def isText (v : Value) (text : String) : Bool :=
  match v with
  | .str s => s = codes text
  | _ => false

theorem isText_iff {v : Value} {text : String} : isText v text = true ↔ v = .str (codes text) := by
  cases v <;> simp [isText]

/-! ## APNs -/

namespace Apns

/-- `_verdict`; the reason is not consulted. -/
def verdict (status : ℕ) : Verdict :=
  if status = 200 then .delivered
  else if status = 410 then .deadToken
  else if status = 429 || 500 ≤ status then .transient
  else .rejected

/-- The `timestamp` of a body, if it is an `int` and no `bool`. -/
def invalidSinceMs (d : List (PyStr × Value)) : Option ℤ :=
  match field d "timestamp" with
  | .int ms => some ms
  | _ => none

/-- `_reap_order`, after the verdict. -/
def resultOf (v : Verdict) (invalidSince : Option ℤ) : Option SendResult :=
  match invalidSince with
  | none => some ⟨v, none⟩
  | some ms =>
      if v = .deadToken then (reapInstant ms).map fun t => ⟨v, some ⟨some t⟩⟩
      else some ⟨v, none⟩

/-- `send` after the post; a body that is no dict has no `get`. -/
def send : Answer → Option SendResult
  | .raised => none
  | .noResponse => some ⟨.transient, none⟩
  | .response status body =>
      if status = 200 then some ⟨.delivered, none⟩
      else
        match body with
        | none => resultOf (verdict status) none
        | some (.dict d) => resultOf (verdict status) (invalidSinceMs d)
        | some _ => none

/-- A 410 whose body dates the death with integer milliseconds. -/
def Death (answer : Answer) (ms : ℤ) : Prop :=
  ∃ d, answer = .response 410 (some (.dict d)) ∧ field d "timestamp" = .int ms

theorem status_of_deadToken {status : ℕ} (h : verdict status = .deadToken) : status = 410 := by
  unfold verdict at h
  split_ifs at h with h₁ h₂ h₃
  exact h₂

theorem resultOf_reap {v : Verdict} {ms : Option ℤ} {r : SendResult} {order : ReapOrder}
    (h : resultOf v ms = some r) (hr : r.reap = some order) :
    v = .deadToken ∧ ∃ m t, ms = some m ∧ reapInstant m = some t ∧ order = ⟨some t⟩ := by
  cases ms with
  | none =>
      obtain rfl := Option.some.inj h
      cases hr
  | some m =>
      unfold resultOf at h
      dsimp only at h
      split_ifs at h with hv
      · obtain ⟨t, ht, rfl⟩ := Option.map_eq_some_iff.mp h
        exact ⟨hv, m, t, rfl, ht, (Option.some.inj hr).symm⟩
      · obtain rfl := Option.some.inj h
        cases hr

/-- APNs orders a row deleted on a dated 410 only, and the order carries its instant. -/
theorem death_of_reap {answer : Answer} {r : SendResult} {order : ReapOrder}
    (h : send answer = some r) (hr : r.reap = some order) :
    ∃ ms t, Death answer ms ∧ reapInstant ms = some t ∧ order.notReregisteredSince = some t := by
  cases answer with
  | raised => cases h
  | noResponse =>
      obtain rfl := Option.some.inj h
      cases hr
  | response status body =>
      unfold send at h
      dsimp only at h
      split_ifs at h with hok
      · obtain rfl := Option.some.inj h
        cases hr
      · cases body with
        | none =>
            obtain ⟨_, m, _, hm, _⟩ := resultOf_reap h hr
            cases hm
        | some body =>
            cases body with
            | dict d =>
                obtain ⟨hdead, m, t, hm, ht, rfl⟩ := resultOf_reap h hr
                have hstamp : field d "timestamp" = .int m := by
                  unfold invalidSinceMs at hm
                  split at hm
                  · rename_i hfield
                    rw [hfield, Option.some.inj hm]
                  · cases hm
                exact ⟨m, t, ⟨d, by rw [status_of_deadToken hdead], hstamp⟩, ht, rfl⟩
            | _ => cases h

end Apns

/-! ## FCM -/

namespace Fcm

def errorType : String := "type.googleapis.com/google.firebase.fcm.v1.FcmError"

/-- The code of the first `FcmError` among the details. -/
def detailCode : List Value → PyStr
  | [] => []
  | .dict d :: rest =>
      if isText (field d "@type") errorType then
        match field d "errorCode" with
        | .str code => code
        | _ => []
      else detailCode rest
  | _ :: rest => detailCode rest

/-- `_fcm_error_code`, which is empty where there is no `FcmError`. -/
def errorCode (body : Value) : PyStr :=
  match body with
  | .dict d =>
      match field d "error" with
      | .dict error =>
          match field error "details" with
          | .list details => detailCode details
          | _ => []
      | _ => []
  | _ => []

def rpcStatus (body : Value) : Value :=
  match body with
  | .dict d =>
      match field d "error" with
      | .dict error => field error "status"
      | _ => .none
  | _ => .none

/-- `classify_send` gives `Refused` or `Denied`: the answer is about the island. -/
def authWide (status : ℕ) (body : Value) : Bool :=
  status = 401 ||
    (status = 403 && isText (rpcStatus body) "PERMISSION_DENIED" && errorCode body = [])

def verdict (status : ℕ) (code : PyStr) : Verdict :=
  if status = 200 then .delivered
  else if code = codes "UNREGISTERED" then .deadToken
  else if status = 429 || 500 ≤ status then .transient
  else .rejected

def reapOrderFor (v : Verdict) : Option ReapOrder :=
  if v = .deadToken then some ⟨none⟩ else none

def send : Answer → Option SendResult
  | .raised => none
  | .noResponse => some ⟨.transient, none⟩
  | .response status body =>
      let body := body.getD .none
      if status = 200 then some ⟨.delivered, none⟩
      else
        let v := if authWide status body then .transient else verdict status (errorCode body)
        some ⟨v, reapOrderFor v⟩

/-- The error details of the answer hold an `FcmError` of this code. -/
def Detail (answer : Answer) (code : String) : Prop :=
  ∃ status d error details detail, answer = .response status (some (.dict d)) ∧
    field d "error" = .dict error ∧ field error "details" = .list details ∧
    .dict detail ∈ details ∧ field detail "@type" = .str (codes errorType) ∧
    field detail "errorCode" = .str (codes code)

theorem detail_of_detailCode {details : List Value} {code : PyStr} (hcode : code ≠ [])
    (h : detailCode details = code) :
    ∃ detail, .dict detail ∈ details ∧ field detail "@type" = .str (codes errorType) ∧
      field detail "errorCode" = .str code := by
  induction details with
  | nil => exact absurd h.symm hcode
  | cons v rest ih =>
      have hlater : detailCode rest = code → ∃ detail, .dict detail ∈ v :: rest ∧
          field detail "@type" = .str (codes errorType) ∧ field detail "errorCode" = .str code := by
        intro hrest
        obtain ⟨detail, hmem, htype, herror⟩ := ih hrest
        exact ⟨detail, List.mem_cons_of_mem v hmem, htype, herror⟩
      cases v with
      | dict d =>
          unfold detailCode at h
          split_ifs at h with htype
          · have herror : field d "errorCode" = .str code := by
              split at h
              · rename_i hfield
                rw [hfield, h]
              · exact absurd h.symm hcode
            exact ⟨d, List.mem_cons_self, isText_iff.mp htype, herror⟩
          · exact hlater h
      | _ => exact hlater h

/-- FCM orders a row deleted on an `UNREGISTERED` detail only, without an instant. -/
theorem detail_of_reap {answer : Answer} {r : SendResult} {order : ReapOrder}
    (h : send answer = some r) (hr : r.reap = some order) :
    Detail answer "UNREGISTERED" ∧ order.notReregisteredSince = none := by
  cases answer with
  | raised => cases h
  | noResponse =>
      obtain rfl := Option.some.inj h
      cases hr
  | response status body =>
      unfold send at h
      dsimp only at h
      split_ifs at h with hok hauth
      · obtain rfl := Option.some.inj h
        cases hr
      · obtain rfl := Option.some.inj h
        cases hr
      · obtain rfl := Option.some.inj h
        have hdead : verdict status (errorCode (body.getD .none)) = .deadToken := by
          by_contra hne
          simp [reapOrderFor, hne] at hr
        have hcode : errorCode (body.getD .none) = codes "UNREGISTERED" := by
          by_contra hne
          unfold verdict at hdead
          rw [if_neg hok, if_neg hne] at hdead
          split_ifs at hdead
        have hsome : codes "UNREGISTERED" ≠ [] := by decide
        constructor
        · unfold errorCode at hcode
          split at hcode
          · rename_i d hbody
            split at hcode
            · rename_i error herror
              split at hcode
              · rename_i details hdetails
                obtain ⟨detail, hmem, htype, hfield⟩ := detail_of_detailCode hsome hcode
                have hsent : body = some (.dict d) := by
                  cases body with
                  | none => cases hbody
                  | some b => exact congrArg some hbody
                exact ⟨status, d, error, details, detail, by rw [hsent], herror, hdetails, hmem,
                  htype, hfield⟩
              · exact absurd hcode.symm hsome
            · exact absurd hcode.symm hsome
          · exact absurd hcode.symm hsome
        · rw [reapOrderFor, if_pos hdead] at hr
          rw [← Option.some.inj hr]

end Fcm

end AikoIsland.Transports
