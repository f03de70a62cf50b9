import AikoIsland.Accounts

/-!
# Reports of messages

`moderation_service.report_message`. The reason is coerced first and fails
closed; then the message and the reporter's standing report are looked up, each
by a SELECT that takes no lock, and a new row is inserted and committed. Whether
the reporter may see the message is the route's question, asked before.
-/
namespace AikoIsland.Moderation
open Tables Gateway WriterLock

/-- `ReportReason.value`. -/
def reasonValue : ReportReason → String
  | .spam => "spam"
  | .harassment => "harassment"
  | .hate => "hate"
  | .violence => "violence"
  | .sexual => "sexual"
  | .other => "other"

def reportReasons : List ReportReason :=
  [.spam, .harassment, .hate, .violence, .sexual, .other]

/-- `ReportReason | str`. -/
inductive ReasonArg where
  | member (reason : ReportReason)
  | str (reason : PyStr)
  deriving DecidableEq, Repr

/-- `_as_reason`. -/
def asReason : ReasonArg → Except Exn ReportReason
  | .member reason => .ok reason
  | .str reason =>
      match reportReasons.find? fun r => codes (reasonValue r) = reason with
      | some r => .ok r
      | none => .error (.unknownReportReason reason)

/-- A reason is accepted as a string exactly when it is the value of a member. -/
theorem asReason_str {s : PyStr} {r : ReportReason} :
    asReason (.str s) = .ok r ↔ s = codes (reasonValue r) := by
  constructor
  · intro h
    rw [asReason] at h
    cases hfind : reportReasons.find? fun r => codes (reasonValue r) = s with
    | none =>
        rw [hfind] at h
        cases h
    | some r' =>
        rw [hfind] at h
        cases h
        have hvalue := List.find?_some hfind
        exact (of_decide_eq_true hvalue).symm
  · rintro rfl
    cases r <;> decide

def newReport (reporterId messageId : String) (reason : ReportReason) (rowId : String) :
    MessageReport where
  id := rowId
  messageId := messageId
  reporterUserId := some reporterId
  reason := reason

/-- `report_message`; `rowId` is the minted id. -/
def reportMessage (reporterId messageId : String) (reason : ReasonArg) (rowId : String) :
    Body MessageReport := do
  match asReason reason with
  | .error e => throwExn e
  | .ok reason =>
      match ← select fun db => db.messages.find? fun m => m.id = messageId with
      | none => throwExn .messageNotFound
      | some _ =>
          match ← select fun db => db.reports.find? fun r =>
              r.messageId = messageId && r.reporterUserId = some reporterId with
          | some existing => return existing
          | none =>
              let row := newReport reporterId messageId reason rowId
              flushOrRaise (fun db => db.insertReport row) (.reportInsert messageId reporterId)
              commit
              return row

end AikoIsland.Moderation
