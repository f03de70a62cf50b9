import AikoIsland.SoloRun
import AikoIsland.Resolutions
import AikoIsland.Moderation

/-!
# Reports, takedowns and dismissals in turn

Any sequence of reports, takedowns and dismissals, each run to its end before
the next begins. `Effect` says once what a call can do to the store: nothing, a
new report, a dismissal, or a takedown, which stamps an unresolved report and
deletes its message, or finds the report already taken down, and in both cases
leaves the message with one retraction.

A message may have been deleted by something else, and a report may have been
resolved as taken down before there were retractions: `legacy` holds such
reports, and a takedown that returns takes its report out of them.
-/
namespace AikoIsland.Takedowns
open Tables Gateway WriterLock Accounts Moderation Resolutions

/-! ## The calls -/

inductive ModerationCall where
  | report (reporterId messageId : String) (reason : ReasonArg) (rowId : String)
  | takeDown (reportId moderatorId rid : String) (now : Time)
  | dismiss (reportId moderatorId : String) (now : Time)

def ModerationCall.body : ModerationCall → Body Unit
  | .report reporterId messageId reason rowId => do
      let _ ← reportMessage reporterId messageId reason rowId
  | .takeDown reportId moderatorId rid now => do
      let _ ← takeDownMessage reportId moderatorId rid now
  | .dismiss reportId moderatorId now => dismissReport reportId moderatorId now

/-- One call alone, in a session of its own: its result and the store it leaves. -/
def perform (mem : Memory) (db : Db) (call : ModerationCall) : Except Exn Unit × Db :=
  let (result, x) := call.body.session.run ⟨db, mem, none⟩
  (result, x.db)

def run (mem : Memory) (calls : List ModerationCall) (db : Db) : Db :=
  calls.foldl (fun db call => (perform mem db call).2) db

/-! ## What one call does -/

/-- The retractions of a takedown: the message has one, or gets its only one. -/
inductive Retracts (message : Message) (rid : String) (now : Time) :
    List Retraction → List Retraction → Prop
  | present {rows : List Retraction} (t : Retraction) (ht : t ∈ rows)
      (htarget : t.targetMsgId = message.id) : Retracts message rid now rows rows
  | added {rows : List Retraction} (hnone : ∀ t ∈ rows, t.targetMsgId ≠ message.id)
      (horder : message.id < rid) :
      Retracts message rid now rows (rows ++ [⟨rid, message.id, message.channelId, now⟩])

/-- The message of a takedown, which may have been deleted before. -/
def deletion (message : Message) (now : Time) : Message → Message :=
  if message.deletedAt.isNone then markDeleted message.id now else id

/-- What a call with this result made of the store. -/
inductive Effect (db : Db) : ModerationCall → Except Exn Unit → Db → Prop
  | refused {call : ModerationCall} (e : Exn) : Effect db call (.error e) db
  | reportedBefore {reporterId messageId : String} {reason : ReasonArg} {rowId : String} :
      Effect db (.report reporterId messageId reason rowId) (.ok ()) db
  | reported {reporterId messageId : String} {reason : ReasonArg} {r : ReportReason}
      {rowId : String} (hnew : ∀ x ∈ db.reports, x.id ≠ rowId) :
      Effect db (.report reporterId messageId reason rowId) (.ok ())
        { db with reports := db.reports ++ [newReport reporterId messageId r rowId] }
  | dismissedBefore {reportId moderatorId : String} {now : Time} :
      Effect db (.dismiss reportId moderatorId now) (.ok ()) db
  | dismissed {reportId moderatorId : String} {now : Time} (report : MessageReport)
      (hreport : report ∈ db.reports) (hid : report.id = reportId)
      (hopen : report.resolvedAt = none) :
      Effect db (.dismiss reportId moderatorId now) (.ok ())
        (resolved reportId moderatorId .dismissed now id db)
  | gone {reportId moderatorId rid : String} {now : Time} (report : MessageReport)
      (hreport : report ∈ db.reports) (hid : report.id = reportId)
      (htaken : takenDown report = true) (hgone : ∀ m ∈ db.messages, m.id ≠ report.messageId) :
      Effect db (.takeDown reportId moderatorId rid now) (.ok ()) db
  | takenDown {reportId moderatorId rid : String} {now : Time} (report : MessageReport)
      (message : Message) {rows : List Retraction} (hreport : report ∈ db.reports)
      (hid : report.id = reportId) (hopen : report.resolvedAt = none)
      (hmessage : message ∈ db.messages) (hmid : message.id = report.messageId)
      (hrows : Retracts message rid now db.retractions rows) :
      Effect db (.takeDown reportId moderatorId rid now) (.ok ())
        { resolved reportId moderatorId .takenDown now (deletion message now) db with
          retractions := rows }
  | healed {reportId moderatorId rid : String} {now : Time} (report : MessageReport)
      (message : Message) {rows : List Retraction} (hreport : report ∈ db.reports)
      (hid : report.id = reportId) (htaken : Resolutions.takenDown report = true)
      (hmessage : message ∈ db.messages) (hmid : message.id = report.messageId)
      (hrows : Retracts message rid now db.retractions rows) :
      Effect db (.takeDown reportId moderatorId rid now) (.ok ())
        { db with retractions := rows }

section
variable {mem : Memory} {db : Db}

theorem find?_eq_some_key {α : Type} (key : α → String) {rows : List α} {k : String} {x : α}
    (h : rows.find? (fun r => key r = k) = some x) : x ∈ rows ∧ key x = k :=
  ⟨List.mem_of_find?_eq_some h, by simpa using List.find?_some h⟩

theorem effect_report (reporterId messageId : String) (reason : ReasonArg) (rowId : String) :
    Effect db (.report reporterId messageId reason rowId)
      (perform mem db (.report reporterId messageId reason rowId)).1
      (perform mem db (.report reporterId messageId reason rowId)).2 := by
  unfold perform
  rw [Request.run_session]
  dsimp only [ModerationCall.body]
  rw [Request.run_bind]
  unfold reportMessage
  cases hreason : asReason reason with
  | error e => exact Effect.refused e
  | ok r =>
      dsimp only
      rw [Request.run_bind, select, Request.run_query]
      dsimp only [Point.view_mk_none]
      cases db.messages.find? fun m => m.id = messageId with
      | none => exact Effect.refused _
      | some message =>
          dsimp only
          rw [Request.run_bind, select, Request.run_query]
          dsimp only [Point.view_mk_none]
          cases db.reports.find? fun r =>
              r.messageId = messageId && r.reporterUserId = some reporterId with
          | some existing => exact Effect.reportedBefore
          | none =>
              dsimp only
              rw [Request.run_bind, flushOrRaise, flushOr, Request.run_bind, flush]
              cases hinsert : db.insertReport (newReport reporterId messageId r rowId) with
              | none =>
                  rw [Request.run_attempt_none hinsert]
                  exact Effect.refused _
              | some s =>
                  rw [Request.run_attempt_some hinsert]
                  obtain ⟨hnew, rfl⟩ := Db.insertReport_eq_some.mp hinsert
                  exact Effect.reported fun x hx => (hnew x hx).1

theorem effect_dismiss (reportId moderatorId : String) (now : Time) :
    Effect db (.dismiss reportId moderatorId now)
      (perform mem db (.dismiss reportId moderatorId now)).1
      (perform mem db (.dismiss reportId moderatorId now)).2 := by
  unfold perform
  rw [Request.run_session]
  dsimp only [ModerationCall.body]
  unfold dismissReport
  rw [Request.run_bind, select, Request.run_query]
  dsimp only [Point.view_mk_none]
  cases hfind : db.reports.find? fun r => r.id = reportId with
  | none => exact Effect.refused _
  | some report =>
      obtain ⟨hreport, hid⟩ := find?_eq_some_key MessageReport.id hfind
      dsimp only
      by_cases hopen : report.resolvedAt.isSome = true
      · rw [if_pos hopen]
        by_cases hdismissed : report.resolution = some .dismissed
        · rw [if_pos hdismissed]
          exact Effect.dismissedBefore
        · rw [if_neg hdismissed]
          exact Effect.refused _
      · rw [if_neg hopen, Request.run_bind, updateReport, Request.run_bind, execute,
          Request.run_exec]
        dsimp only [Point.view_mk_none]
        by_cases hrow : (db.reports.filter fun r => r.id = reportId).length = 1
        · rw [if_pos hrow]
          have hnone : report.resolvedAt = none := by simpa using hopen
          have hdb : resolved reportId moderatorId .dismissed now id db =
              { db with reports := db.reports.map (stamp reportId moderatorId .dismissed now) } := by
            rw [resolved, List.map_id]
          have heffect : Effect db (.dismiss reportId moderatorId now) (.ok ())
              (resolved reportId moderatorId .dismissed now id db) :=
            Effect.dismissed report hreport hid hnone
          rw [hdb] at heffect
          exact heffect
        · rw [if_neg hrow]
          exact Effect.refused _

/-! The tail of a takedown, and the two UPDATEs before it. -/

def ensureRetraction (existing : Option Retraction) (message : Message) (rid : String)
    (now : Time) : Body (Option Retraction) :=
  if existing.isNone then do
    flushOrRaise (fun db => db.insertRetraction ⟨rid, message.id, message.channelId, now⟩)
      (.retractionInsert message.id)
    commit
    return some ⟨rid, message.id, message.channelId, now⟩
  else do
    commit
    return none

theorem run_ensureRetraction {message : Message} {rid : String} {rows : List Retraction}
    (now : Time) (x : Point Db Memory) (hx : x.view.retractions = rows)
    (horder : (rows.find? fun t => t.targetMsgId = message.id).isNone = true →
      message.id < rid) :
    (∃ e, (ensureRetraction (rows.find? fun t => t.targetMsgId = message.id) message rid now).run x
        = (.error e, x.rolledBack)) ∨
      ∃ a rows', Retracts message rid now rows rows' ∧
        (ensureRetraction (rows.find? fun t => t.targetMsgId = message.id) message rid now).run x =
          (.ok a, { x with db := { x.view with retractions := rows' }, work := none }) := by
  subst hx
  unfold ensureRetraction
  cases hfind : x.view.retractions.find? fun t => t.targetMsgId = message.id with
  | none =>
      rw [hfind] at horder
      have hnone : ∀ t ∈ x.view.retractions, t.targetMsgId ≠ message.id := by
        simpa [List.find?_eq_none] using hfind
      rw [if_pos Option.isNone_none, Request.run_bind, flushOrRaise, flushOr, Request.run_bind, flush]
      cases hinsert : x.view.insertRetraction ⟨rid, message.id, message.channelId, now⟩ with
      | none =>
          left
          rw [Request.run_attempt_none hinsert]
          exact ⟨.integrityError, rfl⟩
      | some s =>
          right
          rw [Request.run_attempt_some hinsert]
          obtain ⟨_, rfl⟩ := Db.insertRetraction_eq_some.mp hinsert
          exact ⟨_, _, Retracts.added hnone (horder rfl), rfl⟩
  | some t =>
      right
      obtain ⟨ht, htarget⟩ := find?_eq_some_key Retraction.targetMsgId hfind
      rw [Option.isNone_some, if_neg Bool.false_ne_true]
      exact ⟨none, _, Retracts.present t ht htarget, rfl⟩

theorem run_updateReport (id : String) (f : MessageReport → MessageReport) (x : Point Db Memory) :
    (updateReport id f).run x =
      (if (x.view.reports.filter fun r => r.id = id).length = 1 then .ok ()
        else .error .staleDataError,
        { x with work := some { x.view with
          reports := x.view.reports.map fun r => if r.id = id then f r else r } }) := by
  rw [updateReport, Request.run_bind, execute, Request.run_exec]
  dsimp only
  split_ifs <;> rfl

theorem run_updateMessage (id : String) (f : Message → Message) (x : Point Db Memory) :
    (updateMessage id f).run x =
      (if (x.view.messages.filter fun m => m.id = id).length = 1 then .ok ()
        else .error .staleDataError,
        { x with work := some { x.view with
          messages := x.view.messages.map fun m => if m.id = id then f m else m } }) := by
  rw [updateMessage, Request.run_bind, execute, Request.run_exec]
  dsimp only
  split_ifs <;> rfl

/-- A body whose result is dropped, in a session. -/
theorem run_forget (r : Body (Option Retraction)) (x : Point Db Memory) :
    (do let _ ← r : Body Unit).session.run x =
      ((r.run x).1.map fun _ => (), (r.run x).2.rolledBack) := by
  rw [Request.run_session, Request.run_bind]
  cases r.run x with
  | mk result y => cases result <;> rfl

/-- The run of a call's statements has one of the effects of the call. -/
def Leaves {α : Type} (db : Db) (call : ModerationCall) (r : Except Exn α × Point Db Memory) :
    Prop :=
  Effect db call (r.1.map fun _ => ()) r.2.db

/-- The statements of a first takedown once its message has been seen to. -/
theorem leaves_firstTakedown {report : MessageReport} {message : Message}
    {moderatorId rid : String} {now : Time} (hreport : report ∈ db.reports)
    (hopen : report.resolvedAt = none) (hmessage : message ∈ db.messages)
    (hmid : message.id = report.messageId)
    (horder : (db.retractions.find? fun t => t.targetMsgId = message.id).isNone = true →
      message.id < rid) (x : Point Db Memory) (hxdb : x.db = db)
    (hx : x.view = { db with messages := db.messages.map (deletion message now) }) :
    Leaves db (.takeDown report.id moderatorId rid now) ((do
      updateReport report.id fun r =>
        { r with
          resolvedAt := some now
          resolution := some .takenDown
          resolvedByUserId := some moderatorId }
      ensureRetraction (db.retractions.find? fun t => t.targetMsgId = message.id) message rid
        now).run x) := by
  rw [Request.run_bind, run_updateReport]
  by_cases hrow : (x.view.reports.filter fun r => r.id = report.id).length = 1
  · rw [if_pos hrow, hx]
    dsimp only
    let y : Point Db Memory :=
      ⟨x.db, x.mem, some (resolved report.id moderatorId .takenDown now (deletion message now) db)⟩
    have hy : y.view.retractions = db.retractions := rfl
    rcases run_ensureRetraction now y hy horder with ⟨e, he⟩ | ⟨a, rows, hrows, ha⟩
    · have hleaves : Leaves db (.takeDown report.id moderatorId rid now)
          ((.error e : Except Exn (Option Retraction)), x.rolledBack) := by
        rw [Leaves, Point.rolledBack_db, hxdb]
        exact Effect.refused e
      exact he ▸ hleaves
    · have hleaves : Leaves db (.takeDown report.id moderatorId rid now)
          (Except.ok a, (⟨{ resolved report.id moderatorId .takenDown now (deletion message now) db
            with retractions := rows }, x.mem, none⟩ : Point Db Memory)) :=
        Effect.takenDown report message hreport rfl hopen hmessage hmid hrows
      exact ha ▸ hleaves
  · rw [if_neg hrow, Leaves, hxdb]
    exact Effect.refused _

theorem effect_takeDown (reportId moderatorId rid : String) (now : Time) :
    Effect db (.takeDown reportId moderatorId rid now)
      (perform mem db (.takeDown reportId moderatorId rid now)).1
      (perform mem db (.takeDown reportId moderatorId rid now)).2 := by
  unfold perform
  dsimp only [ModerationCall.body]
  rw [run_forget]
  change Leaves db _ ((takeDownMessage reportId moderatorId rid now).run ⟨db, mem, none⟩)
  unfold takeDownMessage
  rw [Request.run_bind, select, Request.run_query]
  dsimp only [Point.view_mk_none]
  cases hfind : db.reports.find? fun r => r.id = reportId with
  | none => exact Effect.refused _
  | some report =>
      obtain ⟨hreport, rfl⟩ := find?_eq_some_key MessageReport.id hfind
      have hdef : (report.resolvedAt.isSome && decide (report.resolution = some .takenDown)) =
          takenDown report := rfl
      dsimp only
      rw [hdef]
      by_cases hother : (report.resolvedAt.isSome && !takenDown report) = true
      · rw [if_pos hother]
        exact Effect.refused _
      rw [if_neg hother, Request.run_bind, select, Request.run_query]
      dsimp only [Point.view_mk_none]
      cases hmessage : db.messages.find? fun m => m.id = report.messageId with
      | none =>
          have hgone : ∀ m ∈ db.messages, m.id ≠ report.messageId := by
            simpa [List.find?_eq_none] using hmessage
          dsimp only
          by_cases htaken : takenDown report = true
          · rw [if_pos htaken]
            exact Effect.gone report hreport rfl htaken hgone
          · rw [if_neg htaken]
            exact Effect.refused _
      | some message =>
          obtain ⟨hmem, hmid⟩ := find?_eq_some_key Message.id hmessage
          dsimp only
          rw [Request.run_bind, select, Request.run_query]
          dsimp only [Point.view_mk_none]
          by_cases hclock : ((db.retractions.find? fun t => t.targetMsgId = message.id).isNone &&
              decide (rid ≤ message.id)) = true
          · rw [if_pos hclock]
            exact Effect.refused _
          have horder : (db.retractions.find? fun t => t.targetMsgId = message.id).isNone = true →
              message.id < rid := by
            intro hnone
            rw [hnone, Bool.true_and, decide_eq_true_iff] at hclock
            exact String.not_le.mp hclock
          rw [if_neg hclock]
          by_cases htaken : takenDown report = true
          · -- resolved before: nothing but a missing retraction
            rw [htaken, Bool.not_true, if_neg Bool.false_ne_true]
            change Leaves db _ ((ensureRetraction _ message rid now).run _)
            have hview : (⟨db, mem, none⟩ : Point Db Memory).view.retractions =
                db.retractions := rfl
            rcases run_ensureRetraction now _ hview horder with ⟨e, he⟩ | ⟨a, rows, hrows, ha⟩
            · rw [he]
              exact Effect.refused e
            · rw [ha]
              exact Effect.healed report message hreport rfl htaken hmem hmid hrows
          · rw [Bool.not_eq_true] at htaken
            rw [htaken, Bool.not_false, Bool.and_true, Bool.not_eq_true,
              Option.isSome_eq_false_iff] at hother
            have hopen : report.resolvedAt = none := Option.isNone_iff_eq_none.mp hother
            rw [htaken, Bool.not_false, if_pos rfl]
            by_cases hlive : message.deletedAt.isNone = true
            · rw [if_pos hlive, Request.run_bind, run_updateMessage]
              by_cases hrow : (db.messages.filter fun m => m.id = message.id).length = 1
              · rw [Point.view_mk_none, if_pos hrow]
                apply leaves_firstTakedown hreport hopen hmem hmid horder _ rfl
                rw [deletion, if_pos hlive]
                rfl
              · rw [Point.view_mk_none, if_neg hrow]
                exact Effect.refused _
            · rw [if_neg hlive]
              apply leaves_firstTakedown hreport hopen hmem hmid horder _ rfl
              rw [deletion, if_neg hlive, List.map_id]
              rfl

theorem effect (mem : Memory) (db : Db) (call : ModerationCall) :
    Effect db call (perform mem db call).1 (perform mem db call).2 := by
  cases call with
  | report reporterId messageId reason rowId =>
      exact effect_report reporterId messageId reason rowId
  | takeDown reportId moderatorId rid now => exact effect_takeDown reportId moderatorId rid now
  | dismiss reportId moderatorId now => exact effect_dismiss reportId moderatorId now

end

/-! ## Consistent stores -/

/-- What every sequence of calls keeps. The reports in `legacy` may be resolved as taken down
without a retraction of their message. -/
structure Consistent (legacy : Set String) (db : Db) : Prop where
  messageIds : (db.messages.map (·.id)).Nodup
  reportIds : (db.reports.map (·.id)).Nodup
  oneRetraction : (db.retractions.map (·.targetMsgId)).Nodup
  retractions : ∀ t ∈ db.retractions, ∃ m ∈ db.messages,
    m.id = t.targetMsgId ∧ m.id < t.id ∧ m.channelId = t.channelId
  resolutions : ∀ r ∈ db.reports, r.resolution.isSome = r.resolvedAt.isSome
  deleted : ∀ r ∈ db.reports, r.resolution = some .takenDown →
    ∃ m ∈ db.messages, m.id = r.messageId ∧ m.deletedAt.isSome = true
  retracted : ∀ r ∈ db.reports, r.resolution = some .takenDown → r.id ∉ legacy →
    ∃ t ∈ db.retractions, t.targetMsgId = r.messageId

theorem Consistent.mono {legacy legacy' : Set String} {db : Db} (h : Consistent legacy db)
    (hle : legacy ⊆ legacy') : Consistent legacy' db where
  messageIds := h.messageIds
  reportIds := h.reportIds
  oneRetraction := h.oneRetraction
  retractions := h.retractions
  resolutions := h.resolutions
  deleted := h.deleted
  retracted r hr htaken hnot := h.retracted r hr htaken fun hmem => hnot (hle hmem)

theorem nodup_append_key {α : Type} {key : α → String} {rows : List α} {x : α}
    (h : (rows.map key).Nodup) (hnew : ∀ y ∈ rows, key y ≠ key x) :
    ((rows ++ [x]).map key).Nodup := by
  rw [List.map_append, List.map_singleton, List.nodup_append]
  refine ⟨h, List.nodup_singleton _, fun k hk k' hk' => ?_⟩
  obtain ⟨y, hy, rfl⟩ := List.mem_map.mp hk
  rw [List.mem_singleton.mp hk']
  exact hnew y hy

theorem deletion_keeps (message : Message) (now : Time) (m : Message) :
    (deletion message now m).id = m.id ∧ (deletion message now m).channelId = m.channelId ∧
      (m.deletedAt.isSome = true → (deletion message now m).deletedAt.isSome = true) := by
  unfold deletion
  split_ifs
  · unfold markDeleted
    split_ifs
    · exact ⟨rfl, rfl, fun _ => rfl⟩
    · exact ⟨rfl, rfl, id⟩
  · exact ⟨rfl, rfl, id⟩

theorem deletion_self (message : Message) (now : Time) :
    (deletion message now message).deletedAt.isSome = true := by
  unfold deletion
  split_ifs with hlive
  · rw [markDeleted, if_pos rfl]
    rfl
  · rw [id_eq, ← Option.not_isNone, Bool.not_eq_true', ← Bool.not_eq_true]
    exact hlive

section
variable {legacy : Set String} {db : Db}

theorem consistent_reported (h : Consistent legacy db) {reporterId messageId rowId : String}
    {r : ReportReason} (hnew : ∀ x ∈ db.reports, x.id ≠ rowId) :
    Consistent legacy
      { db with reports := db.reports ++ [newReport reporterId messageId r rowId] } where
  messageIds := h.messageIds
  reportIds := nodup_append_key h.reportIds hnew
  oneRetraction := h.oneRetraction
  retractions := h.retractions
  resolutions x hx := by
    rcases List.mem_append.mp hx with hx | hx
    · exact h.resolutions x hx
    · rw [List.mem_singleton.mp hx]
      rfl
  deleted x hx htaken := by
    rcases List.mem_append.mp hx with hx | hx
    · exact h.deleted x hx htaken
    · rw [List.mem_singleton.mp hx] at htaken
      cases htaken
  retracted x hx htaken hnot := by
    rcases List.mem_append.mp hx with hx | hx
    · exact h.retracted x hx htaken hnot
    · rw [List.mem_singleton.mp hx] at htaken
      cases htaken

/-- A row of the stamped table, by the row it was. -/
theorem mem_stamped {reportId moderatorId : String} {resolution : ReportResolution} {now : Time}
    {x : MessageReport} {rows : List MessageReport}
    (hx : x ∈ rows.map (stamp reportId moderatorId resolution now)) :
    ∃ r ∈ rows, x.id = r.id ∧ x.messageId = r.messageId ∧
      (r.id = reportId ∧ x.resolution = some resolution ∧ x.resolvedAt = some now ∨ x = r) := by
  obtain ⟨r, hr, rfl⟩ := List.mem_map.mp hx
  by_cases hid : r.id = reportId
  · rw [stamp, if_pos hid]
    exact ⟨r, hr, rfl, rfl, Or.inl ⟨hid, rfl, rfl⟩⟩
  · rw [stamp, if_neg hid]
    exact ⟨r, hr, rfl, rfl, Or.inr rfl⟩

theorem nodup_stamped {reportId moderatorId : String} {resolution : ReportResolution} {now : Time}
    (h : (db.reports.map (·.id)).Nodup) :
    ((db.reports.map (stamp reportId moderatorId resolution now)).map (·.id)).Nodup := by
  rw [map_id_of_keeps stamp_id]
  exact h

theorem consistent_dismissed (h : Consistent legacy db) (reportId moderatorId : String)
    (now : Time) : Consistent legacy (resolved reportId moderatorId .dismissed now id db) := by
  have hmessages : (resolved reportId moderatorId .dismissed now id db).messages = db.messages :=
    List.map_id db.messages
  constructor
  · rw [hmessages]
    exact h.messageIds
  · exact nodup_stamped h.reportIds
  · exact h.oneRetraction
  · rw [hmessages]
    exact h.retractions
  · intro x hx
    obtain ⟨r, hr, _, _, ⟨_, hres, hat⟩ | rfl⟩ := mem_stamped hx
    · rw [hres, hat]
      rfl
    · exact h.resolutions x hr
  · intro x hx htaken
    rw [hmessages]
    obtain ⟨r, hr, _, _, ⟨_, hres, _⟩ | rfl⟩ := mem_stamped hx
    · rw [hres] at htaken
      cases htaken
    · exact h.deleted x hr htaken
  · intro x hx htaken hnot
    obtain ⟨r, hr, _, _, ⟨_, hres, _⟩ | rfl⟩ := mem_stamped hx
    · rw [hres] at htaken
      cases htaken
    · exact h.retracted x hr htaken hnot

/-- The stamp and the deletion of a first takedown, its retraction still to come. -/
theorem consistent_stamped (h : Consistent legacy db) {report : MessageReport} {message : Message}
    (hreport : report ∈ db.reports) (hmessage : message ∈ db.messages)
    (hmid : message.id = report.messageId) (moderatorId : String) (now : Time) :
    Consistent (insert report.id legacy)
      (resolved report.id moderatorId .takenDown now (deletion message now) db) := by
  have hkept : ∀ m ∈ db.messages, deletion message now m ∈
      (resolved report.id moderatorId .takenDown now (deletion message now) db).messages :=
    fun m hm => List.mem_map_of_mem hm
  constructor
  · change ((db.messages.map (deletion message now)).map (·.id)).Nodup
    rw [map_id_of_keeps fun m => (deletion_keeps message now m).1]
    exact h.messageIds
  · exact nodup_stamped h.reportIds
  · exact h.oneRetraction
  · intro t ht
    obtain ⟨m, hm, htarget, horder, hchannel⟩ := h.retractions t ht
    have hkeeps := deletion_keeps message now m
    refine ⟨_, hkept m hm, ?_, ?_, ?_⟩
    · rw [hkeeps.1, htarget]
    · rw [hkeeps.1]
      exact horder
    · rw [hkeeps.2.1, hchannel]
  · intro x hx
    obtain ⟨r, hr, _, _, ⟨_, hres, hat⟩ | rfl⟩ := mem_stamped hx
    · rw [hres, hat]
      rfl
    · exact h.resolutions x hr
  · intro x hx htaken
    obtain ⟨r, hr, _, hmsg, ⟨hid, _, _⟩ | rfl⟩ := mem_stamped hx
    · have hsame : r = report := List.inj_on_of_nodup_map h.reportIds hr hreport hid
      refine ⟨_, hkept message hmessage, ?_, deletion_self message now⟩
      rw [(deletion_keeps message now message).1, hmid, hmsg, hsame]
    · obtain ⟨m, hm, hm', hdeleted⟩ := h.deleted x hr htaken
      have hkeeps := deletion_keeps message now m
      exact ⟨_, hkept m hm, hkeeps.1.trans hm', hkeeps.2.2 hdeleted⟩
  · intro x hx htaken hnot
    obtain ⟨r, hr, hxr, hmsg, ⟨hid, _, _⟩ | rfl⟩ := mem_stamped hx
    · exact absurd (Or.inl (hxr.trans hid)) hnot
    · exact h.retracted x hr htaken fun hmem => hnot (Or.inr hmem)

/-- The one retraction of the message frees the reports on it. -/
theorem consistent_retracts {legacy' : Set String} (h : Consistent legacy db) {message m : Message}
    {rid : String} {now : Time} {rows : List Retraction} (hm : m ∈ db.messages)
    (hid : m.id = message.id) (hchannel : m.channelId = message.channelId)
    (hrows : Retracts message rid now db.retractions rows)
    (hfree : ∀ r ∈ db.reports, r.id ∈ legacy → r.id ∉ legacy' → r.messageId = message.id) :
    Consistent legacy' { db with retractions := rows } := by
  have htarget : ∃ t ∈ rows, t.targetMsgId = message.id := by
    cases hrows with
    | present t ht htarget => exact ⟨t, ht, htarget⟩
    | added => exact ⟨_, List.mem_append_right _ (List.mem_singleton_self _), rfl⟩
  have hkept : ∀ t ∈ db.retractions, t ∈ rows := by
    cases hrows with
    | present => exact fun t ht => ht
    | added => exact fun t ht => List.mem_append_left _ ht
  constructor
  · exact h.messageIds
  · exact h.reportIds
  · cases hrows with
    | present => exact h.oneRetraction
    | added hnone => exact nodup_append_key h.oneRetraction hnone
  · cases hrows with
    | present => exact h.retractions
    | added hnone horder =>
        intro t ht
        rcases List.mem_append.mp ht with ht | ht
        · exact h.retractions t ht
        · rw [List.mem_singleton.mp ht]
          exact ⟨m, hm, hid, hid ▸ horder, hchannel⟩
  · exact h.resolutions
  · exact h.deleted
  · intro r hr htaken hnot
    by_cases hlegacy : r.id ∈ legacy
    · rw [hfree r hr hlegacy hnot]
      exact htarget
    · obtain ⟨t, ht, htm⟩ := h.retracted r hr htaken hlegacy
      exact ⟨t, hkept t ht, htm⟩

/-- The exempt reports after a call: a takedown that returns has seen to its own. -/
def exempt (legacy : Set String) : ModerationCall → Except Exn Unit → Set String
  | .takeDown reportId _ _ _, .ok _ => legacy \ {reportId}
  | _, _ => legacy

theorem exempt_subset (call : ModerationCall) (result : Except Exn Unit) :
    exempt legacy call result ⊆ legacy := by
  unfold exempt
  split
  · exact Set.sdiff_subset
  · exact subset_rfl

/-- The step lemma: every call leaves a consistent store consistent. -/
theorem Effect.consistent {call : ModerationCall} {result : Except Exn Unit} {db' : Db}
    (h : Effect db call result db') (hdb : Consistent legacy db) :
    Consistent (exempt legacy call result) db' := by
  have hown : ∀ {report r : MessageReport}, report ∈ db.reports → r ∈ db.reports →
      r.id ∈ legacy → r.id ∉ legacy \ {report.id} → r = report := by
    intro report r hreport hr hmem hnot
    have hid : r.id = report.id := by
      by_contra hne
      exact hnot ⟨hmem, hne⟩
    exact List.inj_on_of_nodup_map hdb.reportIds hr hreport hid
  cases h with
  | refused e => cases call <;> exact hdb
  | reportedBefore => exact hdb
  | reported hnew => exact consistent_reported hdb hnew
  | dismissedBefore => exact hdb
  | dismissed report hreport hid hopen => exact consistent_dismissed hdb _ _ _
  | gone report hreport hid htaken hgone =>
      have hres : report.resolution = some .takenDown := by
        have hboth := htaken
        rw [Resolutions.takenDown, Bool.and_eq_true, decide_eq_true_iff] at hboth
        exact hboth.2
      obtain ⟨m, hm, hmid, _⟩ := hdb.deleted report hreport hres
      exact absurd hmid (hgone m hm)
  | takenDown report message hreport hid hopen hmessage hmid hrows =>
      subst hid
      have hkeeps := deletion_keeps message ‹Time› message
      apply consistent_retracts (consistent_stamped hdb hreport hmessage hmid _ _)
        (List.mem_map_of_mem hmessage) hkeeps.1 hkeeps.2.1 hrows
      intro x hx hmem hnot
      obtain ⟨r, hr, hxr, hmsg, _⟩ := mem_stamped hx
      rw [hxr] at hmem hnot
      have hsame : r = report := by
        rcases hmem with hmem | hmem
        · exact List.inj_on_of_nodup_map hdb.reportIds hr hreport hmem
        · exact hown hreport hr hmem hnot
      rw [hmsg, hsame, hmid]
  | healed report message hreport hid htaken hmessage hmid hrows =>
      subst hid
      apply consistent_retracts hdb hmessage rfl rfl hrows
      intro r hr hmem hnot
      rw [hown hreport hr hmem hnot, hmid]

/-- A resolved report outlives every call as it is. -/
theorem Effect.keeps {call : ModerationCall} {result : Except Exn Unit} {db' : Db}
    (h : Effect db call result db') (hdb : Consistent legacy db) {r : MessageReport}
    (hr : r ∈ db.reports) (hres : r.resolution.isSome = true) : r ∈ db'.reports := by
  have hstamped : ∀ {report : MessageReport} {moderatorId : String}
      {resolution : ReportResolution} {now : Time}, report ∈ db.reports →
      report.resolvedAt = none →
      r ∈ db.reports.map (stamp report.id moderatorId resolution now) := by
    intro report moderatorId resolution now hreport hopen
    have hne : r.id ≠ report.id := by
      intro hid
      have hsame : r = report := List.inj_on_of_nodup_map hdb.reportIds hr hreport hid
      rw [hdb.resolutions r hr, hsame, hopen] at hres
      cases hres
    have hkept : stamp report.id moderatorId resolution now r = r := by
      rw [stamp, if_neg hne]
    exact List.mem_map.mpr ⟨r, hr, hkept⟩
  cases h with
  | refused => exact hr
  | reportedBefore => exact hr
  | reported => exact List.mem_append_left _ hr
  | dismissedBefore => exact hr
  | dismissed report hreport hid hopen =>
      subst hid
      exact hstamped hreport hopen
  | gone => exact hr
  | takenDown report message hreport hid hopen =>
      subst hid
      exact hstamped hreport hopen
  | healed => exact hr

theorem Effect.refusal {call : ModerationCall} {result : Except Exn Unit} {db' : Db} {e : Exn}
    (h : Effect db call result db') (he : result = .error e) : db' = db := by
  cases h with
  | refused => rfl
  | reportedBefore => cases he
  | reported => cases he
  | dismissedBefore => cases he
  | dismissed => cases he
  | gone => cases he
  | takenDown => cases he
  | healed => cases he

theorem Effect.dismissal {reportId moderatorId : String} {now : Time}
    {result : Except Exn Unit} {db' : Db}
    (h : Effect db (.dismiss reportId moderatorId now) result db') :
    db'.messages = db.messages ∧ db'.retractions = db.retractions := by
  cases h with
  | refused => exact ⟨rfl, rfl⟩
  | dismissedBefore => exact ⟨rfl, rfl⟩
  | dismissed => exact ⟨List.map_id db.messages, rfl⟩

/-! ## Sequences of calls -/

theorem run_consistent (hdb : Consistent legacy db) (mem : Memory) (calls : List ModerationCall) :
    Consistent legacy (run mem calls db) := by
  induction calls generalizing db with
  | nil => exact hdb
  | cons call calls ih =>
      apply ih
      exact ((effect mem db call).consistent hdb).mono (exempt_subset call _)

theorem run_keeps (hdb : Consistent legacy db) (mem : Memory) (calls : List ModerationCall)
    {r : MessageReport} (hr : r ∈ db.reports) (hres : r.resolution.isSome = true) :
    r ∈ (run mem calls db).reports := by
  induction calls generalizing db with
  | nil => exact hr
  | cons call calls ih =>
      have hstep := effect mem db call
      exact ih ((hstep.consistent hdb).mono (exempt_subset call _)) (hstep.keeps hdb hr hres)

/-- After any sequence of calls: the store is consistent; no later call changes a resolution; a
call that raises changes nothing, a dismissal no message and no retraction, and a takedown that
returns leaves its message retracted. -/
theorem takedown_consistency (hdb : Consistent legacy db) (mem : Memory)
    (calls : List ModerationCall) :
    let a := run mem calls db
    Consistent legacy a ∧
      (∀ later, ∀ r ∈ a.reports, r.resolution.isSome = true → r ∈ (run mem later a).reports) ∧
      (∀ call e, (perform mem a call).1 = .error e → (perform mem a call).2 = a) ∧
      (∀ reportId moderatorId now,
        (perform mem a (.dismiss reportId moderatorId now)).2.messages = a.messages ∧
        (perform mem a (.dismiss reportId moderatorId now)).2.retractions = a.retractions) ∧
      ∀ reportId moderatorId rid now,
        (perform mem a (.takeDown reportId moderatorId rid now)).1 = .ok () →
        Consistent (legacy \ {reportId})
          (perform mem a (.takeDown reportId moderatorId rid now)).2 := by
  intro a
  have ha : Consistent legacy a := run_consistent hdb mem calls
  have hrefused : ∀ call e, (perform mem a call).1 = .error e → (perform mem a call).2 = a :=
    fun call e he => (effect mem a call).refusal he
  have hhealed : ∀ reportId moderatorId rid now,
      (perform mem a (.takeDown reportId moderatorId rid now)).1 = .ok () →
      Consistent (legacy \ {reportId})
        (perform mem a (.takeDown reportId moderatorId rid now)).2 := by
    intro reportId moderatorId rid now hok
    have hstep := (effect mem a (.takeDown reportId moderatorId rid now)).consistent ha
    rw [hok] at hstep
    exact hstep
  exact ⟨ha, fun later r hr hres => run_keeps ha mem later hr hres, hrefused,
    fun reportId moderatorId now => (effect mem a _).dismissal, hhealed⟩

end

theorem consistent_reportedStore : Consistent ∅ reportedStore := by
  constructor
  · decide
  · decide
  · decide
  · exact fun t ht => absurd ht List.not_mem_nil
  · decide
  · decide
  · simp [reportedStore]

/-- Two reports of one message, taken down in turn, and a dismissal that comes too late. -/
theorem takedown_consistency_reported :
    let a := run {} [.takeDown "R" "A" "N" 5, .dismiss "R" "B" 6,
      .report "U" "M" (.str (codes "spam")) "S", .takeDown "S" "A" "P" 7] reportedStore
    a.reports.map (·.resolution) = [some .takenDown, some .takenDown] ∧
      a.retractions.map (·.id) = ["N"] ∧ Consistent ∅ a := by
  refine ⟨by decide +kernel, by decide +kernel, ?_⟩
  exact (takedown_consistency consistent_reportedStore {} _).1

end AikoIsland.Takedowns
