import AikoIsland.Publishing
import AikoIsland.Accounts

/-!
# Reports resolve once

Any number of takedowns and dismissals by any moderators over any reports,
interleaved statement by statement. Both read the report, the takedown also the
message and its retraction, before the first statement that writes; the writes
name rows by primary key and repeat none of these conditions.

So the results are about the runs in which every UPDATE of a report still finds
it unresolved, and every INSERT of a retraction finds none for its message. In
those a resolution is written once, a message has one retraction at most, and it
is deleted exactly when one of its reports is resolved as taken down. In others
two takedowns of one report stamp it twice and retract its message twice.
-/
namespace AikoIsland.Resolutions
open Tables Gateway WriterLock RelyGuarantee Footprint Publishing Accounts

/-! ## The requests -/

inductive ModerationRequest where
  | takeDown (reportId moderatorId rid : String) (now : Time)
  | dismiss (reportId moderatorId : String) (now : Time)

def ModerationRequest.body : ModerationRequest → Body (Option Retraction)
  | .takeDown reportId moderatorId rid now =>
      (takeDownMessage reportId moderatorId rid now).session
  | .dismiss reportId moderatorId now =>
      (dismissReport reportId moderatorId now >>= fun _ => return none).session

/-- The condition on steps: what the reads found is still so when the row is written. -/
def unresolvedAtWrite : Label → Point Db Memory → Bool
  | .reportUpdate reportId, x =>
      x.view.reports.all fun r => r.id ≠ reportId || r.resolvedAt.isNone
  | .retractionInsert target, x => x.view.retractions.all fun r => r.targetMsgId ≠ target
  | _, _ => true

/-! ## Rows over time -/

def takenDown (r : MessageReport) : Bool :=
  r.resolvedAt.isSome && r.resolution = some .takenDown

/-- A report keeps its key and its message, and once resolved it stays as it is. -/
structure KeepsReport (r r' : MessageReport) : Prop where
  id : r'.id = r.id
  message : r'.messageId = r.messageId
  resolved : r.resolvedAt.isSome = true → r' = r

/-- A message keeps its key and stays deleted. -/
structure KeepsMessage (m m' : Message) : Prop where
  id : m'.id = m.id
  deleted : m.deletedAt.isSome = true → m'.deletedAt.isSome = true

/-- Row by row, in both tables. -/
structure Evolves (a b : Db) : Prop where
  reports : List.Forall₂ KeepsReport a.reports b.reports
  messages : List.Forall₂ KeepsMessage a.messages b.messages

/-- What every committed store satisfies: keys are unique, no message has two retractions, and
a message is deleted exactly when a report on it is resolved as taken down. -/
structure Sound (db : Db) : Prop where
  messageIds : (db.messages.map (·.id)).Nodup
  reportIds : (db.reports.map (·.id)).Nodup
  retractions : (db.retractions.map (·.targetMsgId)).Nodup
  deletions : ∀ m ∈ db.messages, m.deletedAt.isSome = true ↔
    ∃ r ∈ db.reports, r.messageId = m.id ∧ takenDown r = true

theorem KeepsReport.refl (r : MessageReport) : KeepsReport r r := ⟨rfl, rfl, fun _ => rfl⟩

theorem KeepsMessage.refl (m : Message) : KeepsMessage m m := ⟨rfl, fun h => h⟩

theorem KeepsReport.trans {r r' r'' : MessageReport} (h : KeepsReport r r')
    (h' : KeepsReport r' r'') : KeepsReport r r'' where
  id := h'.id.trans h.id
  message := h'.message.trans h.message
  resolved hr := by
    obtain rfl := h.resolved hr
    exact h'.resolved hr

theorem KeepsMessage.trans {m m' m'' : Message} (h : KeepsMessage m m')
    (h' : KeepsMessage m' m'') : KeepsMessage m m'' :=
  ⟨h'.id.trans h.id, fun hm => h'.deleted (h.deleted hm)⟩

theorem forall₂_trans {α : Type} {R : α → α → Prop} (hR : ∀ {a b c}, R a b → R b c → R a c)
    {xs ys zs : List α} (h : List.Forall₂ R xs ys) (h' : List.Forall₂ R ys zs) :
    List.Forall₂ R xs zs := by
  induction h generalizing zs with
  | nil => exact h'
  | cons hab _ ih =>
      cases h' with
      | cons hbc hrest => exact List.Forall₂.cons (hR hab hbc) (ih hrest)

theorem Evolves.refl (a : Db) : Evolves a a :=
  ⟨List.forall₂_same.mpr fun r _ => KeepsReport.refl r,
    List.forall₂_same.mpr fun m _ => KeepsMessage.refl m⟩

theorem Evolves.trans {a b c : Db} (h : Evolves a b) (h' : Evolves b c) : Evolves a c :=
  ⟨forall₂_trans (fun hab hbc => hab.trans hbc) h.reports h'.reports,
    forall₂_trans (fun hab hbc => hab.trans hbc) h.messages h'.messages⟩

theorem exists_of_forall₂ {α : Type} {R : α → α → Prop} {xs ys : List α}
    (h : List.Forall₂ R xs ys) {x : α} (hx : x ∈ xs) : ∃ y ∈ ys, R x y := by
  induction h with
  | nil => cases hx
  | @cons a b xs ys hab _ ih =>
      rcases List.mem_cons.mp hx with rfl | hx
      · exact ⟨b, List.mem_cons_self, hab⟩
      · obtain ⟨y, hy, hR⟩ := ih hx
        exact ⟨y, List.mem_cons_of_mem b hy, hR⟩

/-- A report that was read is still the one under its key, about the same message. -/
theorem Evolves.report {a b : Db} (h : Evolves a b) (hb : Sound b) {r₀ r : MessageReport}
    (h₀ : r₀ ∈ a.reports) (hr : r ∈ b.reports) (hid : r.id = r₀.id) :
    r.messageId = r₀.messageId := by
  obtain ⟨r', hr', hkeeps⟩ := exists_of_forall₂ h.reports h₀
  obtain rfl : r = r' := List.inj_on_of_nodup_map hb.reportIds hr hr' (hid.trans hkeeps.id.symm)
  exact hkeeps.message

/-- A message that was read as deleted still is. -/
theorem Evolves.deleted {a b : Db} (h : Evolves a b) (hb : Sound b) {m₀ m : Message}
    (h₀ : m₀ ∈ a.messages) (hdeleted : m₀.deletedAt.isSome = true) (hm : m ∈ b.messages)
    (hid : m.id = m₀.id) : m.deletedAt.isSome = true := by
  obtain ⟨m', hm', hkeeps⟩ := exists_of_forall₂ h.messages h₀
  obtain rfl : m = m' := List.inj_on_of_nodup_map hb.messageIds hm hm' (hid.trans hkeeps.id.symm)
  exact hkeeps.deleted hdeleted

/-! ## What one request writes -/

def stamp (reportId moderatorId : String) (resolution : ReportResolution) (now : Time)
    (r : MessageReport) : MessageReport :=
  if r.id = reportId then
    { r with
      resolvedAt := some now
      resolution := some resolution
      resolvedByUserId := some moderatorId }
  else r

/-- An UPDATE of messages that deletes some rows and keeps the others. -/
structure Marks (messageId : String) (g : Message → Message) : Prop where
  keeps : ∀ m, KeepsMessage m (g m)
  others : ∀ m, m.id ≠ messageId → g m = m

section
variable {reportId moderatorId messageId : String} {now : Time} {a : Db}

theorem keepsReport_stamp {resolution : ReportResolution} {r : MessageReport}
    (h : r.id = reportId → r.resolvedAt = none) :
    KeepsReport r (stamp reportId moderatorId resolution now r) := by
  unfold stamp
  split_ifs with hid
  · refine ⟨rfl, rfl, fun hr => ?_⟩
    rw [h hid] at hr
    cases hr
  · exact KeepsReport.refl r

/-- The store of a resolution: reports stamped, the messages of a takedown marked. -/
def resolved (reportId moderatorId : String) (resolution : ReportResolution) (now : Time)
    (g : Message → Message) (a : Db) : Db :=
  { a with
    messages := a.messages.map g
    reports := a.reports.map (stamp reportId moderatorId resolution now) }

theorem evolves_resolved {resolution : ReportResolution} {g : Message → Message}
    (hg : ∀ m, KeepsMessage m (g m))
    (hopen : ∀ r ∈ a.reports, r.id = reportId → r.resolvedAt = none) :
    Evolves a (resolved reportId moderatorId resolution now g a) := by
  constructor
  · refine List.forall₂_map_right_iff.mpr (List.forall₂_same.mpr fun r hr => ?_)
    exact keepsReport_stamp (hopen r hr)
  · exact List.forall₂_map_right_iff.mpr (List.forall₂_same.mpr fun m _ => hg m)

theorem map_id_of_keeps {α : Type} {key : α → String} {g : α → α} {xs : List α}
    (hg : ∀ x, key (g x) = key x) : (xs.map g).map key = xs.map key := by
  rw [List.map_map]
  exact List.map_congr_left fun x _ => hg x

theorem stamp_id {resolution : ReportResolution} (r : MessageReport) :
    (stamp reportId moderatorId resolution now r).id = r.id := by
  unfold stamp
  split_ifs <;> rfl

/-- A takedown keeps the store sound: its message is deleted and its report says so. -/
theorem sound_takenDown {g : Message → Message} (ha : Sound a) (hg : Marks messageId g)
    (hdeleted : ∀ m ∈ a.messages, m.id = messageId → (g m).deletedAt.isSome = true)
    (hmessage : ∀ r ∈ a.reports, r.id = reportId → r.messageId = messageId)
    (hfound : ∃ r ∈ a.reports, r.id = reportId) :
    Sound (resolved reportId moderatorId .takenDown now g a) where
  messageIds := by
    have hkeys := ha.messageIds
    rwa [← map_id_of_keeps (g := g) fun m => (hg.keeps m).id] at hkeys
  reportIds := by
    have hkeys := ha.reportIds
    rwa [← map_id_of_keeps (g := stamp reportId moderatorId .takenDown now) stamp_id] at hkeys
  retractions := ha.retractions
  deletions := by
    intro m' hm'
    obtain ⟨m, hm, rfl⟩ := List.mem_map.mp hm'
    by_cases hid : m.id = messageId
    · -- its own message: deleted, and the stamped report says so
      obtain ⟨r, hr, hrid⟩ := hfound
      constructor
      · intro _
        refine ⟨_, List.mem_map_of_mem hr, ?_, ?_⟩
        · rw [(hg.keeps m).id, hid]
          simp only [stamp, if_pos hrid]
          exact hmessage r hr hrid
        · simp [stamp, hrid, takenDown]
      · exact fun _ => hdeleted m hm hid
    · rw [hg.others m hid, ha.deletions m hm]
      constructor
      · rintro ⟨r, hr, hrm, htaken⟩
        refine ⟨_, List.mem_map_of_mem hr, ?_, ?_⟩
        all_goals
          have hother : r.id ≠ reportId := fun h => hid (hrm ▸ hmessage r hr h)
          simpa [stamp, hother]
      · rintro ⟨r', hr', hrm, htaken⟩
        obtain ⟨r, hr, rfl⟩ := List.mem_map.mp hr'
        by_cases hrid : r.id = reportId
        · simp only [stamp, if_pos hrid] at hrm
          exact absurd (hrm.symm.trans (hmessage r hr hrid)) hid
        · simp only [stamp, if_neg hrid] at hrm htaken
          exact ⟨r, hr, hrm, htaken⟩

/-- A dismissal keeps the store sound: an unresolved report was no reason for a deletion. -/
theorem sound_dismissed (ha : Sound a)
    (hopen : ∀ r ∈ a.reports, r.id = reportId → r.resolvedAt = none) :
    Sound (resolved reportId moderatorId .dismissed now id a) where
  messageIds := by
    simpa [resolved] using ha.messageIds
  reportIds := by
    have hkeys := ha.reportIds
    rwa [← map_id_of_keeps (g := stamp reportId moderatorId .dismissed now) stamp_id] at hkeys
  retractions := ha.retractions
  deletions := by
    intro m hm
    rw [resolved, List.map_id] at hm
    rw [ha.deletions m hm]
    constructor
    · rintro ⟨r, hr, hrm, htaken⟩
      refine ⟨_, List.mem_map_of_mem hr, ?_, ?_⟩
      all_goals
        have hother : r.id ≠ reportId := by
          intro hid
          rw [takenDown, hopen r hr hid] at htaken
          cases htaken
        simpa [stamp, hother]
    · rintro ⟨r', hr', hrm, htaken⟩
      obtain ⟨r, hr, rfl⟩ := List.mem_map.mp hr'
      by_cases hrid : r.id = reportId
      · simp [stamp, hrid, takenDown] at htaken
      · simp only [stamp, if_neg hrid] at hrm htaken
        exact ⟨r, hr, hrm, htaken⟩

theorem sound_retraction {r : Retraction} (ha : Sound a)
    (hnew : ∀ x ∈ a.retractions, x.targetMsgId ≠ r.targetMsgId) :
    Sound { a with retractions := a.retractions ++ [r] } where
  messageIds := ha.messageIds
  reportIds := ha.reportIds
  retractions := by
    rw [List.map_append, List.nodup_append]
    refine ⟨ha.retractions, List.nodup_singleton _, fun t ht t' ht' => ?_⟩
    obtain ⟨x, hx, rfl⟩ := List.mem_map.mp ht
    rw [List.map_singleton, List.mem_singleton] at ht'
    rw [ht']
    exact hnew x hx
  deletions := ha.deletions

end

/-! ## What one request publishes -/

def spec : Spec ℕ Db Memory Label where
  inv db _ := Sound db
  rely _ db _ db' _ := Evolves db db'
  meets t x := unresolvedAtWrite t x = true
  rely_refl _ db _ := Evolves.refl db
  rely_trans h h' := h.trans h'

/-- The request's copy can be committed as it is. -/
structure Ready (x : Point Db Memory) : Prop where
  sound : Sound x.view
  evolves : Evolves x.db x.view

section
variable {p : ℕ} {x y : Point Db Memory} {α : Type}

theorem Ready.free (h : spec.Env p x y) (hx : x.work = none) : Ready y := by
  have hview : y.view = y.db := Point.view_of_none (h.free hx)
  constructor
  · rw [hview]
    exact h.inv
  · rw [hview]
    exact Evolves.refl y.db

theorem Ready.env (h : spec.Env p x y) (hr : Ready x) : Ready y := by
  cases hw : x.work with
  | none => exact Ready.free h hw
  | some w =>
      have hxw : x.view = w := Point.view_of_some hw
      constructor
      · rw [h.view_eq hw, ← hxw]
        exact hr.sound
      · rw [h.view_eq hw, h.db_eq hw, ← hxw]
        exact hr.evolves

/-- Nothing is asked of results. -/
theorem owed_any {past : List (Db × Db)} (r : Except Exn α) : Owed (fun _ _ => True) past r :=
  ⟨fun _ => trivial, fun _ _ => trivial⟩

theorem publishes_commit {past : List (Db × Db)} (h : Ready x) (a : α) :
    Publishes spec p Evolves (fun _ _ => True) past (do
      commit
      return a) x := by
  intro y hy _
  have hready : Ready y := h.env hy
  constructor
  · exact fun _ => owed_any _
  · intro w hw
    have hview : y.view = w := Point.view_of_some hw
    rw [← hview]
    exact ⟨hready.evolves, ⟨hready.sound, fun _ _ => hready.evolves⟩, owed_any _⟩

theorem publishes_retraction {r : Retraction} (h : Ready x) (a : α) :
    Publishes spec p Evolves (fun _ _ => True) [] (do
      flushOrRaise (fun db => db.insertRetraction r) (.retractionInsert r.targetMsgId)
      commit
      return a) x := by
  intro y hy hm
  have hready : Ready y := h.env hy
  have hnew : ∀ t ∈ y.view.retractions, t.targetMsgId ≠ r.targetMsgId := by
    have hmet : unresolvedAtWrite (.retractionInsert r.targetMsgId) y = true := hm
    simpa [unresolvedAtWrite] using hmet
  constructor
  · intro s hs
    obtain ⟨_, rfl⟩ := Db.insertRetraction_eq_some.mp hs
    constructor
    · exact fun hn => absurd hn.1 (by decide)
    · intro _
      apply publishes_commit
      exact ⟨sound_retraction hready.sound hnew,
        ⟨hready.evolves.reports, hready.evolves.messages⟩⟩
  · exact fun _ _ _ => owed_any _

/-- The UPDATE of a report and what follows, once the copy would be sound with it. -/
theorem publishes_updateReport {reportId moderatorId : String} {resolution : ReportResolution}
    {now : Time} {k : Unit → Body α}
    (hready : ∀ y, spec.Env p x y → (∀ r ∈ y.view.reports, r.id = reportId → r.resolvedAt = none) →
      (∃ r ∈ y.view.reports, r.id = reportId) →
      Ready { y with work := some { y.view with
        reports := y.view.reports.map (stamp reportId moderatorId resolution now) } })
    (hk : ∀ y, Ready y → Publishes spec p Evolves (fun _ _ => True) [] (k ()) y) :
    Publishes spec p Evolves (fun _ _ => True) [] (updateReport reportId (fun r =>
      { r with
        resolvedAt := some now
        resolution := some resolution
        resolvedByUserId := some moderatorId }) >>= k) x := by
  change Publishes spec p Evolves (fun _ _ => True) []
    (((Request.exec (.reportUpdate reportId) _ _).bind fun rowcount =>
      if rowcount = 1 then return () else throwExn .staleDataError).bind k) x
  rw [Request.bind_assoc]
  apply Publishes.exec
  intro y hy hm
  have hopen : ∀ r ∈ y.view.reports, r.id = reportId → r.resolvedAt = none := by
    have hmet : unresolvedAtWrite (.reportUpdate reportId) y = true := hm
    intro r hr hid
    simp only [unresolvedAtWrite, List.all_eq_true, Bool.or_eq_true, decide_eq_true_eq,
      Option.isNone_iff_eq_none] at hmet
    exact (hmet r hr).resolve_left fun hne => hne hid
  split_ifs with hcount
  · apply hk
    apply hready y hy hopen
    have hpos : 0 < (y.view.reports.filter fun r => r.id = reportId).length := by omega
    obtain ⟨r, hr⟩ := List.exists_mem_of_length_pos hpos
    obtain ⟨hmem, hid⟩ := List.mem_filter.mp hr
    exact ⟨r, hmem, of_decide_eq_true hid⟩
  · exact owed_any _

/-- The end of a takedown: its retraction, if there is none yet, and the commit. -/
theorem publishes_rest (h : Ready x) (existing : Option Retraction) (r : Retraction) :
    Publishes spec p Evolves (fun _ _ => True) [] (if existing.isNone then do
      flushOrRaise (fun db => db.insertRetraction r) (.retractionInsert r.targetMsgId)
      commit
      return some r
    else do
      commit
      return none) x := by
  split_ifs
  · exact publishes_retraction h (some r)
  · exact publishes_commit h none

theorem publishes_dismiss (hx : x.work = none) (reportId moderatorId : String) (now : Time) :
    Publishes spec p Evolves (fun _ _ => True) [] (dismissReport reportId moderatorId now) x := by
  apply Publishes.query
  intro y hy
  cases y.view.reports.find? fun r => r.id = reportId with
  | none => exact owed_any _
  | some report =>
      dsimp only
      split_ifs
      · exact owed_any _
      · exact owed_any _
      · apply publishes_updateReport
        · intro z hz hopen _
          have hview : z.view = z.db := Point.view_of_none ((hy.trans hz).free hx)
          rw [hview] at hopen ⊢
          have hsame : resolved reportId moderatorId .dismissed now id z.db =
              (let stamped := z.db.reports.map (stamp reportId moderatorId .dismissed now)
               { z.db with reports := stamped }) := by
            simp [resolved]
          constructor
          · exact hsame ▸ sound_dismissed hz.inv hopen
          · exact hsame ▸ evolves_resolved KeepsMessage.refl hopen
        · exact fun z hz => publishes_commit hz ()

/-- The UPDATE of the report in a takedown, when the message is marked in the copy, or was
deleted before. -/
theorem publishes_takenDown {reportId moderatorId messageId : String} {now : Time}
    {g : Message → Message} {k : Unit → Body α} (hg : Marks messageId g)
    (hcopy : ∀ y, spec.Env p x y → y.view = { y.db with messages := y.db.messages.map g } ∧
      (∀ m ∈ y.db.messages, m.id = messageId → (g m).deletedAt.isSome = true) ∧
      ∀ r ∈ y.db.reports, r.id = reportId → r.messageId = messageId)
    (hk : ∀ y, Ready y → Publishes spec p Evolves (fun _ _ => True) [] (k ()) y) :
    Publishes spec p Evolves (fun _ _ => True) [] (updateReport reportId (fun r =>
      { r with
        resolvedAt := some now
        resolution := some .takenDown
        resolvedByUserId := some moderatorId }) >>= k) x := by
  apply publishes_updateReport _ hk
  intro y hy hopen hfound
  obtain ⟨hview, hdeleted, hmessage⟩ := hcopy y hy
  rw [hview] at hopen hfound ⊢
  exact ⟨sound_takenDown hy.inv hg hdeleted hmessage hfound, evolves_resolved hg.keeps hopen⟩

/-- The mark of a takedown at time `now`. -/
def markDeleted (messageId : String) (now : Time) (m : Message) : Message :=
  if m.id = messageId then { m with deletedAt := some now } else m

theorem marks_markDeleted (messageId : String) (now : Time) :
    Marks messageId (markDeleted messageId now) where
  keeps m := by
    unfold markDeleted
    split_ifs
    · exact ⟨rfl, fun _ => rfl⟩
    · exact KeepsMessage.refl m
  others m hm := by
    simp [markDeleted, hm]

theorem publishes_takeDown (hx : x.work = none) (reportId moderatorId rid : String) (now : Time) :
    Publishes spec p Evolves (fun _ _ => True) []
      (takeDownMessage reportId moderatorId rid now) x := by
  apply Publishes.query
  intro y hy
  cases hreport : y.view.reports.find? fun r => r.id = reportId with
  | none => exact owed_any _
  | some report =>
      have hyfree : y.view = y.db := Point.view_of_none (hy.free hx)
      rw [hyfree] at hreport
      have hmem : report ∈ y.db.reports := List.mem_of_find?_eq_some hreport
      have hid : report.id = reportId := by simpa using List.find?_some hreport
      dsimp only
      split
      · exact owed_any _
      · apply Publishes.query
        intro z hz
        have hzfree : z.work = none := (hy.trans hz).free hx
        cases hmessage : z.view.messages.find? fun m => m.id = report.messageId with
        | none =>
            dsimp only
            split
            · exact owed_any _
            · exact owed_any _
        | some message =>
            rw [Point.view_of_none hzfree] at hmessage
            have hmmem : message ∈ z.db.messages := List.mem_of_find?_eq_some hmessage
            have hmid : message.id = report.messageId := by simpa using List.find?_some hmessage
            dsimp only
            apply Publishes.query
            intro u hu
            have hufree : u.work = none := hu.free hzfree
            have hmessageOf : ∀ v, spec.Env p u v → ∀ r ∈ v.db.reports, r.id = reportId →
                r.messageId = message.id := by
              intro v hv r hr hrid
              have hevolves : Evolves y.db v.db := ((hz.trans hu).trans hv).rely
              rw [hmid]
              exact hevolves.report hv.inv hmem hr (hrid.trans hid.symm)
            split
            · exact owed_any _
            · split
              · split
                · -- the message is marked first, under the lock
                  change Publishes spec p Evolves (fun _ _ => True) []
                    (((Request.exec .plain _ _).bind fun rowcount =>
                      if rowcount = 1 then return () else throwExn .staleDataError).bind _) u
                  rw [Request.bind_assoc]
                  apply Publishes.exec
                  intro v hv _
                  have hview : v.view = v.db := Point.view_of_none (hv.free hufree)
                  split
                  · apply publishes_takenDown (marks_markDeleted message.id now)
                    · intro w hw
                      have hdb : w.db = v.db := hw.db_eq rfl
                      refine ⟨?_, fun m _ hm => by simp [markDeleted, hm], ?_⟩
                      · rw [hw.view_eq rfl, hdb, hview]
                        rfl
                      · rw [hdb]
                        exact hmessageOf v hv
                    · exact fun w hw => publishes_rest hw _
                        ⟨rid, message.id, message.channelId, now⟩
                  · exact owed_any _
                · -- it was deleted when it was read, and nobody restores it
                  rename_i hdeleted
                  have hmarks : Marks message.id id := ⟨KeepsMessage.refl, fun _ _ => rfl⟩
                  apply publishes_takenDown hmarks
                  · intro v hv
                    refine ⟨?_, fun m hm hmid' => ?_, hmessageOf v hv⟩
                    · rw [Point.view_of_none (hv.free hufree), List.map_id]
                    · have hevolves : Evolves z.db v.db := (hu.trans hv).rely
                      apply hevolves.deleted hv.inv hmmem _ hm hmid'
                      simpa [Option.isSome_iff_ne_none] using hdeleted
                  · exact fun v hv => publishes_rest hv _ ⟨rid, message.id, message.channelId, now⟩
              · exact publishes_rest (Ready.free (hz.trans hu) (hy.free hx)) _
                  ⟨rid, message.id, message.channelId, now⟩

end

/-! ## Runs -/

theorem publishes_request (p : ℕ) (request : ModerationRequest) (db : Db) (mem : Memory) :
    Publishes spec p Evolves (fun _ _ => True) [] request.body ⟨db, mem, none⟩ := by
  cases request with
  | takeDown reportId moderatorId rid now =>
      exact (publishes_takeDown rfl reportId moderatorId rid now).session
  | dismiss reportId moderatorId now =>
      exact (publishes_dismiss rfl reportId moderatorId now).map.session

section
variable {db : Db} {mem : Memory} {requests : ℕ → ModerationRequest}
  {c : Cfg ℕ Db Memory Label Exn (Option Retraction)}

/-- In a run whose writes all find what their request read, every state is sound, and from any
state of it on, a resolved report and a deletion stay as they are. -/
theorem reports_resolve_once (hdb : Sound db)
    (hr : Cfg.Reach (fun t x => unresolvedAtWrite t x = true)
      (Cfg.init db mem fun p => (requests p).body) c) :
    Sound c.db ∧ ∀ c', Cfg.Reach (fun t x => unresolvedAtWrite t x = true) c c' →
      Evolves c.db c'.db := by
  have hinit : Guarded spec (fun _ => Evolves) (fun _ _ _ => True) (fun _ => [])
      (Cfg.init db mem fun p => (requests p).body) :=
    ⟨hdb, fun p => publishes_request p (requests p) db mem⟩
  obtain ⟨past, hguarded, _⟩ := hinit.reach hr
  refine ⟨hguarded.inv, fun c' hr' => ?_⟩
  induction hr' with
  | start => exact Evolves.refl c.db
  | step hr' hm hs ih =>
      obtain ⟨_, hlater, _⟩ := hguarded.reach hr'
      rcases hlater.change hm hs with hsame | hstep
      · rw [hsame]
        exact ih
      · exact ih.trans hstep

end

/-! ## Two takedowns of one report -/

def reportedStore : Db where
  messages := [{ id := "M", channelId := "C", senderUserId := none, body := "hi" }]
  reports := [{ id := "R", messageId := "M", reporterUserId := none }]

theorem sound_reportedStore : Sound reportedStore := by
  constructor
  · decide
  · decide
  · decide
  · simp [reportedStore, takenDown]

def takeDowns (p : ℕ) : ModerationRequest :=
  .takeDown "R" (if p = 0 then "A" else "B") (if p = 0 then "N" else "O") 5

def takeDownsStart : Cfg ℕ Db Memory Label Exn (Option Retraction) :=
  Cfg.init reportedStore {} fun p => (takeDowns p).body

/-- One after the other they meet the condition. -/
theorem takedowns_in_turn_resolve_once :
    ∃ c, Cfg.playChecked unresolvedAtWrite [0, 0, 0, 0, 0, 0, 0, 0, 1, 1, 1, 1] takeDownsStart =
      some c ∧ Sound c.db ∧ ∀ c', Cfg.Reach (fun t x => unresolvedAtWrite t x = true) c c' →
        Evolves c.db c'.db := by
  have hrun : (Cfg.playChecked unresolvedAtWrite [0, 0, 0, 0, 0, 0, 0, 0, 1, 1, 1, 1]
      takeDownsStart).isSome = true := by
    decide +kernel
  obtain ⟨c, hc⟩ := Option.isSome_iff_exists.mp hrun
  exact ⟨c, hc, reports_resolve_once sound_reportedStore
    (Cfg.reach_of_playChecked (fun _ _ h => h) Cfg.Reach.start hc)⟩

/-- Both read the report unresolved and the message without a retraction; both write. -/
theorem takedowns_can_retract_twice :
    ¬∀ (db : Db) (mem : Memory) (requests : ℕ → ModerationRequest)
      (c : Cfg ℕ Db Memory Label Exn (Option Retraction)), Sound db →
      Cfg.Reach (fun _ _ => True) (Cfg.init db mem fun p => (requests p).body) c →
        Sound c.db ∧ ∀ c', Cfg.Reach (fun _ _ => True) c c' → Evolves c.db c'.db := by
  intro hclaim
  have hrun : (Cfg.play [0, 0, 0, 1, 1, 1, 0, 0, 0, 0, 1, 1, 1, 1] takeDownsStart).map
      (fun c => c.db.retractions.map (·.targetMsgId)) = some ["M", "M"] := by
    decide +kernel
  obtain ⟨c, hc, htwice⟩ := Option.map_eq_some_iff.mp hrun
  have hsound := (hclaim reportedStore {} takeDowns c sound_reportedStore
    (Cfg.reach_of_play Cfg.Reach.start hc)).1.retractions
  rw [htwice] at hsound
  revert hsound
  decide

end AikoIsland.Resolutions
