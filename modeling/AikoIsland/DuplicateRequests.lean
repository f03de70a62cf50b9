import AikoIsland.Relabelling
import AikoIsland.AppendOnly
import AikoIsland.DirectMessages
import AikoIsland.Moderation

/-!
# Blocks and reports, repeated

Any number of blocks, unblocks and reports by any users, interleaved statement
by statement. A block and a report look for their row with a SELECT, which takes
no lock, and insert it when they found none; the key is unique in the schema,
and nothing catches the refusal of the INSERT.

So the results are about the runs in which every INSERT still finds its row
absent. In those no call raises because of another one, and every report of a
message by a user returns the one row. In others the loser of two identical
calls raises `IntegrityError`.
-/
namespace AikoIsland.DuplicateRequests
open Tables Gateway WriterLock RelyGuarantee Relabelling AppendOnly DirectMessages Memberships
  Moderation

/-! ## The requests -/

inductive Call where
  | block (identityMap : List User) (blockerId blockedId : String)
  | unblock (blockerId blockedId : String)
  | report (reporterId messageId : String) (reason : ReasonArg)

/-- The body of a call for which the id `rowId` is minted. -/
def Call.body (rowId : String) : Call → Body (Option MessageReport)
  | .block identityMap blockerId blockedId => do
      blockUser identityMap blockerId blockedId
      return none
  | .unblock blockerId blockedId => do
      unblockUser blockerId blockedId
      return none
  | .report reporterId messageId reason => do
      return some (← reportMessage reporterId messageId reason rowId)

/-- Each call in its session, its statements labelled with it. -/
def family (calls : ℕ → Call) (minted : ℕ → String) (p : ℕ) :
    Request Db Memory (Call × Label) Exn (Option MessageReport) :=
  relabel (fun t => (calls p, t)) ((calls p).body (minted p)).session

/-- The reports of a message by a user. -/
def standing (db : Db) (messageId reporterId : String) : List MessageReport :=
  db.reports.filter fun r => r.messageId = messageId && r.reporterUserId = some reporterId

/-- The condition on steps: an INSERT finds no row with the key of its own. A block's first
statement that writes is its INSERT. -/
def rowAbsent : Call × Label → Point Db Memory → Bool
  | (.block _ blockerId blockedId, .plain), x =>
      x.work.isSome || ⟨blockerId, blockedId⟩ ∉ x.view.blocks
  | (_, .reportInsert messageId reporterId), x => (standing x.view messageId reporterId).isEmpty
  | _, _ => true

/-- What the ULID generator promises: a minted id is new and minted once. -/
structure FreshIds (db₀ : Db) (minted : ℕ → String) : Prop where
  new : ∀ p, ∀ r ∈ db₀.reports, r.id ≠ minted p
  once : ∀ p q, p ≠ q → minted p ≠ minted q

/-- UNIQUE (message_id, reporter_user_id). -/
def OneReport (db : Db) : Prop := ∀ m u, (standing db m u).length ≤ 1

/-! ## The store over time -/

/-- No call touches accounts or messages, and the key of reports stays unique. -/
structure Kept (db₀ db : Db) : Prop where
  users : db.users = db₀.users
  messages : db.messages = db₀.messages
  oneReport : OneReport db

/-- What the other calls do to the reports: they append rows under ids of their own. -/
def Others (minted : ℕ → String) (p : ℕ) (a b : Db) : Prop :=
  Appends (fun r => ∃ q, q ≠ p ∧ r.id = minted q) a.reports b.reports

def spec (db₀ : Db) (minted : ℕ → String) : Spec ℕ Db Memory (Call × Label) where
  inv db _ := Kept db₀ db
  rely p db _ db' _ := Others minted p db db'
  meets t x := rowAbsent t x = true
  rely_refl _ _ _ := Appends.refl _ _
  rely_trans h h' := h.trans h'

/-- The one report of a message by a user stays the one. -/
theorem Others.standing {minted : ℕ → String} {p : ℕ} {a b : Db} (h : Others minted p a b)
    (hb : OneReport b) {m u : String} {row : MessageReport}
    (hrow : DuplicateRequests.standing a m u = [row]) :
    DuplicateRequests.standing b m u = [row] := by
  obtain ⟨new, hreports, _⟩ := h
  have hone := hb m u
  unfold DuplicateRequests.standing at hrow hone ⊢
  rw [hreports, List.filter_append, hrow] at hone ⊢
  rw [List.length_append, List.length_singleton] at hone
  have hnil : (new.filter fun r => r.messageId = m && r.reporterUserId = some u).length = 0 := by
    omega
  rw [List.length_eq_zero_iff.mp hnil, List.append_nil]

theorem standing_of_find {db : Db} (h : OneReport db) {m u : String} {row : MessageReport}
    (hfind : db.reports.find? (fun r => r.messageId = m && r.reporterUserId = some u) =
      some row) : standing db m u = [row] := by
  have hhead : (standing db m u).head? = some row := by
    rw [standing, List.head?_filter]
    exact hfind
  have hone := h m u
  cases hrows : standing db m u with
  | nil =>
      rw [hrows] at hhead
      cases hhead
  | cons r rows =>
      rw [hrows, List.head?_cons] at hhead
      rw [hrows, List.length_cons] at hone
      have hnil : rows.length = 0 := by omega
      rw [List.length_eq_zero_iff.mp hnil, Option.some.inj hhead]

section
variable {minted : ℕ → String} {p : ℕ} {x y : Point Db Memory} {db₀ : Db}

/-- The call's report is not there. -/
def Unsent (rowId : String) (db : Db) : Prop := ∀ r ∈ db.reports, r.id ≠ rowId

theorem Unsent.env (hf : FreshIds db₀ minted) {a b : Db} (h : Unsent (minted p) a)
    (ho : Others minted p a b) : Unsent (minted p) b := by
  intro r hr
  rcases Appends.cases ho hr with hold | ⟨q, hq, hid⟩
  · exact h r hold
  · rw [hid]
    exact hf.once q p hq

theorem standing_append (db : Db) (row : MessageReport) (m u : String) :
    standing { db with reports := db.reports ++ [row] } m u =
      if row.messageId = m ∧ row.reporterUserId = some u then standing db m u ++ [row]
      else standing db m u := by
  unfold standing
  rw [List.filter_append]
  split_ifs with h
  · simp [h]
  · have hrow : (decide (row.messageId = m) && decide (row.reporterUserId = some u)) = false := by
      simpa using h
    simp [hrow]

/-- A report of a new pair keeps the key unique. -/
theorem oneReport_append {db : Db} (h : OneReport db) {row : MessageReport} {u : String}
    (hu : row.reporterUserId = some u) (hnone : standing db row.messageId u = []) :
    OneReport { db with reports := db.reports ++ [row] } := by
  intro m v
  rw [standing_append]
  split_ifs with hkey
  · rw [hu] at hkey
    obtain ⟨rfl, hv⟩ := hkey
    obtain rfl := Option.some.inj hv
    rw [hnone]
    exact le_refl 1
  · exact h m v

/-! ## One call -/

/-- What a block may raise. -/
def BlockRefused (db : Db) (blockerId blockedId : String) (e : Exn) : Prop :=
  e = .cannotBlockSelf ∧ blockerId = blockedId ∨
    e = .userNotFound ∧ db.userById blockedId = none

/-- What a report may raise. -/
def ReportRefused (db : Db) (messageId : String) (reason : ReasonArg) (e : Exn) : Prop :=
  asReason reason = .error e ∨ e = .messageNotFound ∧ ∀ m ∈ db.messages, m.id ≠ messageId

/-- A commit that leaves accounts, messages and reports as they are. -/
theorem allows_committed {g : Label → Call × Label} (hi : Kept db₀ x.db)
    (husers : x.view.users = x.db.users) (hmessages : x.view.messages = x.db.messages)
    (hreports : x.view.reports = x.db.reports) :
    (along g (spec db₀ minted)).Allows p x x.committed := by
  constructor
  · constructor
    · exact husers.trans hi.users
    · exact hmessages.trans hi.messages
    · intro m u
      change ((x.view.reports.filter _).length ≤ 1)
      rw [hreports]
      exact hi.oneReport m u
  · exact fun q _ => Appends.of_eq hreports

/-- The INSERT of a block and its commit. -/
theorem safe_insertBlock {identityMap : List User} {blockerId blockedId : String}
    (hx : x.work = none) :
    Safe (along (Prod.mk (.block identityMap blockerId blockedId)) (spec db₀ minted)) p (do
      flushOrRaise (fun db => db.insertBlock ⟨blockerId, blockedId⟩) .plain
      commit) (fun _ _ => True) (fun e _ => BlockRefused db₀ blockerId blockedId e) x := by
  apply safe_flushOrRaise
  · intro y s hy _ hs
    obtain ⟨_, rfl⟩ := Db.insertBlock_eq_some.mp hs
    have hview : y.view = y.db := Point.view_of_none (hy.free hx)
    apply Safe.commit
    intro z hz _
    have hzs := hz.view_eq rfl
    have hzd : z.db = y.db := hz.db_eq rfl
    constructor
    · intro w _
      apply allows_committed hz.inv
      all_goals rw [hzs, hzd, hview]
    · exact Safe.pure fun _ _ => trivial
  · -- with the condition the row is not there
    intro y z hy hm hn _
    have hfree : y.work = none := hy.free hx
    have habsent : (⟨blockerId, blockedId⟩ : UserBlock) ∉ y.view.blocks := by
      have hmet : rowAbsent (.block identityMap blockerId blockedId, .plain) y = true := hm
      simpa [rowAbsent, hfree] using hmet
    have hsome := hn.symm.trans (Db.insertBlock_eq_some.mpr ⟨habsent, rfl⟩)
    cases hsome

theorem safe_blockUser {identityMap : List User} {blockerId blockedId : String}
    (hx : x.work = none) :
    Safe (along (Prod.mk (.block identityMap blockerId blockedId)) (spec db₀ minted)) p
      (blockUser identityMap blockerId blockedId) (fun _ _ => True)
      (fun e _ => BlockRefused db₀ blockerId blockedId e) x := by
  unfold blockUser
  by_cases hself : blockerId = blockedId
  · rw [if_pos hself]
    exact Safe.raise fun _ _ => Or.inl ⟨rfl, hself⟩
  · rw [if_neg hself]
    have hlookup : ∀ z : Point Db Memory, z.work = none →
        Safe (along (Prod.mk (.block identityMap blockerId blockedId)) (spec db₀ minted)) p (do
          let already ← select fun db => db.blocks.find? fun b =>
            b.blockerUserId = blockerId && b.blockedUserId = blockedId
          if already.isSome then
            return ()
          else
            flushOrRaise (fun db => db.insertBlock ⟨blockerId, blockedId⟩) .plain
            commit) (fun _ _ => True) (fun e _ => BlockRefused db₀ blockerId blockedId e) z := by
      intro z hz
      apply Safe.query
      intro u hu
      split
      · exact Safe.pure fun _ _ => trivial
      · exact safe_insertBlock (hu.free hz)
    unfold getUser
    split
    · exact hlookup x hx
    · apply Safe.query
      intro y hy
      have hfree : y.work = none := hy.free hx
      cases huser : y.view.userById blockedId with
      | none =>
          apply Safe.raise
          intro z hz
          rw [Point.view_of_none hfree, Db.userById, hy.inv.users] at huser
          exact Or.inr ⟨rfl, huser⟩
      | some user => exact hlookup y hfree

theorem safe_unblockUser {blockerId blockedId : String} (hx : x.work = none) :
    Safe (along (Prod.mk (.unblock blockerId blockedId)) (spec db₀ minted)) p
      (unblockUser blockerId blockedId) (fun _ _ => True) (fun _ _ => False) x := by
  apply Safe.exec
  intro y hy _
  have hview : y.view = y.db := Point.view_of_none (hy.free hx)
  apply Safe.commit
  intro z hz _
  have hzs := hz.view_eq rfl
  have hzd : z.db = y.db := hz.db_eq rfl
  constructor
  · intro w _
    apply allows_committed hz.inv
    all_goals rw [hzs, hzd, hview]
  · exact Safe.pure fun _ _ => trivial

/-- The INSERT of a report and its commit: the new row is the one of its pair. -/
theorem safe_insertReport {reporterId messageId : String} {reason : ReasonArg} {r : ReportReason}
    (hf : FreshIds db₀ minted) (hx : x.work = none) (hu : Unsent (minted p) x.db) :
    Safe (along (Prod.mk (.report reporterId messageId reason)) (spec db₀ minted)) p (do
      flushOrRaise (fun db => db.insertReport (newReport reporterId messageId r (minted p)))
        (.reportInsert messageId reporterId)
      commit
      return newReport reporterId messageId r (minted p))
      (fun row y => standing y.db messageId reporterId = [row])
      (fun e _ => ReportRefused db₀ messageId reason e) x := by
  have hnone : ∀ y : Point Db Memory,
      (along (Prod.mk (.report reporterId messageId reason)) (spec db₀ minted)).meets
        (.reportInsert messageId reporterId) y → standing y.view messageId reporterId = [] := by
    intro y hm
    have hmet : rowAbsent (.report reporterId messageId reason,
        .reportInsert messageId reporterId) y = true := hm
    exact List.isEmpty_iff.mp hmet
  apply safe_flushOrRaise
  · intro y s hy hm hs
    obtain ⟨_, rfl⟩ := Db.insertReport_eq_some.mp hs
    have hview : y.view = y.db := Point.view_of_none (hy.free hx)
    have hempty := hnone y hm
    rw [hview] at hempty
    apply Safe.commit
    intro z hz _
    have hcommitted : z.committed.db = { z.db with
        reports := z.db.reports ++ [newReport reporterId messageId r (minted p)] } := by
      rw [Point.committed_db, hz.view_eq rfl, hz.db_eq rfl, hview]
    have hzempty : standing z.db messageId reporterId = [] := by
      rw [hz.db_eq rfl]
      exact hempty
    constructor
    · intro w _
      constructor
      · rw [hcommitted]
        exact ⟨hz.inv.users, hz.inv.messages, oneReport_append hz.inv.oneReport rfl hzempty⟩
      · intro q hq
        have hothers : Others minted q z.db z.committed.db := by
          rw [hcommitted]
          exact Appends.single _ ⟨p, hq.symm, rfl⟩
        exact hothers
    · apply Safe.pure
      intro v hv
      have hothers : Others minted p z.committed.db v.db := hv.rely
      apply hothers.standing hv.inv.oneReport
      rw [hcommitted, standing_append, if_pos ⟨rfl, rfl⟩, hzempty, List.nil_append]
  · -- with the condition and a fresh id nothing is left for the constraints to refuse
    intro y z hy hm hn _
    have hview : y.view = y.db := Point.view_of_none (hy.free hx)
    have huy : Unsent (minted p) y.db := hu.env hf hy.rely
    have hclash : ∀ t ∈ y.view.reports, t.id ≠ minted p ∧
        ((some reporterId).isSome → t.messageId = messageId →
          t.reporterUserId ≠ some reporterId) := by
      intro t ht
      constructor
      · rw [hview] at ht
        exact huy t ht
      · intro _ hmsg hrep
        have hmem : t ∈ standing y.view messageId reporterId := by
          rw [standing, List.mem_filter]
          exact ⟨ht, by simp [hmsg, hrep]⟩
        rw [hnone y hm] at hmem
        cases hmem
    have hsome := hn.symm.trans (Db.insertReport_eq_some.mpr ⟨hclash, rfl⟩)
    cases hsome

theorem safe_reportMessage {reporterId messageId : String} {reason : ReasonArg}
    (hf : FreshIds db₀ minted) (hx : x.work = none) (hu : Unsent (minted p) x.db) :
    Safe (along (Prod.mk (.report reporterId messageId reason)) (spec db₀ minted)) p
      (reportMessage reporterId messageId reason (minted p))
      (fun row y => standing y.db messageId reporterId = [row])
      (fun e _ => ReportRefused db₀ messageId reason e) x := by
  unfold reportMessage
  cases hreason : asReason reason with
  | error e => exact Safe.raise fun _ _ => Or.inl hreason
  | ok r =>
      apply Safe.query
      intro y hy
      have hyfree : y.work = none := hy.free hx
      rw [Point.view_of_none hyfree]
      cases hmessage : y.db.messages.find? fun m => m.id = messageId with
      | none =>
          apply Safe.raise
          intro z hz
          have hnone : ∀ m ∈ db₀.messages, m.id ≠ messageId := by
            rw [hy.inv.messages] at hmessage
            simpa [List.find?_eq_none] using hmessage
          exact Or.inr ⟨rfl, hnone⟩
      | some message =>
          apply Safe.query
          intro z hz
          have hzfree : z.work = none := hz.free hyfree
          rw [Point.view_of_none hzfree]
          cases hfind : z.db.reports.find? fun r =>
              r.messageId = messageId && r.reporterUserId = some reporterId with
          | some existing =>
              apply Safe.pure
              intro u hzu
              have hothers : Others minted p z.db u.db := hzu.rely
              exact hothers.standing hzu.inv.oneReport
                (standing_of_find hz.inv.oneReport hfind)
          | none => exact safe_insertReport hf hzfree (hu.env hf (hy.trans hz).rely)

/-- What a call that raises must have raised, and what one that returns must have returned. -/
def Refused (db : Db) : Call → Exn → Prop
  | .block _ blockerId blockedId, e => BlockRefused db blockerId blockedId e
  | .unblock _ _, _ => False
  | .report _ messageId reason, e => ReportRefused db messageId reason e

def Answered (db : Db) : Call → Option MessageReport → Prop
  | .report reporterId messageId _, some row => standing db messageId reporterId = [row]
  | .report _ _ _, none => False
  | _, _ => True

theorem Answered.env {call : Call} {result : Option MessageReport} {a b : Db}
    (h : Answered a call result) (ho : Others minted p a b) (hb : OneReport b) :
    Answered b call result := by
  cases call with
  | block identityMap blockerId blockedId => trivial
  | unblock blockerId blockedId => trivial
  | report reporterId messageId reason =>
      cases result with
      | none => exact h
      | some row => exact ho.standing hb h

theorem safe_body (hf : FreshIds db₀ minted) (hi : Kept db₀ x.db) (hx : x.work = none)
    (hu : Unsent (minted p) x.db) (call : Call) :
    Safe (along (Prod.mk call) (spec db₀ minted)) p (call.body (minted p))
      (fun result y => Answered y.db call result) (fun e _ => Refused db₀ call e) x := by
  cases call with
  | block identityMap blockerId blockedId =>
      apply Safe.andThen (safe_blockUser hx) hi
      exact fun _ _ _ _ => Safe.pure fun _ _ => trivial
  | unblock blockerId blockedId =>
      apply Safe.andThen (safe_unblockUser hx) hi
      exact fun _ _ _ _ => Safe.pure fun _ _ => trivial
  | report reporterId messageId reason =>
      apply Safe.andThen (safe_reportMessage hf hx hu) hi
      intro row y hy hrow
      apply Safe.pure
      intro z hz
      have hothers : Others minted p y.db z.db := hz.rely
      exact hothers.standing hz.inv.oneReport hrow

theorem safe_family {calls : ℕ → Call} {mem : Memory} (hdb : OneReport db₀)
    (hf : FreshIds db₀ minted) (p : ℕ) :
    Safe (spec db₀ minted) p (family calls minted p)
      (fun result y => Answered y.db (calls p) result) (fun e _ => Refused db₀ (calls p) e)
      ⟨db₀, mem, none⟩ := by
  have hkept : Kept db₀ db₀ := ⟨rfl, rfl, hdb⟩
  have hbody := safe_body (p := p) (x := ⟨db₀, mem, none⟩) hf hkept rfl (hf.new p) (calls p)
  apply safe_relabel
  apply Safe.session (hbody.mono ?_ ?_) hkept
  · intro result y _ hanswer z hz
    have hothers : Others minted p y.db z.db := hz.rely
    exact hanswer.env hothers hz.inv.oneReport
  · exact fun _ _ _ hrefused _ _ => hrefused

end

/-! ## Runs -/

section
variable {db : Db} {mem : Memory} {calls : ℕ → Call} {minted : ℕ → String}
  {c : Cfg ℕ Db Memory (Call × Label) Exn (Option MessageReport)}

/-- What call `p` owes wherever a run has come: it loses to no other call, a block of another
account that exists and an unblock do not raise, and a report of a message that exists with a
reason of the closed set returns the one row. -/
structure Idempotent (db : Db) (calls : ℕ → Call)
    (c : Cfg ℕ Db Memory (Call × Label) Exn (Option MessageReport)) (p : ℕ) : Prop where
  wins : c.procs p ≠ .raise .integrityError
  block : ∀ identityMap a b, calls p = .block identityMap a b → a ≠ b →
    (∃ u ∈ db.users, u.id = b) → ∀ e, c.procs p ≠ .raise e
  unblock : ∀ a b, calls p = .unblock a b → ∀ e, c.procs p ≠ .raise e
  report : ∀ u m reason r, calls p = .report u m reason → asReason reason = .ok r →
    (∃ x ∈ db.messages, x.id = m) → (∀ e, c.procs p ≠ .raise e) ∧
      ∀ result, c.procs p = .ret result → ∃ row, result = some row ∧ standing c.db m u = [row]

/-- In a run whose INSERTs all find their row absent. -/
theorem blocks_and_reports_idempotent (hdb : OneReport db) (hf : FreshIds db minted)
    (hr : Cfg.Reach (fun t x => rowAbsent t x = true) (Cfg.init db mem (family calls minted)) c)
    (p : ℕ) : Idempotent db calls c p := by
  have hinit : Sound (spec db minted) (fun p result y => Answered y.db (calls p) result)
      (fun p e _ => Refused db (calls p) e) (Cfg.init db mem (family calls minted)) :=
    Sound.init ⟨rfl, rfl, hdb⟩ (safe_family hdb hf)
  have hsound := hinit.reach hr
  have hraised : ∀ e, c.procs p = .raise e → Refused db (calls p) e := fun e he =>
    hsound.raised he
  have hreturned : ∀ result, c.procs p = .ret result → Answered c.db (calls p) result :=
    fun result hret => hsound.returned hret
  constructor
  · intro he
    have hrefused := hraised _ he
    cases hcall : calls p with
    | block identityMap a b =>
        rw [hcall] at hrefused
        rcases hrefused with ⟨h, _⟩ | ⟨h, _⟩ <;> cases h
    | unblock a b =>
        rw [hcall] at hrefused
        exact hrefused
    | report u m reason =>
        rw [hcall] at hrefused
        rcases hrefused with h | ⟨h, _⟩
        · cases reason with
          | member r => cases h
          | str s =>
              rw [asReason] at h
              split at h <;> cases h
        · cases h
  · intro identityMap a b hcall hab hexists e he
    have hrefused := hraised e he
    rw [hcall] at hrefused
    rcases hrefused with ⟨_, hself⟩ | ⟨_, hnone⟩
    · exact hab hself
    · obtain ⟨u, hu, hid⟩ := hexists
      have hother : ∀ u ∈ db.users, u.id ≠ b := by
        simpa [Db.userById, List.find?_eq_none] using hnone
      exact hother u hu hid
  · intro a b hcall e he
    have hrefused := hraised e he
    rw [hcall] at hrefused
    exact hrefused
  · intro u m reason r hcall hreason hexists
    constructor
    · intro e he
      have hrefused := hraised e he
      rw [hcall] at hrefused
      rcases hrefused with h | ⟨_, hnone⟩
      · rw [hreason] at h
        cases h
      · obtain ⟨x, hx, hid⟩ := hexists
        exact hnone x hx hid
    · intro result hret
      have hanswer := hreturned result hret
      rw [hcall] at hanswer
      cases result with
      | none => exact hanswer.elim
      | some row => exact ⟨row, rfl, hanswer⟩

end

/-! ## Two identical calls -/

def twoAccounts : Db where
  users := [{ id := "A", username := "a", aikoUsername := "a" },
    { id := "B", username := "b", aikoUsername := "b" }]
  messages := [{ id := "M", channelId := "C", senderUserId := some "B", body := "hi" }]

def blocks (_ : ℕ) : Call := .block [] "A" "B"

def reports (_ : ℕ) : Call := .report "A" "M" (.str (codes "spam"))

def mintedIds (p : ℕ) : String := String.ofList (List.replicate p 'R')

theorem freshIds_twoAccounts : FreshIds twoAccounts mintedIds := by
  constructor
  · intro p r hr
    cases hr
  · intro p q hpq h
    apply hpq
    have hlists := String.ofList_injective h
    have hlength := congrArg List.length hlists
    simpa using hlength

theorem oneReport_twoAccounts : OneReport twoAccounts := fun _ _ => Nat.zero_le 1

/-- One report after the other: the second returns the row of the first. -/
theorem reports_in_turn_idempotent :
    ∃ c, Cfg.playChecked rowAbsent [0, 0, 0, 0, 0, 1, 1, 1]
        (Cfg.init twoAccounts {} (family reports mintedIds)) = some c ∧
      ∀ p, Idempotent twoAccounts reports c p := by
  have hrun : (Cfg.playChecked rowAbsent [0, 0, 0, 0, 0, 1, 1, 1]
      (Cfg.init twoAccounts {} (family reports mintedIds))).isSome = true := by
    decide +kernel
  obtain ⟨c, hc⟩ := Option.isSome_iff_exists.mp hrun
  exact ⟨c, hc, fun p => blocks_and_reports_idempotent oneReport_twoAccounts freshIds_twoAccounts
    (Cfg.reach_of_playChecked (fun _ _ h => h) Cfg.Reach.start hc) p⟩

/-- The second of two calls has lost. -/
def secondLost (c : Cfg ℕ Db Memory (Call × Label) Exn (Option MessageReport)) : Bool :=
  match c.procs 1 with
  | .raise e => e = .integrityError
  | _ => false

/-- Both look for the block and find none; both insert it. -/
theorem a_block_can_lose :
    ¬∀ (db : Db) (mem : Memory) (calls : ℕ → Call) (minted : ℕ → String)
      (c : Cfg ℕ Db Memory (Call × Label) Exn (Option MessageReport)), OneReport db →
      FreshIds db minted → Cfg.Reach (fun _ _ => True) (Cfg.init db mem (family calls minted)) c →
        ∀ p, Idempotent db calls c p := by
  intro hclaim
  have hrun : (Cfg.play [0, 0, 1, 1, 0, 0, 0, 1, 1, 1]
      (Cfg.init twoAccounts {} (family blocks mintedIds))).map secondLost = some true := by
    decide +kernel
  obtain ⟨c, hc, hlost⟩ := Option.map_eq_some_iff.mp hrun
  have hwins := (hclaim twoAccounts {} blocks mintedIds c oneReport_twoAccounts
    freshIds_twoAccounts (Cfg.reach_of_play Cfg.Reach.start hc) 1).wins
  unfold secondLost at hlost
  split at hlost
  · rename_i e he
    rw [of_decide_eq_true hlost] at he
    exact hwins he
  · cases hlost

end AikoIsland.DuplicateRequests
