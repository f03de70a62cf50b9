import AikoIsland.AccountDeletion
import AikoIsland.Settling

/-!
# The gateway's transactions among other requests

How a flush that may be refused settles, and what a request with notes owes behind the
session gate.

An account deletion reads the channels that its user administers before it takes the
lock, and from its first DELETE on it is one computation on its working copy. So among
any other requests it does one of two things: it raises and publishes nothing, or its
one commit publishes a store that the user has departed from. Which channels it had
read by then only decides which of the two. The notes there are those of a history that
does not look at memberships.
-/
namespace AikoIsland.Transactions
open Tables Gateway Passkeys Accounts AccountDeletion WriterLock RelyGuarantee Publishing History
  Settling

/-! ## Flushes -/

section
variable {α : Type} {f : Db → Option Db} {t : Label} {k : Unit → Body α} {s s' : Db}

theorem settle_flushOrRaise_some (h : f s = some s') :
    (flushOrRaise f t >>= k).settle s = (k ()).settle s' := by
  have hassoc : flushOrRaise f t >>= k = Request.attempt false t f >>= _ :=
    Request.bind_assoc _ _ _
  rw [hassoc, settle_attempt_some h]
  rfl

theorem settle_flushOrRaise_none (h : f s = none) :
    (flushOrRaise f t >>= k).settle s = .rolledBack (throwExn .integrityError) := by
  have hassoc : flushOrRaise f t >>= k = Request.attempt false t f >>= _ :=
    Request.bind_assoc _ _ _
  rw [hassoc, settle_attempt_none h]
  rfl

end

/-! ## The session gate -/

section
variable {π α ℓ : Type} {S : Spec π (Db × List ℓ) Memory Label} {p : π}
  {G : Db × List ℓ → Db × List ℓ → Prop}
  {N : Option ((Db × List ℓ) × (Db × List ℓ)) → Except Exn α → Prop}
  {past : List ((Db × List ℓ) × (Db × List ℓ))} {x : Point (Db × List ℓ) Memory}
  {note : Db → Db → List ℓ}

/-- Behind the gate the user is the one that the gate's SELECT found. -/
theorem publishes_noted_getCurrentUser {token : Option Claims} {k : User → Body α}
    (hraise : ∀ e, Owed N past (.error e))
    (h : ∀ y user, S.Env p x y → gate token y.view.1 = .ok user →
      Publishes S p G N past (noting note (k user)) y) :
    Publishes S p G N past (noting note (getCurrentUser token >>= k)) x := by
  intro y hy
  beta_reduce
  cases hgate : gate token y.view.1 with
  | ok user => exact h y user hy hgate
  | error e => cases e <;> exact hraise _

end

/-! ## Live sockets -/

section
variable {π α ℓ : Type} {S : Spec π (Db × List ℓ) Memory Label} {p : π}
  {G : Db × List ℓ → Db × List ℓ → Prop}
  {N : Option ((Db × List ℓ) × (Db × List ℓ)) → Except Exn α → Prop}
  {past : List ((Db × List ℓ) × (Db × List ℓ))} {x : Point (Db × List ℓ) Memory}
  {note : Db → Db → List ℓ}

/-- Closing the sockets of a user publishes nothing. -/
theorem publishes_noted_disconnectUser
    (hact : ∀ y g, S.inv y.db y.mem → S.Allows p y (y.acted g)) {userId : String} {a : α}
    (ha : Owed N past (.ok a)) :
    Publishes S p G N past (noting note (disconnectUser userId >>= fun _ => pure a)) x := by
  have hclose : ∀ (targets : List ℕ) (y : Point (Db × List ℓ) Memory),
      Publishes S p G N past (noting note (closeAll targets >>= fun _ => pure a)) y := by
    intro targets
    induction targets with
    | nil => exact fun _ => ha
    | cons conn targets ih =>
        intro y z hz _
        refine ⟨hact z _ hz.inv, ?_⟩
        intro v hv _
        exact ⟨hact v _ hv.inv, ih _⟩
  intro y hy _
  exact ⟨hact y _ hy.inv, hclose _ _⟩

end

/-! ## Account deletion -/

section
variable {α ℓ : Type} {userId : String} {note : Db → Db → List ℓ}

/-- The loop after the DELETE for `channelId`. -/
def afterDelete (userId channelId : String) (channelIds : List String) (rowcount : ℕ) :
    Body (List String) := do
  let stillPresent ← if rowcount = 0 then
      select fun db => db.memberships.any fun m =>
        m.channelId = channelId && m.userId = userId && m.role = .admin
    else pure false
  let refused ← removeAdminMemberships userId channelIds
  return if stillPresent then channelId :: refused else refused

theorem removeAdminMemberships_cons (channelId : String) (channelIds : List String)
    (k : List String → Body α) :
    removeAdminMemberships userId (channelId :: channelIds) >>= k =
      select (fun db => db.memberships.filter fun m =>
        m.channelId = channelId && m.role = .admin) >>= fun _ =>
      execute (deleteAdminMembership channelId userId) (adminDeleteRowcount channelId userId)
        .plain >>= fun rowcount => afterDelete userId channelId channelIds rowcount >>= k := rfl

/-- The loop settles in the rest, on the store without the rows that it may delete. -/
theorem settle_removeAdminMemberships
    (hnote : ∀ a rows, note a { a with memberships := rows } = []) (channelIds : List String)
    (k : List String → Body α) (s : Db) : ∃ refused,
      (removeAdminMemberships userId channelIds >>= k).settle s =
        (k refused).settle (channelIds.foldl (fun s c => deleteAdminMembership c userId s) s) ∧
      trail note (removeAdminMemberships userId channelIds >>= k) s =
        trail note (k refused)
          (channelIds.foldl (fun s c => deleteAdminMembership c userId s) s) := by
  induction channelIds generalizing s k with
  | nil => exact ⟨[], rfl, rfl⟩
  | cons c cs ih =>
      -- whether the row is still there is known by now
      have hrest : ∀ still : Bool, ∃ refused,
          ((removeAdminMemberships userId cs >>= fun refused =>
            pure (if still then c :: refused else refused)) >>= k).settle
              (deleteAdminMembership c userId s) = (k refused).settle
                (cs.foldl (fun s c => deleteAdminMembership c userId s)
                  (deleteAdminMembership c userId s)) ∧
          trail note ((removeAdminMemberships userId cs >>= fun refused =>
            pure (if still then c :: refused else refused)) >>= k)
              (deleteAdminMembership c userId s) = trail note (k refused)
                (cs.foldl (fun s c => deleteAdminMembership c userId s)
                  (deleteAdminMembership c userId s)) := by
        intro still
        obtain ⟨refused, hsettle, htrail⟩ := ih
          (fun refused => k (if still then c :: refused else refused))
          (deleteAdminMembership c userId s)
        have hassoc : ((removeAdminMemberships userId cs >>= fun refused =>
            pure (if still then c :: refused else refused)) >>= k) =
              removeAdminMemberships userId cs >>= fun refused =>
                k (if still then c :: refused else refused) := Request.bind_assoc _ _ _
        rw [hassoc]
        exact ⟨_, hsettle, htrail⟩
      have hsilent : note s (deleteAdminMembership c userId s) = [] := hnote s _
      rw [removeAdminMemberships_cons, List.foldl_cons]
      by_cases hrow : adminDeleteRowcount c userId s = 0
      · obtain ⟨refused, hsettle, htrail⟩ := hrest
          ((deleteAdminMembership c userId s).memberships.any fun m =>
            m.channelId = c && m.userId = userId && m.role = .admin)
        refine ⟨refused, ?_, ?_⟩
        · change (afterDelete userId c cs (adminDeleteRowcount c userId s) >>= k).settle _ = _
          rw [afterDelete, if_pos hrow, ← hsettle]
          rfl
        · change note s (deleteAdminMembership c userId s) ++ trail note
            (afterDelete userId c cs (adminDeleteRowcount c userId s) >>= k) _ = _
          rw [afterDelete, if_pos hrow, hsilent, ← htrail]
          rfl
      · obtain ⟨refused, hsettle, htrail⟩ := hrest false
        refine ⟨refused, ?_, ?_⟩
        · change (afterDelete userId c cs (adminDeleteRowcount c userId s) >>= k).settle _ = _
          rw [afterDelete, if_neg hrow, ← hsettle]
          rfl
        · change note s (deleteAdminMembership c userId s) ++ trail note
            (afterDelete userId c cs (adminDeleteRowcount c userId s) >>= k) _ = _
          rw [afterDelete, if_neg hrow, hsilent, ← htrail]
          rfl

/-- The statements of the teardown. -/
def tearingDown (userId : String) : Body Unit :=
  (teardown userId).forM fun s => execute s.2 (fun _ => ()) s.1

/-- From its first DELETE the deletion raises, or its commit publishes the departure. -/
theorem settle_deletion (hnote : ∀ a rows, note a { a with memberships := rows } = [])
    (channelIds : List String) (s : Db) : ∃ rows,
      (rows.filter fun m => m.userId ≠ userId) =
        (s.memberships.filter fun m => m.userId ≠ userId) ∧
      let r : Body Unit := removeAdminMemberships userId channelIds >>= fun refused =>
        (if refused = [] then pure () else throwExn (.cannotDeleteSoleAdmin refused)) >>=
          fun _ => tearingDown userId >>= fun _ => commit
      ((∃ e s', r.settle s = .raised e s') ∨
        r.settle s = .committed .plain ((teardown userId).foldl (fun s t => t.2 s)
          { s with memberships := rows }) (.ret ()) ∧
        trail note r s = trail note (tearingDown userId) { s with memberships := rows }) := by
  obtain ⟨refused, hsettle, htrail⟩ := settle_removeAdminMemberships hnote channelIds
    (fun refused =>
      (if refused = [] then pure () else throwExn (.cannotDeleteSoleAdmin refused)) >>=
      fun _ => tearingDown userId >>= fun _ => commit) s
  obtain ⟨rows, hfold, hrows⟩ := foldl_delete userId channelIds s
  refine ⟨rows, hrows, ?_⟩
  dsimp only
  rw [hsettle, htrail, hfold]
  by_cases hrefused : refused = []
  · right
    rw [if_pos hrefused]
    constructor
    · exact settle_execs (teardown userId) (fun _ => commit) _
    · have hsplit := trail_execs note (teardown userId) (fun _ => (commit : Body Unit))
        { s with memberships := rows }
      exact hsplit.trans (List.append_nil _)
  · left
    rw [if_neg hrefused]
    exact ⟨_, _, rfl⟩

variable {π : Type} {S : Spec π (Db × List ℓ) Memory Label} {p : π}
  {G : Db × List ℓ → Db × List ℓ → Prop}
  {N : Option ((Db × List ℓ) × (Db × List ℓ)) → Except Exn Unit → Prop}
  {past : List ((Db × List ℓ) × (Db × List ℓ))} {x : Point (Db × List ℓ) Memory}

/-- The deletion among other requests; `left` is what the teardown notes. -/
theorem publishes_deleteUserAccount (left : Db → List ℓ)
    (hnote : ∀ a rows, note a { a with memberships := rows } = [])
    (hleft : ∀ a rows, trail note (tearingDown userId) { a with memberships := rows } = left a)
    (hx : x.work = none) (hraise : ∀ e, Owed N past (.error e))
    (h : ∀ y b, S.Env p x y → Departed userId y.db.1 b →
      G y.db (b, y.db.2 ++ left y.db.1) ∧
        S.Allows p y { y with db := (b, y.db.2 ++ left y.db.1) } ∧
        Owed N ((y.db, (b, y.db.2 ++ left y.db.1)) :: past) (.ok ())) :
    Publishes S p G N past (noting note (deleteUserAccount userId)) x := by
  have howes : ∀ channelIds y, S.Env p x y → Owes S p G N past y.refused (notedOutcome note
      (y.view.2 ++ trail note (removeAdminMemberships userId channelIds >>= fun refused =>
        (if refused = [] then pure () else throwExn (.cannotDeleteSoleAdmin refused)) >>=
          fun _ => tearingDown userId >>= fun _ => commit) y.view.1)
      ((removeAdminMemberships userId channelIds >>= fun refused =>
        (if refused = [] then pure () else throwExn (.cannotDeleteSoleAdmin refused)) >>=
          fun _ => tearingDown userId >>= fun _ => commit).settle y.view.1)) := by
    intro channelIds y hy
    have hview : y.view = y.db := Point.view_of_none (hy.free hx)
    rw [hview]
    obtain ⟨rows, hrows, hsettle⟩ := settle_deletion hnote channelIds y.db.1
    rcases hsettle with ⟨e, s', hsettle⟩ | ⟨hsettle, htrail⟩
    · rw [hsettle]
      exact hraise e
    · rw [hsettle, htrail, hleft]
      intro z hz _
      have hdb : z.db = y.db := hz.db_eq rfl
      have hz' : S.Env p x z.rolledBack := hy.unlocked hx hz
      have hdeparted := departed_teardown hrows
      obtain ⟨hG, hallow, hN⟩ := h z.rolledBack _ hz'
        (by rw [Point.rolledBack_db, hdb]; exact hdeparted)
      rw [Point.rolledBack_db, hdb] at hG hallow hN
      rw [hdb]
      exact ⟨hG, ⟨hallow.inv, by simpa [hdb] using hallow.others⟩, hN⟩
  have hassoc : deleteUserAccount userId = select (adminChannels userId) >>= fun channelIds =>
      removeAdminMemberships userId channelIds >>= fun refused =>
        (if refused = [] then pure () else throwExn (.cannotDeleteSoleAdmin refused)) >>=
          fun _ => tearingDown userId >>= fun _ => commit := by
    unfold deleteUserAccount removeAdminMembershipsOrRefuse
    change Request.bind (Request.bind _ _) _ = Request.bind _ _
    rw [Request.bind_assoc]
    congr 1
    funext channelIds
    exact Request.bind_assoc _ _ _
  rw [hassoc]
  intro y hy
  change Publishes S p G N past (noting note (removeAdminMemberships userId
    (adminChannels userId y.view.1) >>= fun refused =>
      (if refused = [] then pure () else throwExn (.cannotDeleteSoleAdmin refused)) >>=
        fun _ => tearingDown userId >>= fun _ => commit)) y
  cases adminChannels userId y.view.1 with
  | nil =>
      apply publishes_noted_execs (by simp [teardown])
      exact fun z hz => howes [] z (hy.trans hz)
  | cons c cs =>
      rw [removeAdminMemberships_cons]
      intro z hz
      apply publishes_noted_write
      · exact ⟨_, _, _, _, rfl⟩
      · exact fun v hv => howes (c :: cs) v (hy.trans (hz.trans hv))

end

end AikoIsland.Transactions
