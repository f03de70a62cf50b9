import AikoIsland.Frames
import AikoIsland.Grouping
import AikoIsland.Serial

/-!
# Which frames are answered

One turn of the receive loop, run alone on any store. It answers and goes on
unless it comes to a value that does not bind or to more of them than a statement
takes. The shape checks keep the types of the ids and of the body, but not lone
surrogates out of them, they let a list of ids have any length, any value through
as the reply target and any positive integer as the version of a key.

So a subscription fails on a channel id with a surrogate, and on more ids than
leave room for the user among the parameters of the statement. A send fails on such a
channel id; then, if the channel is there and may be posted to, on a reply target
that the ORM or the driver refuses; then, if the target, the origin and the
mentions pass, on such a client id; then, if the row is new and no block stands in
the way, on a version beyond 64 bits, on a body with a surrogate, or on a reply
target that the lookup took but the row does not.
-/
namespace AikoIsland.FrameAnswers
open Tables Gateway SigningKeys Memberships Messages Realtime Frames JsonText WriterLock

/-! ## Conditions -/

/-- The frame was answered, and the loop goes on. -/
def Answered (conn : ℕ) (mem : Memory) (r : Except Exn Unit × Point Db Memory) : Prop :=
  r.1 = .ok () ∧ ∃ reply rest, r.2.mem.calls = mem.calls ++ .reply conn reply :: rest

/-- The ids that the generator mints are new, and a key is not two rows. -/
structure Mints (minted : Minted) (db : Db) : Prop where
  message : ∀ m ∈ db.messages, m.id ≠ minted.msgId
  key : ∃ id ∈ minted.keyIds, ∀ k ∈ db.signingKeys, k.id ≠ id
  keyed : (db.signingKeys.map (·.id)).Nodup

/-- `can_post` as a function of the store. -/
def mayPost (user : User) (channel : Channel) (db : Db) : Bool :=
  if channel.isPrivate then (db.membershipOf channel.id user.id).any (·.canPost)
  else (db.membershipOf channel.id user.id).all (·.canPost)

/-- The verdict on a row that was found. -/
def targetVerdict (user : User) (channel : Channel) (found : Option Message) (db : Db) :
    Option (String × String) :=
  match found with
  | none => some ("no_reply_target", "reply target not found in this channel")
  | some target =>
      if target.channelId ≠ channel.id then
        some ("no_reply_target", "reply target not found in this channel")
      else
        match target.senderUserId with
        | none => none
        | some sender =>
            if channel.kind = .dm ∨ user.id = sender then none
            else if db.blocks.any fun b =>
                (b.blockerUserId = user.id && b.blockedUserId = sender) ||
                  (b.blockerUserId = sender && b.blockedUserId = user.id) then
              some ("blocked", "cannot reply to a blocked user")
            else none

section
variable (d : Driver) (user : User) (channel : Channel)

/-- The key that the lookup of a reply target compares with; `none` when it raises. -/
def lookupKey (v : Json) : Option (Option String) := (identityOf d v).bind (bound d)

/-- The check of a reply target as a function of the store; `none` when it raises. -/
def targetCheck (v : Json) (db : Db) : Option (Option (String × String)) :=
  match v with
  | .null => some none
  | v => (lookupKey d v).map fun key => targetVerdict user channel
      (key.bind fun id => db.messages.find? fun m => m.id = id) db

/-- A new send to a DM that is refused under a block. -/
def dmRefused (db : Db) : Bool :=
  decide (channel.kind = .dm) &&
    match canonicalPeerIds channel.aikoChannel user.id with
    | none => true
    | some ids => ids.any fun p => p ∈ db.blockedPairUserIds user.id

/-- A new row has a value that does not bind. -/
def Unbound (f : RawSend) (origin : Option Origin) : Prop :=
  (∃ o, origin = some o ∧ maxInteger < o.keyVersion) ∨ encode f.body = none ∨
    bound d f.replyTo = none

/-- Creating the row comes to a value that does not bind. -/
def CreationFails (f : RawSend) (origin : Option Origin) (db : Db) : Prop :=
  encode f.clientMsgId = none ∨
    ∃ clientMsgId, encode f.clientMsgId = some clientMsgId ∧
      (db.messages.find? fun m => m.channelId = channel.id && m.clientMsgId = some clientMsgId) =
        none ∧
      dmRefused user channel db = false ∧ Unbound d f origin

variable (repr : Json → String) (category : ℕ → Mentions.GeneralCategory)

/-- In a channel that is readable, a send comes to a value that does not bind. -/
def ChannelFails (f : RawSend) (db : Db) : Prop :=
  mayPost user channel db = true ∧
    (targetCheck d user channel f.replyTo db = none ∨
      targetCheck d user channel f.replyTo db = some none ∧
        ∃ origin spans, validateOrigin repr f.origin f.clientMsgId = .ok origin ∧
          Mentions.validateMentions category f.mentions = .ok spans ∧
          CreationFails d user channel f origin db)

/-- A send comes to a value that does not bind. -/
def SendFails (f : RawSend) (db : Db) : Prop :=
  encode f.channelId = none ∨
    ∃ channelId channel, encode f.channelId = some channelId ∧
      db.readableChannel user.id channelId = some channel ∧
      ChannelFails d user channel repr category f db

/-- A subscription has too many ids for one statement, or one that does not bind. -/
def SubscribeFails (channelIds : List PyStr) : Prop :=
  channelIds ≠ [] ∧ d.maxVariables < channelIds.length + 1 ∨ ∃ s ∈ channelIds, encode s = none

/-- The frames that end the connection. -/
def FrameFails (raw : Json) (db : Db) : Prop :=
  match parseInbound repr raw with
  | .error _ => False
  | .ok (.subscribe channelIds) => SubscribeFails d channelIds
  | .ok (.send f) => SendFails d user repr category f db

end

/-! ## Statements -/

section
variable {x : Point Db Memory} {d : Driver} {user : User} {channel : Channel}

theorem run_bindText_some {s : PyStr} {t : String} (h : encode s = some t) :
    (bindText s).run x = (.ok t, x) := by
  rw [bindText_eq h]
  rfl

theorem run_bindText_none {s : PyStr} (h : encode s = none) :
    (bindText s).run x = (.error .unicodeEncodeError, x) := by
  rw [bindText, h]
  rfl

theorem run_bindValue_some {v : Json} {t : Option String} (h : bound d v = some t) :
    (bindValue d v).run x = (.ok t, x) := by
  rw [bindValue, h]
  rfl

theorem run_bindValue_none {v : Json} (h : bound d v = none) :
    (bindValue d v).run x = (.error (bindError v), x) := by
  rw [bindValue, h]
  rfl

theorem bindError_ne (v : Json) : bindError v ≠ .blockedDmSend := by
  cases v <;> simp [bindError]

theorem run_canPost : (canPost user.id channel).run x = (.ok (mayPost user channel x.view), x) := by
  rw [canPost, Request.run_bind, membership, select, Request.run_query]
  dsimp only
  unfold mayPost
  split_ifs <;> rfl

theorem run_getMessage (d : Driver) (x : Point Db Memory) (v : Json) :
    (∃ key, lookupKey d v = some key ∧ (getMessage d v).run x =
        (.ok (key.bind fun id => x.view.messages.find? fun m => m.id = id), x)) ∨
      lookupKey d v = none ∧ ∃ e, (getMessage d v).run x = (.error e, x) := by
  unfold getMessage lookupKey
  cases identityOf d v with
  | none => exact Or.inr ⟨rfl, _, rfl⟩
  | some key =>
      dsimp only
      rw [Request.run_bind, Option.bind_some]
      cases hbound : bound d key with
      | none =>
          rw [run_bindValue_none hbound]
          exact Or.inr ⟨rfl, _, rfl⟩
      | some t =>
          rw [run_bindValue_some hbound]
          left
          refine ⟨t, rfl, ?_⟩
          cases t <;> rfl

theorem run_judgeTarget (found : Option Message) :
    (judgeTarget user channel found).run x =
      (.ok (targetVerdict user channel found x.view), x) := by
  unfold judgeTarget targetVerdict
  cases found with
  | none => rfl
  | some target =>
      dsimp only
      by_cases hchannel : target.channelId ≠ channel.id
      · rw [if_pos hchannel, if_pos hchannel]
        rfl
      · rw [if_neg hchannel, if_neg hchannel]
        cases target.senderUserId with
        | none => rfl
        | some sender =>
            dsimp only
            by_cases hdm : channel.kind = .dm
            · rw [if_pos hdm, if_pos (Or.inl hdm)]
              rfl
            · rw [if_neg hdm, Request.run_bind, isBlockedBetween]
              by_cases hself : user.id = sender
              · rw [if_pos hself, if_pos (Or.inr hself)]
                rfl
              · rw [if_neg hself, if_neg (not_or.mpr ⟨hdm, hself⟩), select, Request.run_query]
                dsimp only
                split_ifs <;> rfl

variable (d user channel) in
/-- The checks of the reply target are a function of the store. -/
theorem run_checkTarget (v : Json) :
    (∃ verdict, targetCheck d user channel v x.view = some verdict ∧
        (checkTarget d user channel v).run x = (.ok verdict, x)) ∨
      targetCheck d user channel v x.view = none ∧
        ∃ e, (checkTarget d user channel v).run x = (.error e, x) := by
  by_cases hnull : v = .null
  · subst hnull
    exact Or.inl ⟨none, rfl, rfl⟩
  · have hcheck : checkTarget d user channel v =
        (getMessage d v >>= fun found => judgeTarget user channel found) := by
      cases v with
      | null => exact absurd rfl hnull
      | _ => rfl
    have htarget : targetCheck d user channel v x.view = (lookupKey d v).map fun key =>
        targetVerdict user channel
          (key.bind fun id => x.view.messages.find? fun m => m.id = id) x.view := by
      cases v with
      | null => exact absurd rfl hnull
      | _ => rfl
    rw [hcheck, htarget, Request.run_bind]
    cases run_getMessage d x v with
    | inr hraised =>
        obtain ⟨hkey, e, hrun⟩ := hraised
        rw [hkey, hrun]
        exact Or.inr ⟨rfl, e, rfl⟩
    | inl hfound =>
        obtain ⟨key, hkey, hrun⟩ := hfound
        rw [hkey, hrun]
        left
        exact ⟨_, rfl, run_judgeTarget _⟩

theorem run_refuseBlockedDm :
    (refuseBlockedDm user channel).run x =
      (if dmRefused user channel x.view then .error .blockedDmSend else .ok (), x) := by
  unfold refuseBlockedDm dmRefused
  by_cases hdm : channel.kind = .dm
  · rw [if_neg (not_not.mpr hdm), decide_eq_true hdm, Bool.true_and]
    cases canonicalPeerIds channel.aikoChannel user.id with
    | none => rfl
    | some ids =>
        cases ids with
        | nil => rfl
        | cons id ids =>
            dsimp only
            rw [Request.run_bind, select, Request.run_query]
            dsimp only
            split_ifs <;> rfl
  · rw [if_pos hdm, decide_eq_false hdm, Bool.false_and]
    rfl

/-! ## Keys -/

/-- The new statement finds the one row under the id. -/
theorem run_flushBump {id : String} {now : Time}
    (hkeyed : (x.view.signingKeys.map (·.id)).Nodup) (hrow : ∃ k ∈ x.view.signingKeys, k.id = id) :
    (flushBump id now).run x = (.ok (), { x with work := some (bumpKey id now x.view) }) := by
  obtain ⟨k, hk, hid⟩ := hrow
  have hone : (x.view.signingKeys.filter fun k => k.id = id).length = 1 := by
    apply OrderedDict.length_filter_one hkeyed hk
    · simpa using hid
    · intro k' _ hk'
      rw [hid]
      simpa using hk'
  rw [flushBump, Request.run_bind, execute, Request.run_exec]
  dsimp only
  rw [hone, if_pos rfl]
  rfl

theorem getKey_eq_none {userId pubkey : String} {db : Db} :
    getKey userId pubkey db = none ↔
      ∀ k ∈ db.signingKeys, k.userId = userId → k.pubkey ≠ pubkey := by
  simp [getKey]

/-- An observation is recorded when one of the minted ids is new. -/
theorem run_recordSigningKey {o : KeyObservation} {now bumpedAt : Time} {ids : List String}
    (hkeyed : (x.view.signingKeys.map (·.id)).Nodup)
    (hnew : ∃ id ∈ ids, ∀ k ∈ x.view.signingKeys, k.id ≠ id) :
    ∃ y, (recordSigningKey o now bumpedAt ids).run x = (.ok (), y) ∧ y.mem = x.mem ∧
      y.view.messages = x.view.messages := by
  induction ids generalizing x with
  | nil =>
      obtain ⟨id, hid, _⟩ := hnew
      cases hid
  | cons id ids ih =>
      rw [recordSigningKey, Request.run_bind, flushNested]
      cases hinsert : x.view.insertSigningKey (o.row id now) with
      | some db' =>
          rw [Request.run_attempt_some hinsert]
          refine ⟨_, rfl, Point.wrote_mem true db' x, ?_⟩
          obtain ⟨_, rfl⟩ := Db.insertSigningKey_eq_some.mp hinsert
          rw [Point.wrote_view]
      | none =>
          rw [Request.run_attempt_none hinsert]
          change ∃ y, (select (getKey o.userId o.pubkey) >>= _ : Body Unit).run x.refused =
            (.ok (), y) ∧ _
          rw [Request.run_bind, select, Request.run_query]
          dsimp only
          rw [Point.refused_view]
          cases hkey : getKey o.userId o.pubkey x.view with
          | some existing =>
              have hrow : ∃ k ∈ x.refused.view.signingKeys, k.id = existing.id :=
                ⟨existing, List.mem_of_find?_eq_some hkey, rfl⟩
              exact ⟨_, run_flushBump hkeyed hrow, rfl, rfl⟩
          | none =>
              have hrest : ∃ id ∈ ids, ∀ k ∈ x.refused.view.signingKeys, k.id ≠ id := by
                obtain ⟨id', hid', hfree⟩ := hnew
                cases List.mem_cons.mp hid' with
                | inr hlater => exact ⟨id', hlater, hfree⟩
                | inl hfirst =>
                    -- with a free id and no row of the key nothing refuses the insert
                    subst hfirst
                    have hinserted := (Db.insertSigningKey_eq_some (k := o.row id' now)).mpr
                      ⟨fun k hk => ⟨hfree k hk, getKey_eq_none.mp hkey k hk⟩, rfl⟩
                    rw [hinsert] at hinserted
                    cases hinserted
              exact ih hkeyed hrest

/-- An origin is recorded if its version binds. -/
theorem run_recordVersion (user : User) (out : Outbound) {minted : Minted}
    (hmints : Mints minted x.view) :
    ((∀ o, out.origin = some o → ¬maxInteger < o.keyVersion) ∧
        ∃ y, (recordVersion user out minted).run x = (.ok (), y) ∧ y.mem = x.mem ∧
          y.view.messages = x.view.messages) ∨
      (∃ o, out.origin = some o ∧ maxInteger < o.keyVersion) ∧
        (recordVersion user out minted).run x = (.error (.raised "OverflowError"), x) := by
  unfold recordVersion
  cases horigin : out.origin with
  | none =>
      left
      constructor
      · intro o ho
        cases ho
      · exact ⟨x, rfl, rfl, rfl⟩
  | some origin =>
      dsimp only
      by_cases hlarge : maxInteger < origin.keyVersion
      · rw [if_pos hlarge]
        exact Or.inr ⟨⟨origin, rfl, hlarge⟩, rfl⟩
      · rw [if_neg hlarge]
        left
        constructor
        · intro o ho
          cases ho
          exact hlarge
        · unfold recordOrigin
          rw [horigin]
          exact run_recordSigningKey hmints.keyed hmints.key

/-! ## Creating the row -/

section
variable {f : RawSend} {origin : Option Origin} {spans : Option (List MentionSpan)}
  {minted : Minted}

variable (d user f origin spans) in
/-- After the checks: the key, the bindings and the row. -/
theorem run_storeNew {clientMsgId : String} (hmints : Mints minted x.view)
    (hnew : (x.view.messages.find? fun m =>
      m.channelId = channel.id && m.clientMsgId = some clientMsgId) = none) :
    (¬Unbound d f origin ∧ ∃ r y,
        (storeNew d user channel f origin spans minted clientMsgId).run x = (.ok r, y) ∧
          y.mem = x.mem) ∨
      Unbound d f origin ∧ ∃ e y,
        (storeNew d user channel f origin spans minted clientMsgId).run x = (.error e, y) ∧
          e ≠ .blockedDmSend := by
  unfold Unbound
  rw [storeNew, Request.run_bind]
  cases run_recordVersion user ⟨f.body, f.clientMsgId, none, origin, spans⟩ hmints with
  | inr hlarge =>
      obtain ⟨hversion, hrun⟩ := hlarge
      rw [hrun]
      exact Or.inr ⟨Or.inl hversion, _, _, rfl, by simp⟩
  | inl hrecorded =>
      obtain ⟨hversion, y, hrun, hmem, hmessages⟩ := hrecorded
      rw [hrun]
      dsimp only
      rw [Request.run_bind]
      cases hbody : encode f.body with
      | none =>
          rw [run_bindText_none hbody]
          exact Or.inr ⟨Or.inr (Or.inl rfl), _, _, rfl, by simp⟩
      | some body =>
          rw [run_bindText_some hbody]
          dsimp only
          rw [Request.run_bind]
          cases hreply : bound d f.replyTo with
          | none =>
              rw [run_bindValue_none hreply]
              exact Or.inr ⟨Or.inr (Or.inr rfl), _, _, rfl, bindError_ne f.replyTo⟩
          | some replyTo =>
              rw [run_bindValue_some hreply]
              dsimp only
              have hinsert : ∃ db', y.view.insertMessage (outboundRow user channel
                  ⟨f.body, f.clientMsgId, replyTo, origin, spans⟩ body clientMsgId minted) =
                  some db' := by
                refine ⟨_, Db.insertMessage_eq_some.mpr ⟨?_, rfl⟩⟩
                rw [hmessages]
                rw [List.find?_eq_none] at hnew
                intro m hm
                constructor
                · exact hmints.message m hm
                · intro _ hchannel hclient
                  apply hnew m hm
                  rw [Bool.and_eq_true, decide_eq_true_eq, decide_eq_true_eq]
                  exact ⟨hchannel, hclient⟩
              obtain ⟨db', hdb'⟩ := hinsert
              rw [Request.run_bind, flushOr, Request.run_bind, flush,
                Request.run_attempt_some hdb']
              left
              constructor
              · intro hunbound
                rcases hunbound with ⟨o, ho, hover⟩ | hnone | hnone
                · exact hversion o ho hover
                · cases hnone
                · cases hnone
              · exact ⟨_, _, rfl, (Point.wrote_mem false db' y).trans hmem⟩

variable (d user channel f origin spans) in
/-- Creating a row ends with a row, with the refusal of a DM send, or in the exception of a value
that does not bind. -/
theorem run_createRow (hmints : Mints minted x.view) :
    (¬CreationFails d user channel f origin x.view ∧
        ((∃ r y, (createRow d user channel f origin spans minted).run x = (.ok r, y) ∧
            y.mem = x.mem) ∨
          ∃ y, (createRow d user channel f origin spans minted).run x =
            (.error .blockedDmSend, y) ∧ y.mem = x.mem)) ∨
      CreationFails d user channel f origin x.view ∧
        ∃ e y, (createRow d user channel f origin spans minted).run x = (.error e, y) ∧
          e ≠ .blockedDmSend := by
  unfold CreationFails
  rw [createRow, Request.run_bind]
  cases hclient : encode f.clientMsgId with
  | none =>
      rw [run_bindText_none hclient]
      exact Or.inr ⟨Or.inl rfl, _, _, rfl, by simp⟩
  | some clientMsgId =>
      rw [run_bindText_some hclient]
      dsimp only
      rw [Request.run_bind, select, Request.run_query]
      dsimp only
      cases hexisting : x.view.messages.find? fun m =>
          m.channelId = channel.id && m.clientMsgId = some clientMsgId with
      | some existing =>
          left
          constructor
          · intro hfails
            cases hfails with
            | inl hnone => cases hnone
            | inr hlater =>
                obtain ⟨c, hc, hnone, _⟩ := hlater
                cases hc
                rw [hexisting] at hnone
                cases hnone
          · exact Or.inl ⟨_, x, rfl, rfl⟩
      | none =>
          dsimp only
          rw [Request.run_bind, run_refuseBlockedDm]
          cases hrefused : dmRefused user channel x.view with
          | true =>
              left
              constructor
              · intro hfails
                cases hfails with
                | inl hnone => cases hnone
                | inr hlater =>
                    obtain ⟨_, _, _, hopen, _⟩ := hlater
                    cases hopen
              · exact Or.inr ⟨x, rfl, rfl⟩
          | false =>
              cases run_storeNew d user f origin spans hmints hexisting with
              | inl hstored =>
                  obtain ⟨hbound, hrun⟩ := hstored
                  left
                  constructor
                  · intro hfails
                    cases hfails with
                    | inl hnone => cases hnone
                    | inr hlater =>
                        obtain ⟨_, _, _, _, hunbound⟩ := hlater
                        exact hbound hunbound
                  · exact Or.inl hrun
              | inr hraised =>
                  obtain ⟨hunbound, hrun⟩ := hraised
                  exact Or.inr ⟨Or.inr ⟨clientMsgId, rfl, hexisting, rfl, hunbound⟩, hrun⟩

/-! ## The transaction -/

/-- A row was persisted, or one reply went out. -/
def Handled (conn : ℕ) (mem : Memory) (r : Except Exn (Option Persisted) × Point Db Memory) :
    Prop :=
  (∃ p, r.1 = .ok (some p) ∧ r.2.mem = mem) ∨
    r.1 = .ok none ∧ ∃ reply, r.2.mem.calls = mem.calls ++ [.reply conn reply]

/-- Whether the transaction is handled depends on the failure alone. -/
def Decides (fails : Prop) (conn : ℕ) (mem : Memory)
    (r : Except Exn (Option Persisted) × Point Db Memory) : Prop :=
  (¬fails ∧ Handled conn mem r) ∨ (fails ∧ ∃ e, r.1 = .error e)

variable {conn : ℕ} {e : Surroundings}

theorem handled_refuse {mem : Memory} (hmem : x.mem = mem) (code detail : String) :
    Handled conn mem ((refuse conn (f.frame e) code detail).run x) := by
  subst hmem
  exact Or.inr ⟨rfl, _, rfl⟩

variable (conn d user channel f origin spans) in
theorem decides_persist (hmints : Mints e.minted x.view) :
    Decides (CreationFails d user channel f origin x.view) conn x.mem
      ((persist d conn user channel f e origin spans).run x) := by
  rw [persist, Request.run_bind, Frames.createOrRefuse, Request.run_handle, Request.run_bind]
  cases run_createRow d user channel f origin spans hmints with
  | inl hmade =>
      obtain ⟨hsound, hrun⟩ := hmade
      left
      constructor
      · exact hsound
      · cases hrun with
        | inl hrow =>
            obtain ⟨⟨row, created⟩, y, hrun, hmem⟩ := hrow
            rw [hrun]
            exact Or.inl ⟨_, rfl, hmem⟩
        | inr hrefused =>
            obtain ⟨y, hrun, hmem⟩ := hrefused
            rw [hrun]
            exact handled_refuse hmem _ _
  | inr hraised =>
      obtain ⟨hfails, exn, y, hrun, hother⟩ := hraised
      rw [hrun]
      right
      constructor
      · exact hfails
      · cases exn with
        | blockedDmSend => exact absurd rfl hother
        | _ => exact ⟨_, rfl⟩

theorem Decides.handled {fails : Prop} {mem : Memory}
    {r : Except Exn (Option Persisted) × Point Db Memory} (hsound : ¬fails)
    (h : Handled conn mem r) : Decides fails conn mem r := Or.inl ⟨hsound, h⟩

variable (conn d user channel f) (repr : Json → String) (category : ℕ → Mentions.GeneralCategory)

theorem decides_sendInChannel (hmints : Mints e.minted x.view) :
    Decides (ChannelFails d user channel repr category f x.view) conn x.mem
      ((sendInChannel d repr category conn user channel f e).run x) := by
  unfold ChannelFails
  rw [sendInChannel, Request.run_bind, run_canPost]
  dsimp only
  cases hpost : mayPost user channel x.view with
  | false =>
      apply Decides.handled
      · intro hfails
        cases hfails.1
      · exact handled_refuse rfl _ _
  | true =>
      rw [if_neg (by simp), Request.run_bind]
      cases run_checkTarget d user channel f.replyTo with
      | inr hraised =>
          obtain ⟨hnone, exn, hrun⟩ := hraised
          rw [hrun]
          exact Or.inr ⟨⟨rfl, Or.inl hnone⟩, exn, rfl⟩
      | inl hchecked =>
          obtain ⟨verdict, hverdict, hrun⟩ := hchecked
          rw [hrun, hverdict]
          dsimp only
          cases verdict with
          | some refusal =>
              apply Decides.handled
              · intro hfails
                cases hfails.2 with
                | inl hnone => cases hnone
                | inr hpassed => cases hpassed.1
              · exact handled_refuse rfl _ _
          | none =>
              dsimp only
              cases horigin : validateOrigin repr f.origin f.clientMsgId with
              | error detail =>
                  apply Decides.handled
                  · intro hfails
                    cases hfails.2 with
                    | inl hnone => cases hnone
                    | inr hpassed =>
                        obtain ⟨_, _, _, hvalid, _⟩ := hpassed
                        cases hvalid
                  · exact handled_refuse rfl _ _
              | ok origin =>
                  dsimp only
                  cases hspans : Mentions.validateMentions category f.mentions with
                  | error raised =>
                      obtain ⟨detail, rfl⟩ :=
                        Mentions.raisesOnly_validateMentions f.mentions raised hspans
                      apply Decides.handled
                      · intro hfails
                        cases hfails.2 with
                        | inl hnone => cases hnone
                        | inr hpassed =>
                            obtain ⟨_, _, _, _, hvalid, _⟩ := hpassed
                            cases hvalid
                      · exact handled_refuse rfl _ _
                  | ok spans =>
                      cases decides_persist d user channel f origin
                          (spans.map (List.map storedSpan)) conn hmints with
                      | inl hhandled =>
                          obtain ⟨hsound, hhandled⟩ := hhandled
                          apply Decides.handled
                          · intro hfails
                            cases hfails.2 with
                            | inl hnone => cases hnone
                            | inr hpassed =>
                                obtain ⟨_, _, _, hvalid, _, hfails⟩ := hpassed
                                cases hvalid
                                exact hsound hfails
                          · exact hhandled
                      | inr hraised =>
                          obtain ⟨hfails, hraised⟩ := hraised
                          exact Or.inr
                            ⟨⟨rfl, Or.inr ⟨rfl, origin, spans, rfl, rfl, hfails⟩⟩, hraised⟩

theorem decides_transaction (hmints : Mints e.minted x.view) :
    Decides (SendFails d user repr category f x.view) conn x.mem
      ((transaction d repr category conn user f e).run x) := by
  unfold SendFails
  rw [transaction, Request.run_bind]
  cases hchannelId : encode f.channelId with
  | none =>
      rw [run_bindText_none hchannelId]
      exact Or.inr ⟨Or.inl rfl, _, rfl⟩
  | some channelId =>
      rw [run_bindText_some hchannelId]
      dsimp only
      rw [Request.run_bind, readableChannel, select, Request.run_query]
      dsimp only
      cases hchannel : x.view.readableChannel user.id channelId with
      | none =>
          apply Decides.handled
          · intro hfails
            cases hfails with
            | inl hnone => cases hnone
            | inr hlater =>
                obtain ⟨_, _, hc, hfound, _⟩ := hlater
                cases hc
                rw [hchannel] at hfound
                cases hfound
          · exact handled_refuse rfl _ _
      | some channel =>
          dsimp only
          cases decides_sendInChannel d user channel f conn repr category hmints with
          | inl hhandled =>
              obtain ⟨hsound, hhandled⟩ := hhandled
              apply Decides.handled
              · intro hfails
                cases hfails with
                | inl hnone => cases hnone
                | inr hlater =>
                    obtain ⟨_, _, hc, hfound, hfails⟩ := hlater
                    cases hc
                    cases hchannel.symm.trans hfound
                    exact hsound hfails
              · exact hhandled
          | inr hraised =>
              obtain ⟨hfails, hraised⟩ := hraised
              exact Or.inr ⟨Or.inr ⟨channelId, channel, rfl, hchannel, hfails⟩, hraised⟩

end

end

/-! ## The turn of the loop -/

section
variable {x : Point Db Memory} {conn : ℕ} {user : User} {e : Surroundings} {f : RawSend}

theorem run_fanout (channelId : String) (frame : Frame) (exclude : List String) (dead : List ℕ)
    (x : Point Db Memory) :
    ∃ y, (fanout channelId frame exclude dead).run x = (.ok (), y) ∧
      x.mem.calls <+: y.mem.calls := by
  rw [fanout, Request.run_bind, Gateway.segment, Request.run_atomically]
  dsimp only
  split_ifs
  · exact ⟨_, rfl, List.prefix_append _ _⟩
  · refine ⟨_, rfl, ?_⟩
    simp only [Point.acted, Memory.foldl_unregister]
    exact List.prefix_append _ _

variable (user f) in
theorem run_deliver (p : Persisted) (x : Point Db Memory) :
    ∃ y, (deliver user (f.frame e) p).run x = (.ok (), y) ∧ x.mem.calls <+: y.mem.calls := by
  unfold deliver
  by_cases hfederate : shouldFederate p.channel = true
  · rw [if_pos hfederate, Request.run_bind]
    have hpublish : (publish user p.channel p.row (f.frame e).body (f.frame e).sentAt
        (f.frame e).discovered).run x = (.ok (), x.acted fun _ m => published user p.channel p.row
          (f.frame e).body (f.frame e).sentAt (f.frame e).discovered m) := rfl
    rw [hpublish]
    obtain ⟨y, hrun, hcalls⟩ := run_fanout p.channel.id (.message p.row) p.exclude
      (f.frame e).dead (x.acted fun _ m => published user p.channel p.row (f.frame e).body
        (f.frame e).sentAt (f.frame e).discovered m)
    exact ⟨y, hrun, (List.prefix_append _ _).trans hcalls⟩
  · rw [if_neg hfederate]
    exact run_fanout _ _ _ _ x

theorem run_bindAll (ss : List PyStr) :
    (∃ ts, (bindAll ss).run x = (.ok ts, x) ∧ ∀ s ∈ ss, encode s ≠ none) ∨
      (∃ s ∈ ss, encode s = none) ∧ ∃ exn, (bindAll ss).run x = (.error exn, x) := by
  induction ss with
  | nil => exact Or.inl ⟨[], rfl, by simp⟩
  | cons s ss ih =>
      rw [bindAll, Request.run_bind]
      cases hs : encode s with
      | none =>
          rw [run_bindText_none hs]
          exact Or.inr ⟨⟨s, List.mem_cons_self, hs⟩, _, rfl⟩
      | some t =>
          rw [run_bindText_some hs]
          dsimp only
          rw [Request.run_bind]
          cases ih with
          | inl hbound =>
              obtain ⟨ts, hrun, hall⟩ := hbound
              rw [hrun]
              left
              refine ⟨_, rfl, ?_⟩
              intro s' hs'
              cases List.mem_cons.mp hs' with
              | inl heq =>
                  rw [heq, hs]
                  exact Option.some_ne_none t
              | inr hlater => exact hall s' hlater
          | inr hraised =>
              obtain ⟨⟨s', hs', hnone⟩, exn, hrun⟩ := hraised
              rw [hrun]
              exact Or.inr ⟨⟨s', List.mem_cons_of_mem s hs', hnone⟩, exn, rfl⟩

theorem run_readFences (userId : String) (ids : List String) :
    ∃ fences, (readFences userId ids).run x = (.ok fences, x) := by
  induction ids with
  | nil => exact ⟨[], rfl⟩
  | cons id ids ih =>
      obtain ⟨fences, hrun⟩ := ih
      have hlatest : ∃ fence, (latestUlid id userId).run x = (.ok fence, x) := ⟨_, rfl⟩
      obtain ⟨fence, hfence⟩ := hlatest
      rw [readFences, Request.run_bind, hfence]
      dsimp only
      rw [Request.run_bind, hrun]
      exact ⟨_, rfl⟩

theorem run_filterReadableIds (d : Driver) (userId : String) (channelIds : List PyStr) :
    (∃ ids, (filterReadableIds d.maxVariables userId channelIds).run x = (.ok ids, x) ∧
        ¬SubscribeFails d channelIds) ∨
      SubscribeFails d channelIds ∧
        ∃ exn, (filterReadableIds d.maxVariables userId channelIds).run x = (.error exn, x) := by
  unfold filterReadableIds SubscribeFails
  by_cases hempty : channelIds = []
  · rw [if_pos hempty]
    subst hempty
    exact Or.inl ⟨[], rfl, by simp⟩
  · rw [if_neg hempty]
    by_cases hmany : d.maxVariables < channelIds.length + 1
    · rw [if_pos hmany]
      exact Or.inr ⟨Or.inl ⟨hempty, hmany⟩, _, rfl⟩
    · rw [if_neg hmany, Request.run_bind]
      cases run_bindAll (x := x) channelIds with
      | inl hbound =>
          obtain ⟨ts, hrun, hall⟩ := hbound
          rw [hrun]
          left
          refine ⟨_, rfl, ?_⟩
          rintro (⟨_, hlong⟩ | ⟨s, hs, hnone⟩)
          · exact hmany hlong
          · exact hall s hs hnone
      | inr hraised =>
          obtain ⟨hnone, exn, hrun⟩ := hraised
          rw [hrun]
          exact Or.inr ⟨Or.inr hnone, exn, rfl⟩

/-- A subscription is answered if its channel ids bind and the statement takes them all. -/
theorem answered_subscribe_iff (d : Driver) (userId : String) (channelIds : List PyStr) {db : Db}
    {mem : Memory} :
    Answered conn mem ((handleSubscribe conn userId channelIds d.maxVariables false).session.run
        ⟨db, mem, none⟩) ↔ ¬SubscribeFails d channelIds := by
  rw [Request.run_session, handleSubscribe, Request.run_bind]
  cases run_filterReadableIds (x := ⟨db, mem, none⟩) d userId channelIds with
  | inr hraised =>
      obtain ⟨hfails, exn, hrun⟩ := hraised
      rw [hrun]
      constructor
      · intro h
        cases h.1
      · intro h
        exact absurd hfails h
  | inl hfiltered =>
      obtain ⟨ids, hrun, hbinds⟩ := hfiltered
      rw [hrun]
      dsimp only
      rw [Request.run_bind, Gateway.segment, Request.run_atomically]
      dsimp only
      obtain ⟨fences, hfences⟩ := run_readFences (x := (Point.mk db mem none).acted
        fun _ m => m.subscribe conn ids) userId ids
      rw [Request.run_bind, hfences]
      constructor
      · intro _
        exact hbinds
      · intro _
        exact ⟨rfl, .suback fences, [], rfl⟩

variable (d : Driver) (repr : Json → String) (category : ℕ → Mentions.GeneralCategory)

/-- A send is answered unless it comes to a value that does not bind. -/
theorem answered_send_iff {db : Db} {mem : Memory} (hmints : Mints e.minted db) :
    Answered conn mem ((handleRawSend d repr category conn user f e).run ⟨db, mem, none⟩) ↔
      ¬SendFails d user repr category f db := by
  have hdecides := decides_transaction d user f conn repr category (e := e)
    (x := ⟨db, mem, none⟩) hmints
  rw [handleRawSend, Request.run_bind, Request.run_session]
  generalize (transaction d repr category conn user f e).run ⟨db, mem, none⟩ = r at hdecides
  obtain ⟨result, y⟩ := r
  cases hdecides with
  | inr hraised =>
      obtain ⟨hfails, exn, hexn⟩ := hraised
      obtain rfl : result = .error exn := hexn
      constructor
      · intro h
        cases h.1
      · intro h
        exact absurd hfails h
  | inl hhandled =>
      obtain ⟨hsound, hhandled⟩ := hhandled
      constructor
      · intro _
        exact hsound
      · intro _
        cases hhandled with
        | inr hreplied =>
            obtain ⟨hnone, reply, hcalls⟩ := hreplied
            obtain rfl : result = .ok none := hnone
            exact ⟨rfl, reply, [], hcalls⟩
        | inl hpersisted =>
            obtain ⟨p, hp, hmem⟩ := hpersisted
            obtain rfl : result = .ok (some p) := hp
            obtain rfl : y.mem = mem := hmem
            have hack : (connSend conn (.ack f.clientMsgId p.row.id p.row.createdAt) false
                (.ackSend p.created false)).run y.rolledBack = (.ok (), y.rolledBack.acted fun _ m =>
                  m.log (.reply conn (.ack f.clientMsgId p.row.id p.row.createdAt))) := rfl
            dsimp only
            rw [Request.run_bind, hack]
            dsimp only
            split_ifs
            · obtain ⟨z, hrun, rest, hcalls⟩ := run_deliver user f p
                (y.rolledBack.acted fun _ m =>
                  m.log (.reply conn (.ack f.clientMsgId p.row.id p.row.createdAt)))
              rw [hrun]
              refine ⟨rfl, .ack f.clientMsgId p.row.id p.row.createdAt, rest, ?_⟩
              dsimp only
              rw [← hcalls]
              exact List.append_assoc y.mem.calls [_] rest
            · exact ⟨rfl, _, [], rfl⟩

/-- A frame is answered, and the loop goes on, unless it comes to a value that does not bind or to
more of them than one statement takes. -/
theorem frame_answered_iff {db : Db} (hmints : Mints e.minted db) (mem : Memory) (raw : Json) :
    Answered conn mem ((handleRaw d repr category conn user e raw).run ⟨db, mem, none⟩) ↔
      ¬FrameFails d user repr category raw db := by
  unfold handleRaw FrameFails
  cases parseInbound repr raw with
  | error detail =>
      constructor
      · intro _ h
        exact h
      · intro _
        exact ⟨rfl, _, [], rfl⟩
  | ok inbound =>
      cases inbound with
      | subscribe channelIds => exact answered_subscribe_iff d user.id channelIds
      | send f => exact answered_send_iff d repr category hmints

end

/-! ## A body with a lone surrogate -/

/-- An ORM that takes no list and no object for a key, and a driver that binds none. -/
def strictDriver : Driver where
  identity _ := none
  bindOther _ := none
  maxVariables := 32766

def lobby : Channel where
  id := "c1"
  name := "lobby"
  aikoChannel := "lobby"

def lobbyDb : Db where
  users := [{ id := "u1", username := "bob", aikoUsername := "bob" }]
  channels := [lobby]

def bob : User where
  id := "u1"
  username := "bob"
  aikoUsername := "bob"

def quiet : Surroundings where
  minted := { msgId := "m1", keyIds := ["k1"] }

theorem mints_quiet : Mints quiet.minted lobbyDb :=
  ⟨by simp [lobbyDb], ⟨"k1", by simp [quiet], by simp [lobbyDb]⟩, by simp [lobbyDb]⟩

def sendOf (body : PyStr) : Json :=
  .obj [(codes "type", .str (codes "send")), (codes "client_msg_id", .str (codes "x")),
    (codes "channel_id", .str (codes "c1")), (codes "body", .str body)]

/-- The send of `sendOf` after the shape checks. -/
def rawSendOf (body : PyStr) : RawSend := ⟨codes "x", codes "c1", body, .null, .null, .null⟩

theorem parseInbound_sendOf {body : PyStr} (hbody : body.all Frames.isSpace = false)
    (repr : Json → String) :
    parseInbound repr (sendOf body) = .ok (.send (rawSendOf body)) := by
  have htype : isText (field [(codes "type", .str (codes "send")),
      (codes "client_msg_id", .str (codes "x")), (codes "channel_id", .str (codes "c1")),
      (codes "body", .str body)] "type") "subscribe" = false := rfl
  have hsend : isText (field [(codes "type", .str (codes "send")),
      (codes "client_msg_id", .str (codes "x")), (codes "channel_id", .str (codes "c1")),
      (codes "body", .str body)] "type") "send" = true := rfl
  unfold parseInbound sendOf
  dsimp only
  rw [htype, hsend]
  change (if body.all Frames.isSpace = true then _ else _) = _
  rw [hbody]
  rfl

/-- In the lobby a send fails just when its body does not bind. -/
theorem frameFails_sendOf {body : PyStr} (hbody : body.all Frames.isSpace = false) :
    FrameFails strictDriver bob (fun _ => "") (fun _ => .ll) (sendOf body) lobbyDb ↔
      encode body = none := by
  have hchannelId : encode (codes "c1") = some "c1" := by decide +kernel
  have hclientMsgId : encode (codes "x") = some "x" := by decide +kernel
  have hchannel : lobbyDb.readableChannel bob.id "c1" = some lobby := by decide +kernel
  unfold FrameFails
  rw [parseInbound_sendOf hbody]
  change SendFails _ _ _ _ _ _ ↔ _
  constructor
  · intro hfails
    cases hfails with
    | inl hnone => cases hchannelId.symm.trans hnone
    | inr hlater =>
        obtain ⟨_, _, hid, hfound, _, hfails⟩ := hlater
        cases hchannelId.symm.trans hid
        cases hchannel.symm.trans hfound
        cases hfails with
        | inl hnone => cases hnone
        | inr hpassed =>
            obtain ⟨_, origin, _, horigin, _, hfails⟩ := hpassed
            cases horigin
            cases hfails with
            | inl hnone => cases hclientMsgId.symm.trans hnone
            | inr hnew =>
                obtain ⟨_, _, _, _, hunbound⟩ := hnew
                simpa [Unbound, rawSendOf, bound] using hunbound
  · intro hnone
    right
    refine ⟨"c1", lobby, hchannelId, hchannel, by decide +kernel, ?_⟩
    right
    refine ⟨rfl, none, none, rfl, rfl, ?_⟩
    right
    exact ⟨"x", hclientMsgId, rfl, by decide +kernel, Or.inr (Or.inl hnone)⟩

theorem a_plain_send_is_answered :
    Answered 1 {} ((handleRaw strictDriver (fun _ => "") (fun _ => .ll) 1 bob quiet
      (sendOf (codes "hi"))).run ⟨lobbyDb, {}, none⟩) := by
  rw [frame_answered_iff strictDriver (fun _ => "") (fun _ => .ll) mints_quiet,
    frameFails_sendOf (by decide +kernel)]
  decide +kernel

/-- A body with a lone surrogate ends the connection. -/
theorem a_surrogate_ends_the_connection : ¬∀ (d : Driver) (repr : Json → String)
    (category : ℕ → Mentions.GeneralCategory) (conn : ℕ) (user : User) (e : Surroundings)
    (db : Db) (mem : Memory) (raw : Json), Mints e.minted db →
      Answered conn mem ((handleRaw d repr category conn user e raw).run ⟨db, mem, none⟩) := by
  intro h
  have hanswered := h strictDriver (fun _ => "") (fun _ => .ll) 1 bob quiet lobbyDb {}
    (sendOf [0xd800]) mints_quiet
  have hfails : FrameFails strictDriver bob (fun _ => "") (fun _ => .ll) (sendOf [0xd800])
      lobbyDb := (frameFails_sendOf (by decide +kernel)).mpr (by decide +kernel)
  unfold handleRaw at hanswered
  unfold FrameFails at hfails
  rw [parseInbound_sendOf (by decide +kernel)] at hanswered hfails
  dsimp only at hanswered hfails
  rw [answered_send_iff _ _ _ mints_quiet] at hanswered
  exact hanswered hfails

end AikoIsland.FrameAnswers
