import AikoIsland.Realtime

/-!
# Active disconnect: a refused user has no live socket

Sockets of any users with bans, account deletions and recovery finalizes,
interleaved statement by statement. Fix a user whose tokens were all issued at
or below a generation. Once a ban, a deletion or a finalize of this user has
completed, no registered connection belongs to the user and no frame of the
user's sockets is taken in as a send, in every run in which each snapshot of
`disconnect_user` finds every socket of its user that passed the gate and has
not ended among the registered connections.

Without that condition a handshake can pass the gate before the ban commits and
register after the snapshot.
-/
namespace AikoIsland.ActiveDisconnect
open Tables Gateway WriterLock RelyGuarantee Footprint Passkeys Recovery Accounts Messages Realtime

/-! ## The requests -/

inductive SocketRequest where
  | socket (h : Handshake)
  | ban (moderators : List String) (targetId moderatorId : String) (now : Time)
  | deleteMe (userId : String)
  | finalize (crypto : Crypto) (recoveryId finalizeToken credentialRowId : String) (now : Time)

/-- The user whose sockets a completed request has dropped. -/
def SocketRequest.body (p : ℕ) : SocketRequest → Body (Option String)
  | .socket h => do
      wsEndpoint p h
      return none
  | .ban moderators targetId moderatorId now => do
      banUserRoute moderators targetId moderatorId now
      return some targetId
  | .deleteMe userId => do
      Realtime.deleteMe userId
      return some userId
  | .finalize crypto recoveryId finalizeToken credentialRowId now => do
      let s ← recoverFinalize crypto recoveryId finalizeToken credentialRowId now
      return some s.userId

/-- The tokens of the user that sockets present were issued at a generation up to `n`. -/
def TokensUpTo (n : ℕ) (user : String) (reqs : ℕ → SocketRequest) : Prop :=
  ∀ p h claims, reqs p = .socket h → h.token = some claims → claims.userId = user →
    claims.generation ≤ n

/-- The condition on steps: a snapshot for the user sees every socket of the user. -/
def seesAdmitted (user : String) : Label → Point Db Memory → Bool
  | .disconnect u, x => u ≠ user || x.mem.admitted.all fun a =>
      a.2 ≠ user || x.mem.conns.any fun c => c.id = a.1 && c.userId = user
  | _, _ => true

theorem registered_of_seesAdmitted {user : String} {x : Point Db Memory}
    (h : seesAdmitted user (.disconnect user) x = true) {a : ℕ × String}
    (ha : a ∈ x.mem.admitted) (hu : a.2 = user) :
    ∃ c ∈ x.mem.conns, c.id = a.1 ∧ c.userId = user := by
  simp only [seesAdmitted, ne_eq, not_true_eq_false, decide_false, Bool.false_or, List.all_eq_true,
    Bool.or_eq_true, decide_eq_true_eq, List.any_eq_true, Bool.and_eq_true] at h
  exact (h a ha).resolve_left fun hne => hne hu

/-- The sends taken in from the user's sockets. -/
def sendFrames (user : String) (calls : List Call) : List Call :=
  calls.filter fun call =>
    match call with
    | .sendFrame _ u => u = user
    | _ => false

/-! ## The accounts -/

/-- No account appears, is unbanned or goes back to an earlier generation. -/
def NoBetter (a b : Db) : Prop :=
  ∀ id user', b.userById id = some user' → ∃ user, a.userById id = some user ∧
    (user.bannedAt.isSome = true → user'.bannedAt.isSome = true) ∧
    user.tokenGeneration ≤ user'.tokenGeneration

theorem NoBetter.refl (a : Db) : NoBetter a a := fun _ user h => ⟨user, h, fun hb => hb, le_rfl⟩

theorem NoBetter.trans {a b c : Db} (h : NoBetter a b) (h' : NoBetter b c) : NoBetter a c := by
  intro id user' hc
  obtain ⟨v, hv, hban, hgen⟩ := h' id user' hc
  obtain ⟨u, hu, hban', hgen'⟩ := h id v hv
  exact ⟨u, hu, fun hb => hban (hban' hb), hgen'.trans hgen⟩

theorem NoBetter.of_users {a b : Db} (h : b.users = a.users) : NoBetter a b := by
  intro id user hb
  refine ⟨user, ?_, fun hban => hban, le_rfl⟩
  unfold Db.userById at hb ⊢
  rwa [h] at hb

/-- The gate refuses every token of the user up to generation `n`. -/
def Refused (n : ℕ) (user : String) (db : Db) : Prop :=
  ∀ u, db.userById user = some u → u.bannedAt.isSome = true ∨ n < u.tokenGeneration

/-- The account, if it is there, is at generation `n` or later. -/
def AtLeast (n : ℕ) (user : String) (db : Db) : Prop :=
  ∀ u, db.userById user = some u → n ≤ u.tokenGeneration

theorem Refused.noBetter {n : ℕ} {user : String} {a b : Db} (h : Refused n user a)
    (hab : NoBetter a b) : Refused n user b := by
  intro u' hu'
  obtain ⟨u, hu, hban, hgen⟩ := hab user u' hu'
  exact (h u hu).imp hban fun hn => hn.trans_le hgen

theorem AtLeast.noBetter {n : ℕ} {user : String} {a b : Db} (h : AtLeast n user a)
    (hab : NoBetter a b) : AtLeast n user b := by
  intro u' hu'
  obtain ⟨u, hu, _, hgen⟩ := hab user u' hu'
  exact (h u hu).trans hgen

theorem gate_of_refused {n : ℕ} {user : String} {db : Db} (h : Refused n user db)
    {token : Option Claims} (ht : ∀ c, token = some c → c.userId = user → c.generation ≤ n)
    {u : User} (hg : gate token db = .ok u) : u.id ≠ user := by
  rintro rfl
  obtain ⟨claims, rfl, hfound, hgen, hban⟩ := gate_eq_ok hg
  have hid : u.id = claims.userId := (Db.mem_of_userById hfound).2
  have hle := ht claims rfl hid.symm
  rcases h u (hid ▸ hfound) with hb | hlt
  · rw [hban] at hb
    cases hb
  · omega

/-! ## The sockets of the user -/

/-- Nothing of the user is left: no connection, and what passed the gate is closed. -/
structure Gone (user : String) (m : Memory) : Prop where
  severed : user ∈ m.severed
  conns : ∀ c ∈ m.conns, c.userId ≠ user
  admitted : ∀ a ∈ m.admitted, a.2 = user → a.1 ∈ m.closed

/-- After the snapshot the user's sockets only disappear. -/
structure Fewer (user : String) (m m' : Memory) : Prop where
  severed : user ∈ m'.severed
  conns : ∀ c' ∈ m'.conns, c'.userId = user → ∃ c ∈ m.conns, c.id = c'.id ∧ c.userId = user
  admitted : ∀ a ∈ m'.admitted, a.2 = user → a ∈ m.admitted
  closed : ∀ k ∈ m.closed, k ∈ m'.closed

theorem Fewer.gone {user : String} {m m' : Memory} (h : Fewer user m m') (hg : Gone user m) :
    Gone user m' where
  severed := h.severed
  conns c' hc' hu := by
    obtain ⟨c, hc, _, hcu⟩ := h.conns c' hc' hu
    exact hg.conns c hc hcu
  admitted a ha hu := h.closed a.1 (hg.admitted a (h.admitted a ha hu) hu)

/-- No connection is numbered `p`. -/
def Unregistered (p : ℕ) (m : Memory) : Prop := ∀ c ∈ m.conns, c.id ≠ p

/-- What the others do to the memory between two statements of `p`. -/
structure Others (user : String) (p : ℕ) (m m' : Memory) : Prop where
  admitted : (p, user) ∈ m.admitted → (p, user) ∈ m'.admitted
  unregistered : Unregistered p m → Unregistered p m'
  waiting : (p, user) ∈ m.admitted → Unregistered p m → user ∉ m.severed → user ∉ m'.severed
  fewer : user ∈ m.severed → Fewer user m m'
  sends : Gone user m → sendFrames user m'.calls = sendFrames user m.calls

theorem Others.refl (user : String) (p : ℕ) (m : Memory) : Others user p m m where
  admitted := id
  unregistered := id
  waiting _ _ := id
  fewer h := ⟨h, fun c hc hu => ⟨c, hc, rfl, hu⟩, fun _ ha _ => ha, fun _ hk => hk⟩
  sends _ := rfl

theorem Others.trans {user : String} {p : ℕ} {a b c : Memory} (h : Others user p a b)
    (h' : Others user p b c) : Others user p a c where
  admitted ha := h'.admitted (h.admitted ha)
  unregistered hu := h'.unregistered (h.unregistered hu)
  waiting ha hu hs := h'.waiting (h.admitted ha) (h.unregistered hu) (h.waiting ha hu hs)
  fewer hs := by
    have hab := h.fewer hs
    have hbc := h'.fewer hab.severed
    refine ⟨hbc.severed, fun k hk hu => ?_, fun x hx hu => hab.admitted x (hbc.admitted x hx hu) hu,
      fun k hk => hbc.closed k (hab.closed k hk)⟩
    obtain ⟨k', hk', hid, hu'⟩ := hbc.conns k hk hu
    obtain ⟨k'', hk'', hid', hu''⟩ := hab.conns k' hk' hu'
    exact ⟨k'', hk'', hid'.trans hid, hu''⟩
  sends hg := by
    rw [h'.sends ((h.fewer hg.severed).gone hg), h.sends hg]

/-! ## Segments that take nobody in -/

/-- A segment of `p` that registers nothing, admits nothing, severs nobody and takes no send in. -/
structure Quiet (user : String) (p : ℕ) (m m' : Memory) : Prop where
  conns : ∀ c' ∈ m'.conns, ∃ c ∈ m.conns, c.id = c'.id ∧ c.userId = c'.userId
  admitted : ∀ a ∈ m'.admitted, a ∈ m.admitted
  kept : ∀ a ∈ m.admitted, a.1 ≠ p → a ∈ m'.admitted
  severed : m'.severed = m.severed
  closed : ∀ k ∈ m.closed, k ∈ m'.closed
  sends : sendFrames user m'.calls = sendFrames user m.calls

theorem Quiet.fewer {user : String} {p : ℕ} {m m' : Memory} (h : Quiet user p m m')
    (hs : user ∈ m.severed) : Fewer user m m' where
  severed := by rw [h.severed]; exact hs
  conns c' hc' hu := by
    obtain ⟨c, hc, hid, hcu⟩ := h.conns c' hc'
    exact ⟨c, hc, hid, hcu.trans hu⟩
  admitted a ha _ := h.admitted a ha
  closed := h.closed

theorem Quiet.others {user : String} {p q : ℕ} {m m' : Memory} (h : Quiet user p m m')
    (hq : q ≠ p) : Others user q m m' where
  admitted ha := h.kept _ ha hq
  unregistered hu c' hc' := by
    obtain ⟨c, hc, hid, _⟩ := h.conns c' hc'
    rw [← hid]
    exact hu c hc
  waiting _ _ hs := by rwa [h.severed]
  fewer := h.fewer
  sends _ := h.sends

theorem quiet_of_eq {user : String} {p : ℕ} {m m' : Memory} (hconns : m'.conns = m.conns)
    (hadmitted : m'.admitted = m.admitted) (hsevered : m'.severed = m.severed)
    (hclosed : m'.closed = m.closed)
    (hsends : sendFrames user m'.calls = sendFrames user m.calls) : Quiet user p m m' where
  conns c hc := ⟨c, hconns ▸ hc, rfl, rfl⟩
  admitted a ha := hadmitted ▸ ha
  kept a ha _ := by rw [hadmitted]; exact ha
  severed := hsevered
  closed k hk := by rw [hclosed]; exact hk
  sends := hsends

theorem sendFrames_log {user : String} {calls : List Call} {call : Call}
    (h : ∀ conn, call ≠ .sendFrame conn user) :
    sendFrames user (calls ++ [call]) = sendFrames user calls := by
  cases call with
  | sendFrame conn u =>
      have hu : u ≠ user := fun heq => h conn (by rw [heq])
      simp [sendFrames, hu]
  | _ => simp [sendFrames]

theorem quiet_log {user : String} {p : ℕ} (m : Memory) {call : Call}
    (h : ∀ conn, call ≠ .sendFrame conn user) : Quiet user p m (m.log call) :=
  quiet_of_eq rfl rfl rfl rfl (sendFrames_log h)

theorem quiet_filter {user : String} {p : ℕ} (m : Memory) (f : Connection → Bool) :
    Quiet user p m { m with conns := m.conns.filter f } where
  conns c hc := ⟨c, (List.mem_filter.mp hc).1, rfl, rfl⟩
  admitted _ ha := ha
  kept _ ha _ := ha
  severed := rfl
  closed _ hk := hk
  sends := rfl

theorem quiet_notAdmitted {user : String} {p : ℕ} (m : Memory) :
    Quiet user p m (notAdmitted p m) where
  conns c hc := ⟨c, hc, rfl, rfl⟩
  admitted a ha := (List.mem_filter.mp ha).1
  kept a ha hp := List.mem_filter.mpr ⟨ha, by simpa using hp⟩
  severed := rfl
  closed _ hk := hk
  sends := rfl

theorem Quiet.trans {user : String} {p : ℕ} {a b c : Memory} (h : Quiet user p a b)
    (h' : Quiet user p b c) : Quiet user p a c where
  conns k hk := by
    obtain ⟨k', hk', hid, hu⟩ := h'.conns k hk
    obtain ⟨k'', hk'', hid', hu'⟩ := h.conns k' hk'
    exact ⟨k'', hk'', hid'.trans hid, hu'.trans hu⟩
  admitted x hx := h.admitted x (h'.admitted x hx)
  kept x hx hp := h'.kept x (h.kept x hx hp) hp
  severed := h'.severed.trans h.severed
  closed k hk := h'.closed k (h.closed k hk)
  sends := h'.sends.trans h.sends

/-! ## The specification -/

def spec (n : ℕ) (user : String) : Spec ℕ Db Memory Label where
  inv db mem := AtLeast n user db ∧ (user ∈ mem.severed → Refused n user db)
  rely q db mem db' mem' := NoBetter db db' ∧ Others user q mem mem'
  meets t x := seesAdmitted user t x = true
  rely_refl _ db mem := ⟨NoBetter.refl db, Others.refl user _ mem⟩
  rely_trans h h' := ⟨h.1.trans h'.1, h.2.trans h'.2⟩

section
variable {n : ℕ} {user : String} {p : ℕ} {x : Point Db Memory}

theorem allows_noBetter (hi : (spec n user).inv x.db x.mem) {s : Db} (h : NoBetter x.db s)
    (w : Option Db) : (spec n user).Allows p x ⟨s, x.mem, w⟩ where
  inv := ⟨hi.1.noBetter h, fun hs => (hi.2 hs).noBetter h⟩
  others _ _ := ⟨h, Others.refl user _ x.mem⟩

theorem allows_quiet (hi : (spec n user).inv x.db x.mem) {g : Db → Memory → Memory}
    (h : Quiet user p x.mem (g x.db x.mem)) : (spec n user).Allows p x (x.acted g) where
  inv := ⟨hi.1, fun hs => hi.2 (h.severed ▸ hs)⟩
  others _ hq := ⟨NoBetter.refl x.db, h.others hq⟩

/-! ## Sockets -/

theorem users_of_serveWrite {u : User} {t : Label} {f : Db → Option Db} {a b : Db}
    (h : ServeWrite u t f) (hf : f a = some b) : b.users = a.users := by
  obtain ⟨rowId, hsend⟩ := h
  rcases sendWrite_cases hsend hf with ⟨_, rfl⟩ | ⟨m, hm⟩
  · rfl
  · obtain ⟨_, rfl⟩ := Db.insertMessage_eq_some.mp hm
    rfl

/-- A send taken in from a socket of the user shows that the user is not gone. -/
theorem allows_takenIn (hi : (spec n user).inv x.db x.mem) {u : String}
    (hv : u = user → (p, user) ∈ x.mem.admitted) (frame : InFrame) :
    (spec n user).Allows p x (x.acted fun _ m => takenIn p u frame m) := by
  have hsame : (spec n user).Allows p x x := ⟨hi, fun q _ => (spec n user).rely_refl q _ _⟩
  simp only [takenIn, Point.acted]
  split_ifs with hclosed
  · exact ⟨hsame.inv, hsame.others⟩
  · cases frame with
    | send f =>
        refine ⟨hi, fun q _ => ⟨NoBetter.refl x.db, ?_⟩⟩
        have hrefl := Others.refl user q x.mem
        refine ⟨hrefl.admitted, hrefl.unregistered, hrefl.waiting, fun hs => ?_, fun hg => ?_⟩
        · exact ⟨hs, fun c hc hu => ⟨c, hc, rfl, hu⟩, fun _ ha _ => ha, fun _ hk => hk⟩
        · refine sendFrames_log fun conn heq => ?_
          obtain ⟨rfl, rfl⟩ := Call.sendFrame.inj heq
          exact hclosed (hg.admitted _ (hv rfl) rfl)
    | bad detail clientMsgId peerGone => exact ⟨hsame.inv, hsame.others⟩
    | subscribe channelIds peerGone => exact ⟨hsame.inv, hsame.others⟩

theorem quiet_subscribe (m : Memory) (conn : ℕ) (ids : List String) :
    Quiet user p m (m.subscribe conn ids) where
  conns c' hc' := by
    obtain ⟨c, hc, rfl⟩ := List.mem_map.mp hc'
    refine ⟨c, hc, ?_⟩
    split_ifs <;> exact ⟨rfl, rfl⟩
  admitted _ ha := ha
  kept _ ha _ := ha
  severed := rfl
  closed _ hk := hk
  sends := rfl

theorem respects_serve (u : User) :
    Respects (spec n user) p (fun _ m => u.id = user → (p, user) ∈ m.admitted)
      (fun a b => b.users = a.users) (ServeWrite u) (ServeSegment p u.id) where
  refl _ := rfl
  trans h h' := h'.trans h
  stable h hv hu := h.rely.2.admitted (hv hu)
  write _ _ _ _ hw _ _ _ _ hf := users_of_serveWrite hw hf
  commit db mem s hi hv hs := ⟨allows_noBetter (x := ⟨db, mem, none⟩) hi (.of_users hs) none, hv⟩
  segment t g z hg hi hv _ := by
    cases hg with
    | receive frame =>
        refine ⟨allows_takenIn hi hv frame, fun hu => ?_⟩
        dsimp only [takenIn]
        split_ifs
        · exact hv hu
        · cases frame <;> exact hv hu
    | reply t r raises =>
        cases raises with
        | true => exact ⟨allows_quiet hi (quiet_of_eq rfl rfl rfl rfl rfl), hv⟩
        | false => exact ⟨allows_quiet hi (quiet_log _ fun _ => Call.noConfusion), hv⟩
    | subscribe ids => exact ⟨allows_quiet hi (quiet_subscribe _ _ _), hv⟩
    | publish user' channel row body sentAt =>
        exact ⟨allows_quiet hi (quiet_of_eq rfl rfl rfl rfl (sendFrames_log fun _ =>
          Call.noConfusion)), hv⟩
    | fanout channelId frame exclude =>
        exact ⟨allows_quiet hi (quiet_log _ fun _ => Call.noConfusion), hv⟩
    | drop conns =>
        simp only [Point.acted, Memory.foldl_unregister]
        exact ⟨allows_quiet (g := fun _ m => { m with conns := m.conns.filter _ }) hi
          (quiet_filter z.mem _), hv⟩

theorem safe_unregister :
    Safe (spec n user) p (Realtime.unregister p) (fun _ _ => True) (fun _ _ => True) x := by
  refine fun y hy _ => ⟨?_, fun _ _ => trivial⟩
  exact allows_quiet (g := fun _ m => notAdmitted p (m.unregister p)) hy.inv
    ((quiet_filter y.mem _).trans (quiet_notAdmitted _))

theorem safe_serve (hi : (spec n user).inv x.db x.mem) (hx : x.work = none) {u : User}
    (hv : u.id = user → (p, user) ∈ x.mem.admitted) (frames : List InFrame) :
    Safe (spec n user) p (serve p u frames) (fun _ _ => True) (fun _ _ => True) x := by
  have hloop := (respects_serve (p := p) (n := n) u).safe (uses_receiveLoop p u frames) hv
    (by rw [Point.view_of_none hx])
  refine Safe.andThen (Safe.handle (hloop.mono (fun _ _ _ _ => trivial) fun e y hyi _ => ?_) hi)
    hi fun _ _ _ _ => safe_unregister
  refine Safe.andThen safe_unregister hyi fun _ z _ _ => ?_
  split_ifs
  · exact Safe.pure fun _ _ => trivial
  · exact Safe.raise fun _ _ => trivial

/-- A user who passes the gate has not been severed. -/
theorem allows_letIn (hi : (spec n user).inv x.db x.mem) {token : Option Claims} {u : User}
    (hgate : gate token x.db = .ok u) (hfresh : u.id = user → user ∉ x.mem.severed) :
    (spec n user).Allows p x (x.acted (admittedBy p token)) := by
  have hmem : admittedBy p token x.db x.mem =
      { x.mem with admitted := (p, u.id) :: x.mem.admitted } := by
    simp [admittedBy, hgate]
  simp only [Point.acted, hmem]
  refine ⟨hi, fun q _ => ⟨NoBetter.refl x.db, ?_⟩⟩
  exact
    { admitted := fun ha => List.mem_cons_of_mem _ ha
      unregistered := fun hu => hu
      waiting := fun _ _ hs => hs
      fewer := fun hs =>
        { severed := hs
          conns := fun c hc hu => ⟨c, hc, rfl, hu⟩
          admitted := fun a ha hu => (List.mem_cons.mp ha).resolve_left fun heq =>
            hfresh (by rw [heq] at hu; exact hu) hs
          closed := fun _ hk => hk }
      sends := fun _ => rfl }

theorem allows_register (hi : (spec n user).inv x.db x.mem) {u : String}
    (hfresh : u = user → user ∉ x.mem.severed) :
    (spec n user).Allows p x (x.acted fun _ m => m.register ⟨p, u, []⟩) where
  inv := hi
  others q hq :=
    { left := NoBetter.refl x.db
      right :=
        { admitted := fun ha => ha
          unregistered := fun hu c hc => (List.mem_append.mp hc).elim (hu c) fun hnew => by
            rw [List.mem_singleton.mp hnew]
            exact hq.symm
          waiting := fun _ _ hs => hs
          fewer := fun hs =>
            { severed := hs
              conns := fun c hc hu => (List.mem_append.mp hc).elim (fun hold => ⟨c, hold, rfl, hu⟩)
                fun hnew => by
                  rw [List.mem_singleton.mp hnew] at hu
                  exact absurd hs (hfresh hu)
              admitted := fun _ ha _ => ha
              closed := fun _ hk => hk }
          sends := fun _ => rfl } }

/-- Between the gate and the registration: admitted, not registered and not severed. -/
def Entering (p : ℕ) (user u : String) (m : Memory) : Prop :=
  Unregistered p m ∧ (u = user → (p, user) ∈ m.admitted ∧ user ∉ m.severed)

theorem Entering.env {y : Point Db Memory} {u : String} (h : Entering p user u x.mem)
    (he : (spec n user).Env p x y) : Entering p user u y.mem :=
  ⟨he.rely.2.unregistered h.1, fun hu => ⟨he.rely.2.admitted (h.2 hu).1,
    he.rely.2.waiting (h.2 hu).1 h.1 (h.2 hu).2⟩⟩

/-- The one way in: the gate, the accept, the registration. -/
theorem safe_wsEndpoint (hx : x.work = none)
    (hp : Unregistered p x.mem) (h : Handshake)
    (ht : ∀ claims, h.token = some claims → claims.userId = user → claims.generation ≤ n) :
    Safe (spec n user) p (wsEndpoint p h) (fun _ _ => True) (fun _ _ => True) x := by
  refine Safe.atomically fun y hy _ => ?_
  have hyw : y.work = none := hy.free hx
  rw [Point.view_of_none hyw]
  cases hgate : gate h.token y.db with
  | error e =>
      have hsame : y.acted (admittedBy p h.token) = y := by
        simp [Point.acted, admittedBy, hgate]
      rw [hsame]
      exact ⟨⟨hy.inv, fun q _ => (spec n user).rely_refl q _ _⟩, Safe.pure fun _ _ => trivial⟩
  | ok u =>
      have hfresh : u.id = user → user ∉ y.mem.severed := fun hu hs =>
        gate_of_refused (hy.inv.2 hs) ht hgate hu
      have hentering : Entering p user u.id (y.acted (admittedBy p h.token)).mem := by
        simp only [Point.acted, admittedBy, hgate]
        exact ⟨hy.rely.2.unregistered hp, fun hu => ⟨by simp [hu], hfresh hu⟩⟩
      have hadmitted := allows_letIn (p := p) hy.inv hgate hfresh
      refine ⟨hadmitted, Safe.bind ?_ hadmitted.inv⟩
      refine Safe.atomically fun z hz _ => ⟨?_, ?_⟩
      · cases h.completes with
        | true => exact ⟨hz.inv, fun q _ => (spec n user).rely_refl q _ _⟩
        | false => exact allows_quiet (g := fun _ m => notAdmitted p m) hz.inv (quiet_notAdmitted _)
      · cases hc : h.completes with
        | false => exact Safe.raise fun _ _ => trivial
        | true =>
            refine Safe.pure fun v hv => Safe.atomically fun w hw _ => ?_
            have hw' : Entering p user u.id w.mem := ((hentering.env hz).env hv).env hw
            have hreg := allows_register (p := p) (u := u.id) hw.inv fun hu => (hw'.2 hu).2
            refine ⟨hreg, safe_serve hreg.inv ?_ (fun hu => (hw'.2 hu).1) h.frames⟩
            exact hw.free (hv.free (hz.free hyw))

/-! ## Dropping the sockets -/

/-- After the snapshot: what is left of the user is among the targets still to be closed. -/
structure Severing (user : String) (targets : List ℕ) (m : Memory) : Prop where
  severed : user ∈ m.severed
  conns : ∀ c ∈ m.conns, c.userId = user → c.id ∈ targets
  admitted : ∀ a ∈ m.admitted, a.2 = user → a.1 ∈ m.closed ∨ a.1 ∈ targets

theorem Severing.env {y : Point Db Memory} {targets : List ℕ}
    (h : Severing user targets x.mem) (he : (spec n user).Env p x y) :
    Severing user targets y.mem := by
  have hfewer := he.rely.2.fewer h.severed
  refine ⟨hfewer.severed, fun c' hc' hu => ?_, fun a ha hu => ?_⟩
  · obtain ⟨c, hc, hid, hcu⟩ := hfewer.conns c' hc' hu
    rw [← hid]
    exact h.conns c hc hcu
  · exact (h.admitted a (hfewer.admitted a ha hu) hu).imp (hfewer.closed a.1) id

theorem Severing.gone {m : Memory} (h : Severing user [] m) : Gone user m where
  severed := h.severed
  conns c hc hu := by cases h.conns c hc hu
  admitted a ha hu := (h.admitted a ha hu).resolve_right (by simp)

theorem Gone.env {y : Point Db Memory} (h : Gone user x.mem) (he : (spec n user).Env p x y) :
    Gone user y.mem :=
  (he.rely.2.fewer h.severed).gone h

theorem safe_closeAll (u : String) (targets : List ℕ)
    (hs : u = user → Severing user targets x.mem) :
    Safe (spec n user) p (closeAll targets) (fun _ y => u = user → Gone user y.mem)
      (fun _ _ => True) x := by
  induction targets generalizing x with
  | nil => exact Safe.pure fun y hy hu => ((hs hu).env hy).gone
  | cons conn targets ih =>
      refine Safe.atomically fun y hy _ => ⟨?_, Safe.atomically fun z hz _ => ⟨?_, ih fun hu => ?_⟩⟩
      · refine allows_quiet (g := fun _ m => { m with closed := conn :: m.closed }) hy.inv ?_
        exact ⟨fun c hc => ⟨c, hc, rfl, rfl⟩, fun _ ha => ha, fun _ ha _ => ha, rfl,
          fun _ => List.mem_cons_of_mem conn, rfl⟩
      · exact allows_quiet (g := fun _ m => m.unregister conn) hz.inv (quiet_filter z.mem _)
      · -- the target is closed and unregistered
        have hy' : Severing user (conn :: targets) y.mem := (hs hu).env hy
        have hclosing : Severing user (conn :: targets)
            { y.mem with closed := conn :: y.mem.closed } :=
          ⟨hy'.severed, hy'.conns, fun a ha hau => (hy'.admitted a ha hau).imp
            (List.mem_cons_of_mem conn) id⟩
        have hz' : Severing user (conn :: targets) z.mem := hclosing.env hz
        have hconn : conn ∈ z.mem.closed :=
          (hz.rely.2.fewer hclosing.severed).closed conn List.mem_cons_self
        refine ⟨hz'.severed, fun c hc hcu => ?_, fun a ha hau => ?_⟩
        · obtain ⟨hold, hne⟩ := List.mem_filter.mp hc
          exact (List.mem_cons.mp (hz'.conns c hold hcu)).resolve_left (by simpa using hne)
        · rcases hz'.admitted a ha hau with hcl | htarget
          · exact Or.inl hcl
          · rcases List.mem_cons.mp htarget with heq | hrest
            · exact Or.inl (heq ▸ hconn)
            · exact Or.inr hrest

theorem safe_disconnectUser (u : String) (hr : u = user → Refused n user x.db) :
    Safe (spec n user) p (disconnectUser u) (fun _ y => u = user → Gone user y.mem)
      (fun _ _ => True) x := by
  refine Safe.atomically fun y hy hm => ⟨?_, safe_closeAll u _ fun hu => ?_⟩
  · have hrefl := fun q => Others.refl user q y.mem
    refine ⟨⟨hy.inv.1, fun hs => ?_⟩, fun q _ => ⟨NoBetter.refl y.db, ?_⟩⟩
    · rcases List.mem_cons.mp hs with heq | hold
      · exact (hr heq.symm).noBetter hy.rely.1
      · exact hy.inv.2 hold
    · refine ⟨(hrefl q).admitted, (hrefl q).unregistered, fun ha hun hs hs' => ?_, fun hs => ?_,
        fun _ => rfl⟩
      · -- the condition: an admitted socket of the user is registered
        obtain rfl : user = u := (List.mem_cons.mp hs').resolve_right hs
        obtain ⟨c, hc, hid, _⟩ := registered_of_seesAdmitted hm ha rfl
        exact hun c hc hid
      · have hf := (hrefl q).fewer hs
        exact ⟨List.mem_cons_of_mem u hs, hf.conns, hf.admitted, hf.closed⟩
  · subst hu
    refine ⟨List.mem_cons_self, fun c hc hcu => ?_, fun a ha hau => Or.inr ?_⟩
    · exact List.mem_map.mpr ⟨c, List.mem_filter.mpr ⟨hc, by simpa using hcu⟩, rfl⟩
    · obtain ⟨c, hc, hid, hcu⟩ := registered_of_seesAdmitted hm ha hau
      exact List.mem_map.mpr ⟨c, List.mem_filter.mpr ⟨hc, by simpa using hcu⟩, hid⟩

/-! ## The requests that refuse a user -/

theorem noBetter_map (db : Db) {g : User → User} (hid : ∀ u, (g u).id = u.id)
    (hban : ∀ u, u.bannedAt.isSome = true → (g u).bannedAt.isSome = true)
    (hgen : ∀ u, u.tokenGeneration ≤ (g u).tokenGeneration) :
    NoBetter db { db with users := db.users.map g } := by
  intro id user' h
  rw [Db.userById_map db hid] at h
  obtain ⟨u, hu, rfl⟩ := Option.map_eq_some_iff.mp h
  exact ⟨u, hu, hban u, hgen u⟩

theorem userById_deleteUser (u id : String) (db : Db) :
    (deleteUser u db).userById id = if id = u then none else db.userById id := by
  unfold deleteUser Db.userById
  rw [List.find?_filter]
  split_ifs with h
  · rw [List.find?_eq_none]
    simp [h]
  · congr 1
    funext v
    by_cases hv : v.id = id <;> simp [hv, h]

theorem noBetter_teardown {u : String} {s : Label × (Db → Db)} (hs : s ∈ teardown u) (db : Db) :
    NoBetter db (s.2 db) := by
  have hdelete : NoBetter db (deleteUser u db) := by
    intro id v hv
    rw [userById_deleteUser] at hv
    split_ifs at hv
    exact ⟨v, hv, fun hb => hb, le_rfl⟩
  simp only [teardown, List.mem_cons, List.not_mem_nil, or_false] at hs
  rcases hs with rfl | rfl | rfl | rfl | rfl | rfl | rfl | rfl | rfl | rfl | rfl | rfl | rfl |
    rfl | rfl | rfl | rfl | rfl
  all_goals first | exact NoBetter.of_users rfl | exact hdelete

theorem noBetter_foldl {u : String} {ss : List (Label × (Db → Db))}
    (hs : ∀ s ∈ ss, s ∈ teardown u) (db : Db) : NoBetter db (ss.foldl (fun d s => s.2 d) db) := by
  induction ss generalizing db with
  | nil => exact NoBetter.refl db
  | cons s ss ih =>
      exact (noBetter_teardown (hs s List.mem_cons_self) db).trans
        (ih (fun t ht => hs t (List.mem_cons_of_mem s ht)) (s.2 db))

theorem respects_accountWrite (u : String) :
    Respects (spec n user) p (fun _ _ => True) NoBetter (AccountWrite u)
      Memberships.NoSegment where
  refl := NoBetter.refl
  trans := NoBetter.trans
  stable _ _ := trivial
  write _ _ z _ hw _ _ _ _ hf := by
    cases hw with
    | admin c =>
        obtain rfl := Option.some.inj hf
        exact NoBetter.of_users rfl
    | teardown hs =>
        obtain rfl := Option.some.inj hf
        exact noBetter_teardown hs z.view
  segment _ _ _ hg := hg.elim
  commit db mem _ hi _ h := ⟨allows_noBetter (x := ⟨db, mem, none⟩) hi h none, trivial⟩

theorem safe_deleteUserAccount (hi : (spec n user).inv x.db x.mem) (hx : x.work = none)
    (u : String) :
    Safe (spec n user) p (deleteUserAccount u) (fun _ y => u = user → Refused n user y.db)
      (fun _ _ => True) x := by
  have hadmin : Safe (spec n user) p (removeAdminMembershipsOrRefuse u)
      (fun _ y => True ∧ NoBetter y.db y.view) (fun _ y => True ∧ NoBetter y.db y.view) x :=
    (respects_accountWrite u).safe (uses_removeAdminMembershipsOrRefuse u .admin) trivial
      (by rw [Point.view_of_none hx]; exact NoBetter.refl x.db)
  refine Safe.andThen (hadmin.mono (fun _ _ _ h => h.2) fun _ _ _ _ => trivial) hi
    fun _ y _ hy => Safe.execAll (by simp [teardown]) fun z hz => Safe.commit fun v hv _ => ?_
  -- the working copy is the teardown of what the admin DELETEs left
  have hview := hv.view_eq rfl
  have hdb : v.db = z.db := hv.db_eq rfl
  have hbetter : NoBetter v.db v.view := by
    rw [hview, hdb]
    exact (env_view NoBetter.refl hz hy).trans (noBetter_foldl (fun _ h => h) z.view)
  have hgone : v.view.userById u = none := by
    rw [hview]
    simp [teardown, userById_deleteUser]
  refine ⟨fun _ _ => allows_noBetter hv.inv hbetter none, Safe.pure fun w hw hu => ?_⟩
  refine Refused.noBetter (fun m hm => ?_) hw.rely.1
  rw [Point.committed_db, ← hu, hgone] at hm
  cases hm

theorem safe_banUser (hx : x.work = none)
    (moderators : List String) (targetId moderatorId : String) (now : Time) :
    Safe (spec n user) p (banUser moderators targetId moderatorId now)
      (fun _ y => targetId = user → Refused n user y.db) (fun _ _ => True) x := by
  unfold banUser
  split_ifs
  · exact Safe.raise fun _ _ => trivial
  · exact Safe.raise fun _ _ => trivial
  refine Safe.query fun y hy => ?_
  rw [Point.view_of_none (hy.free hx)]
  cases hfound : y.db.userById targetId with
  | none => exact Safe.raise fun _ _ => trivial
  | some target =>
      dsimp only
      split_ifs with hban
      · -- the UPDATE, then its commit
        refine Safe.bind (Safe.exec fun z hz _ => ?_) hy.inv
        split_ifs
        · refine Safe.pure fun v hv w hw _ => ?_
          have hview := (hv.trans hw).view_eq rfl
          have hdb : w.db = z.db := (hv.trans hw).db_eq rfl
          rw [Point.view_of_none (hz.free (hy.free hx))] at hview
          have hbetter : NoBetter w.db w.view := by
            rw [hview, hdb]
            refine noBetter_map z.db (fun u => ?_) (fun u hb => ?_) fun u => ?_
            · split_ifs <;> rfl
            · split_ifs
              · rfl
              · exact hb
            · split_ifs <;> exact le_rfl
          refine ⟨fun _ _ => allows_noBetter hw.inv hbetter none, fun m hm hu => ?_⟩
          refine Refused.noBetter (fun u hfu => Or.inl ?_) hm.rely.1
          rw [Point.committed_db, hview, Db.userById_map _ (by intro u; split_ifs <;> rfl)] at hfu
          obtain ⟨u₀, hu₀, rfl⟩ := Option.map_eq_some_iff.mp hfu
          have hid : u₀.id = targetId := (Db.mem_of_userById hu₀).2.trans hu.symm
          simp [hid]
        · exact Safe.raise fun _ _ => trivial
      · -- banned before: nothing is written
        intro z hz _
        have hzw : z.work = none := hz.free (hy.free hx)
        refine ⟨fun w hw => (by rw [hzw] at hw; cases hw), fun v hv hu => ?_⟩
        have hrefused : Refused n user y.db := by
          intro u hfu
          rw [← hu, hfound] at hfu
          obtain rfl := Option.some.inj hfu
          exact Or.inl (Option.isSome_iff_ne_none.mpr (by simpa using hban))
        refine hrefused.noBetter (hz.rely.1.trans ?_)
        have hcv : NoBetter z.committed.db v.db := hv.rely.1
        rwa [Point.committed_db, Point.view_of_none hzw] at hcv

theorem safe_finalizeRoute (hi : (spec n user).inv x.db x.mem) (hx : x.work = none)
    (crypto : Crypto) (recoveryId finalizeToken credentialRowId : String) (now : Time) :
    Safe (spec n user) p
      (finalizeRecovery crypto recoveryId finalizeToken credentialRowId now).session
      (fun r y => ∀ s, r = some s → s.userId = user → Refused n user y.db) (fun _ _ => True) x := by
  refine safe_finalizeRecovery crypto recoveryId finalizeToken credentialRowId now hx hi ?_ ?_ ?_
  · intro y _ s hs
    cases hs
  · intro y row hy _ _
    have hbetter : NoBetter y.db
        (takePending recoveryId (crypto.sha256Hex finalizeToken) now y.db) := .of_users rfl
    refine ⟨allows_noBetter hy.inv hbetter y.work, fun z _ s hs => ?_⟩
    cases hs
  · intro y row u s hy _ hfound hkey
    have husers : ∀ id, s.userById id = (y.db.userById id).map fun v =>
        if v.id = u.id then { v with tokenGeneration := v.tokenGeneration + 1 } else v :=
      fun id => userById_rekeyed hkey id
    have hbetter : NoBetter y.db s := by
      intro id v' hv'
      rw [husers] at hv'
      obtain ⟨v, hv, rfl⟩ := Option.map_eq_some_iff.mp hv'
      refine ⟨v, hv, fun hb => ?_, ?_⟩ <;> split_ifs
      · exact hb
      · exact hb
      · exact Nat.le_succ _
      · exact le_rfl
    refine ⟨allows_noBetter hy.inv hbetter y.work, fun z hz r hr hu => ?_⟩
    obtain rfl := Option.some.inj hr
    refine Refused.noBetter (fun v' hv' => Or.inr ?_) hz.rely.1
    rw [husers] at hv'
    obtain ⟨v, hv, rfl⟩ := Option.map_eq_some_iff.mp hv'
    have hid : v.id = u.id := (Db.mem_of_userById hv).2.trans hu.symm
    have hle : n ≤ v.tokenGeneration := hy.inv.1 v hv
    simp only [hid, if_true]
    omega

end

/-! ## Every run -/

section
variable {n : ℕ} {user : String} {p : ℕ} {x : Point Db Memory}

/-- The transaction that refuses the user, closed, and then the drop of the sockets. -/
theorem safe_refuseAndDrop (hi : (spec n user).inv x.db x.mem) {r : Body Unit} {u : String}
    (hr : Safe (spec n user) p r (fun _ y => u = user → Refused n user y.db) (fun _ _ => True) x) :
    Safe (spec n user) p (do
      r.session
      disconnectUser u) (fun _ y => u = user → Gone user y.mem) (fun _ _ => True) x := by
  have hsession : Safe (spec n user) p r.session
      (fun _ y => u = user → Refused n user y.db) (fun _ _ => True) x := by
    refine Safe.session (hr.mono (fun _ y _ hy z hz hu => ?_) fun _ _ _ _ _ _ => trivial) hi
    have hrely : NoBetter y.db z.db := hz.rely.1
    exact (hy hu).noBetter hrely
  exact Safe.andThen hsession hi fun _ _ _ hy => safe_disconnectUser u hy

end

/-- A completed request of the user leaves nothing of the user behind. -/
theorem safe_body {n : ℕ} {user : String} {p : ℕ} {db₀ : Db} (hgen : AtLeast n user db₀)
    {reqs : ℕ → SocketRequest} (ht : TokensUpTo n user reqs) :
    Safe (spec n user) p ((reqs p).body p)
      (fun r y => r = some user → Gone user y.mem) (fun _ _ => True) ⟨db₀, {}, none⟩ := by
  have hi : (spec n user).inv db₀ {} := ⟨hgen, fun hs => by cases hs⟩
  have hreturn : ∀ {r : Body Unit} {u : String},
      Safe (spec n user) p r (fun _ y => u = user → Gone user y.mem) (fun _ _ => True)
        ⟨db₀, {}, none⟩ →
      Safe (spec n user) p (do
        r
        return some u) (fun r y => r = some user → Gone user y.mem) (fun _ _ => True)
        ⟨db₀, {}, none⟩ := fun hr =>
    Safe.andThen hr hi fun _ y _ hy => Safe.pure fun z hz hu => (hy (Option.some.inj hu)).env hz
  cases hreq : reqs p with
  | socket h =>
      refine Safe.andThen (safe_wsEndpoint rfl (fun c hc => by cases hc) h
        fun claims => ht p h claims hreq) hi fun _ y _ _ => Safe.pure fun z _ hu => ?_
      cases hu
  | ban moderators targetId moderatorId now =>
      exact hreturn (safe_refuseAndDrop hi (safe_banUser rfl moderators targetId moderatorId now))
  | deleteMe u => exact hreturn (safe_refuseAndDrop hi (safe_deleteUserAccount hi rfl u))
  | finalize crypto recoveryId finalizeToken credentialRowId now =>
      refine Safe.bind (Safe.andThen (safe_finalizeRoute hi rfl crypto recoveryId finalizeToken
        credentialRowId now) hi fun r y hy hr => ?_) hi
      cases r with
      | none => exact Safe.raise fun _ _ => trivial
      | some s =>
          refine Safe.andThen (safe_disconnectUser s.userId (hr s rfl)) hy fun _ z _ hz => ?_
          exact Safe.pure fun v hv => Safe.pure fun w hw hu =>
            (hz (Option.some.inj hu)).env (hv.trans hw)

/-- Once a ban, a deletion or a finalize of the user has completed, in every later state of a run
that meets the condition, no registered connection belongs to the user and no further frame of
the user's sockets has been taken in as a send. -/
theorem no_live_socket_after_disconnect {n : ℕ} {user : String} {db₀ : Db}
    {reqs : ℕ → SocketRequest} (hgen : AtLeast n user db₀) (ht : TokensUpTo n user reqs)
    {c c' : Cfg ℕ Db Memory Label Exn (Option String)}
    (h : Cfg.Reach (fun t x => seesAdmitted user t x = true)
      (Cfg.init db₀ {} fun p => (reqs p).body p) c) {q : ℕ} (hq : c.procs q = .ret (some user))
    (h' : Cfg.Reach (fun t x => seesAdmitted user t x = true) c c') :
    (∀ k ∈ c'.mem.conns, k.userId ≠ user) ∧
      sendFrames user c'.mem.calls = sendFrames user c.mem.calls := by
  have hi : (spec n user).inv db₀ {} := ⟨hgen, fun hs => by cases hs⟩
  have hsound := (Sound.init hi fun p => safe_body (p := p) hgen ht).reach h
  have hgone : Gone user c.mem := hsound.returned hq rfl
  obtain ⟨_, _, hothers⟩ := hsound.since_returned hq h'
  exact ⟨((hothers.fewer hgone.severed).gone hgone).conns, hothers.sends hgone⟩

/-! ## Runs -/

def bannedLater : Db where
  users := [{ id := "M", username := "m", aikoUsername := "m" },
    { id := "U", username := "u", aikoUsername := "u" }]

/-- A handshake of the user and a ban of the user. -/
def banRequests : ℕ → SocketRequest
  | 0 => .socket { token := some ⟨"U", 0⟩, frames := [.bad "?" [] false] }
  | _ => .ban [] "U" "M" 1

def banStart : Cfg ℕ Db Memory Label Exn (Option String) :=
  Cfg.init bannedLater {} fun p => (banRequests p).body p

theorem bannedLater_atLeast : AtLeast 0 "U" bannedLater := fun _ _ => Nat.zero_le _

theorem banRequests_tokens : TokensUpTo 0 "U" banRequests := by
  intro p h claims hreq htoken _
  match p, hreq with
  | 0, hreq =>
      obtain rfl := SocketRequest.socket.inj hreq
      obtain rfl := Option.some.inj htoken
      exact le_rfl

/-- Without the condition a handshake that passed the gate before the ban registers after it. -/
theorem banned_user_can_keep_a_socket :
    ¬ ∀ (n : ℕ) (user : String) (db₀ : Db) (reqs : ℕ → SocketRequest)
      (c c' : Cfg ℕ Db Memory Label Exn (Option String)) (q : ℕ), AtLeast n user db₀ →
      TokensUpTo n user reqs →
      Cfg.Reach (fun _ _ => True) (Cfg.init db₀ {} fun p => (reqs p).body p) c →
      c.procs q = .ret (some user) → Cfg.Reach (fun _ _ => True) c c' →
      (∀ k ∈ c'.mem.conns, k.userId ≠ user) ∧
        sendFrames user c'.mem.calls = sendFrames user c.mem.calls := by
  intro hclaim
  have hrun : (Cfg.play [0, 1, 1, 1, 1, 1, 0, 0] banStart).map
      (fun c => ((c.procs 1).returned, c.mem.conns)) =
        some (some (some "U"), [{ id := 0, userId := "U" }]) := by
    decide +kernel
  obtain ⟨c, hc, hview⟩ := Option.map_eq_some_iff.mp hrun
  obtain ⟨hret, hconns⟩ := Prod.mk.injEq .. ▸ hview
  have hgone := (hclaim 0 "U" bannedLater banRequests c c 1 bannedLater_atLeast banRequests_tokens
    (Cfg.reach_of_play Cfg.Reach.start hc) (Request.returned_eq_some.mp hret) .start).1
  exact hgone { id := 0, userId := "U" } (by simp [hconns]) rfl

/-- A ban that finds the socket registered meets the condition and leaves none. -/
theorem ban_drops_a_registered_socket :
    ∃ c c', Cfg.playChecked (seesAdmitted "U") [0, 0, 0, 1, 1, 1, 1, 1, 1, 1] banStart = some c ∧
      Cfg.playChecked (seesAdmitted "U") [0] c = some c' ∧
      (∀ k ∈ c'.mem.conns, k.userId ≠ "U") ∧
        sendFrames "U" c'.mem.calls = sendFrames "U" c.mem.calls := by
  have hrun : ((Cfg.playChecked (seesAdmitted "U") [0, 0, 0, 1, 1, 1, 1, 1, 1, 1] banStart).map
      fun c => ((c.procs 1).returned, (Cfg.playChecked (seesAdmitted "U") [0] c).isSome)) =
        some (some (some "U"), true) := by
    decide +kernel
  obtain ⟨c, hc, hview⟩ := Option.map_eq_some_iff.mp hrun
  obtain ⟨hret, hnext⟩ := Prod.mk.injEq .. ▸ hview
  obtain ⟨c', hc'⟩ := Option.isSome_iff_exists.mp hnext
  exact ⟨c, c', hc, hc', no_live_socket_after_disconnect bannedLater_atLeast banRequests_tokens
    (Cfg.reach_of_playChecked (fun _ _ h => h) Cfg.Reach.start hc)
    (Request.returned_eq_some.mp hret)
    (Cfg.reach_of_playChecked (fun _ _ h => h) Cfg.Reach.start hc')⟩

end AikoIsland.ActiveDisconnect
