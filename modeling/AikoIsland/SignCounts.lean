import AikoIsland.Auth
import AikoIsland.History
import AikoIsland.Publishing

/-!
# The clone counter of a passkey

A sign-in burns its challenge first, and this UPDATE takes the writer lock. So
the row of the credential is read, checked and written back under the lock, and
no other sign-in comes between. The library accepts a count above the one that it
was given, or zero after zero.

The log of the store lists the counts that committed sign-ins wrote. A stored
count never decreases, and the counts that were accepted for one credential are
strictly increasing, so no two sign-ins share one unless it is zero.
-/
namespace AikoIsland.SignCounts
open Tables Gateway Passkeys Signing Auth WriterLock RelyGuarantee Footprint Publishing History

/-- A count that request `request` wrote for a credential row. -/
structure Accepted (π : Type) where
  request : π
  credential : String
  count : ℕ
  deriving DecidableEq, Repr

/-- The counts that differ after a statement of request `p`. -/
def countNotes {π : Type} (p : π) (old new : Db) : List (Accepted π) :=
  old.credentials.filterMap fun c =>
    match new.credentials.find? fun c' => c'.id = c.id with
    | some c' => if c'.signCount = c.signCount then none else some ⟨p, c.id, c'.signCount⟩
    | none => none

/-- What the library promises about an accepted assertion. -/
def CountsGrow (lib : AuthLib) : Prop :=
  ∀ raw assertion key current count,
    lib.verifyAuthentication raw assertion key current = .ok count →
      current < count ∨ current = 0 ∧ count = 0

section
variable {π : Type} {p : π} {db : Db} {id : String} {n : ℕ} {c : PasskeyCredential}

/-- Every accepted count is at most the stored one, and later ones are larger. -/
structure CountInv (s : Db × List (Accepted π)) : Prop where
  keys : (s.1.credentials.map (·.id)).Nodup
  stored : ∀ a ∈ s.2, ∀ c ∈ s.1.credentials, c.id = a.credential → a.count ≤ c.signCount
  increasing : s.2.Pairwise fun a b => a.credential = b.credential → a.count < b.count

/-- The rows as before, apart from counts that did not decrease. -/
def Grows (old new : List PasskeyCredential) : Prop :=
  List.Forall₂ (fun c c' => c' = { c with signCount := c'.signCount } ∧ c.signCount ≤ c'.signCount)
    old new

/-- A committed sign-in: one row has a count that the library accepted. -/
structure SignsIn (p : π) (id : String) (n : ℕ) (s s' : Db × List (Accepted π)) : Prop where
  rows : s'.1.credentials = (bumpSignCount id n s.1).credentials
  log : s'.2 = s.2 ++ countNotes p s.1 s'.1
  accepted : ∀ c ∈ s.1.credentials, c.id = id → c.signCount < n ∨ c.signCount = 0 ∧ n = 0

theorem eq_of_id {cs : List PasskeyCredential} (h : (cs.map (·.id)).Nodup) {c c' : PasskeyCredential}
    (hc : c ∈ cs) (hc' : c' ∈ cs) (hid : c.id = c'.id) : c = c' :=
  List.inj_on_of_nodup_map h hc hc' hid

theorem find_bumped (hk : (db.credentials.map (·.id)).Nodup) (hc : c ∈ db.credentials) :
    (bumpSignCount id n db).credentials.find? (fun c' => c'.id = c.id) =
      some (if c.id = id then { c with signCount := n } else c) := by
  have hmem : (if c.id = id then { c with signCount := n } else c) ∈
      (bumpSignCount id n db).credentials := List.mem_map_of_mem hc
  cases hf : (bumpSignCount id n db).credentials.find? fun c' => c'.id = c.id with
  | none =>
      have hnone := List.find?_eq_none.mp hf _ hmem
      split_ifs at hnone <;> simp at hnone
  | some c' =>
      have hid : c'.id = c.id := by simpa using List.find?_some hf
      obtain ⟨d, hd, rfl⟩ := List.mem_map.mp (List.mem_of_find?_eq_some hf)
      have hdid : d.id = c.id := by
        split_ifs at hid <;> exact hid
      rw [eq_of_id hk hd hc hdid]

theorem mem_notes_bumped {new : Db} {a : Accepted π} (hk : (db.credentials.map (·.id)).Nodup)
    (hnew : new.credentials = (bumpSignCount id n db).credentials) :
    a ∈ countNotes p db new ↔
      ∃ c ∈ db.credentials, c.id = id ∧ c.signCount ≠ n ∧ a = ⟨p, id, n⟩ := by
  rw [countNotes, List.mem_filterMap, hnew]
  constructor
  · rintro ⟨c, hc, ha⟩
    rw [find_bumped hk hc] at ha
    by_cases hid : c.id = id
    · subst hid
      by_cases hn : n = c.signCount
      · simp [hn] at ha
      · simp only [if_true, if_neg hn, Option.some.injEq] at ha
        exact ⟨c, hc, rfl, Ne.symm hn, ha.symm⟩
    · simp [hid] at ha
  · rintro ⟨c, hc, rfl, hn, rfl⟩
    refine ⟨c, hc, ?_⟩
    rw [find_bumped hk hc]
    simp [Ne.symm hn]

theorem notes_same {new : Db} (hk : (db.credentials.map (·.id)).Nodup)
    (hnew : new.credentials = db.credentials) : countNotes p db new = [] := by
  rw [countNotes, List.filterMap_eq_nil_iff]
  intro c hc
  rw [hnew]
  split
  · rename_i c' hc'
    have hid : c'.id = c.id := by simpa using List.find?_some hc'
    rw [eq_of_id hk (List.mem_of_find?_eq_some hc') hc hid, if_pos rfl]
  · rfl

/-- A statement notes a row once. -/
theorem pairwise_notes {new : Db} (hk : (db.credentials.map (·.id)).Nodup) :
    (countNotes p db new).Pairwise fun a b => a.credential ≠ b.credential := by
  rw [List.Nodup, List.pairwise_map] at hk
  apply List.Pairwise.filterMap _ _ hk
  intro c c' hne a ha b hb
  have hcred : ∀ (d : PasskeyCredential) (e : Accepted π),
      (match new.credentials.find? fun c' => c'.id = d.id with
        | some c' => if c'.signCount = d.signCount then none else some ⟨p, d.id, c'.signCount⟩
        | none => none) = some e → e.credential = d.id := by
    intro d e he
    split at he
    · split_ifs at he
      rw [← Option.some.inj he]
    · cases he
  rw [hcred c a ha, hcred c' b hb]
  exact hne

theorem grows_refl (cs : List PasskeyCredential) : Grows cs cs :=
  List.forall₂_same.mpr fun _ _ => ⟨rfl, le_rfl⟩

theorem Grows.ids {old new : List PasskeyCredential} (h : Grows old new) :
    new.map (·.id) = old.map (·.id) := by
  induction h with
  | nil => rfl
  | cons hc _ ih =>
      rw [List.map_cons, List.map_cons, ih, hc.1]

variable {s s' : Db × List (Accepted π)}

theorem SignsIn.grows (h : SignsIn p id n s s') : Grows s.1.credentials s'.1.credentials := by
  rw [h.rows, Grows, bumpSignCount, List.forall₂_map_right_iff, List.forall₂_same]
  intro c hc
  split_ifs with hid
  · constructor
    · rfl
    · rcases h.accepted c hc hid with hlt | ⟨hzero, hn⟩
      · exact hlt.le
      · simp [hzero]
  · exact ⟨rfl, le_rfl⟩

/-- What one committed sign-in preserves. -/
theorem SignsIn.inv (h : SignsIn p id n s s') (hi : CountInv s) : CountInv s' := by
  have hnew : ∀ a ∈ countNotes p s.1 s'.1, ∃ c ∈ s.1.credentials, c.id = id ∧ c.signCount < n ∧
      a = ⟨p, id, n⟩ := by
    intro a ha
    obtain ⟨c, hc, hid, hne, rfl⟩ := (mem_notes_bumped hi.keys h.rows).mp ha
    rcases h.accepted c hc hid with hlt | ⟨hzero, hn⟩
    · exact ⟨c, hc, hid, hlt, rfl⟩
    · rw [hzero, hn] at hne
      exact absurd rfl hne
  constructor
  · rw [h.grows.ids]
    exact hi.keys
  · intro a ha c' hc' hid
    rw [h.rows] at hc'
    obtain ⟨c, hc, rfl⟩ := List.mem_map.mp hc'
    rw [h.log, List.mem_append] at ha
    rcases ha with ha | ha
    · split_ifs at hid ⊢ with hcid
      · have hle := hi.stored a ha c hc hid
        rcases h.accepted c hc hcid with hlt | ⟨hzero, hn⟩
        · exact hle.trans hlt.le
        · rw [hzero] at hle
          exact hle.trans (Nat.zero_le n)
      · exact hi.stored a ha c hc hid
    · obtain ⟨_, _, _, _, rfl⟩ := hnew a ha
      split_ifs at hid ⊢ with hcid
      · exact le_rfl
      · exact absurd hid hcid
  · rw [h.log, List.pairwise_append]
    refine ⟨hi.increasing, ?_, ?_⟩
    · apply (pairwise_notes hi.keys).imp
      intro a b hne heq
      exact absurd heq hne
    · intro a ha b hb heq
      obtain ⟨c, hc, hid, hlt, rfl⟩ := hnew b hb
      have hle := hi.stored a ha c hc (hid.trans heq.symm)
      exact Nat.lt_of_le_of_lt hle hlt

/-- A nonzero accepted count is in the log. -/
theorem SignsIn.logged (h : SignsIn p id n s s') (hi : CountInv s) (hc : c ∈ s.1.credentials)
    (hid : c.id = id) (hn : n ≠ 0) : ⟨p, id, n⟩ ∈ s'.2 := by
  rw [h.log, List.mem_append]
  right
  apply (mem_notes_bumped hi.keys h.rows).mpr
  refine ⟨c, hc, hid, ?_, rfl⟩
  rcases h.accepted c hc hid with hlt | ⟨_, hzero⟩
  · exact hlt.ne
  · exact absurd hzero hn

end

/-! ## One sign-in -/

section
variable {π : Type} (lib : AuthLib) (p : π) (req : AssertionReq)

def countSpec (π : Type) : Spec π (Db × List (Accepted π)) Memory Label where
  inv s _ := CountInv s
  rely _ _ _ _ _ := True
  meets _ _ := True
  rely_refl _ _ _ := trivial
  rely_trans _ _ := trivial

/-- The library accepted the assertion of this request with a count for the credential that it
names; a nonzero count is in the log. -/
def SignedIn (s : Db × List (Accepted π)) : Prop :=
  ∃ raw assertion key current count, lib.parseAssertion req.credential = some assertion ∧
    lib.verifyAuthentication raw assertion key current = .ok count ∧
    ∃ c ∈ s.1.credentials, c.credentialId = assertion.credentialId ∧
      (count ≠ 0 → ⟨p, c.id, count⟩ ∈ s.2)

/-- A session is returned after a committed sign-in only. -/
def Answered : Option ((Db × List (Accepted π)) × (Db × List (Accepted π))) →
    Except Exn Outcome → Prop
  | _, .error _ => True
  | none, .ok _ => False
  | some ab, .ok _ => SignedIn lib p req ab.2

/-- The request holds the lock and has not touched the credentials. -/
def Held (z : Point (Db × List (Accepted π)) Memory) : Prop :=
  ∃ w, z.work = some w ∧ w.1.credentials = z.db.1.credentials ∧ w.2 = z.db.2

variable {lib p req} {x y z : Point (Db × List (Accepted π)) Memory}

theorem Held.env (h : Held z) (hy : (countSpec π).Env p z y) : Held y := by
  obtain ⟨w, hw, hrows, hlog⟩ := h
  have hdb := hy.db_eq hw
  exact ⟨w, hy.work.trans hw, by rw [hdb, hrows], by rw [hdb, hlog]⟩

theorem Held.view (h : Held z) : z.view.1.credentials = z.db.1.credentials ∧ z.view.2 = z.db.2 := by
  obtain ⟨w, hw, hrows, hlog⟩ := h
  rw [Point.view_of_some hw]
  exact ⟨hrows, hlog⟩

/-- An exception owes nothing. -/
theorem owed_error {past : List ((Db × List (Accepted π)) × (Db × List (Accepted π)))} {e : Exn} :
    Owed (Answered lib p req) past (.error e) :=
  ⟨fun _ => trivial, fun _ _ => trivial⟩

theorem mint_eq (user : User) : mint user =
    if isBanned user = true then throwExn accountSuspended
    else return .session (tokens user) (some (userView user)) := by
  unfold mint denyIfBanned
  split_ifs <;> rfl

theorem publishes_outcome (hz : Held z) {cred : PasskeyCredential} {raw : Bytes}
    {assertion : Assertion} {count : ℕ} (hlib : CountsGrow lib)
    (hcred : cred ∈ z.db.1.credentials) (hid : cred.credentialId = assertion.credentialId)
    (hparse : lib.parseAssertion req.credential = some assertion)
    (hverify : lib.verifyAuthentication raw assertion cred.publicKey cred.signCount = .ok count)
    (user : Option User) :
    Publishes (countSpec π) p (fun s s' => ∃ id n, SignsIn p id n s s') (Answered lib p req) []
      (noting (countNotes p) (passkeyOutcome cred count user)) z := by
  cases user with
  | none => exact fun _ _ => owed_error
  | some user =>
      simp only [passkeyOutcome]
      rw [mint_eq]
      split_ifs
      · exact owed_error
      intro y hy _
      refine ⟨fun s hs => ⟨fun hn => absurd hn.1 (by decide), fun _ => ?_⟩, fun hn => by cases hn⟩
      obtain ⟨hstore, hlog⟩ := noted_eq_some.mp hs
      obtain ⟨w, hw, hrows, hwlog⟩ := hz.env hy
      have hview : y.view = w := Point.view_of_some hw
      have hcred' : cred ∈ y.db.1.credentials := by
        obtain ⟨v, hv, _⟩ := hz
        rwa [hy.db_eq hv]
      -- the working copy after the flush is a sign-in from the committed store
      have hsigns : CountInv y.db → SignsIn p cred.id count y.db s := by
        intro hinv
        have hnew := Option.some.inj hstore
        constructor
        · rw [← hnew, hview]
          simp only [bumpSignCount, hrows]
        · rw [hlog, hview, hwlog]
          simp only [countNotes, hrows]
        · intro c hc hcid
          rw [eq_of_id hinv.keys hc hcred' hcid]
          exact hlib _ _ _ _ _ hverify
      simp only [Option.some.injEq] at hstore
      change Publishes (countSpec π) p _ (Answered lib p req) []
        (noting (countNotes p) ((if _ = 1 then Pure.pure () else throwExn .staleDataError) >>= _)) _
      split_ifs
      · apply Publishes.commit rfl
        intro v hv _
        have hdb : v.db = y.db := hv.db_eq rfl
        have hinv : CountInv y.db := hy.inv
        have hdone := hsigns hinv
        rw [hdb]
        refine ⟨⟨_, _, hdone⟩, ⟨hdone.inv hinv, fun _ _ => trivial⟩, nofun, fun ab hab => ?_⟩
        obtain rfl := List.mem_singleton.mp hab
        refine ⟨raw, assertion, cred.publicKey, cred.signCount, count, hparse, hverify, ?_⟩
        have hrow : { cred with signCount := count } ∈ s.1.credentials := by
          rw [hdone.rows]
          exact List.mem_map.mpr ⟨cred, hcred', if_pos rfl⟩
        exact ⟨_, hrow, hid, hdone.logged hinv hcred' rfl⟩
      · exact owed_error

/-- The burn takes the lock: what follows it runs on a copy with the committed credentials. -/
theorem publishes_burnt (hx : x.work = none) {k : Option Bytes → Body Outcome}
    (h : ∀ raw z, Held z → Publishes (countSpec π) p (fun s s' => ∃ id n, SignsIn p id n s s')
      (Answered lib p req) [] (noting (countNotes p) (k raw)) z) :
    Publishes (countSpec π) p (fun s s' => ∃ id n, SignsIn p id n s s') (Answered lib p req) []
      (noting (countNotes p) (consumeChallenge req.state .authenticate req.now >>= k)) x := by
  intro y hy _
  refine ⟨fun s hs => ⟨fun hn => absurd hn.1 (by decide), fun _ => ?_⟩, fun hn => by cases hn⟩
  obtain ⟨hstore, hlog⟩ := noted_eq_some.mp hs
  have hview : y.view = y.db := Point.view_of_none (hy.free hx)
  have hrows : s.1.credentials = y.db.1.credentials := by
    rw [← Option.some.inj hstore, hview]
    rfl
  have hheld : Held ({ y with work := some s } : Point (Db × List (Accepted π)) Memory) := by
    refine ⟨s, rfl, hrows, ?_⟩
    have hnone : countNotes p y.db.1 s.1 = [] := notes_same (CountInv.keys hy.inv) hrows
    rw [hlog, hview, hnone, List.append_nil]
  change Publishes (countSpec π) p _ (Answered lib p req) [] (noting (countNotes p)
    ((if burnRowcount req.state .authenticate req.now y.view.1 ≠ 1 then Pure.pure none
      else _) >>= k)) _
  split_ifs
  · exact h none _ hheld
  · cases base64urlToBytes req.state with
    | none => exact owed_error
    | some raw => exact h (some raw) _ hheld

theorem publishes_finish (hx : x.work = none) (hlib : CountsGrow lib) :
    Publishes (countSpec π) p (fun s s' => ∃ id n, SignsIn p id n s s') (Answered lib p req) []
      (noting (countNotes p) (passkeyAuthenticateFinish lib req).session) x := by
  rw [noting_session]
  apply Publishes.session
  have hassoc : passkeyAuthenticateFinish lib req =
      consumeChallenge req.state .authenticate req.now >>= _ := Request.bind_assoc _ _ _
  rw [hassoc]
  apply publishes_burnt hx
  intro raw z hz
  cases raw with
  | none => exact fun _ _ => owed_error
  | some raw =>
      dsimp only
      cases hparse : lib.parseAssertion req.credential with
      | none => exact fun _ _ => owed_error
      | some assertion =>
          intro y hy
          have hheld := hz.env hy
          dsimp only
          generalize hfound : getCredential assertion.credentialId y.view.1 = found
          cases found with
          | none => exact fun _ _ => owed_error
          | some cred =>
              have hcred : cred ∈ y.db.1.credentials := by
                rw [← hheld.view.1]
                exact List.mem_of_find?_eq_some hfound
              have hid : cred.credentialId = assertion.credentialId := by
                simpa using List.find?_some hfound
              simp only [Request.bind]
              generalize hverify :
                lib.verifyAuthentication raw assertion cred.publicKey cred.signCount = verified
              cases verified with
              | error e =>
                  cases e with
                  | invalidAuthenticationResponse => exact fun _ _ => owed_error
                  | raised type => exact owed_error
              | ok count =>
                  intro v hv
                  have hcred' : cred ∈ v.db.1.credentials := by
                    obtain ⟨w, hw, _⟩ := hheld
                    rwa [hv.db_eq hw]
                  exact publishes_outcome (hheld.env hv) hlib hcred' hid hparse hverify _

end

/-! ## Runs -/

section
variable {π : Type} [DecidableEq π] {lib : AuthLib} {reqs : π → AssertionReq} {db : Db}
  {mem : Memory} {c c' : Cfg π (Db × List (Accepted π)) Memory Label Exn Outcome}

/-- Any sign-ins, none started, with the log of the counts. -/
def startOf (lib : AuthLib) (reqs : π → AssertionReq) (db : Db) (mem : Memory) :
    Cfg π (Db × List (Accepted π)) Memory Label Exn Outcome :=
  Cfg.init (db, []) mem fun p =>
    noting (countNotes p) (passkeyAuthenticateFinish lib (reqs p)).session

theorem guarded_start (hlib : CountsGrow lib) (hkeys : (db.credentials.map (·.id)).Nodup) :
    Guarded (countSpec π) (fun p s s' => ∃ id n, SignsIn p id n s s')
      (fun p => Answered lib p (reqs p)) (fun _ => []) (startOf lib reqs db mem) := by
  constructor
  · exact ⟨hkeys, nofun, List.Pairwise.nil⟩
  · exact fun p => publishes_finish rfl hlib

omit [DecidableEq π] in
theorem Grows.trans {cs cs' cs'' : List PasskeyCredential} (h : Grows cs cs')
    (h' : Grows cs' cs'') : Grows cs cs'' := by
  unfold Grows at h h' ⊢
  induction h generalizing cs'' with
  | nil => exact h'
  | @cons d d' ds ds' hd _ ih =>
      cases h' with
      | @cons _ d'' _ ds'' hd' hrest' =>
          constructor
          · constructor
            · rw [hd'.1, hd.1]
            · exact hd.2.trans hd'.2
          · exact ih hrest'

omit [DecidableEq π] in
theorem Grows.row {cs cs' : List PasskeyCredential} (h : Grows cs cs') {d : PasskeyCredential}
    (hd : d ∈ cs) : ∃ d' ∈ cs', d'.id = d.id ∧ d'.credentialId = d.credentialId := by
  induction h with
  | nil => cases hd
  | @cons e e' es es' he _ ih =>
      rcases List.mem_cons.mp hd with rfl | hd
      · exact ⟨e', List.mem_cons_self, by rw [he.1], by rw [he.1]⟩
      · obtain ⟨d', hd', hsame⟩ := ih hd
        exact ⟨d', List.mem_cons_of_mem e' hd', hsame⟩

omit [DecidableEq π] in
/-- A committed sign-in stays in the log, and its credential in the table. -/
theorem SignedIn.mono {p : π} {req : AssertionReq} {s s' : Db × List (Accepted π)}
    (h : SignedIn lib p req s) (hrows : Grows s.1.credentials s'.1.credentials)
    (hlog : s.2 <+: s'.2) : SignedIn lib p req s' := by
  obtain ⟨raw, assertion, key, current, count, hparse, hverify, cred, hcred, hid, hn⟩ := h
  refine ⟨raw, assertion, key, current, count, hparse, hverify, ?_⟩
  obtain ⟨cred', hcred', hsame, hsameId⟩ := Grows.row hrows hcred
  refine ⟨cred', hcred', hsameId.trans hid, fun hne => ?_⟩
  rw [hsame]
  exact hlog.subset (hn hne)

theorem grows_of_reach {past : π → List ((Db × List (Accepted π)) × (Db × List (Accepted π)))}
    (hg : Guarded (countSpec π) (fun p s s' => ∃ id n, SignsIn p id n s s')
      (fun p => Answered lib p (reqs p)) past c)
    (hr : Cfg.Reach (fun _ _ => True) c c') :
    Grows c.db.1.credentials c'.db.1.credentials ∧ c.db.2 <+: c'.db.2 := by
  induction hr with
  | start => exact ⟨grows_refl _, List.prefix_rfl⟩
  | step hr _ hs ih =>
      obtain ⟨_, hg', _, _⟩ := hg.reach hr
      rcases hg'.change (fun _ _ => trivial) hs with hsame | ⟨id, n, hsigns⟩
      · rw [hsame]
        exact ih
      · constructor
        · exact ih.1.trans hsigns.grows
        · exact ih.2.trans (hsigns.log ▸ List.prefix_append _ _)

/-- Any interleaving of sign-ins: no stored count ever decreases, the accepted counts of a
credential are strictly increasing, and a session is returned only for a count that the library
accepted, which is in the log unless it is zero. -/
theorem clone_counter (hlib : CountsGrow lib) (hkeys : (db.credentials.map (·.id)).Nodup)
    (hr : Cfg.Reach (fun _ _ => True) (startOf lib reqs db mem) c) :
    (∀ d, Cfg.Reach (fun _ _ => True) c d → Grows c.db.1.credentials d.db.1.credentials) ∧
      c.db.2.Pairwise (fun a b => a.credential = b.credential → a.count < b.count) ∧
      ∀ p o, c.procs p = .ret o → SignedIn lib p (reqs p) c.db := by
  obtain ⟨past, hg, _, hpast⟩ := (guarded_start hlib hkeys).reach hr
  have hinv : CountInv c.db := hg.inv
  constructor
  · intro d hd
    exact (grows_of_reach hg hd).1
  constructor
  · exact hinv.increasing
  · intro p o ho
    have howed := hg.result (r := .ok o) ho
    cases hp : past p with
    | nil => exact (howed.1 hp).elim
    | cons ab rest =>
        have hab : ab ∈ past p := by
          rw [hp]
          exact List.mem_cons_self
        have hsigned : SignedIn lib p (reqs p) ab.2 := howed.2 ab hab
        rcases hpast p ab hab with hnone | ⟨c₁, c₂, h₁, hs, h₂, rfl⟩
        · cases hnone
        · obtain ⟨_, hg₂, _, _⟩ := (guarded_start hlib hkeys).reach
            (h₁.step (fun _ _ => trivial) hs)
          obtain ⟨hrows, hlog⟩ := grows_of_reach hg₂ h₂
          exact hsigned.mono hrows hlog

end

/-! ## One count, two sign-ins -/

/-- An authenticator at count 1. -/
def countOneLib : AuthLib where
  verifyPassword _ _ := false
  parseAssertion _ := some ⟨"c", "1"⟩
  verifyAuthentication _ _ _ current :=
    if current < 1 then .ok 1 else .error .invalidAuthenticationResponse
  appChallengeFor s := s

def countOneDb : Db where
  users := [{ id := "U", username := "u", aikoUsername := "u" }]
  challenges := [⟨"AQ", .authenticate, 10, false⟩, ⟨"Ag", .authenticate, 10, false⟩]
  credentials := [{ id := "C", credentialId := "c", userId := "U", publicKey := "k",
                    author := .session 0 }]

def countOneReqs (p : ℕ) : AssertionReq := ⟨if p = 0 then "AQ" else "Ag", "assertion", 5⟩

theorem countOneLib_grows : CountsGrow countOneLib := by
  intro raw assertion key current count h
  simp only [countOneLib] at h
  split_ifs at h with hlt
  left
  rwa [← Except.ok.inj h]

/-- The second sign-in waits for the first one and then finds its count. -/
theorem clone_counter_one :
    ∃ c, Cfg.play [0, 0, 0, 0, 0, 1, 1, 1] (startOf countOneLib countOneReqs countOneDb {}) =
        some c ∧
      c.db.2 = [⟨0, "C", 1⟩] ∧
      c.db.2.Pairwise (fun a b => a.credential = b.credential → a.count < b.count) := by
  have hrun : (Cfg.play [0, 0, 0, 0, 0, 1, 1, 1] (startOf countOneLib countOneReqs countOneDb {})).map
      (fun c => c.db.2) = some [⟨0, "C", 1⟩] := by
    decide +kernel
  obtain ⟨c, hc, hlog⟩ := Option.map_eq_some_iff.mp hrun
  have hkeys : (countOneDb.credentials.map (·.id)).Nodup := by decide
  exact ⟨c, hc, hlog,
    (clone_counter countOneLib_grows hkeys (Cfg.reach_of_play Cfg.Reach.start hc)).2.1⟩

end AikoIsland.SignCounts
