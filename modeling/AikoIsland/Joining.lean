import AikoIsland.Stopping
import AikoIsland.Communities
import AikoIsland.Accounts

/-!
# The stored member count

Any number of joins, account deletions and moderator's UPDATEs of a community,
interleaved statement by statement, each of which may stop between two
statements. A deletion takes its rows away and lowers the counts in one
transaction. A join inserts its row in a savepoint and raises the count in a
second statement: when no transaction is open the release of the savepoint
commits the row, and the count is behind until the second transaction, or for
good when the join stops in between.

So the counts are right in every run in which no join inserts a row. The gate of
the INSERT holds in all of them.
-/
namespace AikoIsland.Joining
open Tables Gateway WriterLock RelyGuarantee Footprint Publishing Stopping Communities Accounts

/-! ## The requests -/

/-- `curate` stands for the operator's UPDATE: no code of the gateway takes a community down. -/
inductive CommunityRequest where
  | join (viewerId communityId : String)
  | deleteAccount (userId : String)
  | curate (communityId : String) (visibility : Visibility) (takenDownAt : Option Time)

def curated (communityId : String) (visibility : Visibility) (takenDownAt : Option Time)
    (db : Db) : Db :=
  { db with communities := db.communities.map fun c =>
      if c.id = communityId then { c with visibility := visibility, takenDownAt := takenDownAt }
      else c }

def CommunityRequest.body : CommunityRequest → Body Unit
  | .join viewerId communityId => do
      let _ ← Communities.join viewerId communityId
  | .deleteAccount userId => deleteUserAccount userId
  | .curate communityId visibility takenDownAt => do
      execute (curated communityId visibility takenDownAt) (fun _ => ()) .plain
      commit

/-- A request in its session, with the exception and the place of its stop, if it stops. -/
structure Launch where
  request : CommunityRequest
  failure : Exn
  stop : Option ℕ

def Launch.body (l : Launch) : Body Unit := cutAt l.failure l.stop l.request.body.session

/-- The condition on steps: a join's INSERT adds no row. -/
def addsNoRow : Label → Point Db Memory → Bool
  | .communityInsert communityId userId, x =>
      !joinable communityId x.view || x.view.communityMemberships.any fun m =>
        m.communityId = communityId && m.userId = userId
  | _, _ => true

/-! ## Counts -/

def memberRows (db : Db) (communityId : String) : List CommunityMembership :=
  db.communityMemberships.filter fun m => m.communityId = communityId

/-- Every stored count is the number of rows, and the primary key holds. -/
structure Counted (db : Db) : Prop where
  counts : ∀ c ∈ db.communities, c.memberCount = (memberRows db c.id).length
  key : (db.communityMemberships.map fun m => (m.communityId, m.userId)).Nodup

/-- Both tables are as they were. -/
structure SameMembers (a b : Db) : Prop where
  communities : b.communities = a.communities
  rows : b.communityMemberships = a.communityMemberships

theorem SameMembers.refl (a : Db) : SameMembers a a := ⟨rfl, rfl⟩

theorem SameMembers.trans {a b c : Db} (h : SameMembers a b) (h' : SameMembers b c) :
    SameMembers a c :=
  ⟨h'.communities.trans h.communities, h'.rows.trans h.rows⟩

theorem Counted.of_same {a b : Db} (h : Counted a) (hs : SameMembers a b) : Counted b := by
  constructor
  · intro c hc
    rw [hs.communities] at hc
    rw [memberRows, hs.rows]
    exact h.counts c hc
  · rw [hs.rows]
    exact h.key

/-- The row alone is not counted: its INSERT breaks the count of its community. -/
theorem not_counted_inserted {a b : Db} {communityId userId : String} (h : Counted a)
    (hjoin : joinable communityId a = true)
    (hb : a.insertCommunityMembership ⟨communityId, userId⟩ = some b) : ¬Counted b := by
  intro hcounted
  obtain ⟨_, rfl⟩ := Db.insertCommunityMembership_eq_some.mp hb
  obtain ⟨c, hc, hid⟩ := List.any_eq_true.mp hjoin
  have hcid : c.id = communityId := by
    rw [Bool.and_eq_true, decide_eq_true_iff] at hid
    exact hid.1
  have hbefore := h.counts c hc
  have hafter := hcounted.counts c hc
  have hrows : (memberRows { a with communityMemberships :=
      a.communityMemberships ++ [⟨communityId, userId⟩] } c.id).length =
        (memberRows a c.id).length + 1 := by
    simp [memberRows, List.filter_append, hcid]
  rw [hrows] at hafter
  push_cast at hafter
  omega

/-! ### Deletion -/

theorem sameMembers_foldl {ss : List (Label × (Db → Db))}
    (h : ∀ s ∈ ss, ∀ a, SameMembers a (s.2 a)) (a : Db) :
    SameMembers a (ss.foldl (fun s t => t.2 s) a) := by
  induction ss generalizing a with
  | nil => exact SameMembers.refl a
  | cons s ss ih =>
      have hfirst : SameMembers a (s.2 a) := h s List.mem_cons_self a
      exact hfirst.trans (ih (fun t ht => h t (List.mem_cons_of_mem s ht)) (s.2 a))

theorem sameMembers_before (userId : String) :
    ∀ s ∈ (teardown userId).take 11, ∀ a, SameMembers a (s.2 a) := by
  intro s hs a
  simp only [teardown, List.take_succ_cons, List.take_zero, List.mem_cons,
    List.not_mem_nil, or_false] at hs
  rcases hs with rfl | rfl | rfl | rfl | rfl | rfl | rfl | rfl | rfl | rfl | rfl
  all_goals exact ⟨rfl, rfl⟩

theorem sameMembers_after (userId : String) :
    ∀ s ∈ (teardown userId).drop 14, ∀ a, SameMembers a (s.2 a) := by
  intro s hs a
  simp only [teardown, List.drop_succ_cons, List.drop_zero, List.mem_cons,
    List.not_mem_nil, or_false] at hs
  rcases hs with rfl | rfl | rfl | rfl
  all_goals exact ⟨rfl, rfl⟩

/-- The rows of a community are those of the others and the one of the user, if there is one. -/
theorem length_memberRows {a : Db} (hkey : (a.communityMemberships.map fun m =>
    (m.communityId, m.userId)).Nodup) (communityId userId : String) :
    (memberRows a communityId).length =
      ((memberRows a communityId).filter fun m => m.userId ≠ userId).length +
        if a.communityMemberships.any fun m => m.communityId = communityId && m.userId = userId
        then 1 else 0 := by
  have hsplit := List.length_eq_length_filter_add (l := memberRows a communityId)
    fun m => decide (m.userId ≠ userId)
  rw [hsplit]
  congr 1
  have hown : ∀ m, m ∈ (memberRows a communityId).filter (fun m => !decide (m.userId ≠ userId)) ↔
      m ∈ a.communityMemberships ∧ m.communityId = communityId ∧ m.userId = userId := by
    intro m
    simp only [memberRows, List.mem_filter, decide_eq_true_eq, ne_eq, decide_not, Bool.not_not,
      and_assoc]
  have hnodup : ((memberRows a communityId).filter fun m =>
      !decide (m.userId ≠ userId)).Nodup :=
    (hkey.of_map _).filter _ |>.filter _
  split_ifs with hany
  · obtain ⟨m, hm, hmkey⟩ := List.any_eq_true.mp hany
    have hmem : m ∈ (memberRows a communityId).filter fun m => !decide (m.userId ≠ userId) := by
      rw [hown]
      exact ⟨hm, by simpa using hmkey⟩
    have hsub : (memberRows a communityId).filter (fun m => !decide (m.userId ≠ userId)) ⊆
        [m] := by
      intro x hx
      obtain ⟨_, hxc, hxu⟩ := (hown x).mp hx
      obtain ⟨_, hmc, hmu⟩ := (hown m).mp hmem
      have hxm : x = m := by
        cases x
        cases m
        exact congrArg₂ CommunityMembership.mk (hxc.trans hmc.symm) (hxu.trans hmu.symm)
      rw [hxm]
      exact List.mem_singleton_self m
    have hle := (List.subperm_of_subset hnodup hsub).length_le
    have hpos := List.length_pos_of_mem hmem
    rw [List.length_singleton] at hle
    omega
  · rw [List.length_eq_zero_iff, List.eq_nil_iff_forall_not_mem]
    intro m hm
    apply hany
    obtain ⟨hmem, hmc, hmu⟩ := (hown m).mp hm
    exact List.any_eq_true.mpr ⟨m, hmem, by simp [hmc, hmu]⟩

/-- The statements of a deletion on the two tables. -/
def leaveAll (userId : String) (a : Db) : Db :=
  clearCommunityOwner userId (deleteCommunityMemberships userId (decrementMemberCounts userId a))

theorem counted_leaveAll {a : Db} (h : Counted a) (userId : String) :
    Counted (leaveAll userId a) := by
  have hrows : (leaveAll userId a).communityMemberships =
      a.communityMemberships.filter fun m => m.userId ≠ userId := rfl
  have hclear : ∀ x : Community,
      (if x.ownerId = some userId then { x with ownerId := none } else x).id = x.id ∧
      (if x.ownerId = some userId then { x with ownerId := none } else x).memberCount =
        x.memberCount := by
    intro x
    split_ifs
    · exact ⟨rfl, rfl⟩
    · exact ⟨rfl, rfl⟩
  constructor
  · intro c hc
    obtain ⟨c₁, hc₁, rfl⟩ := List.mem_map.mp hc
    rw [(hclear c₁).1, (hclear c₁).2]
    obtain ⟨c₀, hc₀, rfl⟩ := List.mem_map.mp hc₁
    have hcount := h.counts c₀ hc₀
    have hlength := length_memberRows h.key c₀.id userId
    have hleft : memberRows (leaveAll userId a) c₀.id =
        (memberRows a c₀.id).filter fun m => m.userId ≠ userId := by
      rw [memberRows, hrows, memberRows, List.filter_filter, List.filter_filter]
      simp only [Bool.and_comm]
    by_cases hany : (a.communityMemberships.any fun m =>
        m.communityId = c₀.id && m.userId = userId) = true
    · rw [if_pos hany] at hlength ⊢
      dsimp only
      rw [hleft]
      omega
    · rw [if_neg hany] at hlength ⊢
      rw [hleft]
      omega
  · rw [hrows]
    exact h.key.sublist (List.filter_sublist.map _)

theorem counted_teardown {a : Db} (h : Counted a) (userId : String) :
    Counted ((teardown userId).foldl (fun s t => t.2 s) a) := by
  have hsplit : teardown userId = (teardown userId).take 11 ++
      [(.plain, decrementMemberCounts userId), (.plain, deleteCommunityMemberships userId),
        (.plain, clearCommunityOwner userId)] ++ (teardown userId).drop 14 := rfl
  rw [hsplit, List.foldl_append, List.foldl_append]
  have hbefore := h.of_same (sameMembers_foldl (sameMembers_before userId) a)
  exact (counted_leaveAll hbefore userId).of_same
    (sameMembers_foldl (sameMembers_after userId) _)

/-! ## The counts in a run -/

def spec : Spec ℕ Db Memory Label where
  inv db _ := Counted db
  rely _ _ _ _ _ := True
  meets t x := addsNoRow t x = true
  rely_refl _ _ _ := trivial
  rely_trans _ _ := trivial

section
variable {p : ℕ} {x y : Point Db Memory}

theorem allows_same (hi : Counted x.db) (hs : SameMembers x.db x.view) :
    spec.Allows p x x.committed :=
  ⟨hi.of_same hs, fun _ _ => trivial⟩

/-- The reads and the commit at the end of a join. -/
theorem safe_response (viewerId communityId : String) (inserted : Bool)
    (hx : SameMembers x.db x.view) :
    Safe spec p (do
      match ← select fun db => db.communities.find? fun c => c.id = communityId with
      | none => throwExn .noResultFound
      | some community =>
          let channels ← select (visibleChannelsInCommunity viewerId communityId)
          commit
          return (community, channels, inserted)) (fun _ _ => True) (fun _ _ => True) x := by
  apply Safe.query
  intro y hy
  have hyview : SameMembers y.db y.view := env_view SameMembers.refl hy hx
  cases y.view.communities.find? fun c => c.id = communityId with
  | none => exact Safe.raise fun _ _ => trivial
  | some community =>
      apply Safe.query
      intro z hz
      apply Safe.commit
      intro u hu _
      have huview : SameMembers u.db u.view :=
        env_view SameMembers.refl hu (env_view SameMembers.refl hz hyview)
      exact ⟨fun _ _ => allows_same hu.inv huview, Safe.pure fun _ _ => trivial⟩

/-- A join in a run that meets the condition adds nothing. -/
theorem safe_join (viewerId communityId : String) (hx : x.work = none) :
    Safe spec p (Communities.join viewerId communityId) (fun _ _ => True) (fun _ _ => True) x := by
  unfold Communities.join
  apply Safe.query
  intro y hy
  have hyfree : y.work = none := hy.free hx
  split
  · apply Safe.query
    intro z hz
    cases z.view.communities.find? fun c => c.id = communityId && c.takenDownAt.isNone with
    | none => exact Safe.raise fun _ _ => trivial
    | some community =>
        apply Safe.query
        intro u hu
        apply Safe.commit
        intro v hv _
        have hvfree : v.work = none := hv.free (hu.free (hz.free hyfree))
        constructor
        · intro w hw
          rw [hvfree] at hw
          cases hw
        · exact Safe.pure fun _ _ => trivial
  · apply Safe.query
    intro z hz
    split
    · exact Safe.raise fun _ _ => trivial
    · intro u hu hm
      have hufree : u.work = none := hu.free (hz.free hyfree)
      have hmet : addsNoRow (.communityInsert communityId viewerId) u = true := hm
      constructor
      · intro s hs
        unfold newJoinInsert at hs
        by_cases hjoin : joinable communityId u.view = true
        · -- the condition says the row is there already
          rw [if_pos hjoin] at hs
          obtain ⟨hnew, _⟩ := Db.insertCommunityMembership_eq_some.mp hs
          have hany : (u.view.communityMemberships.any fun m =>
              m.communityId = communityId && m.userId = viewerId) = true := by
            simpa [addsNoRow, hjoin] using hmet
          obtain ⟨m, hm, hkey⟩ := List.any_eq_true.mp hany
          exact absurd (by simpa using hkey) (hnew m hm)
        · rw [if_neg hjoin] at hs
          obtain rfl := Option.some.inj hs
          have hview : u.view = u.db := Point.view_of_none hufree
          constructor
          · intro _ _
            rw [hview]
            exact ⟨hu.inv, fun _ _ => trivial⟩
          · dsimp only
            rw [if_neg hjoin]
            exact Safe.raise fun _ _ => trivial
      · intro _
        have hrefused : SameMembers u.refused.db u.refused.view := by
          rw [Point.refused_db, Point.refused_view, Point.view_of_none hufree]
          exact SameMembers.refl u.db
        exact safe_response viewerId communityId false hrefused

theorem safe_deleteUserAccount (userId : String) (hi : Counted x.db) (hx : x.work = none) :
    Safe spec p (deleteUserAccount userId) (fun _ _ => True) (fun _ _ => True) x := by
  have hrespects : Respects spec p (fun _ _ => True) SameMembers
      (fun _ f => ∃ c, f = fun db => some (deleteAdminMembership c userId db))
      fun _ _ => False := by
    constructor
    · exact SameMembers.refl
    · exact fun h h' => h.trans h'
    · exact fun _ _ => trivial
    · intro t f z s hf _ _ _ _ hs
      obtain ⟨c, rfl⟩ := hf
      obtain rfl := Option.some.inj hs
      exact ⟨rfl, rfl⟩
    · exact fun _ _ _ hg => hg.elim
    · exact fun db mem s hi _ hs => ⟨⟨hi.of_same hs, fun _ _ => trivial⟩, trivial⟩
  have hview : SameMembers x.db x.view := by
    rw [Point.view_of_none hx]
    exact SameMembers.refl x.db
  have hadmin := hrespects.safe
    (uses_removeAdminMembershipsOrRefuse userId fun c => ⟨c, rfl⟩) trivial hview
  apply Safe.andThen (hadmin.mono (fun _ _ _ h => h.2) fun _ _ _ _ => trivial) hi
  intro _ y _ hy
  apply Safe.execAll (by simp [teardown])
  intro z hz
  apply Safe.commit
  intro v hv _
  constructor
  · intro w _
    have hz' : SameMembers z.db z.view := env_view SameMembers.refl hz hy
    have hdb : v.db = z.db := hv.db_eq rfl
    constructor
    · rw [Point.committed_db, hv.view_eq rfl]
      exact counted_teardown (hz.inv.of_same hz') userId
    · exact fun _ _ => trivial
  · exact Safe.pure fun _ _ => trivial

theorem counted_curated {a : Db} (h : Counted a) (communityId : String) (visibility : Visibility)
    (takenDownAt : Option Time) : Counted (curated communityId visibility takenDownAt a) := by
  constructor
  · intro c hc
    obtain ⟨c₀, hc₀, rfl⟩ := List.mem_map.mp hc
    have hcount := h.counts c₀ hc₀
    split_ifs
    · exact hcount
    · exact hcount
  · exact h.key

theorem safe_request (request : CommunityRequest) (hi : Counted x.db) (hx : x.work = none) :
    Safe spec p request.body (fun _ _ => True) (fun _ _ => True) x := by
  cases request with
  | join viewerId communityId =>
      apply Safe.andThen (safe_join viewerId communityId hx) hi
      exact fun _ _ _ _ => Safe.pure fun _ _ => trivial
  | deleteAccount userId => exact safe_deleteUserAccount userId hi hx
  | curate communityId visibility takenDownAt =>
      apply Safe.exec
      intro y hy _
      apply Safe.commit
      intro z hz _
      constructor
      · intro w _
        constructor
        · rw [Point.committed_db, hz.view_eq rfl, Point.view_of_none (hy.free hx)]
          exact counted_curated hy.inv communityId visibility takenDownAt
        · exact fun _ _ => trivial
      · exact Safe.pure fun _ _ => trivial

theorem safe_launch (l : Launch) (hi : Counted x.db) (hx : x.work = none) :
    Safe spec p l.body (fun _ _ => True) (fun _ _ => True) x := by
  apply safe_cutAt _ fun _ => trivial
  apply Safe.session _ hi
  exact (safe_request l.request hi hx).mono (fun _ _ _ _ _ _ => trivial) fun _ _ _ _ _ _ => trivial

end

/-! ## The gate in any run -/

/-- Rows were added to joinable communities only, and no community became joinable. -/
structure Gated (a b : Db) : Prop where
  rows : ∀ m ∈ b.communityMemberships, m ∉ a.communityMemberships →
    joinable m.communityId a = true
  narrows : ∀ id, joinable id b = true → joinable id a = true

theorem Gated.refl (a : Db) : Gated a a := ⟨fun _ hm hnot => absurd hm hnot, fun _ h => h⟩

theorem Gated.trans {a b c : Db} (h : Gated a b) (h' : Gated b c) : Gated a c := by
  constructor
  · intro m hm hnot
    by_cases hmid : m ∈ b.communityMemberships
    · exact h.rows m hmid hnot
    · exact h.narrows _ (h'.rows m hm hmid)
  · exact fun id hid => h.narrows id (h'.narrows id hid)

/-- An UPDATE of columns that the gate does not read. -/
theorem gated_map {f : Community → Community} (hid : ∀ c, (f c).id = c.id)
    (hgate : ∀ c, discoverable (f c) = discoverable c) (a : Db) :
    Gated a { a with communities := a.communities.map f } := by
  constructor
  · exact fun m hm hnot => absurd hm hnot
  · intro id hjoin
    rw [joinable, List.any_map] at hjoin
    have hsame : ((fun c : Community => decide (c.id = id) && discoverable c) ∘ f) =
        fun c => decide (c.id = id) && discoverable c := by
      funext c
      simp only [Function.comp_apply, hid, hgate]
    rw [hsame] at hjoin
    exact hjoin

theorem Gated.of_same {a b : Db} (h : SameMembers a b) : Gated a b := by
  constructor
  · intro m hm hnot
    rw [h.rows] at hm
    exact absurd hm hnot
  · intro id hid
    rw [joinable, h.communities] at hid
    exact hid

theorem gated_newJoinInsert {a b : Db} {communityId userId : String}
    (h : newJoinInsert communityId userId a = some b) : Gated a b := by
  unfold newJoinInsert at h
  split_ifs at h with hjoin
  · obtain ⟨_, rfl⟩ := Db.insertCommunityMembership_eq_some.mp h
    constructor
    · intro m hm hnot
      rcases List.mem_append.mp hm with hold | hnew
      · exact absurd hold hnot
      · rw [List.mem_singleton.mp hnew]
        exact hjoin
    · exact fun _ hid => hid
  · obtain rfl := Option.some.inj h
    exact Gated.refl a

theorem gated_bumpMemberCount (communityId : String) (a : Db) :
    Gated a (bumpMemberCount communityId a) := by
  apply gated_map
  · intro c
    split_ifs <;> rfl
  · intro c
    split_ifs <;> rfl

theorem gated_teardown {userId : String} {s : Label × (Db → Db)} (hs : s ∈ teardown userId)
    (a : Db) : Gated a (s.2 a) := by
  have hsplit : teardown userId = (teardown userId).take 11 ++
      [(.plain, decrementMemberCounts userId), (.plain, deleteCommunityMemberships userId),
        (.plain, clearCommunityOwner userId)] ++ (teardown userId).drop 14 := rfl
  rw [hsplit, List.mem_append, List.mem_append] at hs
  rcases hs with (hbefore | hs) | hafter
  · exact Gated.of_same (sameMembers_before userId s hbefore a)
  · simp only [List.mem_cons, List.not_mem_nil, or_false] at hs
    rcases hs with rfl | rfl | rfl
    · apply gated_map
      · intro c
        split_ifs <;> rfl
      · intro c
        split_ifs <;> rfl
    · constructor
      · exact fun m hm hnot => absurd (List.mem_filter.mp hm).1 hnot
      · exact fun _ hid => hid
    · apply gated_map
      · intro c
        split_ifs <;> rfl
      · intro c
        split_ifs <;> rfl
  · exact Gated.of_same (sameMembers_after userId s hafter a)

/-- The writes of joins and deletions. -/
inductive MemberWrite : Label → (Db → Option Db) → Prop
  | insert (communityId userId : String) :
      MemberWrite (.communityInsert communityId userId) (newJoinInsert communityId userId)
  | bump (communityId : String) : MemberWrite .plain fun db => some (bumpMemberCount communityId db)
  | account {userId : String} {t : Label} {f : Db → Option Db} (h : AccountWrite userId t f) :
      MemberWrite t f

theorem gated_memberWrite {t : Label} {f : Db → Option Db} {a b : Db} (h : MemberWrite t f)
    (hf : f a = some b) : Gated a b := by
  cases h with
  | insert communityId userId => exact gated_newJoinInsert hf
  | bump communityId =>
      obtain rfl := Option.some.inj hf
      exact gated_bumpMemberCount communityId a
  | account haccount =>
      cases haccount with
      | admin channelId =>
          obtain rfl := Option.some.inj hf
          exact Gated.of_same ⟨rfl, rfl⟩
      | teardown hs =>
          obtain rfl := Option.some.inj hf
          exact gated_teardown hs a

theorem uses_join (viewerId communityId : String) :
    Uses MemberWrite (fun _ _ => False) (Communities.join viewerId communityId) := by
  have hresponse : ∀ inserted : Bool, Uses MemberWrite (fun _ _ => False) (do
      match ← select fun db => db.communities.find? fun c => c.id = communityId with
      | none => throwExn .noResultFound
      | some community =>
          let channels ← select (visibleChannelsInCommunity viewerId communityId)
          commit
          return (community, channels, inserted) : Body (Community × List Channel × Bool)) := by
    intro inserted
    apply Uses.bind (Uses.query _)
    intro found
    cases found with
    | none => trivial
    | some community => exact Uses.bind (Uses.query _) fun _ => trivial
  unfold Communities.join
  apply Uses.bind (Uses.query _)
  intro existing
  split
  · apply Uses.bind (Uses.query _)
    intro found
    cases found with
    | none => trivial
    | some community => exact Uses.bind (Uses.query _) fun _ => trivial
  · apply Uses.bind (Uses.query _)
    intro locked
    split
    · trivial
    · have hinsert : Uses MemberWrite (fun _ _ => False) (executeNewJoin communityId viewerId) :=
        ⟨.insert communityId viewerId, fun _ => trivial, fun _ => trivial⟩
      apply Uses.bind hinsert
      intro rowcount
      split
      · trivial
      · dsimp only
        split
        · exact Uses.bind (Uses.exec (.bump communityId)) fun _ => hresponse _
        · exact hresponse _

/-- Nothing is asked of the store. -/
def anyRun : Spec ℕ Db Memory Label where
  inv _ _ := True
  rely _ _ _ _ _ := True
  meets _ _ := True
  rely_refl _ _ _ := trivial
  rely_trans _ _ := trivial

theorem publishes_launch (p : ℕ) (l : Launch) (db : Db) (mem : Memory) :
    Publishes anyRun p (fun a b => ∀ m ∈ b.communityMemberships, m ∉ a.communityMemberships →
      joinable m.communityId a = true) (fun _ _ => True) [] l.body ⟨db, mem, none⟩ := by
  have hrespects : Respects anyRun p (fun _ _ => True) Gated MemberWrite fun _ _ => False := by
    constructor
    · exact Gated.refl
    · exact fun h h' => h.trans h'
    · exact fun _ _ => trivial
    · exact fun _ _ _ _ hw _ _ _ _ hs => gated_memberWrite hw hs
    · exact fun _ _ _ hg => hg.elim
    · exact fun _ _ _ _ _ _ => ⟨⟨trivial, fun _ _ => trivial⟩, trivial⟩
  have hgated : ∀ r : Body Unit, Uses MemberWrite (fun _ _ => False) r →
      Publishes anyRun p (fun a b => ∀ m ∈ b.communityMemberships, m ∉ a.communityMemberships →
        joinable m.communityId a = true) (fun _ _ => True) [] r ⟨db, mem, none⟩ := by
    intro r hr
    exact (of_respects hrespects hr (Gated.refl db)).mono (fun _ _ h => h.rows) fun _ _ h => h
  apply publishes_cutAt _ fun _ => trivial
  apply Publishes.session
  cases l.request with
  | join viewerId communityId =>
      exact hgated _ (Uses.bind (uses_join viewerId communityId) fun _ => trivial)
  | deleteAccount userId =>
      exact hgated _ ((uses_deleteUserAccount userId).mono (fun _ _ h => .account h)
        fun _ _ h => h)
  | curate communityId visibility takenDownAt =>
      apply Publishes.exec
      intro y hy _
      apply Publishes.commit rfl
      intro z hz _
      have hview : y.view = y.db := Point.view_of_none (hy.free rfl)
      have hdb : z.db = y.db := hz.db_eq rfl
      refine ⟨?_, ⟨trivial, fun _ _ => trivial⟩, ⟨fun _ => trivial, fun _ _ => trivial⟩⟩
      intro m hm hnot
      rw [hdb] at hnot
      rw [hview] at hm
      exact absurd hm hnot

/-! ## Every run -/

section
variable {db : Db} {mem : Memory} {launches : ℕ → Launch} {c c' : Cfg ℕ Db Memory Label Exn Unit}

/-- The counts are right all along in a run in which no join's INSERT adds a row; and in any run
at all a row that a step adds is one of a community that is public and not taken down in the
store it is written to. -/
theorem counts_match_and_gate_holds (hdb : Counted db) :
    (∀ c, Cfg.Reach (fun t x => addsNoRow t x = true)
      (Cfg.init db mem fun p => (launches p).body) c → Counted c.db) ∧
    ∀ c, Cfg.Reach (fun _ _ => True) (Cfg.init db mem fun p => (launches p).body) c →
      ∀ p c', c.step p = some c' → ∀ m ∈ c'.db.communityMemberships,
        m ∉ c.db.communityMemberships → joinable m.communityId c.db = true := by
  constructor
  · intro c hr
    have hinit : Sound spec (fun _ _ _ => True) (fun _ _ _ => True)
        (Cfg.init db mem fun p => (launches p).body) :=
      Sound.init hdb fun p => safe_launch (launches p) hdb rfl
    exact (hinit.reach hr).inv
  · intro c hr p c' hs m hm hnot
    have hinit : Guarded anyRun (fun _ a b => ∀ m ∈ b.communityMemberships,
        m ∉ a.communityMemberships → joinable m.communityId a = true) (fun _ _ _ => True)
        (fun _ => []) (Cfg.init db mem fun p => (launches p).body) :=
      ⟨trivial, fun p => publishes_launch p (launches p) db mem⟩
    obtain ⟨past, hguarded, _⟩ := hinit.reach hr
    rcases hguarded.change (fun _ _ => trivial) hs with hsame | hgate
    · rw [hsame] at hm
      exact absurd hm hnot
    · exact hgate m hm hnot

end

/-! ## A member and a new one -/

def memberStore : Db where
  users := [{ id := "U", username := "u", aikoUsername := "u" }]
  communities := [{ id := "C", memberCount := 1 }]
  communityMemberships := [⟨"C", "U"⟩]

theorem counted_memberStore : Counted memberStore := by
  constructor
  · decide
  · decide

/-- A join and a deletion by one user. -/
def joinAndDelete (p : ℕ) : Launch where
  request := if p = 0 then .join "U" "C" else .deleteAccount "U"
  failure := .peerGone
  stop := none

/-- A repeated join and the deletion of the account after it. -/
theorem counts_match_after_rejoin :
    ∃ c, Cfg.playChecked addsNoRow (List.replicate 5 0 ++ List.replicate 21 1)
      (Cfg.init memberStore {} fun p => (joinAndDelete p).body) = some c ∧ Counted c.db := by
  have hrun : (Cfg.playChecked addsNoRow (List.replicate 5 0 ++ List.replicate 21 1)
      (Cfg.init memberStore {} fun p => (joinAndDelete p).body)).isSome = true := by
    decide +kernel
  obtain ⟨c, hc⟩ := Option.isSome_iff_exists.mp hrun
  exact ⟨c, hc, (counts_match_and_gate_holds counted_memberStore).1 c
    (Cfg.reach_of_playChecked (fun _ _ h => h) Cfg.Reach.start hc)⟩

def publicCommunity : Db where
  communities := [{ id := "C" }]

theorem counted_publicCommunity : Counted publicCommunity := by
  constructor
  · decide
  · exact List.nodup_nil

/-- The row of a new member is committed before the count is raised. -/
theorem a_join_commits_its_row_first :
    ¬∀ (db : Db) (mem : Memory) (launches : ℕ → Launch) (c : Cfg ℕ Db Memory Label Exn Unit),
      Counted db → Cfg.Reach (fun _ _ => True) (Cfg.init db mem fun p => (launches p).body) c →
        Counted c.db := by
  intro hclaim
  have hrun : ((Cfg.play [0, 0, 0] (Cfg.init publicCommunity {} fun p =>
      (joinAndDelete p).body)).map fun c => (c.db.communities, c.db.communityMemberships)) =
        some ([{ id := "C" }], [⟨"C", "U"⟩]) := by
    decide +kernel
  obtain ⟨c, hc, htables⟩ := Option.map_eq_some_iff.mp hrun
  obtain ⟨hcommunities, hrows⟩ := Prod.mk.inj htables
  have hcounted := hclaim publicCommunity {} joinAndDelete c counted_publicCommunity
    (Cfg.reach_of_play Cfg.Reach.start hc)
  have hcount := hcounted.counts { id := "C" } (by rw [hcommunities]; exact List.mem_singleton_self _)
  rw [memberRows, hrows] at hcount
  revert hcount
  decide

end AikoIsland.Joining
