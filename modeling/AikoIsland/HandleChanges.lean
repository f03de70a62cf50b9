import AikoIsland.Profiles
import AikoIsland.Serial

/-!
# The cooldown of a handle

Calls of `update_profile` on one account come from any number of devices; each is
one statement, so they stand in the order of their statements. Between two of them
the island may do anything else that leaves the account's profile alone, or may
delete the account.

A stamp never goes away and never goes back while the clock does not, so the row
that a later stamped change finds carries at least the earlier stamp. The flag of
an assigned handle is cleared by the move that it leaves unstamped, and no call
sets it.
-/
namespace AikoIsland.HandleChanges
open Tables Gateway Messages WriterLock Profiles

/-! ## One statement -/

section
variable {v : HandleUpdate} {u : User}

theorem change_of_same (h : v.same u = true) : v.change u = false := by
  rw [HandleUpdate.change, h]
  rfl

/-- A refused change writes back what was there. -/
theorem apply_of_refused (hsame : v.same u = false) (hchange : v.change u = false) :
    v.apply u = u := by
  cases u with
  | mk id username displayName passwordHash aikoUsername handleAssigned bannedAt tokenGeneration
      kind handleChangedAt =>
      unfold HandleUpdate.apply
      rw [hsame, hchange]
      cases v.displayName <;> rfl

/-- The handle that the row has already brings the display name along. -/
theorem apply_of_same (hsame : v.same u = true) :
    v.apply u = { u with displayName := v.displayName.getD u.displayName } := by
  unfold HandleUpdate.apply
  rw [hsame, change_of_same hsame]
  cases v.displayName <;> rfl

theorem username_apply : (v.apply u).username ≠ v.handle ↔
    v.same u = false ∧ v.change u = false := by
  cases hchange : v.change u with
  | true => simp [HandleUpdate.apply, hchange]
  | false => simp [HandleUpdate.apply, HandleUpdate.same, hchange]

end

section
variable {userId : String} {g : User → User} {db db' : Db}

theorem updateUser_eq (h : updateUser userId g db = some db') :
    db' = { db with users := db.users.map fun u => if u.id = userId then g u else u } := by
  unfold updateUser at h
  dsimp only at h
  split_ifs at h
  exact (Option.some.inj h).symm

theorem userById_updateUser (hid : ∀ u, (g u).id = u.id) (h : updateUser userId g db = some db') :
    db'.userById userId = (db.userById userId).map g := by
  rw [updateUser_eq h, Db.userById_map db (fun u => by split_ifs <;> simp [hid])]
  cases hrow : db.userById userId with
  | none => rfl
  | some u =>
      have hu : u.id = userId := (Db.mem_of_userById hrow).2
      simp [hu]

/-- An UPDATE that writes back what was there leaves the tables as they were. -/
theorem updateUser_same (hids : (db.users.map (·.id)).Nodup)
    (hsame : ∀ u, db.userById userId = some u → g u = u)
    (h : updateUser userId g db = some db') : db' = db := by
  rw [updateUser_eq h]
  have husers : (db.users.map fun u => if u.id = userId then g u else u) = db.users := by
    conv_rhs => rw [← List.map_id db.users]
    apply List.map_congr_left
    intro u hu
    by_cases hid : u.id = userId
    · rw [if_pos hid]
      apply hsame
      have hsome : (db.userById userId).isSome = true := by
        rw [Db.userById, List.find?_isSome]
        exact ⟨u, hu, decide_eq_true hid⟩
      obtain ⟨w, hw⟩ := Option.isSome_iff_exists.mp hsome
      have hin := Db.mem_of_userById hw
      rw [hw, List.inj_on_of_nodup_map hids hu hin.1 (hid.trans hin.2.symm)]
    · exact if_neg hid
  rw [husers]

end

/-! ## One call -/

/-- A failure that is no refusal of the cooldown. -/
def Plain (e : Exn) : Prop := ∀ n, e ≠ .handleChangeCooldown n

/-- What a call answers and the tables it leaves, by the row that its statement found. -/
inductive Outcome (userId : String) (cooldownSeconds : ℤ) (r : ProfileRequest) (db : Db) :
    Except Exn User → Db → Prop
  | failed {e : Exn} : Plain e → Outcome userId cooldownSeconds r db (.error e) db
  | cooled {u : User} {handle : PyStr} {text : String} (left : ℤ) : r.handle = some handle →
      encode handle = some text → db.userById userId = some u → u.username ≠ text →
      Outcome userId cooldownSeconds r db
        (.error (.handleChangeCooldown (retryAfter cooldownSeconds left))) db
  | named {u : User} {name : String} {db' : Db} : r.handle = none →
      db.userById userId = some u →
      updateUser userId (fun u => { u with displayName := name }) db = some db' →
      Outcome userId cooldownSeconds r db (.ok { u with displayName := name }) db'
  | written {u : User} {handle : PyStr} {v : HandleUpdate} {db' : Db} : r.handle = some handle →
      encode handle = some v.handle → v.aikoUsername = sanitizeAikoUsername handle →
      r.displayName.map encode = v.displayName.map some →
      v.cutoff = r.now - cooldownSeconds * microseconds → v.now = r.now →
      db.userById userId = some u → (v.same u = true ∨ v.change u = true) →
      updateUser userId v.apply db = some db' →
      Outcome userId cooldownSeconds r db (.ok (v.apply u)) db'

section
variable {userId : String} {cooldownSeconds : ℤ} {r : ProfileRequest} {x : Point Db Memory}

theorem plain_raised (type : String) : Plain (.raised type) := by
  intro n h
  cases h

theorem plain_handleTaken : Plain .handleTaken := by
  intro n h
  cases h

theorem plain_accountGone : Plain .accountGone := by
  intro n h
  cases h

theorem plain_unicodeEncodeError : Plain .unicodeEncodeError := by
  intro n h
  cases h

/-- The statement and what follows it, run alone. -/
theorem run_writeProfile {g : User → User} {refused : User → Bool} {refuse : User → Body User}
    (hx : x.work = none) (hids : (x.db.users.map (·.id)).Nodup) (hid : ∀ u, (g u).id = u.id) :
    (∃ e, Plain e ∧ (writeProfile userId g refused refuse).session.run x = (.error e, x) ∧
      (updateUser userId g x.db = none ∨ x.db.userById userId = none)) ∨
    ∃ u db', x.db.userById userId = some u ∧ updateUser userId g x.db = some db' ∧
      (writeProfile userId g refused refuse).session.run x =
        ((if refused (g u) then refuse (g u) else pure (g u) : Body User).session.run
          { x with db := db' }) := by
  have hview : x.view = x.db := Point.view_of_none hx
  cases hup : updateUser userId g x.db with
  | none =>
      left
      refine ⟨.handleTaken, plain_handleTaken, ?_, Or.inl rfl⟩
      have hrun : (writeProfile userId g refused refuse).run x =
          (.error .handleTaken, x.refused.rolledBack) := by
        rw [writeProfile, Request.run_bind, returning]
        simp only [Request.run, hview, hup]
        rfl
      rw [Request.run_session, hrun, Point.eq_mk_of_none hx]
      rfl
  | some db' =>
      have hrow := userById_updateUser hid hup
      have hrun : ∀ found : Option User, db'.userById userId = found →
          (writeProfile userId g refused refuse).run x =
            (found.elim (throwExn .accountGone) (fun u => if refused u then refuse u else pure u) :
              Body User).run { x with db := db' } := by
        intro found hfound
        rw [writeProfile, Request.run_bind, returning]
        simp only [Request.run, hview, hup, Option.map_some, hfound]
        rw [Point.eq_mk_of_none hx]
        cases found <;> rfl
      cases hfind : x.db.userById userId with
      | none =>
          left
          refine ⟨.accountGone, plain_accountGone, ?_, Or.inr rfl⟩
          have hsame : db' = x.db := by
            apply updateUser_same hids _ hup
            intro u hu
            rw [hfind] at hu
            cases hu
          rw [hfind, Option.map_none] at hrow
          rw [Request.run_session, hrun _ hrow, hsame, Point.eq_mk_of_none hx]
          rfl
      | some u =>
          right
          refine ⟨u, db', rfl, rfl, ?_⟩
          rw [hfind, Option.map_some] at hrow
          rw [Request.run_session, Request.run_session, hrun _ hrow, Option.elim_some]

/-- The refusal of the cooldown raises, and writes nothing. -/
theorem run_refuseHandle {refusedAt : Time} {row : User} (hx : x.work = none) :
    ∃ e, (refuseHandle cooldownSeconds refusedAt row).session.run x = (.error e, x) ∧
      (Plain e ∨ ∃ left, e = .handleChangeCooldown (retryAfter cooldownSeconds left)) := by
  unfold refuseHandle
  cases row.handleChangedAt with
  | none => exact ⟨_, Request.run_session_same hx rfl, Or.inl (plain_raised _)⟩
  | some last =>
      dsimp only
      cases secondsLeft cooldownSeconds ((refusedAt : ℤ) - last) with
      | none => exact ⟨_, Request.run_session_same hx rfl, Or.inl (plain_raised _)⟩
      | some left => exact ⟨_, Request.run_session_same hx rfl, Or.inr ⟨left, rfl⟩⟩

/-- A text that is bound, or the failure to bind it. -/
theorem run_bindText {α : Type} (s : PyStr) (k : String → Body α) :
    (bindText s >>= k).run x =
      match encode s with
      | some t => (k t).run x
      | none => (.error .unicodeEncodeError, x) := by
  rw [Request.run_bind, bindText]
  cases encode s <;> rfl

theorem run_bindOptional {α : Type} {s : Option PyStr} {t : Option String}
    (h : s.map encode = t.map some) (k : Option String → Body α) :
    (bindOptional s >>= k).run x = (k t).run x := by
  cases s with
  | none =>
      cases t with
      | none => rfl
      | some t => cases h
  | some s =>
      cases t with
      | none => cases h
      | some t =>
          have hs : encode s = some t := Option.some.inj h
          have hinner := @run_bindText x _ s fun t => (pure (some t) : Body (Option String))
          rw [hs] at hinner
          rw [Request.run_bind, bindOptional, hinner]
          rfl

theorem run_bindOptional_none {α : Type} {s : PyStr} (h : encode s = none)
    (k : Option String → Body α) :
    (bindOptional (some s) >>= k).run x = (.error .unicodeEncodeError, x) := by
  have hinner := @run_bindText x _ s fun t => (pure (some t) : Body (Option String))
  rw [h] at hinner
  rw [Request.run_bind, bindOptional, hinner]

theorem bound_or (s : Option PyStr) :
    (∃ t : Option String, s.map encode = t.map some) ∨ ∃ s', s = some s' ∧ encode s' = none := by
  cases s with
  | none => exact Or.inl ⟨none, rfl⟩
  | some s =>
      cases hs : encode s with
      | none => exact Or.inr ⟨s, rfl, hs⟩
      | some t => exact Or.inl ⟨some t, congrArg some hs⟩

/-- The cutoff is an instant. -/
def InRange (cooldownSeconds : ℤ) (now : Time) : Prop :=
  ¬(now - cooldownSeconds * microseconds < minInstant ∨
    maxInstant < now - cooldownSeconds * microseconds)

/-- What the UPDATE of a handle writes. -/
def updateOf (r : ProfileRequest) (cooldownSeconds : ℤ) (handle : PyStr) (text : String)
    (name : Option String) : HandleUpdate :=
  ⟨text, sanitizeAikoUsername handle, name, r.now - cooldownSeconds * microseconds, r.now⟩

theorem run_handle {handle : PyStr} (hhandle : r.handle = some handle)
    (hrange : InRange cooldownSeconds r.now) :
    (updateProfile userId cooldownSeconds r).run x =
      (bindOptional r.displayName >>= fun name => bindText handle >>= fun text =>
        writeProfile userId (updateOf r cooldownSeconds handle text name).apply
          (fun u => u.username ≠ text) (refuseHandle cooldownSeconds r.refusedAt)).run x := by
  rw [updateProfile, hhandle]
  dsimp only
  rw [if_neg hrange]
  rfl

/-- With bound texts and a cutoff the call is its statement. -/
theorem session_handle {handle : PyStr} {text : String} {name : Option String}
    (hhandle : r.handle = some handle) (hrange : InRange cooldownSeconds r.now)
    (htext : encode handle = some text) (hname : r.displayName.map encode = name.map some) :
    (updateProfile userId cooldownSeconds r).session.run x =
      (writeProfile userId (updateOf r cooldownSeconds handle text name).apply
        (fun u => u.username ≠ text) (refuseHandle cooldownSeconds r.refusedAt)).session.run x := by
  rw [Request.run_session, run_handle hhandle hrange, run_bindOptional hname, run_bindText, htext,
    ← Request.run_session]

theorem outcome_named {name : String} (hx : x.work = none) (hids : (x.db.users.map (·.id)).Nodup)
    (hhandle : r.handle = none) :
    ∃ result db', (writeProfile userId (fun u => { u with displayName := name }) (fun _ => false)
        pure).session.run x = (result, { x with db := db' }) ∧
      Outcome userId cooldownSeconds r x.db result db' := by
  have hrun := @run_writeProfile userId x (fun u => { u with displayName := name })
    (fun _ => false) pure hx hids fun _ => rfl
  cases hrun with
  | inl hfail =>
      obtain ⟨e, hplain, hrun, _⟩ := hfail
      exact ⟨_, _, hrun, Outcome.failed hplain⟩
  | inr hrow =>
      obtain ⟨u, db', hfind, hup, hrun⟩ := hrow
      refine ⟨_, db', ?_, Outcome.named hhandle hfind hup⟩
      rw [hrun, Request.run_session]
      exact Prod.ext rfl (Point.eq_mk_of_none hx ▸ rfl)

theorem outcome_written {handle : PyStr} {v : HandleUpdate} {refusedAt : Time} (hx : x.work = none)
    (hids : (x.db.users.map (·.id)).Nodup) (hhandle : r.handle = some handle)
    (htext : encode handle = some v.handle)
    (haiko : v.aikoUsername = sanitizeAikoUsername handle)
    (hname : r.displayName.map encode = v.displayName.map some)
    (hcutoff : v.cutoff = r.now - cooldownSeconds * microseconds) (hnow : v.now = r.now) :
    ∃ result db', (writeProfile userId v.apply (fun u => u.username ≠ v.handle)
        (refuseHandle cooldownSeconds refusedAt)).session.run x = (result, { x with db := db' }) ∧
      Outcome userId cooldownSeconds r x.db result db' := by
  have hrun := @run_writeProfile userId x v.apply (fun u => u.username ≠ v.handle)
    (refuseHandle cooldownSeconds refusedAt) hx hids fun _ => rfl
  cases hrun with
  | inl hfail =>
      obtain ⟨e, hplain, hrun, _⟩ := hfail
      exact ⟨_, _, hrun, Outcome.failed hplain⟩
  | inr hrow =>
      obtain ⟨u, db', hfind, hup, hrun⟩ := hrow
      by_cases hrefused : (v.apply u).username ≠ v.handle
      · obtain ⟨hsame, hchange⟩ := username_apply.mp hrefused
        have hdb : db' = x.db := by
          apply updateUser_same hids _ hup
          intro w hw
          rw [hfind] at hw
          rw [← Option.some.inj hw]
          exact apply_of_refused hsame hchange
        obtain ⟨e, hrefuse, hkind⟩ :=
          @run_refuseHandle cooldownSeconds x refusedAt (v.apply u) hx
        rw [if_pos (decide_eq_true hrefused), hdb] at hrun
        cases hkind with
        | inl hplain => exact ⟨_, _, hrun.trans hrefuse, Outcome.failed hplain⟩
        | inr hcooled =>
            obtain ⟨left, rfl⟩ := hcooled
            have hne : u.username ≠ v.handle := of_decide_eq_false hsame
            exact ⟨_, _, hrun.trans hrefuse, Outcome.cooled left hhandle htext hfind hne⟩
      · have hwritten : v.same u = true ∨ v.change u = true := by
          by_contra hnot
          rw [not_or, Bool.not_eq_true, Bool.not_eq_true] at hnot
          exact hrefused (username_apply.mpr hnot)
        refine ⟨_, db', ?_, Outcome.written hhandle htext haiko hname hcutoff hnow hfind hwritten hup⟩
        rw [hrun, if_neg (by simpa using hrefused), Request.run_session]
        exact Prod.ext rfl (Point.eq_mk_of_none hx ▸ rfl)

theorem outcome (hx : x.work = none) (hids : (x.db.users.map (·.id)).Nodup) :
    ∃ result db', (updateProfile userId cooldownSeconds r).session.run x =
        (result, { x with db := db' }) ∧ Outcome userId cooldownSeconds r x.db result db' := by
  have hfail : ∀ {e : Exn}, Plain e →
      (updateProfile userId cooldownSeconds r).run x = (.error e, x) →
      ∃ result db', (updateProfile userId cooldownSeconds r).session.run x =
        (result, { x with db := db' }) ∧ Outcome userId cooldownSeconds r x.db result db' :=
    fun hplain hrun => ⟨_, _, Request.run_session_same hx hrun, Outcome.failed hplain⟩
  cases hhandle : r.handle with
  | none =>
      cases hdisplay : r.displayName with
      | none =>
          apply @hfail (.valueError "update_profile requires handle and/or display_name")
          · intro n h
            cases h
          · rw [updateProfile, hhandle]
            dsimp only
            rw [hdisplay]
            rfl
      | some name =>
          have hstart : (updateProfile userId cooldownSeconds r).run x =
              match encode name with
              | some t => (writeProfile userId (fun u => { u with displayName := t })
                  (fun _ => false) pure).run x
              | none => (.error .unicodeEncodeError, x) := by
            rw [updateProfile, hhandle]
            dsimp only
            rw [hdisplay]
            exact run_bindText name _
          cases hname : encode name with
          | none =>
              rw [hname] at hstart
              exact hfail plain_unicodeEncodeError hstart
          | some t =>
              rw [hname] at hstart
              rw [Request.run_session, hstart, ← Request.run_session]
              exact outcome_named hx hids hhandle
  | some handle =>
      by_cases hrange : InRange cooldownSeconds r.now
      · have hrun := @run_handle userId cooldownSeconds r x handle hhandle hrange
        cases bound_or r.displayName with
        | inr hbad =>
            obtain ⟨s, hdisplay, hnone⟩ := hbad
            apply hfail plain_unicodeEncodeError
            rw [hrun, hdisplay]
            exact run_bindOptional_none hnone _
        | inl hgood =>
            obtain ⟨name, hname⟩ := hgood
            cases htext : encode handle with
            | none =>
                apply hfail plain_unicodeEncodeError
                rw [hrun, run_bindOptional hname, run_bindText, htext]
            | some text =>
                rw [session_handle hhandle hrange htext hname]
                exact outcome_written hx hids hhandle htext rfl hname rfl rfl
      · apply hfail (plain_raised "OverflowError")
        rw [updateProfile, hhandle]
        dsimp only
        rw [if_pos (not_not.mp hrange)]
        rfl

/-- The handle that the row has already is never refused. -/
theorem session_same {handle : PyStr} {u : User} {name : Option String} (hx : x.work = none)
    (hids : (x.db.users.map (·.id)).Nodup) (hhandle : r.handle = some handle)
    (hrange : InRange cooldownSeconds r.now) (hfind : x.db.userById userId = some u)
    (htext : encode handle = some u.username)
    (hname : r.displayName.map encode = name.map some) :
    (updateProfile userId cooldownSeconds r).session.run x =
      (.ok { u with displayName := name.getD u.displayName }, { x with db := { x.db with
        users := x.db.users.map fun w =>
          if w.id = userId then { w with displayName := name.getD w.displayName } else w } }) := by
  set v := updateOf r cooldownSeconds handle u.username name with hv
  have hsame : v.same u = true := decide_eq_true rfl
  have happly : v.apply u = { u with displayName := name.getD u.displayName } := apply_of_same hsame
  have hunique : ∀ w ∈ x.db.users, w.id = userId → w = u := by
    intro w hw hid
    have hin := Db.mem_of_userById hfind
    exact List.inj_on_of_nodup_map hids hw hin.1 (hid.trans hin.2.symm)
  have hup : updateUser userId v.apply x.db = some { x.db with users := x.db.users.map fun w =>
      if w.id = userId then { w with displayName := name.getD w.displayName } else w } := by
    unfold updateUser
    dsimp only
    rw [if_neg]
    · congr 2
      apply List.map_congr_left
      intro w hw
      by_cases hid : w.id = userId
      · rw [if_pos hid, if_pos hid, hunique w hw hid, happly]
      · rw [if_neg hid, if_neg hid]
    · intro hany
      obtain ⟨w, hw, hclash⟩ := List.any_eq_true.mp hany
      rw [Bool.and_eq_true, decide_eq_true_eq] at hclash
      rw [hunique w hw hclash.1, happly] at hclash
      simp at hclash
  rw [session_handle hhandle hrange htext hname]
  have hrun := @run_writeProfile userId x v.apply (fun u' => u'.username ≠ u.username)
    (refuseHandle cooldownSeconds r.refusedAt) hx hids fun _ => rfl
  cases hrun with
  | inl hfail =>
      obtain ⟨e, _, _, hwhy⟩ := hfail
      rw [hup, hfind] at hwhy
      cases hwhy with
      | inl h => cases h
      | inr h => cases h
  | inr hrow =>
      obtain ⟨u', db', hfind', hup', hrun⟩ := hrow
      rw [hfind] at hfind'
      obtain rfl := Option.some.inj hfind'
      rw [hup] at hup'
      obtain rfl := Option.some.inj hup'
      rw [happly] at hrun
      rw [hrun, if_neg (by simp), Request.run_session]
      exact Prod.ext rfl (Point.eq_mk_of_none hx ▸ rfl)

end

/-! ## The row after one call -/

def handleColumns (u : User) : String × String × Option Time × Bool :=
  (u.username, u.aikoUsername, u.handleChangedAt, u.handleAssigned)

/-- A change of the handle, by the row before and after. -/
structure Changed (cooldownSeconds : ℤ) (r : ProfileRequest) (u u' : User) : Prop where
  moved : u.username ≠ u'.username
  cooled : ∀ t, u.handleChangedAt = some t → (t : ℤ) ≤ r.now - cooldownSeconds * microseconds
  stamp : u'.handleChangedAt = if u.handleAssigned then u.handleChangedAt else some r.now
  chosen : u'.handleAssigned = false
  names : ∃ handle, r.handle = some handle ∧ encode handle = some u'.username ∧
    u'.aikoUsername = sanitizeAikoUsername handle

section
variable {userId : String} {cooldownSeconds : ℤ} {r : ProfileRequest}

theorem changed_apply {v : HandleUpdate} {u : User} {handle : PyStr}
    (hhandle : r.handle = some handle) (htext : encode handle = some v.handle)
    (haiko : v.aikoUsername = sanitizeAikoUsername handle)
    (hcutoff : v.cutoff = r.now - cooldownSeconds * microseconds) (hnow : v.now = r.now)
    (hchange : v.change u = true) : Changed cooldownSeconds r u (v.apply u) := by
  have hsplit := hchange
  unfold HandleUpdate.change HandleUpdate.same at hsplit
  rw [Bool.and_eq_true, Bool.not_eq_true', decide_eq_false_iff_not] at hsplit
  constructor
  · simp only [HandleUpdate.apply, hchange, if_true]
    exact hsplit.1
  · intro t ht
    have hold := hsplit.2
    rw [ht] at hold
    rw [← hcutoff]
    exact of_decide_eq_true hold
  · simp only [HandleUpdate.apply, hchange, Bool.true_and, hnow]
    cases u.handleAssigned <;> rfl
  · simp only [HandleUpdate.apply, hchange, if_true]
  · refine ⟨handle, hhandle, ?_, ?_⟩
    · simp only [HandleUpdate.apply, hchange, if_true]
      exact htext
    · simp only [HandleUpdate.apply, hchange, if_true]
      exact haiko

theorem ids_updateUser {g : User → User} {db db' : Db} (hid : ∀ u, (g u).id = u.id)
    (h : updateUser userId g db = some db') : db'.users.map (·.id) = db.users.map (·.id) := by
  rw [updateUser_eq h, List.map_map]
  apply List.map_congr_left
  intro u _
  dsimp only [Function.comp_apply]
  split_ifs
  · exact hid u
  · rfl

/-- The ids stay, and the row keeps its handle columns or is changed. -/
theorem Outcome.row {db db' : Db} {result : Except Exn User}
    (h : Outcome userId cooldownSeconds r db result db') :
    db'.users.map (·.id) = db.users.map (·.id) ∧
      ((db.userById userId = none ∧ db'.userById userId = none) ∨
        ∃ u u', db.userById userId = some u ∧ db'.userById userId = some u' ∧
          (handleColumns u' = handleColumns u ∨ Changed cooldownSeconds r u u')) := by
  have hsame : ((db.userById userId = none ∧ db.userById userId = none) ∨
      ∃ u u', db.userById userId = some u ∧ db.userById userId = some u' ∧
        (handleColumns u' = handleColumns u ∨ Changed cooldownSeconds r u u')) := by
    cases db.userById userId with
    | none => exact Or.inl ⟨rfl, rfl⟩
    | some u => exact Or.inr ⟨u, u, rfl, rfl, Or.inl rfl⟩
  cases h with
  | failed _ => exact ⟨rfl, hsame⟩
  | cooled _ _ _ _ _ => exact ⟨rfl, hsame⟩
  | @named u name _ _ hfind hup =>
      constructor
      · exact ids_updateUser (g := fun u => { u with displayName := name }) (fun _ => rfl) hup
      · right
        have hrow := userById_updateUser (g := fun u => { u with displayName := name })
          (fun _ => rfl) hup
        rw [hfind, Option.map_some] at hrow
        exact ⟨u, _, hfind, hrow, Or.inl rfl⟩
  | @written u handle v _ hhandle htext haiko _ hcutoff hnow hfind hwhy hup =>
      constructor
      · exact ids_updateUser (g := v.apply) (fun _ => rfl) hup
      · right
        have hrow := userById_updateUser (g := v.apply) (fun _ => rfl) hup
        rw [hfind, Option.map_some] at hrow
        refine ⟨u, _, hfind, hrow, ?_⟩
        cases hwhy with
        | inl hsame =>
            left
            rw [apply_of_same hsame]
            rfl
        | inr hchange => exact Or.inr (changed_apply hhandle htext haiko hcutoff hnow hchange)

end

/-! ## Runs -/

inductive Event where
  | call (r : ProfileRequest)
  | elsewhere (f : Db → Db)

def Event.next (userId : String) (cooldownSeconds : ℤ) (x : Point Db Memory) :
    Event → Point Db Memory
  | call r => ((updateProfile userId cooldownSeconds r).session.run x).2
  | elsewhere f => { x with db := f x.db }

def Event.time : Event → Option Time
  | call r => some r.now
  | elsewhere _ => none

/-- The island after the events. -/
def after (userId : String) (cooldownSeconds : ℤ) (db : Db) (mem : Memory) (events : List Event) :
    Point Db Memory :=
  events.foldl (Event.next userId cooldownSeconds) ⟨db, mem, none⟩

/-- What happens elsewhere: ids stay distinct, and the account keeps its handle columns or is
deleted. -/
structure Leaves (userId : String) (f : Db → Db) : Prop where
  ids : ∀ db : Db, (db.users.map (·.id)).Nodup → ((f db).users.map (·.id)).Nodup
  columns : ∀ db u', (f db).userById userId = some u' →
    ∃ u, db.userById userId = some u ∧ handleColumns u' = handleColumns u

/-- Between calls nobody else holds the lock, and ids are distinct. -/
structure Still (x : Point Db Memory) : Prop where
  work : x.work = none
  ids : (x.db.users.map (·.id)).Nodup

section
variable {userId : String} {cooldownSeconds : ℤ}

theorem Still.next {x : Point Db Memory} (h : Still x) {e : Event}
    (he : ∀ f, e = .elsewhere f → Leaves userId f) : Still (e.next userId cooldownSeconds x) := by
  cases e with
  | call r =>
      obtain ⟨result, db', hrun, hout⟩ := @outcome userId cooldownSeconds r x h.work h.ids
      rw [Event.next, hrun]
      constructor
      · exact h.work
      · rw [hout.row.1]
        exact h.ids
  | elsewhere f => exact ⟨h.work, (he f rfl).ids x.db h.ids⟩

theorem still_foldl {events : List Event} {x : Point Db Memory} (h : Still x)
    (helse : ∀ f, Event.elsewhere f ∈ events → Leaves userId f) :
    Still (events.foldl (Event.next userId cooldownSeconds) x) := by
  induction events generalizing x with
  | nil => exact h
  | cons e events ih =>
      apply ih (h.next fun f hf => helse f (hf ▸ List.mem_cons_self))
      intro f hf
      exact helse f (List.mem_cons_of_mem e hf)

/-- What handle columns decide and changes keep, the row keeps as long as it is there. -/
theorem row_keeps {P : User → Prop} {events : List Event} {x : Point Db Memory} (h : Still x)
    (helse : ∀ f, Event.elsewhere f ∈ events → Leaves userId f)
    (hcolumns : ∀ u u', handleColumns u' = handleColumns u → P u → P u')
    (hchanged : ∀ r, Event.call r ∈ events → ∀ u u', Changed cooldownSeconds r u u' → P u → P u')
    (hP : ∀ u, x.db.userById userId = some u → P u) :
    ∀ u, (events.foldl (Event.next userId cooldownSeconds) x).db.userById userId = some u → P u := by
  induction events generalizing x with
  | nil => exact hP
  | cons e events ih =>
      apply ih (h.next fun f hf => helse f (hf ▸ List.mem_cons_self))
      · intro f hf
        exact helse f (List.mem_cons_of_mem e hf)
      · intro r hr
        exact hchanged r (List.mem_cons_of_mem e hr)
      · intro u' hu'
        cases e with
        | call r =>
            obtain ⟨result, db', hrun, hout⟩ := @outcome userId cooldownSeconds r x h.work h.ids
            rw [Event.next, hrun] at hu'
            cases hout.row.2 with
            | inl hgone =>
                rw [hgone.2] at hu'
                cases hu'
            | inr hrow =>
                obtain ⟨u, w, hu, hw, hkind⟩ := hrow
                rw [hw] at hu'
                obtain rfl := Option.some.inj hu'
                cases hkind with
                | inl hsame => exact hcolumns u w hsame (hP u hu)
                | inr hchange => exact hchanged r List.mem_cons_self u w hchange (hP u hu)
        | elsewhere f =>
            obtain ⟨u, hu, hsame⟩ := (helse f List.mem_cons_self).columns x.db u' hu'
            exact hcolumns u u' hsame (hP u hu)

end

/-! ## The result -/

section
variable (userId : String) (cooldownSeconds : ℤ)

/-- A change of the handle that left the stamp of its call. -/
def StampedMove (now : Time) (x x' : Point Db Memory) : Prop :=
  ∃ u u', x.db.userById userId = some u ∧ x'.db.userById userId = some u' ∧
    u.username ≠ u'.username ∧ u'.handleChangedAt = some now

/-- A move off an assigned handle. -/
def FirstMove (x x' : Point Db Memory) : Prop :=
  ∃ u u', x.db.userById userId = some u ∧ x'.db.userById userId = some u' ∧
    u.username ≠ u'.username ∧ u.handleAssigned = true

/-- What one call does to the account. -/
structure CallLaw (r : ProfileRequest) (x : Point Db Memory) : Prop where
  unstamped : ∀ u u', FirstMove userId x (Event.next userId cooldownSeconds x (.call r)) →
    x.db.userById userId = some u →
    (Event.next userId cooldownSeconds x (.call r)).db.userById userId = some u' →
      u'.handleChangedAt = u.handleChangedAt ∧ u'.handleAssigned = false
  refused : ∀ e, ((updateProfile userId cooldownSeconds r).session.run x).1 = .error e →
    (Event.next userId cooldownSeconds x (.call r)).db = x.db
  same : ∀ u handle name, x.db.userById userId = some u → r.handle = some handle →
    encode handle = some u.username → r.displayName.map encode = Option.map some name →
    InRange cooldownSeconds r.now →
      (updateProfile userId cooldownSeconds r).session.run x =
        (.ok { u with displayName := name.getD u.displayName }, { x with db := { x.db with
          users := x.db.users.map fun w =>
            if w.id = userId then { w with displayName := name.getD w.displayName } else w } })
  together : ∀ u u', x.db.userById userId = some u →
    (Event.next userId cooldownSeconds x (.call r)).db.userById userId = some u' →
      handleColumns u' = handleColumns u ∨
        ∃ handle, r.handle = some handle ∧ encode handle = some u'.username ∧
          u'.aikoUsername = sanitizeAikoUsername handle ∧ u.username ≠ u'.username
  wait : ∀ n, ((updateProfile userId cooldownSeconds r).session.run x).1 =
      .error (.handleChangeCooldown n) → 1 ≤ n ∧ n ≤ max 1 cooldownSeconds

variable {userId cooldownSeconds}

theorem row_call {x : Point Db Memory} (h : Still x) (r : ProfileRequest) {u u' : User}
    (hu : x.db.userById userId = some u)
    (hu' : (Event.next userId cooldownSeconds x (.call r)).db.userById userId = some u') :
    handleColumns u' = handleColumns u ∨ Changed cooldownSeconds r u u' := by
  obtain ⟨result, db', hrun, hout⟩ := @outcome userId cooldownSeconds r x h.work h.ids
  rw [Event.next, hrun] at hu'
  cases hout.row.2 with
  | inl hgone =>
      rw [hgone.1] at hu
      cases hu
  | inr hrow =>
      obtain ⟨w, w', hw, hw', hkind⟩ := hrow
      rw [hu] at hw
      rw [hu'] at hw'
      rw [Option.some.inj hw, Option.some.inj hw']
      exact hkind

/-- A row that moved was changed. -/
theorem changed_of_moved {x : Point Db Memory} (h : Still x) {r : ProfileRequest} {u u' : User}
    (hu : x.db.userById userId = some u)
    (hu' : (Event.next userId cooldownSeconds x (.call r)).db.userById userId = some u')
    (hmoved : u.username ≠ u'.username) : Changed cooldownSeconds r u u' := by
  cases row_call h r hu hu' with
  | inl hsame => exact absurd (congrArg Prod.fst hsame).symm hmoved
  | inr hchange => exact hchange

theorem callLaw {x : Point Db Memory} (h : Still x) (r : ProfileRequest) :
    CallLaw userId cooldownSeconds r x := by
  obtain ⟨result, db', hrun, hout⟩ := @outcome userId cooldownSeconds r x h.work h.ids
  constructor
  · intro u u' hfirst hu hu'
    obtain ⟨w, w', hw, hw', hmoved, hassigned⟩ := hfirst
    rw [hu] at hw
    rw [hu'] at hw'
    obtain rfl := Option.some.inj hw
    obtain rfl := Option.some.inj hw'
    have hchange := changed_of_moved h hu hu' hmoved
    have hstamp := hchange.stamp
    rw [hassigned, if_pos rfl] at hstamp
    exact ⟨hstamp, hchange.chosen⟩
  · intro e he
    rw [hrun] at he
    rw [Event.next, hrun]
    dsimp only at he ⊢
    rw [he] at hout
    cases hout with
    | failed _ => rfl
    | cooled _ _ _ _ _ => rfl
  · intro u handle name hu hhandle htext hname hrange
    exact session_same h.work h.ids hhandle hrange hu htext hname
  · intro u u' hu hu'
    cases row_call h r hu hu' with
    | inl hsame => exact Or.inl hsame
    | inr hchange =>
        obtain ⟨handle, hhandle, htext, haiko⟩ := hchange.names
        exact Or.inr ⟨handle, hhandle, htext, haiko, hchange.moved⟩
  · intro n hn
    rw [hrun] at hn
    dsimp only at hn
    rw [hn] at hout
    have hbound : ∀ left, 1 ≤ retryAfter cooldownSeconds left ∧
        retryAfter cooldownSeconds left ≤ max 1 cooldownSeconds := by
      intro left
      rw [retryAfter]
      omega
    cases hout with
    | failed hplain => exact absurd rfl (hplain n)
    | cooled left _ _ _ _ => exact hbound left

end

theorem mem_of_split {pre mid post : List Event} {a b e : Event}
    (h : e ∈ pre ∨ e ∈ a :: mid) : e ∈ pre ++ a :: mid ++ b :: post := by
  apply List.mem_append_left
  exact List.mem_append.mpr h

/-- Stamped changes are a cooldown apart, the move off an assigned handle is unstamped and happens
once, and every call keeps its law. -/
theorem handles_change_at_most_once_a_cooldown (userId : String) (cooldownSeconds : ℤ) (db : Db)
    (mem : Memory) (events : List Event) (hids : (db.users.map (·.id)).Nodup)
    (helse : ∀ f, Event.elsewhere f ∈ events → Leaves userId f)
    (htimes : (events.filterMap Event.time).Pairwise (· ≤ ·)) :
    (∀ pre r post, events = pre ++ .call r :: post →
      CallLaw userId cooldownSeconds r (after userId cooldownSeconds db mem pre)) ∧
    ∀ pre a mid b post, events = pre ++ .call a :: mid ++ .call b :: post →
      (StampedMove userId a.now (after userId cooldownSeconds db mem pre)
          (after userId cooldownSeconds db mem (pre ++ [.call a])) →
        StampedMove userId b.now (after userId cooldownSeconds db mem (pre ++ .call a :: mid))
          (after userId cooldownSeconds db mem (pre ++ .call a :: mid ++ [.call b])) →
        (a.now : ℤ) + cooldownSeconds * microseconds ≤ b.now) ∧
      ¬(FirstMove userId (after userId cooldownSeconds db mem pre)
          (after userId cooldownSeconds db mem (pre ++ [.call a])) ∧
        FirstMove userId (after userId cooldownSeconds db mem (pre ++ .call a :: mid))
          (after userId cooldownSeconds db mem (pre ++ .call a :: mid ++ [.call b]))) := by
  have hstart : Still ⟨db, mem, none⟩ := ⟨rfl, hids⟩
  constructor
  · intro pre r post hsplit
    apply callLaw
    apply still_foldl hstart
    intro f hf
    apply helse f
    rw [hsplit]
    exact List.mem_append_left _ hf
  · intro pre a mid b post hsplit
    have hpre : Still (after userId cooldownSeconds db mem pre) := by
      apply still_foldl hstart
      intro f hf
      apply helse f
      rw [hsplit]
      exact mem_of_split (Or.inl hf)
    have hone : after userId cooldownSeconds db mem (pre ++ [.call a]) =
        Event.next userId cooldownSeconds (after userId cooldownSeconds db mem pre) (.call a) := by
      rw [after, List.foldl_append]
      rfl
    have hmid : ∀ f, Event.elsewhere f ∈ mid → Leaves userId f := by
      intro f hf
      apply helse f
      rw [hsplit]
      exact mem_of_split (Or.inr (List.mem_cons_of_mem _ hf))
    have hfirst : Still (after userId cooldownSeconds db mem (pre ++ [.call a])) := by
      rw [hone]
      apply hpre.next
      intro f hf
      cases hf
    have hbefore : after userId cooldownSeconds db mem (pre ++ .call a :: mid) =
        mid.foldl (Event.next userId cooldownSeconds)
          (after userId cooldownSeconds db mem (pre ++ [.call a])) := by
      rw [after, after, List.foldl_append, List.foldl_append]
      rfl
    have hlast : after userId cooldownSeconds db mem (pre ++ .call a :: mid ++ [.call b]) =
        Event.next userId cooldownSeconds
          (after userId cooldownSeconds db mem (pre ++ .call a :: mid)) (.call b) := by
      rw [after, List.foldl_append]
      rfl
    have hsecond : Still (after userId cooldownSeconds db mem (pre ++ .call a :: mid)) := by
      rw [hbefore]
      exact still_foldl hfirst hmid
    constructor
    · intro hstamped hagain
      obtain ⟨_, u', _, hu', _, hstamp⟩ := hstamped
      obtain ⟨w, w', hw, hw', hmoved, _⟩ := hagain
      -- from then on the row carries at least that stamp
      have hlater : ∀ u, (after userId cooldownSeconds db mem (pre ++ .call a :: mid)).db.userById
          userId = some u → ∃ t, u.handleChangedAt = some t ∧ a.now ≤ t := by
        rw [hbefore]
        apply row_keeps (P := fun u => ∃ t, u.handleChangedAt = some t ∧ a.now ≤ t) hfirst hmid
        · intro u v hsame hu
          have hcolumn : v.handleChangedAt = u.handleChangedAt :=
            congrArg (fun c => c.2.2.1) hsame
          rw [hcolumn]
          exact hu
        · intro r hr u v hchange hu
          rw [hchange.stamp]
          split_ifs
          · exact hu
          · refine ⟨r.now, rfl, ?_⟩
            rw [hsplit, List.filterMap_append, List.filterMap_append] at htimes
            have hleft := (List.pairwise_append.mp htimes).1
            have hcons := (List.pairwise_append.mp hleft).2.1
            rw [List.filterMap_cons_some (show Event.time (.call a) = some a.now from rfl)] at hcons
            apply (List.pairwise_cons.mp hcons).1
            exact List.mem_filterMap.mpr ⟨.call r, hr, rfl⟩
        · intro u hu
          rw [hu'] at hu
          rw [← Option.some.inj hu]
          exact ⟨a.now, hstamp, le_refl a.now⟩
      obtain ⟨t, ht, hle⟩ := hlater w hw
      rw [hlast] at hw'
      have hcooled := (changed_of_moved hsecond hw hw' hmoved).cooled t ht
      have hcast : (a.now : ℤ) ≤ t := Int.ofNat_le.mpr hle
      linarith
    · intro hboth
      obtain ⟨hfirstMove, w, w', hw, _, _, hassigned⟩ := hboth
      obtain ⟨u, u', hu, hu', hmoved, _⟩ := hfirstMove
      have hclear : ∀ u, (after userId cooldownSeconds db mem (pre ++ .call a :: mid)).db.userById
          userId = some u → u.handleAssigned = false := by
        rw [hbefore]
        apply row_keeps (P := fun u => u.handleAssigned = false) hfirst hmid
        · intro u v hsame hu
          have hcolumn : v.handleAssigned = u.handleAssigned :=
            congrArg (fun c => c.2.2.2) hsame
          rw [hcolumn]
          exact hu
        · intro r _ u v hchange _
          exact hchange.chosen
        · intro v hv
          rw [hu'] at hv
          rw [← Option.some.inj hv]
          rw [hone] at hu'
          exact (changed_of_moved hpre hu hu' hmoved).chosen
      rw [hclear w hw] at hassigned
      cases hassigned

/-- An account that still carries its assigned handle. -/
def newcomer : Db where
  users := [{ id := "U", username := "user 1", aikoUsername := "user_1", handleAssigned := true }]

def claims : List Event :=
  [.call { handle := some (codes "ann"), now := 5 }, .call { handle := some (codes "anna"), now := 9 }]

theorem first_claim_is_used_once :
    ¬(FirstMove "U" (after "U" 3600 newcomer {} []) (after "U" 3600 newcomer {} (claims.take 1)) ∧
      FirstMove "U" (after "U" 3600 newcomer {} (claims.take 1))
        (after "U" 3600 newcomer {} claims)) := by
  apply ((handles_change_at_most_once_a_cooldown "U" 3600 newcomer {} claims (by decide) _ _).2
    [] { handle := some (codes "ann"), now := 5 } []
    { handle := some (codes "anna"), now := 9 } [] rfl).2
  · intro f hf
    simp [claims] at hf
  · decide

/-- The two names need not change together: another spelling may have the same token. -/
theorem respelled_handle_keeps_its_token :
    ¬∀ (userId : String) (cooldownSeconds : ℤ) (db : Db) (mem : Memory) (r : ProfileRequest)
      (u u' : User), (db.users.map (·.id)).Nodup → db.userById userId = some u →
      (after userId cooldownSeconds db mem [.call r]).db.userById userId = some u' →
        (u.username ≠ u'.username ↔ u.aikoUsername ≠ u'.aikoUsername) := by
  intro hclaim
  have hrow : (after "U" 3600 newcomer {}
      [.call { handle := some (codes "user_1"), now := 5 }]).db.userById "U" =
        some { id := "U", username := "user_1", aikoUsername := "user_1" } := by
    decide +kernel
  have hboth := hclaim "U" 3600 newcomer {} { handle := some (codes "user_1"), now := 5 } _ _
    (by decide) rfl hrow
  revert hboth
  decide

end AikoIsland.HandleChanges
