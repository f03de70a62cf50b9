import AikoIsland.Devices
import AikoIsland.Messages
import AikoIsland.Serial

/-!
# The roster of device tokens

The arguments of `register_device` are checked before anything is written: the two
closed sets by their type, the install id by its type and its length. Then the call
either inserts a row, or reassigns the row of the token, or is refused.

The life of a token is the list of the accepted registrations since its row was
inserted; it ends when the owner unregisters. The row is read off its life: owner
and platform from the last registration, each other attribute from the last one
that declared it, or else the default that the insert put there.
-/
namespace AikoIsland.DeviceRoster
open Tables Gateway Messages WriterLock Calls Devices

/-! ## The arguments -/

/-- An argument: left out, of its type, or of another type, with that type's name and the repr. -/
inductive Argument (α : Type) where
  | absent
  | given (a : α)
  | wrong (typeName repr : String)
  deriving DecidableEq, Repr

/-- `INSTALL_ID_MAX_LENGTH`. -/
def installIdMaxLength : ℕ := 64

structure DeviceArguments where
  userId : String
  platform : PyStr
  token : PyStr
  apnsEnvironment : Argument ApnsEnvironment := .absent
  tokenKind : Argument TokenKind := .absent
  installId : Argument PyStr := .absent
  deriving DecidableEq, Repr

def checkApnsEnvironment : Argument ApnsEnvironment → Except Exn (Option ApnsEnvironment)
  | .absent => .ok none
  | .given e => .ok (some e)
  | .wrong typeName repr => .error (.typeError ("apns_environment must be an ApnsEnvironment, got " ++
      typeName ++ " (" ++ repr ++ "). Same rule as token_kind below: a closed set has one " ++
      "definition, and a bare string here would reach the DB as an unvalidated value."))

def checkTokenKind : Argument TokenKind → Except Exn (Option TokenKind)
  | .absent => .ok none
  | .given k => .ok (some k)
  | .wrong typeName repr => .error (.typeError ("token_kind must be a TokenKind, got " ++ typeName ++
      " (" ++ repr ++ "). The closed set has one definition; a bare string here would reach the " ++
      "DB as an unvalidated value."))

def checkInstallId : Argument PyStr → Except Exn (Option PyStr)
  | .absent => .ok none
  | .wrong typeName repr => .error (.typeError ("install_id must be a str or None, got " ++ typeName ++
      " (" ++ repr ++ ")."))
  | .given s =>
      if s = [] then .error (.valueError ("install_id must be non-empty or absent. An empty string " ++
        "is not an identity — the router reads it as 'no install', so storing it records a fact " ++
        "that is not one."))
      else if installIdMaxLength < s.length then
        .error (.valueError ("install_id is " ++ toString s.length ++ " characters, over the " ++
          toString installIdMaxLength ++ "-character column width. SQLite would store it anyway " ++
          "and Postgres would not, so it is refused here."))
      else .ok (some s)

/-- The checks, then the texts of the row; a text that no column can hold fails its INSERT. -/
def DeviceArguments.registration (a : DeviceArguments) : Except Exn Registration := do
  let apnsEnvironment ← checkApnsEnvironment a.apnsEnvironment
  let tokenKind ← checkTokenKind a.tokenKind
  let installId ← checkInstallId a.installId
  match encode a.platform, encode a.token, installId.map encode with
  | some platform, some token, none =>
      .ok ⟨a.userId, platform, token, apnsEnvironment, tokenKind, none⟩
  | some platform, some token, some (some installId) =>
      .ok ⟨a.userId, platform, token, apnsEnvironment, tokenKind, some installId⟩
  | _, _, _ => .error .unicodeEncodeError

/-! ## Calls -/

inductive DeviceCall where
  | register (a : DeviceArguments) (rowId : String) (insertedAt reassignedAt : Time)
  | unregister (userId : String) (token : PyStr)
  deriving DecidableEq, Repr

inductive Answer where
  | registered (row : DeviceToken)
  | unregistered (deleted : Bool)
  deriving DecidableEq, Repr

def DeviceCall.body (apnsUseSandbox : Bool) : DeviceCall → Body Answer
  | register a rowId insertedAt reassignedAt =>
      match a.registration with
      | .error e => throwExn e
      | .ok r => do
          let row ← registerDevice r apnsUseSandbox rowId insertedAt reassignedAt
          return .registered row
  | unregister userId token => do
      let token ← bindText token
      let deleted ← unregisterDevice userId token
      return .unregistered deleted

section
variable (apnsUseSandbox : Bool)

/-- The island after the calls, from one without devices. -/
def after (mem : Memory) (db : Db) (calls : List DeviceCall) : Point Db Memory :=
  Request.serveAll (calls.map (·.body apnsUseSandbox)) ⟨db, mem, none⟩

def answerOf (x : Point Db Memory) (c : DeviceCall) : Except Exn Answer :=
  ((c.body apnsUseSandbox).session.run x).1

/-- What an answered call makes of the life of a token. -/
def lived (token : String) (life : List Registration) (c : DeviceCall) :
    Except Exn Answer → List Registration
  | .error _ => life
  | .ok _ =>
      match c with
      | .register a _ _ _ =>
          match a.registration with
          | .ok r => if r.token = token then life ++ [r] else life
          | .error _ => life
      | .unregister userId t =>
          if encode t = some token ∧ life.getLast?.map (·.userId) = some userId then [] else life

/-- The accepted registrations of the token since its row was inserted. -/
def lifeOf (token : String) : Point Db Memory → List Registration → List DeviceCall →
    List Registration
  | _, life, [] => life
  | x, life, c :: calls =>
      lifeOf token ((c.body apnsUseSandbox).session.run x).2
        (lived token life c (answerOf apnsUseSandbox x c)) calls

/-- The last value that a registration declared. -/
def lastDeclared {α : Type} (f : Registration → Option α) (life : List Registration) : Option α :=
  (life.filterMap f).getLast?

/-- The rows of a token tell its life. -/
structure Tells (life : List Registration) (rows : List DeviceToken) : Prop where
  empty : life = [] → rows = []
  row : ∀ last, life.getLast? = some last → ∃ d, rows = [d] ∧ d.userId = last.userId ∧
    d.platform = last.platform ∧
    d.apnsEnvironment = ApnsEnvironment.value ((lastDeclared (·.apnsEnvironment) life).getD
      (defaultApnsEnvironment apnsUseSandbox)) ∧
    d.tokenKind = TokenKind.value ((lastDeclared (·.tokenKind) life).getD .alert) ∧
    d.installId = lastDeclared (·.installId) life

end

def rowsOf (token : String) (db : Db) : List DeviceToken :=
  db.devices.filter fun d => d.token = token

/-! ## One call, run alone -/

/-- What `register_device` answers and the table it leaves. -/
inductive Registered (r : Registration) (apnsUseSandbox : Bool) (rowId : String)
    (insertedAt reassignedAt : Time) (db : Db) : Except Exn DeviceToken → Db → Prop
  | inserted {db' : Db} : db.insertDevice (r.row apnsUseSandbox rowId insertedAt) = some db' →
      Registered r apnsUseSandbox rowId insertedAt reassignedAt db
        (.ok (r.row apnsUseSandbox rowId insertedAt)) db'
  | reassigned {existing : DeviceToken} {db' : Db} :
      db.insertDevice (r.row apnsUseSandbox rowId insertedAt) = none →
      (db.devices.find? fun d => d.token = r.token) = some existing →
      reassign r existing reassignedAt db = some db' →
      Registered r apnsUseSandbox rowId insertedAt reassignedAt db
        (.ok (r.assign reassignedAt existing)) db'
  | refused : db.insertDevice (r.row apnsUseSandbox rowId insertedAt) = none →
      (∀ existing, (db.devices.find? fun d => d.token = r.token) = some existing →
        reassign r existing reassignedAt db = none) →
      Registered r apnsUseSandbox rowId insertedAt reassignedAt db (.error .integrityError) db

section
variable {x : Point Db Memory}

/-- A flush that may raise, while the request has written before. -/
theorem run_flushOrRaise {f : Db → Option Db} {t : Label} {k : Unit → Body DeviceToken} :
    (flushOrRaise f t >>= k).run x =
      match f x.view with
      | some s => (k ()).run (x.wrote false s)
      | none => (.error .integrityError, x.refused.rolledBack) := by
  rw [Request.run_bind, flushOrRaise, flushOr, Request.run_bind, flush]
  cases hf : f x.view with
  | some s =>
      rw [Request.run_attempt_some hf]
      rfl
  | none =>
      rw [Request.run_attempt_none hf]
      rfl

theorem registered {r : Registration} {apnsUseSandbox : Bool} {rowId : String}
    {insertedAt reassignedAt : Time} (hx : x.work = none) :
    ∃ result db', (registerDevice r apnsUseSandbox rowId insertedAt reassignedAt).session.run x =
        (result, { x with db := db' }) ∧
      Registered r apnsUseSandbox rowId insertedAt reassignedAt x.db result db' := by
  have hview : x.view = x.db := Point.view_of_none hx
  set row := r.row apnsUseSandbox rowId insertedAt with hrow
  cases hinsert : x.db.insertDevice row with
  | some db' =>
      refine ⟨.ok row, db', ?_, Registered.inserted hinsert⟩
      have hf : (fun db : Db => db.insertDevice row) x.view = some db' := by
        rw [hview]
        exact hinsert
      rw [Request.run_session, registerDevice, Request.run_bind, flushNested,
        Request.run_attempt_some hf, Point.wrote, hx]
      rfl
  | none =>
      have hf : (fun db : Db => db.insertDevice row) x.view = none := by
        rw [hview]
        exact hinsert
      have hstart : ∀ found : Option DeviceToken,
          (x.db.devices.find? fun d => d.token = r.token) = found →
          (registerDevice r apnsUseSandbox rowId insertedAt reassignedAt).run x =
            (found.elim (throwExn .integrityError) (fun existing => do
                flushOrRaise (reassign r existing reassignedAt)
                  (.deviceWrite existing.id reassignedAt)
                commit
                return r.assign reassignedAt existing) : Body DeviceToken).run x.refused := by
        intro found hfound
        rw [registerDevice, Request.run_bind, flushNested, Request.run_attempt_none hf]
        change (select _ >>= _ : Body DeviceToken).run x.refused = _
        rw [Request.run_bind, select, Request.run_query]
        have hrefused : x.refused.view = x.db := by
          rw [← hview]
          rfl
        rewrite [hrefused, hfound]
        cases found <;> rfl
      cases hfind : x.db.devices.find? fun d => d.token = r.token with
      | none =>
          have hstart := hstart none hfind
          refine ⟨.error .integrityError, x.db, ?_, Registered.refused hinsert ?_⟩
          · rw [Request.run_session, hstart, Point.eq_mk_of_none hx]
            rfl
          · intro existing hexisting
            rw [hfind] at hexisting
            cases hexisting
      | some existing =>
          have hstart := hstart (some existing) hfind
          rw [Option.elim_some, run_flushOrRaise] at hstart
          have hrefused : x.refused.view = x.db := by
            rw [← hview]
            rfl
          rw [hrefused] at hstart
          cases hassign : reassign r existing reassignedAt x.db with
          | some db' =>
              rw [hassign] at hstart
              refine ⟨_, db', ?_, Registered.reassigned hinsert hfind hassign⟩
              rw [Request.run_session, hstart, Point.eq_mk_of_none hx]
              rfl
          | none =>
              rw [hassign] at hstart
              refine ⟨.error .integrityError, x.db, ?_, Registered.refused hinsert ?_⟩
              · rw [Request.run_session, hstart, Point.eq_mk_of_none hx]
                rfl
              · intro existing' hexisting'
                rw [hfind] at hexisting'
                rw [← Option.some.inj hexisting']
                exact hassign

theorem run_unregister {apnsUseSandbox : Bool} {userId token : String} {t : PyStr}
    (hx : x.work = none) (ht : encode t = some token) :
    ((DeviceCall.unregister userId t).body apnsUseSandbox).session.run x =
      (.ok (.unregistered (decide
          (0 < (x.db.devices.filter fun d => d.token = token && d.userId = userId).length))),
        { x with db := { x.db with devices := x.db.devices.filter fun d =>
          !(d.token = token && d.userId = userId) } }) := by
  rw [DeviceCall.body, Request.run_session, Request.run_bind, bindText, ht,
    Point.eq_mk_of_none hx]
  rfl

end

/-! ## Lives -/

section
variable {apnsUseSandbox : Bool} {life : List Registration} {rows : List DeviceToken}

theorem lastDeclared_nil {α : Type} (f : Registration → Option α) : lastDeclared f [] = none := rfl

theorem lastDeclared_concat {α : Type} (f : Registration → Option α) (r : Registration) :
    lastDeclared f (life ++ [r]) = (f r).orElse fun _ => lastDeclared f life := by
  unfold lastDeclared
  rw [List.filterMap_append]
  cases hf : f r with
  | none => simp [hf]
  | some a => simp [hf]

theorem Tells.nil_of_rows (h : Tells apnsUseSandbox life []) : life = [] := by
  by_contra hne
  obtain ⟨d, hd, _⟩ := h.row _ (List.getLast?_eq_some_getLast hne)
  cases hd

theorem Tells.of_mem {d : DeviceToken} (h : Tells apnsUseSandbox life rows) (hd : d ∈ rows) :
    rows = [d] ∧ ∃ last, life.getLast? = some last ∧ d.userId = last.userId := by
  have hne : life ≠ [] := by
    intro hnil
    rw [h.empty hnil] at hd
    cases hd
  have hlast := List.getLast?_eq_some_getLast hne
  obtain ⟨d', hrows, howner, _⟩ := h.row _ hlast
  rw [hrows, List.mem_singleton] at hd
  rw [hd]
  exact ⟨hrows, _, hlast, howner⟩

theorem tells_nil : Tells apnsUseSandbox [] [] := by
  constructor
  · intro _
    rfl
  · intro last h
    cases h

/-- The first registration of a life makes its row. -/
theorem tells_inserted (r : Registration) (rowId : String) (now : Time) :
    Tells apnsUseSandbox [r] [r.row apnsUseSandbox rowId now] := by
  constructor
  · intro h
    cases h
  · intro last hlast
    obtain rfl := Option.some.inj hlast
    have hone : ∀ {α : Type} (f : Registration → Option α), lastDeclared f [r] = f r := by
      intro α f
      have hconcat := @lastDeclared_concat [] α f r
      rw [List.nil_append, lastDeclared_nil] at hconcat
      rw [hconcat]
      cases f r <;> rfl
    refine ⟨_, rfl, rfl, rfl, ?_, ?_, ?_⟩
    · rw [hone]
      rfl
    · rw [hone]
      rfl
    · rw [hone]
      rfl

/-- A later one refreshes what it declares. -/
theorem Tells.assigned {d : DeviceToken} (h : Tells apnsUseSandbox life [d]) (r : Registration)
    (now : Time) : Tells apnsUseSandbox (life ++ [r]) [r.assign now d] := by
  obtain ⟨_, last, hlast, _⟩ := h.of_mem List.mem_cons_self
  obtain ⟨d', hrows, _, _, henv, hkind, hinstall⟩ := h.row last hlast
  obtain rfl : d = d' := by simpa using hrows
  constructor
  · intro hnil
    simp at hnil
  · intro last' hlast'
    rw [List.getLast?_concat] at hlast'
    obtain rfl := Option.some.inj hlast'
    refine ⟨_, rfl, rfl, rfl, ?_, ?_, ?_⟩
    · rw [lastDeclared_concat]
      cases hr : r.apnsEnvironment with
      | none => simpa [Registration.assign, hr] using henv
      | some e => simp [Registration.assign, hr]
    · rw [lastDeclared_concat]
      cases hr : r.tokenKind with
      | none => simpa [Registration.assign, hr] using hkind
      | some k => simp [Registration.assign, hr]
    · rw [lastDeclared_concat]
      cases hr : r.installId with
      | none => simpa [Registration.assign, hr] using hinstall
      | some i => simp [Registration.assign, hr]

end

/-! ## The table -/

structure Kept (db : Db) : Prop where
  ids : (db.devices.map (·.id)).Nodup
  tokens : (db.devices.map (·.token)).Nodup

section
variable {apnsUseSandbox : Bool} {life : List Registration} {r : Registration} {rowId token : String}
  {insertedAt reassignedAt : Time} {db db' : Db}

theorem reassign_eq {existing : DeviceToken} (h : reassign r existing reassignedAt db = some db') :
    db' = { db with devices := db.devices.map fun d =>
      if d.id = existing.id then r.assign reassignedAt d else d } := by
  unfold reassign at h
  split_ifs at h
  exact (Option.some.inj h).symm

theorem kept_append {row : DeviceToken} (h : Kept db)
    (hnew : ∀ d ∈ db.devices, d.id ≠ row.id ∧ d.token ≠ row.token) (ids : List String) :
    Kept { db with devices := db.devices ++ [row], deviceIds := ids } := by
  constructor
  · dsimp only
    rw [List.map_append]
    apply List.Nodup.append h.ids (List.nodup_singleton _)
    intro i hi hrow
    obtain ⟨d, hd, rfl⟩ := List.mem_map.mp hi
    exact (hnew d hd).1 (List.mem_singleton.mp hrow)
  · dsimp only
    rw [List.map_append]
    apply List.Nodup.append h.tokens (List.nodup_singleton _)
    intro t ht hrow
    obtain ⟨d, hd, rfl⟩ := List.mem_map.mp ht
    exact (hnew d hd).2 (List.mem_singleton.mp hrow)

theorem kept_assign {existing : DeviceToken} (h : Kept db) :
    Kept { db with devices := db.devices.map fun d =>
      if d.id = existing.id then r.assign reassignedAt d else d } := by
  have hid : ((fun d : DeviceToken => d.id) ∘ fun d => if d.id = existing.id then
      r.assign reassignedAt d else d) = fun d => d.id := by
    funext d
    dsimp only [Function.comp_apply]
    split_ifs <;> rfl
  have htoken : ((fun d : DeviceToken => d.token) ∘ fun d => if d.id = existing.id then
      r.assign reassignedAt d else d) = fun d => d.token := by
    funext d
    dsimp only [Function.comp_apply]
    split_ifs <;> rfl
  constructor
  · dsimp only
    rw [List.map_map, hid]
    exact h.ids
  · dsimp only
    rw [List.map_map, htoken]
    exact h.tokens

theorem kept_filter (h : Kept db) (p : DeviceToken → Bool) :
    Kept { db with devices := db.devices.filter p } :=
  ⟨h.ids.sublist (List.filter_sublist.map _), h.tokens.sublist (List.filter_sublist.map _)⟩

theorem mem_rowsOf {d : DeviceToken} : d ∈ rowsOf token db ↔ d ∈ db.devices ∧ d.token = token := by
  rw [rowsOf, List.mem_filter, decide_eq_true_eq]

/-- An insert begins the life of its token and leaves the others alone. -/
theorem tells_append (htells : Tells apnsUseSandbox life (rowsOf token db))
    (hnew : ∀ d ∈ db.devices, d.id ≠ (r.row apnsUseSandbox rowId insertedAt).id ∧
      d.token ≠ (r.row apnsUseSandbox rowId insertedAt).token) (ids : List String) :
    Tells apnsUseSandbox (if r.token = token then life ++ [r] else life)
      (rowsOf token { db with
        devices := db.devices ++ [r.row apnsUseSandbox rowId insertedAt], deviceIds := ids }) := by
  rw [rowsOf]
  dsimp only
  rw [List.filter_append, ← rowsOf]
  by_cases htoken : r.token = token
  · have hnone : rowsOf token db = [] := by
      apply List.eq_nil_iff_forall_not_mem.mpr
      intro d hd
      obtain ⟨hin, hsame⟩ := mem_rowsOf.mp hd
      exact (hnew d hin).2 (hsame.trans htoken.symm)
    rw [hnone] at htells ⊢
    have hown : ([r.row apnsUseSandbox rowId insertedAt].filter fun d => d.token = token) =
        [r.row apnsUseSandbox rowId insertedAt] := by
      simp [Registration.row, htoken]
    rw [htells.nil_of_rows, if_pos htoken, hown]
    exact tells_inserted r rowId insertedAt
  · have hother : ([r.row apnsUseSandbox rowId insertedAt].filter fun d => d.token = token) = [] := by
      simp [Registration.row, htoken]
    rw [if_neg htoken, hother, List.append_nil]
    exact htells

/-- A reassignment adds to the life of its token and leaves the others alone. -/
theorem tells_assign {existing : DeviceToken} (hkept : Kept db)
    (htells : Tells apnsUseSandbox life (rowsOf token db))
    (hfind : (db.devices.find? fun d => d.token = r.token) = some existing) :
    Tells apnsUseSandbox (if r.token = token then life ++ [r] else life)
      (rowsOf token { db with devices := db.devices.map fun d =>
        if d.id = existing.id then r.assign reassignedAt d else d }) := by
  have hin : existing ∈ db.devices := List.mem_of_find?_eq_some hfind
  have hexisting : existing.token = r.token := by
    have hp := List.find?_some hfind
    exact of_decide_eq_true hp
  have hrows : rowsOf token { db with devices := db.devices.map fun d =>
      if d.id = existing.id then r.assign reassignedAt d else d } =
        (rowsOf token db).map fun d =>
          if d.id = existing.id then r.assign reassignedAt d else d := by
    rw [rowsOf, rowsOf, List.filter_map]
    congr 1
    apply List.filter_congr
    intro d _
    dsimp only [Function.comp_apply]
    split_ifs <;> rfl
  rw [hrows]
  by_cases htoken : r.token = token
  · have hmem : existing ∈ rowsOf token db := mem_rowsOf.mpr ⟨hin, hexisting.trans htoken⟩
    have hone := (htells.of_mem hmem).1
    rw [hone] at htells ⊢
    rw [if_pos htoken, List.map_singleton, if_pos rfl]
    exact htells.assigned r reassignedAt
  · have hsame : (rowsOf token db).map (fun d =>
        if d.id = existing.id then r.assign reassignedAt d else d) = rowsOf token db := by
      conv_rhs => rw [← List.map_id (rowsOf token db)]
      apply List.map_congr_left
      intro d hd
      obtain ⟨hd, hdtoken⟩ := mem_rowsOf.mp hd
      apply if_neg
      intro hid
      have heq := List.inj_on_of_nodup_map hkept.ids hd hin hid
      rw [heq, hexisting] at hdtoken
      exact htoken hdtoken
    rw [if_neg htoken, hsame]
    exact htells

theorem rowsOf_unregister (userId t : String) :
    rowsOf token { db with devices := db.devices.filter fun d =>
      !(d.token = t && d.userId = userId) } =
        (rowsOf token db).filter fun d => !(d.token = t && d.userId = userId) := by
  rw [rowsOf, rowsOf]
  dsimp only
  rw [List.filter_filter, List.filter_filter]
  apply List.filter_congr
  intro d _
  rw [Bool.and_comm]

/-- An owner who unregisters ends the life of the token; anybody else does nothing. -/
theorem tells_unregister (htells : Tells apnsUseSandbox life (rowsOf token db))
    (userId t : String) :
    Tells apnsUseSandbox
      (if t = token ∧ life.getLast?.map (·.userId) = some userId then [] else life)
      (rowsOf token { db with devices := db.devices.filter fun d =>
        !(d.token = t && d.userId = userId) }) := by
  rw [rowsOf_unregister]
  cases hrows : rowsOf token db with
  | nil =>
      rw [hrows] at htells
      rw [htells.nil_of_rows, ite_self, List.filter_nil]
      exact tells_nil
  | cons d rest =>
      have hmem : d ∈ rowsOf token db := by
        rw [hrows]
        exact List.mem_cons_self
      obtain ⟨hone, last, hlast, howner⟩ := htells.of_mem hmem
      have hdtoken := (mem_rowsOf.mp hmem).2
      rw [hone] at hrows htells
      rw [← hrows, hlast, Option.map_some, ← howner]
      by_cases hgone : t = token ∧ d.userId = userId
      · have hdrop : ([d].filter fun d => !(d.token = t && d.userId = userId)) = [] := by
          simp [hdtoken, hgone.1, hgone.2]
        rw [if_pos ⟨hgone.1, congrArg some hgone.2⟩, hdrop]
        exact tells_nil
      · have hkeep : ([d].filter fun d => !(d.token = t && d.userId = userId)) = [d] := by
          apply List.filter_eq_self.mpr
          intro a ha
          rw [List.mem_singleton.mp ha, Bool.not_eq_true', Bool.and_eq_false_iff,
            decide_eq_false_iff_not, decide_eq_false_iff_not]
          by_contra hnot
          rw [not_or, not_not, not_not] at hnot
          exact hgone ⟨hnot.1.symm.trans hdtoken, hnot.2⟩
        rw [if_neg (fun h => hgone ⟨h.1, Option.some.inj h.2⟩), hkeep]
        exact htells

end

/-! ## One call of a sequence -/

theorem run_session_map {r : Body DeviceToken} {x y : Point Db Memory}
    {result : Except Exn DeviceToken} (h : r.session.run x = (result, y)) :
    (do
      let row ← r
      return Answer.registered row : Body Answer).session.run x =
        (result.map Answer.registered, y) := by
  rw [Request.run_session] at h ⊢
  rw [Request.run_bind]
  cases hrun : r.run x with
  | mk result' z =>
      rw [hrun] at h
      obtain ⟨rfl, hz⟩ := Prod.mk.injEq .. ▸ h
      cases result' with
      | error e => exact Prod.ext rfl hz
      | ok row => exact Prod.ext rfl hz

section
variable {apnsUseSandbox : Bool} {x : Point Db Memory}

/-- One call keeps the table and tells every life. -/
theorem call_keeps (hx : x.work = none) (hkept : Kept x.db) (c : DeviceCall) :
    Kept ((c.body apnsUseSandbox).session.run x).2.db ∧
    (∀ token life, Tells apnsUseSandbox life (rowsOf token x.db) →
      Tells apnsUseSandbox (lived token life c (answerOf apnsUseSandbox x c))
        (rowsOf token ((c.body apnsUseSandbox).session.run x).2.db)) ∧
    ∀ e, answerOf apnsUseSandbox x c = .error e →
      ((c.body apnsUseSandbox).session.run x).2.db = x.db := by
  cases c with
  | register a rowId insertedAt reassignedAt =>
      cases hargs : a.registration with
      | error e =>
          have hrun : ((DeviceCall.register a rowId insertedAt reassignedAt).body
              apnsUseSandbox).session.run x = (.error e, x) := by
            rw [DeviceCall.body, hargs]
            exact Request.run_session_same hx rfl
          rw [answerOf, hrun]
          exact ⟨hkept, fun _ _ htells => htells, fun _ _ => rfl⟩
      | ok r =>
          obtain ⟨result, db', hrun, hregistered⟩ :=
            @registered x r apnsUseSandbox rowId insertedAt reassignedAt hx
          have hcall : ((DeviceCall.register a rowId insertedAt reassignedAt).body
              apnsUseSandbox).session.run x = (result.map Answer.registered, { x with db := db' }) := by
            rw [DeviceCall.body, hargs]
            exact run_session_map hrun
          rw [answerOf, hcall]
          cases hregistered with
          | inserted hinsert =>
              obtain ⟨_, hnew, rfl⟩ := Db.insertDevice_eq_some.mp hinsert
              refine ⟨kept_append hkept hnew _, ?_, ?_⟩
              · intro token life htells
                rw [Except.map, lived, hargs]
                exact tells_append htells hnew _
              · intro e he
                cases he
          | reassigned _ hfind hassign =>
              rw [reassign_eq hassign]
              refine ⟨kept_assign hkept, ?_, ?_⟩
              · intro token life htells
                rw [Except.map, lived, hargs]
                exact tells_assign hkept htells hfind
              · intro e he
                cases he
          | refused _ _ => exact ⟨hkept, fun _ _ htells => htells, fun _ _ => rfl⟩
  | unregister userId t =>
      cases ht : encode t with
      | none =>
          have hrun : ((DeviceCall.unregister userId t).body apnsUseSandbox).session.run x =
              (.error .unicodeEncodeError, x) := by
            apply Request.run_session_same hx
            rw [DeviceCall.body, Request.run_bind, bindText, ht]
            rfl
          rw [answerOf, hrun]
          exact ⟨hkept, fun _ _ htells => htells, fun _ _ => rfl⟩
      | some token =>
          have hrun := @run_unregister x apnsUseSandbox userId token t hx ht
          rw [answerOf, hrun]
          refine ⟨kept_filter hkept _, ?_, ?_⟩
          · intro token' life htells
            have hstep := tells_unregister htells userId token
            rw [lived, ht]
            simpa only [Option.some.injEq] using hstep
          · intro e he
            cases he

end

theorem checks_value {d : DeviceToken} {e : ApnsEnvironment} {k : TokenKind}
    (hplatform : d.platform = "apns" ∨ d.platform = "fcm")
    (he : d.apnsEnvironment = ApnsEnvironment.value e) (hk : d.tokenKind = TokenKind.value k) :
    Db.deviceChecks d = true := by
  unfold Db.deviceChecks
  rw [he, hk]
  cases hplatform with
  | inl h => rw [h]; cases e <;> cases k <;> rfl
  | inr h => rw [h]; cases e <;> cases k <;> rfl

/-- Arguments that pass the checks, with a known platform and a fresh id, are accepted. -/
theorem register_accepts {apnsUseSandbox : Bool} {x : Point Db Memory} {a : DeviceArguments}
    {r : Registration} {rowId : String} {insertedAt reassignedAt : Time} {life : List Registration}
    (hx : x.work = none) (hargs : a.registration = .ok r)
    (htells : Tells apnsUseSandbox life (rowsOf r.token x.db))
    (hplatform : r.platform = "apns" ∨ r.platform = "fcm")
    (hfresh : ∀ d ∈ x.db.devices, d.id ≠ rowId) :
    ∃ row, answerOf apnsUseSandbox x (.register a rowId insertedAt reassignedAt) =
      .ok (.registered row) := by
  obtain ⟨result, db', hrun, hregistered⟩ :=
    @registered x r apnsUseSandbox rowId insertedAt reassignedAt hx
  have hcall : answerOf apnsUseSandbox x (.register a rowId insertedAt reassignedAt) =
      result.map Answer.registered := by
    rw [answerOf, DeviceCall.body, hargs]
    dsimp only
    rw [run_session_map hrun]
  rw [hcall]
  cases hregistered with
  | inserted _ => exact ⟨_, rfl⟩
  | reassigned _ _ _ => exact ⟨_, rfl⟩
  | refused hinsert hassign =>
      exfalso
      have hchecks : Db.deviceChecks (r.row apnsUseSandbox rowId insertedAt) = true :=
        checks_value hplatform rfl rfl
      cases hfind : x.db.devices.find? fun d => d.token = r.token with
      | none =>
          have hnew : ∀ d ∈ x.db.devices, d.id ≠ (r.row apnsUseSandbox rowId insertedAt).id ∧
              d.token ≠ (r.row apnsUseSandbox rowId insertedAt).token := by
            intro d hd
            have hother := List.find?_eq_none.mp hfind d hd
            exact ⟨hfresh d hd, by simpa [Registration.row] using hother⟩
          rw [Db.insertDevice_eq_some.mpr ⟨hchecks, hnew, rfl⟩] at hinsert
          cases hinsert
      | some existing =>
          have hexisting : existing ∈ rowsOf r.token x.db := by
            have hp := List.find?_some hfind
            exact mem_rowsOf.mpr ⟨List.mem_of_find?_eq_some hfind, of_decide_eq_true hp⟩
          obtain ⟨hone, last, hlast, _⟩ := htells.of_mem hexisting
          obtain ⟨d, hrows, _, _, henv, hkind, _⟩ := htells.row last hlast
          obtain rfl : existing = d := by simpa [hone] using hrows
          have hassigned : Db.deviceChecks (r.assign reassignedAt existing) = true := by
            apply checks_value hplatform (e := (r.apnsEnvironment.getD ((lastDeclared
              (·.apnsEnvironment) life).getD (defaultApnsEnvironment apnsUseSandbox))))
              (k := (r.tokenKind.getD ((lastDeclared (·.tokenKind) life).getD .alert)))
            · rw [Registration.assign, henv]
              cases r.apnsEnvironment <;> rfl
            · rw [Registration.assign, hkind]
              cases r.tokenKind <;> rfl
          have hnone := hassign existing hfind
          rw [reassign, if_pos hassigned] at hnone
          cases hnone

/-! ## The result -/

theorem tells_serveAll {apnsUseSandbox : Bool} {token : String} {calls : List DeviceCall}
    {x : Point Db Memory} {life : List Registration} (hx : x.work = none) (hkept : Kept x.db)
    (htells : Tells apnsUseSandbox life (rowsOf token x.db)) :
    Kept (Request.serveAll (calls.map (·.body apnsUseSandbox)) x).db ∧
      Tells apnsUseSandbox (lifeOf apnsUseSandbox token x life calls)
        (rowsOf token (Request.serveAll (calls.map (·.body apnsUseSandbox)) x).db) := by
  induction calls generalizing x life with
  | nil => exact ⟨hkept, htells⟩
  | cons c calls ih =>
      obtain ⟨hkept', htells', _⟩ := @call_keeps apnsUseSandbox x hx hkept c
      exact ih (Request.work_session _ x) hkept' (htells' token life htells)

/-- After any calls each token has the row that its life tells; what is refused, and what does not
own the token it unregisters, changes nothing. -/
theorem devices_tell_their_lives (apnsUseSandbox : Bool) (mem : Memory) (db : Db)
    (hempty : db.devices = []) (calls : List DeviceCall) :
    ((after apnsUseSandbox mem db calls).db.devices.map (·.token)).Nodup ∧
    (∀ token, Tells apnsUseSandbox (lifeOf apnsUseSandbox token ⟨db, mem, none⟩ [] calls)
      (rowsOf token (after apnsUseSandbox mem db calls).db)) ∧
    (∀ c e, answerOf apnsUseSandbox (after apnsUseSandbox mem db calls) c = .error e →
      (after apnsUseSandbox mem db (calls ++ [c])).db = (after apnsUseSandbox mem db calls).db) ∧
    (∀ userId t token, encode t = some token →
      (∀ d ∈ rowsOf token (after apnsUseSandbox mem db calls).db, d.userId ≠ userId) →
      answerOf apnsUseSandbox (after apnsUseSandbox mem db calls) (.unregister userId t) =
          .ok (.unregistered false) ∧
        (after apnsUseSandbox mem db (calls ++ [.unregister userId t])).db =
          (after apnsUseSandbox mem db calls).db) ∧
    ∀ a r rowId insertedAt reassignedAt, a.registration = .ok r →
      (r.platform = "apns" ∨ r.platform = "fcm") →
      (∀ d ∈ (after apnsUseSandbox mem db calls).db.devices, d.id ≠ rowId) →
      ∃ row, answerOf apnsUseSandbox (after apnsUseSandbox mem db calls)
        (.register a rowId insertedAt reassignedAt) = .ok (.registered row) := by
  have hkept : Kept db := by
    constructor
    · rw [hempty]
      exact List.nodup_nil
    · rw [hempty]
      exact List.nodup_nil
  have hnone : ∀ token, Tells apnsUseSandbox [] (rowsOf token db) := by
    intro token
    rw [rowsOf, hempty]
    exact tells_nil
  have hwork : (after apnsUseSandbox mem db calls).work = none := Request.work_serveAll _ rfl
  have hall := fun token => @tells_serveAll apnsUseSandbox token calls ⟨db, mem, none⟩ [] rfl hkept
    (hnone token)
  have hnow : Kept (after apnsUseSandbox mem db calls).db := (hall "").1
  have htells : ∀ token, Tells apnsUseSandbox (lifeOf apnsUseSandbox token ⟨db, mem, none⟩ [] calls)
      (rowsOf token (after apnsUseSandbox mem db calls).db) :=
    fun token => (hall token).2
  have hnext : ∀ c, after apnsUseSandbox mem db (calls ++ [c]) =
      ((c.body apnsUseSandbox).session.run (after apnsUseSandbox mem db calls)).2 := by
    intro c
    rw [after, List.map_append, Request.serveAll_append]
    rfl
  refine ⟨hnow.tokens, htells, ?_, ?_, ?_⟩
  · intro c e he
    rw [hnext]
    exact (@call_keeps apnsUseSandbox _ hwork hnow c).2.2 e he
  · intro userId t token ht hother
    have hnobody : ∀ d ∈ (after apnsUseSandbox mem db calls).db.devices,
        (decide (d.token = token) && decide (d.userId = userId)) = false := by
      intro d hd
      rw [Bool.and_eq_false_iff, decide_eq_false_iff_not, decide_eq_false_iff_not]
      by_cases htoken : d.token = token
      · exact Or.inr (hother d (mem_rowsOf.mpr ⟨hd, htoken⟩))
      · exact Or.inl htoken
    have hfound : ((after apnsUseSandbox mem db calls).db.devices.filter fun d =>
        d.token = token && d.userId = userId) = [] := by
      apply List.filter_eq_nil_iff.mpr
      intro d hd
      rw [hnobody d hd]
      decide
    have hkeep : ((after apnsUseSandbox mem db calls).db.devices.filter fun d =>
        !(d.token = token && d.userId = userId)) =
          (after apnsUseSandbox mem db calls).db.devices := by
      apply List.filter_eq_self.mpr
      intro d hd
      rw [hnobody d hd]
      rfl
    have hrun := @run_unregister _ apnsUseSandbox userId token t hwork ht
    rw [hfound, hkeep] at hrun
    rw [hnext, answerOf, hrun]
    exact ⟨rfl, rfl⟩
  · intro a r rowId insertedAt reassignedAt hargs hplatform hfresh
    exact register_accepts hwork hargs (htells r.token) hplatform hfresh

/-- A voip token, registered again without its kind by another account. -/
def handOver : List DeviceCall :=
  let first : DeviceArguments := ⟨"ann", codes "apns", codes "t", .absent, .given .voip, .absent⟩
  let second : DeviceArguments := ⟨"bob", codes "apns", codes "t", .absent, .absent, .absent⟩
  [.register first "d1" 1 2, .register second "d2" 3 4]

theorem omitted_kind_stays :
    Tells false (lifeOf false "t" ⟨{}, {}, none⟩ [] handOver)
      (rowsOf "t" (after false {} {} handOver).db) :=
  (devices_tell_their_lives false {} {} rfl handOver).2.1 "t"

end AikoIsland.DeviceRoster
