import AikoIsland.Reactions
import AikoIsland.Serial

/-!
# Reactions as kept evidence

Calls of `add_reaction` and `remove_reaction` are served one at a time. A row is
created by an add and lives until a remove that names it. Meanwhile its envelope
is the first one that came: the row's own, or else that of the first signed add.

The cap counts a user's distinct emoji on a message before a new one is inserted.
An add that names a row in the table is never counted, so it succeeds at the cap
too; it answers that nothing new was created.
-/
namespace AikoIsland.ReactionRows
open Tables Gateway Messages WriterLock Reactions

/-! ## Calls -/

inductive ReactionCall where
  | add (userId messageId : String) (emoji : Option PyStr) (origin : Option Origin) (now : Time)
  | remove (userId messageId : String) (emoji : Option PyStr)
  deriving DecidableEq, Repr

namespace ReactionCall

def body : ReactionCall → Body Bool
  | add userId messageId emoji origin now => addReaction userId messageId emoji origin now
  | remove userId messageId emoji => removeReaction userId messageId emoji

/-- The envelope that the call brings for the row with this key. -/
def signature (key : String × String × String) : ReactionCall → Option Origin
  | add userId messageId emoji origin _ =>
      if messageId = key.1 ∧ userId = key.2.1 ∧ emoji = some (codes key.2.2) then origin else none
  | remove _ _ _ => none

def removes (key : String × String × String) : ReactionCall → Prop
  | add _ _ _ _ _ => False
  | remove userId messageId emoji =>
      messageId = key.1 ∧ userId = key.2.1 ∧ emoji = some (codes key.2.2)

end ReactionCall

def firstSignature (key : String × String × String) (calls : List ReactionCall) : Option Origin :=
  calls.findSome? (·.signature key)

/-- The island after the calls. -/
def after (db : Db) (mem : Memory) (calls : List ReactionCall) : Point Db Memory :=
  Request.serveAll (calls.map (·.body)) ⟨db, mem, none⟩

theorem after_append (db : Db) (mem : Memory) (calls later : List ReactionCall) :
    after db mem (calls ++ later) =
      Request.serveAll (later.map (·.body)) (after db mem calls) := by
  rw [after, List.map_append, Request.serveAll_append]
  rfl

theorem work_after (db : Db) (mem : Memory) (calls : List ReactionCall) :
    (after db mem calls).work = none :=
  Request.work_serveAll _ rfl

/-! ## What one call does -/

theorem validateEmoji_ok {emoji : Option PyStr} {s : PyStr} (h : validateEmoji emoji = .ok s) :
    emoji = some s := by
  cases emoji with
  | none => cases h
  | some t =>
      unfold validateEmoji at h
      dsimp only at h
      split_ifs at h
      exact congrArg some (Except.ok.inj h)

theorem reactionOf_isSome {m u e : String} {db : Db} :
    (reactionOf m u e db).isSome = true ↔ (m, u, e) ∈ db.reactions.map keyOf := by
  rw [reactionOf, List.find?_isSome, List.mem_map]
  simp only [decide_eq_true_eq]

/-- The result of an add and the tables it leaves. -/
inductive Added (u m : String) (emoji : Option PyStr) (origin : Option Origin) (now : Time)
    (db : Db) : Except Exn Bool → Db → Prop
  | invalid {e : Exn} : validateEmoji emoji = .error e → Added u m emoji origin now db (.error e) db
  | unbindable {s : PyStr} : validateEmoji emoji = .ok s → encode s = none →
      Added u m emoji origin now db (.error .unicodeEncodeError) db
  | held {s : PyStr} {e : String} : validateEmoji emoji = .ok s → encode s = some e →
      (m, u, e) ∈ db.reactions.map keyOf →
      Added u m emoji origin now db (.ok false) (upsertReaction ⟨m, u, e, origin, now⟩ db)
  | full {s : PyStr} {e : String} : validateEmoji emoji = .ok s → encode s = some e →
      (m, u, e) ∉ db.reactions.map keyOf →
      maxReactionsPerUserPerMessage ≤ distinctEmojis m u db →
      Added u m emoji origin now db (.error .reactionLimitExceeded) db
  | fresh {s : PyStr} {e : String} : validateEmoji emoji = .ok s → encode s = some e →
      (m, u, e) ∉ db.reactions.map keyOf →
      distinctEmojis m u db < maxReactionsPerUserPerMessage →
      Added u m emoji origin now db (.ok true)
        { db with reactions := db.reactions ++ [⟨m, u, e, origin, now⟩] }

section
variable {α : Type} {emoji : Option PyStr} {k : String → Body α} {x : Point Db Memory}

/-- Both calls begin with the check of the emoji and its way into a statement. -/
theorem run_invalid {e : Exn} (h : validateEmoji emoji = .error e) :
    (liftExcept (validateEmoji emoji) >>= fun s => bindText s >>= k).run x = (.error e, x) := by
  rw [h, Request.run_bind]
  rfl

theorem run_unbindable {s : PyStr} (h : validateEmoji emoji = .ok s) (hs : encode s = none) :
    (liftExcept (validateEmoji emoji) >>= fun s => bindText s >>= k).run x =
      (.error .unicodeEncodeError, x) := by
  rw [h, Request.run_bind]
  change (bindText s >>= k).run x = _
  rw [Request.run_bind, bindText, hs]
  rfl

theorem run_valid {s : PyStr} {e : String} (h : validateEmoji emoji = .ok s)
    (hs : encode s = some e) :
    (liftExcept (validateEmoji emoji) >>= fun s => bindText s >>= k).run x = (k e).run x := by
  rw [h, Request.run_bind]
  change (bindText s >>= k).run x = _
  rw [Request.run_bind, bindText, hs]
  rfl

end

/-- A session that began outside a transaction and committed. -/
theorem session_of_commit {α : Type} {r : Body α} {x : Point Db Memory} {result : Except Exn α}
    (f : Db → Db) (hx : x.work = none) (h : r.run x = (result, ⟨f x.view, x.mem, none⟩)) :
    r.session.run x = (result, { x with db := f x.db }) := by
  rw [Request.run_session, h, Point.view_of_none hx, Point.eq_mk_of_none hx]
  rfl

theorem added {u m : String} {emoji : Option PyStr} {origin : Option Origin} {now : Time}
    {x : Point Db Memory} (hx : x.work = none) :
    ∃ result db', (addReaction u m emoji origin now).session.run x =
        (result, { x with db := db' }) ∧
      Added u m emoji origin now x.db result db' := by
  have hview : x.view = x.db := Point.view_of_none hx
  cases hvalid : validateEmoji emoji with
  | error e => exact ⟨_, _, Request.run_session_same hx (run_invalid hvalid), Added.invalid hvalid⟩
  | ok s =>
      cases hencode : encode s with
      | none =>
          exact ⟨_, _, Request.run_session_same hx (run_unbindable hvalid hencode),
            Added.unbindable hvalid hencode⟩
      | some e =>
          by_cases hmem : (m, u, e) ∈ x.db.reactions.map keyOf
          · refine ⟨.ok false, upsertReaction ⟨m, u, e, origin, now⟩ x.db, ?_,
              Added.held hvalid hencode hmem⟩
            apply session_of_commit (upsertReaction ⟨m, u, e, origin, now⟩) hx
            obtain ⟨r, hr⟩ := Option.isSome_iff_exists.mp (reactionOf_isSome.mpr hmem)
            rw [← hview] at hr
            rw [addReaction, run_valid hvalid hencode, Request.run_bind, select, Request.run_query]
            dsimp only
            rw [hr]
            rfl
          · have hnone : reactionOf m u e x.db = none := by
              rw [← Option.not_isSome_iff_eq_none, reactionOf_isSome]
              exact hmem
            have hcount : (addReaction u m emoji origin now).run x =
                (if maxReactionsPerUserPerMessage ≤ distinctEmojis m u x.db then
                  throwExn .reactionLimitExceeded
                else do
                  execute (upsertReaction ⟨m, u, e, origin, now⟩) (fun _ => ()) .plain
                  commit
                  return true : Body Bool).run x := by
              rw [addReaction, run_valid hvalid hencode, Request.run_bind, select,
                Request.run_query, hview]
              dsimp only
              rw [hnone]
              dsimp only
              rw [Request.run_bind, select, Request.run_query, hview]
            by_cases hfull : maxReactionsPerUserPerMessage ≤ distinctEmojis m u x.db
            · rw [if_pos hfull] at hcount
              exact ⟨_, _, Request.run_session_same hx hcount, Added.full hvalid hencode hmem hfull⟩
            · rw [if_neg hfull] at hcount
              have hrun := session_of_commit (upsertReaction ⟨m, u, e, origin, now⟩) hx hcount
              have hroom : distinctEmojis m u x.db < maxReactionsPerUserPerMessage := by omega
              have hnew : keyOf ⟨m, u, e, origin, now⟩ ∉ x.db.reactions.map keyOf := hmem
              rw [upsertReaction, if_neg hnew] at hrun
              exact ⟨_, _, hrun, Added.fresh hvalid hencode hmem hroom⟩

/-- The result of a remove and the tables it leaves. -/
inductive Removed (u m : String) (emoji : Option PyStr) (db : Db) : Except Exn Bool → Db → Prop
  | invalid {e : Exn} : validateEmoji emoji = .error e → Removed u m emoji db (.error e) db
  | unbindable {s : PyStr} : validateEmoji emoji = .ok s → encode s = none →
      Removed u m emoji db (.error .unicodeEncodeError) db
  | done {s : PyStr} {e : String} (changed : Bool) : validateEmoji emoji = .ok s →
      encode s = some e → Removed u m emoji db (.ok changed) (deleteReaction m u e db)

theorem removed {u m : String} {emoji : Option PyStr} {x : Point Db Memory} (hx : x.work = none) :
    ∃ result db', (removeReaction u m emoji).session.run x = (result, { x with db := db' }) ∧
      Removed u m emoji x.db result db' := by
  cases hvalid : validateEmoji emoji with
  | error e => exact ⟨_, _, Request.run_session_same hx (run_invalid hvalid), Removed.invalid hvalid⟩
  | ok s =>
      cases hencode : encode s with
      | none =>
          exact ⟨_, _, Request.run_session_same hx (run_unbindable hvalid hencode),
            Removed.unbindable hvalid hencode⟩
      | some e =>
          have hrun : (removeReaction u m emoji).run x =
              (.ok (decide (0 < (x.view.reactions.filter fun r => keyOf r = (m, u, e)).length)),
                ⟨deleteReaction m u e x.view, x.mem, none⟩) := by
            rw [removeReaction, run_valid hvalid hencode]
            rfl
          exact ⟨_, _, session_of_commit (deleteReaction m u e) hx hrun,
            Removed.done _ hvalid hencode⟩

/-! ## The table -/

structure Kept (db : Db) : Prop where
  keys : (db.reactions.map keyOf).Nodup
  cap : ∀ u m, distinctEmojis m u db ≤ maxReactionsPerUserPerMessage
  valid : ∀ r ∈ db.reactions, validateEmoji (some (codes r.emoji)) = .ok (codes r.emoji) ∧
    encode (codes r.emoji) = some r.emoji

/-- The count of emoji reads the keys only. -/
theorem distinctEmojis_eq (u m : String) (db : Db) :
    distinctEmojis m u db = (((db.reactions.map keyOf).filter fun k =>
      k.1 = m && k.2.1 = u).map (·.2.2)).toFinset.card := by
  rw [distinctEmojis, List.card_toFinset, List.filter_map, List.map_map]
  rfl

theorem keys_upsert_held {row : MessageReaction} {db : Db}
    (h : keyOf row ∈ db.reactions.map keyOf) :
    (upsertReaction row db).reactions.map keyOf = db.reactions.map keyOf := by
  rw [upsertReaction, if_pos h]
  cases row.origin with
  | none => rfl
  | some o =>
      dsimp only
      rw [List.map_map]
      apply List.map_congr_left
      intro r _
      dsimp only [Function.comp_apply]
      split_ifs <;> rfl

theorem mem_upsert_held {row r' : MessageReaction} {db : Db}
    (h : keyOf row ∈ db.reactions.map keyOf) (hr' : r' ∈ (upsertReaction row db).reactions) :
    ∃ r ∈ db.reactions, r'.emoji = r.emoji := by
  have hkeys := keys_upsert_held h
  have hin : keyOf r' ∈ db.reactions.map keyOf := by
    rw [← hkeys]
    exact List.mem_map_of_mem hr'
  obtain ⟨r, hr, hkey⟩ := List.mem_map.mp hin
  exact ⟨r, hr, (congrArg (·.2.2) hkey).symm⟩

theorem valid_of_text {s : PyStr} {emoji : Option PyStr} {e : String}
    (hvalid : validateEmoji emoji = .ok s) (hencode : encode s = some e) :
    emoji = some (codes e) ∧ validateEmoji (some (codes e)) = .ok (codes e) ∧
      encode (codes e) = some e := by
  have hs := codes_encode hencode
  have hemoji := validateEmoji_ok hvalid
  rw [hemoji] at hvalid
  rw [hs]
  exact ⟨hemoji, hvalid, hencode⟩

theorem distinctEmojis_append (u m : String) (row : MessageReaction) (db : Db) :
    distinctEmojis m u { db with reactions := db.reactions ++ [row] } ≤
      if row.messageId = m ∧ row.userId = u then distinctEmojis m u db + 1
      else distinctEmojis m u db := by
  rw [distinctEmojis_eq, distinctEmojis_eq]
  dsimp only
  rw [List.map_append, List.filter_append, List.map_append, List.toFinset_append]
  split_ifs with hown
  · have hone : [row].map keyOf = [keyOf row] := rfl
    rw [hone, List.filter_singleton]
    have hcard := Finset.card_union_le (((db.reactions.map keyOf).filter fun k =>
      k.1 = m && k.2.1 = u).map (·.2.2)).toFinset [row.emoji].toFinset
    simpa [keyOf, hown.1, hown.2] using hcard
  · have hnone : ([row].map keyOf).filter (fun k => k.1 = m && k.2.1 = u) = [] := by
      simpa [keyOf] using hown
    rw [hnone, List.map_nil, List.toFinset_nil, Finset.union_empty]

theorem Kept.added {u m : String} {emoji : Option PyStr} {origin : Option Origin} {now : Time}
    {db db' : Db} {result : Except Exn Bool} (hkept : Kept db)
    (h : Added u m emoji origin now db result db') : Kept db' := by
  cases h with
  | invalid _ => exact hkept
  | unbindable _ _ => exact hkept
  | full _ _ _ _ => exact hkept
  | @held s e hvalid hencode hmem =>
      have hmem : keyOf ⟨m, u, e, origin, now⟩ ∈ db.reactions.map keyOf := hmem
      have hkeys := keys_upsert_held hmem
      constructor
      · rw [hkeys]
        exact hkept.keys
      · intro u' m'
        rw [distinctEmojis_eq, hkeys, ← distinctEmojis_eq]
        exact hkept.cap u' m'
      · intro r' hr'
        obtain ⟨r, hr, hsame⟩ := mem_upsert_held hmem hr'
        rw [hsame]
        exact hkept.valid r hr
  | @fresh s e hvalid hencode hnew hroom =>
      constructor
      · dsimp only
        rw [List.map_append]
        apply List.Nodup.append hkept.keys (List.nodup_singleton _)
        simpa [keyOf] using hnew
      · intro u' m'
        have hbound := distinctEmojis_append u' m' ⟨m, u, e, origin, now⟩ db
        have hcap := hkept.cap u' m'
        apply hbound.trans
        split_ifs with hown
        · obtain ⟨rfl, rfl⟩ := hown
          exact hroom
        · exact hcap
      · intro r hr
        cases List.mem_append.mp hr with
        | inl hold => exact hkept.valid r hold
        | inr hrow =>
            rw [List.mem_singleton.mp hrow]
            exact (valid_of_text hvalid hencode).2

theorem Kept.removed {u m : String} {emoji : Option PyStr} {db db' : Db}
    {result : Except Exn Bool} (hkept : Kept db) (h : Removed u m emoji db result db') :
    Kept db' := by
  cases h with
  | invalid _ => exact hkept
  | unbindable _ _ => exact hkept
  | @done s e _ _ _ =>
      have hsub : ((deleteReaction m u e db).reactions).Sublist db.reactions :=
        List.filter_sublist
      constructor
      · exact hkept.keys.sublist (hsub.map keyOf)
      · intro u' m'
        apply le_trans _ (hkept.cap u' m')
        rw [distinctEmojis_eq, distinctEmojis_eq]
        apply Finset.card_le_card
        intro e he
        rw [List.mem_toFinset] at he ⊢
        exact (((hsub.map keyOf).filter _).map _).subset he
      · intro r hr
        exact hkept.valid r (hsub.subset hr)

/-! ## A row through the calls -/

/-- The row with the first envelope, its own or the one brought. -/
def signed (r : MessageReaction) (brought : Option Origin) : MessageReaction :=
  { r with origin := r.origin.orElse fun _ => brought }

theorem signed_none (r : MessageReaction) : signed r none = r := by
  cases r with
  | mk m u e origin now => cases origin <;> rfl

theorem keyOf_signed (r : MessageReaction) (o : Option Origin) : keyOf (signed r o) = keyOf r := rfl

theorem signed_signed (r : MessageReaction) (o o' : Option Origin) :
    signed (signed r o) o' = signed r (o.orElse fun _ => o') := by
  cases r with
  | mk m u e origin now => cases origin <;> rfl

theorem mem_upsert {row r : MessageReaction} {db : Db} (hr : r ∈ db.reactions)
    (hheld : keyOf row ∈ db.reactions.map keyOf) :
    signed r (if keyOf r = keyOf row then row.origin else none) ∈
      (upsertReaction row db).reactions := by
  rw [upsertReaction, if_pos hheld]
  cases horigin : row.origin with
  | none =>
      rw [ite_self, signed_none]
      exact hr
  | some o =>
      dsimp only
      apply List.mem_map.mpr
      refine ⟨r, hr, ?_⟩
      by_cases hkey : keyOf r = keyOf row
      · rw [if_pos hkey]
        cases hown : r.origin with
        | none =>
            rw [if_pos ⟨hkey, rfl⟩, signed, hown]
            rfl
        | some o' =>
            rw [if_neg (fun h => by cases h.2), signed, hown]
            cases r with
            | mk m u e origin now =>
                dsimp only at hown
                rw [hown]
                rfl
      · rw [if_neg (fun h => hkey h.1), if_neg hkey, signed_none]

/-- A call with the text of an emoji names the rows with its own key. -/
theorem names_iff {u m e : String} {r : MessageReaction}
    (hencode : encode (codes e) = some e) (hr : encode (codes r.emoji) = some r.emoji) :
    (m = (keyOf r).1 ∧ u = (keyOf r).2.1 ∧ some (codes e) = some (codes (keyOf r).2.2)) ↔
      keyOf r = (m, u, e) := by
  constructor
  · intro h
    obtain ⟨hm, hu, he⟩ := h
    have htext : codes e = codes r.emoji := Option.some.inj he
    have he : e = r.emoji := by
      rw [htext, hr] at hencode
      exact (Option.some.inj hencode).symm
    rw [hm, hu, he]
    rfl
  · intro h
    rw [h]
    exact ⟨rfl, rfl, rfl⟩

theorem signature_add {u m e : String} {emoji : Option PyStr} {s : PyStr} {origin : Option Origin}
    {now : Time} {r : MessageReaction} (hok : validateEmoji emoji = .ok s) (hs : encode s = some e)
    (hr : encode (codes r.emoji) = some r.emoji) :
    (ReactionCall.add u m emoji origin now).signature (keyOf r) =
      if keyOf r = (m, u, e) then origin else none := by
  obtain ⟨hemoji, _, hencode⟩ := valid_of_text hok hs
  rw [ReactionCall.signature, hemoji]
  exact if_congr (names_iff hencode hr) rfl rfl

theorem row_added {u m : String} {emoji : Option PyStr} {origin : Option Origin} {now : Time}
    {db db' : Db} {result : Except Exn Bool} (hkept : Kept db)
    (h : Added u m emoji origin now db result db') {r : MessageReaction} (hr : r ∈ db.reactions) :
    signed r ((ReactionCall.add u m emoji origin now).signature (keyOf r)) ∈ db'.reactions := by
  obtain ⟨hvalid, hencode⟩ := hkept.valid r hr
  have hout : emoji ≠ some (codes r.emoji) →
      (ReactionCall.add u m emoji origin now).signature (keyOf r) = none := by
    intro hne
    exact if_neg fun hnames => hne hnames.2.2
  cases h with
  | invalid hinvalid =>
      rw [hout, signed_none]
      · exact hr
      · intro heq
        rw [heq, hvalid] at hinvalid
        cases hinvalid
  | unbindable hok hnone =>
      rw [hout, signed_none]
      · exact hr
      · intro heq
        rw [heq, hvalid] at hok
        rw [← Except.ok.inj hok, hencode] at hnone
        cases hnone
  | held hok hs hmem =>
      rw [signature_add hok hs hencode]
      exact mem_upsert hr hmem
  | full hok hs hnew _ =>
      have hother : keyOf r ≠ (m, u, _) := fun heq => hnew (heq ▸ List.mem_map_of_mem hr)
      rw [signature_add hok hs hencode, if_neg hother, signed_none]
      exact hr
  | fresh hok hs hnew _ =>
      have hother : keyOf r ≠ (m, u, _) := fun heq => hnew (heq ▸ List.mem_map_of_mem hr)
      rw [signature_add hok hs hencode, if_neg hother, signed_none]
      exact List.mem_append_left _ hr

theorem row_removed {u m : String} {emoji : Option PyStr} {db db' : Db}
    {result : Except Exn Bool} (hkept : Kept db) (h : Removed u m emoji db result db')
    {r : MessageReaction} (hr : r ∈ db.reactions)
    (hnot : ¬ (ReactionCall.remove u m emoji).removes (keyOf r)) : r ∈ db'.reactions := by
  cases h with
  | invalid _ => exact hr
  | unbindable _ _ => exact hr
  | done _ hok hs =>
      obtain ⟨hemoji, _, hencode⟩ := valid_of_text hok hs
      apply List.mem_filter.mpr
      constructor
      · exact hr
      · rw [decide_eq_true_eq]
        intro hkey
        apply hnot
        rw [ReactionCall.removes, hemoji]
        exact (names_iff hencode (hkept.valid r hr).2).mpr hkey

/-- One call keeps the table's law, and every row that it does not remove. -/
theorem call_keeps (c : ReactionCall) {x : Point Db Memory} (hx : x.work = none)
    (hkept : Kept x.db) :
    Kept (c.body.session.run x).2.db ∧
      ∀ r ∈ x.db.reactions, ¬ c.removes (keyOf r) →
        signed r (c.signature (keyOf r)) ∈ (c.body.session.run x).2.db.reactions := by
  cases c with
  | add u m emoji origin now =>
      obtain ⟨result, db', hrun, hadded⟩ := @added u m emoji origin now x hx
      rw [ReactionCall.body, hrun]
      exact ⟨hkept.added hadded, fun r hr _ => row_added hkept hadded hr⟩
  | remove u m emoji =>
      obtain ⟨result, db', hrun, hremoved⟩ := @removed u m emoji x hx
      rw [ReactionCall.body, hrun]
      constructor
      · exact hkept.removed hremoved
      · intro r hr hnot
        rw [ReactionCall.signature, signed_none]
        exact row_removed hkept hremoved hr hnot

theorem kept_serveAll (calls : List ReactionCall) {x : Point Db Memory} (hx : x.work = none)
    (hkept : Kept x.db) : Kept (Request.serveAll (calls.map (·.body)) x).db := by
  apply Request.serveAll_keeps hx (P := fun y => Kept y.db) hkept
  intro r hr y hy hkept
  obtain ⟨c, _, rfl⟩ := List.mem_map.mp hr
  exact (call_keeps c hy hkept).1

/-- A row that no call removes has the first envelope at the end. -/
theorem row_serveAll {r : MessageReaction} {calls : List ReactionCall} {x : Point Db Memory}
    (hx : x.work = none) (hkept : Kept x.db) (hr : r ∈ x.db.reactions)
    (hnot : ∀ c ∈ calls, ¬ c.removes (keyOf r)) :
    signed r (firstSignature (keyOf r) calls) ∈
      (Request.serveAll (calls.map (·.body)) x).db.reactions := by
  induction calls generalizing r x with
  | nil =>
      rw [firstSignature, List.findSome?_nil, signed_none]
      exact hr
  | cons c calls ih =>
      obtain ⟨hkept', hrow⟩ := call_keeps c hx hkept
      have hr' := hrow r hr (hnot c List.mem_cons_self)
      have hrest := ih (Request.work_session c.body x) hkept' hr' (by
        intro c' hc'
        rw [keyOf_signed]
        exact hnot c' (List.mem_cons_of_mem c hc'))
      rw [keyOf_signed, signed_signed] at hrest
      have hfirst : firstSignature (keyOf r) (c :: calls) =
          (c.signature (keyOf r)).orElse fun _ => firstSignature (keyOf r) calls := by
        rw [firstSignature, List.findSome?_cons]
        cases c.signature (keyOf r) <;> rfl
      rw [hfirst]
      exact hrest

/-! ## Adding again -/

/-- An add that names a row in the table answers that nothing new came, and keeps the keys. -/
theorem add_of_held {r : MessageReaction} (origin : Option Origin) (now : Time)
    {x : Point Db Memory} (hx : x.work = none) (hkept : Kept x.db) (hr : r ∈ x.db.reactions) :
    (addReaction r.userId r.messageId (some (codes r.emoji)) origin now).session.run x =
      (.ok false, { x with db := upsertReaction ⟨r.messageId, r.userId, r.emoji, origin, now⟩ x.db }) := by
  obtain ⟨hvalid, hencode⟩ := hkept.valid r hr
  have hmem : (r.messageId, r.userId, r.emoji) ∈ x.db.reactions.map keyOf :=
    List.mem_map.mpr ⟨r, hr, rfl⟩
  obtain ⟨result, db', hrun, hadded⟩ :=
    @added r.userId r.messageId (some (codes r.emoji)) origin now x hx
  rw [hrun]
  cases hadded with
  | invalid hinvalid =>
      rw [hvalid] at hinvalid
      cases hinvalid
  | unbindable hok hnone =>
      rw [hvalid] at hok
      rw [← Except.ok.inj hok, hencode] at hnone
      cases hnone
  | held hok hs _ =>
      rw [hvalid] at hok
      rw [← Except.ok.inj hok, hencode] at hs
      rw [Option.some.inj hs]
  | full hok hs hnew _ =>
      rw [hvalid] at hok
      rw [← Except.ok.inj hok, hencode] at hs
      rw [Option.some.inj hs] at hmem
      exact absurd hmem hnew
  | fresh hok hs hnew _ =>
      rw [hvalid] at hok
      rw [← Except.ok.inj hok, hencode] at hs
      rw [Option.some.inj hs] at hmem
      exact absurd hmem hnew

theorem upsert_upsert (row row' : MessageReaction) (db : Db) (hkey : keyOf row' = keyOf row)
    (horigin : row'.origin = row.origin) :
    upsertReaction row' (upsertReaction row db) = upsertReaction row db := by
  have hmem : keyOf row ∈ (upsertReaction row db).reactions.map keyOf := by
    by_cases hheld : keyOf row ∈ db.reactions.map keyOf
    · rw [keys_upsert_held hheld]
      exact hheld
    · rw [upsertReaction, if_neg hheld, List.map_append]
      exact List.mem_append_right _ List.mem_cons_self
  have hsigned : ∀ o, row.origin = some o → ∀ r ∈ (upsertReaction row db).reactions,
      ¬ (keyOf r = keyOf row ∧ r.origin = none) := by
    intro o ho r hr hbad
    by_cases hheld : keyOf row ∈ db.reactions.map keyOf
    · rw [upsertReaction, if_pos hheld, ho] at hr
      obtain ⟨r₀, _, rfl⟩ := List.mem_map.mp hr
      split_ifs at hbad with hcase
      · cases hbad.2
      · exact hcase hbad
    · rw [upsertReaction, if_neg hheld] at hr
      cases List.mem_append.mp hr with
      | inl hold => exact hheld (hbad.1 ▸ List.mem_map_of_mem hold)
      | inr hrow =>
          rw [List.mem_singleton.mp hrow, ho] at hbad
          cases hbad.2
  rw [upsertReaction, hkey, if_pos hmem, horigin]
  cases ho : row.origin with
  | none => rfl
  | some o =>
      dsimp only
      have hmap : (upsertReaction row db).reactions.map (fun r =>
          if keyOf r = keyOf row ∧ r.origin = none then { r with origin := some o } else r) =
            (upsertReaction row db).reactions := by
        conv_rhs => rw [← List.map_id (upsertReaction row db).reactions]
        apply List.map_congr_left
        intro r hr
        exact if_neg (hsigned o ho r hr)
      rw [hmap]

/-- After an add that succeeded, the same add again changes nothing. -/
theorem add_again {u m : String} {emoji : Option PyStr} {origin : Option Origin} {now : Time}
    {changed : Bool} {x : Point Db Memory} (hx : x.work = none) (hkept : Kept x.db)
    (h : ((addReaction u m emoji origin now).session.run x).1 = .ok changed) (now' : Time) :
    (addReaction u m emoji origin now').session.run
        ((addReaction u m emoji origin now).session.run x).2 =
      (.ok false, ((addReaction u m emoji origin now).session.run x).2) := by
  obtain ⟨result, db', hrun, hadded⟩ := @added u m emoji origin now x hx
  have hkept' := hkept.added hadded
  rw [hrun] at h ⊢
  dsimp only at h ⊢
  rw [h] at hadded
  -- either way the tables are those of the upsert
  obtain ⟨e, hemoji, hdb, r, hr, hkey⟩ : ∃ e, emoji = some (codes e) ∧
      db' = upsertReaction ⟨m, u, e, origin, now⟩ x.db ∧ ∃ r ∈ db'.reactions,
        keyOf r = (m, u, e) := by
    cases hadded with
    | @held s e hok hs hmem =>
        have hmem' : keyOf ⟨m, u, e, origin, now⟩ ∈ x.db.reactions.map keyOf := hmem
        rw [← keys_upsert_held hmem'] at hmem
        obtain ⟨r, hr, hkey⟩ := List.mem_map.mp hmem
        exact ⟨e, (valid_of_text hok hs).1, rfl, r, hr, hkey⟩
    | @fresh s e hok hs hnew _ =>
        have hnew' : keyOf ⟨m, u, e, origin, now⟩ ∉ x.db.reactions.map keyOf := hnew
        refine ⟨e, (valid_of_text hok hs).1, ?_, ⟨m, u, e, origin, now⟩, ?_, rfl⟩
        · rw [upsertReaction, if_neg hnew']
        · exact List.mem_append_right _ List.mem_cons_self
  obtain ⟨rfl, rfl, rfl⟩ : r.messageId = m ∧ r.userId = u ∧ r.emoji = e := by
    simpa [keyOf] using hkey
  have hwork : ({ x with db := db' } : Point Db Memory).work = none := hx
  rw [hemoji, add_of_held origin now' hwork hkept' hr]
  dsimp only
  rw [hdb, upsert_upsert ⟨r.messageId, r.userId, r.emoji, origin, now⟩
    ⟨r.messageId, r.userId, r.emoji, origin, now'⟩ x.db rfl rfl]

/-! ## The result -/

/-- After any calls, one row a key, the cap held, each row's envelope the first that came while it
lived, and adds that name a row succeed and repeat. -/
theorem reactions_keep_the_first_signature (db : Db) (mem : Memory) (hkept : Kept db)
    (calls : List ReactionCall) :
    ((after db mem calls).db.reactions.map keyOf).Nodup ∧
    (∀ u m, distinctEmojis m u (after db mem calls).db ≤ maxReactionsPerUserPerMessage) ∧
    (∀ r ∈ (after db mem calls).db.reactions, ∀ later,
      (∀ c ∈ later, ¬ c.removes (keyOf r)) →
      { r with origin := r.origin.orElse fun _ => firstSignature (keyOf r) later } ∈
        (after db mem (calls ++ later)).db.reactions) ∧
    (∀ r ∈ (after db mem calls).db.reactions, ∀ origin now,
      ((addReaction r.userId r.messageId (some (codes r.emoji)) origin now).session.run
        (after db mem calls)).1 = .ok false ∧
      ((addReaction r.userId r.messageId (some (codes r.emoji)) origin now).session.run
        (after db mem calls)).2.db.reactions.map keyOf =
          (after db mem calls).db.reactions.map keyOf) ∧
    ∀ u m emoji origin now changed, ∀ x, (addReaction u m emoji origin now).session.run
        (after db mem calls) = (.ok changed, x) →
      ∀ now', (addReaction u m emoji origin now').session.run x = (.ok false, x) := by
  have hwork : (after db mem calls).work = none := work_after db mem calls
  have hnow : Kept (after db mem calls).db := kept_serveAll calls rfl hkept
  refine ⟨hnow.keys, hnow.cap, ?_, ?_, ?_⟩
  · intro r hr later hnot
    rw [after_append]
    exact row_serveAll hwork hnow hr hnot
  · intro r hr origin now
    have hmem : keyOf ⟨r.messageId, r.userId, r.emoji, origin, now⟩ ∈
        (after db mem calls).db.reactions.map keyOf := List.mem_map.mpr ⟨r, hr, rfl⟩
    rw [add_of_held origin now hwork hnow hr]
    exact ⟨rfl, keys_upsert_held hmem⟩
  · intro u m emoji origin now changed x hrun now'
    have hfirst : ((addReaction u m emoji origin now).session.run (after db mem calls)).1 =
        .ok changed := by rw [hrun]
    have hagain := add_again hwork hnow hfirst now'
    rw [hrun] at hagain
    exact hagain

/-- Unsigned, then signed twice: the first envelope stays. -/
theorem first_of_two_signatures_stays :
    ({ messageId := "m", userId := "u", emoji := "+", origin := some ⟨"pk", 1, "s1"⟩,
        createdAt := 1 } : MessageReaction) ∈
      (after {} {} ([.add "u" "m" (some [43]) none 1] ++
        [.add "u" "m" (some [43]) (some ⟨"pk", 1, "s1"⟩) 2,
          .add "u" "m" (some [43]) (some ⟨"pk", 1, "s2"⟩) 3])).db.reactions := by
  have hempty : Kept {} := by
    constructor
    · exact List.nodup_nil
    · intro u m
      exact Nat.zero_le _
    · intro r hr
      cases hr
  have hrow : ({ messageId := "m", userId := "u", emoji := "+", createdAt := 1 } :
      MessageReaction) ∈ (after {} {} [.add "u" "m" (some [43]) none 1]).db.reactions := by
    decide +kernel
  exact (reactions_keep_the_first_signature {} {} hempty _).2.2.1 _ hrow _ (by simp [ReactionCall.removes])

end AikoIsland.ReactionRows
