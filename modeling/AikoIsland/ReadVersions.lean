import AikoIsland.Publishing
import AikoIsland.ReadPositions

/-!
# Read positions are compare-and-swap

Any number of `set_positions` calls by any devices of any users, with membership
changes, sockets and bus messages, interleaved statement by statement. Every
change of a stored position is one step of its version by an entry that named
the version before; a reply describes the row at the end of its own transaction.

A call holds the writer lock from its first statement that writes to its commit,
so its statements and their read-backs are one function of the store that the
first of them found. An entry touches the row of its channel only, and the
channels of a call are distinct.
-/
namespace AikoIsland.ReadVersions
open Tables Gateway WriterLock RelyGuarantee Footprint Publishing
open Memberships Messages Realtime ReadPositions

/-! ## One entry -/

/-- The version of a stored position; no row is version 0. -/
def version (held : Option (String × ℤ)) : ℤ := (held.map (·.2)).getD 0

theorem codes_injective {s t : String} (h : codes s = codes t) : s = t := by
  have hinj : Function.Injective Char.toNat := fun a b hab => Char.toNat_inj.mp hab
  exact String.toList_inj.mp (List.map_injective_iff.mpr hinj h)

section
variable {userId channelId u ch : String} {e : ValidEntry} {now : Time} {db : Db}

theorem stored_eq_none : stored userId channelId db = none ↔
    ∀ r ∈ db.readPositions, positionKey userId channelId r = false := by
  simp [stored, List.find?_eq_none]

/-- A position that is appended is found under its own key only. -/
theorem stored_append (r : ChannelReadPosition) :
    stored u ch { db with readPositions := db.readPositions ++ [r] } =
      match stored u ch db with
      | some held => some held
      | none => if positionKey u ch r then some (r.lastRead, r.seq) else none := by
  simp only [stored, List.find?_append]
  cases db.readPositions.find? (positionKey u ch) with
  | some old => rfl
  | none =>
      by_cases hkey : positionKey u ch r = true
      · simp [hkey]
      · simp [hkey]

/-- An UPDATE that keeps the keys changes what is found, not whether. -/
theorem stored_map {g : ChannelReadPosition → ChannelReadPosition}
    (hg : ∀ r, positionKey u ch (g r) = positionKey u ch r) :
    stored u ch { db with readPositions := db.readPositions.map g } =
      (db.readPositions.find? (positionKey u ch)).map fun r => ((g r).lastRead, (g r).seq) := by
  simp [stored, List.find?_map, Function.comp_def, hg]

theorem readableChannel_applyEntry (u c : String) :
    (applyEntry userId channelId e now db).readableChannel u c = db.readableChannel u c := by
  unfold applyEntry insertPosition swapPosition
  split_ifs <;> rfl

/-- Without read access the statement changes nothing. -/
theorem applyEntry_of_unreadable (h : db.readableChannel userId channelId = none) :
    applyEntry userId channelId e now db = db := by
  unfold applyEntry insertPosition swapPosition
  simp [h]

/-- The statement touches the row of its user and channel only. -/
theorem stored_applyEntry_other (h : ¬(u = userId ∧ ch = channelId)) :
    stored u ch (applyEntry userId channelId e now db) = stored u ch db := by
  unfold applyEntry insertPosition swapPosition
  split_ifs
  · rw [stored_append]
    have hkey : positionKey u ch ⟨userId, channelId, e.lastRead, 1, now⟩ = false := by
      simp only [positionKey, Bool.and_eq_false_iff, decide_eq_false_iff_not]
      tauto
    cases stored u ch db <;> simp [hkey]
  · rfl
  · rw [stored_map fun r => by split_ifs <;> rfl]
    unfold stored
    cases hfound : db.readPositions.find? (positionKey u ch) with
    | none => rfl
    | some r =>
        have hkey : positionKey u ch r = true := List.find?_some hfound
        have hother : positionKey userId channelId r = false := by
          simp only [positionKey, Bool.and_eq_true, decide_eq_true_eq] at hkey
          simp only [positionKey, Bool.and_eq_false_iff, decide_eq_false_iff_not]
          rw [hkey.1, hkey.2]
          tauto
        simp [hother]
  · rfl

/-- The statement leaves the row alone, or the row was at the entry's base and is one further. -/
theorem stored_applyEntry :
    stored userId channelId (applyEntry userId channelId e now db) = stored userId channelId db ∨
      e.baseSeq = version (stored userId channelId db) ∧
        stored userId channelId (applyEntry userId channelId e now db) =
          some (e.lastRead, e.baseSeq + 1) := by
  unfold applyEntry insertPosition swapPosition
  split_ifs with hbase hnew hread
  · right
    have hnone : stored userId channelId db = none := by
      rw [stored_eq_none]
      simp only [Bool.and_eq_true, Bool.not_eq_true', List.any_eq_false] at hnew
      intro r hr
      simpa using hnew.2 r hr
    rw [stored_append, hnone]
    simp [positionKey, version, hbase]
  · left
    rfl
  · rw [stored_map fun r => by split_ifs <;> rfl]
    unfold stored
    cases hfound : db.readPositions.find? (positionKey userId channelId) with
    | none => exact Or.inl rfl
    | some r =>
        have hkey : positionKey userId channelId r = true := List.find?_some hfound
        by_cases hseq : r.seq = e.baseSeq
        · right
          simp [hkey, hseq, version]
        · left
          simp [hkey, hseq]
  · left
    rfl

end

/-! ## The entries of one call -/

/-- From `w` the entries lead to `w'` with these results, each statement taken in a store
that satisfies `C`. -/
inductive Ran (C : String → ValidEntry → Db → Prop) (userId : String) (now : Time) :
    List ValidEntry → Db → List (PyStr × EntryResult) → Db → Prop
  | nil (w : Db) : Ran C userId now [] w [] w
  | cons {e : ValidEntry} {es : List ValidEntry} {channelId : String} {w w' : Db}
      {results : List (PyStr × EntryResult)} (hkey : codes channelId = e.channelId)
      (hmet : C channelId e w)
      (h : Ran C userId now es (applyEntry userId channelId e now w) results w') :
      Ran C userId now (e :: es) w ((e.channelId,
        resultOf e (readBack userId channelId (applyEntry userId channelId e now w))) :: results) w'

/-- What the reply to one entry says about its channel, from before the call to its end. -/
structure Answers (userId : String) (channelId : PyStr) (lastRead : PyStr) (baseSeq : ℤ)
    (r : EntryResult) (a b : Db) : Prop where
  channel : ∃ ch, codes ch = channelId ∧
    (r.outcome = .skipped → stored userId ch b = stored userId ch a) ∧
    (r.outcome ≠ .skipped → r.lastRead = (stored userId ch b).map (·.1) ∧
      r.seq = some (version (stored userId ch b)) ∧
      (r.outcome = .applied ↔
        ∃ text, codes text = lastRead ∧ stored userId ch b = some (text, baseSeq + 1)))

section
variable {C : String → ValidEntry → Db → Prop} {userId u ch : String} {now : Time}
  {es : List ValidEntry} {w w' : Db} {results : List (PyStr × EntryResult)}

/-- Rows of other users, and of channels that no entry names, stay. -/
theorem Ran.unchanged (h : Ran C userId now es w results w')
    (hother : u = userId → ∀ e ∈ es, e.channelId ≠ codes ch) :
    stored u ch w' = stored u ch w := by
  induction h with
  | nil w => rfl
  | @cons e es channelId w w' results hkey _ h ih =>
      rw [ih fun hu e' he' => hother hu e' (List.mem_cons_of_mem _ he')]
      apply stored_applyEntry_other
      rintro ⟨hu, rfl⟩
      exact hother hu e List.mem_cons_self hkey.symm

/-- One transaction moves a version by one at most, for an entry that named it. -/
theorem Ran.swaps (h : Ran C userId now es w results w')
    (hnodup : (es.map (·.channelId)).Nodup) (u ch : String) :
    stored u ch w' = stored u ch w ∨ ∃ e ∈ es, u = userId ∧ e.channelId = codes ch ∧
      e.baseSeq = version (stored u ch w) ∧
      stored u ch w' = some (e.lastRead, e.baseSeq + 1) := by
  induction h with
  | nil w => exact Or.inl rfl
  | @cons e es channelId w w' results hkey _ h ih =>
      rw [List.map_cons, List.nodup_cons] at hnodup
      by_cases hhere : u = userId ∧ ch = channelId
      · obtain ⟨rfl, rfl⟩ := hhere
        have hrest : stored u ch w' = stored u ch (applyEntry u ch e now w) := by
          apply h.unchanged
          intro _ e' he' hsame
          apply hnodup.1
          rw [← hkey, ← hsame]
          exact List.mem_map_of_mem he'
        rw [hrest]
        have hself : stored u ch (applyEntry u ch e now w) = stored u ch w ∨
            e.baseSeq = version (stored u ch w) ∧
              stored u ch (applyEntry u ch e now w) = some (e.lastRead, e.baseSeq + 1) :=
          stored_applyEntry
        rcases hself with hsame | ⟨hbase, hnew⟩
        · exact Or.inl hsame
        · exact Or.inr ⟨e, List.mem_cons_self, rfl, hkey.symm, hbase, hnew⟩
      · have hhead : stored u ch (applyEntry userId channelId e now w) = stored u ch w :=
          stored_applyEntry_other hhere
        rw [← hhead]
        rcases ih hnodup.2 with hsame | ⟨e', he', hu, hch, hbase, hnew⟩
        · exact Or.inl hsame
        · exact Or.inr ⟨e', List.mem_cons_of_mem _ he', hu, hch, hbase, hnew⟩

/-- The result of an entry, read back right after its statement, when the call started at `a`. -/
theorem answers_resultOf {e : ValidEntry} {channelId : String} {a w₁ : Db}
    (hkey : codes channelId = e.channelId) (hw₁ : w₁ = applyEntry userId channelId e now w)
    (hstart : stored userId channelId w = stored userId channelId a)
    (hend : stored userId channelId w' = stored userId channelId w₁) :
    Answers userId e.channelId (codes e.lastRead) e.baseSeq
      (resultOf e (readBack userId channelId w₁)) a w' := by
  refine ⟨channelId, hkey, ?_⟩
  rw [hend]
  unfold readBack
  cases hread : w₁.readableChannel userId channelId with
  | none =>
      have hunread : w.readableChannel userId channelId = none := by
        rw [hw₁, readableChannel_applyEntry] at hread
        exact hread
      rw [hw₁, applyEntry_of_unreadable hunread]
      exact ⟨fun _ => hstart, fun hne => absurd rfl hne⟩
  | some channel =>
      simp only [Option.map_some]
      cases stored userId channelId w₁ with
      | none => simp [resultOf, version]
      | some held =>
          obtain ⟨lastRead, seq⟩ := held
          by_cases hown : seq = e.baseSeq + 1 ∧ lastRead = e.lastRead
          · obtain ⟨rfl, rfl⟩ := hown
            simp [resultOf, version]
          · simp only [resultOf, if_neg hown]
            constructor
            · intro hskip
              cases hskip
            · intro _
              refine ⟨rfl, rfl, ⟨fun happ => (by cases happ), ?_⟩⟩
              rintro ⟨text, htext, hheld⟩
              obtain ⟨rfl, rfl⟩ := Prod.mk.inj (Option.some.inj hheld)
              exact absurd ⟨rfl, codes_injective htext⟩ hown

/-- Every reply describes the row of its channel at the end. -/
theorem Ran.answers {a : Db} (h : Ran C userId now es w results w')
    (hnodup : (es.map (·.channelId)).Nodup)
    (hstart : ∀ e ∈ es, ∀ ch, codes ch = e.channelId → stored userId ch w = stored userId ch a) :
    List.Forall₂ (fun e r => r.1 = e.channelId ∧
      Answers userId e.channelId (codes e.lastRead) e.baseSeq r.2 a w') es results := by
  induction h with
  | nil w => exact List.Forall₂.nil
  | @cons e es channelId w w' results hkey _ h ih =>
      rw [List.map_cons, List.nodup_cons] at hnodup
      have hdistinct : ∀ e' ∈ es, e'.channelId ≠ e.channelId := by
        intro e' he' hsame
        apply hnodup.1
        rw [← hsame]
        exact List.mem_map_of_mem he'
      refine List.Forall₂.cons ⟨rfl, answers_resultOf hkey rfl
        (hstart e List.mem_cons_self channelId hkey) (h.unchanged ?_)⟩ (ih hnodup.2 ?_)
      · intro _ e' he' hsame
        exact hdistinct e' he' (hsame.trans hkey)
      · -- a later entry is about another channel, which the head left alone
        intro e' he' ch hch
        rw [stored_applyEntry_other, hstart e' (List.mem_cons_of_mem _ he') ch hch]
        rintro ⟨_, rfl⟩
        exact hdistinct e' he' (hch.symm.trans hkey)

end

/-! ## What the statements of a call publish -/

section
variable {π α : Type} {S : Spec π Db Memory Label} {p : π} {G : Db → Db → Prop}
  {N : Option (Db × Db) → Except Exn α → Prop} {past : List (Db × Db)} {K : Db → Prop}
  {C : String → ValidEntry → Db → Prop} {userId : String} {now : Time} {compared : Compared}

/-- The entries are one function of the store that the first of them found; `K` is what the
statements before them have established. -/
theorem publishes_writeEntries {es : List ValidEntry}
    (hstable : ∀ {x y}, S.Env p x y → K x.view → K y.view)
    (hown : ∀ ch e db, K db → K (applyEntry userId ch e now db))
    (hC : ∀ e ∈ es, ∀ ch y, codes ch = e.channelId →
      S.meets (.readPosition userId ch e.lastRead (compared.lookup ch)) y → K y.view →
      C ch e y.view)
    (hraise : Owed N past (.error .unicodeEncodeError)) :
    ∀ {x : Point Db Memory} {k : List (PyStr × EntryResult) → Body α},
      (es = [] → x.work.isSome = true) → S.inv x.db x.mem → K x.view →
      (∀ y results w', S.Env p x y → Ran C userId now es y.view results w' →
        Publishes S p G N past (k results) { y with work := some w' }) →
      Publishes S p G N past (writeEntries userId now compared es >>= k) x := by
  induction es with
  | nil =>
      intro x k hlock hx _ hk
      obtain ⟨w, hw⟩ := Option.isSome_iff_exists.mp (hlock rfl)
      have hsame : x = { x with work := some w } := by
        rw [← hw]
      have hdone := hk x [] w (Spec.Env.refl hx) (by
        rw [Point.view_of_some hw]
        exact Ran.nil w)
      rw [← hsame] at hdone
      exact hdone
  | cons e es ih =>
      intro x k _ hx hKx hk
      unfold writeEntries bindText
      cases hencode : encode e.channelId with
      | none => exact hraise
      | some ch =>
          have hch : codes ch = e.channelId := codes_encode hencode
          intro y hy hm
          have hKy : K y.view := hstable hy hKx
          constructor
          · rintro s hs
            obtain rfl : applyEntry userId ch e now y.view = s := Option.some.inj hs
            constructor
            · intro hn
              exact absurd hn.1 (by decide)
            · -- under the lock from here on: the read-back sees what the statement left
              intro _ z hz
              have hview : z.view = applyEntry userId ch e now y.view := hz.view_eq rfl
              change Publishes S p G N past (((writeEntries userId now compared es).bind
                fun results => .ret ((e.channelId,
                  resultOf e (readBack userId ch z.view)) :: results)).bind k) z
              rw [Request.bind_assoc]
              apply ih (fun e' he' => hC e' (List.mem_cons_of_mem _ he'))
              · intro _
                rw [hz.work]
                rfl
              · exact hz.inv
              · rw [hview]
                exact hown ch e _ hKy
              · intro v results w' hv hran
                have hlater : v.view = applyEntry userId ch e now y.view :=
                  (hz.trans hv).view_eq rfl
                rw [hlater] at hran
                rw [hview]
                have hdone := hk y _ w' hy
                  (Ran.cons hch (hC e List.mem_cons_self ch y hch hm hKy) hran)
                exact hdone.env ((hz.trans hv).rewritten rfl w')
          · intro hn
            cases hn

/-- The writes of a call and its commit publish what the entries make of the committed store. -/
theorem publishes_entries {es : List ValidEntry} {x : Point Db Memory}
    {N : Option (Db × Db) → Except Exn (List (PyStr × EntryResult)) → Prop} (hes : es ≠ [])
    (hx : x.work = none) (hi : S.inv x.db x.mem) (hKx : K x.db)
    (hstable : ∀ {x y}, S.Env p x y → K x.view → K y.view)
    (hown : ∀ ch e db, K db → K (applyEntry userId ch e now db))
    (hC : ∀ e ∈ es, ∀ ch y, codes ch = e.channelId →
      S.meets (.readPosition userId ch e.lastRead (compared.lookup ch)) y → K y.view →
      C ch e y.view)
    (hraise : N none (.error .unicodeEncodeError))
    (hdone : ∀ y results w', S.inv y.db y.mem → Ran C userId now es y.db results w' →
      G y.db w' ∧ S.Allows p y { y with db := w' } ∧ N (some (y.db, w')) (.ok results)) :
    Publishes S p G N [] (writeEntries userId now compared es >>= fun results => do
      commit
      return results) x := by
  apply publishes_writeEntries hstable hown hC
  · exact ⟨fun _ => hraise, fun _ hab => (by cases hab)⟩
  · intro hnil
    exact absurd hnil hes
  · exact hi
  · rw [Point.view_of_none hx]
    exact hKx
  · intro y results w' hy hran
    apply Publishes.commit rfl
    intro z hz _
    have hzy : z.db = y.db := hz.db_eq rfl
    rw [Point.view_of_none (hy.free hx), ← hzy] at hran
    obtain ⟨hG, hallow, hN⟩ := hdone z results w' hz.inv hran
    refine ⟨hG, hallow, fun hnil => (by cases hnil), fun ab hab => ?_⟩
    rw [List.mem_singleton] at hab
    rw [hab]
    exact hN

end

/-! ## Shapes -/

/-- Why an entry is refused by its shape. -/
def Malformed (e : Entry) : Prop :=
  e.channelId = [] ∨ ¬(e.lastRead = [] ∨ canonicalUlid e.lastRead = true) ∨
    ¬(0 ≤ e.baseSeq ∧ e.baseSeq ≤ maxBaseSeq)

/-- The typed form of an entry. -/
structure Types (e : Entry) (v : ValidEntry) : Prop where
  channel : v.channelId = e.channelId
  lastRead : codes v.lastRead = e.lastRead
  base : v.baseSeq = e.baseSeq

theorem validate_eq_ok {e : Entry} {v : ValidEntry} (h : validate e = .ok v) :
    ¬Malformed e ∧ Types e v := by
  unfold validate at h
  split_ifs at h with hchannel hshape hbase
  obtain rfl := Except.ok.inj h
  constructor
  · simp [Malformed, hchannel, hshape, hbase]
  · refine ⟨rfl, ?_, rfl⟩
    apply codes_asciiText
    intro n hn
    rcases hshape with hempty | hcanonical
    · rw [hempty] at hn
      cases hn
    · exact lt_of_canonicalUlid hcanonical n hn

theorem validateAll_eq_ok {es : List Entry} {vs : List ValidEntry}
    (h : validateAll es = .ok vs) :
    (∀ e ∈ es, ¬Malformed e) ∧ List.Forall₂ Types es vs := by
  induction es generalizing vs with
  | nil =>
      obtain rfl := Except.ok.inj h
      exact ⟨fun e he => (by cases he), List.Forall₂.nil⟩
  | cons e es ih =>
      unfold validateAll at h
      split at h
      · cases h
      · rename_i v hv
        split at h
        · cases h
        · rename_i vs' hvs
          obtain rfl := Except.ok.inj h
          obtain ⟨hwell, htypes⟩ := validate_eq_ok hv
          obtain ⟨hrest, hforall⟩ := ih hvs
          exact ⟨List.forall_mem_cons.mpr ⟨hwell, hrest⟩, List.Forall₂.cons htypes hforall⟩

/-- The channels of a call stay distinct. -/
theorem nodup_of_types {es : List Entry} {vs : List ValidEntry} (h : List.Forall₂ Types es vs)
    (hes : (es.map (·.channelId)).Nodup) : (vs.map (·.channelId)).Nodup := by
  have hsame : vs.map (·.channelId) = es.map (·.channelId) := by
    clear hes
    induction h with
    | nil => rfl
    | cons htypes _ ih => simp [htypes.channel, ih]
  rw [hsame]
  exact hes

/-! ## The requests -/

inductive PositionRequest where
  | setPositions (userId : String) (positions : Positions) (now : Time)
  | createChannel (channelId creatorId name : String) (isPrivate : Bool) (joinPolicy : String)
      (kind : ChannelKind) (aikoChannel : Option String)
  | addMember (identityMap : List User) (channelId actorId targetUserId role : String)
      (canPost : Bool)
  | selfJoin (channelId actorId : String)
  | removeMember (channelId actorId targetUserId : String)
  | leave (channelId actorId : String)
  | socket (h : Handshake)
  | ingest (msg : InboundMessage) (ids : IngestIds)

/-- A request whose answer is not about positions. -/
def silently {α : Type} (r : Body α) : Body (Option (List (PyStr × EntryResult))) := do
  let _ ← r
  return none

def PositionRequest.body (p : ℕ) :
    PositionRequest → Body (Option (List (PyStr × EntryResult)))
  | .setPositions userId positions now =>
      (ReadPositions.setPositions userId positions now >>= fun r => return some r).session
  | .createChannel channelId creatorId name isPrivate joinPolicy kind aikoChannel =>
      (silently (Memberships.createChannel channelId creatorId name isPrivate joinPolicy kind
        aikoChannel)).session
  | .addMember identityMap channelId actorId targetUserId role canPost =>
      (silently (Memberships.addMember identityMap channelId actorId targetUserId role
        canPost)).session
  | .selfJoin channelId actorId => (silently (Memberships.selfJoin channelId actorId)).session
  | .removeMember channelId actorId targetUserId =>
      (silently (Memberships.removeMember channelId actorId targetUserId)).session
  | .leave channelId actorId => (silently (Memberships.leave channelId actorId)).session
  | .socket h => silently (wsEndpoint p h)
  | .ingest msg ids => silently (Realtime.ingest msg ids)

/-! ## The other requests -/

/-- The items that exist in a channel, hidden ones included. -/
def channelItems (db : Db) (channelId : String) : List Item :=
  ((db.messages.filter fun m => m.channelId = channelId).map .message) ++
    channelRetractions db channelId

/-- Positions stay, and so does every item. -/
structure Spares (a b : Db) : Prop where
  positions : b.readPositions = a.readPositions
  items : ∀ channelId, channelItems a channelId ⊆ channelItems b channelId

theorem Spares.refl (a : Db) : Spares a a := ⟨rfl, fun _ _ h => h⟩

theorem Spares.trans {a b c : Db} (h : Spares a b) (h' : Spares b c) : Spares a c where
  positions := h'.positions.trans h.positions
  items ch := List.Subset.trans (h.items ch) (h'.items ch)

theorem Spares.stored {a b : Db} (h : Spares a b) (u ch : String) :
    stored u ch b = stored u ch a := by
  unfold ReadPositions.stored
  rw [h.positions]

/-- A statement on another table. -/
theorem spares_of_same {a b : Db} (hp : b.readPositions = a.readPositions)
    (hm : b.messages = a.messages) (hr : b.retractions = a.retractions) : Spares a b := by
  refine ⟨hp, fun ch => ?_⟩
  unfold channelItems channelRetractions
  rw [hm, hr]
  exact List.Subset.refl _

theorem spares_insertMessage {a b : Db} {m : Message} (h : a.insertMessage m = some b) :
    Spares a b := by
  obtain ⟨_, rfl⟩ := Db.insertMessage_eq_some.mp h
  refine ⟨rfl, fun ch r hr => ?_⟩
  unfold channelItems at *
  rw [List.filter_append, List.map_append, List.append_assoc]
  rcases List.mem_append.mp hr with hmsg | hret
  · exact List.mem_append_left _ hmsg
  · exact List.mem_append_right _ (List.mem_append_right _ hret)

theorem spares_insertChannel {a b : Db} {c : Channel} (h : a.insertChannel c = some b) :
    Spares a b := by
  obtain ⟨_, _, rfl⟩ := Db.insertChannel_eq_some.mp h
  exact spares_of_same rfl rfl rfl

theorem spares_insertMembership {a b : Db} {m : Membership}
    (h : a.insertMembership m = some b) : Spares a b := by
  obtain ⟨_, rfl⟩ := Db.insertMembership_eq_some.mp h
  exact spares_of_same rfl rfl rfl

theorem spares_membershipWrite {t : Label} {f : Db → Option Db} {a b : Db}
    (h : MembershipWrite t f) (hf : f a = some b) : Spares a b := by
  cases h with
  | delete c u isAdmin =>
      obtain rfl := Option.some.inj hf
      exact spares_of_same rfl rfl rfl
  | insert h =>
      cases h
      exact spares_insertMembership hf

theorem spares_socketWrite {t : Label} {f : Db → Option Db} {a b : Db}
    (h : SocketWrite t f) (hf : f a = some b) : Spares a b := by
  obtain ⟨user, rowId, hsend⟩ := h
  rcases sendWrite_cases hsend hf with ⟨_, rfl⟩ | ⟨m, hm⟩
  · exact spares_of_same rfl rfl rfl
  · exact spares_insertMessage hm

theorem spares_inboundWrite {channelId : String} {rowId : Option String} {t : Label}
    {f : Db → Option Db} {a b : Db} (h : InboundWrite channelId rowId t f) (hf : f a = some b) :
    Spares a b := by
  cases h with
  | channel name => exact spares_insertChannel hf
  | message hid hclient => exact spares_insertMessage hf

/-- A write that leaves positions and items alone, whatever its label. -/
def SparingWrite (_ : Label) (f : Db → Option Db) : Prop := ∀ a b, f a = some b → Spares a b

theorem uses_silently {α : Type} {W : Label → (Db → Option Db) → Prop}
    {A : Label → (Db → Memory → Memory) → Prop} {r : Body α} (h : Uses W A r) :
    Uses W A (silently r) :=
  Uses.bind h fun _ => trivial

theorem uses_createChannel (channelId creatorId name : String) (isPrivate : Bool)
    (joinPolicy : String) (kind : ChannelKind) (aikoChannel : Option String) :
    Uses SparingWrite NoSegment (Memberships.createChannel channelId creatorId name isPrivate
      joinPolicy kind aikoChannel) := by
  unfold Memberships.createChannel
  split_ifs
  · exact trivial
  · refine Uses.bind (uses_flushOrRaise fun a b h => spares_insertChannel h) fun _ => ?_
    refine Uses.bind (uses_flushOrRaise fun a b h => spares_insertMembership h) fun _ => ?_
    exact trivial

/-- Every other request leaves positions and items alone. -/
theorem uses_sparing (p : ℕ) (request : PositionRequest)
    (h : ∀ u positions now, request ≠ .setPositions u positions now) :
    Uses SparingWrite (fun _ _ => True) (request.body p) := by
  cases request with
  | setPositions u positions now => exact absurd rfl (h u positions now)
  | createChannel channelId creatorId name isPrivate joinPolicy kind aikoChannel =>
      exact (uses_silently ((uses_createChannel _ _ _ _ _ _ _).mono (fun _ _ hw => hw)
        fun _ _ _ => trivial)).session
  | addMember identityMap channelId actorId targetUserId role canPost =>
      exact (uses_silently ((uses_addMember _ _ _ _ _ _).mono
        (fun _ _ hw _ _ hf => spares_membershipWrite (.insert hw) hf) fun _ _ _ => trivial)).session
  | selfJoin channelId actorId =>
      exact (uses_silently ((uses_selfJoin _ _).mono
        (fun _ _ hw _ _ hf => spares_membershipWrite (.insert hw) hf) fun _ _ _ => trivial)).session
  | removeMember channelId actorId targetUserId =>
      exact (uses_silently ((uses_removeMember _ _ _).mono
        (fun _ _ hw _ _ hf => spares_membershipWrite hw hf) fun _ _ _ => trivial)).session
  | leave channelId actorId =>
      exact (uses_silently ((uses_leave _ _).mono
        (fun _ _ hw _ _ hf => spares_membershipWrite hw hf) fun _ _ _ => trivial)).session
  | socket handshake =>
      exact uses_silently ((uses_wsEndpoint p handshake).mono
        (fun _ _ hw _ _ hf => spares_socketWrite hw hf) fun _ _ _ => trivial)
  | ingest msg ids =>
      apply uses_silently
      apply uses_ingest
      · exact (uses_persistInbound ids.channelId ids.rowId msg ids.now).mono
          (fun _ _ hw _ _ hf => spares_inboundWrite hw hf) fun _ _ h => h
      · exact fun _ => trivial
      · exact fun _ _ _ => trivial
      · exact fun _ => trivial

/-! ## One call -/

/-- The position of the channel is one version further, by an entry that named the one before. -/
structure Swapped (e : Entry) (channelId : String) (before after : Option (String × ℤ)) :
    Prop where
  channel : e.channelId = codes channelId
  base : e.baseSeq = version before
  moved : ∃ text, codes text = e.lastRead ∧ after = some (text, version before + 1)

/-- What a call may do to the positions: nothing with a malformed entry, else swaps of its
user's own. -/
structure Swaps (userId : String) (positions : Positions) (a b : Db) : Prop where
  wellFormed : ∀ e ∈ positions.entries, ¬Malformed e
  positions : ∀ u ch, stored u ch b = stored u ch a ∨
    u = userId ∧ ∃ e ∈ positions.entries, Swapped e ch (stored u ch a) (stored u ch b)

/-- The results of a call describe the end of the transaction that led from `a` to `b`. -/
def Describes (userId : String) (positions : Positions) (results : List (PyStr × EntryResult))
    (a b : Db) : Prop :=
  List.Forall₂ (fun e r => r.1 = e.channelId ∧
    Answers userId e.channelId e.lastRead e.baseSeq r.2 a b) positions.entries results

section
variable {C : String → ValidEntry → Db → Prop} {userId : String} {positions : Positions}
  {now : Time} {vs : List ValidEntry} {a b : Db} {results : List (PyStr × EntryResult)}

theorem mem_of_types {es : List Entry} {v : ValidEntry} (h : List.Forall₂ Types es vs)
    (hv : v ∈ vs) : ∃ e ∈ es, Types e v := by
  induction h with
  | nil => cases hv
  | @cons e v' es vs htypes _ ih =>
      rcases List.mem_cons.mp hv with rfl | hv
      · exact ⟨e, List.mem_cons_self, htypes⟩
      · obtain ⟨e', he', ht⟩ := ih hv
        exact ⟨e', List.mem_cons_of_mem _ he', ht⟩

theorem swaps_of_ran (hvs : validateAll positions.entries = .ok vs)
    (h : Ran C userId now vs a results b) : Swaps userId positions a b := by
  obtain ⟨hwell, htypes⟩ := validateAll_eq_ok hvs
  refine ⟨hwell, fun u ch => ?_⟩
  rcases h.swaps (nodup_of_types htypes positions.keys) u ch with
    hsame | ⟨v, hv, hu, hch, hbase, hnew⟩
  · exact Or.inl hsame
  · obtain ⟨e, he, ht⟩ := mem_of_types htypes hv
    refine Or.inr ⟨hu, e, he, ht.channel.symm.trans hch, ht.base.symm.trans hbase, v.lastRead,
      ht.lastRead, ?_⟩
    rw [hnew, ← hbase]

theorem describes_of_ran (hvs : validateAll positions.entries = .ok vs)
    (h : Ran C userId now vs a results b) : Describes userId positions results a b := by
  obtain ⟨_, htypes⟩ := validateAll_eq_ok hvs
  have hanswers := h.answers (nodup_of_types htypes positions.keys) fun _ _ _ _ => rfl
  unfold Describes
  clear hvs h
  generalize positions.entries = es at htypes ⊢
  induction htypes generalizing results with
  | nil =>
      cases hanswers
      exact List.Forall₂.nil
  | cons ht _ ih =>
      cases hanswers with
      | cons hr hrest =>
          rw [ht.channel, ht.lastRead, ht.base] at hr
          exact List.Forall₂.cons hr (ih hrest)

end

theorem uses_latestUlids {W : Label → (Db → Option Db) → Prop}
    {A : Label → (Db → Memory → Memory) → Prop} (channelIds : List String) (viewerId : String) :
    Uses W A (latestUlids channelIds viewerId) := by
  unfold latestUlids
  split_ifs
  · exact trivial
  · exact fun _ _ => trivial

theorem uses_checkBounds {W : Label → (Db → Option Db) → Prop}
    {A : Label → (Db → Memory → Memory) → Prop} (userId : String) (entries : List ValidEntry) :
    Uses W A (checkBounds userId entries) := by
  refine Uses.bind (uses_filterReadableIds _ _ _) fun readable => ?_
  split_ifs
  · exact trivial
  · refine Uses.bind (uses_latestUlids _ _) fun visible => ?_
    intro held
    dsimp only [Request.bind]
    split <;> exact trivial

/-- What a request may publish. -/
def Published : PositionRequest → Db → Db → Prop
  | .setPositions userId positions _ => Swaps userId positions
  | _ => Spares

/-- What the answer of a request says about its publication. -/
def Due : PositionRequest → Option (Db × Db) →
    Except Exn (Option (List (PyStr × EntryResult))) → Prop
  | .setPositions _ positions _, none, .ok r => positions.entries = [] ∧ r = some []
  | .setPositions userId positions _, some ab, .ok r =>
      ∃ results, r = some results ∧ Describes userId positions results ab.1 ab.2
  | _, _, _ => True

/-- Nothing is assumed of the others. -/
def anyRun : Spec ℕ Db Memory Label where
  inv _ _ := True
  rely _ _ _ _ _ := True
  meets _ _ := True
  rely_refl _ _ _ := trivial
  rely_trans _ _ := trivial

theorem publishes_setPositions (p : ℕ) (userId : String) (positions : Positions) (now : Time)
    (db : Db) (mem : Memory) :
    Publishes anyRun p (Swaps userId positions)
      (fun ab res => Due (.setPositions userId positions now) ab (res.map some)) []
      (setPositions userId positions now) ⟨db, mem, none⟩ := by
  have hraise : ∀ e, Owed (fun ab res => Due (.setPositions userId positions now) ab
      (Except.map some res)) [] (.error e) :=
    fun e => ⟨fun _ => trivial, fun _ hab => (by cases hab)⟩
  unfold setPositions
  split
  · exact hraise _
  · rename_i hvs
    obtain ⟨_, htypes⟩ := validateAll_eq_ok hvs
    have hempty : positions.entries = [] := by
      cases hes : positions.entries with
      | nil => rfl
      | cons e es =>
          rw [hes] at htypes
          cases htypes
    exact ⟨fun _ => ⟨hempty, rfl⟩, fun _ hab => (by cases hab)⟩
  · rename_i vs hne hvs
    apply Publishes.after_reads (uses_checkBounds userId vs) rfl trivial
      ((uses_checkBounds userId vs).readOnly rfl) hraise
    intro compared y hfree _ _
    apply publishes_entries (K := fun _ => True) (C := fun _ _ _ => True)
    · intro hnil
      exact hne hnil
    · exact hfree
    · exact trivial
    · exact trivial
    · exact fun _ _ => trivial
    · exact fun _ _ _ _ => trivial
    · exact fun _ _ _ _ _ _ _ => trivial
    · exact trivial
    · intro z results w' _ hran
      exact ⟨swaps_of_ran hvs hran, ⟨trivial, fun _ _ => trivial⟩, results, rfl,
        describes_of_ran hvs hran⟩

theorem respects_sparing (p : ℕ) : Respects anyRun p (fun _ _ => True) Spares SparingWrite
    fun _ _ => True where
  refl := Spares.refl
  trans h h' := h.trans h'
  stable _ _ := trivial
  write _ _ _ _ hw _ _ _ _ hf := hw _ _ hf
  segment _ _ _ _ _ _ _ := ⟨⟨trivial, fun _ _ => trivial⟩, trivial⟩
  commit _ _ _ _ _ _ := ⟨⟨trivial, fun _ _ => trivial⟩, trivial⟩

theorem publishes_request (p : ℕ) (request : PositionRequest) (db : Db) (mem : Memory) :
    Publishes anyRun p (Published request) (Due request) [] (request.body p) ⟨db, mem, none⟩ := by
  have hother : ∀ R : PositionRequest, (∀ u positions now, R ≠ .setPositions u positions now) →
      Publishes anyRun p Spares (fun _ _ => True) [] (R.body p) ⟨db, mem, none⟩ :=
    fun R hR => of_respects (respects_sparing p) (uses_sparing p R hR) (Spares.refl db)
  cases request with
  | setPositions userId positions now =>
      exact (publishes_setPositions p userId positions now db mem).map.session
  | _ => exact (hother _ (by simp)).mono (fun _ _ h => h) fun _ _ _ => trivial

/-! ## Runs -/

section
variable {db : Db} {mem : Memory} {requests : ℕ → PositionRequest}
  {c c' : Cfg ℕ Db Memory Label Exn (Option (List (PyStr × EntryResult)))} {p : ℕ}

/-- Every configuration of a run is guarded. -/
theorem guarded_of_reach
    (hr : Cfg.Reach (fun _ _ => True) (Cfg.init db mem fun p => (requests p).body p) c) :
    ∃ past, Guarded anyRun (fun p => Published (requests p)) (fun p => Due (requests p)) past c ∧
      ∀ q, ∀ ab ∈ past q, ∃ c₁ c₂, Cfg.Reach (fun _ _ => True)
        (Cfg.init db mem fun p => (requests p).body p) c₁ ∧ c₁.step q = some c₂ ∧
        Cfg.Reach (fun _ _ => True) c₂ c ∧ ab = (c₁.db, c₂.db) := by
  have hinit : Guarded anyRun (fun p => Published (requests p)) (fun p => Due (requests p))
      (fun _ => []) (Cfg.init db mem fun p => (requests p).body p) :=
    ⟨trivial, fun p => publishes_request p (requests p) db mem⟩
  obtain ⟨past, hguarded, _, hpast⟩ := hinit.reach hr
  refine ⟨past, hguarded, fun q ab hab => ?_⟩
  rcases hpast q ab hab with hnil | hstep
  · cases hnil
  · exact hstep

/-- A step leaves the store alone or publishes what its request may publish. -/
theorem published_of_step
    (hr : Cfg.Reach (fun _ _ => True) (Cfg.init db mem fun p => (requests p).body p) c)
    (hs : c.step p = some c') : c'.db = c.db ∨ Published (requests p) c.db c'.db := by
  obtain ⟨past, hguarded, _⟩ := guarded_of_reach hr
  exact hguarded.change (fun _ _ => trivial) hs

/-- The step lemma of a stored position. -/
theorem swapped_of_step
    (hr : Cfg.Reach (fun _ _ => True) (Cfg.init db mem fun p => (requests p).body p) c)
    (hs : c.step p = some c') (u ch : String) : stored u ch c'.db = stored u ch c.db ∨
      ∃ positions now, requests p = .setPositions u positions now ∧
        ∃ e ∈ positions.entries, ¬Malformed e ∧
          Swapped e ch (stored u ch c.db) (stored u ch c'.db) := by
  rcases published_of_step hr hs with hsame | hpub
  · rw [hsame]
    exact Or.inl rfl
  · cases hreq : requests p with
    | setPositions userId positions now =>
        rw [hreq] at hpub
        have hswaps : Swaps userId positions c.db c'.db := hpub
        rcases hswaps.positions u ch with hsame | ⟨rfl, e, he, hswapped⟩
        · exact Or.inl hsame
        · exact Or.inr ⟨positions, now, rfl, e, he, hswaps.wellFormed e he, hswapped⟩
    | _ =>
        rw [hreq] at hpub
        have hspares : Spares c.db c'.db := hpub
        exact Or.inl (hspares.stored u ch)

/-- The run lemma of the version bound. -/
theorem version_le_of_reach (hseq : ∀ u ch, version (stored u ch db) ≤ maxSeq)
    (hr : Cfg.Reach (fun _ _ => True) (Cfg.init db mem fun p => (requests p).body p) c)
    (u ch : String) : version (stored u ch c.db) ≤ maxSeq := by
  induction hr with
  | start => exact hseq u ch
  | step hr _ hs ih =>
      rcases swapped_of_step hr hs u ch with hsame | ⟨_, _, _, e, _, hwell, hswapped⟩
      · rw [hsame]
        exact ih
      · obtain ⟨text, _, hafter⟩ := hswapped.moved
        have hbase : e.baseSeq ≤ maxBaseSeq := by
          unfold Malformed at hwell
          tauto
        rw [hafter, ← hswapped.base]
        simp only [version, maxBaseSeq, Option.map_some, Option.getD_some] at hbase ⊢
        omega

/-- Read positions are compare-and-swap: in every run, every step leaves a stored position alone
or moves it one version, for an entry of the stepping call that named the version before; a
returned result describes the end of its own transaction; a call with a malformed entry never
changes the store; no version passes `maxSeq`. -/
theorem read_positions_compare_and_swap
    (hr : Cfg.Reach (fun _ _ => True) (Cfg.init db mem fun p => (requests p).body p) c) :
    (∀ p c' u ch, c.step p = some c' → stored u ch c'.db = stored u ch c.db ∨
      ∃ positions now, requests p = .setPositions u positions now ∧
        ∃ e ∈ positions.entries, Swapped e ch (stored u ch c.db) (stored u ch c'.db)) ∧
    (∀ p u positions now results, requests p = .setPositions u positions now →
      c.procs p = .ret (some results) → positions.entries = [] ∧ results = [] ∨
        ∃ c₁ c₂, Cfg.Reach (fun _ _ => True) (Cfg.init db mem fun p => (requests p).body p) c₁ ∧
          c₁.step p = some c₂ ∧ Cfg.Reach (fun _ _ => True) c₂ c ∧
          Describes u positions results c₁.db c₂.db) ∧
    (∀ p u positions now, requests p = .setPositions u positions now →
      (∃ e ∈ positions.entries, Malformed e) → ∀ c', c.step p = some c' → c'.db = c.db) ∧
    ((∀ u ch, version (stored u ch db) ≤ maxSeq) →
      ∀ u ch, version (stored u ch c.db) ≤ maxSeq) := by
  refine ⟨fun p c' u ch hs => ?_, fun p u positions now results hreq hret => ?_,
    fun p u positions now hreq hbad c' hs => ?_, fun hseq => version_le_of_reach hseq hr⟩
  · rcases swapped_of_step hr hs u ch with hsame | ⟨positions, now, hreq, e, he, _, hswapped⟩
    · exact Or.inl hsame
    · exact Or.inr ⟨positions, now, hreq, e, he, hswapped⟩
  · obtain ⟨past, hguarded, hpast⟩ := guarded_of_reach hr
    have howed := hguarded.result (r := .ok (some results)) hret
    rw [hreq] at howed
    cases hown : past p with
    | nil =>
        obtain ⟨hempty, hres⟩ := howed.1 hown
        exact Or.inl ⟨hempty, Option.some.inj hres⟩
    | cons ab older =>
        have hab : ab ∈ past p := by
          rw [hown]
          exact List.mem_cons_self
        obtain ⟨results', hres, hdescribes⟩ := howed.2 ab hab
        obtain ⟨c₁, c₂, h₁, hstep, h₂, rfl⟩ := hpast p ab hab
        obtain rfl := Option.some.inj hres
        exact Or.inr ⟨c₁, c₂, h₁, hstep, h₂, hdescribes⟩
  · rcases published_of_step hr hs with hsame | hpub
    · exact hsame
    · rw [hreq] at hpub
      have hswaps : Swaps u positions c.db c'.db := hpub
      obtain ⟨e, he, hmalformed⟩ := hbad
      exact absurd hmalformed (hswaps.wellFormed e he)

end

/-! ## Two devices -/

/-- One device sends a watermark of the channel `C`, every other the floor. -/
def deviceMark (p : ℕ) : Positions where
  entries := [⟨codes "C", if p = 0 then codes "01ARZ3NDEKTSV4RRFFQ69G5FAV" else [], 0⟩]
  keys := by simp

def markStore : Db where
  users := [{ id := "U", username := "u", aikoUsername := "u" }]
  channels := [{ id := "C", name := "c", aikoChannel := "c" }]
  messages := [{ id := "01ARZ3NDEKTSV4RRFFQ69G5FAV", channelId := "C", senderUserId := none
                 body := "hi" }]

def devices (p : ℕ) : PositionRequest := .setPositions "U" (deviceMark p) 5

def devicesStart : Cfg ℕ Db Memory Label Exn (Option (List (PyStr × EntryResult))) :=
  Cfg.init markStore {} fun p => (devices p).body p

/-- The first device passes the bound, is overtaken, and is told of version 1. -/
theorem overtaken_device_conflicts :
    ∃ c, Cfg.play [0, 0, 0, 0, 1, 1, 1, 1, 0, 0, 0, 0] devicesStart = some c ∧
      (c.procs 0).returned = some (some [(codes "C", ⟨.conflict, some "", some 1⟩)]) ∧
      ∀ u ch, version (stored u ch c.db) ≤ maxSeq := by
  have hrun : (Cfg.play [0, 0, 0, 0, 1, 1, 1, 1, 0, 0, 0, 0] devicesStart).map
      (fun c => (c.procs 0).returned) =
      some (some (some [(codes "C", ⟨.conflict, some "", some 1⟩)])) := by
    decide +kernel
  obtain ⟨c, hc, hret⟩ := Option.map_eq_some_iff.mp hrun
  have hr : Cfg.Reach (fun _ _ => True) (Cfg.init markStore {} fun p => (devices p).body p) c :=
    Cfg.reach_of_play Cfg.Reach.start hc
  refine ⟨c, hc, hret, ?_⟩
  apply (read_positions_compare_and_swap hr).2.2.2
  intro u ch
  rw [show stored u ch markStore = none from rfl]
  decide

end AikoIsland.ReadVersions
