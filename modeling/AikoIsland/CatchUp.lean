import AikoIsland.Timeline
import AikoIsland.Publishing
import AikoIsland.Accounts

/-!
# Forward catch-up while messages are written

Sends, bus messages and takedowns interleave statement by statement with a client that
asks for the page above the largest id it has received. The two statements of a page
read the store that is committed when each of them runs, and the answer is received
later.

An id is minted before its row is committed, so a row can become visible below an id
that the client has. `InOrder` is what a step must not do: publish an item at or below
the cursor, or hand the client a page that goes beyond an item which the statements of
the page came too early to see. In the runs that keep to it nothing is lost.
-/
namespace AikoIsland.CatchUp
open Tables Gateway WriterLock RelyGuarantee Footprint Publishing SigningKeys Messages Accounts
open Paging Timeline

/-! ## The parties -/

inductive Writer where
  | createOutbound (user : User) (channel : Channel) (out : Outbound) (minted : Minted)
  | persistInbound (msg : InboundMessage) (channelId rowId : String) (now : Time)
  | takeDownMessage (reportId moderatorId rid : String) (now : Time)

def Writer.body : Writer → Body Unit
  | .createOutbound user channel out minted =>
      Request.session do
        let _ ← Messages.createOutbound user channel out minted
  | .persistInbound msg channelId rowId now =>
      Request.session do
        let _ ← Messages.persistInbound msg channelId rowId now
  | .takeDownMessage reportId moderatorId rid now =>
      Request.session do
        let _ ← Accounts.takeDownMessage reportId moderatorId rid now

/-- What a client has received, its cursor, and the call that is open, with the stores that the
statements of the call have read. -/
structure Client where
  cursor : String
  received : List Item
  page : Option (Body (List Item) × List Db)

structure System (π : Type) where
  writers : Cfg π Db Memory Label Exn Unit
  client : Client

inductive Event (π : Type) where
  | write (p : π)
  | call (limit : ℕ)
  | read
  | receive

/-- The largest id after these rows. -/
def advanced (cursor : String) (rows : List Item) : String :=
  rows.foldl (fun c item => max c item.id) cursor

section
variable {π : Type} [DecidableEq π] (channelId viewerId : String)

def System.step (s : System π) : Event π → Option (System π)
  | .write p => (s.writers.step p).map fun c => { s with writers := c }
  | .call limit =>
      if 1 ≤ limit ∧ s.client.page.isNone then
        some { s with client := { s.client with
          page := some (getHistory channelId viewerId none (some s.client.cursor) limit, []) } }
      else none
  | .read =>
      match s.client.page with
      | some (request, seen) =>
          if request.ended then none
          else some { s with client := { s.client with
            page := some ((request.advance ⟨s.writers.db, s.writers.mem, none⟩).1,
              seen ++ [s.writers.db]) } }
      | none => none
  | .receive =>
      match s.client.page with
      | some (.ret rows, _) =>
          some { s with client :=
            ⟨advanced s.client.cursor rows, s.client.received ++ rows, none⟩ }
      | _ => none

/-- What runs reach when every step satisfies the condition. -/
inductive Reach (P : Event π → System π → System π → Prop) (s₀ : System π) : System π → Prop
  | start : Reach P s₀ s₀
  | step {s s' : System π} {e : Event π} (h : Reach P s₀ s)
      (hs : s.step channelId viewerId e = some s') (hp : P e s s') : Reach P s₀ s'

/-- The writers' first statements, and a client without an open call. -/
def start (writers : π → Writer) (db : Db) (mem : Memory) (cursor : String)
    (received : List Item) : System π :=
  ⟨Cfg.init db mem fun p => (writers p).body, ⟨cursor, received, none⟩⟩

/-! ## The condition -/

/-- An item that the statements of a page came too early to see. -/
def Missed (first second : Db) : Item → Prop
  | .message m => .message m ∉ timeline first channelId viewerId
  | .retraction r => .retraction r ∉ timeline second channelId viewerId

/-- A page that stays below what its statements came too early to see. -/
def Covers (db : Db) : Option (Body (List Item) × List Db) → Prop
  | some (.ret rows, [first, second]) =>
      ∀ item ∈ timeline db channelId viewerId, Missed channelId viewerId first second item →
        ∀ row ∈ rows, row.id < item.id
  | _ => True

/-- Ids are unique, nothing becomes visible at or below the cursor, and a page that is received
stays below what it missed. -/
structure InOrder (e : Event π) (s s' : System π) : Prop where
  ids : IdsUnique s'.writers.db
  above : ∀ item ∈ timeline s'.writers.db channelId viewerId,
    item ∉ timeline s.writers.db channelId viewerId → s.client.cursor < item.id
  covers : e = .receive → Covers channelId viewerId s.writers.db s.client.page

/-- Nobody writes any more. -/
def Quiet (e : Event π) (_ _ : System π) : Prop := ∀ p, e ≠ .write p

end

/-! ## Messages stay in the table -/

/-- Every message is still there under its id. -/
def Keeps (a b : Db) : Prop := ∀ m ∈ a.messages, ∃ m' ∈ b.messages, m'.id = m.id

theorem Keeps.refl (a : Db) : Keeps a a := fun m hm => ⟨m, hm, rfl⟩

theorem Keeps.trans {a b c : Db} (h : Keeps a b) (h' : Keeps b c) : Keeps a c := by
  intro m hm
  obtain ⟨m', hm', hid⟩ := h m hm
  obtain ⟨m'', hm'', hid'⟩ := h' m' hm'
  exact ⟨m'', hm'', hid'.trans hid⟩

theorem Keeps.of_subset {a b : Db} (h : ∀ m ∈ a.messages, m ∈ b.messages) : Keeps a b :=
  fun m hm => ⟨m, h m hm, rfl⟩

/-- The statements that keep them. -/
def KeepingWrite (_ : Label) (f : Db → Option Db) : Prop := ∀ a b, f a = some b → Keeps a b

def NoSegment (_ : Label) (_ : Db → Memory → Memory) : Prop := False

theorem keeping_insertMessage {t : Label} (m : Message) :
    KeepingWrite t fun db => db.insertMessage m := by
  intro a b h
  obtain ⟨_, rfl⟩ := Db.insertMessage_eq_some.mp h
  exact Keeps.of_subset fun m' hm' => List.mem_append_left _ hm'

theorem keeping_insertRetraction {t : Label} (r : Retraction) :
    KeepingWrite t fun db => db.insertRetraction r := by
  intro a b h
  obtain ⟨_, rfl⟩ := Db.insertRetraction_eq_some.mp h
  exact Keeps.of_subset fun m' hm' => hm'

theorem keeping_insertChannel {t : Label} (c : Channel) :
    KeepingWrite t fun db => db.insertChannel c := by
  intro a b h
  obtain ⟨_, _, rfl⟩ := Db.insertChannel_eq_some.mp h
  exact Keeps.of_subset fun m' hm' => hm'

theorem keeping_updateMessages {t : Label} {f : Message → Message} (hf : ∀ m, (f m).id = m.id) :
    KeepingWrite t fun db => some { db with messages := db.messages.map f } := by
  intro a b h
  obtain rfl := Option.some.inj h
  exact fun m hm => ⟨f m, List.mem_map_of_mem hm, hf m⟩

theorem uses_takeDownMessage (reportId moderatorId rid : String) (now : Time) :
    Uses KeepingWrite NoSegment (Accounts.takeDownMessage reportId moderatorId rid now) := by
  have hreport : ∀ g : MessageReport → MessageReport,
      Uses KeepingWrite NoSegment (updateReport reportId g) := by
    intro g
    refine Uses.bind (Uses.exec ?_) fun rowcount => ?_
    · intro a b h
      obtain rfl := Option.some.inj h
      exact Keeps.refl a
    · split_ifs <;> exact trivial
  have hmessage : ∀ (id : String) (g : Message → Message), (∀ m, (g m).id = m.id) →
      Uses KeepingWrite NoSegment (updateMessage id g) := by
    intro id g hg
    refine Uses.bind (Uses.exec ?_) fun rowcount => ?_
    · apply keeping_updateMessages
      intro m
      split_ifs
      · exact hg m
      · rfl
    · split_ifs <;> exact trivial
  unfold Accounts.takeDownMessage
  refine Uses.bind (Uses.query _) fun report => ?_
  cases report with
  | none => exact trivial
  | some report =>
      dsimp only
      generalize (report.resolvedAt.isSome &&
        decide (report.resolution = some .takenDown)) = alreadyTakenDown
      by_cases hother : (report.resolvedAt.isSome && !alreadyTakenDown) = true
      · rw [if_pos hother]
        exact trivial
      rw [if_neg hother]
      refine Uses.bind (Uses.query _) fun message => ?_
      cases message with
      | none =>
          dsimp only
          split_ifs <;> exact trivial
      | some message =>
          refine Uses.bind (Uses.query _) fun existing => ?_
          by_cases horder : (existing.isNone && decide (rid ≤ message.id)) = true
          · rw [if_pos horder]
            exact trivial
          rw [if_neg horder]
          have htail : Uses KeepingWrite NoSegment
              (if existing.isNone then do
                flushOrRaise (fun db => db.insertRetraction
                  ⟨rid, message.id, message.channelId, now⟩) (.retractionInsert message.id)
                commit
                return some ⟨rid, message.id, message.channelId, now⟩
              else do
                commit
                return none : Body (Option Retraction)) := by
            split_ifs
            · exact Uses.bind (uses_flushOrRaise (keeping_insertRetraction _)) fun _ =>
                Uses.bind (Uses.commitNow _) fun _ => trivial
            · exact Uses.bind (Uses.commitNow _) fun _ => trivial
          cases alreadyTakenDown with
          | true => exact htail
          | false =>
              have hstamped := Uses.bind (hreport fun r =>
                { r with
                  resolvedAt := some now
                  resolution := some .takenDown
                  resolvedByUserId := some moderatorId }) fun _ => htail
              cases hdeleted : message.deletedAt with
              | some t => exact hstamped
              | none => exact Uses.bind (hmessage _ _ fun m => rfl) fun _ => hstamped

theorem keeping_of_onlyKeys {t : Label} {f : Db → Option Db}
    (h : ∀ a b, f a = some b → OnlyKeys a b) : KeepingWrite t f := by
  intro a b hf
  obtain ⟨keys, rfl⟩ := h a b hf
  exact Keeps.of_subset fun m hm => hm

theorem uses_body (w : Writer) : Uses KeepingWrite NoSegment w.body := by
  cases w with
  | createOutbound user channel out minted =>
      have huses := uses_createOutbound (A := NoSegment) user channel out minted
      refine Uses.session (Uses.bind (huses.mono (fun _ _ hw => ?_) fun _ _ h => h) fun _ => trivial)
      cases hw with
      | message hid hclient => exact keeping_insertMessage _
      | key hkey => exact keeping_of_onlyKeys fun a b hf => onlyKeys_of_originWrite hkey hf
  | persistInbound msg channelId rowId now =>
      have huses := uses_persistInbound (A := NoSegment) channelId rowId msg now
      refine Uses.session (Uses.bind (huses.mono (fun _ _ hw => ?_) fun _ _ h => h) fun _ => trivial)
      cases hw with
      | channel name => exact keeping_insertChannel _
      | message hid hclient => exact keeping_insertMessage _
  | takeDownMessage reportId moderatorId rid now =>
      exact Uses.session (Uses.bind (uses_takeDownMessage reportId moderatorId rid now) fun _ =>
        trivial)

def spec (π : Type) : Spec π Db Memory Label where
  inv _ _ := True
  rely _ _ _ _ _ := True
  meets _ _ := True
  rely_refl _ _ _ := trivial
  rely_trans _ _ := trivial

theorem respects {π : Type} (p : π) :
    Respects (spec π) p (fun _ _ => True) Keeps KeepingWrite NoSegment where
  refl := Keeps.refl
  trans := Keeps.trans
  stable _ _ := trivial
  write _ _ z s hw _ _ _ _ hf := hw z.view s hf
  segment _ _ _ h := h.elim
  commit _ _ _ _ _ _ := ⟨⟨trivial, fun _ _ => trivial⟩, trivial⟩

/-! ## Pages -/

section
variable {channelId viewerId cursor : String} {first second : Db} {limit : ℕ} {item row : Item}

/-- What the two statements of a page give. -/
def pageRows (channelId viewerId cursor : String) (limit : ℕ) (first second : Db) : List Item :=
  (ascending (afterRows cursor limit (visibleMessages first channelId viewerId) ++
    afterRows cursor limit (channelRetractions second channelId))).take limit

/-- The items that the statements of a page could see. -/
def pageItems (channelId viewerId : String) (first second : Db) : List Item :=
  visibleMessages first channelId viewerId ++ channelRetractions second channelId

theorem mem_pageItems_of_timeline {db : Db} (h : item ∈ timeline db channelId viewerId)
    (hseen : ¬ Missed channelId viewerId first second item) :
    item ∈ pageItems channelId viewerId first second := by
  have hboth (db : Db) : item ∈ timeline db channelId viewerId ↔
      item ∈ visibleMessages db channelId viewerId ∨ item ∈ channelRetractions db channelId := by
    rw [timeline, ascending, List.mem_insertionSort, List.mem_append]
  rw [pageItems, List.mem_append]
  cases item with
  | message m =>
      have hfirst : Item.message m ∈ timeline first channelId viewerId := by
        by_contra hnot
        exact hseen hnot
      rcases (hboth first).mp hfirst with hm | hr
      · exact Or.inl hm
      · obtain ⟨r, _, hr⟩ := List.mem_map.mp hr
        cases hr
  | retraction r =>
      have hsecond : Item.retraction r ∈ timeline second channelId viewerId := by
        by_contra hnot
        exact hseen hnot
      rcases (hboth second).mp hsecond with hm | hr
      · obtain ⟨m, _, hm⟩ := List.mem_map.mp hm
        cases hm
      · exact Or.inr hr

variable (channelId viewerId) in
/-- Messages that stay in the table share no id with a later retraction. -/
theorem nodup_pageItems (hfirst : IdsUnique first) (hsecond : IdsUnique second)
    (hkeeps : Keeps first second) :
    ((pageItems channelId viewerId first second).map Item.id).Nodup := by
  have hmessages : ((visibleMessages first channelId viewerId).map Item.id).Sublist
      (first.messages.map (·.id)) := by
    rw [visibleMessages, List.map_map]
    exact List.filter_sublist.map _
  have hretractions : ((channelRetractions second channelId).map Item.id).Sublist
      (second.retractions.map (·.id)) := by
    rw [channelRetractions, List.map_map]
    exact List.filter_sublist.map _
  obtain ⟨hnodup, _, _⟩ := List.nodup_append.mp hfirst.nodup
  obtain ⟨_, hnodup', happart⟩ := List.nodup_append.mp hsecond.nodup
  rw [pageItems, List.map_append, List.nodup_append]
  refine ⟨hmessages.nodup hnodup, hretractions.nodup hnodup', ?_⟩
  intro id hid id' hid'
  obtain ⟨m, hm, rfl⟩ := List.mem_map.mp (hmessages.subset hid)
  obtain ⟨m', hm', hsame⟩ := hkeeps m hm
  rw [← hsame]
  exact happart m'.id (List.mem_map_of_mem hm') id' (hretractions.subset hid')

theorem pageRows_eq (hfirst : IdsUnique first) (hsecond : IdsUnique second)
    (hkeeps : Keeps first second) (cursor : String) (limit : ℕ) :
    pageRows channelId viewerId cursor limit first second =
      ((ascending (pageItems channelId viewerId first second)).filter fun a =>
        cursor < a.id).take limit := by
  have hapart := (apart_of_nodup (nodup_pageItems channelId viewerId hfirst hsecond hkeeps)).1
  have hfilter := hapart.subperm
    (List.filter_sublist (p := fun a : Item => decide (cursor < a.id))).subperm
  rw [pageItems, List.filter_append] at hfilter
  calc
    _ = page (fun a b : Item => a.id ≤ b.id) limit
        ((visibleMessages first channelId viewerId).filter (fun a => cursor < a.id) ++
          (channelRetractions second channelId).filter fun a => cursor < a.id) :=
      page_merge hfilter limit
    _ = _ := by
      rw [page, ← List.filter_append, ← pageItems, sort_filter hapart]
      rfl

/-- A page holds every item that it could see between the cursor and one of its rows. -/
theorem mem_pageRows (hfirst : IdsUnique first) (hsecond : IdsUnique second)
    (hkeeps : Keeps first second) (hitem : item ∈ pageItems channelId viewerId first second)
    (habove : cursor < item.id) (hrow : row ∈ pageRows channelId viewerId cursor limit first second)
    (hle : item.id ≤ row.id) : item ∈ pageRows channelId viewerId cursor limit first second := by
  have hsorted := sorted_of_apart (apart_of_nodup
    (nodup_pageItems channelId viewerId hfirst hsecond hkeeps)).1
  rw [pageRows_eq hfirst hsecond hkeeps] at hrow ⊢
  have hmem : item ∈ (ascending (pageItems channelId viewerId first second)).filter fun a =>
      cursor < a.id := by
    rw [List.mem_filter, ascending, List.mem_insertionSort, decide_eq_true_eq]
    exact ⟨hitem, habove⟩
  have hpairs := hsorted.filter fun a : Item => decide (cursor < a.id)
  change ((ascending (pageItems channelId viewerId first second)).filter fun a =>
    cursor < a.id).Pairwise _ at hpairs
  rw [← List.take_append_drop limit (List.filter _ _), List.mem_append] at hmem
  rcases hmem with hmem | hmem
  · exact hmem
  · rw [← List.take_append_drop limit (List.filter _ _), List.pairwise_append] at hpairs
    exact absurd hle (hpairs.2.2 row hrow item hmem).2

theorem le_advanced_iff {rows : List Item} {id : String} :
    id ≤ advanced cursor rows ↔ id ≤ cursor ∨ ∃ row ∈ rows, id ≤ row.id := by
  induction rows generalizing cursor with
  | nil => simp [advanced]
  | cons row rows ih =>
      have hnext : advanced cursor (row :: rows) = advanced (max cursor row.id) rows := rfl
      rw [hnext, ih, le_max_iff, or_assoc]
      simp

/-! ## What a run keeps -/

/-- A page after its first statement. -/
def secondHalf (channelId viewerId cursor : String) (limit : ℕ) (first : Db) : Body (List Item) := do
  let rets ← select fun db => afterRows cursor limit (channelRetractions db channelId)
  return (ascending (afterRows cursor limit (visibleMessages first channelId viewerId) ++
    rets)).take limit

/-- An open call has run none, one or both of its statements, on stores from which the messages
are still there. -/
inductive PageShape (channelId viewerId cursor : String) (db : Db) :
    Option (Body (List Item) × List Db) → Prop
  | idle : PageShape channelId viewerId cursor db none
  | asked {limit : ℕ} (hlimit : 1 ≤ limit) : PageShape channelId viewerId cursor db
      (some (getHistory channelId viewerId none (some cursor) limit, []))
  | half {limit : ℕ} {first : Db} (hlimit : 1 ≤ limit) (hids : IdsUnique first)
      (hkeeps : Keeps first db) : PageShape channelId viewerId cursor db
      (some (secondHalf channelId viewerId cursor limit first, [first]))
  | answered {limit : ℕ} {first second : Db} (hlimit : 1 ≤ limit) (hids : IdsUnique first)
      (hids' : IdsUnique second) (hkeeps : Keeps first second) :
      PageShape channelId viewerId cursor db
      (some (.ret (pageRows channelId viewerId cursor limit first second), [first, second]))

theorem PageShape.keeps {db db' : Db} {page : Option (Body (List Item) × List Db)}
    (h : PageShape channelId viewerId cursor db page) (hkeeps : Keeps db db') :
    PageShape channelId viewerId cursor db' page := by
  cases h with
  | idle => exact .idle
  | asked hlimit => exact .asked hlimit
  | half hlimit hids hfirst => exact .half hlimit hids (hfirst.trans hkeeps)
  | answered hlimit hids hids' hfirst => exact .answered hlimit hids hids' hfirst

end

section
variable {π : Type} [DecidableEq π] {channelId viewerId : String} {s₀ s s' t : System π}
  {e : Event π}

/-- Nothing at or below the cursor is missing, but for what was there before the run. -/
def Complete (channelId viewerId : String) (s₀ s : System π) : Prop :=
  ∀ item ∈ timeline s.writers.db channelId viewerId, item.id ≤ s.client.cursor →
    item ∈ s.client.received ∨
      item ∈ timeline s₀.writers.db channelId viewerId ∧ item.id ≤ s₀.client.cursor

structure Caught (channelId viewerId : String) (s₀ s : System π) : Prop where
  guarded : ∃ past, Guarded (spec π) (fun _ => Keeps) (fun _ _ _ => True) past s.writers
  ids : IdsUnique s.writers.db
  complete : Complete channelId viewerId s₀ s
  page : PageShape channelId viewerId s.client.cursor s.writers.db s.client.page

theorem caught_start (writers : π → Writer) {db : Db} (hids : IdsUnique db) (mem : Memory)
    (cursor : String) (received : List Item) :
    Caught channelId viewerId (start writers db mem cursor received)
      (start writers db mem cursor received) where
  guarded := ⟨fun _ => [], trivial, fun p =>
    of_respects (respects p) (uses_body (writers p)) (Keeps.refl db)⟩
  ids := hids
  complete _ hitem hle := Or.inr ⟨hitem, hle⟩
  page := .idle

theorem Caught.write (h : Caught channelId viewerId s₀ s) {p : π}
    {c : Cfg π Db Memory Label Exn Unit} (hs : s.writers.step p = some c)
    (hids : IdsUnique c.db) (habove : ∀ item ∈ timeline c.db channelId viewerId,
      item ∉ timeline s.writers.db channelId viewerId → s.client.cursor < item.id) :
    Caught channelId viewerId s₀ { s with writers := c } := by
  obtain ⟨past, hguarded⟩ := h.guarded
  obtain ⟨past', hguarded', _⟩ := hguarded.step (fun _ _ => trivial) hs
  have hkeeps : Keeps s.writers.db c.db := by
    rcases hguarded.change (fun _ _ => trivial) hs with hsame | hkeeps
    · rw [hsame]
      exact Keeps.refl _
    · exact hkeeps
  constructor
  · exact ⟨past', hguarded'⟩
  · exact hids
  · intro item hitem hle
    by_cases hold : item ∈ timeline s.writers.db channelId viewerId
    · exact h.complete item hold hle
    · exact absurd hle (habove item hitem hold).not_ge
  · exact h.page.keeps hkeeps

/-- A page that covers what it missed leaves nothing behind. -/
theorem Caught.receive (h : Caught channelId viewerId s₀ s) {rows : List Item} {seen : List Db}
    (hpage : s.client.page = some (.ret rows, seen))
    (hcovers : Covers channelId viewerId s.writers.db s.client.page) :
    Caught channelId viewerId s₀ { s with client :=
      ⟨advanced s.client.cursor rows, s.client.received ++ rows, none⟩ } := by
  constructor
  · exact h.guarded
  · exact h.ids
  · intro item hitem hle
    rcases le_advanced_iff.mp hle with hbelow | ⟨row, hrow, hbound⟩
    · exact (h.complete item hitem hbelow).imp_left fun hin => List.mem_append_left rows hin
    · by_cases hbelow : item.id ≤ s.client.cursor
      · exact (h.complete item hitem hbelow).imp_left fun hin => List.mem_append_left rows hin
      · left
        apply List.mem_append_right
        have hshape := h.page
        rw [hpage] at hshape hcovers
        cases hshape with
        | @answered limit first second hlimit hids hids' hkeeps =>
            have hseen : item ∈ pageItems channelId viewerId first second := by
              apply mem_pageItems_of_timeline hitem
              intro hmissed
              exact absurd hbound (hcovers item hitem hmissed row hrow).not_ge
            exact mem_pageRows hids hids' hkeeps hseen (lt_of_not_ge hbelow) hrow hbound
  · exact .idle

/-- The step lemma. -/
theorem Caught.step (h : Caught channelId viewerId s₀ s)
    (hs : s.step channelId viewerId e = some s') (hp : InOrder channelId viewerId e s s') :
    Caught channelId viewerId s₀ s' := by
  cases e with
  | write p =>
      obtain ⟨c, hc, rfl⟩ := Option.map_eq_some_iff.mp hs
      exact h.write hc hp.ids hp.above
  | call limit =>
      rw [System.step] at hs
      split_ifs at hs with hcall
      obtain rfl := Option.some.inj hs
      exact ⟨h.guarded, h.ids, h.complete, .asked hcall.1⟩
  | read =>
      rw [System.step] at hs
      have hshape := h.page
      cases hpage : s.client.page with
      | none =>
          rw [hpage] at hs
          cases hs
      | some call =>
          rw [hpage] at hs hshape
          cases hshape with
          | asked hlimit =>
              obtain rfl := Option.some.inj hs
              exact ⟨h.guarded, h.ids, h.complete, .half hlimit h.ids (Keeps.refl _)⟩
          | half hlimit hids hkeeps =>
              obtain rfl := Option.some.inj hs
              exact ⟨h.guarded, h.ids, h.complete, .answered hlimit hids h.ids hkeeps⟩
          | answered hlimit hids hids' hkeeps => cases hs
  | receive =>
      have hcovers := hp.covers rfl
      rw [System.step] at hs
      cases hpage : s.client.page with
      | none =>
          rw [hpage] at hs
          cases hs
      | some call =>
          obtain ⟨request, seen⟩ := call
          rw [hpage] at hs
          cases request with
          | ret rows =>
              obtain rfl := Option.some.inj hs
              exact h.receive hpage hcovers
          | raise e => cases hs
          | select k => cases hs
          | write n t f ok fail => cases hs
          | commit t k => cases hs
          | rollback k => cases hs
          | act t g k => cases hs

/-- The run lemma. -/
theorem Caught.reach (h : Caught channelId viewerId s₀ s)
    (hr : Reach channelId viewerId (InOrder channelId viewerId) s t) :
    Caught channelId viewerId s₀ t := by
  induction hr with
  | start => exact h
  | step _ hs hp ih => exact ih.step hs hp

/-! ## When nobody writes any more -/

/-- The open call has read the store that is committed now. -/
def Fresh (s : System π) : Prop :=
  ∀ request seen, s.client.page = some (request, seen) → ∀ db ∈ seen, db = s.writers.db

theorem fresh_step (h : Fresh s) (hs : s.step channelId viewerId e = some s')
    (hquiet : Quiet e s s') : Fresh s' ∧ s'.writers = s.writers := by
  cases e with
  | write p => exact absurd rfl (hquiet p)
  | call limit =>
      rw [System.step] at hs
      split_ifs at hs
      obtain rfl := Option.some.inj hs
      refine ⟨fun request seen hpage db hdb => ?_, rfl⟩
      cases hpage
      cases hdb
  | read =>
      rw [System.step] at hs
      cases hpage : s.client.page with
      | none =>
          rw [hpage] at hs
          cases hs
      | some call =>
          obtain ⟨request, seen⟩ := call
          rw [hpage] at hs
          dsimp only at hs
          split_ifs at hs
          obtain rfl := Option.some.inj hs
          refine ⟨fun request' seen' hpage' db hdb => ?_, rfl⟩
          obtain ⟨_, rfl⟩ := Prod.mk.inj (Option.some.inj hpage')
          rcases List.mem_append.mp hdb with hold | hnew
          · exact h request seen hpage db hold
          · exact List.mem_singleton.mp hnew
  | receive =>
      rw [System.step] at hs
      split at hs
      · obtain rfl := Option.some.inj hs
        refine ⟨fun request seen hpage => ?_, rfl⟩
        cases hpage
      · cases hs

/-- Then no statement comes too early. -/
theorem inOrder_of_quiet (hids : IdsUnique s.writers.db) (h : Fresh s)
    (hs : s.step channelId viewerId e = some s') (hquiet : Quiet e s s') :
    InOrder channelId viewerId e s s' := by
  have hsame := (fresh_step h hs hquiet).2
  constructor
  · rw [hsame]
    exact hids
  · intro item hitem hnot
    rw [hsame] at hitem
    exact absurd hitem hnot
  · intro _
    cases hpage : s.client.page with
    | none => exact trivial
    | some call =>
        obtain ⟨request, seen⟩ := call
        unfold Covers
        split
        · rename_i rows first second hcall
          obtain ⟨_, rfl⟩ := Prod.mk.inj (Option.some.inj hcall)
          have hfirst : first = s.writers.db := h request _ hpage first (by simp)
          have hsecond : second = s.writers.db := h request _ hpage second (by simp)
          intro item hitem hmissed
          rw [hfirst, hsecond] at hmissed
          cases item <;> exact absurd hitem hmissed
        · exact trivial

theorem caught_of_quiet (h : Caught channelId viewerId s₀ s) (hidle : s.client.page = none)
    (hr : Reach channelId viewerId Quiet s t) :
    Caught channelId viewerId s₀ t ∧ Fresh t := by
  induction hr with
  | start =>
      refine ⟨h, fun request seen hpage => ?_⟩
      rw [hidle] at hpage
      cases hpage
  | step _ hs hquiet ih =>
      obtain ⟨hcaught, hfresh⟩ := ih
      exact ⟨hcaught.step hs (inOrder_of_quiet hcaught.ids hfresh hs hquiet),
        (fresh_step hfresh hs hquiet).1⟩

/-- Nothing lies above the cursor of a call that gets an empty page. -/
theorem le_cursor_of_empty (h : Caught channelId viewerId s₀ t) (hfresh : Fresh t)
    {seen : List Db} (hempty : t.client.page = some (.ret [], seen)) {item : Item}
    (hitem : item ∈ timeline t.writers.db channelId viewerId) : item.id ≤ t.client.cursor := by
  have hshape := h.page
  generalize hcall : t.client.page = call at hshape
  cases hshape with
  | idle =>
      rw [hempty] at hcall
      cases hcall
  | asked hlimit =>
      rw [hempty] at hcall
      cases hcall
  | half hlimit hids hkeeps =>
      rw [hempty] at hcall
      cases hcall
  | @answered limit first second hlimit hids hids' hkeeps =>
      have hfirst : first = t.writers.db := hfresh _ _ hcall first (by simp)
      have hsecond : second = t.writers.db := hfresh _ _ hcall second (by simp)
      have hrows : pageRows channelId viewerId t.client.cursor limit first second = [] := by
        rw [hempty] at hcall
        exact (Request.ret.inj (Prod.mk.inj (Option.some.inj hcall)).1).symm
      rw [pageRows_eq hids hids' hkeeps, List.take_eq_nil_iff, hfirst, hsecond] at hrows
      rcases hrows with hzero | hnil
      · omega
      · have hskip := List.filter_eq_nil_iff.mp hnil item hitem
        exact not_lt.mp (by simpa using hskip)

/-- In the runs that keep the order, a client that pages until an empty page after the last
write has every visible message and every retraction but what was below its cursor before. -/
theorem catch_up_loses_nothing (writers : π → Writer) {db : Db} (hids : IdsUnique db)
    (mem : Memory) (cursor : String) (received : List Item)
    (hrun : Reach channelId viewerId (InOrder channelId viewerId)
      (start writers db mem cursor received) s)
    (hidle : s.client.page = none) (hquiet : Reach channelId viewerId Quiet s t)
    {seen : List Db} (hempty : t.client.page = some (.ret [], seen)) :
    (∀ m ∈ t.writers.db.messages, m.channelId = channelId → VisibleTo t.writers.db viewerId m →
      .message m ∈ t.client.received ∨
        .message m ∈ timeline db channelId viewerId ∧ m.id ≤ cursor) ∧
    ∀ r ∈ t.writers.db.retractions, r.channelId = channelId →
      .retraction r ∈ t.client.received ∨
        .retraction r ∈ timeline db channelId viewerId ∧ r.id ≤ cursor := by
  have hcaught := (caught_start writers hids mem cursor received).reach hrun
  obtain ⟨hdone, hfresh⟩ := caught_of_quiet hcaught hidle hquiet
  have hall : ∀ item ∈ timeline t.writers.db channelId viewerId, item ∈ t.client.received ∨
      item ∈ timeline db channelId viewerId ∧ item.id ≤ cursor := fun item hitem =>
    hdone.complete item hitem (le_cursor_of_empty hdone hfresh hempty hitem)
  constructor
  · intro m hm hchannel hvisible
    exact hall (.message m) (mem_timeline.mpr (Or.inl ⟨m, hm, ⟨hchannel, hvisible⟩, rfl⟩))
  · intro r hr hchannel
    exact hall (.retraction r) (mem_timeline.mpr (Or.inr ⟨r, hr, hchannel, rfl⟩))

end

/-! ## Two sends -/

/-- A schedule in which every step is checked. -/
def play {π : Type} [DecidableEq π] (channelId viewerId : String)
    (B : Event π → System π → System π → Bool) :
    List (Event π) → System π → Option (System π)
  | [], s => some s
  | e :: es, s => (s.step channelId viewerId e).bind fun s' =>
      if B e s s' then play channelId viewerId B es s' else none

theorem reach_of_play {π : Type} [DecidableEq π] {channelId viewerId : String}
    {P : Event π → System π → System π → Prop} {B : Event π → System π → System π → Bool}
    (hB : ∀ e s s', B e s s' = true → P e s s') {es : List (Event π)} {s₀ s t : System π}
    (h : Reach channelId viewerId P s₀ s) (hplay : play channelId viewerId B es s = some t) :
    Reach channelId viewerId P s₀ t := by
  induction es generalizing s with
  | nil =>
      obtain rfl : s = t := by simpa [play] using hplay
      exact h
  | cons e es ih =>
      obtain ⟨s', hs, hrest⟩ := Option.bind_eq_some_iff.mp hplay
      split_ifs at hrest with hb
      exact ih (h.step hs (hB e s s' hb)) hrest

def roomUser (id : String) : User := { id := id, username := id, aikoUsername := id }

def emptyRoom : Db :=
  { users := [roomUser "u1", roomUser "u2"],
    channels := [upsertedChannel "ch1" "general"] }

theorem emptyRoom_ids : IdsUnique emptyRoom where
  nodup := by decide
  nonempty := by decide

/-- Each of two members sends a message under an id of its own. -/
def senders (user rowId : Fin 2 → String) (p : Fin 2) : Writer :=
  .createOutbound (roomUser (user p)) (upsertedChannel "ch1" "general")
    { body := codes "hi", clientMsgId := codes (rowId p) } ⟨rowId p, [], 0, 0⟩

def isQuiet (e : Event (Fin 2)) (_ _ : System (Fin 2)) : Bool :=
  match e with
  | .write _ => false
  | _ => true

theorem quiet_of_isQuiet (e : Event (Fin 2)) (s s' : System (Fin 2)) (h : isQuiet e s s' = true) :
    Quiet e s s' := by
  rintro p rfl
  cases h

/-- A client that has nothing, and two sends under these ids. -/
def room (firstId secondId : String) : System (Fin 2) :=
  start (senders ![ "u1", "u2"] ![firstId, secondId]) emptyRoom {} "" []

/-- The second send is committed and read before the first is written. -/
def overtaken : List (Event (Fin 2)) :=
  let first : Fin 2 := ⟨0, by decide⟩
  let second : Fin 2 := ⟨1, by decide⟩
  [.write first] ++ List.replicate 4 (.write second) ++ [.call 10, .read, .read, .receive] ++
    List.replicate 3 (.write first)

/-- The page of a call, when it is empty. -/
def emptyPage (s : System (Fin 2)) : Bool :=
  match s.client.page with
  | some (.ret [], _) => true
  | _ => false

theorem page_of_emptyPage {s : System (Fin 2)} (h : emptyPage s = true) :
    ∃ seen, s.client.page = some (.ret [], seen) := by
  unfold emptyPage at h
  split at h
  · rename_i seen hpage
    exact ⟨seen, hpage⟩
  · cases h

/-- The first id is the smaller one: its row is behind the cursor when it is committed. -/
theorem an_overtaken_send_is_lost :
    ∃ s t : System (Fin 2), ∃ seen : List Db,
      Reach "ch1" "u1" (fun _ _ _ => True) (room "m1" "m2") s ∧ s.client.page = none ∧
      Reach "ch1" "u1" Quiet s t ∧ t.client.page = some (.ret [], seen) ∧
      ∃ m ∈ t.writers.db.messages, m.channelId = "ch1" ∧ VisibleTo t.writers.db "u1" m ∧
        .message m ∉ t.client.received ∧ .message m ∉ timeline emptyRoom "ch1" "u1" := by
  have hcheck : ((play "ch1" "u1" (fun _ _ _ => true) overtaken (room "m1" "m2")).bind fun s =>
      (play "ch1" "u1" isQuiet [.call 10, .read, .read] s).map fun t =>
        s.client.page.isNone && emptyPage t && t.writers.db.messages.any fun m =>
          visible t.writers.db "ch1" "u1" m && decide (.message m ∉ t.client.received)) =
        some true := by
    decide +kernel
  obtain ⟨s, hs, hrest⟩ := Option.bind_eq_some_iff.mp hcheck
  obtain ⟨t, ht, hfacts⟩ := Option.map_eq_some_iff.mp hrest
  rw [Bool.and_eq_true, Bool.and_eq_true, Option.isNone_iff_eq_none, List.any_eq_true] at hfacts
  obtain ⟨⟨hidle, hempty⟩, m, hm, hlost⟩ := hfacts
  rw [Bool.and_eq_true, decide_eq_true_eq, visible_iff] at hlost
  obtain ⟨seen, hseen⟩ := page_of_emptyPage hempty
  have hnone : timeline emptyRoom "ch1" "u1" = [] := rfl
  refine ⟨s, t, seen, reach_of_play (fun _ _ _ _ => trivial) .start hs, hidle,
    reach_of_play quiet_of_isQuiet .start ht, hseen, m, hm, hlost.1.1, hlost.1.2, hlost.2, ?_⟩
  rw [hnone]
  exact List.not_mem_nil

def sees (first second : Db) (item : Item) : Bool :=
  match item with
  | .message _ => decide (item ∈ timeline first "ch1" "u1")
  | .retraction _ => decide (item ∈ timeline second "ch1" "u1")

def covers (s : System (Fin 2)) : Bool :=
  match s.client.page with
  | some (.ret rows, [first, second]) => (timeline s.writers.db "ch1" "u1").all fun item =>
      sees first second item || rows.all fun row => decide (row.id < item.id)
  | _ => true

def inOrder (_ : Event (Fin 2)) (s s' : System (Fin 2)) : Bool :=
  decide (timelineIds s'.writers.db).Nodup && decide ("" ∉ timelineIds s'.writers.db) &&
    (timeline s'.writers.db "ch1" "u1").all (fun item =>
      decide (item ∈ timeline s.writers.db "ch1" "u1") || decide (s.client.cursor < item.id)) &&
    covers s

theorem inOrder_of_check (e : Event (Fin 2)) (s s' : System (Fin 2))
    (h : inOrder e s s' = true) : InOrder "ch1" "u1" e s s' := by
  simp only [inOrder, Bool.and_eq_true, decide_eq_true_eq, List.all_eq_true, Bool.or_eq_true] at h
  obtain ⟨⟨⟨hnodup, hempty⟩, habove⟩, hcovers⟩ := h
  constructor
  · exact ⟨hnodup, hempty⟩
  · intro item hitem hnot
    exact (habove item hitem).resolve_left hnot
  · intro _
    unfold Covers
    split
    · rename_i rows first second hpage
      simp only [covers, hpage, List.all_eq_true, Bool.or_eq_true, decide_eq_true_eq] at hcovers
      intro item hitem hmissed
      apply (hcovers item hitem).resolve_left
      intro hseen
      cases item <;> exact hmissed (of_decide_eq_true hseen)
    · exact trivial

/-- With the larger id written last the same run loses nothing. -/
theorem catch_up_loses_nothing_room :
    ∃ s t : System (Fin 2), Reach "ch1" "u1" (InOrder "ch1" "u1") (room "m2" "m1") s ∧
      Reach "ch1" "u1" Quiet s t ∧
      (t.writers.db.messages.map (·.id) = ["m1", "m2"] ∧
        t.client.received.map Item.id = ["m1", "m2"]) ∧
      ∀ m ∈ t.writers.db.messages, m.channelId = "ch1" → VisibleTo t.writers.db "u1" m →
        .message m ∈ t.client.received ∨
          .message m ∈ timeline emptyRoom "ch1" "u1" ∧ m.id ≤ "" := by
  have hcheck : ((play "ch1" "u1" inOrder overtaken (room "m2" "m1")).bind fun s =>
      (play "ch1" "u1" isQuiet [.call 10, .read, .read, .receive, .call 10, .read, .read] s).map
        fun t => s.client.page.isNone && emptyPage t &&
          decide (t.writers.db.messages.map (·.id) = ["m1", "m2"]) &&
          decide (t.client.received.map Item.id = ["m1", "m2"])) = some true := by
    decide +kernel
  obtain ⟨s, hs, hrest⟩ := Option.bind_eq_some_iff.mp hcheck
  obtain ⟨t, ht, hfacts⟩ := Option.map_eq_some_iff.mp hrest
  simp only [Bool.and_eq_true, Option.isNone_iff_eq_none, decide_eq_true_eq] at hfacts
  obtain ⟨⟨⟨hidle, hempty⟩, hrows⟩, hreceived⟩ := hfacts
  obtain ⟨seen, hseen⟩ := page_of_emptyPage hempty
  have hrun := reach_of_play inOrder_of_check .start hs
  have hquiet := reach_of_play quiet_of_isQuiet .start ht
  have hall := catch_up_loses_nothing (senders ![ "u1", "u2"] !["m2", "m1"]) emptyRoom_ids {} "" []
    hrun hidle hquiet hseen
  exact ⟨s, t, hrun, hquiet, ⟨hrows, hreceived⟩, hall.1⟩

end AikoIsland.CatchUp
