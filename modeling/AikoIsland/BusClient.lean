import AikoIsland.OrderedDict
import Mathlib.Data.List.Infix

/-!
# The bus client

The actor finds the chat server, relays the configured channels at once and follows
the `channel_list` share for the others. Discovery does not promise that an add
comes after a remove, and a share event can come when no server is attached.

The bus keeps one list of topics for the payload handler, with a topic as often
as the handler is registered for it. Registration and removal do not raise here.
All of it runs on one thread, so a run is a list of events.

The handlers agree with `_subscribed` after every event. Since the last attach,
a channel is subscribed when the last event that names it says so, and a
configured channel also when no event names it.
-/
namespace AikoIsland.BusClient
open OrderedDict

inductive Signal
  | channelAdd (name : String)
  | channelRemove (name : String)
  deriving DecidableEq, Repr

/-- The share consumer is known by its control topic. -/
structure Actor where
  chatServer : Option String := none
  serverTopicPath : Option String := none
  subscribed : List (String × String) := []
  ecConsumer : Option String := none
  handlers : List String := []
  signals : List Signal := []
  deriving DecidableEq, Repr

def channelNameFromItem (itemName : Option String) : Option String :=
  match itemName with
  | none => none
  | some itemName =>
      let itemPrefix := "channel_list.".toList
      if itemPrefix <+: itemName.toList then
        match itemName.toList.drop itemPrefix.length with
        | [] => none
        | name => some (String.ofList name)
      else none

def topicOf (path channel : String) : String := path ++ "/" ++ channel

def subscribeChannel (actor : Actor) (channel : String) : Actor :=
  match actor.serverTopicPath with
  | none => actor
  | some path =>
      if channel ∈ keys actor.subscribed then actor
      else
        let topic := topicOf path channel
        { actor with
          handlers := actor.handlers ++ [topic]
          subscribed := set actor.subscribed channel topic }

def unsubscribeChannel (actor : Actor) (channel : String) : Actor :=
  match get actor.subscribed channel with
  | none => actor
  | some topic =>
      { actor with
        subscribed := pop actor.subscribed channel
        handlers := actor.handlers.erase topic }

def teardownAttachments (actor : Actor) : Actor :=
  { actor with
    handlers := (actor.subscribed.map Prod.snd).foldl List.erase actor.handlers
    subscribed := []
    ecConsumer := none }

def discoveryAdd (channels : List String) (actor : Actor) (topicPath service : String) : Actor :=
  let actor := teardownAttachments actor
  let actor := { actor with serverTopicPath := some topicPath, chatServer := some service }
  let actor := channels.foldl subscribeChannel actor
  { actor with ecConsumer := some (topicOf topicPath "control") }

def discoveryRemove (actor : Actor) : Actor :=
  teardownAttachments { actor with chatServer := none, serverTopicPath := none }

def onShareEvent (actor : Actor) (command : String) (itemName : Option String) : Actor :=
  match channelNameFromItem itemName with
  | none => actor
  | some name =>
      if command = "add" ∨ command = "update" then
        let actor := subscribeChannel actor name
        { actor with signals := actor.signals ++ [.channelAdd name] }
      else if command = "remove" then
        let actor := unsubscribeChannel actor name
        { actor with signals := actor.signals ++ [.channelRemove name] }
      else actor

inductive Event
  | discoveryAdd (topicPath service : String)
  | discoveryRemove
  | share (command : String) (itemName : Option String)
  deriving DecidableEq, Repr

def step (channels : List String) (actor : Actor) : Event → Actor
  | .discoveryAdd topicPath service => discoveryAdd channels actor topicPath service
  | .discoveryRemove => discoveryRemove actor
  | .share command itemName => onShareEvent actor command itemName

def run (channels : List String) (events : List Event) : Actor :=
  events.foldl (step channels) {}

/-! ## The bookkeeping -/

/-- The handlers are those of the subscribed channels, each under the path of the server. -/
structure Booked (actor : Actor) : Prop where
  keys : (keys actor.subscribed).Nodup
  topics : ∀ i ∈ actor.subscribed, ∃ path, actor.serverTopicPath = some path ∧
    i.2 = topicOf path i.1
  handlers : actor.handlers.Perm (actor.subscribed.map Prod.snd)

section
variable {channels : List String} {actor : Actor} {channel path : String}

theorem topicOf_injective (path : String) : Function.Injective (topicOf path) := by
  intro channel channel' h
  have hlist := congrArg String.toList h
  simp only [topicOf, String.toList_append, List.append_cancel_left_eq] at hlist
  exact String.toList_inj.mp hlist

theorem Booked.of_eq {actor' : Actor} (h : Booked actor)
    (hsub : actor'.subscribed = actor.subscribed)
    (hpath : actor'.serverTopicPath = actor.serverTopicPath)
    (hhandlers : actor'.handlers = actor.handlers) : Booked actor' := by
  constructor
  · rw [hsub]
    exact h.keys
  · rw [hsub, hpath]
    exact h.topics
  · rw [hsub, hhandlers]
    exact h.handlers

theorem booked_of_nil (hsub : actor.subscribed = []) (hhandlers : actor.handlers = []) :
    Booked actor := by
  constructor <;> simp [hsub, hhandlers, OrderedDict.keys]

/-- Removing the handlers of the subscribed topics leaves none. -/
theorem foldl_erase_of_perm {xs ys : List String} (h : xs.Perm ys) :
    ys.foldl List.erase xs = [] := by
  induction ys generalizing xs with
  | nil => exact h.eq_nil
  | cons y ys ih =>
      apply ih
      have hmem : y ∈ xs := h.mem_iff.mpr List.mem_cons_self
      exact (List.perm_cons_erase hmem).symm.trans h |>.cons_inv

theorem handlers_teardown (h : Booked actor) : (teardownAttachments actor).handlers = [] :=
  foldl_erase_of_perm h.handlers

theorem Booked.subscribe (h : Booked actor) (channel : String) :
    Booked (subscribeChannel actor channel) := by
  unfold subscribeChannel
  cases hpath : actor.serverTopicPath with
  | none => exact h
  | some path =>
      dsimp only
      split_ifs with hin
      · exact h
      · constructor
        · exact nodup_set h.keys
        · intro i hi
          use path
          constructor
          · rfl
          · rcases mem_set hi with hi | rfl
            · obtain ⟨path', hpath', htopic⟩ := h.topics i hi
              rw [hpath] at hpath'
              cases hpath'
              exact htopic
            · rfl
        · rw [set_of_notMem hin]
          simpa using h.handlers.append_right [topicOf path channel]

theorem Booked.unsubscribe (h : Booked actor) (channel : String) :
    Booked (unsubscribeChannel actor channel) := by
  unfold unsubscribeChannel
  cases hget : get actor.subscribed channel with
  | none => exact h
  | some topic =>
      constructor
      · exact nodup_pop h.keys
      · exact fun i hi => h.topics i (List.mem_of_mem_filter hi)
      · have hperm := (perm_cons_pop h.keys hget).map Prod.snd
        have herase := (h.handlers.trans hperm).erase topic
        simpa using herase

theorem Booked.foldl_subscribe (h : Booked actor) (channels : List String) :
    Booked (channels.foldl subscribeChannel actor) := by
  induction channels generalizing actor with
  | nil => exact h
  | cons channel channels ih => exact ih (h.subscribe channel)

theorem step_unnamed {command : String} {itemName : Option String}
    (h : channelNameFromItem itemName = none) :
    step channels actor (.share command itemName) = actor := by
  rw [step, onShareEvent, h]

theorem step_named {command name : String} {itemName : Option String}
    (h : channelNameFromItem itemName = some name) :
    step channels actor (.share command itemName) =
      if command = "add" ∨ command = "update" then
        { subscribeChannel actor name with
          signals := (subscribeChannel actor name).signals ++ [.channelAdd name] }
      else if command = "remove" then
        { unsubscribeChannel actor name with
          signals := (unsubscribeChannel actor name).signals ++ [.channelRemove name] }
      else actor := by
  rw [step, onShareEvent, h]

theorem Booked.step (h : Booked actor) (event : Event) : Booked (step channels actor event) := by
  cases event with
  | discoveryAdd topicPath service =>
      have hempty : Booked { teardownAttachments actor with
          serverTopicPath := some topicPath, chatServer := some service } :=
        booked_of_nil rfl (handlers_teardown h)
      exact (hempty.foldl_subscribe channels).of_eq rfl rfl rfl
  | discoveryRemove =>
      apply booked_of_nil rfl
      exact foldl_erase_of_perm h.handlers
  | share command itemName =>
      cases hname : channelNameFromItem itemName with
      | none =>
          rw [step_unnamed hname]
          exact h
      | some name =>
          rw [step_named hname]
          split_ifs
          · exact (h.subscribe name).of_eq rfl rfl rfl
          · exact (h.unsubscribe name).of_eq rfl rfl rfl
          · exact h

/-- Distinct channels have distinct topics, since all are under one path. -/
theorem Booked.topics_nodup (h : Booked actor) : (actor.subscribed.map Prod.snd).Nodup := by
  cases hpath : actor.serverTopicPath with
  | none =>
      have hnil : actor.subscribed = [] := by
        apply List.eq_nil_iff_forall_not_mem.mpr
        intro i hi
        obtain ⟨path, hsome, _⟩ := h.topics i hi
        rw [hpath] at hsome
        cases hsome
      simp [hnil]
  | some path =>
      have htopics : actor.subscribed.map Prod.snd =
          (OrderedDict.keys actor.subscribed).map (topicOf path) := by
        rw [OrderedDict.keys, List.map_map]
        apply List.map_congr_left
        intro i hi
        obtain ⟨path', hsome, htopic⟩ := h.topics i hi
        rw [hpath] at hsome
        cases hsome
        exact htopic
      rw [htopics]
      exact h.keys.map (topicOf_injective path)

theorem run_concat (events : List Event) (event : Event) :
    run channels (events ++ [event]) = step channels (run channels events) event := by
  rw [run, List.foldl_append]
  rfl

theorem booked_run (channels : List String) (events : List Event) : Booked (run channels events) := by
  induction events using List.reverseRecOn with
  | nil => exact booked_of_nil rfl rfl
  | append_singleton events event ih =>
      rw [run_concat]
      exact ih.step event

/-! ## Since the last attach -/

def Event.IsShare (event : Event) : Prop := ∃ command itemName, event = .share command itemName

def Adds (channel : String) (event : Event) : Prop :=
  ∃ command itemName, event = .share command itemName ∧
    channelNameFromItem itemName = some channel ∧ (command = "add" ∨ command = "update")

def Removes (channel : String) (event : Event) : Prop :=
  ∃ itemName, event = .share "remove" itemName ∧ channelNameFromItem itemName = some channel

/-- The last event that names the channel is an add or an update. -/
def LastAdds (channel : String) (events : List Event) : Prop :=
  ∃ early event late, events = early ++ event :: late ∧ Adds channel event ∧
    ∀ other ∈ late, ¬Adds channel other ∧ ¬Removes channel other

theorem not_removes_of_adds {event : Event} (h : Adds channel event) : ¬Removes channel event := by
  obtain ⟨command, itemName, rfl, _, hcommand⟩ := h
  rintro ⟨itemName', hevent, _⟩
  cases hevent
  revert hcommand
  decide

theorem lastAdds_concat {events : List Event} {event : Event} :
    LastAdds channel (events ++ [event]) ↔
      Adds channel event ∨ LastAdds channel events ∧ ¬Removes channel event := by
  constructor
  · rintro ⟨early, e, late, hsplit, hadds, hlate⟩
    cases late using List.reverseRecOn with
    | nil =>
        obtain ⟨_, he⟩ := List.append_inj' hsplit rfl
        rw [List.singleton_inj.mp he]
        exact Or.inl hadds
    | append_singleton late x =>
        have hassoc : events ++ [event] = (early ++ e :: late) ++ [x] := by
          rw [hsplit]
          simp
        obtain ⟨hevents, hx⟩ := List.append_inj' hassoc rfl
        rw [List.singleton_inj.mp hx]
        right
        constructor
        · exact ⟨early, e, late, hevents, hadds, fun o ho => hlate o (by simp [ho])⟩
        · exact (hlate x (by simp)).2
  · intro h
    by_cases hadds : Adds channel event
    · exact ⟨events, event, [], rfl, hadds, by simp⟩
    · obtain ⟨⟨early, e, late, hsplit, he, hlate⟩, hremoves⟩ := h.resolve_left hadds
      use early, e, late ++ [event]
      constructor
      · rw [hsplit]
        simp
      constructor
      · exact he
      · intro other hother
        rcases List.mem_append.mp hother with ho | ho
        · exact hlate other ho
        · rw [List.mem_singleton.mp ho]
          exact ⟨hadds, hremoves⟩

theorem path_subscribe (actor : Actor) (channel : String) :
    (subscribeChannel actor channel).serverTopicPath = actor.serverTopicPath := by
  unfold subscribeChannel
  cases hpath : actor.serverTopicPath with
  | none => exact hpath
  | some path =>
      dsimp only
      split_ifs
      · exact hpath
      · rfl

theorem path_unsubscribe (actor : Actor) (channel : String) :
    (unsubscribeChannel actor channel).serverTopicPath = actor.serverTopicPath := by
  unfold unsubscribeChannel
  cases get actor.subscribed channel with
  | none => rfl
  | some topic => rfl

theorem path_share {event : Event} (h : event.IsShare) :
    (step channels actor event).serverTopicPath = actor.serverTopicPath := by
  obtain ⟨command, itemName, rfl⟩ := h
  cases hname : channelNameFromItem itemName with
  | none => rw [step_unnamed hname]
  | some name =>
      rw [step_named hname]
      split_ifs
      · exact path_subscribe actor name
      · exact path_unsubscribe actor name
      · rfl

theorem mem_keys_subscribe (hpath : actor.serverTopicPath = some path) (name : String) :
    channel ∈ keys (subscribeChannel actor name).subscribed ↔
      channel ∈ keys actor.subscribed ∨ channel = name := by
  unfold subscribeChannel
  rw [hpath]
  dsimp only
  split_ifs with hin
  · constructor
    · exact Or.inl
    · rintro (hc | rfl)
      · exact hc
      · exact hin
  · exact mem_keys_set

theorem mem_keys_unsubscribe (name : String) :
    channel ∈ keys (unsubscribeChannel actor name).subscribed ↔
      channel ∈ keys actor.subscribed ∧ channel ≠ name := by
  unfold unsubscribeChannel
  cases hget : get actor.subscribed name with
  | none =>
      have hout : name ∉ keys actor.subscribed := by
        intro hin
        obtain ⟨topic, htopic⟩ := get_of_mem_keys hin
        rw [hget] at htopic
        cases htopic
      constructor
      · intro hc
        exact ⟨hc, fun he => hout (he ▸ hc)⟩
      · exact fun hc => hc.1
  | some topic => exact mem_keys_pop

/-- What one share event does to the subscription of a channel. -/
theorem mem_keys_share {event : Event} (hpath : actor.serverTopicPath = some path)
    (h : event.IsShare) :
    channel ∈ keys (step channels actor event).subscribed ↔
      Adds channel event ∨ channel ∈ keys actor.subscribed ∧ ¬Removes channel event := by
  obtain ⟨command, itemName, rfl⟩ := h
  cases hname : channelNameFromItem itemName with
  | none =>
      rw [step_unnamed hname]
      simp [Adds, Removes, hname]
  | some name =>
      rw [step_named hname]
      split_ifs with hadd hremove
      · have hne : command ≠ "remove" := by
          rcases hadd with rfl | rfl
          · decide
          · decide
        rw [mem_keys_subscribe hpath]
        simp only [Adds, Removes, Event.share.injEq, hne, false_and, exists_false,
          not_false_eq_true, and_true]
        constructor
        · rintro (hc | rfl)
          · exact Or.inr hc
          · exact Or.inl ⟨command, itemName, ⟨rfl, rfl⟩, hname, hadd⟩
        · rintro (⟨_, _, ⟨rfl, rfl⟩, hc, _⟩ | hc)
          · rw [hname] at hc
            exact Or.inr (Option.some.inj hc).symm
          · exact Or.inl hc
      · subst hremove
        rw [mem_keys_unsubscribe]
        have hno : ¬Adds channel (.share "remove" itemName) := by
          rintro ⟨_, _, he, _, hcommand⟩
          cases he
          exact hadd hcommand
        have hiff : Removes channel (.share "remove" itemName) ↔ channel = name := by
          constructor
          · rintro ⟨_, he, hc⟩
            cases he
            rw [hname] at hc
            exact (Option.some.inj hc).symm
          · rintro rfl
            exact ⟨itemName, rfl, hname⟩
        simp only [hno, hiff, false_or, ne_eq]
      · have hnoAdd : ¬Adds channel (.share command itemName) := by
          rintro ⟨_, _, he, _, hcommand⟩
          cases he
          exact hadd hcommand
        have hnoRemove : ¬Removes channel (.share command itemName) := by
          rintro ⟨_, he, _⟩
          cases he
          exact hremove rfl
        simp only [hnoAdd, hnoRemove, not_false_eq_true, and_true, false_or]

theorem attached_foldl (hpath : actor.serverTopicPath = some path)
    (hnil : actor.subscribed = []) (channels : List String) :
    (channels.foldl subscribeChannel actor).serverTopicPath = some path ∧
    ∀ channel, channel ∈ keys (channels.foldl subscribeChannel actor).subscribed ↔
      channel ∈ channels := by
  induction channels using List.reverseRecOn with
  | nil => exact ⟨hpath, by simp [hnil, keys]⟩
  | append_singleton channels name ih =>
      rw [List.foldl_append, List.foldl_cons, List.foldl_nil]
      constructor
      · rw [path_subscribe]
        exact ih.1
      · intro channel
        rw [mem_keys_subscribe ih.1, ih.2]
        simp

/-- The state after an attach and share events. -/
theorem attached_run (before : List Event) (service : String) {shares : List Event}
    (h : ∀ event ∈ shares, event.IsShare) :
    (run channels (before ++ .discoveryAdd path service :: shares)).serverTopicPath = some path ∧
    ∀ channel, channel ∈
        keys (run channels (before ++ .discoveryAdd path service :: shares)).subscribed ↔
      LastAdds channel shares ∨
        channel ∈ channels ∧ ∀ event ∈ shares, ¬Removes channel event := by
  induction shares using List.reverseRecOn with
  | nil =>
      rw [run_concat]
      have hattached : (step channels (run channels before)
            (.discoveryAdd path service)).serverTopicPath = some path ∧
          ∀ channel, channel ∈ keys (step channels (run channels before)
            (.discoveryAdd path service)).subscribed ↔ channel ∈ channels :=
        attached_foldl rfl rfl channels
      constructor
      · exact hattached.1
      · intro channel
        rw [hattached.2]
        simp [LastAdds]
  | append_singleton shares event ih =>
      have hshare : event.IsShare := h event (by simp)
      have hassoc : before ++ Event.discoveryAdd path service :: (shares ++ [event]) =
          (before ++ .discoveryAdd path service :: shares) ++ [event] := by simp
      obtain ⟨hpath, hkeys⟩ := ih fun e he => h e (by simp [he])
      rw [hassoc, run_concat]
      constructor
      · rw [path_share hshare]
        exact hpath
      · intro channel
        rw [mem_keys_share hpath hshare, hkeys, lastAdds_concat]
        simp only [List.mem_append, List.mem_singleton, or_imp, forall_and, forall_eq]
        have hexcl := @not_removes_of_adds channel event
        tauto

theorem detached_share {event : Event} (h : event.IsShare) (hpath : actor.serverTopicPath = none)
    (hsub : actor.subscribed = []) :
    (step channels actor event).subscribed = [] ∧
      (step channels actor event).handlers = actor.handlers := by
  obtain ⟨command, itemName, rfl⟩ := h
  cases hname : channelNameFromItem itemName with
  | none =>
      rw [step_unnamed hname]
      exact ⟨hsub, rfl⟩
  | some name =>
      have hadd : subscribeChannel actor name = actor := by rw [subscribeChannel, hpath]
      have hremove : unsubscribeChannel actor name = actor := by
        rw [unsubscribeChannel, hsub]
        rfl
      rw [step_named hname, hadd, hremove]
      split_ifs
      · exact ⟨hsub, rfl⟩
      · exact ⟨hsub, rfl⟩
      · exact ⟨hsub, rfl⟩

theorem detached_run (before : List Event) {shares : List Event}
    (h : ∀ event ∈ shares, event.IsShare) :
    (run channels (before ++ .discoveryRemove :: shares)).serverTopicPath = none ∧
    (run channels (before ++ .discoveryRemove :: shares)).subscribed = [] ∧
    (run channels (before ++ .discoveryRemove :: shares)).handlers = [] := by
  induction shares using List.reverseRecOn with
  | nil =>
      rw [run_concat]
      constructor
      · rfl
      constructor
      · rfl
      · exact foldl_erase_of_perm (booked_run channels before).handlers
  | append_singleton shares event ih =>
      have hshare : event.IsShare := h event (by simp)
      have hassoc : before ++ Event.discoveryRemove :: (shares ++ [event]) =
          (before ++ .discoveryRemove :: shares) ++ [event] := by simp
      obtain ⟨hpath, hsub, hhandlers⟩ := ih fun e he => h e (by simp [he])
      have hkept : (step channels (run channels (before ++ .discoveryRemove :: shares)) event).subscribed
            = [] ∧
          (step channels (run channels (before ++ .discoveryRemove :: shares)) event).handlers =
            (run channels (before ++ .discoveryRemove :: shares)).handlers :=
        detached_share hshare hpath hsub
      obtain ⟨hsub', hhandlers'⟩ := hkept
      rw [hassoc, run_concat]
      constructor
      · rw [path_share hshare]
        exact hpath
      constructor
      · exact hsub'
      · rw [hhandlers', hhandlers]

/-- After any events, the payload handler is registered once for every subscribed channel under the
path of the server and for nothing else; a detached actor has none, and an attached one relays what
the share events since the attach and the configuration say. -/
theorem bus_bookkeeping (channels : List String) (events : List Event) :
    (∀ topic, topic ∈ (run channels events).handlers ↔
      topic ∈ (run channels events).subscribed.map Prod.snd) ∧
    (run channels events).handlers.Nodup ∧
    (∀ topic ∈ (run channels events).handlers, ∃ path channel,
      (run channels events).serverTopicPath = some path ∧ topic = topicOf path channel) ∧
    (∀ before shares, events = before ++ .discoveryRemove :: shares →
      (∀ event ∈ shares, event.IsShare) → (run channels events).handlers = []) ∧
    ∀ before path service shares, events = before ++ .discoveryAdd path service :: shares →
      (∀ event ∈ shares, event.IsShare) →
      (run channels events).serverTopicPath = some path ∧
      ∀ channel, channel ∈ keys (run channels events).subscribed ↔
        LastAdds channel shares ∨
          channel ∈ channels ∧ ∀ event ∈ shares, ¬Removes channel event := by
  have hbooked := booked_run channels events
  constructor
  · exact fun topic => hbooked.handlers.mem_iff
  constructor
  · rw [hbooked.handlers.nodup_iff]
    exact hbooked.topics_nodup
  constructor
  · intro topic htopic
    obtain ⟨i, hi, rfl⟩ := List.mem_map.mp (hbooked.handlers.mem_iff.mp htopic)
    obtain ⟨path, hpath, htopic⟩ := hbooked.topics i hi
    exact ⟨path, i.1, hpath, htopic⟩
  constructor
  · rintro before shares rfl hshares
    exact (detached_run before hshares).2.2
  · rintro before path service shares rfl hshares
    exact attached_run before service hshares

end

end AikoIsland.BusClient
