import AikoIsland.Actuation
import Mathlib.Data.List.DropRight

/-!
# The directory of islands

The directory maps an id to the entry of an island. It starts with the own entry
and the operator's seeds, learns entries from peers and keeps the first one that it
hears of an id or a base URL. A mode is written only to the entry at the URL that
a signed manifest came from.

What Python's text methods do outside ASCII is a parameter, and so is the door
that verifies a manifest: no property below depends on either. A target of a
gossip round answers with what the client parsed, or fails.
-/
namespace AikoIsland.Peers
open Actuation Messages OrderedDict Tables

def maxPeers : ℕ := 200

def maxIdLen : ℕ := 64

def maxNameLen : ℕ := 64

def maxUrlLen : ℕ := 255

inductive IslandMode
  | moderator
  | e2ee
  deriving DecidableEq, Repr

/-- `IslandMode(mode)`; `none` is its `ValueError`. -/
def IslandMode.parse (mode : PyStr) : Option IslandMode :=
  if mode = codes "moderator" then some .moderator
  else if mode = codes "e2ee" then some .e2ee
  else none

structure Island where
  id : PyStr
  displayName : PyStr
  baseUrl : PyStr
  mode : Option IslandMode := none
  deriving DecidableEq, Repr

/-- What the directory calls of Python and of `island_identity`. -/
structure Lib where
  strip : PyStr → PyStr
  lower : PyStr → PyStr
  isDigit : ℕ → Bool
  isWord : ℕ → Bool
  str : Value → PyStr
  /-- The mode of a manifest that is signed and fresh at the time; it may raise. -/
  admitManifest : Value → ℤ → Except Unit (Option PyStr)

/-! ## Shapes -/

def isLowerAlnum (c : ℕ) : Bool := 97 ≤ c && c ≤ 122 || 48 ≤ c && c ≤ 57

def isHostChar (c : ℕ) : Bool := isLowerAlnum c || 65 ≤ c && c ≤ 90 || c == 46 || c == 45

/-- `_ID_RE`. -/
def isIslandId (gid : PyStr) : Bool :=
  match gid with
  | [] => false
  | c :: rest =>
      isLowerAlnum c && rest.all (fun c => isLowerAlnum c || c == 45) && rest.length ≤ maxIdLen - 1

/-- The path of a URL, if there is one. -/
def isPath (lib : Lib) (text : PyStr) : Bool :=
  match text with
  | [] => true
  | c :: rest => c == 47 && rest.all fun c => lib.isWord c || [46, 47, 126, 45].contains c

/-- `_HTTPS_RE`: neither a colon nor a slash is a host character, so the host is maximal. -/
def isHttpsUrl (lib : Lib) (url : PyStr) : Bool :=
  let scheme := codes "https://"
  let rest := url.drop scheme.length
  let afterHost := rest.dropWhile isHostChar
  scheme.isPrefixOf url && !(rest.takeWhile isHostChar).isEmpty &&
    match afterHost with
    | 58 :: port => !(port.takeWhile lib.isDigit).isEmpty && isPath lib (port.dropWhile lib.isDigit)
    | other => isPath lib other

def normalizeBaseUrl (raw : PyStr) : PyStr := raw.rdropWhile (· == 47)

/-- An entry of a list that came from elsewhere. -/
inductive Raw
  | island (peer : Island)
  | value (v : Value)

/-- `raw.get(key)`, with `None` for an absent key. -/
def getOr (items : List (PyStr × Value)) (key : String) (default : Value) : Value :=
  (get items (codes key)).getD default

/-- The three texts, if they are texts. -/
def Raw.texts : Raw → Option (PyStr × PyStr × PyStr)
  | .island peer => some (peer.id, peer.displayName, peer.baseUrl)
  | .value (.dict items) =>
      match getOr items "id" .none,
        getOr items "display_name" (getOr items "displayName" .none),
        getOr items "base_url" (getOr items "baseURL" .none) with
      | .str gid, .str name, .str url => some (gid, name, url)
      | _, _, _ => none
  | .value _ => none

def coerceIsland (lib : Lib) (raw : Raw) : Option Island :=
  match raw.texts with
  | none => none
  | some (gid, name, url) =>
      let gid := lib.lower (lib.strip gid)
      let name := lib.strip name
      let url := normalizeBaseUrl (lib.strip url)
      if !isIslandId gid then none
      else if name = [] ∨ maxNameLen < name.length then none
      else if maxUrlLen < url.length ∨ !isHttpsUrl lib url then none
      else some { id := gid, displayName := name, baseUrl := url }

/-! ## The directory -/

structure IslandDirectory where
  self : Option Island
  peers : List (PyStr × Island) := []
  bootstrapUrls : List PyStr := []

namespace IslandDirectory

def isSelfId (d : IslandDirectory) (id : PyStr) : Bool :=
  match d.self with
  | none => false
  | some s => s.id = id

/-- One entry of the loop of `merge`. -/
def mergeOne (lib : Lib) (d : IslandDirectory) (raw : Raw) : IslandDirectory :=
  match coerceIsland lib raw with
  | none => d
  | some peer =>
      if d.isSelfId peer.id then d
      else if peer.id ∈ keys d.peers then d
      else if d.peers.any fun p => peer.baseUrl = p.2.baseUrl then d
      else if maxPeers ≤ d.peers.length then d
      else { d with peers := set d.peers peer.id peer }

/-- The number of new entries is how much the directory grows. -/
def merge (lib : Lib) (d : IslandDirectory) (incoming : List Raw) : IslandDirectory :=
  incoming.foldl (mergeOne lib) d

def new (lib : Lib) (self : Option Island) (bootstrapUrls : List PyStr) (seeds : List Raw) :
    IslandDirectory :=
  let d : IslandDirectory := { self, peers := self.toList.map fun s => (s.id, s) }
  { merge lib d seeds with
    bootstrapUrls := ((bootstrapUrls.filter fun u =>
      isHttpsUrl lib (normalizeBaseUrl (lib.strip u))).map normalizeBaseUrl).dedup }

def recordVerifiedMode (d : IslandDirectory) (peerId mode expectedBaseUrl : PyStr) :
    IslandDirectory :=
  if d.isSelfId peerId then d
  else
    match get d.peers peerId with
    | none => d
    | some peer =>
        if peer.baseUrl ≠ expectedBaseUrl then d
        else
          match IslandMode.parse mode with
          | none => d
          | some validated => { d with peers := set d.peers peerId { peer with mode := some validated } }

def gossipTargets (d : IslandDirectory) : List PyStr :=
  let urls := (d.peers.filter fun p => !d.isSelfId p.2.id).map (·.2.baseUrl)
  (urls ++ d.bootstrapUrls).dedup.insertionSort (· ≤ ·)

end IslandDirectory

/-! ## Gossip -/

/-- What a target sends for the three requests of a round; `none` is a failure. -/
structure Answer where
  islands : Option Value := none
  gateways : Option Value := none
  manifest : Option Value := none
  nowMs : ℤ := 0

/-- The entries of `entries or []`; `none` where iteration raises. -/
def iterate : Value → Option (List Raw)
  | .none | .bool false | .int 0 => some []
  | .bool true | .int _ => none
  | .float repr => if repr = "0.0" ∨ repr = "-0.0" then some [] else none
  | .str s => some (s.map fun c => .value (.str [c]))
  | .list xs | .set xs => some (xs.map .value)
  | .dict items => some (items.map fun i => .value (.str i.1))

/-- The list of islands in an answer; `none` where the target is dropped. -/
def Answer.entries (answer : Answer) : Option (List Raw) :=
  match answer.islands <|> answer.gateways with
  | some (.dict items) =>
      match getOr items "islands" .none with
      | .none => iterate (getOr items "gateways" .none)
      | entries => iterate entries
  | _ => none

/-- The id and the mode of an admitted manifest whose signed URL is the one it came from. -/
def Answer.posture (lib : Lib) (answer : Answer) (base : PyStr) : Option (PyStr × PyStr) :=
  match answer.manifest with
  | none => none
  | some manifest =>
      match lib.admitManifest manifest answer.nowMs, manifest with
      | .ok (some mode), .dict items =>
          if normalizeBaseUrl (lib.str (getOr items "base_url" (.str []))) = base then
            some (lib.lower (lib.strip (lib.str (getOr items "id" (.str [])))), mode)
          else none
      | _, _ => none

/-- What the round does with one target. -/
def pull (lib : Lib) (answers : PyStr → Answer) (d : IslandDirectory) (base : PyStr) :
    IslandDirectory :=
  match (answers base).entries with
  | none => d
  | some entries =>
      let d := d.merge lib entries
      match (answers base).posture lib base with
      | none => d
      | some (peerId, mode) => d.recordVerifiedMode peerId mode base

def gossipOnce (lib : Lib) (answers : PyStr → Answer) (d : IslandDirectory) : IslandDirectory :=
  d.gossipTargets.foldl (pull lib answers) d

/-! ## Settings -/

structure Settings where
  gatewayBaseUrl : PyStr
  islandId : PyStr := []
  islandDisplayName : PyStr
  gatewayBootstrapPeers : List PyStr := []
  islandSeedPeers : List Raw := []

def hostOf (lib : Lib) (baseUrl : PyStr) : PyStr :=
  let scheme := codes "https://"
  let url := lib.strip baseUrl
  let host := (url.drop scheme.length).takeWhile isHostChar
  if scheme.isPrefixOf url && !host.isEmpty then
    (lib.lower host).map fun c => if c = 46 then 45 else c
  else []

def selfPeer (lib : Lib) (settings : Settings) : Option Island :=
  let base := normalizeBaseUrl settings.gatewayBaseUrl
  let own := if settings.islandId = [] then hostOf lib base else settings.islandId
  coerceIsland lib (.value (.dict [(codes "id", .str (lib.lower (lib.strip own))),
    (codes "displayName", .str settings.islandDisplayName), (codes "baseURL", .str base)]))

def buildDirectoryFromSettings (lib : Lib) (settings : Settings) : IslandDirectory :=
  .new lib (selfPeer lib settings) settings.gatewayBootstrapPeers settings.islandSeedPeers

inductive Op
  | merge (incoming : List Raw)
  | recordVerifiedMode (peerId mode expectedBaseUrl : PyStr)
  | gossip (answers : PyStr → Answer)

def step (lib : Lib) (d : IslandDirectory) : Op → IslandDirectory
  | .merge incoming => d.merge lib incoming
  | .recordVerifiedMode peerId mode expectedBaseUrl =>
      d.recordVerifiedMode peerId mode expectedBaseUrl
  | .gossip answers => gossipOnce lib answers d

def run (lib : Lib) (settings : Settings) (ops : List Op) : IslandDirectory :=
  ops.foldl (step lib) (buildDirectoryFromSettings lib settings)

/-! ## What holds of the entries -/

/-- Ids and base URLs are distinct, URLs end in no slash, the own entry stays, and the size is
bounded. -/
structure Wellformed (d : IslandDirectory) : Prop where
  keys : (keys d.peers).Nodup
  normal : ∀ i ∈ d.peers, normalizeBaseUrl i.2.baseUrl = i.2.baseUrl
  ids : ∀ i ∈ d.peers, i.2.id = i.1
  urls : (d.peers.map (·.2.baseUrl)).Nodup
  own : ∀ s, d.self = some s → get d.peers s.id = some s
  size : d.peers.length ≤ maxPeers

/-- Every mode has a source, given by the id and the URL of its entry. -/
def ModesFrom (source : PyStr → PyStr → IslandMode → Prop) (d : IslandDirectory) : Prop :=
  ∀ i ∈ d.peers, ∀ mode, i.2.mode = some mode → source i.2.id i.2.baseUrl mode

section
variable {lib : Lib} {d : IslandDirectory} {raw : Raw} {peer : Island} {peerId mode base : PyStr}
  {source : PyStr → PyStr → IslandMode → Prop}

theorem coerceIsland_eq_some (h : coerceIsland lib raw = some peer) :
    peer.mode = none ∧ normalizeBaseUrl peer.baseUrl = peer.baseUrl := by
  unfold coerceIsland at h
  cases ht : raw.texts with
  | none => simp [ht] at h
  | some texts =>
      obtain ⟨gid, name, url⟩ := texts
      rw [ht] at h
      dsimp only at h
      split_ifs at h
      rw [← Option.some.inj h]
      constructor
      · rfl
      · exact List.rdropWhile_idempotent _ _

/-- What one merged entry does: nothing, or it is new by id and by URL. -/
theorem mergeOne_cases (lib : Lib) (d : IslandDirectory) (raw : Raw) :
    d.mergeOne lib raw = d ∨
    ∃ peer, coerceIsland lib raw = some peer ∧ d.isSelfId peer.id = false ∧
      peer.id ∉ OrderedDict.keys d.peers ∧ peer.baseUrl ∉ d.peers.map (·.2.baseUrl) ∧
      d.peers.length < maxPeers ∧
      d.mergeOne lib raw = { d with peers := d.peers ++ [(peer.id, peer)] } := by
  unfold IslandDirectory.mergeOne
  cases hpeer : coerceIsland lib raw with
  | none => exact Or.inl rfl
  | some peer =>
      dsimp only
      split_ifs with hself hid hurl hsize
      · exact Or.inl rfl
      · exact Or.inl rfl
      · exact Or.inl rfl
      · exact Or.inl rfl
      · right
        use peer
        constructor
        · rfl
        constructor
        · simpa using hself
        constructor
        · exact hid
        constructor
        · intro hmem
          apply hurl
          obtain ⟨p, hp, hbase⟩ := List.mem_map.mp hmem
          exact List.any_eq_true.mpr ⟨p, hp, decide_eq_true hbase.symm⟩
        constructor
        · omega
        · rw [set_of_notMem hid]

theorem Wellformed.mergeOne (h : Wellformed d) (raw : Raw) : Wellformed (d.mergeOne lib raw) := by
  rcases mergeOne_cases lib d raw with hsame | ⟨peer, hpeer, _, hid, hurl, hsize, hnew⟩
  · rw [hsame]
    exact h
  · rw [hnew]
    constructor
    · rw [← set_of_notMem hid]
      exact nodup_set h.keys
    · intro i hi
      rcases List.mem_append.mp hi with hi | hi
      · exact h.normal i hi
      · rw [List.mem_singleton.mp hi]
        exact (coerceIsland_eq_some hpeer).2
    · intro i hi
      rcases List.mem_append.mp hi with hi | hi
      · exact h.ids i hi
      · rw [List.mem_singleton.mp hi]
    · rw [List.map_append]
      apply List.Nodup.append h.urls (List.nodup_singleton _)
      exact List.disjoint_singleton.mpr hurl
    · intro s hs
      have hown := h.own s hs
      have hne : s.id ≠ peer.id := by
        intro he
        rw [he, get_of_notMem hid] at hown
        cases hown
      rw [← set_of_notMem hid]
      exact (get_set_of_ne hne).trans hown
    · simp only [List.length_append, List.length_singleton]
      omega

theorem self_mergeOne (lib : Lib) (d : IslandDirectory) (raw : Raw) :
    (d.mergeOne lib raw).self = d.self := by
  rcases mergeOne_cases lib d raw with hsame | ⟨peer, _, _, _, _, _, hnew⟩
  · rw [hsame]
  · rw [hnew]

theorem ModesFrom.mergeOne (h : ModesFrom source d) (raw : Raw) :
    ModesFrom source (d.mergeOne lib raw) := by
  rcases mergeOne_cases lib d raw with hsame | ⟨peer, hpeer, _, _, _, _, hnew⟩
  · rw [hsame]
    exact h
  · rw [hnew]
    intro i hi mode hmode
    rcases List.mem_append.mp hi with hi | hi
    · exact h i hi mode hmode
    · rw [List.mem_singleton.mp hi, (coerceIsland_eq_some hpeer).1] at hmode
      cases hmode

theorem Wellformed.merge (h : Wellformed d) (incoming : List Raw) :
    Wellformed (d.merge lib incoming) := by
  unfold IslandDirectory.merge
  induction incoming generalizing d with
  | nil => exact h
  | cons raw incoming ih => exact ih (h.mergeOne raw)

theorem self_merge (lib : Lib) (d : IslandDirectory) (incoming : List Raw) :
    (d.merge lib incoming).self = d.self := by
  unfold IslandDirectory.merge
  induction incoming generalizing d with
  | nil => rfl
  | cons raw incoming ih => exact (ih _).trans (self_mergeOne lib d raw)

theorem ModesFrom.merge (h : ModesFrom source d) (incoming : List Raw) :
    ModesFrom source (d.merge lib incoming) := by
  unfold IslandDirectory.merge
  induction incoming generalizing d with
  | nil => exact h
  | cons raw incoming ih => exact ih (h.mergeOne raw)

/-- What a recorded mode does: nothing, or it changes the mode of the entry at that URL. -/
theorem recordVerifiedMode_cases (d : IslandDirectory) (peerId mode base : PyStr) :
    d.recordVerifiedMode peerId mode base = d ∨
    ∃ peer validated, d.isSelfId peerId = false ∧ get d.peers peerId = some peer ∧
      peer.baseUrl = base ∧ IslandMode.parse mode = some validated ∧
      d.recordVerifiedMode peerId mode base =
        { d with peers := set d.peers peerId { peer with mode := some validated } } := by
  unfold IslandDirectory.recordVerifiedMode
  split_ifs with hself
  · exact Or.inl rfl
  cases hget : get d.peers peerId with
  | none => exact Or.inl rfl
  | some peer =>
      dsimp only
      split_ifs with hurl
      · exact Or.inl rfl
      cases hmode : IslandMode.parse mode with
      | none => exact Or.inl rfl
      | some validated =>
          right
          use peer, validated
          constructor
          · simpa using hself
          constructor
          · rfl
          constructor
          · exact not_not.mp hurl
          · exact ⟨rfl, rfl⟩

theorem self_recordVerifiedMode (d : IslandDirectory) (peerId mode base : PyStr) :
    (d.recordVerifiedMode peerId mode base).self = d.self := by
  rcases recordVerifiedMode_cases d peerId mode base with hsame | ⟨_, _, _, _, _, _, hnew⟩
  · rw [hsame]
  · rw [hnew]

/-- Changing the mode of an entry keeps the URLs. -/
theorem urls_set {peers : List (PyStr × Island)} {peer peer' : Island}
    (hd : (OrderedDict.keys peers).Nodup)
    (hget : OrderedDict.get peers peerId = some peer) (hurl : peer'.baseUrl = peer.baseUrl) :
    (OrderedDict.set peers peerId peer').map (·.2.baseUrl) = peers.map (·.2.baseUrl) := by
  have hin : peerId ∈ OrderedDict.keys peers := List.mem_map.mpr ⟨_, mem_of_get hget, rfl⟩
  rw [OrderedDict.set, if_pos hin, List.map_map]
  apply List.map_congr_left
  intro i hi
  by_cases hk : i.1 = peerId
  · have hi2 := get_of_mem hd hi
    rw [hk, hget] at hi2
    simp [hk, hurl, Option.some.inj hi2]
  · simp [hk]

theorem Wellformed.recordVerifiedMode (h : Wellformed d) (peerId mode base : PyStr) :
    Wellformed (d.recordVerifiedMode peerId mode base) := by
  rcases recordVerifiedMode_cases d peerId mode base with
    hsame | ⟨peer, validated, hself, hget, _, _, hnew⟩
  · rw [hsame]
    exact h
  · rw [hnew]
    have hmem : (peerId, peer) ∈ d.peers := mem_of_get hget
    constructor
    · exact nodup_set h.keys
    · intro i hi
      rcases mem_set hi with hi | rfl
      · exact h.normal i hi
      · exact h.normal (peerId, peer) hmem
    · intro i hi
      rcases mem_set hi with hi | rfl
      · exact h.ids i hi
      · exact h.ids (peerId, peer) hmem
    · have hurls : (OrderedDict.set d.peers peerId { peer with mode := some validated }).map
          (·.2.baseUrl) = d.peers.map (·.2.baseUrl) := urls_set h.keys hget rfl
      exact hurls ▸ h.urls
    · intro s hs
      have hne : s.id ≠ peerId := by
        intro he
        rw [IslandDirectory.isSelfId, hs] at hself
        simp [he] at hself
      exact (get_set_of_ne hne).trans (h.own s hs)
    · have hin : peerId ∈ OrderedDict.keys d.peers := List.mem_map.mpr ⟨_, hmem, rfl⟩
      have hlen : (OrderedDict.set d.peers peerId { peer with mode := some validated }).length =
          d.peers.length := by rw [OrderedDict.set, if_pos hin, List.length_map]
      exact hlen.trans_le h.size

theorem ModesFrom.recordVerifiedMode (h : ModesFrom source d) (hw : Wellformed d)
    (hsource : ∀ validated, IslandMode.parse mode = some validated → source peerId base validated) :
    ModesFrom source (d.recordVerifiedMode peerId mode base) := by
  rcases recordVerifiedMode_cases d peerId mode base with
    hsame | ⟨peer, validated, _, hget, hurl, hmode, hnew⟩
  · rw [hsame]
    exact h
  · rw [hnew]
    intro i hi m hm
    rcases mem_set hi with hi | rfl
    · exact h i hi m hm
    · have hid : peer.id = peerId := hw.ids _ (mem_of_get hget)
      have hsame : validated = m := Option.some.inj hm
      change source peer.id peer.baseUrl m
      rw [hid, hurl, ← hsame]
      exact hsource validated hmode

/-! ## Rounds and runs -/

theorem Wellformed.pull (h : Wellformed d) (answers : PyStr → Answer) (base : PyStr) :
    Wellformed (pull lib answers d base) := by
  unfold Peers.pull
  cases (answers base).entries with
  | none => exact h
  | some entries =>
      dsimp only
      cases (answers base).posture lib base with
      | none => exact h.merge entries
      | some posture => exact (h.merge entries).recordVerifiedMode posture.1 posture.2 base

theorem self_pull (lib : Lib) (answers : PyStr → Answer) (d : IslandDirectory) (base : PyStr) :
    (pull lib answers d base).self = d.self := by
  unfold pull
  cases (answers base).entries with
  | none => rfl
  | some entries =>
      dsimp only
      cases (answers base).posture lib base with
      | none => exact self_merge lib d entries
      | some posture =>
          exact (self_recordVerifiedMode _ posture.1 posture.2 base).trans (self_merge lib d entries)

/-- The round recorded this mode for the entry at a target, from the manifest fetched there. -/
def Fetched (lib : Lib) (answers : PyStr → Answer) (id url : PyStr) (mode : IslandMode) : Prop :=
  ∃ text, (answers url).posture lib url = some (id, text) ∧ IslandMode.parse text = some mode

theorem ModesFrom.pull {answers : PyStr → Answer} (h : ModesFrom source d) (hw : Wellformed d)
    (hsource : ∀ id mode, Fetched lib answers id base mode → source id base mode) :
    ModesFrom source (pull lib answers d base) := by
  unfold Peers.pull
  cases (answers base).entries with
  | none => exact h
  | some entries =>
      dsimp only
      cases hposture : (answers base).posture lib base with
      | none => exact h.merge entries
      | some posture =>
          obtain ⟨id, text⟩ := posture
          apply (h.merge entries).recordVerifiedMode (hw.merge entries)
          exact fun validated hmode => hsource id validated ⟨text, hposture, hmode⟩

theorem foldl_pull {answers : PyStr → Answer} (targets : List PyStr) (hw : Wellformed d)
    (h : ModesFrom source d)
    (hsource : ∀ id, ∀ url ∈ targets, ∀ mode, Fetched lib answers id url mode →
      source id url mode) :
    Wellformed (targets.foldl (pull lib answers) d) ∧
      (targets.foldl (pull lib answers) d).self = d.self ∧
      ModesFrom source (targets.foldl (pull lib answers) d) := by
  induction targets generalizing d with
  | nil => exact ⟨hw, rfl, h⟩
  | cons url targets ih =>
      have hpull : ModesFrom source (pull lib answers d url) :=
        h.pull hw fun id mode hf => hsource id url List.mem_cons_self mode hf
      have hrest := ih (hw.pull answers url) hpull
        fun id u hu => hsource id u (List.mem_cons_of_mem _ hu)
      exact ⟨hrest.1, hrest.2.1.trans (self_pull lib answers d url), hrest.2.2⟩

/-- The operation recorded the mode for an entry with this id and URL. -/
def Op.Records (lib : Lib) (d : IslandDirectory) (op : Op) (id url : PyStr) (mode : IslandMode) :
    Prop :=
  match op with
  | .merge _ => False
  | .recordVerifiedMode peerId text base =>
      peerId = id ∧ base = url ∧ IslandMode.parse text = some mode
  | .gossip answers => url ∈ d.gossipTargets ∧ Fetched lib answers id url mode

theorem step_spec {op : Op} (hw : Wellformed d) (h : ModesFrom source d)
    (hsource : ∀ id url mode, op.Records lib d id url mode → source id url mode) :
    Wellformed (step lib d op) ∧ (step lib d op).self = d.self ∧
      ModesFrom source (step lib d op) := by
  cases op with
  | merge incoming => exact ⟨hw.merge incoming, self_merge lib d incoming, h.merge incoming⟩
  | recordVerifiedMode peerId text base =>
      constructor
      · exact hw.recordVerifiedMode peerId text base
      constructor
      · exact self_recordVerifiedMode d peerId text base
      · apply h.recordVerifiedMode hw
        exact fun validated hmode => hsource peerId base validated ⟨rfl, rfl, hmode⟩
  | gossip answers =>
      apply foldl_pull d.gossipTargets hw h
      exact fun id url hu mode hf => hsource id url mode ⟨hu, hf⟩

theorem selfPeer_spec {settings : Settings} {s : Island} (h : selfPeer lib settings = some s) :
    s.mode = none ∧ normalizeBaseUrl s.baseUrl = s.baseUrl := by
  unfold selfPeer at h
  exact coerceIsland_eq_some h

/-- The directory as it is built holds no mode. -/
theorem build_spec (lib : Lib) (settings : Settings) :
    Wellformed (buildDirectoryFromSettings lib settings) ∧
    (buildDirectoryFromSettings lib settings).self = selfPeer lib settings ∧
    ModesFrom (fun _ _ _ => False) (buildDirectoryFromSettings lib settings) := by
  have hstart : Wellformed ⟨selfPeer lib settings,
        (selfPeer lib settings).toList.map fun s => (s.id, s), []⟩ ∧
      ModesFrom (fun _ _ _ => False) ⟨selfPeer lib settings,
        (selfPeer lib settings).toList.map fun s => (s.id, s), []⟩ := by
    cases hself : selfPeer lib settings with
    | none =>
        constructor
        · constructor <;> simp [OrderedDict.keys]
        · intro i hi
          cases hi
    | some s =>
        obtain ⟨hmode, hnormal⟩ := selfPeer_spec hself
        constructor
        · constructor
          · simp [OrderedDict.keys]
          · simpa using hnormal
          · simp
          · simp
          · rintro _ ⟨⟩
            simp [OrderedDict.get]
          · simp [maxPeers]
        · intro i hi mode hm
          simp only [Option.toList_some, List.map_singleton, List.mem_singleton] at hi
          rw [hi, hmode] at hm
          cases hm
  have hmerged : Wellformed (IslandDirectory.merge lib ⟨selfPeer lib settings,
      (selfPeer lib settings).toList.map fun s => (s.id, s), []⟩ settings.islandSeedPeers) :=
    hstart.1.merge _
  constructor
  · exact ⟨hmerged.keys, hmerged.normal, hmerged.ids, hmerged.urls, hmerged.own, hmerged.size⟩
  constructor
  · exact self_merge lib _ settings.islandSeedPeers
  · exact ModesFrom.merge hstart.2 settings.islandSeedPeers

/-- An operation of the run recorded the mode. -/
def Recorded (lib : Lib) (settings : Settings) (ops : List Op) (id url : PyStr)
    (mode : IslandMode) : Prop :=
  ∃ early op late, ops = early ++ op :: late ∧
    op.Records lib (run lib settings early) id url mode

theorem run_spec (lib : Lib) (settings : Settings) (ops : List Op) :
    Wellformed (run lib settings ops) ∧ (run lib settings ops).self = selfPeer lib settings ∧
      ModesFrom (Recorded lib settings ops) (run lib settings ops) := by
  induction ops using List.reverseRecOn with
  | nil =>
      obtain ⟨hw, hself, hmodes⟩ := build_spec lib settings
      constructor
      · exact hw
      constructor
      · exact hself
      · exact fun i hi mode hm => (hmodes i hi mode hm).elim
  | append_singleton ops op ih =>
      obtain ⟨hw, hself, hmodes⟩ := ih
      have hrun : run lib settings (ops ++ [op]) = step lib (run lib settings ops) op := by
        rw [run, List.foldl_append]
        rfl
      have hold : ModesFrom (Recorded lib settings (ops ++ [op])) (run lib settings ops) := by
        intro i hi mode hm
        obtain ⟨early, earlier, late, hsplit, hrecords⟩ := hmodes i hi mode hm
        use early, earlier, late ++ [op]
        constructor
        · rw [hsplit]
          simp
        · exact hrecords
      have hnew : ∀ id url mode, op.Records lib (run lib settings ops) id url mode →
          Recorded lib settings (ops ++ [op]) id url mode :=
        fun id url mode hrecords => ⟨ops, op, [], rfl, hrecords⟩
      obtain ⟨hw', hself', hmodes'⟩ := step_spec hw hold hnew
      rw [hrun]
      exact ⟨hw', hself'.trans hself, hmodes'⟩

/-- After any operations, no two entries have one id or one base URL, the own entry is the one
that the settings name and no other has its id or URL, the size is within the bound, and a mode was
recorded for its entry at the URL of the entry. -/
theorem peer_directory (lib : Lib) (settings : Settings) (ops : List Op) :
    ((run lib settings ops).peers.map (·.2.id)).Nodup ∧
    ((run lib settings ops).peers.map (·.2.baseUrl)).Nodup ∧
    (∀ i ∈ (run lib settings ops).peers, normalizeBaseUrl i.2.baseUrl = i.2.baseUrl) ∧
    (∀ s, selfPeer lib settings = some s →
      (s.id, s) ∈ (run lib settings ops).peers ∧
      ∀ i ∈ (run lib settings ops).peers, i.2.id = s.id ∨ i.2.baseUrl = s.baseUrl → i.2 = s) ∧
    (run lib settings ops).peers.length ≤ maxPeers ∧
    ∀ i ∈ (run lib settings ops).peers, ∀ mode, i.2.mode = some mode →
      Recorded lib settings ops i.2.id i.2.baseUrl mode := by
  obtain ⟨hw, hself, hmodes⟩ := run_spec lib settings ops
  have hids : (run lib settings ops).peers.map (·.2.id) =
      OrderedDict.keys (run lib settings ops).peers := List.map_congr_left hw.ids
  constructor
  · rw [hids]
    exact hw.keys
  constructor
  · exact hw.urls
  constructor
  · exact hw.normal
  constructor
  · intro s hs
    have hmem : (s.id, s) ∈ (run lib settings ops).peers := mem_of_get (hw.own s (hself.trans hs))
    constructor
    · exact hmem
    · intro i hi hsame
      rcases hsame with hid | hurl
      · have hkey : i.1 = s.id := (hw.ids i hi).symm.trans hid
        have hget := get_of_mem hw.keys hi
        rw [hkey, hw.own s (hself.trans hs)] at hget
        exact (Option.some.inj hget).symm
      · exact congrArg Prod.snd (List.inj_on_of_nodup_map hw.urls hi hmem hurl)
  constructor
  · exact hw.size
  · exact hmodes

end

end AikoIsland.Peers
