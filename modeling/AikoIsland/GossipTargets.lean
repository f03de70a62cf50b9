import AikoIsland.Peers
import AikoIsland.Reactions

/-!
# The targets of a gossip round

A target is the base URL of another entry or a bootstrap contact of the settings.
An entry was coerced, so its URL is stripped, ends in no slash, is https with a host
and differs from the own one. A bootstrap contact is matched in its stripped form
and kept as it was spelled, and nobody compares it with the own URL: the targets
are fetchable if and only if the settings spell no contact with surrounding
whitespace and name no contact at the own URL.

No white space is a word character or a digit, which is what the shape of a URL
rests on.
-/
namespace AikoIsland.GossipTargets
open Actuation Messages OrderedDict Tables Peers Reactions

/-- `str.strip`, and that neither `\w` nor `\d` matches white space. -/
structure PythonTexts (lib : Lib) : Prop where
  strip : ∀ s, lib.strip s = Reactions.strip s
  word : ∀ c, lib.isWord c = true → isSpace c = false
  digit : ∀ c, lib.isDigit c = true → isSpace c = false

/-- The form of the base URLs of the directory. -/
structure Normalised (lib : Lib) (url : PyStr) : Prop where
  stripped : lib.strip url = url
  noSlash : normalizeBaseUrl url = url
  https : isHttpsUrl lib url = true

/-- A normalised URL that is not the own one. -/
structure Fetchable (lib : Lib) (settings : Settings) (url : PyStr) : Prop where
  normalised : Normalised lib url
  foreign : ∀ s, selfPeer lib settings = some s → url ≠ s.baseUrl

/-- No contact that is taken has white space around it or the own base URL. -/
def ContactsClean (lib : Lib) (settings : Settings) : Prop :=
  ∀ u ∈ settings.gatewayBootstrapPeers, isHttpsUrl lib (normalizeBaseUrl (lib.strip u)) = true →
    lib.strip u = u ∧ ∀ s, selfPeer lib settings = some s → normalizeBaseUrl u ≠ s.baseUrl

/-! ## Texts without white space -/

theorem strip_of_notSpace {s : PyStr} (h : ∀ c ∈ s, isSpace c = false) : strip s = s := by
  have hdrop : ∀ t : PyStr, (∀ c ∈ t, isSpace c = false) → t.dropWhile isSpace = t := by
    intro t ht
    cases t with
    | nil => rfl
    | cons c t => rw [List.dropWhile_cons_of_neg (by simp [ht c List.mem_cons_self])]
  have hreverse : s.reverse.dropWhile isSpace = s.reverse :=
    hdrop _ fun c hc => h c (List.mem_reverse.mp hc)
  rw [strip, hdrop s h, hreverse, List.reverse_reverse]

theorem mem_normalizeBaseUrl {url : PyStr} {c : ℕ} (h : c ∈ url) :
    c ∈ normalizeBaseUrl url ∨ c = 47 := by
  have hsplit := List.takeWhile_append_dropWhile (p := fun c : ℕ => c == 47) (l := url.reverse)
  have hmem : c ∈ url.reverse := List.mem_reverse.mpr h
  rw [← hsplit, List.mem_append] at hmem
  cases hmem with
  | inl hslash =>
      right
      simpa using List.mem_takeWhile_imp hslash
  | inr hrest =>
      left
      exact List.mem_reverse.mpr hrest

section
variable {lib : Lib} {settings : Settings} {d : IslandDirectory} {url : PyStr}
  {bootstrap : List PyStr}

theorem notSpace_of_isPath (h : PythonTexts lib) {text : PyStr} (ht : isPath lib text = true) :
    ∀ c ∈ text, isSpace c = false := by
  cases text with
  | nil =>
      intro c hc
      cases hc
  | cons first rest =>
      rw [isPath, Bool.and_eq_true, beq_iff_eq, List.all_eq_true] at ht
      intro c hc
      cases List.mem_cons.mp hc with
      | inl hfirst =>
          rw [hfirst, ht.1]
          decide
      | inr hrest =>
          have hchar := ht.2 c hrest
          rw [Bool.or_eq_true] at hchar
          cases hchar with
          | inl hword => exact h.word c hword
          | inr hmark =>
              have hmarks : ∀ m ∈ [46, 47, 126, 45], isSpace m = false := by decide
              exact hmarks c (List.contains_iff_mem.mp hmark)

theorem notSpace_of_isHostChar {c : ℕ} (hc : isHostChar c = true) : isSpace c = false := by
  simp only [isHostChar, isLowerAlnum, Bool.or_eq_true, Bool.and_eq_true, decide_eq_true_eq,
    beq_iff_eq] at hc
  simp only [isSpace, Bool.or_eq_false_iff, Bool.and_eq_false_iff, decide_eq_false_iff_not]
  omega

theorem notSpace_of_isHttpsUrl (h : PythonTexts lib) (hurl : isHttpsUrl lib url = true) :
    ∀ c ∈ url, isSpace c = false := by
  rw [isHttpsUrl, Bool.and_eq_true, Bool.and_eq_true] at hurl
  obtain ⟨⟨hscheme, _⟩, hafter⟩ := hurl
  obtain ⟨rest, rfl⟩ := List.isPrefixOf_iff_prefix.mp hscheme
  rw [List.drop_left] at hafter
  have hcodes : ∀ c ∈ codes "https://", isSpace c = false := by decide
  have htail : ∀ c ∈ rest.dropWhile isHostChar, isSpace c = false := by
    revert hafter
    generalize rest.dropWhile isHostChar = after
    intro hafter
    split at hafter
    · rename_i port
      rw [Bool.and_eq_true] at hafter
      have hpath := notSpace_of_isPath h hafter.2
      intro c hc
      cases List.mem_cons.mp hc with
      | inl hcolon =>
          rw [hcolon]
          decide
      | inr hport =>
          rw [← List.takeWhile_append_dropWhile (p := lib.isDigit) (l := port),
            List.mem_append] at hport
          cases hport with
          | inl hdigit => exact h.digit c (List.mem_takeWhile_imp hdigit)
          | inr hrest => exact hpath c hrest
    · exact notSpace_of_isPath h hafter
  intro c hc
  cases List.mem_append.mp hc with
  | inl hin => exact hcodes c hin
  | inr hrest =>
      rw [← List.takeWhile_append_dropWhile (p := isHostChar) (l := rest), List.mem_append] at hrest
      cases hrest with
      | inl hhost => exact notSpace_of_isHostChar (List.mem_takeWhile_imp hhost)
      | inr hin => exact htail c hin

theorem normalised_of (h : PythonTexts lib) (hnormal : normalizeBaseUrl url = url)
    (hurl : isHttpsUrl lib url = true) : Normalised lib url := by
  constructor
  · rw [h.strip, strip_of_notSpace (notSpace_of_isHttpsUrl h hurl)]
  · exact hnormal
  · exact hurl

/-- A contact that is taken is kept in the normal form only if it was spelled without white
space. -/
theorem normalised_contact_iff (h : PythonTexts lib) {u : PyStr}
    (hu : isHttpsUrl lib (normalizeBaseUrl (lib.strip u)) = true) :
    Normalised lib (normalizeBaseUrl u) ↔ lib.strip u = u := by
  constructor
  · intro hn
    rw [h.strip]
    apply strip_of_notSpace
    intro c hc
    cases mem_normalizeBaseUrl hc with
    | inl hin => exact notSpace_of_isHttpsUrl h hn.https c hin
    | inr hslash =>
        rw [hslash]
        decide
  · intro hstrip
    rw [hstrip] at hu
    exact normalised_of h (List.rdropWhile_idempotent _ _) hu

/-! ## Entries over a run -/

/-- The contacts stay, and every entry has an https URL. -/
structure Shaped (lib : Lib) (bootstrap : List PyStr) (d : IslandDirectory) : Prop where
  contacts : d.bootstrapUrls = bootstrap
  https : ∀ i ∈ d.peers, isHttpsUrl lib i.2.baseUrl = true

theorem coerceIsland_https {raw : Raw} {peer : Island} (h : coerceIsland lib raw = some peer) :
    isHttpsUrl lib peer.baseUrl = true := by
  unfold coerceIsland at h
  cases ht : raw.texts with
  | none => simp [ht] at h
  | some texts =>
      obtain ⟨gid, name, url⟩ := texts
      rw [ht] at h
      dsimp only at h
      split_ifs at h with hid hname hurl
      rw [← Option.some.inj h]
      rw [not_or] at hurl
      simpa using hurl.2

theorem Shaped.mergeOne (h : Shaped lib bootstrap d) (raw : Raw) :
    Shaped lib bootstrap (d.mergeOne lib raw) := by
  rcases mergeOne_cases lib d raw with hsame | ⟨peer, hpeer, _, _, _, _, hnew⟩
  · rw [hsame]
    exact h
  · rw [hnew]
    constructor
    · exact h.contacts
    · intro i hi
      cases List.mem_append.mp hi with
      | inl hold => exact h.https i hold
      | inr hlast =>
          rw [List.mem_singleton.mp hlast]
          exact coerceIsland_https hpeer

theorem Shaped.merge (h : Shaped lib bootstrap d) (incoming : List Raw) :
    Shaped lib bootstrap (d.merge lib incoming) := by
  unfold IslandDirectory.merge
  induction incoming generalizing d with
  | nil => exact h
  | cons raw incoming ih => exact ih (h.mergeOne raw)

theorem Shaped.recordVerifiedMode (h : Shaped lib bootstrap d) (peerId mode base : PyStr) :
    Shaped lib bootstrap (d.recordVerifiedMode peerId mode base) := by
  rcases recordVerifiedMode_cases d peerId mode base with
    hsame | ⟨peer, validated, _, hget, _, _, hnew⟩
  · rw [hsame]
    exact h
  · rw [hnew]
    constructor
    · exact h.contacts
    · intro i hi
      cases mem_set hi with
      | inl hold => exact h.https i hold
      | inr hset =>
          rw [hset]
          exact h.https (peerId, peer) (mem_of_get hget)

theorem Shaped.pull (h : Shaped lib bootstrap d) (answers : PyStr → Answer) (base : PyStr) :
    Shaped lib bootstrap (pull lib answers d base) := by
  unfold Peers.pull
  cases (answers base).entries with
  | none => exact h
  | some entries =>
      dsimp only
      cases (answers base).posture lib base with
      | none => exact h.merge entries
      | some posture => exact (h.merge entries).recordVerifiedMode posture.1 posture.2 base

theorem Shaped.step (h : Shaped lib bootstrap d) (op : Op) :
    Shaped lib bootstrap (step lib d op) := by
  cases op with
  | merge incoming => exact h.merge incoming
  | recordVerifiedMode peerId mode base => exact h.recordVerifiedMode peerId mode base
  | gossip answers =>
      change Shaped lib bootstrap (d.gossipTargets.foldl (Peers.pull lib answers) d)
      generalize d.gossipTargets = targets
      induction targets generalizing d with
      | nil => exact h
      | cons base targets ih => exact ih (h.pull answers base)

/-- The contacts as the constructor keeps them. -/
def contacts (lib : Lib) (settings : Settings) : List PyStr :=
  ((settings.gatewayBootstrapPeers.filter fun u =>
    isHttpsUrl lib (normalizeBaseUrl (lib.strip u))).map normalizeBaseUrl).dedup

theorem shaped_run (lib : Lib) (settings : Settings) (ops : List Op) :
    Shaped lib (contacts lib settings) (run lib settings ops) := by
  have hstart : Shaped lib [] ⟨selfPeer lib settings,
      (selfPeer lib settings).toList.map fun s => (s.id, s), []⟩ := by
    constructor
    · rfl
    · intro i hi
      obtain ⟨s, hs, rfl⟩ := List.mem_map.mp hi
      have hself : selfPeer lib settings = some s := Option.mem_toList.mp hs
      unfold selfPeer at hself
      exact coerceIsland_https hself
  have hbuild : Shaped lib (contacts lib settings) (buildDirectoryFromSettings lib settings) := by
    constructor
    · rfl
    · exact (hstart.merge settings.islandSeedPeers).https
  unfold run
  revert hbuild
  generalize buildDirectoryFromSettings lib settings = d
  induction ops generalizing d with
  | nil => exact fun hbuild => hbuild
  | cons op ops ih => exact fun hbuild => ih (step lib d op) (hbuild.step op)

/-! ## Targets -/

theorem mem_contacts : url ∈ contacts lib settings ↔
    ∃ u ∈ settings.gatewayBootstrapPeers,
      isHttpsUrl lib (normalizeBaseUrl (lib.strip u)) = true ∧ normalizeBaseUrl u = url := by
  simp only [contacts, List.mem_dedup, List.mem_map, List.mem_filter, and_assoc]

theorem mem_gossipTargets : url ∈ d.gossipTargets ↔
    (∃ i ∈ d.peers, d.isSelfId i.2.id = false ∧ i.2.baseUrl = url) ∨ url ∈ d.bootstrapUrls := by
  simp only [IslandDirectory.gossipTargets, List.mem_insertionSort, List.mem_dedup,
    List.mem_append, List.mem_map, List.mem_filter, Bool.not_eq_true', and_assoc]

/-- The URL of another entry is fetchable. -/
theorem fetchable_entry (h : PythonTexts lib) (ops : List Op) {i : PyStr × Island}
    (hi : i ∈ (run lib settings ops).peers)
    (hother : (run lib settings ops).isSelfId i.2.id = false) :
    Fetchable lib settings i.2.baseUrl := by
  obtain ⟨hw, hself, _⟩ := run_spec lib settings ops
  constructor
  · exact normalised_of h (hw.normal i hi) ((shaped_run lib settings ops).https i hi)
  · intro s hs hsame
    have hsome : (run lib settings ops).self = some s := hself.trans hs
    have hmem := mem_of_get (hw.own s hsome)
    have hentry : i = (s.id, s) := List.inj_on_of_nodup_map hw.urls hi hmem hsame
    rw [IslandDirectory.isSelfId, hsome, hentry] at hother
    simp at hother

/-- After any operations every target is in the normal form of the directory and is not the own
base URL, if and only if the bootstrap contacts of the settings are clean. -/
theorem targets_are_fetchable_iff (h : PythonTexts lib) (settings : Settings) (ops : List Op) :
    (∀ url ∈ (run lib settings ops).gossipTargets, Fetchable lib settings url) ↔
      ContactsClean lib settings := by
  have hcontacts := (shaped_run lib settings ops).contacts
  constructor
  · intro hall u hu haccepted
    have hmem : normalizeBaseUrl u ∈ (run lib settings ops).gossipTargets := by
      rw [mem_gossipTargets, hcontacts]
      exact Or.inr (mem_contacts.mpr ⟨u, hu, haccepted, rfl⟩)
    have hfetch := hall _ hmem
    constructor
    · exact (normalised_contact_iff h haccepted).mp hfetch.normalised
    · exact hfetch.foreign
  · intro hclean url hurl
    rw [mem_gossipTargets, hcontacts] at hurl
    cases hurl with
    | inl hentry =>
        obtain ⟨i, hi, hother, rfl⟩ := hentry
        exact fetchable_entry h ops hi hother
    | inr hcontact =>
        obtain ⟨u, hu, haccepted, rfl⟩ := mem_contacts.mp hcontact
        obtain ⟨hstrip, hforeign⟩ := hclean u hu haccepted
        constructor
        · exact (normalised_contact_iff h haccepted).mpr hstrip
        · exact hforeign

end

/-! ## A contact with a blank before it -/

/-- Python on ASCII texts. -/
def asciiLib : Lib where
  strip := Reactions.strip
  lower := List.map fun c => if 65 ≤ c && c ≤ 90 then c + 32 else c
  isDigit := fun c => 48 ≤ c && c ≤ 57
  isWord := fun c => 48 ≤ c && c ≤ 57 || 65 ≤ c && c ≤ 90 || c == 95 || 97 ≤ c && c ≤ 122
  str := fun _ => []
  admitManifest := fun _ _ => .ok none

theorem asciiLib_texts : PythonTexts asciiLib := by
  constructor
  · exact fun s => rfl
  · intro c hc
    simp only [asciiLib, Bool.or_eq_true, Bool.and_eq_true, decide_eq_true_eq, beq_iff_eq] at hc
    simp only [isSpace, Bool.or_eq_false_iff, Bool.and_eq_false_iff, decide_eq_false_iff_not]
    omega
  · intro c hc
    simp only [asciiLib, Bool.and_eq_true, decide_eq_true_eq] at hc
    simp only [isSpace, Bool.or_eq_false_iff, Bool.and_eq_false_iff, decide_eq_false_iff_not]
    omega

def islandSettings (contacts : List String) : Settings where
  gatewayBaseUrl := codes "https://a.example"
  islandDisplayName := codes "A"
  gatewayBootstrapPeers := contacts.map codes

theorem targets_are_fetchable_one :
    Fetchable asciiLib (islandSettings ["https://b.example/"]) (codes "https://b.example") := by
  have hself : selfPeer asciiLib (islandSettings ["https://b.example/"]) =
      some { id := codes "a-example", displayName := codes "A"
             baseUrl := codes "https://a.example" } := by decide +kernel
  have hmem : codes "https://b.example" ∈
      (run asciiLib (islandSettings ["https://b.example/"]) []).gossipTargets := by decide +kernel
  apply (targets_are_fetchable_iff asciiLib_texts (islandSettings ["https://b.example/"]) []).mpr
    _ _ hmem
  intro u hu _
  obtain rfl : u = codes "https://b.example/" := by simpa [islandSettings] using hu
  constructor
  · decide +kernel
  · intro s hs
    rw [hself] at hs
    obtain rfl := Option.some.inj hs
    decide +kernel

/-- A contact with a blank before it is a target with the blank. -/
theorem a_contact_keeps_its_blank :
    ¬ ∀ (lib : Lib), PythonTexts lib → ∀ (settings : Settings) (ops : List Op),
      ∀ url ∈ (run lib settings ops).gossipTargets, Fetchable lib settings url := by
  intro h
  have hmem : codes " https://b.example" ∈
      (run asciiLib (islandSettings [" https://b.example"]) []).gossipTargets := by decide +kernel
  have hfetch := h asciiLib asciiLib_texts (islandSettings [" https://b.example"]) [] _ hmem
  have hstrip := hfetch.normalised.stripped
  revert hstrip
  decide +kernel

end AikoIsland.GossipTargets
