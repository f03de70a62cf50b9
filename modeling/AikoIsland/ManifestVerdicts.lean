import AikoIsland.ActuationVerdicts
import AikoIsland.IslandIdentity

/-!
# When a manifest verifies

A manifest whose fields are right is verified over its signing bytes, and every
other value is an `IslandIdentityError`. Building the bytes is the one step whose
exception is not turned into that error: a text with a lone surrogate has no
encoding.
-/
namespace AikoIsland.ManifestVerdicts
open Tables Messages Signing SignedBytes Actuation Multikeys OrderedDict Checks SigningErrors
  IslandIdentity

/-- The ten fields are there and right; `key` and `sig` are what the two texts spell. -/
structure WellFormed (items : List (PyStr × Value)) (m : Manifest) (key sig : Bytes) : Prop where
  keys : ∀ k, k ∈ keys items ↔ k ∈ manifestKeys.map codes
  values : ∀ k, get items k = get m.items k
  id : 1 ≤ m.identity.id.length ∧ m.identity.id.length ≤ 64
  displayName : 1 ≤ m.identity.displayName.length ∧ m.identity.displayName.length ≤ 64
  baseUrl : 1 ≤ m.identity.baseUrl.length ∧ m.identity.baseUrl.length ≤ 255
  mode : m.identity.mode ∈ validModes
  keyVersion : 1 ≤ m.identity.keyVersion ∧ m.identity.keyVersion ≤ 2 ^ 32 - 1
  signedAt : 0 ≤ m.identity.signedAtMs ∧ m.identity.signedAtMs ≤ 2 ^ 62
  pubkeyLength : m.islandPubkey.length ≤ 128
  key : decodeMultikey (plainText m.islandPubkey) = .ok key
  sig : b64urlRaw (plainText m.signature) sigRawLen "signature" = .ok sig

def Refused (e : Exn) : Prop := ∃ error, e = .islandIdentityError error

/-- The exceptions of the checks in the `try`, before the signed bytes. -/
def Structural (e : Exn) : Prop := Refused e ∨ ∃ detail, e = .originError detail

section
variable {items : List (PyStr × Value)} {w : Value} {s : PyStr} {name : String} {cap : ℕ}

/-! ## One check at a time -/

theorem raisesOnly_fail {α : Type} {template : String} {values : List Value} :
    RaisesOnly Refused (fail template values : Except Exn α) :=
  raisesOnly_error.mpr ⟨_, rfl⟩

theorem raisesOnly_originError {α : Type} {x : Except String α} :
    RaisesOnly Structural (x.mapError .originError) :=
  raisesOnly_mapError fun detail => Or.inr ⟨detail, rfl⟩

theorem refuseUnless_eq_ok {ok : Bool} {template : String} {values : List Value} {u : Unit} :
    refuseUnless ok template values = .ok u ↔ ok = true := by
  cases ok <;> simp [refuseUnless, fail]

theorem raisesOnly_refuseUnless {ok : Bool} {template : String} {values : List Value} :
    RaisesOnly Refused (refuseUnless ok template values) := by
  unfold refuseUnless
  split_ifs
  · exact raisesOnly_ok
  · exact raisesOnly_fail

theorem checkText_eq_ok :
    checkText name cap w = .ok s ↔ w = .str s ∧ 1 ≤ s.length ∧ s.length ≤ cap := by
  cases w with
  | str t =>
      rw [checkText]
      split_ifs with hlong hempty
      · constructor
        · intro h
          cases h
        · intro h
          cases h.1
          omega
      · constructor
        · intro h
          cases h
        · intro h
          cases h.1
          rw [hempty] at h
          exact absurd h.2.1 (by decide)
      · have hpos := List.length_pos_iff.mpr hempty
        constructor
        · intro h
          cases h
          exact ⟨rfl, hpos, not_lt.mp hlong⟩
        · intro h
          cases h.1
          rfl
  | _ => simp [checkText, fail]

theorem raisesOnly_checkText : RaisesOnly Refused (checkText name cap w) := by
  unfold checkText
  split
  · split_ifs
    · exact raisesOnly_fail
    · exact raisesOnly_fail
    · exact raisesOnly_ok
  · exact raisesOnly_fail

theorem checkInt_eq_ok {message : String} {low high n : ℤ} :
    checkInt message low high w = .ok n ↔ w = .int n ∧ low ≤ n ∧ n ≤ high := by
  cases w with
  | int m =>
      rw [checkInt]
      split_ifs with h
      · constructor
        · intro hok
          cases hok
          exact ⟨rfl, h⟩
        · intro hok
          cases hok.1
          rfl
      · constructor
        · intro hok
          cases hok
        · intro hok
          cases hok.1
          exact absurd hok.2 h
  | _ => simp [checkInt, fail]

theorem raisesOnly_checkInt {message : String} {low high : ℤ} :
    RaisesOnly Refused (checkInt message low high w) := by
  unfold checkInt
  split
  · split_ifs
    · exact raisesOnly_ok
    · exact raisesOnly_fail
  · exact raisesOnly_fail

theorem checkMode_eq_ok {mode : PyStr} {u : Unit} :
    checkMode mode = .ok u ↔ mode ∈ validModes := by
  unfold checkMode
  split_ifs with h <;> simp [h, fail]

theorem raisesOnly_checkMode {mode : PyStr} : RaisesOnly Refused (checkMode mode) := by
  unfold checkMode
  split_ifs
  · exact raisesOnly_ok
  · exact raisesOnly_fail

theorem raisesOnly_checkIdentityTuple {a b c d e f : Value} :
    RaisesOnly Refused (checkIdentityTuple a b c d e f) := by
  apply raisesOnly_checkText.bind
  intro _ _
  apply raisesOnly_checkText.bind
  intro _ _
  apply raisesOnly_checkText.bind
  intro _ _
  apply raisesOnly_checkText.bind
  intro _ _
  apply raisesOnly_checkMode.bind
  intro _ _
  apply raisesOnly_checkInt.bind
  intro _ _
  apply raisesOnly_checkInt.bind
  intro _ _
  exact raisesOnly_ok

theorem checkIdentityTuple_eq_ok {a b c d e f : Value} {i : Identity} :
    checkIdentityTuple a b c d e f = .ok i ↔
      (a = .str i.id ∧ 1 ≤ i.id.length ∧ i.id.length ≤ 64) ∧
      (b = .str i.displayName ∧ 1 ≤ i.displayName.length ∧ i.displayName.length ≤ 64) ∧
      (c = .str i.baseUrl ∧ 1 ≤ i.baseUrl.length ∧ i.baseUrl.length ≤ 255) ∧
      (d = .str i.mode ∧ i.mode ∈ validModes) ∧
      (e = .int i.keyVersion ∧ 1 ≤ i.keyVersion ∧ i.keyVersion ≤ 2 ^ 32 - 1) ∧
      (f = .int i.signedAtMs ∧ 0 ≤ i.signedAtMs ∧ i.signedAtMs ≤ 2 ^ 62) := by
  constructor
  · intro h
    obtain ⟨id, hid, h⟩ := bind_eq_ok.mp h
    obtain ⟨displayName, hname, h⟩ := bind_eq_ok.mp h
    obtain ⟨baseUrl, hurl, h⟩ := bind_eq_ok.mp h
    obtain ⟨mode, hmode, h⟩ := bind_eq_ok.mp h
    obtain ⟨_, hvalid, h⟩ := bind_eq_ok.mp h
    obtain ⟨keyVersion, hversion, h⟩ := bind_eq_ok.mp h
    obtain ⟨signedAtMs, hts, h⟩ := bind_eq_ok.mp h
    cases h
    exact ⟨checkText_eq_ok.mp hid, checkText_eq_ok.mp hname, checkText_eq_ok.mp hurl,
      ⟨(checkText_eq_ok.mp hmode).1, checkMode_eq_ok.mp hvalid⟩, checkInt_eq_ok.mp hversion,
      checkInt_eq_ok.mp hts⟩
  · intro h
    obtain ⟨hid, hname, hurl, ⟨hmode, hvalid⟩, hversion, hts⟩ := h
    have hmodeLength : 1 ≤ i.mode.length ∧ i.mode.length ≤ maxNameStr := by
      have hall : ∀ m ∈ validModes, 1 ≤ m.length ∧ m.length ≤ maxNameStr := by decide
      exact hall i.mode hvalid
    apply bind_eq_ok.mpr
    refine ⟨_, checkText_eq_ok.mpr hid, bind_eq_ok.mpr ?_⟩
    refine ⟨_, checkText_eq_ok.mpr hname, bind_eq_ok.mpr ?_⟩
    refine ⟨_, checkText_eq_ok.mpr hurl, bind_eq_ok.mpr ?_⟩
    refine ⟨_, checkText_eq_ok.mpr ⟨hmode, hmodeLength⟩, bind_eq_ok.mpr ?_⟩
    refine ⟨(), checkMode_eq_ok.mpr hvalid, bind_eq_ok.mpr ?_⟩
    refine ⟨_, checkInt_eq_ok.mpr hversion, bind_eq_ok.mpr ?_⟩
    exact ⟨_, checkInt_eq_ok.mpr hts, rfl⟩

theorem item_eq_ok {key : String} : item items key = .ok w ↔ get items (codes key) = some w := by
  unfold item
  cases get items (codes key) <;> simp

/-- A key of the manifest is there once the keys were compared. -/
theorem raisesOnly_item (hkeys : ∀ k, k ∈ keys items ↔ k ∈ manifestKeys.map codes) {key : String}
    (hkey : key ∈ manifestKeys) : RaisesOnly Refused (item items key) := by
  obtain ⟨w, hw⟩ := get_of_mem_keys ((hkeys _).mpr (List.mem_map_of_mem hkey))
  rw [item_eq_ok.mpr hw]
  exact raisesOnly_ok

theorem manifestItems_eq_ok :
    manifestItems w = .ok items ↔
      w = .dict items ∧ ∀ k, k ∈ keys items ↔ k ∈ manifestKeys.map codes := by
  unfold manifestItems
  split
  · dsimp only
    split_ifs with h
    · constructor
      · intro hok
        cases hok
        exact ⟨rfl, (missing_extra_nil (by simp) (by simp)).mp h⟩
      · intro hok
        cases hok.1
        rfl
    · constructor
      · intro hok
        cases hok
      · intro hok
        cases hok.1
        exact absurd ((missing_extra_nil (by simp) (by simp)).mpr hok.2) h
  · rename_i hne
    constructor
    · intro hok
      cases hok
    · intro hok
      exact absurd hok.1 (hne items)

theorem raisesOnly_manifestItems : RaisesOnly Refused (manifestItems w) := by
  unfold manifestItems
  split
  · dsimp only
    split_ifs
    · exact raisesOnly_ok
    · exact raisesOnly_fail
  · exact raisesOnly_fail

theorem checkEnvelope_eq_ok {u : Unit} :
    checkEnvelope items = .ok u ↔ get items (codes "v") = some (.int v) ∧
      get items (codes "alg") = some (.str (codes IslandIdentity.alg)) := by
  constructor
  · intro h
    obtain ⟨version, hversion, h⟩ := bind_eq_ok.mp h
    obtain ⟨_, hint, h⟩ := bind_eq_ok.mp h
    obtain ⟨algorithm, halgorithm, hstr⟩ := bind_eq_ok.mp h
    have hversionEq := isIntEq_iff.mp (refuseUnless_eq_ok.mp hint)
    have halgorithmEq := isStrEq_iff.mp (refuseUnless_eq_ok.mp hstr)
    rw [item_eq_ok.mp hversion, item_eq_ok.mp halgorithm, hversionEq, halgorithmEq]
    exact ⟨rfl, rfl⟩
  · intro h
    apply bind_eq_ok.mpr
    refine ⟨_, item_eq_ok.mpr h.1, bind_eq_ok.mpr ⟨(), ?_, bind_eq_ok.mpr ?_⟩⟩
    · exact refuseUnless_eq_ok.mpr (isIntEq_iff.mpr rfl)
    · exact ⟨_, item_eq_ok.mpr h.2, refuseUnless_eq_ok.mpr (isStrEq_iff.mpr rfl)⟩

theorem raisesOnly_checkEnvelope (hkeys : ∀ k, k ∈ keys items ↔ k ∈ manifestKeys.map codes) :
    RaisesOnly Refused (checkEnvelope items) := by
  apply (raisesOnly_item hkeys (by decide)).bind
  intro version _
  apply raisesOnly_refuseUnless.bind
  intro _ _
  apply (raisesOnly_item hkeys (by decide)).bind
  intro algorithm _
  exact raisesOnly_refuseUnless

theorem raisesOnly_parseFields (hkeys : ∀ k, k ∈ keys items ↔ k ∈ manifestKeys.map codes) :
    RaisesOnly Structural (parseFields items) := by
  apply ((raisesOnly_item hkeys (by decide)).mono fun _ => Or.inl).bind
  intro _ _
  apply ((raisesOnly_item hkeys (by decide)).mono fun _ => Or.inl).bind
  intro _ _
  apply ((raisesOnly_item hkeys (by decide)).mono fun _ => Or.inl).bind
  intro _ _
  apply ((raisesOnly_item hkeys (by decide)).mono fun _ => Or.inl).bind
  intro _ _
  apply ((raisesOnly_item hkeys (by decide)).mono fun _ => Or.inl).bind
  intro _ _
  apply ((raisesOnly_item hkeys (by decide)).mono fun _ => Or.inl).bind
  intro _ _
  apply (raisesOnly_checkIdentityTuple.mono fun _ => Or.inl).bind
  intro identity _
  apply ((raisesOnly_item hkeys (by decide)).mono fun _ => Or.inl).bind
  intro pub _
  apply ((raisesOnly_item hkeys (by decide)).mono fun _ => Or.inl).bind
  intro sig _
  split
  · apply (raisesOnly_refuseUnless.mono fun _ => Or.inl).bind
    intro _ _
    apply raisesOnly_originError.bind
    intro _ _
    apply raisesOnly_originError.bind
    intro _ _
    exact raisesOnly_ok
  · exact raisesOnly_fail.mono fun _ => Or.inl

theorem parseFields_eq_ok {m : Manifest} {key sig : Bytes} :
    parseFields items = .ok (m, key, sig) ↔ ∃ a b c d e f,
      (get items (codes "id") = some a ∧ get items (codes "display_name") = some b ∧
        get items (codes "base_url") = some c ∧ get items (codes "mode") = some d ∧
        get items (codes "key_version") = some e ∧ get items (codes "signed_at_ms") = some f) ∧
      checkIdentityTuple a b c d e f = .ok m.identity ∧
      get items (codes "island_pubkey") = some (.str m.islandPubkey) ∧
      get items (codes "signature") = some (.str m.signature) ∧
      m.islandPubkey.length ≤ maxPubkeyStr ∧
      decodeMultikey (plainText m.islandPubkey) = .ok key ∧
      b64urlRaw (plainText m.signature) sigRawLen "signature" = .ok sig := by
  constructor
  · intro h
    obtain ⟨a, ha, h⟩ := bind_eq_ok.mp h
    obtain ⟨b, hb, h⟩ := bind_eq_ok.mp h
    obtain ⟨c, hc, h⟩ := bind_eq_ok.mp h
    obtain ⟨d, hd, h⟩ := bind_eq_ok.mp h
    obtain ⟨e, he, h⟩ := bind_eq_ok.mp h
    obtain ⟨f, hf, h⟩ := bind_eq_ok.mp h
    obtain ⟨identity, hidentity, h⟩ := bind_eq_ok.mp h
    obtain ⟨pub, hpub, h⟩ := bind_eq_ok.mp h
    obtain ⟨signature, hsignature, h⟩ := bind_eq_ok.mp h
    split at h
    · obtain ⟨_, hlength, h⟩ := bind_eq_ok.mp h
      obtain ⟨pubRaw, hkey, h⟩ := bind_eq_ok.mp h
      obtain ⟨sigRaw, hsig, h⟩ := bind_eq_ok.mp h
      cases h
      have hshort := of_decide_eq_true (refuseUnless_eq_ok.mp hlength)
      exact ⟨a, b, c, d, e, f, ⟨item_eq_ok.mp ha, item_eq_ok.mp hb, item_eq_ok.mp hc,
        item_eq_ok.mp hd, item_eq_ok.mp he, item_eq_ok.mp hf⟩, hidentity, item_eq_ok.mp hpub,
        item_eq_ok.mp hsignature, hshort, mapError_eq_ok.mp hkey, mapError_eq_ok.mp hsig⟩
    · cases h
  · intro h
    obtain ⟨a, b, c, d, e, f, ⟨ha, hb, hc, hd, he, hf⟩, hidentity, hpub, hsignature, hlength, hkey,
      hsig⟩ := h
    apply bind_eq_ok.mpr
    refine ⟨a, item_eq_ok.mpr ha, bind_eq_ok.mpr ⟨b, item_eq_ok.mpr hb, bind_eq_ok.mpr ?_⟩⟩
    refine ⟨c, item_eq_ok.mpr hc, bind_eq_ok.mpr ⟨d, item_eq_ok.mpr hd, bind_eq_ok.mpr ?_⟩⟩
    refine ⟨e, item_eq_ok.mpr he, bind_eq_ok.mpr ⟨f, item_eq_ok.mpr hf, bind_eq_ok.mpr ?_⟩⟩
    refine ⟨m.identity, hidentity, bind_eq_ok.mpr ⟨_, item_eq_ok.mpr hpub, bind_eq_ok.mpr ?_⟩⟩
    refine ⟨_, item_eq_ok.mpr hsignature, bind_eq_ok.mpr ⟨(), ?_, bind_eq_ok.mpr ?_⟩⟩
    · exact refuseUnless_eq_ok.mpr (decide_eq_true hlength)
    · exact ⟨key, mapError_eq_ok.mpr hkey, bind_eq_ok.mpr ⟨sig, mapError_eq_ok.mpr hsig, rfl⟩⟩

/-- The checks up to the signed bytes let exactly the well-formed manifests through. -/
theorem wellFormed_iff {m : Manifest} {key sig : Bytes} :
    WellFormed items m key sig ↔
      (∀ k, k ∈ keys items ↔ k ∈ manifestKeys.map codes) ∧ checkEnvelope items = .ok () ∧
        parseFields items = .ok (m, key, sig) := by
  constructor
  · intro h
    refine ⟨h.keys, checkEnvelope_eq_ok.mpr ⟨h.values _, h.values _⟩, parseFields_eq_ok.mpr ?_⟩
    refine ⟨_, _, _, _, _, _, ⟨h.values _, h.values _, h.values _, h.values _, h.values _,
      h.values _⟩, ?_, h.values _, h.values _, h.pubkeyLength, h.key, h.sig⟩
    exact checkIdentityTuple_eq_ok.mpr ⟨⟨rfl, h.id⟩, ⟨rfl, h.displayName⟩, ⟨rfl, h.baseUrl⟩,
      ⟨rfl, h.mode⟩, ⟨rfl, h.keyVersion⟩, ⟨rfl, h.signedAt⟩⟩
  · intro h
    obtain ⟨hkeys, henvelope, hparse⟩ := h
    obtain ⟨hv, halg⟩ := checkEnvelope_eq_ok.mp henvelope
    obtain ⟨a, b, c, d, e, f, ⟨ha, hb, hc, hd, he, hf⟩, hidentity, hpub, hsignature, hlength, hkey,
      hsig⟩ := parseFields_eq_ok.mp hparse
    obtain ⟨⟨rfl, hid⟩, ⟨rfl, hname⟩, ⟨rfl, hurl⟩, ⟨rfl, hmode⟩, ⟨rfl, hversion⟩, rfl, hts⟩ :=
      checkIdentityTuple_eq_ok.mp hidentity
    refine ⟨hkeys, ?_, hid, hname, hurl, hmode, hversion, hts, hlength, hkey, hsig⟩
    intro k
    by_cases hk : k ∈ manifestKeys.map codes
    · simp only [manifestKeys, List.map_cons, List.map_nil, List.mem_cons, List.not_mem_nil,
        or_false] at hk
      rcases hk with rfl | rfl | rfl | rfl | rfl | rfl | rfl | rfl | rfl | rfl
      · exact hv
      · exact halg
      · exact ha
      · exact hb
      · exact hc
      · exact hd
      · exact he
      · exact hf
      · exact hpub
      · exact hsignature
    · have hitems : k ∉ keys items := fun hin => hk ((hkeys k).mp hin)
      have hfresh : k ∉ keys m.items := hk
      rw [get_of_notMem hitems, get_of_notMem hfresh]

end

/-! ## The signed bytes -/

/-- No text of the tuple holds a lone surrogate. -/
def Encodes (i : Identity) : Prop :=
  encode i.id ≠ none ∧ encode i.displayName ≠ none ∧ encode i.baseUrl ≠ none

theorem length_utf8_le (s : String) : (utf8 s).length ≤ 4 * s.toList.length := by
  unfold utf8
  induction s.toList with
  | nil => simp
  | cons c cs ih =>
      have hc : (String.utf8EncodeChar c).length ≤ 4 := by
        rw [String.length_utf8EncodeChar]
        exact c.utf8Size_le_four
      rw [List.flatMap_cons, List.length_append, List.length_cons]
      omega

/-- A text that is not too long fails to be packed only if it has no encoding. -/
theorem lpText_isSome {s : PyStr} (h : s.length ≤ 255) : (lpText s).isSome ↔ encode s ≠ none := by
  unfold lpText
  cases hs : encode s with
  | none => simp
  | some t =>
      have hlength := length_utf8_le t
      have hcodes : t.toList.length = s.length := by
        rw [← codes_encode hs]
        simp [codes]
      rw [Option.bind_some, lpBytes_eq (by omega)]
      simp

theorem join_isSome {ps : List (Option Bytes)} :
    (SelfDelimiting.join ps).isSome ↔ ∀ p ∈ ps, p.isSome := by
  induction ps with
  | nil => simp [SelfDelimiting.join]
  | cons p ps ih =>
      rw [SelfDelimiting.join, List.forall_mem_cons, ← ih]
      cases p with
      | none => simp
      | some x => simp

section
variable {items : List (PyStr × Value)} {m : Manifest} {key sig : Bytes}

/-- The bytes of a well-formed manifest exist unless a text has no encoding. -/
theorem islandSigningBytes_isSome (h : WellFormed items m key sig) :
    (islandSigningBytes m.identity.id m.identity.displayName m.identity.baseUrl m.identity.mode
      m.identity.keyVersion m.identity.signedAtMs).isSome ↔ Encodes m.identity := by
  have htag : (lpTag islandDomainTag).isSome = true := by decide +kernel
  have hmode : (lpText m.identity.mode).isSome = true := by
    have hall : ∀ mode ∈ validModes, (lpText mode).isSome = true := by decide +kernel
    exact hall _ h.mode
  have hversion : (pack32 m.identity.keyVersion).isSome = true := by
    have := h.keyVersion
    rw [pack32, if_pos (by omega)]
    rfl
  have hts : (pack64 m.identity.signedAtMs).isSome = true := by
    have := h.signedAt
    rw [pack64, if_pos (by omega)]
    rfl
  rw [islandSigningBytes, join_isSome]
  simp only [List.forall_mem_cons, List.not_mem_nil, false_implies, implies_true, and_true, htag,
    hmode, hversion, hts, true_and, lpText_isSome (h.id.2.trans (by decide)),
    lpText_isSome (h.displayName.2.trans (by decide)), lpText_isSome h.baseUrl.2]
  rfl

theorem signingBytes_eq_ok {i : Identity} {msg : Bytes} :
    IslandIdentity.signingBytes i = .ok msg ↔
      islandSigningBytes i.id i.displayName i.baseUrl i.mode i.keyVersion i.signedAtMs =
        some msg := by
  rw [IslandIdentity.signingBytes, mapError_eq_ok, islandBytes_eq_ok]

theorem raisesOnly_signingBytes {i : Identity} :
    RaisesOnly (fun e => ∃ b, e = Exn.byteError b) (IslandIdentity.signingBytes i) := by
  intro e he
  unfold IslandIdentity.signingBytes at he
  exact raisesOnly_mapError (R := fun e => ∃ b, e = Exn.byteError b) (fun b => ⟨b, rfl⟩) e he

/-! ## Every value -/

variable {ed : Ed25519} {raw : Value}

theorem onOriginError_of_structural {α : Type} {p : String} {e : Exn} (h : Structural e) :
    ∃ error, onOriginError p (.error e : Except Exn α) = .error (.islandIdentityError error) := by
  rcases h with ⟨error, rfl⟩ | ⟨detail, rfl⟩
  · exact ⟨error, rfl⟩
  · exact ⟨_, rfl⟩

theorem verifyManifest_of_wellFormed (h : WellFormed items m key sig) :
    verifyManifest ed (.dict items) =
      (IslandIdentity.signingBytes m.identity).map fun msg => ed.verify key sig msg := by
  obtain ⟨hkeys, henvelope, hparse⟩ := wellFormed_iff.mp h
  unfold verifyManifest parseManifest
  rw [manifestItems_eq_ok.mpr ⟨rfl, hkeys⟩, ok_bind, henvelope, ok_bind, hparse, ok_bind]
  dsimp only
  cases hbytes : IslandIdentity.signingBytes m.identity with
  | ok msg => rfl
  | error e =>
      obtain ⟨byteError, rfl⟩ := raisesOnly_signingBytes e hbytes
      rfl

/-- Whatever is not well formed is refused with the one error. -/
theorem verifyManifest_of_not (h : ∀ items m key sig, raw = .dict items →
    ¬WellFormed items m key sig) :
    ∃ error, verifyManifest ed raw = .error (.islandIdentityError error) := by
  unfold verifyManifest parseManifest
  cases hitems : manifestItems raw with
  | error e =>
      obtain ⟨error, rfl⟩ := raisesOnly_manifestItems e hitems
      exact ⟨error, rfl⟩
  | ok items =>
      obtain ⟨hraw, hkeys⟩ := manifestItems_eq_ok.mp hitems
      rw [ok_bind]
      cases henvelope : checkEnvelope items with
      | error e =>
          obtain ⟨error, rfl⟩ := raisesOnly_checkEnvelope hkeys e henvelope
          exact ⟨error, rfl⟩
      | ok u =>
          rw [ok_bind]
          cases hparse : parseFields items with
          | error e =>
              obtain ⟨error, herror⟩ := @onOriginError_of_structural (Bytes × Bytes × Bytes)
                "not a well-formed island manifest: " e (raisesOnly_parseFields hkeys e hparse)
              rw [error_bind, herror]
              exact ⟨error, rfl⟩
          | ok parsed =>
              obtain ⟨m, key, sig⟩ := parsed
              exact absurd (wellFormed_iff.mpr ⟨hkeys, henvelope, hparse⟩) (h items m key sig hraw)

/-- The verdict is a boolean or the one error, and it is true only of a well-formed manifest whose
signature verifies over its signed bytes. -/
def Total (ed : Ed25519) (raw : Value) : Prop :=
  ((∃ b, verifyManifest ed raw = .ok b) ∨
      ∃ error, verifyManifest ed raw = .error (.islandIdentityError error)) ∧
    (verifyManifest ed raw = .ok true → ∃ items m key sig msg, raw = .dict items ∧
      WellFormed items m key sig ∧
      islandSigningBytes m.identity.id m.identity.displayName m.identity.baseUrl m.identity.mode
        m.identity.keyVersion m.identity.signedAtMs = some msg ∧
      ed.verify key sig msg = true)

theorem verifyManifest_eq_true :
    verifyManifest ed raw = .ok true ↔ ∃ items m key sig msg, raw = .dict items ∧
      WellFormed items m key sig ∧
      islandSigningBytes m.identity.id m.identity.displayName m.identity.baseUrl m.identity.mode
        m.identity.keyVersion m.identity.signedAtMs = some msg ∧
      ed.verify key sig msg = true := by
  constructor
  · intro htrue
    by_cases h : ∃ items m key sig, raw = .dict items ∧ WellFormed items m key sig
    · obtain ⟨items, m, key, sig, hraw, hright⟩ := h
      rw [hraw, verifyManifest_of_wellFormed hright, map_eq_ok] at htrue
      obtain ⟨msg, hmsg, hverify⟩ := htrue
      exact ⟨items, m, key, sig, msg, hraw, hright, signingBytes_eq_ok.mp hmsg, hverify⟩
    · have hnone : ∀ items m key sig, raw = .dict items → ¬WellFormed items m key sig :=
        fun items m key sig hraw hright => h ⟨items, m, key, sig, hraw, hright⟩
      obtain ⟨error, herror⟩ := @verifyManifest_of_not ed raw hnone
      rw [herror] at htrue
      cases htrue
  · intro h
    obtain ⟨items, m, key, sig, msg, hraw, hright, hmsg, hverify⟩ := h
    rw [hraw, verifyManifest_of_wellFormed hright, signingBytes_eq_ok.mpr hmsg, ← hverify]
    rfl

end

/-- The verifier is total but for the well-formed manifests with a lone surrogate in a text. -/
theorem total_iff (ed : Ed25519) (raw : Value) :
    Total ed raw ↔ ∀ items m key sig, raw = .dict items → WellFormed items m key sig →
      Encodes m.identity := by
  constructor
  · intro htotal items m key sig hraw hright
    rw [← islandSigningBytes_isSome hright]
    have hverdict := htotal.1
    rw [hraw, verifyManifest_of_wellFormed hright] at hverdict
    cases hbytes : IslandIdentity.signingBytes m.identity with
    | ok msg =>
        rw [signingBytes_eq_ok.mp hbytes]
        rfl
    | error e =>
        obtain ⟨b, rfl⟩ := raisesOnly_signingBytes e hbytes
        rw [hbytes] at hverdict
        rcases hverdict with ⟨b, hok⟩ | ⟨error, herror⟩
        · cases hok
        · cases herror
  · intro h
    refine ⟨?_, verifyManifest_eq_true.mp⟩
    by_cases hright : ∃ items m key sig, raw = .dict items ∧ WellFormed items m key sig
    · obtain ⟨items, m, key, sig, hraw, hright⟩ := hright
      have hencodes := h items m key sig hraw hright
      obtain ⟨msg, hmsg⟩ := Option.isSome_iff_exists.mp
        ((islandSigningBytes_isSome hright).mpr hencodes)
      rw [hraw, verifyManifest_of_wellFormed hright, signingBytes_eq_ok.mpr hmsg]
      exact Or.inl ⟨_, rfl⟩
    · right
      exact verifyManifest_of_not fun items m key sig hraw hwf =>
        hright ⟨items, m, key, sig, hraw, hwf⟩

/-- The id of this manifest is a lone surrogate. -/
def surrogateManifest : Value :=
  .dict (Manifest.items ⟨⟨[0xD800], codes "Aiko", codes "https://aiko.example", codes "e2ee", 1,
    1700000000000⟩, codes (encodeMultikey ActuationVerdicts.commanderKey),
    codes ActuationVerdicts.goldenSig⟩)

/-- The envelope is in order and the bytes of the manifest cannot be built. -/
def encodingEscapes (raw : Value) : Bool :=
  match manifestItems raw with
  | .ok items =>
      match checkEnvelope items, parseManifest items with
      | .ok _, .error (.byteError .unicodeEncodeError) => true
      | _, _ => false
  | _ => false

theorem a_surrogate_escapes (ed : Ed25519) :
    verifyManifest ed surrogateManifest = .error (.byteError .unicodeEncodeError) := by
  have hparse : encodingEscapes surrogateManifest = true := by decide +kernel
  unfold encodingEscapes at hparse
  unfold verifyManifest
  split at hparse
  next items hitems =>
    split at hparse
    next henvelope hbytes =>
      rw [hitems, ok_bind, henvelope, ok_bind, hbytes]
      rfl
    next => cases hparse
  next => cases hparse

theorem a_surrogate_is_no_verdict : ¬∀ (ed : Ed25519) (raw : Value), Total ed raw := by
  intro h
  let ed : Ed25519 := ⟨fun seed => seed, fun _ msg => msg, fun _ _ _ => false⟩
  have hescapes := a_surrogate_escapes ed
  rcases (h ed surrogateManifest).1 with ⟨b, hok⟩ | ⟨error, herror⟩
  · rw [hescapes] at hok
    cases hok
  · rw [hescapes] at herror
    cases herror

end AikoIsland.ManifestVerdicts
