import AikoIsland.ManifestVerdicts

/-!
# Admitting an island

The door lets a manifest in exactly if it verifies and its age lies in the window,
and it never takes a window wider than its own. What the builder signs verifies, is
admitted at its own time, and stops verifying when a field changes: the changed
manifest would need the old signature to hold for other bytes or for another key.
-/
namespace AikoIsland.ManifestAdmission
open Tables Messages Signing SignedBytes Multikeys OrderedDict Checks SigningErrors IslandIdentity
  ManifestVerdicts
open Actuation (Value plainText encodeMultikey)

/-- Keys and signatures have the lengths of Ed25519, and a signature verifies. -/
structure Correct (ed : Ed25519) : Prop where
  publicKey : ∀ seed, seed.length = seedLen → (ed.publicKey seed).length = pubkeyRawLen
  sign : ∀ seed msg, seed.length = seedLen → (ed.sign seed msg).length = sigRawLen
  verify : ∀ seed msg, seed.length = seedLen →
    ed.verify (ed.publicKey seed) (ed.sign seed msg) msg = true

/-- The signature of this message verifies for no other message and under no other key. -/
def Unforgeable (ed : Ed25519) (seed msg : Bytes) : Prop :=
  ∀ key msg', ed.verify key (ed.sign seed msg) msg' = true → key = ed.publicKey seed ∧ msg' = msg

section
variable {ed : Ed25519} {raw mode nowMs maxAgeMs skewMs : Value} {now maxAge skew : ℤ}

/-! ## The window -/

theorem isFresh_eq_ok {signedAt : ℤ} (hsigned : 0 ≤ signedAt ∧ signedAt ≤ 2 ^ 62)
    (hnow : 0 ≤ now ∧ now ≤ 2 ^ 62) (hage : 0 ≤ maxAge ∧ maxAge ≤ defaultMaxAgeMs)
    (hskew : 0 ≤ skew ∧ skew ≤ defaultClockSkewMs) :
    isFresh (.int signedAt) (.int now) (.int maxAge) (.int skew) =
      .ok (decide (-skew ≤ now - signedAt) && decide (now - signedAt ≤ maxAge)) := by
  have hmaxAge : maxAge ≤ maxSignedAtMs := hage.2.trans (by decide)
  have hmaxSkew : skew ≤ maxSignedAtMs := hskew.2.trans (by decide)
  have hinput : ∀ {name : String} {n : ℤ}, 0 ≤ n ∧ n ≤ maxSignedAtMs →
      freshInput name (.int n) = .ok n := fun hn => checkInt_eq_ok.mpr ⟨rfl, hn⟩
  unfold isFresh
  rw [hinput hsigned, ok_bind, hinput hnow, ok_bind, hinput ⟨hage.1, hmaxAge⟩, ok_bind,
    hinput ⟨hskew.1, hmaxSkew⟩, ok_bind]
  rfl

theorem checkCeiling_eq_ok {template : String} {ceiling n : ℤ} (h : n ≤ ceiling) :
    checkCeiling template ceiling (.int n) = .ok () := by
  rw [checkCeiling, if_neg (not_lt.mpr h)]

theorem checkCeiling_of_lt {template : String} {ceiling n : ℤ} (h : ceiling < n) :
    checkCeiling template ceiling (.int n) = fail template [.int n] := by
  rw [checkCeiling, if_pos h]

theorem wide_age_is_refused (h : defaultMaxAgeMs < maxAge) :
    ∃ e, admitManifest ed raw nowMs (.int maxAge) skewMs = .error e := by
  unfold admitManifest
  rw [checkCeiling_of_lt h, fail, error_bind]
  exact ⟨_, rfl⟩

theorem wide_skew_is_refused (h : defaultClockSkewMs < skew) :
    ∃ e, admitManifest ed raw nowMs maxAgeMs (.int skew) = .error e := by
  unfold admitManifest
  cases hage : checkCeiling _ defaultMaxAgeMs maxAgeMs with
  | error e => exact ⟨e, rfl⟩
  | ok u =>
      rw [ok_bind, checkCeiling_of_lt h, fail, error_bind]
      exact ⟨_, rfl⟩

/-! ## The door -/

/-- A well-formed manifest whose signature verifies over its own fields under its own key. -/
def Verified (ed : Ed25519) (raw : Value) (identity : Identity) : Prop :=
  ∃ items m key sig msg, raw = .dict items ∧ m.identity = identity ∧ WellFormed items m key sig ∧
    islandSigningBytes identity.id identity.displayName identity.baseUrl identity.mode
      identity.keyVersion identity.signedAtMs = some msg ∧
    ed.verify key sig msg = true

theorem verifyManifest_iff : verifyManifest ed raw = .ok true ↔ ∃ i, Verified ed raw i := by
  rw [verifyManifest_eq_true]
  constructor
  · intro h
    obtain ⟨items, m, key, sig, msg, hraw, hright, hmsg, hverify⟩ := h
    exact ⟨m.identity, items, m, key, sig, msg, hraw, rfl, hright, hmsg, hverify⟩
  · intro h
    obtain ⟨i, items, m, key, sig, msg, hraw, rfl, hright, hmsg, hverify⟩ := h
    exact ⟨items, m, key, sig, msg, hraw, hright, hmsg, hverify⟩

/-- A manifest that verifies is admitted with its mode exactly inside the window. -/
theorem admitManifest_of_verified {i : Identity} (h : Verified ed raw i)
    (hnow : 0 ≤ now ∧ now ≤ 2 ^ 62) (hage : 0 ≤ maxAge ∧ maxAge ≤ defaultMaxAgeMs)
    (hskew : 0 ≤ skew ∧ skew ≤ defaultClockSkewMs) :
    admitManifest ed raw (.int now) (.int maxAge) (.int skew) =
      .ok (if -skew ≤ now - i.signedAtMs ∧ now - i.signedAtMs ≤ maxAge then some (.str i.mode)
        else none) := by
  have hverified := verifyManifest_iff.mpr ⟨i, h⟩
  obtain ⟨items, m, key, sig, msg, rfl, rfl, hright, _⟩ := h
  have hsigned : item items "signed_at_ms" = .ok (.int m.identity.signedAtMs) :=
    item_eq_ok.mpr (hright.values _)
  have hmode : item items "mode" = .ok (.str m.identity.mode) := item_eq_ok.mpr (hright.values _)
  unfold admitManifest
  rw [checkCeiling_eq_ok hage.2, ok_bind, checkCeiling_eq_ok hskew.2, ok_bind, hverified, ok_bind]
  dsimp only
  rw [if_pos rfl, hsigned, ok_bind, isFresh_eq_ok hright.signedAt hnow hage hskew, ok_bind, hmode,
    ← Bool.decide_and]
  split_ifs with hfresh hwindow hwindow
  · rfl
  · exact absurd (of_decide_eq_true hfresh) hwindow
  · exact absurd (decide_eq_true hwindow) hfresh
  · rfl

theorem verified_of_admitManifest (h : admitManifest ed raw nowMs maxAgeMs skewMs =
    .ok (some mode)) : ∃ i, Verified ed raw i := by
  obtain ⟨_, _, h⟩ := bind_eq_ok.mp h
  obtain ⟨_, _, h⟩ := bind_eq_ok.mp h
  obtain ⟨verified, hverified, h⟩ := bind_eq_ok.mp h
  cases verified with
  | true => exact verifyManifest_iff.mp hverified
  | false =>
      split at h
      · cases h
      · cases h

theorem admitManifest_eq_some (hnow : 0 ≤ now ∧ now ≤ 2 ^ 62)
    (hage : 0 ≤ maxAge ∧ maxAge ≤ defaultMaxAgeMs)
    (hskew : 0 ≤ skew ∧ skew ≤ defaultClockSkewMs) :
    admitManifest ed raw (.int now) (.int maxAge) (.int skew) = .ok (some mode) ↔
      ∃ i, Verified ed raw i ∧ -skew ≤ now - i.signedAtMs ∧ now - i.signedAtMs ≤ maxAge ∧
        mode = .str i.mode := by
  constructor
  · intro h
    obtain ⟨i, hi⟩ := verified_of_admitManifest h
    rw [admitManifest_of_verified hi hnow hage hskew] at h
    split_ifs at h with hwindow
    · cases h
      exact ⟨i, hi, hwindow.1, hwindow.2, rfl⟩
    · cases h
  · intro h
    obtain ⟨i, hi, hlow, hhigh, rfl⟩ := h
    rw [admitManifest_of_verified hi hnow hage hskew, if_pos ⟨hlow, hhigh⟩]

end

/-! ## The builder -/

section
variable {ed : Ed25519} {id displayName baseUrl mode keyVersion signedAtMs : Value}
  {seedB64url : PyStr} {dict : List (PyStr × Value)} {i : Identity} {seed msg : Bytes}

/-- The manifest that a seed signs. -/
def signedManifest (ed : Ed25519) (i : Identity) (seed msg : Bytes) : Manifest :=
  ⟨i, codes (encodeMultikey (ed.publicKey seed)), codes (bytesToBase64url (ed.sign seed msg))⟩

theorem length_of_decodeSeed (h : decodeSeed seedB64url = .ok seed) : seed.length = seedLen := by
  unfold decodeSeed at h
  cases hraw : b64urlRaw (plainText (Reactions.strip seedB64url)) seedLen "ISLAND_SIGNING_SEED" with
  | ok raw =>
      rw [hraw] at h
      cases h
      exact length_of_b64urlRaw hraw
  | error detail =>
      rw [hraw] at h
      cases h

theorem buildSignedManifest_eq_ok
    (h : buildSignedManifest ed id displayName baseUrl mode keyVersion signedAtMs seedB64url =
      .ok dict) : ∃ i seed msg,
    checkIdentityTuple id displayName baseUrl mode keyVersion signedAtMs = .ok i ∧
      decodeSeed seedB64url = .ok seed ∧ IslandIdentity.signingBytes i = .ok msg ∧
      dict = (signedManifest ed i seed msg).items := by
  obtain ⟨i, hi, h⟩ := bind_eq_ok.mp h
  obtain ⟨seed, hseed, h⟩ := bind_eq_ok.mp h
  obtain ⟨msg, hmsg, h⟩ := bind_eq_ok.mp h
  obtain ⟨pubkey, hpubkey, h⟩ := bind_eq_ok.mp h
  unfold publicMultikey at hpubkey
  split_ifs at hpubkey
  cases hpubkey
  cases h
  exact ⟨i, seed, msg, hi, hseed, hmsg, rfl⟩

theorem wellFormed_signedManifest (hed : Correct ed)
    (hi : checkIdentityTuple id displayName baseUrl mode keyVersion signedAtMs = .ok i)
    (hseed : seed.length = seedLen) :
    WellFormed (signedManifest ed i seed msg).items (signedManifest ed i seed msg)
      (ed.publicKey seed) (ed.sign seed msg) := by
  obtain ⟨⟨_, hid⟩, ⟨_, hname⟩, ⟨_, hurl⟩, ⟨_, hmode⟩, ⟨_, hversion⟩, _, hts⟩ :=
    checkIdentityTuple_eq_ok.mp hi
  have hkey := decodeMultikey_encodeMultikey (hed.publicKey seed hseed)
  constructor
  · intro k
    rfl
  · intro k
    rfl
  · exact hid
  · exact hname
  · exact hurl
  · exact hmode
  · exact hversion
  · exact hts
  · have hlength := length_le_of_decodeMultikey hkey
    rw [signedManifest, codes, List.length_map]
    exact hlength
  · rw [signedManifest, plainText_codes]
    exact hkey
  · rw [signedManifest, plainText_codes]
    exact b64urlRaw_bytesToBase64url (hed.sign seed msg hseed) (by decide)

theorem verified_signedManifest (hed : Correct ed)
    (hi : checkIdentityTuple id displayName baseUrl mode keyVersion signedAtMs = .ok i)
    (hseed : seed.length = seedLen) (hmsg : IslandIdentity.signingBytes i = .ok msg) :
    Verified ed (.dict (signedManifest ed i seed msg).items) i :=
  ⟨_, _, _, _, msg, rfl, rfl, wellFormed_signedManifest hed hi hseed,
    signingBytes_eq_ok.mp hmsg, hed.verify seed msg hseed⟩

/-- A manifest that verifies with the signature of another one is that other one. -/
theorem same_values_of_signature {items : List (PyStr × Value)} (hed : Correct ed)
    (hi : checkIdentityTuple id displayName baseUrl mode keyVersion signedAtMs = .ok i)
    (hseed : seed.length = seedLen) (hmsg : IslandIdentity.signingBytes i = .ok msg)
    (hunforgeable : Unforgeable ed seed msg)
    (hsignature : get items (codes "signature") =
      get (signedManifest ed i seed msg).items (codes "signature"))
    (hverified : verifyManifest ed (.dict items) = .ok true) (k : PyStr) :
    get items k = get (signedManifest ed i seed msg).items k := by
  obtain ⟨_, m, key, sig, msg', heq, hright, hmsg', hverify⟩ := verifyManifest_eq_true.mp hverified
  cases heq
  have hown : WellFormed _ (signedManifest ed i seed msg) (ed.publicKey seed) (ed.sign seed msg) :=
    wellFormed_signedManifest hed hi hseed
  have htext : m.signature = (signedManifest ed i seed msg).signature := by
    have hboth := (hright.values (codes "signature")).symm.trans hsignature
    exact Value.str.inj (Option.some.inj hboth)
  have hsig : sig = ed.sign seed msg := by
    have hdecoded := hright.sig
    rw [htext, hown.sig] at hdecoded
    exact (Except.ok.inj hdecoded).symm
  rw [hsig] at hverify
  obtain ⟨hkey, hbytes⟩ := hunforgeable key msg' hverify
  have hidentity : m.identity = i := by
    rw [hbytes] at hmsg'
    have hsame := SignedEvent.manifest_inj hmsg' (signingBytes_eq_ok.mp hmsg)
    obtain ⟨⟨a, b, c, d, e, f⟩, pub, s⟩ := m
    cases i
    cases hsame
    rfl
  have hpubkey : m.islandPubkey = (signedManifest ed i seed msg).islandPubkey := by
    have hdecoded := hright.key
    rw [hkey] at hdecoded
    exact decodeMultikey_plainText_inj hdecoded hown.key
  have hm : m = signedManifest ed i seed msg := by
    obtain ⟨identity, pub, signature⟩ := m
    cases hidentity
    cases hpubkey
    cases htext
    rfl
  rw [hright.values k, hm]

end

/-- The door lets in what verifies and is recent, and the builder's manifests are such. -/
theorem admission (ed : Ed25519) (hed : Correct ed) :
    (∀ (raw mode : Value) (now maxAge skew : ℤ), 0 ≤ now ∧ now ≤ 2 ^ 62 →
      0 ≤ maxAge ∧ maxAge ≤ 300000 → 0 ≤ skew ∧ skew ≤ 60000 →
      (admitManifest ed raw (.int now) (.int maxAge) (.int skew) = .ok (some mode) ↔
        ∃ i, Verified ed raw i ∧ -skew ≤ now - i.signedAtMs ∧ now - i.signedAtMs ≤ maxAge ∧
          mode = .str i.mode)) ∧
    (∀ (raw nowMs other : Value) (n : ℤ),
      (300000 < n → ∃ e, admitManifest ed raw nowMs (.int n) other = .error e) ∧
      (60000 < n → ∃ e, admitManifest ed raw nowMs other (.int n) = .error e)) ∧
    ∀ (id displayName baseUrl mode keyVersion signedAtMs : Value) (seedB64url : PyStr)
      (dict : List (PyStr × Value)),
      buildSignedManifest ed id displayName baseUrl mode keyVersion signedAtMs seedB64url =
        .ok dict →
      verifyManifest ed (.dict dict) = .ok true ∧
      (∀ maxAge skew : ℤ, 0 ≤ maxAge ∧ maxAge ≤ 300000 → 0 ≤ skew ∧ skew ≤ 60000 →
        admitManifest ed (.dict dict) signedAtMs (.int maxAge) (.int skew) = .ok (some mode)) ∧
      ∀ (i : Identity) (seed msg : Bytes),
        checkIdentityTuple id displayName baseUrl mode keyVersion signedAtMs = .ok i →
        decodeSeed seedB64url = .ok seed → IslandIdentity.signingBytes i = .ok msg →
        Unforgeable ed seed msg → ∀ items : List (PyStr × Value),
          get items (codes "signature") = get dict (codes "signature") →
          (∃ k, k ≠ codes "signature" ∧ get items k ≠ get dict k) →
          verifyManifest ed (.dict items) ≠ .ok true := by
  constructor
  · intro raw mode now maxAge skew hnow hage hskew
    exact admitManifest_eq_some hnow hage hskew
  constructor
  · intro raw nowMs other n
    exact ⟨wide_age_is_refused, wide_skew_is_refused⟩
  intro id displayName baseUrl mode keyVersion signedAtMs seedB64url dict hbuild
  obtain ⟨i, seed, msg, hi, hseed, hmsg, rfl⟩ := buildSignedManifest_eq_ok hbuild
  have hlength := length_of_decodeSeed hseed
  have hverified := verified_signedManifest hed hi hlength hmsg
  obtain ⟨_, _, _, ⟨hmode, _⟩, _, hts, hbounds⟩ := checkIdentityTuple_eq_ok.mp hi
  constructor
  · exact verifyManifest_iff.mpr ⟨i, hverified⟩
  constructor
  · intro maxAge skew hage hskew
    rw [hts, hmode, admitManifest_of_verified hverified hbounds hage hskew, if_pos (by omega)]
  · intro i' seed' msg' hi' hseed' hmsg' hunforgeable items hsignature hdiffers hother
    cases hi.symm.trans hi'
    cases hseed.symm.trans hseed'
    cases hmsg.symm.trans hmsg'
    obtain ⟨k, _, hk⟩ := hdiffers
    exact hk (same_values_of_signature hed hi hlength hmsg hunforgeable hsignature hother k)

/-! ## One key, one message -/

def vectorIdentity : Identity :=
  ⟨codes "a", codes "Aiko", codes "https://a.example", codes "e2ee", 1, 1700000000000⟩

def vectorSeed : PyStr := codes "nWGxne_9WmC6hEr0kuwsxERJxWl7MmkZcDusAxyuf2A"

def vectorKey : Bytes :=
  [215, 90, 152, 1, 130, 177, 10, 183, 213, 75, 254, 211, 201, 100, 7, 58, 14, 225, 114, 243, 218,
    166, 35, 37, 175, 2, 26, 104, 247, 7, 81, 26]

def vectorSignature : Bytes :=
  [25, 224, 195, 210, 145, 167, 63, 93, 106, 133, 208, 176, 226, 221, 176, 170, 233, 171, 125, 163,
    166, 38, 51, 103, 24, 58, 138, 225, 42, 48, 199, 172, 131, 212, 243, 90, 135, 2, 86, 252, 205,
    41, 106, 59, 237, 21, 219, 142, 232, 195, 64, 38, 229, 208, 155, 11, 150, 2, 243, 101, 60, 219,
    162, 4]

/-- The signed bytes of the identity. -/
def vectorMessage : Bytes :=
  [0, 0, 0, 24, 97, 105, 107, 111, 99, 104, 97, 116, 58, 105, 115, 108, 97, 110, 100, 58, 118,
    49, 58, 69, 100, 68, 83, 65, 0, 0, 0, 1, 97, 0, 0, 0, 4, 65, 105, 107, 111, 0, 0, 0, 17,
    104, 116, 116, 112, 115, 58, 47, 47, 97, 46, 101, 120, 97, 109, 112, 108, 101, 0, 0, 0, 4,
    101, 50, 101, 101, 0, 0, 0, 1, 0, 0, 1, 139, 207, 229, 104, 0]

theorem signingBytes_vectorIdentity :
    IslandIdentity.signingBytes vectorIdentity = .ok vectorMessage := by
  apply eq_ok_iff_toOption.mpr
  decide +kernel

/-- What Ed25519 gives for the one seed and the one message; every other message gets a filler. -/
def vectorSign (msg : Bytes) : Bytes :=
  if msg = vectorMessage then vectorSignature else List.replicate sigRawLen 0

def vectorEd25519 : Ed25519 where
  publicKey := fun _ => vectorKey
  sign := fun _ msg => vectorSign msg
  verify := fun key sig msg => key = vectorKey ∧ sig = vectorSign msg

theorem verify_vectorEd25519 {key sig msg : Bytes} :
    vectorEd25519.verify key sig msg = true ↔ key = vectorKey ∧ sig = vectorSign msg :=
  decide_eq_true_iff

theorem length_vectorSign (msg : Bytes) : (vectorSign msg).length = sigRawLen := by
  unfold vectorSign
  split_ifs
  · rfl
  · exact List.length_replicate

theorem correct_vectorEd25519 : Correct vectorEd25519 := by
  constructor
  · intro seed _
    rfl
  · intro seed msg _
    exact length_vectorSign msg
  · intro seed msg _
    exact verify_vectorEd25519.mpr ⟨rfl, rfl⟩

theorem unforgeable_vectorEd25519 (seed : Bytes) :
    Unforgeable vectorEd25519 seed vectorMessage := by
  intro key msg hverify
  obtain ⟨hkey, hsig⟩ := verify_vectorEd25519.mp hverify
  constructor
  · exact hkey
  · by_contra hother
    have hown : vectorSign vectorMessage = vectorSignature := if_pos rfl
    have hfiller : vectorSign msg = List.replicate sigRawLen 0 := if_neg hother
    have hequal := (hown.symm.trans hsig).trans hfiller
    exact absurd hequal (by decide)

theorem admission_of_the_vector : ∃ dict,
    verifyManifest vectorEd25519 (.dict dict) = .ok true ∧
      admitManifest vectorEd25519 (.dict dict) (.int 1700000000000) (.int 300000) (.int 60000) =
        .ok (some (.str (codes "e2ee"))) ∧
      verifyManifest vectorEd25519 (.dict (set dict (codes "mode") (.str (codes "moderator")))) ≠
        .ok true := by
  have hbuilds : (buildSignedManifest vectorEd25519 (.str (codes "a")) (.str (codes "Aiko"))
      (.str (codes "https://a.example")) (.str (codes "e2ee")) (.int 1) (.int 1700000000000)
      vectorSeed).toOption.isSome = true := by decide +kernel
  obtain ⟨dict, hdict⟩ := Option.isSome_iff_exists.mp hbuilds
  have hbuild := eq_ok_iff_toOption.mpr hdict
  obtain ⟨i, seed, msg, hi, hseed, hmsg, hitems⟩ := buildSignedManifest_eq_ok hbuild
  have hidentity : i = vectorIdentity := Except.ok.inj (hi.symm.trans (by rfl))
  have hmessage : msg = vectorMessage := by
    rw [hidentity, signingBytes_vectorIdentity] at hmsg
    exact (Except.ok.inj hmsg).symm
  obtain ⟨hverifies, hadmitted, hchanged⟩ :=
    (admission vectorEd25519 correct_vectorEd25519).2.2 _ _ _ _ _ _ _ _ hbuild
  refine ⟨dict, hverifies, hadmitted 300000 60000 (by decide) (by decide), ?_⟩
  apply hchanged i seed msg hi hseed hmsg (hmessage ▸ unforgeable_vectorEd25519 seed)
  · exact get_set_of_ne (by decide)
  · refine ⟨codes "mode", by decide, ?_⟩
    rw [get_set_self, hitems, hidentity]
    intro hmode
    have htext : codes "moderator" = codes "e2ee" := Value.str.inj (Option.some.inj hmode)
    exact absurd htext (by decide)

end AikoIsland.ManifestAdmission
