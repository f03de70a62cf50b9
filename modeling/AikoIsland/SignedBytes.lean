import AikoIsland.Messages
import AikoIsland.Recovery
import AikoIsland.SelfDelimiting

/-!
# The bytes under the signatures

Five layouts, of messages, reactions, recovery approvals, island manifests and
actuations. Each is a row of parts behind its own domain tag: a text or a byte
string behind its length, a number of a fixed width. A text that has no UTF-8
form, a part that is too long for its length and a number out of range raise, so
a layout is partial here.

Every part delimits itself. So two events with the same bytes are of one kind
and agree in every field, up to the `reply_to` of a message, where absent and
empty are one; which signatures verify is not modelled here.
-/
namespace AikoIsland.SignedBytes
open Tables Messages Signing SelfDelimiting

/-! ## Parts -/

/-- `struct.pack(">I", n)`, which raises out of range. -/
def pack32 (n : ℤ) : Option Bytes :=
  if 0 ≤ n ∧ n < 2 ^ 32 then some (packU32 n.toNat) else none

/-- `struct.pack(">Q", n)`, which raises out of range: the high word, then the low one. -/
def pack64 (n : ℤ) : Option Bytes :=
  if 0 ≤ n ∧ n < 2 ^ 64 then some (packU32 (n.toNat / 2 ^ 32) ++ packU32 (n.toNat % 2 ^ 32))
  else none

def packLength (n : ℕ) : Option Bytes := pack32 n

/-- `lp`. -/
def lpBytes (b : Bytes) : Option Bytes := (packLength b.length).map (· ++ b)

/-- `lp(s.encode())`. -/
def lpText (s : PyStr) : Option Bytes := (encode s).bind fun t => lpBytes (utf8 t)

theorem packU32_inj {n m : ℕ} (hn : n < 2 ^ 32) (hm : m < 2 ^ 32) (h : packU32 n = packU32 m) :
    n = m := by
  simp only [packU32, List.cons.injEq, and_true, ← UInt8.toNat_inj, UInt8.toNat_ofNat'] at h
  omega

theorem delimits_pack32 : Delimits pack32 := by
  apply Delimits.fixed (n := 4)
  · intro n x hx
    unfold pack32 at hx
    split_ifs at hx
    obtain rfl := Option.some.inj hx
    rfl
  · intro n m x hn hm
    unfold pack32 at hn hm
    split_ifs at hn hm with hbound hbound'
    have hsame := packU32_inj (by omega) (by omega)
      ((Option.some.inj hn).trans (Option.some.inj hm).symm)
    omega

theorem delimits_pack64 : Delimits pack64 := by
  apply Delimits.fixed (n := 8)
  · intro n x hx
    unfold pack64 at hx
    split_ifs at hx
    obtain rfl := Option.some.inj hx
    rfl
  · intro n m x hn hm
    unfold pack64 at hn hm
    split_ifs at hn hm with hbound hbound'
    have hlen : (packU32 (n.toNat / 2 ^ 32)).length = (packU32 (m.toNat / 2 ^ 32)).length := rfl
    obtain ⟨hhigh, hlow⟩ :=
      List.append_inj ((Option.some.inj hn).trans (Option.some.inj hm).symm) hlen
    have hhigh' := packU32_inj (by omega) (by omega) hhigh
    have hlow' := packU32_inj (by omega) (by omega) hlow
    omega

theorem delimits_packLength : Delimits packLength := by
  intro n m x x' s s' hn hm heq
  obtain ⟨hsame, hrest⟩ := delimits_pack32 n m x x' s s' hn hm heq
  exact ⟨Int.ofNat_inj.mp hsame, hrest⟩

theorem delimits_lpBytes : Delimits lpBytes := Delimits.prefixed delimits_packLength

theorem utf8_inj {s t : String} (h : utf8 s = utf8 t) : s = t := by
  apply String.toByteArray_inj.mp
  rw [← String.utf8Encode_toList, ← String.utf8Encode_toList]
  exact congrArg List.toByteArray h

theorem delimits_lpText : Delimits lpText := by
  apply Delimits.bind
  · intro s t x x' y y' hs ht heq
    obtain ⟨hutf8, hrest⟩ := delimits_lpBytes _ _ _ _ _ _ hs ht heq
    exact ⟨utf8_inj hutf8, hrest⟩
  · intro s s' t hs hs'
    rw [← codes_encode hs, ← codes_encode hs']

theorem encode_codes (s : String) : encode (codes s) = some s := by
  have hvalid : ∀ n ∈ codes s, n.isValidChar := by
    intro n hn
    obtain ⟨c, _, rfl⟩ := List.mem_map.mp hn
    exact c.valid
  have hmap : (codes s).map Char.ofNat = s.toList := by
    rw [codes, List.map_map]
    conv_rhs => rw [← List.map_id s.toList]
    exact List.map_congr_left fun c _ => Char.ofNat_toNat c
  rw [encode, if_pos (by simpa using hvalid), hmap, String.ofList_toList]

/-- Within the bound of a length, the total and the partial part agree. -/
theorem lpBytes_eq {b : Bytes} (h : b.length < 2 ^ 32) : lpBytes b = some (lp b) := by
  rw [lpBytes, packLength, pack32, if_pos (by omega)]
  rfl

theorem lpText_codes {s : String} (h : (utf8 s).length < 2 ^ 32) :
    lpText (codes s) = some (lp (utf8 s)) := by
  rw [lpText, encode_codes, Option.bind_some, lpBytes_eq h]

/-! ## Layouts -/

def domainTag : String := "aikochat:msg:v1:EdDSA"

def reactDomainTag : String := "aikochat:react:v1:EdDSA"

def islandDomainTag : String := "aikochat:island:v1:EdDSA"

def actuateDomainTag : String := "aikochat:actuate:v1:EdDSA"

def lpTag (tag : String) : Option Bytes := lpBytes (utf8 tag)

/-- `signing.signing_bytes`; an absent `reply_to` is the empty text. -/
def signingBytes (rawPubkey : Bytes) (channelId clientMsgId : PyStr) (signedAtMs : ℤ)
    (body : PyStr) (replyTo : Option PyStr) : Option Bytes :=
  join [lpTag domainTag, lpBytes rawPubkey, lpText channelId, lpText clientMsgId,
    pack64 signedAtMs, lpText body, lpText (replyTo.getD [])]

/-- `signing.reaction_signing_bytes`. -/
def reactionSigningBytes (rawPubkey : Bytes) (channelId clientMsgId : PyStr) (signedAtMs : ℤ)
    (targetMsgId emoji action : PyStr) : Option Bytes :=
  join [lpTag reactDomainTag, lpBytes rawPubkey, lpText channelId, lpText clientMsgId,
    pack64 signedAtMs, lpText targetMsgId, lpText emoji, lpText action]

/-- `recovery_service.approval_bytes`. -/
def approvalBytes (serverNonce : Bytes) (accountId newCredentialId newPublicKey : PyStr) :
    Option Bytes :=
  join [lpTag Recovery.recoverDomainTag, lpBytes serverNonce, lpText accountId,
    lpText newCredentialId, lpText newPublicKey]

/-- The bytes that recovery checks are those of this layout. -/
theorem approvalBytes_eq {n : Bytes} {a c k : String} (hn : n.length < 2 ^ 32)
    (ha : (utf8 a).length < 2 ^ 32) (hc : (utf8 c).length < 2 ^ 32)
    (hk : (utf8 k).length < 2 ^ 32) :
    approvalBytes n (codes a) (codes c) (codes k) = some (Recovery.approvalBytes n a c k) := by
  have htag : lpTag Recovery.recoverDomainTag = some (lp (utf8 Recovery.recoverDomainTag)) :=
    lpBytes_eq (by decide +kernel)
  rw [approvalBytes, htag, lpBytes_eq hn, lpText_codes ha, lpText_codes hc, lpText_codes hk]
  simp [join, Recovery.approvalBytes]

/-- `island_identity.signing_bytes`. -/
def islandSigningBytes (id displayName baseUrl mode : PyStr) (keyVersion signedAtMs : ℤ) :
    Option Bytes :=
  join [lpTag islandDomainTag, lpText id, lpText displayName, lpText baseUrl, lpText mode,
    pack32 keyVersion, pack64 signedAtMs]

/-- `actuation.actuation_signing_bytes`. -/
def actuationSigningBytes (rawPubkey : Bytes) (robotId command : PyStr) (seq signedAtMs : ℤ) :
    Option Bytes :=
  join [lpTag actuateDomainTag, lpBytes rawPubkey, lpText robotId, lpText command, pack64 seq,
    pack64 signedAtMs]

inductive EventKind where
  | message
  | reaction
  | approval
  | manifest
  | actuation
  deriving DecidableEq, Repr

def EventKind.tag : EventKind → String
  | message => domainTag
  | reaction => reactDomainTag
  | approval => Recovery.recoverDomainTag
  | manifest => islandDomainTag
  | actuation => actuateDomainTag

theorem tag_injective {k k' : EventKind} (h : k.tag = k'.tag) : k = k' := by
  revert h
  cases k <;> cases k' <;> decide

/-- What is signed, with every field of its layout. -/
inductive SignedEvent where
  | message (rawPubkey : Bytes) (channelId clientMsgId : PyStr) (signedAtMs : ℤ) (body : PyStr)
      (replyTo : Option PyStr)
  | reaction (rawPubkey : Bytes) (channelId clientMsgId : PyStr) (signedAtMs : ℤ)
      (targetMsgId emoji action : PyStr)
  | approval (serverNonce : Bytes) (accountId newCredentialId newPublicKey : PyStr)
  | manifest (id displayName baseUrl mode : PyStr) (keyVersion signedAtMs : ℤ)
  | actuation (rawPubkey : Bytes) (robotId command : PyStr) (seq signedAtMs : ℤ)
  deriving DecidableEq, Repr

namespace SignedEvent

def bytes : SignedEvent → Option Bytes
  | message rawPubkey channelId clientMsgId signedAtMs body replyTo =>
      signingBytes rawPubkey channelId clientMsgId signedAtMs body replyTo
  | reaction rawPubkey channelId clientMsgId signedAtMs targetMsgId emoji action =>
      reactionSigningBytes rawPubkey channelId clientMsgId signedAtMs targetMsgId emoji action
  | approval serverNonce accountId newCredentialId newPublicKey =>
      approvalBytes serverNonce accountId newCredentialId newPublicKey
  | manifest id displayName baseUrl mode keyVersion signedAtMs =>
      islandSigningBytes id displayName baseUrl mode keyVersion signedAtMs
  | actuation rawPubkey robotId command seq signedAtMs =>
      actuationSigningBytes rawPubkey robotId command seq signedAtMs

def kind : SignedEvent → EventKind
  | message _ _ _ _ _ _ => .message
  | reaction _ _ _ _ _ _ _ => .reaction
  | approval _ _ _ _ => .approval
  | manifest _ _ _ _ _ _ => .manifest
  | actuation _ _ _ _ _ => .actuation

def tag (e : SignedEvent) : String := e.kind.tag

/-- The event up to an empty `reply_to`, which is no `reply_to`. -/
def canonical : SignedEvent → SignedEvent
  | message rawPubkey channelId clientMsgId signedAtMs body replyTo =>
      message rawPubkey channelId clientMsgId signedAtMs body (some (replyTo.getD []))
  | e => e

/-- The parts after the tag. -/
theorem bytes_eq_join (e : SignedEvent) : ∃ ps, e.bytes = join (lpTag e.tag :: ps) := by
  cases e
  all_goals
    simp only [bytes, signingBytes, reactionSigningBytes, approvalBytes, islandSigningBytes,
      actuationSigningBytes, tag, kind, EventKind.tag]
    exact ⟨_, rfl⟩

theorem delimits_lpTag : Delimits lpTag := by
  intro t t' x x' s s' ht ht' heq
  unfold lpTag at ht ht'
  obtain ⟨hutf8, hrest⟩ := delimits_lpBytes (utf8 t) (utf8 t') x x' s s' ht ht' heq
  exact ⟨utf8_inj hutf8, hrest⟩

/-- The kind can be read off the bytes. -/
theorem kind_eq_of_bytes {e e' : SignedEvent} {x : Bytes} (h : e.bytes = some x)
    (h' : e'.bytes = some x) : e.kind = e'.kind := by
  obtain ⟨ps, hps⟩ := bytes_eq_join e
  obtain ⟨ps', hps'⟩ := bytes_eq_join e'
  rw [hps] at h
  rw [hps'] at h'
  exact tag_injective (delimits_lpTag.peel h h').1

/-- The bytes of an event do not depend on the spelling of an absent `reply_to`. -/
theorem bytes_canonical (e : SignedEvent) : e.canonical.bytes = e.bytes := by
  cases e <;> rfl

theorem message_inj {k k' : Bytes} {c c' m m' : PyStr} {t t' : ℤ} {b b' : PyStr}
    {r r' : Option PyStr} {x : Bytes} (h : signingBytes k c m t b r = some x)
    (h' : signingBytes k' c' m' t' b' r' = some x) :
    (message k c m t b r).canonical = (message k' c' m' t' b' r').canonical := by
  obtain ⟨_, x₁, h, h'⟩ := delimits_lpTag.peel h h'
  obtain ⟨rfl, x₂, h, h'⟩ := delimits_lpBytes.peel h h'
  obtain ⟨rfl, x₃, h, h'⟩ := delimits_lpText.peel h h'
  obtain ⟨rfl, x₄, h, h'⟩ := delimits_lpText.peel h h'
  obtain ⟨rfl, x₅, h, h'⟩ := delimits_pack64.peel h h'
  obtain ⟨rfl, x₆, h, h'⟩ := delimits_lpText.peel h h'
  obtain ⟨hreply, _⟩ := delimits_lpText.peel h h'
  simp [canonical, hreply]

theorem reaction_inj {k k' : Bytes} {c c' m m' : PyStr} {t t' : ℤ} {g g' e e' a a' : PyStr}
    {x : Bytes} (h : reactionSigningBytes k c m t g e a = some x)
    (h' : reactionSigningBytes k' c' m' t' g' e' a' = some x) :
    reaction k c m t g e a = reaction k' c' m' t' g' e' a' := by
  obtain ⟨_, x₁, h, h'⟩ := delimits_lpTag.peel h h'
  obtain ⟨rfl, x₂, h, h'⟩ := delimits_lpBytes.peel h h'
  obtain ⟨rfl, x₃, h, h'⟩ := delimits_lpText.peel h h'
  obtain ⟨rfl, x₄, h, h'⟩ := delimits_lpText.peel h h'
  obtain ⟨rfl, x₅, h, h'⟩ := delimits_pack64.peel h h'
  obtain ⟨rfl, x₆, h, h'⟩ := delimits_lpText.peel h h'
  obtain ⟨rfl, x₇, h, h'⟩ := delimits_lpText.peel h h'
  obtain ⟨rfl, _⟩ := delimits_lpText.peel h h'
  rfl

theorem approval_inj {n n' : Bytes} {a a' c c' k k' : PyStr} {x : Bytes}
    (h : approvalBytes n a c k = some x) (h' : approvalBytes n' a' c' k' = some x) :
    approval n a c k = approval n' a' c' k' := by
  obtain ⟨_, x₁, h, h'⟩ := delimits_lpTag.peel h h'
  obtain ⟨rfl, x₂, h, h'⟩ := delimits_lpBytes.peel h h'
  obtain ⟨rfl, x₃, h, h'⟩ := delimits_lpText.peel h h'
  obtain ⟨rfl, x₄, h, h'⟩ := delimits_lpText.peel h h'
  obtain ⟨rfl, _⟩ := delimits_lpText.peel h h'
  rfl

theorem manifest_inj {i i' d d' u u' m m' : PyStr} {k k' t t' : ℤ} {x : Bytes}
    (h : islandSigningBytes i d u m k t = some x)
    (h' : islandSigningBytes i' d' u' m' k' t' = some x) :
    manifest i d u m k t = manifest i' d' u' m' k' t' := by
  obtain ⟨_, x₁, h, h'⟩ := delimits_lpTag.peel h h'
  obtain ⟨rfl, x₂, h, h'⟩ := delimits_lpText.peel h h'
  obtain ⟨rfl, x₃, h, h'⟩ := delimits_lpText.peel h h'
  obtain ⟨rfl, x₄, h, h'⟩ := delimits_lpText.peel h h'
  obtain ⟨rfl, x₅, h, h'⟩ := delimits_lpText.peel h h'
  obtain ⟨rfl, x₆, h, h'⟩ := delimits_pack32.peel h h'
  obtain ⟨rfl, _⟩ := delimits_pack64.peel h h'
  rfl

theorem actuation_inj {k k' : Bytes} {r r' c c' : PyStr} {q q' t t' : ℤ} {x : Bytes}
    (h : actuationSigningBytes k r c q t = some x)
    (h' : actuationSigningBytes k' r' c' q' t' = some x) :
    actuation k r c q t = actuation k' r' c' q' t' := by
  obtain ⟨_, x₁, h, h'⟩ := delimits_lpTag.peel h h'
  obtain ⟨rfl, x₂, h, h'⟩ := delimits_lpBytes.peel h h'
  obtain ⟨rfl, x₃, h, h'⟩ := delimits_lpText.peel h h'
  obtain ⟨rfl, x₄, h, h'⟩ := delimits_lpText.peel h h'
  obtain ⟨rfl, x₅, h, h'⟩ := delimits_pack64.peel h h'
  obtain ⟨rfl, _⟩ := delimits_pack64.peel h h'
  rfl

/-- Equal bytes are of the same event, up to an empty `reply_to`. -/
theorem canonical_eq_of_bytes {e e' : SignedEvent} {x : Bytes} (h : e.bytes = some x)
    (h' : e'.bytes = some x) : e.canonical = e'.canonical := by
  have hkind : e.kind = e'.kind := kind_eq_of_bytes h h'
  cases e with
  | message k c m t b r =>
      cases e' with
      | message k' c' m' t' b' r' => exact message_inj h h'
      | _ => cases hkind
  | reaction k c m t g e a =>
      cases e' with
      | reaction k' c' m' t' g' e' a' => exact reaction_inj h h'
      | _ => cases hkind
  | approval n a c k =>
      cases e' with
      | approval n' a' c' k' => exact approval_inj h h'
      | _ => cases hkind
  | manifest i d u m k t =>
      cases e' with
      | manifest i' d' u' m' k' t' => exact manifest_inj h h'
      | _ => cases hkind
  | actuation k r c q t =>
      cases e' with
      | actuation k' r' c' q' t' => exact actuation_inj h h'
      | _ => cases hkind

end SignedEvent

/-! ## The result -/

/-- The bytes of an event determine it up to an empty `reply_to`, no event of another kind has
them, and a signature that is bound to its message does not verify as another kind. -/
theorem signed_bytes_determine_the_event (e : SignedEvent) {x : Bytes} (h : e.bytes = some x) :
    (∀ e' : SignedEvent, e'.bytes = some x ↔ e'.canonical = e.canonical) ∧
    (∀ e' : SignedEvent, e'.kind ≠ e.kind → e'.bytes ≠ some x) ∧
    ∀ verify : Bytes → Bytes → Bytes → Bool,
      (∀ key sig m m', verify key sig m = true → verify key sig m' = true → m = m') →
      ∀ key sig, verify key sig x = true → ∀ (e' : SignedEvent) (x' : Bytes),
        e'.kind ≠ e.kind → e'.bytes = some x' → verify key sig x' = false := by
  have hother : ∀ e' : SignedEvent, e'.kind ≠ e.kind → e'.bytes ≠ some x :=
    fun e' hne h' => hne (SignedEvent.kind_eq_of_bytes h' h)
  refine ⟨fun e' => ⟨fun h' => SignedEvent.canonical_eq_of_bytes h' h, fun hsame => ?_⟩, hother,
    fun verify hbound key sig hsig e' x' hne h' => ?_⟩
  · rw [← SignedEvent.bytes_canonical, hsame, SignedEvent.bytes_canonical]
    exact h
  · by_contra hverifies
    have hsame : x = x' := hbound key sig x x' hsig (by simpa using hverifies)
    rw [← hsame] at h'
    exact hother e' hne h'

/-- A reply to nothing has the bytes of a message that is no reply, and no reaction has them. -/
theorem empty_reply_is_no_reply : ∃ x,
    (SignedEvent.message [1] [67] [109] 5 [104, 105] none).bytes = some x ∧
      (SignedEvent.message [1] [67] [109] 5 [104, 105] (some [])).bytes = some x ∧
      ∀ e' : SignedEvent, e'.kind ≠ .message → e'.bytes ≠ some x := by
  have hsome : (SignedEvent.message [1] [67] [109] 5 [104, 105] none).bytes.isSome = true := by
    decide +kernel
  obtain ⟨x, hx⟩ := Option.isSome_iff_exists.mp hsome
  have hresult := signed_bytes_determine_the_event _ hx
  exact ⟨x, hx, (hresult.1 _).mpr rfl, hresult.2.1⟩

end AikoIsland.SignedBytes
