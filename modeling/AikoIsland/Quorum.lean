import AikoIsland.JsonText
import AikoIsland.Messages
import AikoIsland.Multikeys
import AikoIsland.Recovery

/-!
# The quorum of a recovery

`_verify_quorum` walks the approvals once, skips what does not count and stops at
the threshold. What it decides is a count of keys: how many registered keys have
some approval in the list whose signature decodes and verifies. The order of the
approvals, repetitions, malformed entries and foreign keys do not matter.

The loop compares keys as texts. Enrollment lets only texts in that decode, and
the decoder is injective on these, so distinct texts are distinct keys.
-/
namespace AikoIsland.Quorum
open Tables Messages JsonText OrderedDict Passkeys Signing Multikeys Recovery

/-! ## Enrollment and the raw approvals -/

/-- `MAX_APPROVERS`. -/
def maxApprovers : ℕ := 32

/-- The loop over the payload; the error is the text of the `InvalidEnrollment`. -/
def checkApprovers : List String → List String → Except String Unit
  | [], _ => .ok ()
  | pk :: rest, seen =>
      match decodeMultikey pk with
      | .error e => .error ("approver pubkey is not a valid Multikey: " ++ e)
      | .ok _ =>
          if pk ∈ seen then .error "approver pubkeys must be distinct"
          else checkApprovers rest (pk :: seen)

/-- `_validate_enrollment`. -/
def validateEnrollment (approverPubkeys : List String) (k : ℤ) : Except String (List String) :=
  if approverPubkeys = [] then .error "at least one approver is required"
  else if maxApprovers < approverPubkeys.length then
    .error ("too many approvers (max " ++ toString maxApprovers ++ ")")
  else
    match checkApprovers approverPubkeys [] with
    | .error e => .error e
    | .ok () =>
        if 1 ≤ k ∧ k ≤ approverPubkeys.length then .ok approverPubkeys
        else .error ("threshold k=" ++ toString k ++ " out of range (must be 1.." ++
          toString approverPubkeys.length ++ ")")

/-- The two texts of an approval. An entry that is no dict, or has another value in one of the
two places, does not count; nor can one whose texts hold a lone surrogate, which no key does and
no base64url. -/
def approvalOf : Json → Option Approval
  | .obj items =>
      match get items (codes "approver_pubkey"), get items (codes "sig") with
      | some (.str pk), some (.str sig) =>
          match encode pk, encode sig with
          | some pk, some sig => some ⟨pk, sig⟩
          | _, _ => none
      | _, _ => none
  | _ => none

/-- `_verify_quorum` on the approvals as they come: the loop passes over what `approvalOf` does
not give. -/
def verifyApprovals (crypto : Crypto) (registered : List String) (msg : Bytes) (thresholdK : ℕ)
    (approvals : List Json) : Bool :=
  verifyQuorum crypto registered msg thresholdK (approvals.filterMap approvalOf) []

/-! ## The loop -/

section
variable (crypto : Crypto) (registered : List String) (msg : Bytes)

/-- The registered texts that some approval of the list counts for. -/
def counted (approvals : List Approval) : Finset String :=
  ((approvals.filter fun a => a.approverPubkey ∈ registered && approvalVerifies crypto msg a).map
    (·.approverPubkey)).toFinset

theorem mem_counted {approvals : List Approval} {pk : String} :
    pk ∈ counted crypto registered msg approvals ↔
      pk ∈ registered ∧ ∃ a ∈ approvals, a.approverPubkey = pk ∧
        approvalVerifies crypto msg a = true := by
  simp only [counted, List.mem_toFinset, List.mem_map, List.mem_filter, Bool.and_eq_true,
    decide_eq_true_eq]
  constructor
  · intro h
    obtain ⟨a, ⟨ha, hreg, hver⟩, rfl⟩ := h
    exact ⟨hreg, a, ha, rfl, hver⟩
  · intro h
    obtain ⟨hreg, a, ha, rfl, hver⟩ := h
    exact ⟨a, ⟨ha, hreg, hver⟩, rfl⟩

theorem counted_cons (a : Approval) (approvals : List Approval) :
    counted crypto registered msg (a :: approvals) =
      if a.approverPubkey ∈ registered ∧ approvalVerifies crypto msg a = true then
        insert a.approverPubkey (counted crypto registered msg approvals)
      else counted crypto registered msg approvals := by
  simp only [counted, List.filter_cons, Bool.and_eq_true, decide_eq_true_eq]
  split_ifs
  · rw [List.map_cons, List.toFinset_cons]
  · rfl

/-- The loop returns when the texts counted before and those of the rest reach the threshold. -/
theorem verifyQuorum_iff {thresholdK : ℕ} {approvals : List Approval} {satisfied : List String}
    (hnodup : satisfied.Nodup) (hshort : satisfied.length < thresholdK) :
    verifyQuorum crypto registered msg thresholdK approvals satisfied = true ↔
      thresholdK ≤ (satisfied.toFinset ∪ counted crypto registered msg approvals).card := by
  induction approvals generalizing satisfied with
  | nil =>
      have hcard : (satisfied.toFinset ∪ counted crypto registered msg []).card =
          satisfied.length := by
        rw [← List.toFinset_card_of_nodup hnodup]
        simp [counted]
      rw [hcard, verifyQuorum]
      constructor
      · intro h
        cases h
      · intro h
        omega
  | cons a approvals ih =>
      rw [verifyQuorum, counted_cons]
      by_cases hsat : a.approverPubkey ∈ satisfied
      · rw [if_pos hsat, ih hnodup hshort]
        split_ifs
        · rw [Finset.union_insert, Finset.insert_eq_of_mem]
          exact Finset.mem_union_left _ (List.mem_toFinset.mpr hsat)
        · rfl
      · rw [if_neg hsat]
        by_cases hreg : a.approverPubkey ∈ registered
        · rw [if_neg (by simpa using hreg)]
          by_cases hver : approvalVerifies crypto msg a = true
          · have hboth : a.approverPubkey ∈ registered ∧ approvalVerifies crypto msg a = true :=
              ⟨hreg, hver⟩
            simp only [hver, hboth, if_true, and_self]
            have hnodup' : (a.approverPubkey :: satisfied).Nodup := hnodup.cons hsat
            have hunion : satisfied.toFinset ∪ insert a.approverPubkey
                (counted crypto registered msg approvals) =
                  (a.approverPubkey :: satisfied).toFinset ∪
                    counted crypto registered msg approvals := by
              rw [List.toFinset_cons, Finset.union_insert, Finset.insert_union]
            rw [hunion]
            by_cases hk : thresholdK ≤ satisfied.length + 1
            · rw [if_pos hk]
              have hcard := List.toFinset_card_of_nodup hnodup'
              have hsub := Finset.card_le_card (@Finset.subset_union_left _ _
                (a.approverPubkey :: satisfied).toFinset (counted crypto registered msg approvals))
              rw [List.length_cons] at hcard
              constructor
              · intro _
                omega
              · intro _
                rfl
            · rw [if_neg hk]
              exact ih hnodup' (by rw [List.length_cons]; omega)
          · rw [if_neg hver, if_neg (fun h => hver h.2), ih hnodup hshort]
        · rw [if_pos hreg, if_neg (fun h => hreg h.1), ih hnodup hshort]

end

/-! ## From texts to keys -/

/-- Every text of the roster is the Multikey of some raw key. -/
def Valid (registered : List String) : Prop :=
  ∀ pk ∈ registered, ∃ raw, decodeMultikey pk = .ok raw

/-- The raw key is registered, and an approval under it has a signature that decodes and
verifies. -/
def Approved (crypto : Crypto) (registered : List String) (msg : Bytes) (approvals : List Json)
    (raw : Bytes) : Prop :=
  (∃ pk ∈ registered, decodeMultikey pk = .ok raw) ∧
    ∃ entry ∈ approvals, ∃ a, approvalOf entry = some a ∧
      decodeMultikey a.approverPubkey = .ok raw ∧
      ∃ sig, b64urlRaw a.sig sigRawLen "approval.sig" = .ok sig ∧
        crypto.ed25519Verify raw sig msg = true

section
variable {crypto : Crypto} {registered : List String} {msg : Bytes}

theorem approvalVerifies_iff {a : Approval} {raw : Bytes}
    (hraw : decodeMultikey a.approverPubkey = .ok raw) :
    approvalVerifies crypto msg a = true ↔
      ∃ sig, b64urlRaw a.sig sigRawLen "approval.sig" = .ok sig ∧
        crypto.ed25519Verify raw sig msg = true := by
  unfold approvalVerifies
  rw [hraw]
  cases hsig : b64urlRaw a.sig sigRawLen "approval.sig" with
  | error e => simp
  | ok sig => simp

/-- A registered text is counted exactly when its key is approved. -/
theorem counted_iff_approved {approvals : List Json} {pk : String} {raw : Bytes}
    (hpk : pk ∈ registered) (hraw : decodeMultikey pk = .ok raw) :
    pk ∈ counted crypto registered msg (approvals.filterMap approvalOf) ↔
      Approved crypto registered msg approvals raw := by
  rw [mem_counted]
  constructor
  · intro h
    obtain ⟨_, a, ha, hsame, hver⟩ := h
    obtain ⟨entry, hentry, happroval⟩ := List.mem_filterMap.mp ha
    have hdecode : decodeMultikey a.approverPubkey = .ok raw := by rw [hsame, hraw]
    exact ⟨⟨pk, hpk, hraw⟩, entry, hentry, a, happroval, hdecode,
      (approvalVerifies_iff hdecode).mp hver⟩
  · intro h
    obtain ⟨_, entry, hentry, a, happroval, hdecode, hsig⟩ := h
    have hsame : a.approverPubkey = pk := decodeMultikey_inj hdecode hraw
    exact ⟨hpk, a, List.mem_filterMap.mpr ⟨entry, hentry, happroval⟩, hsame,
      (approvalVerifies_iff hdecode).mpr hsig⟩

/-- Enough counted texts are enough approved keys, since the decoder is injective. -/
theorem card_counted_iff (hvalid : Valid registered) {approvals : List Json} {k : ℕ} :
    k ≤ (counted crypto registered msg (approvals.filterMap approvalOf)).card ↔
      ∃ keys : Finset Bytes, k ≤ keys.card ∧
        ∀ raw ∈ keys, Approved crypto registered msg approvals raw := by
  have hreg : ∀ pk ∈ counted crypto registered msg (approvals.filterMap approvalOf),
      pk ∈ registered := fun pk hpk => ((mem_counted crypto registered msg).mp hpk).1
  constructor
  · intro h
    choose! key hkey using hvalid
    refine ⟨(counted crypto registered msg (approvals.filterMap approvalOf)).image key, ?_, ?_⟩
    · rw [Finset.card_image_of_injOn]
      · exact h
      · intro pk hpk qk hqk hsame
        have hp := hkey pk (hreg pk hpk)
        have hq := hkey qk (hreg qk hqk)
        rw [← hsame] at hq
        exact decodeMultikey_inj hp hq
    · intro raw hraw
      obtain ⟨pk, hpk, rfl⟩ := Finset.mem_image.mp hraw
      exact (counted_iff_approved (hreg pk hpk) (hkey pk (hreg pk hpk))).mp hpk
  · intro h
    obtain ⟨keys, hk, hall⟩ := h
    have htext : ∀ raw ∈ keys, ∃ pk, pk ∈ registered ∧ decodeMultikey pk = .ok raw := by
      intro raw hraw
      obtain ⟨⟨pk, hpk, hdecode⟩, _⟩ := hall raw hraw
      exact ⟨pk, hpk, hdecode⟩
    choose! text htext using htext
    apply hk.trans
    apply Finset.card_le_card_of_injOn text
    · intro raw hraw
      exact (counted_iff_approved (htext raw hraw).1 (htext raw hraw).2).mpr (hall raw hraw)
    · intro raw hraw raw' hraw' hsame
      have hp := (htext raw hraw).2
      have hq := (htext raw' hraw').2
      rw [hsame, hq] at hp
      exact (Except.ok.inj hp).symm

end

/-! ## Enrollment -/

theorem checkApprovers_ok {pks seen : List String} (h : checkApprovers pks seen = .ok ()) :
    Valid pks ∧ pks.Nodup ∧ ∀ pk ∈ pks, pk ∉ seen := by
  induction pks generalizing seen with
  | nil =>
      refine ⟨?_, List.nodup_nil, ?_⟩
      · intro pk hpk
        cases hpk
      · intro pk hpk
        cases hpk
  | cons pk pks ih =>
      rw [checkApprovers] at h
      cases hdecode : decodeMultikey pk with
      | error e =>
          rw [hdecode] at h
          cases h
      | ok raw =>
          rw [hdecode] at h
          dsimp only at h
          split_ifs at h with hseen
          obtain ⟨hvalid, hnodup, hnew⟩ := ih h
          refine ⟨?_, ?_, ?_⟩
          · intro qk hqk
            cases List.mem_cons.mp hqk with
            | inl heq => exact ⟨raw, by rw [heq, hdecode]⟩
            | inr hrest => exact hvalid qk hrest
          · apply hnodup.cons
            intro hmem
            exact hnew pk hmem List.mem_cons_self
          · intro qk hqk
            cases List.mem_cons.mp hqk with
            | inl heq =>
                rw [heq]
                exact hseen
            | inr hrest => exact fun hin => hnew qk hrest (List.mem_cons_of_mem pk hin)

/-- An accepted payload, text by text as a raw key. -/
def Enrolled (approverPubkeys : List String) (raws : List Bytes) : Prop :=
  List.Forall₂ (fun pk raw => decodeMultikey pk = .ok raw) approverPubkeys raws ∧
    raws.Nodup ∧ ∀ raw ∈ raws, raw.length = pubkeyRawLen

theorem exists_raws {pks : List String} (hvalid : Valid pks) (hnodup : pks.Nodup) :
    ∃ raws, Enrolled pks raws := by
  induction pks with
  | nil => exact ⟨[], List.Forall₂.nil, List.nodup_nil, by simp⟩
  | cons pk pks ih =>
      obtain ⟨raw, hraw⟩ := hvalid pk List.mem_cons_self
      obtain ⟨raws, hall, hdistinct, hlen⟩ := ih (fun qk hqk => hvalid qk (List.mem_cons_of_mem pk hqk))
        hnodup.of_cons
      refine ⟨raw :: raws, List.Forall₂.cons hraw hall, ?_, ?_⟩
      · apply hdistinct.cons
        intro hmem
        obtain ⟨qk, hqk, hdecode⟩ : ∃ qk ∈ pks, decodeMultikey qk = .ok raw := by
          have hgen : ∀ {qs : List String} {rs : List Bytes},
              List.Forall₂ (fun pk raw => decodeMultikey pk = .ok raw) qs rs → raw ∈ rs →
                ∃ qk ∈ qs, decodeMultikey qk = .ok raw := by
            intro qs rs hrs
            induction hrs with
            | nil =>
                intro hin
                cases hin
            | @cons q r qs rs hq _ ihrs =>
                intro hin
                cases List.mem_cons.mp hin with
                | inl heq => exact ⟨q, List.mem_cons_self, by rw [heq, hq]⟩
                | inr hrest =>
                    obtain ⟨qk, hqk, hdec⟩ := ihrs hrest
                    exact ⟨qk, List.mem_cons_of_mem q hqk, hdec⟩
          exact hgen hall hmem
        have hsame : pk = qk := decodeMultikey_inj hraw hdecode
        rw [hsame] at hnodup
        exact (List.nodup_cons.mp hnodup).1 hqk
      · intro r hr
        cases List.mem_cons.mp hr with
        | inl heq =>
            rw [heq]
            obtain ⟨_, _, _, hlen⟩ := decodeMultikey_eq_ok hraw
            exact hlen
        | inr hrest => exact hlen r hrest

/-! ## The result -/

/-- The quorum is a count of approved keys, and enrollment accepts distinct keys only. -/
theorem quorum_counts_distinct_keys (crypto : Crypto) (registered : List String) (msg : Bytes)
    (k : ℕ) (approvals : List Json) (hvalid : Valid registered) (hk : 1 ≤ k) :
    (verifyApprovals crypto registered msg k approvals = true ↔
      ∃ keys : Finset Bytes, k ≤ keys.card ∧
        ∀ raw ∈ keys, Approved crypto registered msg approvals raw) ∧
    ∀ approverPubkeys n accepted, validateEnrollment approverPubkeys n = .ok accepted →
      accepted = approverPubkeys ∧ ∃ raws, Enrolled approverPubkeys raws := by
  constructor
  · have hshort : ([] : List String).length < k := by
      rw [List.length_nil]
      omega
    rw [verifyApprovals, verifyQuorum_iff crypto registered msg List.nodup_nil hshort,
      List.toFinset_nil, Finset.empty_union]
    exact card_counted_iff hvalid
  · intro approverPubkeys n accepted h
    unfold validateEnrollment at h
    cases hcheck : checkApprovers approverPubkeys [] with
    | error e =>
        rw [hcheck] at h
        split_ifs at h
    | ok _ =>
        rw [hcheck] at h
        split_ifs at h
        obtain ⟨hvalidp, hnodup, _⟩ := checkApprovers_ok hcheck
        exact ⟨(Except.ok.inj h).symm, exists_raws hvalidp hnodup⟩

/-- The Multikeys of the keys of all zeros and all ones. -/
def twoGuardians : List String :=
  ["z6MkeTG3bFFSLYVU7VqhgZxqr6YzpaGrQtFMh1uvqGy1vDnP",
    "z6MkeXBLjYiSvqnhFb6D7sHm8yKm4jV45wwBFRaatf1cfZ76"]

/-- A library of which only the signatures matter here: it takes those whose first byte is the
message's. -/
def firstByteCrypto : Crypto where
  verifyRegistration _ credential := .ok { credentialId := credential, publicKey := credential }
  ed25519Verify _ sig msg := sig.head? = msg.head?
  sha256Hex := id

def approvalBy (pk : String) : Json :=
  .obj [(codes "approver_pubkey", .str (codes pk)),
    (codes "sig", .str (List.replicate 86 65))]

/-- One guardian twice, among other things, is not a quorum of two. -/
theorem one_guardian_twice_is_no_quorum :
    ¬ ∃ keys : Finset Bytes, 2 ≤ keys.card ∧
      ∀ raw ∈ keys, Approved firstByteCrypto twoGuardians [0]
        [approvalBy "z6MkeTG3bFFSLYVU7VqhgZxqr6YzpaGrQtFMh1uvqGy1vDnP", .null,
          approvalBy "z6MkeTG3bFFSLYVU7VqhgZxqr6YzpaGrQtFMh1uvqGy1vDnP"] raw := by
  intro hkeys
  have hvalid : Valid twoGuardians := by
    intro pk hpk
    have hall : twoGuardians.all fun pk => (decodeMultikey pk).toBool := by decide +kernel
    have hpk := List.all_eq_true.mp hall pk hpk
    cases hdecode : decodeMultikey pk with
    | error e =>
        rw [hdecode] at hpk
        cases hpk
    | ok raw => exact ⟨raw, rfl⟩
  have hquorum := (quorum_counts_distinct_keys firstByteCrypto twoGuardians [0] 2 _ hvalid
    (by decide)).1.mpr hkeys
  revert hquorum
  decide +kernel

end AikoIsland.Quorum
