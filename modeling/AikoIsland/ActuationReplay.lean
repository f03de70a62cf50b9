import AikoIsland.ActuationVerdicts

/-!
# No envelope actuates twice

A run is a sequence of calls of the sealed door and of restarts, where any
persist may fail before its commit point. The marks in memory and those on disk
are the same dict after every call, so a restart loses nothing and never fails.
The mark of a robot only grows, an admitted `seq` is above the mark before and
is the mark after, and so the admitted ones increase over the whole run.
-/
namespace AikoIsland.ActuationReplay
open Tables Messages Signing Passkeys SignedBytes OrderedDict Actuation ActuationVerdicts Checks

/-! ## Marks on disk -/

/-- What a loaded or advanced dict is like: its keys differ, and a restart accepts its entries. -/
structure Sound (marks : Marks) : Prop where
  distinct : (keys marks).Nodup
  robot : ∀ m ∈ marks, 1 ≤ m.1.length ∧ m.1.length ≤ maxRobotId
  range : ∀ m ∈ marks, 0 ≤ m.2 ∧ m.2 ≤ maxSeq

section
variable {marks marks' : Marks} {robotId : PyStr} {seq : ℤ}

theorem sound_nil : Sound [] := by
  constructor <;> simp [keys]

theorem Sound.set (h : Sound marks) (hr : 1 ≤ robotId.length ∧ robotId.length ≤ maxRobotId)
    (hs : 0 ≤ seq ∧ seq ≤ maxSeq) : Sound (set marks robotId seq) := by
  constructor
  · exact nodup_set h.distinct
  · intro m hm
    rcases mem_set hm with hm | rfl
    · exact h.robot m hm
    · exact hr
  · intro m hm
    rcases mem_set hm with hm | rfl
    · exact h.range m hm
    · exact hs

theorem rollback_set (h : (keys marks).Nodup) :
    rollback (set marks robotId seq) robotId (OrderedDict.get marks robotId) = marks := by
  by_cases hin : robotId ∈ keys marks
  · obtain ⟨prev, hprev⟩ := get_of_mem_keys hin
    rw [hprev, rollback, set_set_get h hprev]
  · rw [get_of_notMem hin, rollback, pop_set hin]

theorem loadMarks_sound {path : PyStr} {items : List (PyStr × Value)} (h : Sound marks)
    (hload : loadMarks path items marks = .ok marks') : Sound marks' := by
  induction items generalizing marks with
  | nil =>
      obtain rfl := Except.ok.inj hload
      exact h
  | cons item items ih =>
      obtain ⟨robotId, hrobot, hload⟩ := bind_eq_ok.mp hload
      obtain ⟨seq, hseq, hload⟩ := bind_eq_ok.mp hload
      obtain ⟨_, hlo, hhi⟩ := boundedText_eq_ok.mp hrobot
      obtain ⟨_, hrange⟩ := boundedInt_eq_ok.mp hseq
      exact ih (h.set ⟨hlo, hhi⟩ hrange) hload

theorem initMarks_sound {path : Value} {file : File} (h : initMarks path file = .ok marks) :
    Sound marks := by
  unfold initMarks at h
  split at h
  · cases h
  · split at h
    · obtain rfl := Except.ok.inj h
      exact sound_nil
    · cases h
    · exact loadMarks_sound sound_nil h
    · cases h
  · cases h

/-- Loading the rest of a dict after its first part. -/
theorem loadMarks_dump {path : PyStr} {rest : Marks} (h : Sound (marks ++ rest)) :
    loadMarks path (rest.map fun m => (m.1, .int m.2)) marks = .ok (marks ++ rest) := by
  induction rest generalizing marks with
  | nil => simp [loadMarks]
  | cons m rest ih =>
      have hmem : m ∈ marks ++ m :: rest := by simp
      have hnew : m.1 ∉ keys marks := by
        intro hin
        have hnodup := h.distinct
        rw [keys, List.map_append, List.map_cons, List.nodup_append] at hnodup
        exact hnodup.2.2 m.1 hin m.1 (by simp) rfl
      have hsound : Sound ((marks ++ [m]) ++ rest) := by simpa using h
      rw [List.map_cons, loadMarks]
      apply bind_eq_ok.mpr
      use m.1
      constructor
      · exact boundedText_eq_ok.mpr ⟨rfl, h.robot m hmem⟩
      apply bind_eq_ok.mpr
      use m.2
      constructor
      · exact boundedInt_eq_ok.mpr ⟨rfl, h.range m hmem⟩
      rw [set_of_notMem hnew, ih hsound]
      simp

/-- A restart reads back what was dumped. -/
theorem initMarks_dump {path : PyStr} (hpath : path ≠ []) (h : Sound marks) :
    initMarks (.str path) (.json (dump marks)) = .ok marks := by
  cases path with
  | nil => exact absurd rfl hpath
  | cons c path =>
      have hload : loadMarks (c :: path) (marks.map fun m => (m.1, .int m.2)) [] =
          .ok ([] ++ marks) := loadMarks_dump h
      exact hload

end

/-! ## One call -/

/-- Memory and disk agree: a restart finds exactly the marks in memory. -/
def Durable (store : SeqHighWater) : Prop :=
  initMarks (.str store.path) store.disk = .ok store.marks

/-- The store after an admitted `seq`. -/
def advanced (robotId : PyStr) (seq : ℤ) (store : SeqHighWater) : SeqHighWater :=
  { store with
    marks := set store.marks robotId seq
    disk := .json (dump (set store.marks robotId seq)) }

/-- Every check of the verifier and of the sealed door, on an envelope that came through. -/
structure Passed (crypto : Crypto) (req : Request) (env : Envelope) : Prop where
  keys : ∃ items, req.raw = .dict items ∧ ∀ k, k ∈ keys items ↔ k ∈ requiredKeys.map codes
  version : env.v = supportedV ∧ env.alg = codes alg
  robot : req.expectedRobotId = .str env.robotId
  robotLength : 1 ≤ env.robotId.length ∧ env.robotId.length ≤ maxRobotId
  command : ∃ xs, req.allowedCommands = .set xs ∧ hasText xs env.command
  commandLength : 1 ≤ env.command.length ∧ env.command.length ≤ maxCommand
  seq : 0 ≤ env.seq ∧ env.seq ≤ maxSeq
  signedAt : 0 ≤ env.signedAtMs ∧ env.signedAtMs ≤ maxSignedAtMs
  signed : ∃ pubkeys key sig message, req.allowedPubkeys = .set pubkeys ∧
    decodeMultikey (plainText env.senderPubkey) = .ok key ∧
    hasText pubkeys (codes (encodeMultikey key)) ∧
    b64urlRaw (plainText env.sig) sigRawLen "sig" = .ok sig ∧
    actuationSigningBytes key env.robotId env.command env.seq env.signedAtMs = some message ∧
    crypto.ed25519Verify key sig message = true
  fresh : ∃ now maxAge, req.nowMs = .int now ∧ req.maxAgeMs = .int maxAge ∧
    0 ≤ maxAge ∧ maxAge ≤ maxAllowedAgeMs ∧ now - env.signedAtMs ≤ maxAge ∧
    -maxFwdSkewMs ≤ now - env.signedAtMs

section
variable {crypto : Crypto} {req : Request} {env : Envelope} {isStore fails : Bool}
  {store store' : SeqHighWater} {robotId : PyStr} {seq : ℤ}

/-- Behind the sealed door there is a robot to match and a set of commands. -/
theorem sealedDoor_ok {u : Unit} (h : sealedDoor req isStore = .ok u) :
    (∃ robotId, req.expectedRobotId = .str robotId) ∧ ∃ xs, req.allowedCommands = .set xs := by
  obtain ⟨_, hrobot, h⟩ := bind_eq_ok.mp h
  obtain ⟨_, hcommands, _⟩ := bind_eq_ok.mp h
  constructor
  · have htext := require_eq_ok.mp hrobot
    cases hv : req.expectedRobotId <;> simp_all [nonEmptyText]
  · have hset := require_eq_ok.mp hcommands
    cases hv : req.allowedCommands <;> simp_all [nonEmptySet]

theorem verifyActuation_passed {u : Unit} (hdoor : sealedDoor req isStore = .ok u)
    (h : verifyActuation crypto req = .ok env) : Passed crypto req env := by
  obtain ⟨⟨expected, hexpected⟩, xs, hxs⟩ := sealedDoor_ok hdoor
  obtain ⟨⟨now, pubkeys, maxAge⟩, hargs, h⟩ := bind_eq_ok.mp h
  obtain ⟨items, hitems, h⟩ := bind_eq_ok.mp h
  obtain ⟨⟨robotId, command, seq, ts⟩, hcontent, h⟩ := bind_eq_ok.mp h
  obtain ⟨⟨pubkeyStr, key⟩, hsender, h⟩ := bind_eq_ok.mp h
  obtain ⟨sigStr, hsig, h⟩ := bind_eq_ok.mp h
  obtain ⟨_, hfresh, h⟩ := bind_eq_ok.mp h
  obtain rfl := Except.ok.inj h
  obtain ⟨hnow, hpubkeys, _, hage, hbounds⟩ := checkArguments_eq_ok.mp hargs
  have hright := checkContent_eq_ok.mp hcontent
  obtain ⟨_, _, hkey, hlisted⟩ := checkSender_eq_ok.mp hsender
  obtain ⟨_, _, sig, message, hsig, hmessage, hverify⟩ := checkSignature_eq_ok.mp hsig
  constructor
  · exact ⟨items, envelopeItems_eq_ok.mp hitems⟩
  · exact ⟨rfl, rfl⟩
  · have hmatch := hright.robot
    rw [hexpected] at hmatch ⊢
    simpa [mismatched] using hmatch
  · exact hright.robotLength
  · have hallowed := hright.allowed
    rw [hxs] at hallowed
    exact ⟨xs, hxs, hallowed⟩
  · exact hright.commandLength
  · exact hright.seqRange
  · exact hright.tsRange
  · exact ⟨pubkeys, key, sig, message, hpubkeys, hkey, hlisted, hsig, hmessage, hverify⟩
  · exact ⟨now, maxAge, hnow, hage, hbounds.1, hbounds.2, checkFresh_eq_ok.mp hfresh⟩

/-- What the private primitive can do. -/
theorem checkAndAdvance_cases (fails : Bool) (robotId : PyStr) (seq : ℤ)
    (hd : (keys store.marks).Nodup) :
    (∃ e, checkAndAdvance fails robotId seq store = (.error e, store)) ∨
      checkAndAdvance fails robotId seq store = (.ok false, store) ∨
      mark store robotId < seq ∧
        checkAndAdvance fails robotId seq store = (.ok true, advanced robotId seq store) := by
  unfold checkAndAdvance
  split_ifs with hempty hrange hold
  · exact Or.inl ⟨_, rfl⟩
  · exact Or.inl ⟨_, rfl⟩
  · exact Or.inr (Or.inl rfl)
  · cases fails with
    | true =>
        left
        simp only [persist, if_true, rollback_set hd]
        exact ⟨_, rfl⟩
    | false =>
        right
        right
        constructor
        · omega
        · rfl

/-- A call raises and leaves the store as it was, or it admits an envelope that passed. -/
theorem verifyAndAdvance_cases (hd : (keys store.marks).Nodup) :
    (∃ e, verifyAndAdvance crypto req isStore fails store = (.error e, store)) ∨
      ∃ env, Passed crypto req env ∧ mark store env.robotId < env.seq ∧
        verifyAndAdvance crypto req isStore fails store =
          (.ok env, advanced env.robotId env.seq store) := by
  unfold verifyAndAdvance
  cases hverify : sealedDoor req isStore >>= fun _ => verifyActuation crypto req with
  | error e => exact Or.inl ⟨e, rfl⟩
  | ok env =>
      obtain ⟨_, hdoor, hverify⟩ := bind_eq_ok.mp hverify
      rcases checkAndAdvance_cases fails env.robotId env.seq hd with ⟨e, he⟩ | hfalse | ⟨hlt, htrue⟩
      · left
        simp only [he]
        exact ⟨e, rfl⟩
      · left
        simp only [hfalse]
        exact ⟨_, rfl⟩
      · right
        simp only [htrue]
        exact ⟨env, verifyActuation_passed hdoor hverify, hlt, rfl⟩

theorem Passed.durable (h : Passed crypto req env) (hpath : store.path ≠ [])
    (hstore : Durable store) : Durable (advanced env.robotId env.seq store) :=
  initMarks_dump hpath ((initMarks_sound hstore).set h.robotLength h.seq)

theorem mark_advanced_self : mark (advanced robotId seq store) robotId = seq := by
  simp [mark, advanced, get_set_self]

theorem mark_advanced_of_ne {r : PyStr} (hr : r ≠ robotId) :
    mark (advanced robotId seq store) r = mark store r := by
  simp [mark, advanced, get_set_of_ne hr]

end

/-! ## Runs -/

/-- One call that returned or raised, or a restart that succeeded. -/
inductive Step (crypto : Crypto) : SeqHighWater → Option Envelope → SeqHighWater → Prop
  | accept {store store' : SeqHighWater} {env : Envelope} (req : Request) (isStore fails : Bool) :
      verifyAndAdvance crypto req isStore fails store = (.ok env, store') →
      Step crypto store (some env) store'
  | refuse {store store' : SeqHighWater} {e : ActuationError} (req : Request)
      (isStore fails : Bool) :
      verifyAndAdvance crypto req isStore fails store = (.error e, store') →
      Step crypto store none store'
  | restart {store : SeqHighWater} {marks : Marks} :
      initMarks (.str store.path) store.disk = .ok marks →
      Step crypto store none { store with marks }

/-- A run with the envelopes it admitted, in order. -/
inductive Run (crypto : Crypto) : SeqHighWater → List Envelope → SeqHighWater → Prop
  | nil {store : SeqHighWater} : Run crypto store [] store
  | cons {store store₁ store' : SeqHighWater} {admitted : Option Envelope} {rest : List Envelope} :
      Step crypto store admitted store₁ → Run crypto store₁ rest store' →
      Run crypto store (admitted.toList ++ rest) store'

/-- The admitted sequence numbers of one robot. -/
def seqs (robotId : PyStr) (admitted : List Envelope) : List ℤ :=
  (admitted.filter fun env => env.robotId = robotId).map (·.seq)

/-- A store that a process has opened at a path. -/
structure Opened (store : SeqHighWater) : Prop where
  path : store.path ≠ []
  durable : Durable store

section
variable {crypto : Crypto} {store store' : SeqHighWater} {env : Envelope}
  {admitted : Option Envelope} {envs : List Envelope}

theorem seqs_cons_self : seqs env.robotId (env :: envs) = env.seq :: seqs env.robotId envs := by
  simp [seqs]

theorem seqs_cons_of_ne {robotId : PyStr} (h : env.robotId ≠ robotId) :
    seqs robotId (env :: envs) = seqs robotId envs := by
  simp [seqs, h]

theorem Opened.distinct (h : Opened store) : (keys store.marks).Nodup :=
  (initMarks_sound h.durable).distinct

theorem opened_of_init {path : PyStr} {file : File} {marks : Marks}
    (h : initMarks (.str path) file = .ok marks) : Opened ⟨path, file, marks⟩ := by
  constructor
  · rintro rfl
    cases h
  · exact h

/-- Every step either leaves the store alone or admits one envelope that passed. -/
theorem Opened.step_cases (h : Opened store) (hs : Step crypto store admitted store') :
    (admitted = none ∧ store' = store) ∨
      ∃ req env, Passed crypto req env ∧ admitted = some env ∧
        mark store env.robotId < env.seq ∧ store' = advanced env.robotId env.seq store := by
  cases hs with
  | accept req isStore fails hcall =>
      right
      rcases verifyAndAdvance_cases h.distinct with ⟨e, he⟩ | ⟨env, hpassed, hlt, hok⟩
      · rw [hcall] at he
        cases he
      · rw [hcall] at hok
        obtain ⟨henv, rfl⟩ := Prod.mk.inj hok
        obtain rfl := (Except.ok.inj henv).symm
        exact ⟨req, env, hpassed, rfl, hlt, rfl⟩
  | refuse req isStore fails hcall =>
      left
      rcases verifyAndAdvance_cases h.distinct with ⟨e, he⟩ | ⟨env, hpassed, hlt, hok⟩
      · rw [hcall] at he
        cases he
        exact ⟨rfl, rfl⟩
      · rw [hcall] at hok
        cases hok
  | restart hinit =>
      left
      obtain rfl := Except.ok.inj (hinit.symm.trans h.durable)
      exact ⟨rfl, rfl⟩

theorem Opened.step (h : Opened store) (hs : Step crypto store admitted store') :
    Opened store' := by
  rcases h.step_cases hs with ⟨_, rfl⟩ | ⟨req, env, hpassed, _, _, rfl⟩
  · exact h
  · exact ⟨h.path, hpassed.durable h.path h.durable⟩

theorem Opened.run (h : Opened store) (hr : Run crypto store envs store') : Opened store' := by
  induction hr with
  | nil => exact h
  | cons hs _ ih => exact ih (h.step hs)

/-- Over a run the admitted numbers of a robot increase from its mark on. -/
theorem Opened.increasing (h : Opened store) (hr : Run crypto store envs store')
    (robotId : PyStr) :
    (seqs robotId envs).Pairwise (· < ·) ∧ ∀ n ∈ seqs robotId envs, mark store robotId < n := by
  induction hr with
  | nil => simp [seqs]
  | cons hs _ ih =>
      obtain ⟨hsorted, habove⟩ := ih (h.step hs)
      rcases h.step_cases hs with ⟨rfl, rfl⟩ | ⟨req, env, _, rfl, hlt, rfl⟩
      · exact ⟨hsorted, habove⟩
      · rw [Option.toList_some, List.singleton_append]
        by_cases hrobot : env.robotId = robotId
        · subst hrobot
          rw [mark_advanced_self] at habove
          rw [seqs_cons_self]
          constructor
          · exact List.pairwise_cons.mpr ⟨habove, hsorted⟩
          · intro n hn
            rcases List.mem_cons.mp hn with rfl | hn
            · exact hlt
            · exact hlt.trans (habove n hn)
        · rw [mark_advanced_of_ne (Ne.symm hrobot)] at habove
          rw [seqs_cons_of_ne hrobot]
          exact ⟨hsorted, habove⟩

/-- A process opens the store and the door is called in any way, with restarts between the calls:
no robot is given a sequence number twice, and memory is never ahead of the disk or behind it. -/
theorem replay_guard (crypto : Crypto) {path : PyStr} {file : File} {marks : Marks}
    (hinit : initMarks (.str path) file = .ok marks)
    (hr : Run crypto ⟨path, file, marks⟩ envs store') :
    (∀ robotId, (seqs robotId envs).Pairwise (· < ·)) ∧
      initMarks (.str store'.path) store'.disk = .ok store'.marks ∧
      (∀ req isStore fails e store'',
        verifyAndAdvance crypto req isStore fails store' = (.error e, store'') →
          store'' = store') ∧
      ∀ req isStore fails env store'',
        verifyAndAdvance crypto req isStore fails store' = (.ok env, store'') →
          Passed crypto req env ∧ store'' = advanced env.robotId env.seq store' ∧
            initMarks (.str store''.path) store''.disk = .ok store''.marks := by
  have hstart := opened_of_init hinit
  have hend := hstart.run hr
  constructor
  · intro robotId
    exact (hstart.increasing hr robotId).1
  constructor
  · exact hend.durable
  constructor
  · intro req isStore fails e store'' hcall
    rcases hend.step_cases (.refuse req isStore fails hcall) with ⟨_, hsame⟩ | ⟨_, _, _, hsome, _⟩
    · exact hsame
    · cases hsome
  · intro req isStore fails env store'' hcall
    rcases verifyAndAdvance_cases hend.distinct with ⟨e, he⟩ | ⟨env', hpassed, _, hok⟩
    · rw [hcall] at he
      cases he
    · rw [hcall] at hok
      obtain ⟨henv, rfl⟩ := Prod.mk.inj hok
      obtain rfl := Except.ok.inj henv
      exact ⟨hpassed, rfl, hpassed.durable hend.path hend.durable⟩

end

/-! ## A run with the vector of the source -/

def freshStore : SeqHighWater := ⟨codes "seq.json", .missing, []⟩

theorem golden_checked :
    (sealedDoor goldenRequest true >>= fun _ => verifyActuation goldenCrypto goldenRequest) =
      .ok goldenEnvelope := by
  have hdoor : sealedDoor goldenRequest true = .ok () := rfl
  rw [hdoor, bind_eq_ok]
  exact ⟨(), rfl, golden_verifies⟩

theorem golden_admitted : verifyAndAdvance goldenCrypto goldenRequest true false freshStore =
    (.ok goldenEnvelope, advanced (codes "arm-1") 7 freshStore) := by
  rw [verifyAndAdvance, golden_checked]
  rfl

/-- The envelope is refused while the disk is, admitted once, and there after a restart. -/
theorem golden_run : Run goldenCrypto freshStore [goldenEnvelope]
    (advanced (codes "arm-1") 7 freshStore) := by
  have hfail : ∃ e, verifyAndAdvance goldenCrypto goldenRequest true true freshStore =
      (.error e, freshStore) := by
    rw [verifyAndAdvance, golden_checked]
    exact ⟨_, rfl⟩
  obtain ⟨e, he⟩ := hfail
  apply Run.cons (.refuse goldenRequest true true he)
  apply Run.cons (.accept goldenRequest true false golden_admitted)
  apply Run.cons (.restart rfl)
  exact Run.nil

theorem replay_guard_golden :
    [(7 : ℤ)].Pairwise (· < ·) ∧
      initMarks (.str (codes "seq.json")) (.json (dump [(codes "arm-1", 7)])) =
        .ok [(codes "arm-1", 7)] := by
  have h := replay_guard goldenCrypto rfl golden_run
  exact ⟨h.1 (codes "arm-1"), h.2.1⟩

end AikoIsland.ActuationReplay
