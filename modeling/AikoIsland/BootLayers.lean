import Mathlib.Data.Finset.Insert
import Mathlib.Data.Finset.SDiff

/-!
# The two layers of a boot

The migrator runs before the server and brings a database to the head of the code's
history; the server then asserts that it is there. Both read the stamped revisions
through `schema_status`.

A database is its tables and the rows of `alembic_version`, if it has that table.
What the tables look like is left open, and so is alembic: an upgrade of known stamps
that returns has stamped the head, one that raises has kept what it did, and a stamp
writes nothing but the stamp. The history of the island, one operation after the
other, is such an alembic.
-/
namespace AikoIsland.BootLayers

abbrev Revision := String

structure Database (σ : Type) where
  schema : σ
  alembicVersion : Option (Finset Revision)

def Database.stamped {σ : Type} (db : Database σ) : Finset Revision :=
  db.alembicVersion.getD ∅

def baselineRevision : Revision := "0001"

/-- The revisions under `alembic/versions`. -/
structure ScriptDirectory where
  head : Revision
  known : Finset Revision
  head_mem : head ∈ known
  baseline_mem : baselineRevision ∈ known

inductive SchemaState where
  | head
  | behind
  | unknown
  | unmanaged
  deriving DecidableEq

structure SchemaStatus where
  state : SchemaState
  stamped : Finset Revision
  unknown : Finset Revision
  head : Revision

/-- What `lstat` says of the file behind the URL. -/
inductive DatabaseFile where
  | noFile
  | found
  | missing
  | unreadable
  deriving DecidableEq

inductive BootError (δ ε : Type) where
  | noDatabase
  | unreadable
  | notAnIsland
  | drift (diff : List δ)
  | unknownRevision (unknown : Finset Revision)
  | notMigrated
  | stale (stamped : Finset Revision) (head : Revision)
  | alembic (error : ε)

/-- What the migrator uses of the database and of alembic. -/
structure Alembic (σ δ ε : Type) where
  tableNames : σ → Finset String
  diffAgainstBaseline : σ → List δ
  stamp : Revision → Database σ → Database σ × Except ε Unit
  upgrade : Database σ → Database σ × Except ε Unit

section
variable {σ δ ε : Type}

/-- `schema_status`. -/
def schemaStatus (script : ScriptDirectory) (db : Database σ) : SchemaStatus :=
  match db.alembicVersion with
  | none => ⟨.unmanaged, ∅, ∅, script.head⟩
  | some stamped =>
      let unknown := stamped \ script.known
      let state :=
        if unknown ≠ ∅ then .unknown
        else if stamped = {script.head} then .head
        else .behind
      ⟨state, stamped, unknown, script.head⟩

/-- `require_database_file`. -/
def requireDatabaseFile : DatabaseFile → Except (BootError δ ε) Unit
  | .noFile => .ok ()
  | .found => .ok ()
  | .missing => .error .noDatabase
  | .unreadable => .error .unreadable

/-- The end of `run`: the guard, and the upgrade. -/
def guardAndUpgrade (script : ScriptDirectory) (alembic : Alembic σ δ ε) (db : Database σ) :
    Database σ × Except (BootError δ ε) Unit :=
  let status := schemaStatus script db
  if status.state = .unknown then (db, .error (.unknownRevision status.unknown))
  else
    let (db, result) := alembic.upgrade db
    (db, result.mapError .alembic)

/-- `run`. -/
def run (script : ScriptDirectory) (alembic : Alembic σ δ ε) (file : DatabaseFile)
    (db : Database σ) : Database σ × Except (BootError δ ε) Unit :=
  match requireDatabaseFile file with
  | .error error => (db, .error error)
  | .ok () =>
      if "users" ∉ alembic.tableNames db.schema then (db, .error .notAnIsland)
      else
        let adopting := db.alembicVersion.isNone || (schemaStatus script db).stamped = ∅
        if adopting then
          let diff := alembic.diffAgainstBaseline db.schema
          if !diff.isEmpty then (db, .error (.drift diff))
          else
            match alembic.stamp baselineRevision db with
            | (db, .error error) => (db, .error (.alembic error))
            | (db, .ok ()) => guardAndUpgrade script alembic db
        else guardAndUpgrade script alembic db

/-- `_assert_at_head`. -/
def assertAtHead (script : ScriptDirectory) (db : Database σ) : Except (BootError δ ε) Unit :=
  let status := schemaStatus script db
  if status.state = .unmanaged then .error .notMigrated
  else if status.state = .unknown then .error (.unknownRevision status.unknown)
  else if status.state ≠ .head then .error (.stale status.stamped status.head)
  else .ok ()

/-- What both layers rely on: an upgrade of known stamps reaches the head or raises, and a stamp
writes only the version table. -/
structure Reliable (script : ScriptDirectory) (alembic : Alembic σ δ ε) : Prop where
  upgrade_head : ∀ db, db.stamped ⊆ script.known → (alembic.upgrade db).2 = .ok () →
    (alembic.upgrade db).1.stamped = {script.head}
  stamp_schema : ∀ revision db, (alembic.stamp revision db).1.schema = db.schema
  stamp_stamped : ∀ revision db, (alembic.stamp revision db).2 = .ok () →
    (alembic.stamp revision db).1.stamped = {revision}
  stamp_raised : ∀ revision db, (alembic.stamp revision db).1.stamped = db.stamped ∨
    (alembic.stamp revision db).1.stamped = {revision}

/-! ## What the layers see -/

variable {script : ScriptDirectory} {alembic : Alembic σ δ ε} {db : Database σ}

@[simp]
theorem schemaStatus_stamped : (schemaStatus script db).stamped = db.stamped := by
  unfold schemaStatus Database.stamped
  cases db.alembicVersion <;> rfl

theorem schemaStatus_unmanaged :
    (schemaStatus script db).state = .unmanaged ↔ db.alembicVersion = none := by
  unfold schemaStatus
  cases db.alembicVersion with
  | none => simp
  | some stamped =>
      dsimp only
      split_ifs <;> simp

theorem schemaStatus_unknown :
    (schemaStatus script db).state = .unknown ↔ ¬db.stamped ⊆ script.known := by
  unfold schemaStatus Database.stamped
  cases db.alembicVersion with
  | none => simp
  | some stamped =>
      have hunknown : stamped \ script.known ≠ ∅ ↔ ¬stamped ⊆ script.known := by
        rw [Ne, Finset.sdiff_eq_empty_iff_subset]
      dsimp only [Option.getD_some]
      rw [← hunknown]
      split_ifs with h
      · simp [h]
      · simp [h]
      · simp [h]

theorem schemaStatus_head :
    (schemaStatus script db).state = .head ↔ db.stamped = {script.head} := by
  unfold schemaStatus Database.stamped
  cases db.alembicVersion with
  | none => simp [eq_comm]
  | some stamped =>
      dsimp only [Option.getD_some]
      split_ifs with hunknown hhead
      · constructor
        · simp
        · rintro rfl
          apply absurd _ hunknown
          simpa using script.head_mem
      · simp [hhead]
      · simp [hhead]

theorem adopting_iff :
    (db.alembicVersion.isNone || (schemaStatus script db).stamped = ∅) = true ↔
      db.stamped = ∅ := by
  rw [schemaStatus_stamped, Database.stamped]
  cases db.alembicVersion with
  | none => simp
  | some stamped => simp

/-- The assertion accepts a database stamped at the head and no other. -/
theorem assertAtHead_ok :
    (assertAtHead script db : Except (BootError δ ε) Unit) = .ok () ↔
      db.stamped = {script.head} := by
  rw [← schemaStatus_head]
  unfold assertAtHead
  cases h : (schemaStatus script db).state <;> simp [h]

/-! ## What a run leaves -/

/-- An island that alembic has not stamped, with the tables of the baseline. -/
def Adoptable (alembic : Alembic σ δ ε) (db : Database σ) : Prop :=
  "users" ∈ alembic.tableNames db.schema ∧ db.stamped = ∅ ∧
    alembic.diffAgainstBaseline db.schema = []

/-- The database that is upgraded: the one that was found, or adopted. -/
structure Ready (script : ScriptDirectory) (alembic : Alembic σ δ ε) (db ready : Database σ) :
    Prop where
  isIsland : "users" ∈ alembic.tableNames db.schema
  schema : ready.schema = db.schema
  known : ready.stamped ⊆ script.known
  stamped : ready.stamped = db.stamped ∨ Adoptable alembic db ∧ ready.stamped = {baselineRevision}

/-- How a run ends: refused with nothing changed or only the baseline stamped, interrupted in the
upgrade, or at the head. -/
inductive Ends (script : ScriptDirectory) (alembic : Alembic σ δ ε) (db : Database σ) :
    Database σ × Except (BootError δ ε) Unit → Prop where
  | refused (db' : Database σ) (error : BootError δ ε) : db'.schema = db.schema →
      db'.stamped = db.stamped →
      (∀ unknown, error = .unknownRevision unknown → ¬db.stamped ⊆ script.known) →
      Ends script alembic db (db', .error error)
  | adopted (db' : Database σ) (error : ε) : Adoptable alembic db →
      db'.schema = db.schema → db'.stamped = {baselineRevision} →
      Ends script alembic db (db', .error (.alembic error))
  | interrupted (ready db' : Database σ) (error : ε) : Ready script alembic db ready →
      alembic.upgrade ready = (db', .error error) →
      Ends script alembic db (db', .error (.alembic error))
  | atHead (db' : Database σ) : "users" ∈ alembic.tableNames db.schema →
      db.stamped ⊆ script.known → db'.stamped = {script.head} →
      Ends script alembic db (db', .ok ())

theorem guardAndUpgrade_of_unknown {revision : Revision} (hmem : revision ∈ db.stamped)
    (hunknown : revision ∉ script.known) :
    guardAndUpgrade script alembic db =
      (db, .error (.unknownRevision (schemaStatus script db).unknown)) := by
  have hstate : (schemaStatus script db).state = .unknown :=
    schemaStatus_unknown.mpr fun h => hunknown (h hmem)
  unfold guardAndUpgrade
  rw [if_pos hstate]

theorem ends_guardAndUpgrade (h : Reliable script alembic) {ready : Database σ}
    (hready : Ready script alembic db ready) (hknown : db.stamped ⊆ script.known) :
    Ends script alembic db (guardAndUpgrade script alembic ready) := by
  unfold guardAndUpgrade
  have hstate : (schemaStatus script ready).state ≠ .unknown := by
    rw [Ne, schemaStatus_unknown, not_not]
    exact hready.known
  rw [if_neg hstate]
  cases hupgrade : alembic.upgrade ready with
  | mk db' result =>
      cases result with
      | error error => exact Ends.interrupted ready db' error hready hupgrade
      | ok _ =>
          apply Ends.atHead db' hready.isIsland hknown
          have hhead := h.upgrade_head ready hready.known
          rw [hupgrade] at hhead
          exact hhead rfl

theorem requireDatabaseFile_error {file : DatabaseFile} {error : BootError δ ε}
    (h : requireDatabaseFile file = .error error) (unknown : Finset Revision) :
    error ≠ .unknownRevision unknown := by
  cases file with
  | noFile => cases h
  | found => cases h
  | missing =>
      cases h
      simp
  | unreadable =>
      cases h
      simp

theorem ends_run (h : Reliable script alembic) (file : DatabaseFile) :
    Ends script alembic db (run script alembic file db) := by
  unfold run
  cases hfile : requireDatabaseFile file with
  | error error =>
      apply Ends.refused db error rfl rfl
      exact fun unknown herror => absurd herror (requireDatabaseFile_error hfile unknown)
  | ok _ =>
      dsimp only
      split_ifs with husers hadopting hdrift
      · exact Ends.refused db _ rfl rfl (by simp)
      · have hempty : db.stamped = ∅ := adopting_iff.mp hadopting
        have hadoptable : Adoptable alembic db := by
          constructor
          · exact husers
          · exact ⟨hempty, by simpa using hdrift⟩
        have hschema := h.stamp_schema baselineRevision db
        have hstamped := h.stamp_stamped baselineRevision db
        have hraised := h.stamp_raised baselineRevision db
        generalize alembic.stamp baselineRevision db = stamping at hschema hstamped hraised
        rcases stamping with ⟨ready, error | _⟩
        · rcases hraised with hsame | hbaseline
          · exact Ends.refused ready _ hschema hsame (by simp)
          · exact Ends.adopted ready _ hadoptable hschema hbaseline
        · have hbaseline : ready.stamped = {baselineRevision} := hstamped rfl
          apply ends_guardAndUpgrade h
          · constructor
            · exact husers
            · exact hschema
            · rw [hbaseline]
              simpa using script.baseline_mem
            · exact Or.inr ⟨hadoptable, hbaseline⟩
          · rw [hempty]
            exact Finset.empty_subset _
      · by_cases hknown : db.stamped ⊆ script.known
        · apply ends_guardAndUpgrade h _ hknown
          constructor
          · exact husers
          · rfl
          · exact hknown
          · exact Or.inl rfl
        · obtain ⟨revision, hmem, hunknown⟩ := Finset.not_subset.mp hknown
          rw [guardAndUpgrade_of_unknown hmem hunknown]
          exact Ends.refused db _ rfl rfl fun _ _ => hknown
      · exact Ends.refused db _ rfl rfl (by simp)

/-- A database without users is left as it is. -/
theorem run_of_no_users (file : DatabaseFile) (h : "users" ∉ alembic.tableNames db.schema) :
    ∃ error, run script alembic file db = (db, .error error) := by
  unfold run
  cases requireDatabaseFile file with
  | error error => exact ⟨error, rfl⟩
  | ok _ => exact ⟨.notAnIsland, by simp [h]⟩

/-- So is one with a stamp that the code does not know. -/
theorem run_of_unknown (file : DatabaseFile) {revision : Revision} (hmem : revision ∈ db.stamped)
    (hunknown : revision ∉ script.known) :
    ∃ error, run script alembic file db = (db, .error error) := by
  have hnot : ¬(db.alembicVersion.isNone || (schemaStatus script db).stamped = ∅) = true := by
    rw [adopting_iff]
    exact Finset.ne_empty_of_mem hmem
  by_cases husers : "users" ∉ alembic.tableNames db.schema
  · exact run_of_no_users file husers
  · unfold run
    cases requireDatabaseFile file with
    | error error => exact ⟨error, rfl⟩
    | ok _ =>
        dsimp only
        rw [if_neg husers, if_neg hnot, guardAndUpgrade_of_unknown hmem hunknown]
        exact ⟨_, rfl⟩

/-- A run refuses, with nothing changed or only the baseline of a clean adoption stamped, or is
interrupted in the upgrade of known stamps, or ends at the head; without users and with an unknown
revision it refuses and changes nothing; and the assertion accepts exactly the head, which is what
a run leaves and what it never refuses as unknown. -/
theorem boot_layers (h : Reliable script alembic) (file : DatabaseFile) (db : Database σ) :
    Ends script alembic db (run script alembic file db) ∧
    ("users" ∉ alembic.tableNames db.schema →
      ∃ error, run script alembic file db = (db, .error error)) ∧
    (∀ revision ∈ db.stamped, revision ∉ script.known →
      ∃ error, run script alembic file db = (db, .error error)) ∧
    ((assertAtHead script db : Except (BootError δ ε) Unit) = .ok () ↔
      db.stamped = {script.head}) ∧
    ((run script alembic file db).2 = .ok () →
      (assertAtHead script (run script alembic file db).1 : Except (BootError δ ε) Unit) = .ok ()) ∧
    ((assertAtHead script db : Except (BootError δ ε) Unit) = .ok () →
      ∀ unknown, (run script alembic file db).2 ≠ .error (.unknownRevision unknown)) := by
  have hends : Ends script alembic db (run script alembic file db) := ends_run h file
  constructor
  · exact hends
  constructor
  · exact run_of_no_users file
  constructor
  · exact fun revision hmem hunknown => run_of_unknown file hmem hunknown
  constructor
  · exact assertAtHead_ok
  generalize run script alembic file db = result at hends
  constructor
  · intro hok
    cases hends with
    | refused => cases hok
    | adopted => cases hok
    | interrupted => cases hok
    | atHead db' _ _ hhead => exact assertAtHead_ok.mpr hhead
  · intro hok unknown herror
    have hknown : db.stamped ⊆ script.known := by
      rw [assertAtHead_ok.mp hok]
      simpa using script.head_mem
    cases hends with
    | refused db' error _ _ hrefused =>
        cases herror
        exact hrefused unknown rfl hknown
    | adopted => cases herror
    | interrupted => cases herror
    | atHead => cases herror

end

/-! ## The history of the island -/

/-- What a migration does to a table: it creates it, or needs it to be there. -/
inductive Operation where
  | create (table : String)
  | on (table : String)
  deriving DecidableEq

structure Migration where
  revision : Revision
  operations : List Operation

/-- The migrations of `alembic/versions`, without what one does to a table of its own. -/
def history : List Migration :=
  [⟨"0001", [.create "channels", .create "users", .create "memberships", .create "messages",
      .create "social_identities", .create "user_blocks", .create "message_reports"]⟩,
    ⟨"0002", [.on "memberships", .on "channels"]⟩,
    ⟨"0003", [.create "device_tokens"]⟩,
    ⟨"0004", [.create "oauth_handoffs"]⟩,
    ⟨"0005", [.create "oauth_states"]⟩,
    ⟨"0006", [.create "social_nonces"]⟩,
    ⟨"0007", [.on "oauth_states"]⟩,
    ⟨"0008", [.create "passkey_credentials", .create "passkey_challenges"]⟩,
    ⟨"0009", [.create "communities", .create "community_memberships", .on "channels",
      .on "users"]⟩,
    ⟨"0010", [.on "communities", .on "channels"]⟩,
    ⟨"0011", [.on "messages"]⟩,
    ⟨"0012", [.create "signing_keys"]⟩,
    ⟨"0013", [.on "passkey_challenges", .create "recovery_policies",
      .create "recovery_approvers", .create "pending_recovery"]⟩,
    ⟨"0014", [.on "users", .on "message_reports"]⟩,
    ⟨"0015", [.on "users"]⟩,
    ⟨"0016", [.create "message_retractions"]⟩,
    ⟨"0017", [.on "users"]⟩,
    ⟨"0018", [.create "message_reactions"]⟩,
    ⟨"0019", [.on "messages"]⟩,
    ⟨"0020", [.on "channels"]⟩,
    ⟨"0021", [.on "memberships"]⟩,
    ⟨"0022", [.on "users"]⟩,
    ⟨"0023", [.on "device_tokens"]⟩,
    ⟨"0024", [.on "device_tokens"]⟩,
    ⟨"0025", [.on "device_tokens"]⟩,
    ⟨"0026", [.on "device_tokens"]⟩,
    ⟨"0027", [.on "messages"]⟩,
    ⟨"0028", [.on "message_reports"]⟩,
    ⟨"0029", [.create "channel_read_positions"]⟩,
    ⟨"0030", [.on "users", .on "social_identities"]⟩]

/-- The tables after some operations, each on its own, and whether all went through. -/
def perform : List Operation → List String → List String × Bool
  | [], tables => (tables, true)
  | .create table :: rest, tables =>
      if table ∈ tables then (tables, false) else perform rest (table :: tables)
  | .on table :: rest, tables =>
      if table ∈ tables then perform rest tables else (tables, false)

/-- The migrations one after the other, each with its stamp. -/
def upgradeThrough :
    List Migration → Database (List String) → Database (List String) × Except Unit Unit
  | [], db => (db, .ok ())
  | migration :: rest, db =>
      match perform migration.operations db.schema with
      | (tables, false) => (⟨tables, db.alembicVersion⟩, .error ())
      | (tables, true) => upgradeThrough rest ⟨tables, some {migration.revision}⟩

/-- An upgrade to the head. The baseline refuses to build an island; what comes after the one
stamped revision is performed; anything else alembic refuses. -/
def upgradeToHead (db : Database (List String)) : Database (List String) × Except Unit Unit :=
  if db.stamped = ∅ then (⟨db.schema, some ∅⟩, .error ())
  else
    match history.dropWhile (fun migration => {migration.revision} ≠ db.stamped) with
    | [] => (db, .error ())
    | _ :: rest => upgradeThrough rest db

def baselineTables : List String :=
  ["message_reports", "user_blocks", "social_identities", "messages", "memberships", "users",
    "channels"]

/-- Alembic on the tables of an island. -/
def islandAlembic : Alembic (List String) String Unit where
  tableNames := List.toFinset
  diffAgainstBaseline tables :=
    tables.filter (· ∉ baselineTables) ++ baselineTables.filter (· ∉ tables)
  stamp revision db := (⟨db.schema, some {revision}⟩, .ok ())
  upgrade := upgradeToHead

def islandScript : ScriptDirectory where
  head := "0030"
  known := (history.map (·.revision)).toFinset
  head_mem := by decide
  baseline_mem := by decide

/-- Migrations that all went through leave the stamp of the last. -/
theorem upgradeThrough_ok {migrations : List Migration} {db : Database (List String)}
    (h : (upgradeThrough migrations db).2 = .ok ()) :
    (upgradeThrough migrations db).1.stamped =
      match migrations.getLast? with
      | none => db.stamped
      | some migration => {migration.revision} := by
  induction migrations generalizing db with
  | nil => rfl
  | cons migration rest ih =>
      unfold upgradeThrough at h ⊢
      rcases hperform : perform migration.operations db.schema with ⟨tables, _ | _⟩
      · rw [hperform] at h
        cases h
      · rw [hperform] at h
        dsimp only at h ⊢
        rw [ih h]
        cases hlast : rest.getLast? with
        | none =>
            rw [List.getLast?_eq_none_iff.mp hlast]
            rfl
        | some last =>
            rw [List.getLast?_cons, hlast]
            rfl

theorem reliable_islandAlembic : Reliable islandScript islandAlembic := by
  constructor
  · intro db _ hok
    change (upgradeToHead db).1.stamped = {"0030"}
    change (upgradeToHead db).2 = .ok () at hok
    unfold upgradeToHead at hok ⊢
    split_ifs at hok ⊢ with hempty
    generalize hsuffix : history.dropWhile
      (fun migration => ({migration.revision} : Finset Revision) ≠ db.stamped) = suffix at hok ⊢
    cases suffix with
    | nil => cases hok
    | cons migration rest =>
        dsimp only at hok ⊢
        have hstamped : {migration.revision} = db.stamped := by
          have hhead := List.head?_dropWhile_not
            (fun migration => ({migration.revision} : Finset Revision) ≠ db.stamped) history
          rw [hsuffix] at hhead
          simpa using hhead
        have hlast : (migration :: rest).getLast? = history.getLast? := by
          obtain ⟨front, hfront⟩ := List.dropWhile_suffix (l := history)
            (fun migration => ({migration.revision} : Finset Revision) ≠ db.stamped)
          rw [hsuffix] at hfront
          rw [← hfront, List.getLast?_append_cons]
        rw [upgradeThrough_ok hok]
        rw [List.getLast?_cons] at hlast
        cases hrest : rest.getLast? with
        | none =>
            rw [hrest] at hlast
            cases hlast
            exact hstamped.symm
        | some last =>
            rw [hrest] at hlast
            cases hlast
            rfl
  · exact fun _ _ => rfl
  · exact fun _ _ _ => rfl
  · exact fun _ _ => Or.inr rfl

/-- A database of users only, stamped at 0017, is brought to 0018 and refused there. -/
theorem an_interrupted_upgrade_stays :
    Reliable islandScript islandAlembic ∧
    (run islandScript islandAlembic .found ⟨["users"], some {"0017"}⟩).2 =
      .error (.alembic ()) ∧
    (run islandScript islandAlembic .found ⟨["users"], some {"0017"}⟩).1 =
      ⟨["message_reactions", "users"], some {"0018"}⟩ := by
  constructor
  · exact reliable_islandAlembic
  constructor
  · rfl
  · rfl

theorem boot_layers_last_migration :
    (assertAtHead islandScript
      (run islandScript islandAlembic .found ⟨["users", "social_identities"], some {"0029"}⟩).1 :
        Except (BootError String Unit) Unit) = .ok () := by
  apply (boot_layers reliable_islandAlembic .found _).2.2.2.2.1
  rfl

end AikoIsland.BootLayers
