import AikoIsland.ReadVersions

/-!
# No poisoned watermark

The same runs, and the bound on what a call stores: no watermark lies past the
newest item of its channel and what its user had stored there. The bound is
checked in reads before the first statement that writes, and channels that the
caller cannot read are not checked, because the write will skip them.

Readability is decided again by the write. A join in between makes it find the
channel readable, and a watermark that nobody bounded is stored. So the result
is about the runs in which every watermark that is written to a readable channel
was compared when the call checked, with a stored value that is still within
the bound: nothing is ever lost from a channel, so what was visible at the
check still exists at the commit.
-/
namespace AikoIsland.ReadBounds
open Tables Gateway WriterLock RelyGuarantee Footprint Publishing
open Memberships Messages Realtime ReadPositions ReadVersions

/-! ## The bound -/

/-- The newest item of a channel, hidden ones included. -/
def newest (db : Db) (channelId : String) : String := maxId (channelItems db channelId)

/-- The later of the newest item and what the user has stored. -/
def bound (userId channelId : String) (db : Db) : String :=
  max (newest db channelId) (storedRead userId channelId db)

/-- Every watermark that `b` stores and `a` did not lies within its bound. -/
def Bounded (a b : Db) : Prop :=
  ∀ u ch, stored u ch b = stored u ch a ∨
    storedRead u ch b ≤ max (newest b ch) (storedRead u ch a)

/-- The condition on steps: a watermark that is written to a readable channel was compared at
the check, with a stored value that is still within the bound. -/
def checked : Label → Point Db Memory → Bool
  | .readPosition userId channelId lastRead compared, x =>
      lastRead = "" || (x.view.readableChannel userId channelId).isNone ||
        compared.any fun had => had ≤ bound userId channelId x.view
  | _, _ => true

theorem newest_mono {a b : Db} {ch : String} (h : channelItems a ch ⊆ channelItems b ch) :
    newest a ch ≤ newest b ch :=
  maxId_le fun _ hr => le_maxId (h hr)

theorem visible_le_newest (db : Db) (ch viewer : String) :
    maxId (visibleMessages db ch viewer) ≤ newest db ch := by
  refine maxId_le fun r hr => le_maxId (List.mem_append_left _ ?_)
  obtain ⟨m, hm, rfl⟩ := List.mem_map.mp hr
  obtain ⟨hmem, hvisible⟩ := List.mem_filter.mp hm
  simp only [visible, Bool.and_eq_true] at hvisible
  exact List.mem_map_of_mem (List.mem_filter.mpr ⟨hmem, hvisible.1.1⟩)

theorem retractions_le_newest (db : Db) (ch : String) :
    maxId (channelRetractions db ch) ≤ newest db ch :=
  maxId_le fun _ hr => le_maxId (List.mem_append_right _ hr)

section
variable {userId channelId : String} {e : ValidEntry} {now : Time} {db : Db}

theorem channelItems_applyEntry (ch : String) :
    channelItems (applyEntry userId channelId e now db) ch = channelItems db ch := by
  unfold applyEntry insertPosition swapPosition
  split_ifs <;> rfl

theorem newest_applyEntry (ch : String) :
    newest (applyEntry userId channelId e now db) ch = newest db ch := by
  unfold newest
  rw [channelItems_applyEntry]

theorem storedRead_of_stored {u ch text : String} {seq : ℤ}
    (h : stored u ch db = some (text, seq)) : storedRead u ch db = text := by
  simp [storedRead, h]

end

/-! ## The entries of one call -/

/-- What a write finds: there is no watermark, or no access, or the watermark is within the
bound. -/
def WithinBound (userId channelId : String) (e : ValidEntry) (db : Db) : Prop :=
  e.lastRead = "" ∨ db.readableChannel userId channelId = none ∨
    e.lastRead ≤ bound userId channelId db

section
variable {userId : String} {now : Time} {es : List ValidEntry} {w w' : Db}
  {results : List (PyStr × EntryResult)}

theorem items_of_ran {C : String → ValidEntry → Db → Prop} (h : Ran C userId now es w results w')
    (ch : String) : channelItems w' ch = channelItems w ch := by
  induction h with
  | nil w => rfl
  | cons hkey _ h ih => rw [ih, channelItems_applyEntry]

/-- One statement within the bound. -/
theorem bounded_applyEntry {channelId : String} {e : ValidEntry}
    (h : WithinBound userId channelId e w) :
    stored userId channelId (applyEntry userId channelId e now w) = stored userId channelId w ∨
      storedRead userId channelId (applyEntry userId channelId e now w) ≤
        bound userId channelId w := by
  rcases h with hempty | hunread | hle
  · have hself : stored userId channelId (applyEntry userId channelId e now w) =
        stored userId channelId w ∨ _ := stored_applyEntry
    rcases hself with hsame | ⟨_, hnew⟩
    · exact Or.inl hsame
    · right
      rw [storedRead_of_stored hnew, hempty]
      exact empty_le _
  · left
    rw [applyEntry_of_unreadable hunread]
  · have hself : stored userId channelId (applyEntry userId channelId e now w) =
        stored userId channelId w ∨ _ := stored_applyEntry
    rcases hself with hsame | ⟨_, hnew⟩
    · exact Or.inl hsame
    · right
      rw [storedRead_of_stored hnew]
      exact hle

/-- The run lemma: an entry is about its own channel, which no other entry touches. -/
theorem bounded_of_ran (h : Ran (WithinBound userId) userId now es w results w')
    (hnodup : (es.map (·.channelId)).Nodup) (u ch : String) :
    stored u ch w' = stored u ch w ∨
      storedRead u ch w' ≤ max (newest w ch) (storedRead u ch w) := by
  induction h with
  | nil w => exact Or.inl rfl
  | @cons e es channelId w w' results hkey hmet h ih =>
      rw [List.map_cons, List.nodup_cons] at hnodup
      by_cases hhere : u = userId ∧ ch = channelId
      · obtain ⟨rfl, rfl⟩ := hhere
        have hrest : stored u ch w' = stored u ch (applyEntry u ch e now w) := by
          apply h.unchanged
          intro _ e' he' hsame
          apply hnodup.1
          rw [← hkey, ← hsame]
          exact List.mem_map_of_mem he'
        have hread : storedRead u ch w' = storedRead u ch (applyEntry u ch e now w) := by
          unfold storedRead
          rw [hrest]
        rw [hrest, hread]
        exact bounded_applyEntry hmet
      · have hhead : stored u ch (applyEntry userId channelId e now w) = stored u ch w :=
          stored_applyEntry_other hhere
        have hread : storedRead u ch (applyEntry userId channelId e now w) = storedRead u ch w := by
          unfold storedRead
          rw [hhead]
        have hrest := ih hnodup.2
        rw [hhead, hread, newest_applyEntry] at hrest
        exact hrest

end

/-! ## The check -/

/-- Items are only added. -/
def growing : Spec ℕ Db Memory Label where
  inv _ _ := True
  rely _ db _ db' _ := ∀ ch, channelItems db ch ⊆ channelItems db' ch
  meets t x := checked t x = true
  rely_refl _ _ _ _ _ h := h
  rely_trans h h' ch := List.Subset.trans (h ch) (h' ch)

/-- What the check established, as far as it lasts: a compared channel's watermark is within the
newest item and the stored value that was compared. -/
def Compares (entries : List ValidEntry) (compared : Compared) (db : Db) : Prop :=
  ∀ ch had, compared.lookup ch = some had → ∀ e ∈ entries, codes ch = e.channelId →
    e.lastRead ≤ max (newest db ch) had

section
variable {p : ℕ} {x y : Point Db Memory} {userId : String} {entries : List ValidEntry}
  {compared : Compared}

theorem newest_env (h : growing.Env p x y) (hx : x.work = none) (ch : String) :
    newest x.view ch ≤ newest y.db ch := by
  rw [Point.view_of_none hx]
  exact newest_mono (h.rely ch)

theorem Compares.mono {a b : Db} (h : Compares entries compared a)
    (hab : ∀ ch, newest a ch ≤ newest b ch) : Compares entries compared b :=
  fun ch had hlookup e he hch => (h ch had hlookup e he hch).trans (max_le_max_right had (hab ch))

theorem Compares.env (h : growing.Env p x y) (hc : Compares entries compared x.view) :
    Compares entries compared y.view :=
  h.stable (V := Compares entries compared)
    (fun hrely hx => hx.mono fun ch => newest_mono (hrely ch)) hc

theorem lookup_map_of_some {cs : List String} {f : String → String} {ch had : String}
    (h : (cs.map fun c => (c, f c)).lookup ch = some had) : ch ∈ cs ∧ had = f ch := by
  induction cs with
  | nil => cases h
  | cons c cs ih =>
      rw [List.map_cons, List.lookup_cons] at h
      by_cases hc : ch = c
      · subst hc
        simp only [beq_self_eq_true] at h
        exact ⟨List.mem_cons_self, (Option.some.inj h).symm⟩
      · rw [beq_false_of_ne hc] at h
        obtain ⟨hmem, heq⟩ := ih h
        exact ⟨List.mem_cons_of_mem c hmem, heq⟩

/-- The fences never pass the newest item, and that one only grows. -/
theorem safe_latestUlids (hx : x.work = none) (channels : List String) (viewer : String) :
    Safe growing p (latestUlids channels viewer) (fun fences y => y.work = none ∧
      ∀ ch, (fences.lookup ch).getD "" ≤ newest y.db ch) (fun _ _ => True) x := by
  unfold latestUlids
  split_ifs
  · exact fun y hy => ⟨hy.free hx, fun ch => empty_le _⟩
  · intro y hy z hz v hv
    have hyfree : y.work = none := hy.free hx
    have hzfree : z.work = none := hz.free hyfree
    refine ⟨hv.free hzfree, fun ch => ?_⟩
    cases hlookup : (channels.map fun c => (c, max (maxId (visibleMessages y.view c viewer))
        (maxId (channelRetractions z.view c)))).lookup ch with
    | none =>
        rw [Option.getD_none]
        exact empty_le _
    | some fence =>
        obtain ⟨_, rfl⟩ := lookup_map_of_some hlookup
        rw [Option.getD_some]
        apply max_le
        · exact (visible_le_newest _ _ _).trans (newest_env (hz.trans hv) hyfree ch)
        · exact (retractions_le_newest _ _).trans (newest_env hv hzfree ch)

/-- The step from what was read to what was compared. -/
theorem compares_of_find {readable : List String} {visible : List (String × String)}
    {held : String → String} {db : Db}
    (hvisible : ∀ ch, (visible.lookup ch).getD "" ≤ newest db ch)
    (h : readable.find? (pastBound entries visible held) = none) :
    Compares entries (readable.map fun c => (c, held c)) db := by
  intro ch had hlookup e he hch
  obtain ⟨hmem, rfl⟩ := lookup_map_of_some hlookup
  have hwithin := List.find?_eq_none.mp h ch hmem
  simp only [pastBound, Bool.or_eq_true, decide_eq_true_eq, not_or, List.any_eq_true,
    Bool.and_eq_true, not_exists, not_and, not_lt] at hwithin
  exact (hwithin.2 e he hch.symm).trans (max_le_max_right _ (hvisible ch))

theorem safe_checkBounds (hx : x.work = none) :
    Safe growing p (checkBounds userId entries) (fun compared y =>
      Compares entries compared y.db) (fun _ _ => True) x := by
  apply Safe.andThen ((uses_filterReadableIds _ _ _).readOnly hx |>.mono
    (fun _ _ _ h => h) fun _ _ _ _ => trivial) trivial
  intro readable y _ hy
  have hyfree : y.work = none := hy.free hx
  split_ifs with hnone
  · intro z _ ch had hlookup
    cases hlookup
  · refine Safe.andThen (safe_latestUlids hyfree readable userId) trivial fun visible z _ hz => ?_
    obtain ⟨hzfree, hvisible⟩ := hz
    intro v hv
    cases hfind : readable.find? (pastBound entries visible
        fun channelId => storedRead userId channelId v.view) with
    | some channelId =>
        dsimp only [Request.bind]
        rw [hfind]
        exact fun _ _ => trivial
    | none =>
        dsimp only [Request.bind]
        rw [hfind]
        intro u hu
        apply compares_of_find _ hfind
        intro ch
        exact (hvisible ch).trans (newest_mono ((hv.trans hu).rely ch))

end

/-! ## Runs -/

/-- A write that meets the condition is within its bound. -/
theorem withinBound_of_checked {userId ch : String} {e : ValidEntry}
    {entries : List ValidEntry} {compared : Compared} {y : Point Db Memory} (he : e ∈ entries)
    (hch : codes ch = e.channelId)
    (hm : growing.meets (.readPosition userId ch e.lastRead (compared.lookup ch)) y)
    (hc : Compares entries compared y.view) : WithinBound userId ch e y.view := by
  have hcond : checked (.readPosition userId ch e.lastRead (compared.lookup ch)) y = true := hm
  simp only [checked, Bool.or_eq_true, decide_eq_true_eq, Option.isNone_iff_eq_none,
    Option.any_eq_true] at hcond
  rcases hcond with (hempty | hunread) | ⟨had, hlookup, hle⟩
  · exact Or.inl hempty
  · exact Or.inr (Or.inl hunread)
  · right
    right
    exact (hc ch had hlookup e he hch).trans (max_le (le_max_left _ _) hle)

theorem publishes_setPositions (p : ℕ) (userId : String) (positions : Positions) (now : Time)
    (db : Db) (mem : Memory) :
    Publishes growing p Bounded (fun _ _ => True) [] (setPositions userId positions now)
      ⟨db, mem, none⟩ := by
  have howed : ∀ r : Except Exn (List (PyStr × EntryResult)),
      Owed (fun _ _ => True) ([] : List (Db × Db)) r :=
    fun r => ⟨fun _ => trivial, fun _ _ => trivial⟩
  unfold setPositions
  split
  · exact howed _
  · exact howed _
  · rename_i vs hne hvs
    obtain ⟨_, htypes⟩ := validateAll_eq_ok hvs
    apply Publishes.after_reads (uses_checkBounds userId vs) rfl trivial
      (safe_checkBounds rfl) fun _ => howed _
    intro compared y hfree _ hcompares
    apply publishes_entries (K := Compares vs compared) (C := WithinBound userId)
    · intro hnil
      exact hne hnil
    · exact hfree
    · exact trivial
    · exact hcompares
    · exact fun he hc => hc.env he
    · exact fun ch e db hc => hc.mono fun ch' => (newest_applyEntry ch').ge
    · exact fun e he ch y hch hm hc => withinBound_of_checked he hch hm hc
    · exact trivial
    · intro z results w' _ hran
      have hitems : ∀ ch, channelItems w' ch = channelItems z.db ch := items_of_ran hran
      refine ⟨fun u ch => ?_, ⟨trivial, fun q _ ch => ?_⟩, trivial⟩
      · have hbound := bounded_of_ran hran (nodup_of_types htypes positions.keys) u ch
        unfold newest at hbound ⊢
        rw [hitems ch]
        exact hbound
      · rw [hitems ch]
        exact List.Subset.refl _

theorem bounded_of_spares {a b : Db} (h : Spares a b) : Bounded a b :=
  fun u ch => Or.inl (h.stored u ch)

theorem respects_growing (p : ℕ) : Respects growing p (fun _ _ => True) Spares SparingWrite
    fun _ _ => True where
  refl := Spares.refl
  trans h h' := h.trans h'
  stable _ _ := trivial
  write _ _ _ _ hw _ _ _ _ hf := hw _ _ hf
  segment _ _ _ _ _ _ _ := ⟨⟨trivial, fun _ _ _ _ h => h⟩, trivial⟩
  commit _ _ _ _ _ h := ⟨⟨trivial, fun _ _ ch => h.items ch⟩, trivial⟩

theorem publishes_bounded (p : ℕ) (request : PositionRequest) (db : Db) (mem : Memory) :
    Publishes growing p Bounded (fun _ _ => True) [] (request.body p) ⟨db, mem, none⟩ := by
  have hother : ∀ R : PositionRequest, (∀ u positions now, R ≠ .setPositions u positions now) →
      Publishes growing p Spares (fun _ _ => True) [] (R.body p) ⟨db, mem, none⟩ :=
    fun R hR => of_respects (respects_growing p) (uses_sparing p R hR) (Spares.refl db)
  cases request with
  | setPositions userId positions now =>
      exact (publishes_setPositions p userId positions now db mem).map.session
  | _ => exact (hother _ (by simp)).mono (fun _ _ h => bounded_of_spares h) fun _ _ _ => trivial

section
variable {db : Db} {mem : Memory} {requests : ℕ → PositionRequest}
  {c c' : Cfg ℕ Db Memory Label Exn (Option (List (PyStr × EntryResult)))} {p : ℕ}

/-- In a run whose writes all meet the condition, every watermark that a step stores is within
the newest item of its channel and what its user had stored. -/
theorem watermarks_are_bounded
    (hr : Cfg.Reach (fun t x => checked t x = true)
      (Cfg.init db mem fun p => (requests p).body p) c)
    (hm : c.Meets (fun t x => checked t x = true) p) (hs : c.step p = some c') :
    Bounded c.db c'.db := by
  have hinit : Guarded growing (fun _ => Bounded) (fun _ _ _ => True) (fun _ => [])
      (Cfg.init db mem fun p => (requests p).body p) :=
    ⟨trivial, fun p => publishes_bounded p (requests p) db mem⟩
  obtain ⟨past, hguarded, _⟩ := hinit.reach hr
  rcases hguarded.change hm hs with hsame | hbounded
  · rw [hsame]
    exact fun u ch => Or.inl rfl
  · exact hbounded

end

/-- A run that meets the condition: the watermark of `C` was compared. -/
theorem compared_watermark_bounded :
    ∃ c c', Cfg.playChecked checked [0, 0, 0, 0, 0, 0] devicesStart = some c ∧
      c.step 0 = some c' ∧ Bounded c.db c'.db := by
  have hrun : ((Cfg.playChecked checked [0, 0, 0, 0, 0, 0] devicesStart).bind fun c =>
      (c.step 0).map fun _ => (c.procs 0).label) = some (some .plain) := by
    decide +kernel
  obtain ⟨c, hc, hrun⟩ := Option.bind_eq_some_iff.mp hrun
  obtain ⟨c', hs, hlabel⟩ := Option.map_eq_some_iff.mp hrun
  have hr : Cfg.Reach (fun t x => checked t x = true)
      (Cfg.init markStore {} fun p => (devices p).body p) c :=
    Cfg.reach_of_playChecked (fun _ _ h => h) Cfg.Reach.start hc
  have hm : c.Meets (fun t x => checked t x = true) 0 := by
    intro t ht
    rw [hlabel, Option.mem_some] at ht
    rw [← ht]
    rfl
  exact ⟨c, c', hc, hs, watermarks_are_bounded hr hm hs⟩

/-! ## A join between the check and the write -/

/-- `U` sends a fabricated watermark for a private channel and joins it meanwhile. -/
def joining (p : ℕ) : PositionRequest :=
  if p = 0 then
    .setPositions "U" ⟨[⟨codes "C", codes "7ZZZZZZZZZZZZZZZZZZZZZZZZZ", 0⟩], by simp⟩ 5
  else .selfJoin "C" "U"

def joinStore : Db where
  users := [{ id := "U", username := "u", aikoUsername := "u" }]
  channels := [{ id := "C", name := "c", aikoChannel := "c", isPrivate := true
                 joinPolicy := .open }]

def joinStart : Cfg ℕ Db Memory Label Exn (Option (List (PyStr × EntryResult))) :=
  Cfg.init joinStore {} fun p => (joining p).body p

/-- The check skips the channel, the write finds it readable. -/
theorem unbounded_watermark_stored :
    ¬∀ (db : Db) (mem : Memory) (requests : ℕ → PositionRequest)
      (c c' : Cfg ℕ Db Memory Label Exn (Option (List (PyStr × EntryResult)))) (p : ℕ),
      Cfg.Reach (fun _ _ => True) (Cfg.init db mem fun p => (requests p).body p) c →
        c.step p = some c' → Bounded c.db c'.db := by
  intro hclaim
  have hrun : ((Cfg.play [0, 1, 1, 1, 1, 1, 0, 0] joinStart).bind fun c => (c.step 0).map fun c' =>
      (stored "U" "C" c.db, stored "U" "C" c'.db, newest c'.db "C")) =
      some (none, some ("7ZZZZZZZZZZZZZZZZZZZZZZZZZ", 1), "") := by
    decide +kernel
  obtain ⟨c, hc, hrun⟩ := Option.bind_eq_some_iff.mp hrun
  obtain ⟨c', hs, hview⟩ := Option.map_eq_some_iff.mp hrun
  simp only [Prod.mk.injEq] at hview
  obtain ⟨hbefore, hafter, hnewest⟩ := hview
  rcases hclaim joinStore {} joining c c' 0 (Cfg.reach_of_play Cfg.Reach.start hc) hs "U" "C" with
    hsame | hle
  · rw [hbefore, hafter] at hsame
    cases hsame
  · rw [storedRead_of_stored hafter, storedRead, hbefore, hnewest] at hle
    revert hle
    decide

end AikoIsland.ReadBounds
