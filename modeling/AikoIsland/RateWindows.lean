import AikoIsland.RateLimit
import AikoIsland.RecentUse

/-!
# What the rate limiter allows

The keys of the table are those of last use. While a key is not evicted its windows
follow each other without overlap and each allows its limit, so a span of the length
of a window meets two of them at most.

`Retry-After` is rounded up to whole seconds, so it may end after the window does.
The hit that waits for it is allowed unless a hit between the two has opened the
next window already.
-/
namespace AikoIsland.RateWindows
open Tables RateLimit OrderedDict RecentUse

abbrev Key := String × String

/-- Every key has its own limit and window. -/
structure Config where
  limit : Key → ℤ
  window : Key → ℕ
  one_le_limit : ∀ k, 1 ≤ limit k
  window_pos : ∀ k, 0 < window k

structure Hit where
  key : Key
  now : ℕ

/-- A hit with what it was answered and the beginning of the window that it counts in. -/
structure Served where
  hit : Hit
  start : ℕ
  allowed : Bool
  retryAfter : ℕ

section
variable (cfg : Config)

def serve (ws : Windows) (h : Hit) : Served × Windows :=
  let r := RateLimit.hit ws h.now h.key.1 h.key.2 (cfg.limit h.key) (cfg.window h.key)
  (⟨h, (windowAt ws h.now h.key (cfg.window h.key)).start, r.1.1, r.1.2⟩, r.2)

/-- The table after the hits. -/
def table (ws : Windows) (hits : List Hit) : Windows :=
  hits.foldl (fun ws h => (serve cfg ws h).2) ws

/-- The answers to the hits. -/
def answers (ws : Windows) : List Hit → List Served
  | [] => []
  | h :: hits => (serve cfg ws h).1 :: answers (serve cfg ws h).2 hits

/-- The hit throws the key out of the table. -/
def Evicts (ws : Windows) (h : Hit) (k : Key) : Prop :=
  k ∈ keys ws ∧ k ∉ keys (serve cfg ws h).2

/-- No hit throws the key out. -/
def Stays (k : Key) (ws : Windows) : List Hit → Prop
  | [] => True
  | h :: hits => ¬Evicts cfg ws h k ∧ Stays k (serve cfg ws h).2 hits

end

/-- The clock does not go back. -/
def Clock (hits : List Hit) : Prop := hits.Pairwise fun a b => a.now ≤ b.now

/-- The allowed hits of a key that count in the window from `start`. -/
def allowedIn (k : Key) (start : ℕ) (served : List Served) : List Served :=
  served.filter fun r => r.hit.key = k && r.allowed && r.start = start

/-- The allowed hits of a key from `t` to `t + window`. -/
def allowedWithin (k : Key) (t window : ℕ) (served : List Served) : List Served :=
  served.filter fun r => r.hit.key = k && r.allowed && (t ≤ r.hit.now && r.hit.now ≤ t + window)

section
variable {cfg : Config} {ws : Windows} {h : Hit} {hits : List Hit} {k : Key}

/-! ## One hit -/

/-- The count that the hit reaches in its window. -/
def counted (cfg : Config) (ws : Windows) (h : Hit) : Window :=
  let current := windowAt ws h.now h.key (cfg.window h.key)
  ⟨current.start, current.count + 1⟩

@[simp] theorem hit_serve (cfg : Config) (ws : Windows) (h : Hit) : (serve cfg ws h).1.hit = h := rfl

theorem serve_table (cfg : Config) (ws : Windows) (h : Hit) : (serve cfg ws h).2 =
    (moveToEnd ws h.key (counted cfg ws h)).drop
      ((moveToEnd ws h.key (counted cfg ws h)).length - maxKeys) := by
  obtain ⟨⟨bucket, ip⟩, now⟩ := h
  unfold serve RateLimit.hit counted
  dsimp only
  split_ifs
  · simp only
  · simp only

theorem keys_serve (cfg : Config) (ws : Windows) (h : Hit) :
    keys (serve cfg ws h).2 = touch maxKeys (keys ws) h.key := by
  have hmoved : keys (moveToEnd ws h.key (counted cfg ws h)) = moved (keys ws) h.key := by
    rw [moveToEnd, OrderedDict.keys, List.map_append, moved, OrderedDict.pop, OrderedDict.keys,
      List.filter_map]
    rfl
  have hlen : (moveToEnd ws h.key (counted cfg ws h)).length = (moved (keys ws) h.key).length := by
    rw [← hmoved, OrderedDict.keys, List.length_map]
  rw [serve_table, touch, hlen, ← hmoved, OrderedDict.keys, OrderedDict.keys, List.map_drop]

theorem mem_serve {i : Key × Window} (hi : i ∈ (serve cfg ws h).2) :
    i ∈ ws ∧ i.1 ≠ h.key ∨ i = (h.key, counted cfg ws h) := by
  rw [serve_table] at hi
  have hmem := List.mem_of_mem_drop hi
  rw [moveToEnd, List.mem_append, List.mem_singleton, OrderedDict.pop, List.mem_filter] at hmem
  simpa using hmem

variable (cfg) in
/-- The key that was hit is in the table with its new count. -/
theorem get_serve_self (hd : (keys ws).Nodup) :
    get (serve cfg ws h).2 h.key = some (counted cfg ws h) := by
  have hnodup : (keys (serve cfg ws h).2).Nodup := by
    rw [keys_serve]
    exact nodup_touch hd _
  have hin : h.key ∈ keys (serve cfg ws h).2 := by
    rw [keys_serve]
    exact mem_touch_self (by decide) _ _
  obtain ⟨w, hw⟩ := get_of_mem_keys hin
  cases mem_serve (mem_of_get hw) with
  | inl hold => exact absurd rfl hold.2
  | inr hnew =>
      obtain ⟨_, rfl⟩ := Prod.mk.inj hnew
      exact hw

variable (cfg) in
/-- Another key keeps its entry or loses it. -/
theorem get_serve_of_ne (hd : (keys ws).Nodup) (hne : k ≠ h.key) :
    get (serve cfg ws h).2 k = get ws k ∨
      k ∉ keys (serve cfg ws h).2 ∧ get (serve cfg ws h).2 k = none := by
  by_cases hin : k ∈ keys (serve cfg ws h).2
  · left
    obtain ⟨w, hw⟩ := get_of_mem_keys hin
    cases mem_serve (mem_of_get hw) with
    | inl hold => rw [hw, get_of_mem hd hold.1]
    | inr hnew => exact absurd (Prod.mk.inj hnew).1 hne
  · exact Or.inr ⟨hin, get_of_notMem hin⟩

theorem nodup_serve (hd : (keys ws).Nodup) (h : Hit) : (keys (serve cfg ws h).2).Nodup := by
  rw [keys_serve]
  exact nodup_touch hd _

variable (cfg) in
/-- A key that is not evicted keeps its entry over the hit of another. -/
theorem get_serve_stays (hd : (keys ws).Nodup) (hne : k ≠ h.key) (hstay : ¬Evicts cfg ws h k) :
    get (serve cfg ws h).2 k = get ws k := by
  cases get_serve_of_ne cfg hd hne with
  | inl hsame => exact hsame
  | inr hgone =>
      have hout : k ∉ keys ws := fun hin => hstay ⟨hin, hgone.1⟩
      rw [hgone.2, get_of_notMem hout]

/-- The window of a hit: a fresh one, or the stored one while it lasts. -/
theorem windowAt_cases (ws : Windows) (now : Time) (k : Key) (window : Time) :
    windowAt ws now k window = ⟨now, 0⟩ ∧
        (∀ w, get ws k = some w → window ≤ now - w.start) ∨
      ∃ w, get ws k = some w ∧ now - w.start < window ∧ windowAt ws now k window = w := by
  unfold windowAt
  cases hget : get ws k with
  | none =>
      left
      constructor
      · simp
      · intro w hw
        cases hw
  | some w =>
      rw [Option.getD_some]
      by_cases hover : window ≤ now - w.start
      · left
        constructor
        · rw [if_pos hover]
        · intro w' hw'
          rw [← Option.some.inj hw']
          exact hover
      · right
        exact ⟨w, rfl, not_le.mp hover, if_neg hover⟩

/-- A hit is allowed while the count stays within the limit; a refused one is told to wait until
after the end of its window. -/
theorem serve_answer (cfg : Config) (ws : Windows) (h : Hit) :
    ((serve cfg ws h).1.allowed = true ↔ ((counted cfg ws h).count : ℤ) ≤ cfg.limit h.key) ∧
      ((serve cfg ws h).1.allowed = false → (serve cfg ws h).1.retryAfter =
        (cfg.window h.key - (h.now - (counted cfg ws h).start)) / 1000000 + 1) := by
  obtain ⟨⟨bucket, ip⟩, now⟩ := h
  unfold serve RateLimit.hit counted
  dsimp only
  split_ifs with hlimit
  · constructor
    · constructor
      · intro hallowed
        cases hallowed
      · omega
    · exact fun _ => rfl
  · constructor
    · constructor
      · exact fun _ => not_lt.mp hlimit
      · exact fun _ => rfl
    · intro hrefused
      cases hrefused

/-! ## The table -/

theorem table_append (cfg : Config) (ws : Windows) (hits : List Hit) (h : Hit) :
    table cfg ws (hits ++ [h]) = (serve cfg (table cfg ws hits) h).2 := by
  rw [table, List.foldl_append]
  rfl

theorem keys_table (cfg : Config) (hits : List Hit) :
    keys (table cfg [] hits) = touchAll maxKeys (hits.map (·.key)) := by
  induction hits using List.reverseRecOn with
  | nil => rfl
  | append_singleton hits h ih =>
      rw [table_append, keys_serve, ih, List.map_append, List.map_singleton, touchAll_append]

theorem nodup_table (cfg : Config) (hits : List Hit) : (keys (table cfg [] hits)).Nodup := by
  rw [keys_table]
  exact nodup_touchAll _ _

/-- The key that is evicted has seen as many other keys as the table holds hit since its last
hit. -/
theorem evicted_after (cfg : Config) (hits : List Hit) {h : Hit}
    (hevict : Evicts cfg (table cfg [] hits) h k) :
    ∃ early last late, hits = early ++ last :: late ∧ last.key = k ∧
      (∀ h' ∈ late ++ [h], h'.key ≠ k) ∧
      maxKeys ≤ ((late ++ [h]).map (·.key)).toFinset.card := by
  obtain ⟨hin, hout⟩ := hevict
  rw [keys_table] at hin
  rw [← table_append, keys_table, List.map_append, List.map_singleton] at hout
  obtain ⟨before, behind, hsplit, hlate, hcount⟩ := dropped_touchAll (by decide) hin hout
  obtain ⟨early, rest, rfl, _, hrest⟩ := List.map_eq_append_iff.mp hsplit
  obtain ⟨last, late, rfl, hlast, hbehind⟩ := List.map_eq_cons_iff.mp hrest
  have hmap : (late ++ [h]).map (·.key) = behind ++ [h.key] := by
    rw [List.map_append, hbehind, List.map_singleton]
  use early, last, late
  constructor
  · rfl
  constructor
  · exact hlast
  constructor
  · intro h' hh' hkey
    apply hlate
    rw [← hmap, ← hkey]
    exact List.mem_map_of_mem hh'
  · rw [hmap]
    exact hcount

/-! ## The windows of a key -/

/-- The stored window of the key begins before the hits to come. -/
def Begun (k : Key) (ws : Windows) (hits : List Hit) : Prop :=
  ∀ w, get ws k = some w → ∀ h ∈ hits, w.start ≤ h.now

/-- What the key has spent of its limit in the window from `start`. -/
def spent (cfg : Config) (k : Key) (ws : Windows) (start : ℕ) : ℕ :=
  match get ws k with
  | none => 0
  | some w => if w.start = start then min w.count (cfg.limit k).toNat else 0

theorem Begun.tail (hb : Begun k ws (h :: hits)) : Begun k ws hits :=
  fun w hw h' hh' => hb w hw h' (List.mem_cons_of_mem _ hh')

variable (cfg) in
/-- The hit counts in a window that has begun and lasts, and that is the stored one or comes after
it. -/
theorem start_spec (hb : Begun h.key ws (h :: hits)) :
    (serve cfg ws h).1.start = (counted cfg ws h).start ∧
      (counted cfg ws h).start ≤ h.now ∧ h.now < (counted cfg ws h).start + cfg.window h.key ∧
      ∀ w, get ws h.key = some w → w = ⟨(counted cfg ws h).start, (counted cfg ws h).count - 1⟩ ∨
        w.start + cfg.window h.key ≤ (counted cfg ws h).start ∧ (counted cfg ws h).count = 1 := by
  have hpos := cfg.window_pos h.key
  constructor
  · rfl
  rcases windowAt_cases ws h.now h.key (cfg.window h.key) with ⟨hfresh, hover⟩ | ⟨w, hw, hlasts, heq⟩
  · simp only [counted, hfresh]
    constructor
    · exact le_rfl
    constructor
    · exact Nat.lt_add_of_pos_right hpos
    · intro w hw
      have hstart := hb w hw h List.mem_cons_self
      right
      constructor
      · exact Nat.add_le_of_le_sub' hstart (hover w hw)
      · trivial
  · have hstart := hb w hw h List.mem_cons_self
    simp only [counted, heq]
    constructor
    · exact hstart
    constructor
    · exact Nat.sub_lt_iff_lt_add' hstart |>.mp hlasts
    · intro w' hw'
      left
      rw [hw] at hw'
      rw [← Option.some.inj hw']
      rfl

variable (cfg) in
theorem Begun.serve (hd : (keys ws).Nodup) (hclock : Clock (h :: hits))
    (hb : Begun k ws (h :: hits)) : Begun k (serve cfg ws h).2 hits := by
  intro w hw h' hh'
  by_cases hkey : h.key = k
  · subst hkey
    rw [get_serve_self cfg hd] at hw
    rw [← Option.some.inj hw]
    have hle := (List.pairwise_cons.mp hclock).1 h' hh'
    exact (start_spec cfg hb).2.1.trans hle
  · cases get_serve_of_ne cfg hd (Ne.symm hkey) with
    | inl hsame => exact hb w (hsame ▸ hw) h' (List.mem_cons_of_mem _ hh')
    | inr hgone =>
        rw [hgone.2] at hw
        cases hw

/-- A hit in its window, and any later one in the same window or in one that begins after the end
of the first. -/
def Follow (window : ℕ) (a b : Served) : Prop :=
  a.start = b.start ∨ a.start + window ≤ b.start

/-- While a key stays its windows do not overlap, and none begins before the stored one ends. -/
theorem windows_follow (hd : (keys ws).Nodup) (hclock : Clock hits) (hb : Begun k ws hits)
    (hstay : Stays cfg k ws hits) :
    (∀ r ∈ answers cfg ws hits, r.hit.key = k →
      r.start ≤ r.hit.now ∧ r.hit.now < r.start + cfg.window k ∧
      ∀ w, get ws k = some w → w.start = r.start ∨ w.start + cfg.window k ≤ r.start) ∧
    ((answers cfg ws hits).filter fun r => r.hit.key = k).Pairwise (Follow (cfg.window k)) := by
  induction hits generalizing ws with
  | nil =>
      constructor
      · intro r hr
        cases hr
      · exact List.Pairwise.nil
  | cons h hits ih =>
      obtain ⟨hkeep, hstay⟩ := hstay
      obtain ⟨hall, hpair⟩ := ih (nodup_serve hd h) (List.pairwise_cons.mp hclock).2
        (hb.serve cfg hd hclock) hstay
      by_cases hkey : h.key = k
      · subst hkey
        obtain ⟨hsame, hbegun, hlasts, hstored⟩ := start_spec cfg hb
        have hnext := get_serve_self cfg (h := h) hd
        constructor
        · intro r hr hrkey
          cases List.mem_cons.mp hr with
          | inl hfirst =>
              rw [hfirst, hsame]
              constructor
              · exact hbegun
              constructor
              · exact hlasts
              · intro w hw
                exact (hstored w hw).imp (fun heq => by rw [heq]) And.left
          | inr hlater =>
              obtain ⟨hr1, hr2, hr3⟩ := hall r hlater hrkey
              constructor
              · exact hr1
              constructor
              · exact hr2
              · intro w hw
                have hfollow := hr3 _ hnext
                rcases hstored w hw with heq | ⟨hend, _⟩
                · rw [heq]
                  exact hfollow
                · right
                  rcases hfollow with hf | hf
                  · exact hf ▸ hend
                  · exact hend.trans (le_self_add.trans hf)
        · rw [answers, List.filter_cons_of_pos (by simp)]
          apply List.Pairwise.cons _ hpair
          intro r hr
          obtain ⟨hrmem, hrkey⟩ := List.mem_filter.mp hr
          have hfollow := (hall r hrmem (by simpa using hrkey)).2.2 _ hnext
          rw [Follow, hsame]
          exact hfollow
      · have hnext := get_serve_stays cfg hd (Ne.symm hkey) hkeep
        rw [hnext] at hall
        constructor
        · intro r hr hrkey
          cases List.mem_cons.mp hr with
          | inl hfirst =>
              rw [hfirst] at hrkey
              exact absurd hrkey hkey
          | inr hlater => exact hall r hlater hrkey
        · rw [answers, List.filter_cons_of_neg (by simp [hkey])]
          exact hpair

/-- What is allowed in a window and what was spent in it stay within the limit. -/
theorem allowed_le (hd : (keys ws).Nodup) (hclock : Clock hits) (hb : Begun k ws hits)
    (hstay : Stays cfg k ws hits) (start : ℕ) :
    (allowedIn k start (answers cfg ws hits)).length + spent cfg k ws start ≤
      (cfg.limit k).toNat := by
  induction hits generalizing ws with
  | nil =>
      rw [answers, allowedIn, List.filter_nil, List.length_nil, spent, Nat.zero_add]
      cases get ws k with
      | none => exact Nat.zero_le _
      | some w =>
          dsimp only
          split_ifs
          · exact min_le_right _ _
          · exact Nat.zero_le _
  | cons h hits ih =>
      have hfollow := (windows_follow hd hclock hb hstay).1
      obtain ⟨hkeep, hstay⟩ := hstay
      have hclock' := (List.pairwise_cons.mp hclock).2
      have hb' := hb.serve cfg hd hclock
      have hrest := ih (nodup_serve hd h) hclock' hb' hstay
      by_cases hkey : h.key = k
      · subst hkey
        obtain ⟨hsame, hbegun, _, hstored⟩ := start_spec cfg hb
        have hnext := get_serve_self cfg (h := h) hd
        have hanswer := (serve_answer cfg ws h).1
        have hcount : 1 ≤ (counted cfg ws h).count := Nat.le_add_left 1 _
        have hone := cfg.one_le_limit h.key
        rw [spent, hnext] at hrest
        dsimp only at hrest
        by_cases hstart : (counted cfg ws h).start = start
        · -- the hit counts in the window
          rw [if_pos hstart] at hrest
          have hspent : spent cfg h.key ws start ≤
              min ((counted cfg ws h).count - 1) (cfg.limit h.key).toNat := by
            rw [spent]
            cases hget : get ws h.key with
            | none => exact Nat.zero_le _
            | some w =>
                dsimp only
                rcases hstored w hget with heq | ⟨hend, _⟩
                · rw [heq, if_pos hstart]
                · have hpos := cfg.window_pos h.key
                  have hne : w.start ≠ start := by grind
                  rw [if_neg hne]
                  exact Nat.zero_le _
          by_cases hallowed : (serve cfg ws h).1.allowed = true
          · have hlen : (allowedIn h.key start (answers cfg ws (h :: hits))).length =
                (allowedIn h.key start (answers cfg (serve cfg ws h).2 hits)).length + 1 := by
              rw [answers, allowedIn, List.filter_cons_of_pos (by simp [hallowed, hsame, hstart]),
                List.length_cons, allowedIn]
            have hle := hanswer.mp hallowed
            omega
          · have hlen : (allowedIn h.key start (answers cfg ws (h :: hits))).length =
                (allowedIn h.key start (answers cfg (serve cfg ws h).2 hits)).length := by
              rw [answers, allowedIn, List.filter_cons_of_neg (by simp [hallowed]), allowedIn]
            have hgt := mt hanswer.mpr hallowed
            omega
        · -- another window
          rw [if_neg hstart] at hrest
          have hlen : (allowedIn h.key start (answers cfg ws (h :: hits))).length =
              (allowedIn h.key start (answers cfg (serve cfg ws h).2 hits)).length := by
            rw [answers, allowedIn, List.filter_cons_of_neg (by simp [hsame, hstart]), allowedIn]
          rw [hlen]
          cases hget : get ws h.key with
          | none =>
              rw [spent, hget]
              exact hrest
          | some w =>
              by_cases hold : w.start = start
              · -- the stored window is over, so nothing more is allowed in it
                have hnone : allowedIn h.key start (answers cfg (serve cfg ws h).2 hits) = [] := by
                  rw [allowedIn, List.filter_eq_nil_iff]
                  intro r hr hin
                  simp only [Bool.and_eq_true, decide_eq_true_eq] at hin
                  have hlater := (windows_follow (nodup_serve hd h) hclock' hb' hstay).1 r hr hin.1.1
                  have hr3 := hlater.2.2 _ hnext
                  rcases hstored w hget with heq | ⟨hend, _⟩
                  · rw [heq] at hold
                    exact hstart hold
                  · have hpos := cfg.window_pos h.key
                    grind
                rw [hnone, List.length_nil, spent, hget]
                dsimp only
                rw [if_pos hold]
                omega
              · rw [spent, hget]
                dsimp only
                rw [if_neg hold]
                omega
      · have hnext := get_serve_stays cfg hd (Ne.symm hkey) hkeep
        have hspent : spent cfg k (serve cfg ws h).2 start = spent cfg k ws start := by
          rw [spent, spent, hnext]
        have hlen : allowedIn k start (answers cfg ws (h :: hits)) =
            allowedIn k start (answers cfg (serve cfg ws h).2 hits) := by
          rw [answers, allowedIn, List.filter_cons_of_neg (by simp [hkey]),
            allowedIn]
        rw [hlen, ← hspent]
        exact hrest

/-! ## Spans -/

/-- Windows that follow each other meet a span of their length twice at most. -/
theorem length_le_two_mul (window t : ℕ) {n : ℕ} {served : List Served}
    (hfollow : served.Pairwise (Follow window))
    (hin : ∀ r ∈ served, r.start ≤ r.hit.now ∧ r.hit.now < r.start + window ∧ t ≤ r.hit.now ∧
      r.hit.now ≤ t + window)
    (hn : ∀ start, (served.filter fun r => r.start = start).length ≤ n) :
    served.length ≤ 2 * n := by
  cases served with
  | nil => exact Nat.zero_le _
  | cons r rest =>
      obtain ⟨hfirst, hrest⟩ := List.pairwise_cons.mp hfollow
      have hsplit := List.length_eq_length_filter_add (l := r :: rest) fun x => decide (x.start = r.start)
      have hone := hn r.start
      have htwo : ((r :: rest).filter fun x => !decide (x.start = r.start)).length ≤ n := by
        rw [List.filter_cons_of_neg (by simp)]
        cases hothers : rest.filter fun x => !decide (x.start = r.start) with
        | nil => exact Nat.zero_le _
        | cons r' others =>
            have hr' : r' ∈ rest.filter fun x => !decide (x.start = r.start) := by
              rw [hothers]
              exact List.mem_cons_self
            obtain ⟨hmem', hne'⟩ := List.mem_filter.mp hr'
            have hlate := hfirst r' hmem'
            have hpair := hrest.sublist (List.filter_sublist (p := fun x : Served =>
              !decide (x.start = r.start)))
            rw [hothers] at hpair
            -- a third window would begin after the span
            have hsame : ∀ x ∈ r' :: others, x.start = r'.start := by
              intro x hx
              cases List.mem_cons.mp hx with
              | inl hself => rw [hself]
              | inr hother =>
                  have hxrest : x ∈ rest := by
                    apply List.mem_of_mem_filter
                    rw [hothers]
                    exact hx
                  have hthird := (List.pairwise_cons.mp hpair).1 x hother
                  have hr := hin r List.mem_cons_self
                  have hx' := hin x (List.mem_cons_of_mem _ hxrest)
                  simp only [Bool.not_eq_true', decide_eq_false_iff_not] at hne'
                  unfold Follow at hlate hthird
                  omega
            calc
              (r' :: others).length = ((r' :: others).filter fun x => x.start = r'.start).length := by
                rw [List.filter_eq_self.mpr fun x hx => decide_eq_true (hsame x hx)]
              _ ≤ ((r :: rest).filter fun x => x.start = r'.start).length := by
                apply List.Sublist.length_le
                apply List.Sublist.filter
                rw [← hothers]
                exact List.filter_sublist.trans (List.sublist_cons_self _ _)
              _ ≤ n := hn _
      omega

theorem within_le (hd : (keys ws).Nodup) (hclock : Clock hits) (hb : Begun k ws hits)
    (hstay : Stays cfg k ws hits) (t : ℕ) :
    (allowedWithin k t (cfg.window k) (answers cfg ws hits)).length ≤ 2 * (cfg.limit k).toNat := by
  obtain ⟨hall, hpair⟩ := windows_follow hd hclock hb hstay
  apply length_le_two_mul (cfg.window k) t
  · apply List.Pairwise.sublist _ hpair
    rw [allowedWithin]
    apply List.monotone_filter_right
    intro r hr
    simp only [Bool.and_eq_true] at hr
    exact hr.1.1
  · intro r hr
    obtain ⟨hmem, hin⟩ := List.mem_filter.mp hr
    simp only [Bool.and_eq_true, decide_eq_true_eq] at hin
    obtain ⟨hbegun, hlasts, _⟩ := hall r hmem hin.1.1
    exact ⟨hbegun, hlasts, hin.2.1, hin.2.2⟩
  · intro start
    have hle := allowed_le hd hclock hb hstay start
    have hsub : ((allowedWithin k t (cfg.window k) (answers cfg ws hits)).filter
        fun r => r.start = start).length ≤
        (allowedIn k start (answers cfg ws hits)).length := by
      rw [allowedWithin, List.filter_filter, allowedIn]
      apply List.Sublist.length_le
      apply List.monotone_filter_right
      intro r hr
      simp only [Bool.and_eq_true] at hr ⊢
      exact ⟨hr.2.1, hr.1⟩
    omega

/-! ## After a refusal -/

/-- While no hit opens another window the key has the stored one or none. -/
theorem start_table {start : ℕ} (hd : (keys ws).Nodup) (hstart : ∀ w, get ws k = some w → w.start = start)
    (hsame : ∀ r ∈ answers cfg ws hits, r.hit.key = k → r.start = start) :
    ∀ w, get (table cfg ws hits) k = some w → w.start = start := by
  induction hits generalizing ws with
  | nil => exact hstart
  | cons h hits ih =>
      apply ih (nodup_serve hd h)
      · intro w hw
        by_cases hkey : h.key = k
        · subst hkey
          rw [get_serve_self cfg hd] at hw
          rw [← Option.some.inj hw]
          exact hsame _ List.mem_cons_self rfl
        · cases get_serve_of_ne cfg hd (Ne.symm hkey) with
          | inl hold => exact hstart w (hold ▸ hw)
          | inr hgone =>
              rw [hgone.2] at hw
              cases hw
      · exact fun r hr => hsame r (List.mem_cons_of_mem _ hr)

/-- The hit that waits as long as it was told is allowed, if no hit has opened a new window. -/
theorem allowed_after {h₀ : Hit} (hd : (keys ws).Nodup) (hb : Begun h₀.key ws (h₀ :: hits))
    (hkey : h.key = h₀.key) (hrefused : (serve cfg ws h₀).1.allowed = false)
    (hsame : ∀ r ∈ answers cfg (serve cfg ws h₀).2 hits, r.hit.key = h₀.key →
      r.start = (serve cfg ws h₀).1.start)
    (hwait : h₀.now + (serve cfg ws h₀).1.retryAfter * 1000000 ≤ h.now) :
    (serve cfg (table cfg (serve cfg ws h₀).2 hits) h).1.allowed = true := by
  obtain ⟨hstart, hbegun, hlasts, _⟩ := start_spec cfg hb
  have hretry := (serve_answer cfg ws h₀).2 hrefused
  have hentry : ∀ w, get (serve cfg ws h₀).2 h₀.key = some w →
      w.start = (serve cfg ws h₀).1.start := by
    intro w hw
    rw [get_serve_self cfg hd] at hw
    rw [← Option.some.inj hw, hstart]
  have hlater := start_table (nodup_serve hd h₀) hentry hsame
  rw [(serve_answer _ _ _).1]
  have hone := cfg.one_le_limit h.key
  rcases windowAt_cases (table cfg (serve cfg ws h₀).2 hits) h.now h.key (cfg.window h.key) with
    ⟨hfresh, _⟩ | ⟨w, hw, hrunning, _⟩
  · simp only [counted, hfresh]
    omega
  · -- the refused window is over
    rw [hkey] at hw hrunning
    have hw' : w.start = (counted cfg ws h₀).start := (hlater w hw).trans hstart
    rw [hw'] at hrunning
    rw [hretry] at hwait
    generalize (counted cfg ws h₀).start = s at hbegun hlasts hrunning hwait
    exfalso
    change (h.now : ℕ) - (s : ℕ) < cfg.window h₀.key at hrunning
    dsimp only [Time] at s hbegun hlasts hrunning hwait
    omega

theorem begun_table (cfg : Config) {early rest : List Hit} (hclock : Clock (early ++ rest))
    (k : Key) : Begun k (table cfg [] early) rest := by
  induction early using List.reverseRecOn generalizing rest with
  | nil =>
      intro w hw
      cases hw
  | append_singleton early h ih =>
      rw [List.append_assoc, List.singleton_append] at hclock
      rw [table_append]
      exact (ih hclock).serve cfg (nodup_table cfg early) (List.pairwise_append.mp hclock).2.1

/-- For any hits: the table is bounded and holds the key that was hit last; a key is evicted only
after as many other keys were hit since its last hit as the table holds; while it is not evicted, a
window of a key allows its limit, and any span of the length of a window twice the limit; and after
a refusal the hit that waits for `Retry-After` is allowed, if no hit in between has opened a new
window. -/
theorem rate_limiter (cfg : Config) :
    (∀ hits h, (keys (table cfg [] (hits ++ [h]))).length ≤ maxKeys ∧
      h.key ∈ keys (table cfg [] (hits ++ [h]))) ∧
    (∀ hits h k, Evicts cfg (table cfg [] hits) h k →
      ∃ early last late, hits = early ++ last :: late ∧ last.key = k ∧
        (∀ h' ∈ late ++ [h], h'.key ≠ k) ∧
        maxKeys ≤ ((late ++ [h]).map (·.key)).toFinset.card) ∧
    (∀ early hits k, Clock (early ++ hits) → Stays cfg k (table cfg [] early) hits →
      (∀ r ∈ answers cfg (table cfg [] early) hits, r.hit.key = k →
        r.start ≤ r.hit.now ∧ r.hit.now < r.start + cfg.window k) ∧
      (∀ start, ((allowedIn k start (answers cfg (table cfg [] early) hits)).length : ℤ) ≤
        cfg.limit k) ∧
      ∀ t, ((allowedWithin k t (cfg.window k)
        (answers cfg (table cfg [] early) hits)).length : ℤ) ≤ 2 * cfg.limit k) ∧
    ∀ early h₀ hits h, Clock (early ++ h₀ :: (hits ++ [h])) → h.key = h₀.key →
      (serve cfg (table cfg [] early) h₀).1.allowed = false →
      (∀ r ∈ answers cfg (table cfg [] (early ++ [h₀])) hits, r.hit.key = h₀.key →
        r.start = (serve cfg (table cfg [] early) h₀).1.start) →
      h₀.now + (serve cfg (table cfg [] early) h₀).1.retryAfter * 1000000 ≤ h.now →
      (serve cfg (table cfg [] (early ++ h₀ :: hits)) h).1.allowed = true := by
  constructor
  · intro hits h
    rw [table_append, keys_serve]
    constructor
    · exact length_touch_le _ _ _
    · exact mem_touch_self (by decide) _ _
  constructor
  · exact fun hits h k => evicted_after cfg hits
  constructor
  · intro early hits k hclock hstay
    have hd := nodup_table cfg early
    have hb := begun_table cfg hclock k
    have hclock' : Clock hits := (List.pairwise_append.mp hclock).2.1
    have hone := cfg.one_le_limit k
    constructor
    · intro r hr hkey
      obtain ⟨hbegun, hlasts, _⟩ := (windows_follow hd hclock' hb hstay).1 r hr hkey
      exact ⟨hbegun, hlasts⟩
    constructor
    · intro start
      have hle := allowed_le hd hclock' hb hstay start
      omega
    · intro t
      have hle := within_le hd hclock' hb hstay t
      omega
  · intro early h₀ hits h hclock hkey hrefused hsame hwait
    have hd := nodup_table cfg early
    have hb := begun_table cfg hclock h₀.key
    have hb' : Begun h₀.key (table cfg [] early) (h₀ :: hits) := by
      intro w hw h' hh'
      apply hb w hw h'
      rw [← List.cons_append]
      exact List.mem_append_left _ hh'
    have htable : table cfg [] (early ++ h₀ :: hits) =
        table cfg (serve cfg (table cfg [] early) h₀).2 hits := by
      rw [table, List.foldl_append]
      rfl
    rw [table_append] at hsame
    rw [htable]
    exact allowed_after hd hb' hkey hrefused hsame hwait

end

/-! ## A hit between the end of a window and the end of the wait -/

def onePerMinute : Config where
  limit := fun _ => 1
  window := fun _ => 60000000
  one_le_limit := fun _ => le_rfl
  window_pos := fun _ => by decide

def login (now : ℕ) : Hit := ⟨("login", "192.0.2.1"), now⟩

/-- The refused hit is told to wait sixty seconds. A hit just before that opens the next window, and
the first one after it is refused. -/
theorem a_waiting_hit_is_refused :
    ¬ ∀ (cfg : Config) (early : List Hit) (h₀ : Hit) (hits : List Hit) (h : Hit),
      Clock (early ++ h₀ :: (hits ++ [h])) → h.key = h₀.key →
      (serve cfg (table cfg [] early) h₀).1.allowed = false →
      (∀ h' ∈ hits, h'.key = h₀.key →
        h'.now < h₀.now + (serve cfg (table cfg [] early) h₀).1.retryAfter * 1000000) →
      h₀.now + (serve cfg (table cfg [] early) h₀).1.retryAfter * 1000000 ≤ h.now →
      (serve cfg (table cfg [] (early ++ h₀ :: hits)) h).1.allowed = true := by
  intro hall
  have hallowed := hall onePerMinute [login 0] (login 500000) [login 60200000] (login 60500000)
    (by unfold Clock; decide) rfl (by decide +kernel) (by decide +kernel) (by decide +kernel)
  revert hallowed
  decide +kernel

end AikoIsland.RateWindows
