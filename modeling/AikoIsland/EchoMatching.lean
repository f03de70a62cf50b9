import AikoIsland.Gateway
import AikoIsland.DeadlineMatching

/-!
# The echo store is an optimal matching

Any finite sequence of `mark_sent` and `is_own_echo` calls, with clock readings
that do not decrease. The calls of one key are answered as if the others were not
there. Each call that answers true has consumed one mark of its key that was less
than the TTL old, no mark is consumed twice, and what is left in the store are
the marks that are neither consumed nor expired. The true answers of a key are as
many as the pairs of any one-to-one matching of its marks with later checks.

The store keeps the marks in the order in which they were made, so the one at the
front of a key runs out first: consumption is earliest first. A check without a
username reads no clock.
-/
namespace AikoIsland.EchoMatching
open Tables Gateway DeadlineMatching

/-! ## Calls on the store -/

inductive EchoCall where
  | markSent (now : Time) (key : EchoKey)
  | isOwnEcho (now : Time) (aikoChannel : PyStr) (aikoUsername : Option PyStr) (body : PyStr)
  deriving DecidableEq, Repr

namespace EchoCall

def key : EchoCall → Option EchoKey
  | markSent _ key => some key
  | isOwnEcho _ aikoChannel aikoUsername body => aikoUsername.map fun u => ⟨aikoChannel, u, body⟩

/-- The clock reading of the call, if it makes one. -/
def reading : EchoCall → Option Time
  | markSent now _ => some now
  | isOwnEcho now _ aikoUsername _ => aikoUsername.map fun _ => now

/-- The answer, false for a mark, and the store afterwards. -/
def run : EchoCall → List EchoMark → Bool × List EchoMark
  | markSent now key, seen => (false, Gateway.markSent now key seen)
  | isOwnEcho now aikoChannel aikoUsername body, seen =>
      Gateway.isOwnEcho now aikoChannel aikoUsername body seen

end EchoCall

def storeFrom (seen : List EchoMark) (calls : List EchoCall) : List EchoMark :=
  calls.foldl (fun seen c => (c.run seen).2) seen

/-- Every call with its answer. -/
def trace : List EchoMark → List EchoCall → List (EchoCall × Bool)
  | _, [] => []
  | seen, c :: calls => (c, (c.run seen).1) :: trace (c.run seen).2 calls

/-- How many checks of the key answer true. -/
def suppressed (key : EchoKey) (calls : List EchoCall) : ℕ :=
  (trace [] calls).countP fun x => x.1.key = some key && x.2

theorem trace_append (seen : List EchoMark) (calls calls' : List EchoCall) :
    trace seen (calls ++ calls') = trace seen calls ++ trace (storeFrom seen calls) calls' := by
  induction calls generalizing seen with
  | nil => rfl
  | cons c calls ih => simp [trace, storeFrom, ih]

@[simp] theorem length_trace (seen : List EchoMark) (calls : List EchoCall) :
    (trace seen calls).length = calls.length := by
  induction calls generalizing seen with
  | nil => rfl
  | cons c calls ih => simp [trace, ih]

theorem storeFrom_append (seen : List EchoMark) (calls : List EchoCall) (c : EchoCall) :
    storeFrom seen (calls ++ [c]) = (c.run (storeFrom seen calls)).2 := by
  simp [storeFrom]

/-! ## Keys do not interfere -/

/-- The marks of a key that outlive the time. -/
def liveOf (key : EchoKey) (t : Time) (seen : List EchoMark) : List EchoMark :=
  seen.filter fun m => m.key = key && t < m.expiresAt

/-- From the time on, the two stores agree on the key. -/
def Agree (key : EchoKey) (t : Time) (seen seen' : List EchoMark) : Prop :=
  ∀ s, t ≤ s → liveOf key s seen = liveOf key s seen'

theorem liveOf_evict (key : EchoKey) {t s : Time} (h : t ≤ s) (seen : List EchoMark) :
    liveOf key s (evict t seen) = liveOf key s seen := by
  rw [liveOf, evict, List.filter_filter]
  apply List.filter_congr
  intro m _
  by_cases hm : s < m.expiresAt
  · have ht : t < m.expiresAt := lt_of_le_of_lt h hm
    simp [hm, ht]
  · simp [hm]

/-- A check of another key leaves the marks of this one. -/
theorem liveOf_eraseP_ne {key key' : EchoKey} (h : key' ≠ key) (s : Time)
    (seen : List EchoMark) :
    liveOf key s (seen.eraseP fun m => m.key = key') = liveOf key s seen := by
  induction seen with
  | nil => rfl
  | cons m seen ih =>
      by_cases hm : m.key = key'
      · have hne : m.key ≠ key := hm ▸ h
        simp [liveOf, hm, h]
      · simp only [liveOf] at ih
        simp [liveOf, hm, List.filter_cons, ih]

/-- A check of the key takes the oldest of the marks it finds alive. -/
theorem liveOf_eraseP (key : EchoKey) {t s : Time} (h : t ≤ s) (seen : List EchoMark) :
    liveOf key s ((evict t seen).eraseP fun m => m.key = key) =
      ((liveOf key t seen).tail).filter fun m => s < m.expiresAt := by
  induction seen with
  | nil => rfl
  | cons m seen ih =>
      by_cases ht : t < m.expiresAt
      · by_cases hm : m.key = key
        · have htail : liveOf key s (evict t seen) =
              (liveOf key t seen).filter fun m => s < m.expiresAt := by
            rw [liveOf_evict key h, liveOf, liveOf, List.filter_filter]
            apply List.filter_congr
            intro m _
            by_cases hs : s < m.expiresAt
            · have ht : t < m.expiresAt := lt_of_le_of_lt h hs
              simp [hs, ht]
            · simp [hs]
          simpa [evict, liveOf, ht, hm] using htail
        · simpa [evict, liveOf, ht, hm] using ih
      · simpa [evict, liveOf, ht] using ih

theorem any_evict_eq (key : EchoKey) (t : Time) (seen : List EchoMark) :
    ((evict t seen).any fun m => m.key = key) = !(liveOf key t seen).isEmpty := by
  induction seen with
  | nil => rfl
  | cons m seen ih =>
      by_cases ht : t < m.expiresAt
      · by_cases hm : m.key = key
        · simp [evict, liveOf, ht, hm]
        · simpa [evict, liveOf, ht, hm] using ih
      · simpa [evict, liveOf, ht] using ih

/-- A call of another key changes nothing that this key sees from then on. -/
theorem agree_other {key : EchoKey} {c : EchoCall} {t : Time} (hkey : c.key ≠ some key)
    (ht : ∀ now, c.reading = some now → t = now) {seen seen' : List EchoMark}
    (h : Agree key t seen seen') : Agree key t (c.run seen).2 seen' := by
  intro s hs
  rw [← h s hs]
  cases c with
  | markSent now key' =>
      obtain rfl := ht now rfl
      have hne : key' ≠ key := fun he => hkey (congrArg some he)
      have hnew : liveOf key s [⟨key', t + ttl⟩] = [] := by simp [liveOf, hne]
      have hsplit : liveOf key s (evict t seen ++ [⟨key', t + ttl⟩]) =
          liveOf key s (evict t seen) ++ liveOf key s [⟨key', t + ttl⟩] := by
        simp [liveOf]
      exact hsplit.trans (by rw [hnew, List.append_nil, liveOf_evict key hs])
  | isOwnEcho now aikoChannel aikoUsername body =>
      cases aikoUsername with
      | none => rfl
      | some u =>
          obtain rfl := ht now rfl
          have hne : (⟨aikoChannel, u, body⟩ : EchoKey) ≠ key := fun he => hkey (congrArg some he)
          exact (liveOf_eraseP_ne hne s _).trans (liveOf_evict key hs seen)

/-- A call of the key answers the same on both stores and keeps them in agreement. -/
theorem agree_own {key : EchoKey} {c : EchoCall} {t now : Time} (hkey : c.key = some key)
    (hnow : c.reading = some now) (ht : t ≤ now) {seen seen' : List EchoMark}
    (h : Agree key t seen seen') :
    (c.run seen).1 = (c.run seen').1 ∧ Agree key now (c.run seen).2 (c.run seen').2 := by
  cases c with
  | markSent now' key' =>
      obtain rfl : now' = now := Option.some.inj hnow
      refine ⟨rfl, fun s hs => ?_⟩
      have hsplit : ∀ seen, liveOf key s (Gateway.markSent now' key' seen) =
          liveOf key s seen ++ liveOf key s [⟨key', now' + ttl⟩] := by
        intro seen
        rw [← liveOf_evict key hs seen]
        simp [liveOf, Gateway.markSent]
      exact (hsplit seen).trans ((congrArg (· ++ _) (h s (ht.trans hs))).trans (hsplit seen').symm)
  | isOwnEcho now' aikoChannel aikoUsername body =>
      cases aikoUsername with
      | none => cases hkey
      | some u =>
          obtain rfl : now' = now := Option.some.inj hnow
          obtain rfl : (⟨aikoChannel, u, body⟩ : EchoKey) = key := Option.some.inj hkey
          have hlive := h now' ht
          constructor
          · exact (any_evict_eq _ now' seen).trans ((congrArg (fun l => !l.isEmpty) hlive).trans
              (any_evict_eq _ now' seen').symm)
          · intro s hs
            have hleft := liveOf_eraseP (⟨aikoChannel, u, body⟩ : EchoKey) hs seen
            rw [hlive, ← liveOf_eraseP _ hs seen'] at hleft
            exact hleft

/-- Readings that do not decrease. -/
def Clocked (calls : List EchoCall) : Prop := (calls.filterMap EchoCall.reading).Pairwise (· ≤ ·)

theorem clocked_cons {c : EchoCall} {calls : List EchoCall} (h : Clocked (c :: calls)) :
    Clocked calls ∧ ∀ now, c.reading = some now → ∀ s ∈ calls.filterMap EchoCall.reading, now ≤ s := by
  unfold Clocked at h
  cases hr : c.reading with
  | none =>
      rw [List.filterMap_cons_none hr] at h
      exact ⟨h, fun now hnow => by cases hnow⟩
  | some now =>
      rw [List.filterMap_cons_some hr, List.pairwise_cons] at h
      exact ⟨h.2, fun now' hnow => Option.some.inj hnow ▸ h.1⟩

/-- The calls of a key get the answers that they get without the other calls. -/
theorem trace_filter (key : EchoKey) (calls : List EchoCall) (hclock : Clocked calls) :
    ∀ (t : Time) (seen seen' : List EchoMark), Agree key t seen seen' →
      (∀ s ∈ calls.filterMap EchoCall.reading, t ≤ s) →
      (trace seen calls).filter (fun x => x.1.key = some key) =
        trace seen' (calls.filter fun c => c.key = some key) := by
  induction calls with
  | nil => exact fun _ _ _ _ _ => rfl
  | cons c calls ih =>
      intro t seen seen' hagree ht
      obtain ⟨hrest, hlater⟩ := clocked_cons hclock
      by_cases hkey : c.key = some key
      · obtain ⟨now, hnow⟩ : ∃ now, c.reading = some now := by
          cases c with
          | markSent now key' => exact ⟨now, rfl⟩
          | isOwnEcho now aikoChannel aikoUsername body =>
              cases aikoUsername with
              | none => cases hkey
              | some u => exact ⟨now, rfl⟩
        have htnow : t ≤ now := ht now (by simp [List.filterMap_cons_some hnow])
        obtain ⟨hans, hnext⟩ := agree_own hkey hnow htnow hagree
        have hrec := ih hrest now _ _ hnext (hlater now hnow)
        simp [trace, hkey, hans, hrec]
      · -- the other key's reading is the time from which the stores agree
        have hskip : ∃ t', Agree key t' (c.run seen).2 seen' ∧
            ∀ s ∈ calls.filterMap EchoCall.reading, t' ≤ s := by
          cases hr : c.reading with
          | none =>
              refine ⟨t, agree_other hkey (fun now hnow => ?_) hagree, fun s hs => ht s ?_⟩
              · rw [hr] at hnow
                cases hnow
              · rw [List.filterMap_cons_none hr]
                exact hs
          | some now =>
              have htnow : t ≤ now := ht now (by simp [List.filterMap_cons_some hr])
              have hlate : Agree key now seen seen' := fun s hs => hagree s (htnow.trans hs)
              exact ⟨now, agree_other hkey (fun now' h' => by simpa [hr] using h') hlate,
                hlater now hr⟩
        obtain ⟨t', hnext, hle⟩ := hskip
        have hrec := ih hrest t' _ _ hnext hle
        simp [trace, hkey, hrec]

/-! ## Marks and checks by position -/

def markAt (calls : List EchoCall) (i : ℕ) : Option EchoMark :=
  match calls[i]? with
  | some (.markSent now key) => some ⟨key, now + ttl⟩
  | _ => none

def checkAt (calls : List EchoCall) (j : ℕ) : Option (EchoKey × Time) :=
  match calls[j]? with
  | some (.isOwnEcho now aikoChannel (some u) body) => some (⟨aikoChannel, u, body⟩, now)
  | _ => none

/-- The marks and checks of one key. -/
def board (key : EchoKey) (calls : List EchoCall) : Board Time where
  deadline i := ((markAt calls i).filter fun m => m.key = key).map (·.expiresAt)
  request j := ((checkAt calls j).filter fun c => c.1 = key).map (·.2)

theorem deadline_eq {key : EchoKey} {calls : List EchoCall} {i : ℕ} {e : Time} :
    (board key calls).deadline i = some e ↔
      ∃ m, markAt calls i = some m ∧ m.key = key ∧ m.expiresAt = e := by
  simp only [board, Option.map_eq_some_iff, Option.filter_eq_some_iff, decide_eq_true_eq]
  exact ⟨fun ⟨m, ⟨hm, hk⟩, he⟩ => ⟨m, hm, hk, he⟩, fun ⟨m, hm, hk, he⟩ => ⟨m, ⟨hm, hk⟩, he⟩⟩

theorem request_eq {key : EchoKey} {calls : List EchoCall} {j : ℕ} {t : Time} :
    (board key calls).request j = some t ↔ checkAt calls j = some (key, t) := by
  simp only [board, Option.map_eq_some_iff, Option.filter_eq_some_iff, decide_eq_true_eq]
  constructor
  · rintro ⟨⟨k, s⟩, ⟨hc, rfl⟩, rfl⟩
    exact hc
  · exact fun hc => ⟨(key, t), ⟨hc, rfl⟩, rfl⟩

theorem markAt_append {calls : List EchoCall} {i : ℕ} (h : i < calls.length) (c : EchoCall) :
    markAt (calls ++ [c]) i = markAt calls i := by
  simp [markAt, List.getElem?_append_left h]

theorem checkAt_append {calls : List EchoCall} {j : ℕ} (h : j < calls.length) (c : EchoCall) :
    checkAt (calls ++ [c]) j = checkAt calls j := by
  simp [checkAt, List.getElem?_append_left h]

theorem lt_of_markAt {calls : List EchoCall} {i : ℕ} {m : EchoMark}
    (h : markAt calls i = some m) : i < calls.length := by
  by_contra hlt
  simp [markAt, List.getElem?_eq_none (not_lt.mp hlt)] at h

theorem lt_of_checkAt {calls : List EchoCall} {j : ℕ} {x : EchoKey × Time}
    (h : checkAt calls j = some x) : j < calls.length := by
  by_contra hlt
  simp [checkAt, List.getElem?_eq_none (not_lt.mp hlt)] at h

/-! ## What the checks consume -/

/-- A mark among the first `n` calls that none of them has consumed and whose expiry none of
their readings has reached. -/
def Outstanding (calls : List EchoCall) (G : Finset (ℕ × ℕ)) (n : ℕ) (x : ℕ × EchoMark) : Prop :=
  x.1 < n ∧ markAt calls x.1 = some x.2 ∧ (∀ p ∈ G, p.1 = x.1 → n ≤ p.2) ∧
    ∀ t ∈ (calls.take n).filterMap EchoCall.reading, t < x.2.expiresAt

/-- The store holds the outstanding marks, oldest first. -/
def Reflects (calls : List EchoCall) (G : Finset (ℕ × ℕ)) (n : ℕ) (seen : List EchoMark) : Prop :=
  ∃ marks : List (ℕ × EchoMark), marks.Pairwise (fun x y => x.1 < y.1) ∧
    (∀ x, x ∈ marks ↔ Outstanding calls G n x) ∧ seen = marks.map Prod.snd

/-- Pairs of a mark and the check that consumed it. -/
structure Consumption (calls : List EchoCall) (G : Finset (ℕ × ℕ)) : Prop where
  pairs : ∀ p ∈ G, p.1 < p.2 ∧ ∃ m t, markAt calls p.1 = some m ∧
    checkAt calls p.2 = some (m.key, t) ∧ t < m.expiresAt
  once : ∀ p ∈ G, ∀ q ∈ G, p.1 = q.1 → p = q
  one : ∀ p ∈ G, ∀ q ∈ G, p.2 = q.2 → p = q
  answers : ∀ j c b, (trace [] calls)[j]? = some (c, b) → (b = true ↔ ∃ p ∈ G, p.2 = j)
  store : ∀ n ≤ calls.length, Reflects calls G n (storeFrom [] (calls.take n))

/-- Consumption in the order of the marks. -/
structure Ledger (calls : List EchoCall) (G : Finset (ℕ × ℕ)) : Prop
    extends Consumption calls G where
  oldest : ∀ i j m t, i < j → markAt calls i = some m → checkAt calls j = some (m.key, t) →
    t < m.expiresAt → (∀ p ∈ G, p.1 = i → j ≤ p.2) →
      ∃ p ∈ G, p.2 = j ∧ ∃ m', markAt calls p.1 = some m' ∧ m'.key = m.key ∧
        m'.expiresAt ≤ m.expiresAt

section
variable {calls : List EchoCall} {G G' : Finset (ℕ × ℕ)} {c : EchoCall} {x : ℕ × EchoMark}

theorem Consumption.lt_length (h : Consumption calls G) {p : ℕ × ℕ} (hp : p ∈ G) :
    p.1 < calls.length ∧ p.2 < calls.length := by
  obtain ⟨_, m, t, hm, hc, _⟩ := h.pairs p hp
  exact ⟨lt_of_markAt hm, lt_of_checkAt hc⟩

/-- After all the calls: an unconsumed mark that every reading has left alive. -/
theorem outstanding_all (hlt : ∀ p ∈ G, p.2 < calls.length) :
    Outstanding calls G calls.length x ↔ markAt calls x.1 = some x.2 ∧ (∀ p ∈ G, p.1 ≠ x.1) ∧
      ∀ t ∈ calls.filterMap EchoCall.reading, t < x.2.expiresAt := by
  rw [Outstanding, List.take_length]
  constructor
  · rintro ⟨_, hm, hfree, hlive⟩
    refine ⟨hm, fun p hp he => ?_, hlive⟩
    have hle := hfree p hp he
    have hl := hlt p hp
    omega
  · rintro ⟨hm, hfree, hlive⟩
    exact ⟨lt_of_markAt hm, hm, fun p hp he => absurd he (hfree p hp), hlive⟩

/-- Later calls do not change what was outstanding after the first `n`. -/
theorem outstanding_append {n : ℕ} (hn : n ≤ calls.length) (hsub : G ⊆ G')
    (hnew : ∀ p ∈ G', p ∈ G ∨ p.2 = calls.length) :
    Outstanding (calls ++ [c]) G' n x ↔ Outstanding calls G n x := by
  unfold Outstanding
  rw [List.take_append_of_le_length hn]
  apply and_congr_right
  intro hx
  rw [markAt_append (by omega)]
  apply and_congr_right
  intro _
  apply and_congr_left
  intro _
  constructor
  · exact fun h p hp => h p (hsub hp)
  · intro h p hp he
    rcases hnew p hp with hold | hlast
    · exact h p hold he
    · omega

theorem storeFrom_take_append {n : ℕ} (hn : n ≤ calls.length) :
    storeFrom [] ((calls ++ [c]).take n) = storeFrom [] (calls.take n) := by
  rw [List.take_append_of_le_length hn]

/-- What the last call has to do for the ledger to go on. -/
theorem Ledger.snoc (h : Ledger calls G) (hsub : G ⊆ G')
    (hnew : ∀ p ∈ G', p ∈ G ∨ p.2 = calls.length)
    (hpairs : ∀ p ∈ G', p.2 = calls.length → p.1 < p.2 ∧ (∀ q ∈ G, q.1 ≠ p.1) ∧
      ∃ m t, markAt calls p.1 = some m ∧ checkAt (calls ++ [c]) p.2 = some (m.key, t) ∧
        t < m.expiresAt)
    (hone : ∀ p ∈ G', ∀ q ∈ G', p.2 = calls.length → q.2 = calls.length → p = q)
    (hanswer : (c.run (storeFrom [] calls)).1 = true ↔ ∃ p ∈ G', p.2 = calls.length)
    (hstore : Reflects (calls ++ [c]) G' (calls.length + 1) (c.run (storeFrom [] calls)).2)
    (holdest : ∀ i m t, markAt calls i = some m →
      checkAt (calls ++ [c]) calls.length = some (m.key, t) → t < m.expiresAt →
      (∀ p ∈ G, p.1 ≠ i) → ∃ p ∈ G', p.2 = calls.length ∧ ∃ m', markAt calls p.1 = some m' ∧
        m'.key = m.key ∧ m'.expiresAt ≤ m.expiresAt) :
    Ledger (calls ++ [c]) G' := by
  have hlen : (calls ++ [c]).length = calls.length + 1 := by simp
  have hold : ∀ p ∈ G, p.1 < calls.length ∧ p.2 < calls.length :=
    fun p hp => h.toConsumption.lt_length hp
  -- a pair at an earlier position is an old pair
  have hin : ∀ p ∈ G', p.2 ≠ calls.length → p ∈ G := by
    intro p hp hne
    rcases hnew p hp with hp | hlast
    · exact hp
    · exact absurd hlast hne
  refine { pairs := ?_, once := ?_, one := ?_, answers := ?_, store := ?_, oldest := ?_ }
  · intro p hp
    by_cases hlast : p.2 = calls.length
    · obtain ⟨hlt, _, m, t, hm, hc, ht⟩ := hpairs p hp hlast
      exact ⟨hlt, m, t, by rw [markAt_append (lt_of_markAt hm), hm], hc, ht⟩
    · have hpG := hin p hp hlast
      obtain ⟨hlt, m, t, hm, hc, ht⟩ := h.pairs p hpG
      exact ⟨hlt, m, t, by rw [markAt_append (hold p hpG).1, hm],
        by rw [checkAt_append (hold p hpG).2, hc], ht⟩
  · intro p hp q hq he
    by_cases hpl : p.2 = calls.length
    · by_cases hql : q.2 = calls.length
      · exact hone p hp q hq hpl hql
      · exact absurd he.symm ((hpairs p hp hpl).2.1 q (hin q hq hql))
    · by_cases hql : q.2 = calls.length
      · exact absurd he ((hpairs q hq hql).2.1 p (hin p hp hpl))
      · exact h.once p (hin p hp hpl) q (hin q hq hql) he
  · intro p hp q hq he
    by_cases hpl : p.2 = calls.length
    · exact hone p hp q hq hpl (he ▸ hpl)
    · exact h.one p (hin p hp hpl) q (hin q hq (he ▸ hpl)) he
  · intro j d b hj
    rw [trace_append] at hj
    by_cases hlast : j = calls.length
    · subst hlast
      rw [List.getElem?_append_right (by simp)] at hj
      simp only [length_trace, Nat.sub_self, trace, List.getElem?_cons_zero, Option.some.injEq,
        Prod.mk.injEq] at hj
      rw [← hj.2]
      exact hanswer
    · have hlt : j < calls.length := by
        obtain ⟨hb, _⟩ := List.getElem?_eq_some_iff.mp hj
        simp [trace] at hb
        omega
      rw [List.getElem?_append_left (by simpa using hlt)] at hj
      rw [h.answers j d b hj]
      constructor
      · rintro ⟨p, hp, he⟩
        exact ⟨p, hsub hp, he⟩
      · rintro ⟨p, hp, he⟩
        exact ⟨p, hin p hp (by omega), he⟩
  · intro n hn
    by_cases hlast : n = calls.length + 1
    · subst hlast
      rw [← hlen, List.take_length, storeFrom_append, hlen]
      exact hstore
    · have hle : n ≤ calls.length := by omega
      obtain ⟨marks, hsorted, hmem, hseen⟩ := h.store n hle
      refine ⟨marks, hsorted, fun x => ?_, by rw [storeFrom_take_append hle, hseen]⟩
      rw [hmem, outstanding_append hle hsub hnew]
  · intro i j m t hij hm hc ht hfree
    have hj : j < calls.length + 1 := hlen ▸ lt_of_checkAt hc
    rw [markAt_append (by omega)] at hm
    by_cases hlast : j = calls.length
    · subst hlast
      have hunused : ∀ p ∈ G, p.1 ≠ i := by
        intro p hp he
        have hle := hfree p (hsub hp) he
        have hlt := (hold p hp).2
        omega
      obtain ⟨p, hp, hpl, m', hm', hrest⟩ := holdest i m t hm hc ht hunused
      exact ⟨p, hp, hpl, m', by rw [markAt_append (lt_of_markAt hm'), hm'], hrest⟩
    · rw [checkAt_append (by omega)] at hc
      obtain ⟨p, hp, hpj, m', hm', hrest⟩ :=
        h.oldest i j m t hij hm hc ht fun p hp => hfree p (hsub hp)
      exact ⟨p, hsub hp, hpj, m', by rw [markAt_append (lt_of_markAt hm'), hm'], hrest⟩

/-- A call that is no mark adds none. -/
theorem markAt_snoc_check (hc : ∀ now key, c ≠ .markSent now key) (i : ℕ) :
    markAt (calls ++ [c]) i = markAt calls i := by
  by_cases hi : i < calls.length
  · exact markAt_append hi c
  · have hnone : markAt calls i = none := by
      simp [markAt, List.getElem?_eq_none (not_lt.mp hi)]
    rw [hnone]
    by_cases hlast : i = calls.length
    · subst hlast
      cases c with
      | markSent now key => exact absurd rfl (hc now key)
      | isOwnEcho now aikoChannel aikoUsername body => simp [markAt]
    · simp [markAt, List.getElem?_eq_none (l := calls ++ [c]) (i := i) (by simp; omega)]

theorem markAt_snoc_mark (now : Time) (key : EchoKey) (i : ℕ) (m : EchoMark) :
    markAt (calls ++ [.markSent now key]) i = some m ↔
      markAt calls i = some m ∨ i = calls.length ∧ m = ⟨key, now + ttl⟩ := by
  by_cases hi : i < calls.length
  · rw [markAt_append hi]
    have hne : i ≠ calls.length := by omega
    simp [hne]
  · have hnone : markAt calls i = none := by
      simp [markAt, List.getElem?_eq_none (not_lt.mp hi)]
    rw [hnone]
    by_cases hlast : i = calls.length
    · subst hlast
      simp [markAt, eq_comm]
    · simp [markAt, hlast,
        List.getElem?_eq_none (l := calls ++ [.markSent now key]) (i := i) (by simp; omega)]

/-- Earlier readings are at most the reading of the last call. -/
theorem Clocked.le_last (h : Clocked (calls ++ [c])) {now : Time} (hnow : c.reading = some now) :
    ∀ t ∈ calls.filterMap EchoCall.reading, t ≤ now := by
  intro t ht
  have hpair : (calls.filterMap EchoCall.reading ++ [now]).Pairwise (· ≤ ·) := by
    simpa [Clocked, List.filterMap_append, hnow] using h
  exact (List.pairwise_append.mp hpair).2.2 t ht now (by simp)

theorem Clocked.init (h : Clocked (calls ++ [c])) : Clocked calls := by
  rw [Clocked, List.filterMap_append, List.pairwise_append] at h
  exact h.1

/-- A later mark expires no earlier. -/
theorem Clocked.expiry_mono (h : Clocked calls) {i j : ℕ} {m m' : EchoMark}
    (hm : markAt calls i = some m) (hm' : markAt calls j = some m') (hij : i ≤ j) :
    m.expiresAt ≤ m'.expiresAt := by
  rcases hij.lt_or_eq with hlt | rfl
  · have hpair := List.pairwise_iff_getElem.mp (List.pairwise_filterMap.mp h) i j
      (lt_of_markAt hm) (lt_of_markAt hm') hlt
    unfold markAt at hm hm'
    split at hm
    · next now key hi =>
        split at hm'
        · next now' key' hj =>
            obtain rfl := Option.some.inj hm
            obtain rfl := Option.some.inj hm'
            obtain ⟨_, hgi⟩ := List.getElem?_eq_some_iff.mp hi
            obtain ⟨_, hgj⟩ := List.getElem?_eq_some_iff.mp hj
            have hle : now ≤ now' := hpair now (by rw [hgi]; rfl) now' (by rw [hgj]; rfl)
            exact Nat.add_le_add_right hle ttl
        · cases hm'
    · cases hm
  · rw [hm] at hm'
    exact (Option.some.inj hm' ▸ le_rfl)

theorem evict_map (now : Time) (marks : List (ℕ × EchoMark)) :
    evict now (marks.map Prod.snd) =
      (marks.filter fun x => now < x.2.expiresAt).map Prod.snd := by
  simp [evict, List.filter_map, Function.comp_def]

/-! ## One call -/

theorem Ledger.snoc_mark (h : Ledger calls G) {now : Time} {key : EchoKey}
    (hclock : Clocked (calls ++ [.markSent now key])) : Ledger (calls ++ [.markSent now key]) G := by
  have hlt : ∀ p ∈ G, p.1 < calls.length ∧ p.2 < calls.length :=
    fun p hp => h.toConsumption.lt_length hp
  have hno : ∀ p ∈ G, p.2 ≠ calls.length := fun p hp he => by
    have hl := (hlt p hp).2
    omega
  apply h.snoc (fun p hp => hp) (fun p hp => Or.inl hp)
  · exact fun p hp he => absurd he (hno p hp)
  · exact fun p hp q hq he => absurd he (hno p hp)
  · constructor
    · intro hf
      cases hf
    · rintro ⟨p, hp, he⟩
      exact absurd he (hno p hp)
  · obtain ⟨marks, hsorted, hmem, hseen⟩ := h.store calls.length le_rfl
    rw [List.take_length] at hseen
    refine ⟨(marks.filter fun x => now < x.2.expiresAt) ++ [(calls.length, ⟨key, now + ttl⟩)],
      ?_, fun x => ?_, ?_⟩
    · rw [List.pairwise_append]
      refine ⟨hsorted.filter _, by simp, fun x hx y hy => ?_⟩
      rw [List.mem_singleton] at hy
      rw [hy]
      exact ((hmem x).mp (List.mem_of_mem_filter hx)).1
    · have hlen : (calls ++ [EchoCall.markSent now key]).length = calls.length + 1 := by simp
      rw [← hlen, outstanding_all fun p hp => by rw [hlen]; exact Nat.lt_succ_of_lt (hlt p hp).2,
        markAt_snoc_mark, List.mem_append, List.mem_filter, hmem,
        outstanding_all fun p hp => (hlt p hp).2]
      simp only [List.filterMap_append, List.mem_append, decide_eq_true_eq, List.mem_singleton]
      constructor
      · rintro (⟨⟨hm, hfree, hlive⟩, hnow⟩ | rfl)
        · refine ⟨Or.inl hm, hfree, fun t ht => ?_⟩
          rcases ht with ht | ht
          · exact hlive t ht
          · simp [EchoCall.reading] at ht
            exact ht ▸ hnow
        · refine ⟨Or.inr ⟨rfl, rfl⟩, fun p hp => (hlt p hp).1.ne, fun t ht => ?_⟩
          have hle : t ≤ now := by
            rcases ht with ht | ht
            · exact hclock.le_last rfl t ht
            · simp [EchoCall.reading] at ht
              exact ht.le
          exact Nat.lt_of_le_of_lt hle (Nat.lt_add_of_pos_right (by decide))
      · rintro ⟨hm | ⟨hi, hm⟩, hfree, hlive⟩
        · left
          exact ⟨⟨hm, hfree, fun t ht => hlive t (Or.inl ht)⟩,
            hlive now (Or.inr (by simp [EchoCall.reading]))⟩
        · right
          exact Prod.ext hi hm
    · rw [List.map_append, ← evict_map, ← hseen]
      rfl
  · intro i m t _ hc
    simp [checkAt] at hc

/-- After a check: what was outstanding, still alive and not consumed by now. -/
theorem outstanding_snoc_check (hc : ∀ now key, c ≠ .markSent now key)
    (hlt : ∀ p ∈ G', p.2 ≤ calls.length) :
    Outstanding (calls ++ [c]) G' (calls.length + 1) x ↔
      markAt calls x.1 = some x.2 ∧ (∀ p ∈ G', p.1 ≠ x.1) ∧
        (∀ t ∈ calls.filterMap EchoCall.reading, t < x.2.expiresAt) ∧
        ∀ now, c.reading = some now → now < x.2.expiresAt := by
  have hlen : (calls ++ [c]).length = calls.length + 1 := by simp
  rw [← hlen, outstanding_all fun p hp => by rw [hlen]; exact Nat.lt_succ_of_le (hlt p hp),
    markAt_snoc_check hc, List.filterMap_append]
  apply and_congr_right
  intro _
  apply and_congr_right
  intro _
  constructor
  · intro h
    refine ⟨fun t ht => h t (List.mem_append_left _ ht), fun now hnow => ?_⟩
    exact h now (List.mem_append_right _ (by simp [hnow]))
  · rintro ⟨hold, hlast⟩ t ht
    rcases List.mem_append.mp ht with ht | ht
    · exact hold t ht
    · cases hr : c.reading with
      | none => simp [hr] at ht
      | some now =>
          rw [List.filterMap_cons_some hr, List.filterMap_nil, List.mem_singleton] at ht
          exact ht ▸ hlast now hr

/-- A check that consumes nothing. -/
theorem Ledger.snoc_unanswered (h : Ledger calls G)
    (hanswer : (c.run (storeFrom [] calls)).1 = false)
    (hstore : Reflects (calls ++ [c]) G (calls.length + 1) (c.run (storeFrom [] calls)).2)
    (hnothing : ∀ i m t, markAt calls i = some m →
      checkAt (calls ++ [c]) calls.length = some (m.key, t) → t < m.expiresAt →
      (∀ p ∈ G, p.1 ≠ i) → False) : Ledger (calls ++ [c]) G := by
  have hno : ∀ p ∈ G, p.2 ≠ calls.length := fun p hp he => by
    have hl := (h.toConsumption.lt_length hp).2
    omega
  apply h.snoc (fun p hp => hp) (fun p hp => Or.inl hp)
  · exact fun p hp he => absurd he (hno p hp)
  · exact fun p hp q hq he => absurd he (hno p hp)
  · rw [hanswer]
    constructor
    · intro hf
      cases hf
    · rintro ⟨p, hp, he⟩
      exact absurd he (hno p hp)
  · exact hstore
  · exact fun i m t hm hk ht hfree => (hnothing i m t hm hk ht hfree).elim

theorem Ledger.snoc_nameless (h : Ledger calls G) (now : Time) (aikoChannel body : PyStr) :
    Ledger (calls ++ [.isOwnEcho now aikoChannel none body]) G := by
  apply h.snoc_unanswered rfl
  · obtain ⟨marks, hsorted, hmem, hseen⟩ := h.store calls.length le_rfl
    rw [List.take_length] at hseen
    refine ⟨marks, hsorted, fun x => ?_, hseen⟩
    rw [outstanding_snoc_check (fun _ _ he => by cases he)
        fun p hp => (h.toConsumption.lt_length hp).2.le, hmem,
      outstanding_all fun p hp => (h.toConsumption.lt_length hp).2]
    simp [EchoCall.reading]
  · intro i m t _ hk
    simp [checkAt] at hk

theorem checkAt_snoc (now : Time) (aikoChannel u body : PyStr) :
    checkAt (calls ++ [.isOwnEcho now aikoChannel (some u) body]) calls.length =
      some (⟨aikoChannel, u, body⟩, now) := by
  simp [checkAt]

/-- A check with a username consumes the oldest live mark of its key, if there is one. -/
theorem Ledger.snoc_check (h : Ledger calls G) {now : Time} {aikoChannel u body : PyStr}
    (hclock : Clocked (calls ++ [.isOwnEcho now aikoChannel (some u) body])) :
    ∃ G', Ledger (calls ++ [.isOwnEcho now aikoChannel (some u) body]) G' := by
  obtain ⟨marks, hsorted, hmem, hseen⟩ := h.store calls.length le_rfl
  rw [List.take_length] at hseen
  have hlt : ∀ p ∈ G, p.1 < calls.length ∧ p.2 < calls.length :=
    fun p hp => h.toConsumption.lt_length hp
  set key : EchoKey := ⟨aikoChannel, u, body⟩ with hkey
  set live := marks.filter fun x => now < x.2.expiresAt with hlive
  have hlivesorted : live.Pairwise fun x y => x.1 < y.1 := hsorted.filter _
  have hevict : evict now (storeFrom [] calls) = live.map Prod.snd := by rw [hseen, evict_map]
  -- the live marks are those that the check may consume
  have hmemlive : ∀ x, x ∈ live ↔ markAt calls x.1 = some x.2 ∧ (∀ p ∈ G, p.1 ≠ x.1) ∧
      (∀ t ∈ calls.filterMap EchoCall.reading, t < x.2.expiresAt) ∧ now < x.2.expiresAt := by
    intro x
    rw [hlive, List.mem_filter, hmem, outstanding_all fun p hp => (hlt p hp).2, decide_eq_true_eq]
    tauto
  have hfound : ∀ i m, markAt calls i = some m → now < m.expiresAt → (∀ p ∈ G, p.1 ≠ i) →
      (i, m) ∈ live := by
    intro i m hm ht hfree
    rw [hmemlive]
    exact ⟨hm, hfree, fun s hs => (hclock.le_last rfl s hs).trans_lt ht, ht⟩
  have hrun : (EchoCall.isOwnEcho now aikoChannel (some u) body).run (storeFrom [] calls) =
      (live.any fun x => x.2.key = key,
        (live.eraseP fun x => x.2.key = key).map Prod.snd) := by
    rw [EchoCall.run, isOwnEcho, hevict, ← hkey, List.eraseP_map, List.any_map]
    rfl
  by_cases hany : ∃ x ∈ live, x.2.key = key
  · obtain ⟨y, hy, hykey⟩ := hany
    obtain ⟨a, front, back, hfront, hakey, hsplit, herase⟩ :=
      List.exists_of_eraseP (p := fun x : ℕ × EchoMark => decide (x.2.key = key)) hy
        (by simpa using hykey)
    have ha : a ∈ live := by simp [hsplit]
    obtain ⟨hamark, hafree, _, haalive⟩ := (hmemlive a).mp ha
    have hakey : a.2.key = key := by simpa using hakey
    -- every other live mark of the key stands behind the consumed one
    have hfirst : ∀ x ∈ live, x.2.key = key → a.1 ≤ x.1 := by
      intro x hx hxkey
      rw [hsplit] at hx hlivesorted
      rcases List.mem_append.mp hx with hx | hx
      · exact absurd hxkey (by simpa using hfront x hx)
      · rcases List.mem_cons.mp hx with rfl | hx
        · exact le_rfl
        · exact ((List.pairwise_cons.mp (List.pairwise_append.mp hlivesorted).2.1).1 x hx).le
    have hleft : ∀ x, x ∈ front ++ back ↔ x ∈ live ∧ x.1 ≠ a.1 := by
      intro x
      rw [hsplit] at hlivesorted ⊢
      obtain ⟨_, hback, hcross⟩ := List.pairwise_append.mp hlivesorted
      have hback := (List.pairwise_cons.mp hback).1
      simp only [List.mem_append, List.mem_cons]
      constructor
      · rintro (hx | hx)
        · exact ⟨Or.inl hx, (hcross x hx a (by simp)).ne⟩
        · exact ⟨Or.inr (Or.inr hx), (hback x hx).ne'⟩
      · rintro ⟨hx | rfl | hx, hne⟩
        · exact Or.inl hx
        · exact absurd rfl hne
        · exact Or.inr hx
    refine ⟨insert (a.1, calls.length) G, ?_⟩
    have hnew : ∀ p ∈ insert (a.1, calls.length) G, p.2 = calls.length → p = (a.1, calls.length) := by
      intro p hp hl
      rcases Finset.mem_insert.mp hp with rfl | hp
      · rfl
      · exact absurd hl (hlt p hp).2.ne
    apply h.snoc (Finset.subset_insert _ _)
    · intro p hp
      rcases Finset.mem_insert.mp hp with rfl | hp
      · exact Or.inr rfl
      · exact Or.inl hp
    · intro p hp hl
      rw [hnew p hp hl]
      refine ⟨lt_of_markAt hamark, hafree, a.2, now, hamark, ?_, haalive⟩
      rw [checkAt_snoc, hakey]
    · intro p hp q hq hpl hql
      rw [hnew p hp hpl, hnew q hq hql]
    · rw [hrun]
      constructor
      · exact fun _ => ⟨_, Finset.mem_insert_self _ _, rfl⟩
      · exact fun _ => List.any_eq_true.mpr ⟨a, ha, by simpa using hakey⟩
    · refine ⟨front ++ back, ?_, fun x => ?_, by rw [hrun, herase]⟩
      · rw [← herase]
        exact hlivesorted.sublist (List.eraseP_sublist)
      · rw [hleft, hmemlive, outstanding_snoc_check (fun _ _ he => by cases he) ?_]
        · simp only [Finset.mem_insert, EchoCall.reading, Option.map_some, Option.some.injEq]
          constructor
          · rintro ⟨⟨hm, hfree, hold, hnow⟩, hne⟩
            refine ⟨hm, fun p hp => ?_, hold, fun s hs => hs ▸ hnow⟩
            rcases hp with rfl | hp
            · exact hne.symm
            · exact hfree p hp
          · rintro ⟨hm, hfree, hold, hnow⟩
            exact ⟨⟨hm, fun p hp => hfree p (Or.inr hp), hold, hnow now rfl⟩,
              (hfree _ (Or.inl rfl)).symm⟩
        · intro p hp
          rcases Finset.mem_insert.mp hp with rfl | hp
          · exact le_rfl
          · exact (hlt p hp).2.le
    · intro i m t hm hk ht hfree
      rw [checkAt_snoc] at hk
      obtain ⟨hmkey, rfl⟩ := Prod.mk.inj (Option.some.inj hk)
      have hin : (i, m) ∈ live := hfound i m hm ht hfree
      refine ⟨_, Finset.mem_insert_self _ _, rfl, a.2, hamark, hakey.trans hmkey, ?_⟩
      exact hclock.init.expiry_mono hamark hm (hfirst (i, m) hin hmkey.symm)
  · have hnokey : ∀ x ∈ live, ¬ x.2.key = key := fun x hx he => hany ⟨x, hx, he⟩
    refine ⟨G, h.snoc_unanswered ?_ ?_ ?_⟩
    · rw [hrun]
      simpa using hnokey
    · refine ⟨live, hlivesorted, fun x => ?_, ?_⟩
      · rw [hmemlive, outstanding_snoc_check (fun _ _ he => by cases he)
          fun p hp => (hlt p hp).2.le]
        simp [EchoCall.reading]
      · rw [hrun, List.eraseP_of_forall_not fun x hx => by simpa using hnokey x hx]
    · intro i m t hm hk ht hfree
      rw [checkAt_snoc] at hk
      obtain ⟨hmkey, rfl⟩ := Prod.mk.inj (Option.some.inj hk)
      exact hnokey (i, m) (hfound i m hm ht hfree) hmkey.symm

end

/-! ## A whole run -/

/-- Every sequence of calls has a ledger. -/
theorem exists_ledger (calls : List EchoCall) (hclock : Clocked calls) :
    ∃ G, Ledger calls G := by
  induction calls using List.reverseRecOn with
  | nil =>
      refine ⟨∅, ?_⟩
      refine { pairs := by simp, once := by simp, one := by simp, answers := by simp [trace],
               store := ?_, oldest := ?_ }
      · intro n _
        refine ⟨[], List.Pairwise.nil, fun x => ?_, by simp [storeFrom]⟩
        simp [Outstanding, markAt]
      · intro i j m t _ hm
        simp [markAt] at hm
  | append_singleton calls c ih =>
      obtain ⟨G, h⟩ := ih hclock.init
      cases c with
      | markSent now key => exact ⟨G, h.snoc_mark hclock⟩
      | isOwnEcho now aikoChannel aikoUsername body =>
          cases aikoUsername with
          | none => exact ⟨G, h.snoc_nameless now aikoChannel body⟩
          | some u => exact h.snoc_check hclock

/-- The pairs of one key. -/
def ofKey (key : EchoKey) (calls : List EchoCall) (G : Finset (ℕ × ℕ)) : Finset (ℕ × ℕ) :=
  G.filter fun p => (checkAt calls p.2).map Prod.fst = some key

section
variable {calls : List EchoCall} {G : Finset (ℕ × ℕ)} {key : EchoKey}

theorem mem_ofKey {p : ℕ × ℕ} :
    p ∈ ofKey key calls G ↔ p ∈ G ∧ ∃ t, checkAt calls p.2 = some (key, t) := by
  simp [ofKey]

/-- Per key, consumption is an earliest-first matching. -/
theorem Ledger.earliestFirst (h : Ledger calls G) :
    EarliestFirst (board key calls) (ofKey key calls G) := by
  refine { fits := ?_, token := ?_, request := ?_, earliest := ?_ }
  · intro p hp
    obtain ⟨hp, t, hc⟩ := mem_ofKey.mp hp
    obtain ⟨hlt, m, t', hm, hc', ht⟩ := h.pairs p hp
    rw [hc] at hc'
    obtain ⟨hkey, rfl⟩ := Prod.mk.inj (Option.some.inj hc')
    exact ⟨hlt, m.expiresAt, t, deadline_eq.mpr ⟨m, hm, hkey.symm, rfl⟩, request_eq.mpr hc, ht⟩
  · exact fun p hp q hq he => h.once p (mem_ofKey.mp hp).1 q (mem_ofKey.mp hq).1 he
  · exact fun p hp q hq he => h.one p (mem_ofKey.mp hp).1 q (mem_ofKey.mp hq).1 he
  · intro i j e t hij hd hr ht hfree
    obtain ⟨m, hm, hkey, rfl⟩ := deadline_eq.mp hd
    rw [request_eq] at hr
    have hunused : ∀ p ∈ G, p.1 = i → j ≤ p.2 := by
      intro p hp hpi
      obtain ⟨_, m', t', hm', hc', _⟩ := h.pairs p hp
      rw [hpi, hm] at hm'
      obtain rfl := Option.some.inj hm'
      exact hfree p (mem_ofKey.mpr ⟨hp, t', by rw [hc', hkey]⟩) hpi
    obtain ⟨p, hp, hpj, m', hm', hkey', hle⟩ :=
      h.oldest i j m t hij hm (by rw [hkey]; exact hr) ht hunused
    refine ⟨p, mem_ofKey.mpr ⟨hp, t, by rw [hpj]; exact hr⟩, hpj, m'.expiresAt, ?_, hle⟩
    exact deadline_eq.mpr ⟨m', hm', hkey'.trans hkey, rfl⟩

theorem countP_eq_card {α : Type} (p : α → Bool) (l : List α) :
    l.countP p = ((Finset.range l.length).filter fun j => (l[j]?).any p = true).card := by
  induction l using List.reverseRecOn with
  | nil => rfl
  | append_singleton l a ih =>
      have hlast : (l ++ [a])[l.length]? = some a := by simp
      have hold : ((Finset.range l.length).filter fun j => ((l ++ [a])[j]?).any p = true) =
          (Finset.range l.length).filter fun j => (l[j]?).any p = true := by
        apply Finset.filter_congr
        intro j hj
        rw [List.getElem?_append_left (Finset.mem_range.mp hj)]
      rw [List.countP_append, List.length_append, List.length_singleton, Finset.range_add_one,
        Finset.filter_insert, hlast, hold, ih]
      cases hp : p a with
      | false => simp [hp]
      | true => simp [hp]

theorem getElem_trace (seen : List EchoMark) (calls : List EchoCall) (j : ℕ) :
    (trace seen calls)[j]?.map Prod.fst = calls[j]? := by
  induction calls generalizing seen j with
  | nil => simp [trace]
  | cons c calls ih =>
      cases j with
      | zero => simp [trace]
      | succ j => simpa [trace] using ih _ j

theorem key_of_checkAt {j : ℕ} {c : EchoCall} {t : Time} (hj : calls[j]? = some c)
    (h : checkAt calls j = some (key, t)) : c.key = some key := by
  unfold checkAt at h
  rw [hj] at h
  cases c with
  | markSent now key' => cases h
  | isOwnEcho now aikoChannel aikoUsername body =>
      cases aikoUsername with
      | none => cases h
      | some u =>
          have hk : (⟨aikoChannel, u, body⟩ : EchoKey) = key := (Prod.mk.inj (Option.some.inj h)).1
          rw [← hk]
          rfl

/-- The true answers of a key are as many as its pairs. -/
theorem Consumption.suppressed_eq (h : Consumption calls G) :
    suppressed key calls = (ofKey key calls G).card := by
  have hinj : ((ofKey key calls G).image Prod.snd).card = (ofKey key calls G).card := by
    apply Finset.card_image_of_injOn
    intro p hp q hq he
    exact h.one p (mem_ofKey.mp hp).1 q (mem_ofKey.mp hq).1 he
  rw [suppressed, countP_eq_card, ← hinj]
  congr 1
  ext j
  rw [Finset.mem_filter, Finset.mem_range, length_trace, Finset.mem_image]
  constructor
  · rintro ⟨hj, hany⟩
    obtain ⟨⟨c, b⟩, hx, hb⟩ : ∃ x, (trace [] calls)[j]? = some x ∧
        (decide (x.1.key = some key) && x.2) = true := by
      simpa [Option.any_eq_true] using hany
    obtain ⟨hkey, rfl⟩ := by simpa using hb
    obtain ⟨p, hp, rfl⟩ := (h.answers j c true hx).mp rfl
    obtain ⟨_, m, t, _, hc, _⟩ := h.pairs p hp
    have hcall : calls[p.2]? = some c := by rw [← getElem_trace [], hx]; rfl
    have hk : c.key = some m.key := key_of_checkAt hcall hc
    rw [hkey] at hk
    exact ⟨p, mem_ofKey.mpr ⟨hp, t, by rw [hc, Option.some.inj hk]⟩, rfl⟩
  · rintro ⟨p, hp, rfl⟩
    obtain ⟨hp, t, hc⟩ := mem_ofKey.mp hp
    have hlt : p.2 < calls.length := lt_of_checkAt hc
    obtain ⟨⟨c, b⟩, hx⟩ : ∃ x, (trace [] calls)[p.2]? = some x :=
      List.getElem?_eq_some_iff.mpr ⟨by simpa using hlt, rfl⟩ |> fun h => ⟨_, h⟩
    have hb : b = true := (h.answers p.2 c b hx).mpr ⟨p, hp, rfl⟩
    have hcall : calls[p.2]? = some c := by rw [← getElem_trace [], hx]; rfl
    refine ⟨hlt, ?_⟩
    rw [hx, Option.any_some, hb, key_of_checkAt hcall hc]
    simp

end

/-- Keys do not interfere; each true answer consumes a mark of its own, less than the TTL
old; and no one-to-one matching of marks with later live checks has more pairs. -/
theorem echo_store_matches_optimally (calls : List EchoCall)
    (hclock : (calls.filterMap EchoCall.reading).Pairwise (· ≤ ·)) :
    (∀ key, (trace [] calls).filter (fun x => x.1.key = some key) =
      trace [] (calls.filter fun c => c.key = some key)) ∧
    (∃ G, Consumption calls G) ∧
    ∀ key, IsGreatest {k | ∃ M, Matching (board key calls) M ∧ M.card = k}
      (suppressed key calls) := by
  obtain ⟨G, hG⟩ := exists_ledger calls hclock
  refine ⟨fun key => ?_, ⟨G, hG.toConsumption⟩, fun key => ⟨?_, ?_⟩⟩
  · exact trace_filter key calls hclock 0 [] [] (fun _ _ => rfl) fun _ _ => Nat.zero_le _
  · exact ⟨ofKey key calls G, hG.earliestFirst.toMatching, hG.suppressed_eq.symm⟩
  · rintro k ⟨M, hM, rfl⟩
    rw [hG.suppressed_eq]
    exact hG.earliestFirst.optimal hM

/-- Two identical sends with a foreign send between them, the first of them expired when the
checks begin, and a check of a stranger. -/
def twoSends : List EchoCall :=
  [.markSent 0 ⟨[1], [2], [3]⟩, .markSent 5 ⟨[1], [2], [4]⟩, .markSent 9 ⟨[1], [2], [3]⟩,
    .isOwnEcho 30000000 [1] (some [2]) [3], .isOwnEcho 30000001 [1] none [3],
    .isOwnEcho 30000002 [1] (some [2]) [3]]

/-- At the TTL the first mark is gone: one of the two checks is answered by the second. -/
theorem two_sends_match_optimally :
    (∃ G, Consumption twoSends G) ∧
      IsGreatest {k | ∃ M, Matching (board ⟨[1], [2], [3]⟩ twoSends) M ∧ M.card = k} 1 := by
  have hclock : (twoSends.filterMap EchoCall.reading).Pairwise (· ≤ ·) := by decide
  have hcount : suppressed ⟨[1], [2], [3]⟩ twoSends = 1 := by decide
  obtain ⟨_, hledger, hbest⟩ := echo_store_matches_optimally twoSends hclock
  refine ⟨hledger, ?_⟩
  rw [← hcount]
  exact hbest _

end AikoIsland.EchoMatching
