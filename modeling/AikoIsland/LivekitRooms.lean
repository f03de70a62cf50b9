import AikoIsland.Calendar
import AikoIsland.Checks
import AikoIsland.Conversions

/-!
# Who is in a call, as the SFU says

`occupancy` posts to the SFU and reads its answer. The shape of the participants is
checked first, then each join time, in order. What the island cannot read is
`LiveKitUnreachable`, and so is a request that failed: no usable URL, an httpx error
or a closed client. The bearer, the request and logging are left out.

A join time that is a text of ASCII digits goes through `int`, which refuses more
than its limit of digits with a `ValueError` of its own.
-/
namespace AikoIsland.LivekitRooms
open Tables FloatingPoint JsonText Conversions OrderedDict Checks Calendar

inductive Raised where
  | liveKitUnreachable
  | recursionError
  | valueError
  deriving DecidableEq, Repr

structure Occupancy where
  live : Bool
  participants : ℕ
  since : Option String
  deriving DecidableEq, Repr

inductive Reply where
  | failed
  | response (status : ℕ) (content : Option Text)

abbrev Fields := List (Text × Json)

/-! ## Times -/

/-- A number with at least so many digits. -/
def padded (width n : ℕ) : String :=
  String.ofList (List.replicate (width - (Nat.toDigits 10 n).length) '0' ++ Nat.toDigits 10 n)

/-- `isoformat()` in UTC with its offset as `Z`. -/
def isoText (x : Date) (hour minute second : ℕ) : String :=
  padded 4 x.year ++ "-" ++ padded 2 x.month ++ "-" ++ padded 2 x.day ++ "T" ++ padded 2 hour ++
    ":" ++ padded 2 minute ++ ":" ++ padded 2 second ++ "Z"

/-- The days from year 1 to 1970. -/
def epochDays : ℕ := 719162

def isoOf (seconds : ℕ) : String :=
  isoText (civil (epochDays + seconds / 86400)) (seconds % 86400 / 3600) (seconds % 3600 / 60)
    (seconds % 60)

/-- `_iso_or_unreachable`, for a time after the epoch. -/
def isoOrUnreachable (epochSeconds : ℕ) : Except Raised String :=
  if (epochSeconds : ℤ) ≤ Payload.maxSecond then .ok (isoOf epochSeconds)
  else .error .liveKitUnreachable

/-! ## The payload -/

def entryOf : Json → Except Raised Fields
  | .obj [] => .error .liveKitUnreachable
  | .obj fields => .ok fields
  | _ => .error .liveKitUnreachable

def participantsFrom : Json → Except Raised (List Fields)
  | .obj items =>
      match get items (codes "participants") with
      | some (.arr xs) => xs.mapM entryOf
      | _ => .error .liveKitUnreachable
  | _ => .error .liveKitUnreachable

/-- `raw.isascii() and raw.isdigit()`. -/
def isAsciiDigits (s : Text) : Bool := s ≠ [] && s.all isDigit

/-- A stamp that is not zero; a negative one is refused. -/
def normalized (stamp : ℤ) : Except Raised (Option ℕ) :=
  if stamp = 0 then .ok none
  else if stamp < 0 then .error .liveKitUnreachable
  else .ok (some stamp.toNat)

/-- One turn of the loop over the participants. -/
def joinedAt (p : Fields) : Except Raised (Option ℕ) :=
  match get p (codes "joinedAt") with
  | none => .ok none
  | some .null => .ok none
  | some (.int n) => normalized n
  | some (.str s) =>
      if isAsciiDigits s then
        if maxStrDigits < s.length then .error .valueError else normalized (numeral s)
      else .error .liveKitUnreachable
  | some _ => .error .liveKitUnreachable

/-- What is made of the participants. -/
def occupied (participants : List Fields) : Except Raised Occupancy := do
  let joined ← participants.mapM joinedAt
  let since ← match (joined.filterMap id).min? with
    | none => pure none
    | some earliest => some <$> isoOrUnreachable earliest
  return ⟨decide (participants ≠ []), participants.length, since⟩

def occupancy (levels : ℕ) : Reply → Except Raised Occupancy
  | .failed => .error .liveKitUnreachable
  | .response status content =>
      if status = 200 then
        match responseJson levels content with
        | .ok body => participantsFrom body >>= occupied
        | .error .recursionError => .error .recursionError
        | .error _ => .error .liveKitUnreachable
      else .error .liveKitUnreachable

/-! ## Rendering -/

/-- The text spells a date and a time of day, and the instant is theirs. -/
def Rendered (epochSeconds : ℕ) (s : String) : Prop :=
  ∃ (x : Date) (hour minute second : ℕ), x.Valid ∧ hour < 24 ∧ minute < 60 ∧ second < 60 ∧
    s = isoText x hour minute second ∧
    (epochSeconds : ℤ) = ((x.toOrdinal : ℤ) - (Date.mk 1970 1 1).toOrdinal) * 86400 + hour * 3600 +
      minute * 60 + second

theorem rendered_isoOf (seconds : ℕ) : Rendered seconds (isoOf seconds) := by
  obtain ⟨hvalid, hordinal⟩ := civil_spec (epochDays + seconds / 86400)
  have hepoch : (Date.mk 1970 1 1).toOrdinal = epochDays := by decide
  refine ⟨_, _, _, _, hvalid, ?_, ?_, ?_, rfl, ?_⟩
  · omega
  · omega
  · omega
  · rw [hordinal, hepoch]
    push_cast
    omega

/-! ## The participants -/

/-- The SFU has not said when the participant joined. -/
def Unstamped (p : Fields) : Prop :=
  get p (codes "joinedAt") = none ∨ get p (codes "joinedAt") = some .null ∨
    get p (codes "joinedAt") = some (.int 0) ∨
    ∃ s, get p (codes "joinedAt") = some (.str s) ∧ isAsciiDigits s = true ∧ numeral s = 0

/-- A join time that is not zero, as a number or as a row of digits. -/
def Stamped (p : Fields) (n : ℕ) : Prop :=
  n ≠ 0 ∧ (get p (codes "joinedAt") = some (.int n) ∨
    ∃ s, get p (codes "joinedAt") = some (.str s) ∧ isAsciiDigits s = true ∧ numeral s = n)

/-- A row of digits that is too long for `int`. -/
def Overlong (p : Fields) : Prop :=
  ∃ s, get p (codes "joinedAt") = some (.str s) ∧ isAsciiDigits s = true ∧ maxStrDigits < s.length

/-- A JSON object with a list of objects, none of them empty, under `participants`. -/
def Listing (body : Json) (entries : List Fields) : Prop :=
  ∃ items, body = .obj items ∧
    get items (codes "participants") = some (.arr (entries.map .obj)) ∧ ∀ p ∈ entries, p ≠ []

section
variable {p : Fields} {body : Json} {entries : List Fields} {n : ℕ}

theorem entryOf_eq_ok {v : Json} : entryOf v = .ok p ↔ v = .obj p ∧ p ≠ [] := by
  cases v with
  | obj fields =>
      cases fields with
      | nil =>
          constructor
          · intro h
            cases h
          · intro h
            cases h.1
            exact absurd rfl h.2
      | cons i rest =>
          constructor
          · intro h
            cases h
            exact ⟨rfl, List.cons_ne_nil _ _⟩
          · intro h
            cases h.1
            rfl
  | null | bool | int | float | str | arr => simp [entryOf]

theorem raisesOnly_entryOf {v : Json} : RaisesOnly (· = Raised.liveKitUnreachable) (entryOf v) := by
  unfold entryOf
  split <;> simp

theorem mapM_entryOf_eq_ok {xs : List Json} :
    xs.mapM entryOf = .ok entries ↔ xs = entries.map .obj ∧ ∀ p ∈ entries, p ≠ [] := by
  rw [mapM_eq_ok]
  induction entries generalizing xs with
  | nil => simp
  | cons p entries ih =>
      rw [List.forall₂_cons_right_iff]
      constructor
      · intro h
        obtain ⟨x, xs', hx, hxs, rfl⟩ := h
        obtain ⟨rfl, hne⟩ := entryOf_eq_ok.mp hx
        obtain ⟨rfl, hall⟩ := ih.mp hxs
        exact ⟨rfl, List.forall_mem_cons.mpr ⟨hne, hall⟩⟩
      · intro h
        obtain ⟨rfl, hall⟩ := h
        obtain ⟨hne, hall⟩ := List.forall_mem_cons.mp hall
        exact ⟨_, _, entryOf_eq_ok.mpr ⟨rfl, hne⟩, ih.mpr ⟨rfl, hall⟩, rfl⟩

theorem participantsFrom_eq_ok : participantsFrom body = .ok entries ↔ Listing body entries := by
  constructor
  · intro h
    unfold participantsFrom at h
    split at h
    · rename_i items
      split at h
      · rename_i xs hxs
        obtain ⟨rfl, hall⟩ := mapM_entryOf_eq_ok.mp h
        exact ⟨items, rfl, hxs, hall⟩
      · cases h
    · cases h
  · intro h
    obtain ⟨items, rfl, hget, hall⟩ := h
    unfold participantsFrom
    dsimp only
    rw [hget]
    exact mapM_entryOf_eq_ok.mpr ⟨rfl, hall⟩

theorem raisesOnly_participantsFrom :
    RaisesOnly (· = Raised.liveKitUnreachable) (participantsFrom body) := by
  unfold participantsFrom
  split
  · split
    · exact RaisesOnly.mapM fun x _ => raisesOnly_entryOf
    · simp
  · simp

theorem normalized_eq_ok {stamp : ℤ} {r : Option ℕ} :
    normalized stamp = .ok r ↔ (stamp = 0 ∧ r = none) ∨ ∃ n : ℕ, n ≠ 0 ∧ stamp = n ∧ r = some n := by
  unfold normalized
  split_ifs with hzero hneg
  · constructor
    · intro h
      cases h
      exact Or.inl ⟨hzero, rfl⟩
    · intro h
      cases h with
      | inl h => rw [h.2]
      | inr h =>
          obtain ⟨n, hn, hstamp, _⟩ := h
          omega
  · constructor
    · intro h
      cases h
    · intro h
      cases h with
      | inl h => omega
      | inr h =>
          obtain ⟨n, _, hstamp, _⟩ := h
          omega
  · constructor
    · intro h
      cases h
      exact Or.inr ⟨stamp.toNat, by omega, by omega, rfl⟩
    · intro h
      cases h with
      | inl h => omega
      | inr h =>
          obtain ⟨n, _, hstamp, hr⟩ := h
          rw [hr, hstamp, Int.toNat_natCast]

theorem normalized_natCast (n : ℕ) :
    normalized n = if n = 0 then .ok none else .ok (some n) := by
  unfold normalized
  split_ifs with hzero hzero' hneg hzero'
  · rfl
  · omega
  · omega
  · omega
  · omega
  · rfl

theorem joinedAt_digits {s : Text} (hget : get p (codes "joinedAt") = some (.str s))
    (hdigits : isAsciiDigits s = true) :
    joinedAt p = if maxStrDigits < s.length then .error .valueError
      else if numeral s = 0 then .ok none else .ok (some (numeral s)) := by
  unfold joinedAt
  rw [hget]
  dsimp only
  rw [if_pos hdigits, normalized_natCast]

theorem joinedAt_of_unstamped (h : Unstamped p) :
    joinedAt p = .ok none ∨ joinedAt p = .error .valueError := by
  rcases h with hget | hget | hget | ⟨s, hget, hdigits, hzero⟩
  · left
    rw [joinedAt, hget]
  · left
    rw [joinedAt, hget]
  · left
    rw [joinedAt, hget]
    rfl
  · rw [joinedAt_digits hget hdigits, if_pos hzero]
    split_ifs
    · exact Or.inr rfl
    · exact Or.inl rfl

theorem joinedAt_of_stamped (h : Stamped p n) :
    joinedAt p = .ok (some n) ∨ joinedAt p = .error .valueError := by
  obtain ⟨hn, hget | ⟨s, hget, hdigits, rfl⟩⟩ := h
  · left
    rw [joinedAt, hget]
    dsimp only
    rw [normalized_natCast, if_neg hn]
  · rw [joinedAt_digits hget hdigits, if_neg hn]
    split_ifs
    · exact Or.inr rfl
    · exact Or.inl rfl

/-- A join time is skipped, taken, too long, or unreadable. -/
theorem joinedAt_cases (p : Fields) :
    (joinedAt p = .ok none ∧ Unstamped p) ∨ (∃ n, joinedAt p = .ok (some n) ∧ Stamped p n) ∨
      (joinedAt p = .error .valueError ∧ Overlong p) ∨ joinedAt p = .error .liveKitUnreachable := by
  cases hget : get p (codes "joinedAt") with
  | none => exact Or.inl ⟨by rw [joinedAt, hget], Or.inl hget⟩
  | some v =>
      cases v with
      | null => exact Or.inl ⟨by rw [joinedAt, hget], Or.inr (Or.inl hget)⟩
      | int k =>
          have hjoined : joinedAt p = normalized k := by rw [joinedAt, hget]
          rcases lt_trichotomy k 0 with hneg | hzero | hpos
          · right
            right
            right
            rw [hjoined, normalized, if_neg hneg.ne, if_pos hneg]
          · rw [hzero] at hget hjoined
            exact Or.inl ⟨hjoined, Or.inr (Or.inr (Or.inl hget))⟩
          · right
            left
            refine ⟨k.toNat, ?_, by omega, Or.inl ?_⟩
            · rw [hjoined, normalized, if_neg hpos.ne', if_neg (not_lt.mpr hpos.le)]
            · rw [Int.toNat_of_nonneg hpos.le]
              exact hget
      | str s =>
          by_cases hdigits : isAsciiDigits s = true
          · have hjoined := joinedAt_digits hget hdigits
            split_ifs at hjoined with hlong hzero
            · exact Or.inr (Or.inr (Or.inl ⟨hjoined, s, hget, hdigits, hlong⟩))
            · exact Or.inl ⟨hjoined, Or.inr (Or.inr (Or.inr ⟨s, hget, hdigits, hzero⟩))⟩
            · exact Or.inr (Or.inl ⟨_, hjoined, hzero, Or.inr ⟨s, hget, hdigits, rfl⟩⟩)
          · right
            right
            right
            rw [joinedAt, hget]
            dsimp only
            rw [if_neg hdigits]
      | bool b | float x | arr xs | obj items =>
          right
          right
          right
          rw [joinedAt, hget]

/-! ## Every reply -/

/-- What the island says of a call is what the participants say. -/
def Reports (entries : List Fields) (o : Occupancy) : Prop :=
  (o.live = true ↔ 1 ≤ entries.length) ∧ o.participants = entries.length ∧
    (o.since = none ↔ ∀ p ∈ entries, Unstamped p) ∧
    ∀ s, o.since = some s → ∃ t, (∃ p ∈ entries, Stamped p t) ∧
      (∀ p ∈ entries, ∀ n, Stamped p n → t ≤ n) ∧ Rendered t s

section
variable {joined : List (Option ℕ)}

/-- The stamps that the loop keeps are those of the participants. -/
theorem mem_stamps (h : entries.mapM joinedAt = .ok joined) :
    n ∈ joined.filterMap id ↔ ∃ p ∈ entries, Stamped p n := by
  obtain ⟨hread, hfrom⟩ := mem_of_mapM_eq_ok h
  rw [List.mem_filterMap]
  constructor
  · intro hn
    obtain ⟨j, hj, rfl⟩ := hn
    obtain ⟨p, hp, hjoined⟩ := hfrom _ hj
    rcases joinedAt_cases p with hcase | ⟨m, hm, hstamped⟩ | hcase | hcase
    · rw [hjoined] at hcase
      cases hcase.1
    · rw [hjoined] at hm
      cases hm
      exact ⟨p, hp, hstamped⟩
    · rw [hjoined] at hcase
      cases hcase.1
    · rw [hjoined] at hcase
      cases hcase
  · intro hn
    obtain ⟨p, hp, hstamped⟩ := hn
    obtain ⟨j, hj, hjoined⟩ := hread p hp
    rcases joinedAt_of_stamped hstamped with hsome | herror
    · rw [hjoined] at hsome
      exact ⟨some n, by rw [← Except.ok.inj hsome]; exact hj, rfl⟩
    · rw [hjoined] at herror
      cases herror

/-- No stamp is kept exactly if nobody is stamped. -/
theorem stamps_eq_nil (h : entries.mapM joinedAt = .ok joined) :
    joined.filterMap id = [] ↔ ∀ p ∈ entries, Unstamped p := by
  obtain ⟨hread, _⟩ := mem_of_mapM_eq_ok h
  constructor
  · intro hnil p hp
    obtain ⟨j, hj, hjoined⟩ := hread p hp
    rcases joinedAt_cases p with hcase | ⟨m, _, hstamped⟩ | hcase | hcase
    · exact hcase.2
    · have hmem := (mem_stamps h).mpr ⟨p, hp, hstamped⟩
      rw [hnil] at hmem
      cases hmem
    · rw [hcase.1] at hjoined
      cases hjoined
    · rw [hcase] at hjoined
      cases hjoined
  · intro hall
    apply List.eq_nil_iff_forall_not_mem.mpr
    intro m hm
    obtain ⟨p, hp, hstamped⟩ := (mem_stamps h).mp hm
    obtain ⟨j, hj, hjoined⟩ := hread p hp
    rcases joinedAt_of_unstamped (hall p hp) with hnone | herror
    · rcases joinedAt_of_stamped hstamped with hsome | herror
      · rw [hnone] at hsome
        cases hsome
      · rw [hnone] at herror
        cases herror
    · rw [hjoined] at herror
      cases herror

theorem isoOrUnreachable_cases (t : ℕ) :
    (∃ s, isoOrUnreachable t = .ok s ∧ Rendered t s) ∨
      isoOrUnreachable t = .error .liveKitUnreachable := by
  unfold isoOrUnreachable
  split_ifs
  · exact Or.inl ⟨isoOf t, rfl, rendered_isoOf t⟩
  · exact Or.inr rfl

/-- With every join time read, the occupancy is reported, or its earliest time has no date. -/
theorem occupied_of_read (h : entries.mapM joinedAt = .ok joined) :
    (∃ o, occupied entries = .ok o ∧ Reports entries o) ∨
      occupied entries = .error .liveKitUnreachable := by
  have hlive : decide (entries ≠ []) = true ↔ 1 ≤ entries.length := by
    rw [decide_eq_true_iff, ← List.length_pos_iff]
    exact Iff.rfl
  have hnil := stamps_eq_nil h
  unfold occupied
  rw [h, ok_bind]
  cases hmin : (joined.filterMap id).min? with
  | none =>
      left
      refine ⟨_, rfl, hlive, rfl, ?_, by simp⟩
      rw [← hnil]
      exact ⟨fun _ => List.min?_eq_none_iff.mp hmin, fun _ => rfl⟩
  | some t =>
      obtain ⟨hmem, hleast⟩ := List.min?_eq_some_iff.mp hmin
      dsimp only
      rcases isoOrUnreachable_cases t with ⟨s, hs, hrendered⟩ | hunreachable
      · left
        rw [hs]
        refine ⟨⟨_, _, some s⟩, rfl, hlive, rfl, ?_, ?_⟩
        · rw [← hnil]
          constructor
          · intro hnone
            cases hnone
          · intro hnone
            rw [hnone] at hmem
            cases hmem
        · intro s' hs'
          cases hs'
          exact ⟨t, (mem_stamps h).mp hmem, fun p hp n hn => hleast n ((mem_stamps h).mpr ⟨p, hp, hn⟩),
            hrendered⟩
      · right
        rw [hunreachable]
        rfl

end

/-- A join time that is too long comes before every one that is unreadable. -/
def Blocked (entries : List Fields) : Prop :=
  ∃ front p back, entries = front ++ p :: back ∧ Overlong p ∧
    ∀ q ∈ front, ∃ j, joinedAt q = .ok j

theorem joinedAt_eq_valueError : joinedAt p = .error .valueError ↔ Overlong p := by
  constructor
  · intro h
    rcases joinedAt_cases p with hcase | ⟨n, hn, _⟩ | hcase | hcase
    · rw [h] at hcase
      cases hcase.1
    · rw [h] at hn
      cases hn
    · exact hcase.2
    · rw [h] at hcase
      cases hcase
  · intro h
    obtain ⟨s, hget, hdigits, hlong⟩ := h
    rw [joinedAt_digits hget hdigits, if_pos hlong]

theorem occupied_of_blocked (h : Blocked entries) : occupied entries = .error .valueError := by
  obtain ⟨front, p, back, hsplit, hlong, hfront⟩ := h
  unfold occupied
  rw [mapM_eq_error.mpr ⟨front, p, back, hsplit, hfront, joinedAt_eq_valueError.mpr hlong⟩]
  rfl

theorem occupied_cases (entries : List Fields) :
    (∃ o, occupied entries = .ok o ∧ Reports entries o) ∨
      occupied entries = .error .liveKitUnreachable ∨ Blocked entries := by
  cases hjoined : entries.mapM joinedAt with
  | ok joined =>
      cases occupied_of_read hjoined with
      | inl hok => exact Or.inl hok
      | inr hunreachable => exact Or.inr (Or.inl hunreachable)
  | error e =>
      right
      have hraised : occupied entries = .error e := by
        unfold occupied
        rw [hjoined]
        rfl
      obtain ⟨front, p, back, hsplit, hfront, hp⟩ := mapM_eq_error.mp hjoined
      rcases joinedAt_cases p with hcase | ⟨n, hn, _⟩ | hcase | hcase
      · rw [hp] at hcase
        cases hcase.1
      · rw [hp] at hn
        cases hn
      · exact Or.inr ⟨front, p, back, hsplit, hcase.2, hfront⟩
      · rw [hp] at hcase
        cases hcase
        exact Or.inl hraised

end

/-- The occupancy that a listing of participants says, or `LiveKitUnreachable`. -/
def Honest (levels : ℕ) (reply : Reply) : Prop :=
  (∃ content body entries o, reply = .response 200 content ∧
      responseJson levels content = .ok body ∧ Listing body entries ∧
      occupancy levels reply = .ok o ∧ Reports entries o) ∨
    occupancy levels reply = .error .liveKitUnreachable

/-- A 200 that is nested too deeply, or lists a join time of too many digits that is reached. -/
def Escapes (levels : ℕ) (reply : Reply) : Prop :=
  ∃ content, reply = .response 200 content ∧
    (responseJson levels content = .error .recursionError ∨
      ∃ body entries, responseJson levels content = .ok body ∧ Listing body entries ∧
        Blocked entries)

/-- Occupancy is total and honest but for a body that is nested too deeply and for a join time of
more digits than `int` reads. -/
theorem honest_iff (levels : ℕ) (reply : Reply) : Honest levels reply ↔ ¬Escapes levels reply := by
  cases reply with
  | failed =>
      constructor
      · intro _ hescapes
        obtain ⟨_, heq, _⟩ := hescapes
        cases heq
      · intro _
        exact Or.inr rfl
  | response status content =>
      by_cases hstatus : status = 200
      · subst hstatus
        cases hbody : responseJson levels content with
        | error e =>
            have hraised : occupancy levels (.response 200 content) =
                if e = .recursionError then .error .recursionError
                else .error .liveKitUnreachable := by
              unfold occupancy
              dsimp only
              rw [if_pos rfl, hbody]
              cases e <;> rfl
            constructor
            · intro h hescapes
              obtain ⟨_, heq, hcase⟩ := hescapes
              cases heq
              rw [hbody] at hcase
              rcases hcase with hdeep | ⟨_, _, hok, _⟩
              · cases hdeep
                rw [if_pos rfl] at hraised
                rcases h with ⟨_, _, _, _, _, _, _, hok, _⟩ | hunreachable
                · rw [hraised] at hok
                  cases hok
                · rw [hraised] at hunreachable
                  cases hunreachable
              · cases hok
            · intro h
              right
              rw [hraised, if_neg]
              intro hdeep
              exact h ⟨content, rfl, Or.inl (by rw [hbody, hdeep])⟩
        | ok body =>
            have hrun : occupancy levels (.response 200 content) =
                participantsFrom body >>= occupied := by
              unfold occupancy
              dsimp only
              rw [if_pos rfl, hbody]
            cases hparticipants : participantsFrom body with
            | error e =>
                have hunreachable : e = .liveKitUnreachable :=
                  raisesOnly_participantsFrom e hparticipants
                constructor
                · intro _ hescapes
                  obtain ⟨_, heq, hcase⟩ := hescapes
                  cases heq
                  rw [hbody] at hcase
                  rcases hcase with hdeep | ⟨_, _, hok, hlisting, _⟩
                  · cases hdeep
                  · cases hok
                    rw [participantsFrom_eq_ok.mpr hlisting] at hparticipants
                    cases hparticipants
                · intro _
                  right
                  rw [hrun, hparticipants, hunreachable, error_bind]
            | ok entries =>
                have hlisting := participantsFrom_eq_ok.mp hparticipants
                rw [hparticipants, ok_bind] at hrun
                constructor
                · intro h hescapes
                  obtain ⟨_, heq, hcase⟩ := hescapes
                  cases heq
                  rw [hbody] at hcase
                  rcases hcase with hdeep | ⟨_, entries', hok, hlisting', hblocked⟩
                  · cases hdeep
                  · cases hok
                    have hsame := participantsFrom_eq_ok.mpr hlisting'
                    rw [hparticipants] at hsame
                    cases hsame
                    rw [occupied_of_blocked hblocked] at hrun
                    rcases h with ⟨_, _, _, _, _, _, _, hok, _⟩ | hunreachable
                    · rw [hrun] at hok
                      cases hok
                    · rw [hrun] at hunreachable
                      cases hunreachable
                · intro h
                  rcases occupied_cases entries with ⟨o, ho, hreports⟩ | hunreachable | hblocked
                  · exact Or.inl ⟨content, body, entries, o, rfl, hbody, hlisting, by rw [hrun, ho],
                      hreports⟩
                  · exact Or.inr (by rw [hrun, hunreachable])
                  · exact absurd ⟨content, rfl, Or.inr ⟨body, entries, hbody, hlisting, hblocked⟩⟩ h
      · constructor
        · intro _ hescapes
          obtain ⟨_, heq, _⟩ := hescapes
          cases heq
          exact hstatus rfl
        · intro _
          right
          unfold occupancy
          dsimp only
          rw [if_neg hstatus]

/-! ## A join time of 4301 digits -/

def longStamp : Text := List.replicate 4301 49

def longEntry : Fields := [(codes "joinedAt", .str longStamp)]

def longBody : Json := .obj [(codes "participants", .arr [.obj longEntry])]

def longContent : Text :=
  123 :: 34 :: (codes "participants\"" ++ 58 :: 91 :: 123 :: 34 :: (codes "joinedAt\"" ++
    58 :: 34 :: (longStamp ++ 34 :: 125 :: 93 :: 125 :: [])))

theorem scanOnce_longContent {k : ℕ} (hk : 4301 < k) :
    scanOnce (k + 30) 10 longContent = .ok (longBody, []) := by
  apply scanOnce_object
  apply scanMembers_last (u := 91 :: 123 :: 34 :: (codes "joinedAt\"" ++
    58 :: 34 :: (longStamp ++ 34 :: 125 :: 93 :: 125 :: [])))
  · rfl
  · apply scanOnce_array
    apply scanItems_last
    apply scanOnce_object
    apply scanMembers_last (u := 34 :: (longStamp ++ 34 :: 125 :: 93 :: 125 :: []))
    · rfl
    · apply scanOnce_string
      apply scanString_replicate
      · intro s
        rfl
      · omega

theorem loads_longContent : loads 10 longContent = .ok longBody := by
  have hlength : longContent.length = 4335 := by
    simp only [longContent, longStamp, List.length_cons, List.length_append, List.length_replicate,
      List.length_nil]
    rfl
  have hskip : skipSpace longContent = longContent := rfl
  have hhead : longContent.head? ≠ some 0xFEFF := by
    rw [longContent, List.head?_cons]
    decide
  unfold loads
  rw [if_neg hhead, hskip, hlength, scanOnce_longContent (k := 8642) (by decide)]
  rfl

/-- The room is occupied, and `int` raises on the time. -/
theorem long_stamp_escapes : ¬∀ (levels : ℕ) (reply : Reply), Honest levels reply := by
  intro h
  have hlisting : Listing longBody [longEntry] := by
    refine ⟨_, rfl, rfl, ?_⟩
    intro p hp
    rw [List.mem_singleton.mp hp]
    exact List.cons_ne_nil _ _
  have hlong : Overlong longEntry := by
    refine ⟨longStamp, rfl, ?_, ?_⟩
    · have hall : longStamp.all isDigit = true := by
        apply List.all_eq_true.mpr
        intro c hc
        rw [List.eq_of_mem_replicate hc]
        rfl
      rw [isAsciiDigits, hall]
      rfl
    · rw [longStamp, List.length_replicate]
      decide
  have hraised : occupancy 10 (.response 200 (some longContent)) = .error .valueError := by
    unfold occupancy
    dsimp only
    rw [if_pos rfl, responseJson, loads_longContent]
    dsimp only
    rw [participantsFrom_eq_ok.mpr hlisting, ok_bind]
    exact occupied_of_blocked ⟨[], longEntry, [], rfl, hlong, by simp⟩
  rcases h 10 (.response 200 (some longContent)) with ⟨_, _, _, _, _, _, _, hok, _⟩ | hunreachable
  · rw [hraised] at hok
    cases hok
  · rw [hraised] at hunreachable
    cases hunreachable

end AikoIsland.LivekitRooms
