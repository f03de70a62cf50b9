import AikoIsland.Conversions
import AikoIsland.Signing

/-!
# The cap on request bodies

A request whose declared length is above the cap is refused without reading it.
Otherwise the body is read chunk by chunk and a chunk is stored only while the
total is within the cap; then the application is called with the whole body in one
message. So what a request gets depends on its header, its whole body and how the
body ends, and not on the chunks.

The messages are those that the server has delivered. `int` of bytes reads ASCII
only and refuses more than 4300 digits; a header that it refuses is no length.
-/
namespace AikoIsland.BodyLimit
open Signing FloatingPoint JsonText Payload Conversions

/-! ## The middleware -/

inductive Message where
  | request (body : Bytes) (moreBody : Bool)
  | disconnect
  deriving DecidableEq

inductive Send where
  | responseStart (status : ℕ) (headers : List (Bytes × Bytes))
  | responseBody (body : Bytes)
  deriving DecidableEq

structure Scope where
  http : Bool
  headers : Option (List (Bytes × Bytes))

/-- `int` of a bytes value, `none` for a `ValueError`. -/
def intOfBytes (b : Bytes) : Option ℤ :=
  if b.all fun x => x.toNat < 128 then intOfText (b.map UInt8.toNat) else none

/-- The value of the first `content-length`. -/
def contentLength (scope : Scope) : Option Bytes :=
  ((scope.headers.getD []).find? fun h => h.1 = utf8 "content-length").map Prod.snd

/-- `_reject`. -/
def reject : List Send :=
  let body := utf8 "\x7b\x22detail\x22:\x22request body too large\x22\x7d"
  [.responseStart 413 [(utf8 "content-type", utf8 "application/json"),
    (utf8 "content-length", utf8 (toString body.length))], .responseBody body]

structure Buffer where
  chunks : List Bytes := []
  total : ℕ := 0

/-- Where the loop over the body stands. -/
inductive State where
  | reading (b : Buffer)
  | tooLarge (b : Buffer)
  | disconnected (b : Buffer)
  | complete (b : Buffer)

def State.buffer : State → Buffer
  | .reading b | .tooLarge b | .disconnected b | .complete b => b

/-- One round of the loop; nothing is received after it. -/
def step (maxBytes : ℕ) : State → Message → State
  | .reading b, .disconnect => .disconnected b
  | .reading b, .request body moreBody =>
      let total := b.total + body.length
      if maxBytes < total then .tooLarge b
      else
        let b : Buffer := ⟨b.chunks ++ [body], total⟩
        if moreBody then .reading b else .complete b
  | s, _ => s

def read (maxBytes : ℕ) (messages : List Message) : State :=
  messages.foldl (step maxBytes) (.reading {})

/-- `replay_receive`: the messages that the application receives, in their order. -/
def replay (body : Bytes) : ℕ → Message
  | 0 => .request body false
  | _ + 1 => .disconnect

/-- What became of a request. -/
inductive Outcome where
  | awaiting
  | refused (sent : List Send)
  | called (receive : ℕ → Message)
  | passedThrough

def State.outcome : State → Outcome
  | .reading _ => .awaiting
  | .tooLarge _ => .refused reject
  | .disconnected _ => .called fun _ => .disconnect
  | .complete b => .called (replay b.chunks.flatten)

def declaredTooLarge (maxBytes : ℕ) (scope : Scope) : Bool :=
  match (contentLength scope).bind intOfBytes with
  | none => false
  | some n => (maxBytes : ℤ) < n

/-- `__call__`. -/
def call (maxBytes : ℕ) (scope : Scope) (messages : List Message) : Outcome :=
  if !scope.http then .passedThrough
  else if declaredTooLarge maxBytes scope then .refused reject
  else (read maxBytes messages).outcome

/-! ## The whole body -/

inductive Ending where
  | unfinished
  | disconnected
  | complete
  deriving DecidableEq

/-- The chunks up to the end of the body or a disconnect, and how it ends. -/
def received : List Message → List Bytes × Ending
  | [] => ([], .unfinished)
  | .disconnect :: _ => ([], .disconnected)
  | .request body false :: _ => ([body], .complete)
  | .request body true :: rest => (body :: (received rest).1, (received rest).2)

def size (chunks : List Bytes) : ℕ := chunks.flatten.length

def Ending.outcome (chunks : List Bytes) : Ending → Outcome
  | .unfinished => .awaiting
  | .disconnected => .called fun _ => .disconnect
  | .complete => .called (replay chunks.flatten)

/-- What a request with this body gets. -/
def measured (maxBytes : ℕ) (chunks : List Bytes) (ending : Ending) : Outcome :=
  if maxBytes < size chunks then .refused reject else ending.outcome chunks

section
variable {maxBytes : ℕ} {messages : List Message} {s : State}

theorem size_cons (c : Bytes) (cs : List Bytes) : size (c :: cs) = c.length + size cs := by
  rw [size, List.flatten_cons, List.length_append, size]

theorem size_append (cs ds : List Bytes) : size (cs ++ ds) = size cs + size ds := by
  rw [size, List.flatten_append, List.length_append, size, size]

/-- The total is that of the stored chunks, and it is within the cap. -/
structure Bounded (maxBytes : ℕ) (b : Buffer) : Prop where
  total : b.total = size b.chunks
  within : b.total ≤ maxBytes

theorem Bounded.store {b : Buffer} (h : Bounded maxBytes b) {body : Bytes}
    (hfits : ¬maxBytes < b.total + body.length) :
    Bounded maxBytes ⟨b.chunks ++ [body], b.total + body.length⟩ := by
  constructor
  · change b.total + body.length = size (b.chunks ++ [body])
    rw [size_append, h.total, size_cons]
    rfl
  · exact not_lt.mp hfits

/-- What one round does with a chunk. -/
theorem step_request (maxBytes : ℕ) (b : Buffer) (body : Bytes) (moreBody : Bool) :
    maxBytes < b.total + body.length ∧
        step maxBytes (.reading b) (.request body moreBody) = .tooLarge b ∨
      ¬maxBytes < b.total + body.length ∧
        step maxBytes (.reading b) (.request body moreBody) =
          if moreBody then .reading ⟨b.chunks ++ [body], b.total + body.length⟩
          else .complete ⟨b.chunks ++ [body], b.total + body.length⟩ := by
  by_cases hlarge : maxBytes < b.total + body.length
  · left
    exact ⟨hlarge, if_pos hlarge⟩
  · right
    exact ⟨hlarge, if_neg hlarge⟩

theorem bounded_step (h : Bounded maxBytes s.buffer) (m : Message) :
    Bounded maxBytes (step maxBytes s m).buffer := by
  cases s with
  | reading b =>
      cases m with
      | disconnect => exact h
      | request body moreBody =>
          rcases step_request maxBytes b body moreBody with ⟨_, hstep⟩ | ⟨hfits, hstep⟩
          · rw [hstep]
            exact h
          · rw [hstep]
            cases moreBody with
            | false => exact Bounded.store h hfits
            | true => exact Bounded.store h hfits
  | tooLarge b => exact h
  | disconnected b => exact h
  | complete b => exact h

/-- What is stored is within the cap after any messages. -/
theorem bounded_read (maxBytes : ℕ) (messages : List Message) :
    Bounded maxBytes (read maxBytes messages).buffer := by
  unfold read
  have hstart : Bounded maxBytes (State.reading {}).buffer := ⟨rfl, Nat.zero_le _⟩
  revert hstart
  generalize State.reading {} = s
  induction messages generalizing s with
  | nil => exact fun h => h
  | cons m messages ih => exact fun h => ih (step maxBytes s m) (bounded_step h m)

/-- The loop is over. -/
theorem foldl_step_of_ended (h : ∀ m, step maxBytes s m = s) (messages : List Message) :
    messages.foldl (step maxBytes) s = s := by
  induction messages with
  | nil => rfl
  | cons m messages ih => rw [List.foldl_cons, h m, ih]

/-- From a buffer on, the loop measures what it holds with what is still received. -/
theorem outcome_foldl {b : Buffer} (h : Bounded maxBytes b) (messages : List Message) :
    (messages.foldl (step maxBytes) (.reading b)).outcome =
      measured maxBytes (b.chunks ++ (received messages).1) (received messages).2 := by
  have hsize : ¬maxBytes < size b.chunks := by
    rw [← h.total]
    exact not_lt.mpr h.within
  induction messages generalizing b with
  | nil =>
      rw [received, List.append_nil, measured, if_neg hsize]
      rfl
  | cons m messages ih =>
      rw [List.foldl_cons]
      cases m with
      | disconnect =>
          have hstep : step maxBytes (.reading b) .disconnect = .disconnected b := rfl
          rw [hstep, foldl_step_of_ended fun _ => rfl]
          dsimp only [received]
          rw [List.append_nil, measured, if_neg hsize]
          rfl
      | request body moreBody =>
          rcases step_request maxBytes b body moreBody with ⟨hlarge, hstep⟩ | ⟨hfits, hstep⟩
          · -- the rest only adds to what is too large
            have hmore : maxBytes <
                size (b.chunks ++ (received (.request body moreBody :: messages)).1) := by
              rw [h.total] at hlarge
              cases moreBody with
              | false =>
                  rw [received, size_append, size_cons]
                  omega
              | true =>
                  rw [received, size_append, size_cons]
                  omega
            rw [hstep, foldl_step_of_ended fun _ => rfl, measured, if_pos hmore]
            rfl
          · have hnext := h.store hfits
            rw [hstep]
            cases moreBody with
            | false =>
                have hwithin : ¬maxBytes < size (b.chunks ++ [body]) := by
                  rw [← hnext.total]
                  exact hfits
                rw [if_neg Bool.false_ne_true, foldl_step_of_ended fun _ => rfl]
                dsimp only [received]
                rw [measured, if_neg hwithin]
                rfl
            | true =>
                have hwithin : ¬maxBytes < size (b.chunks ++ [body]) := by
                  rw [← hnext.total]
                  exact hfits
                rw [if_pos rfl, ih hnext hwithin]
                dsimp only [received]
                rw [List.append_assoc, List.singleton_append]

/-- Reading chunk by chunk is measuring the whole body. -/
theorem outcome_read (maxBytes : ℕ) (messages : List Message) :
    (read maxBytes messages).outcome =
      measured maxBytes (received messages).1 (received messages).2 :=
  outcome_foldl ⟨rfl, Nat.zero_le _⟩ messages

/-! ## Declared lengths -/

/-- A row of ASCII digits. -/
def IsDigits (value : Bytes) : Prop := value ≠ [] ∧ ∀ x ∈ value, isDigit x.toNat = true

theorem withoutUnderscores_digits {ds : Text} (h : ∀ c ∈ ds, isDigit c = true) {prev : ℕ}
    (hprev : prev ≠ 95) : withoutUnderscores prev ds = some ds := by
  induction ds generalizing prev with
  | nil => exact if_neg hprev
  | cons c ds ih =>
      have hc := h c List.mem_cons_self
      have hne : c ≠ 95 := by
        rintro rfl
        revert hc
        decide
      rw [withoutUnderscores, if_neg hne, if_neg (by simp [hprev]),
        ih (fun d hd => h d (List.mem_cons_of_mem c hd)) hne]
      rfl

theorem stripSpaces_digits {ds : Text} (h : ∀ c ∈ ds, isDigit c = true) : stripSpaces ds = ds := by
  have hspace : ∀ c, isDigit c = true → isAsciiSpace c = false := by
    intro c hc
    simp only [isDigit, Bool.and_eq_true, decide_eq_true_eq] at hc
    simp only [isAsciiSpace, Bool.or_eq_false_iff, Bool.and_eq_false_iff, decide_eq_false_iff_not]
    omega
  have hdrop : ∀ t : Text, (∀ c ∈ t, isDigit c = true) → t.dropWhile isAsciiSpace = t := by
    intro t ht
    cases t with
    | nil => rfl
    | cons c t =>
        rw [List.dropWhile_cons_of_neg (by simp [hspace c (ht c List.mem_cons_self)])]
  rw [stripSpaces, hdrop ds h, hdrop ds.reverse fun c hc => h c (List.mem_reverse.mp hc),
    List.reverse_reverse]

theorem mapM_asciiForm_digits {ds : Text} (h : ∀ c ∈ ds, isDigit c = true) :
    ds.mapM asciiForm = some ds := by
  induction ds with
  | nil => rfl
  | cons c ds ih =>
      have hc := h c List.mem_cons_self
      have hform : asciiForm c = some c := by
        simp only [isDigit, Bool.and_eq_true, decide_eq_true_eq] at hc
        exact if_pos (by omega)
      rw [List.mapM_cons, hform, ih fun d hd => h d (List.mem_cons_of_mem c hd)]
      rfl

theorem signed_digits {ds : Text} (h : ∀ c ∈ ds, isDigit c = true) : signed ds = (false, ds) := by
  cases ds with
  | nil => rfl
  | cons c ds =>
      have hc := h c List.mem_cons_self
      simp only [isDigit, Bool.and_eq_true, decide_eq_true_eq] at hc
      unfold signed
      split
      · rename_i heq
        cases heq
        omega
      · rename_i heq
        cases heq
        omega
      · rfl

/-- A row of digits is read unless it is longer than the limit. -/
theorem intOfBytes_digits {value : Bytes} (h : IsDigits value) :
    intOfBytes value = if maxStrDigits < value.length then none
      else some (numeral (value.map UInt8.toNat) : ℤ) := by
  have hdigits : ∀ c ∈ value.map UInt8.toNat, isDigit c = true := by
    intro c hc
    obtain ⟨x, hx, rfl⟩ := List.mem_map.mp hc
    exact h.2 x hx
  have hascii : (value.all fun x => x.toNat < 128) = true := by
    rw [List.all_eq_true]
    intro x hx
    have hdigit := h.2 x hx
    simp only [isDigit, Bool.and_eq_true, decide_eq_true_eq] at hdigit
    simp only [decide_eq_true_eq]
    omega
  have hne : value.map UInt8.toNat ≠ [] := by simpa using h.1
  have hall : (value.map UInt8.toNat).all isDigit = true := List.all_eq_true.mpr hdigits
  rw [intOfBytes, if_pos hascii, intOfText, mapM_asciiForm_digits hdigits, Option.bind_eq_bind,
    Option.bind_some, stripSpaces_digits hdigits, withoutUnderscores_digits hdigits (by decide),
    Option.bind_some, signed_digits hdigits]
  dsimp only
  rw [hall, List.length_map]
  simp only [hne, decide_false, Bool.not_true, Bool.or_false, Bool.false_or, decide_eq_true_eq,
    Bool.false_eq_true, if_false]

/-! ## The cap -/

/-- The first `content-length` is an integer above the cap. -/
def DeclaresMore (maxBytes : ℕ) (scope : Scope) : Prop :=
  ∃ value n, contentLength scope = some value ∧ intOfBytes value = some n ∧ (maxBytes : ℤ) < n

theorem declaredTooLarge_iff {scope : Scope} :
    declaredTooLarge maxBytes scope = true ↔ DeclaresMore maxBytes scope := by
  unfold declaredTooLarge DeclaresMore
  cases hlength : contentLength scope with
  | none => simp
  | some value =>
      rw [Option.bind_some]
      cases hint : intOfBytes value with
      | none => simp [hint]
      | some n => simp [hint]

theorem call_eq (maxBytes : ℕ) (scope : Scope) (hhttp : scope.http = true)
    (messages : List Message) : call maxBytes scope messages =
      if declaredTooLarge maxBytes scope then .refused reject
      else measured maxBytes (received messages).1 (received messages).2 := by
  unfold call
  rw [hhttp, outcome_read]
  rfl

/-- Whatever the headers, the chunks and the disconnects: a request that declares or sends more than
the cap gets one 413 and nothing else; otherwise the application is called once, with the whole
body and then disconnects if the body ends, and with disconnects only if the client goes first; and
what is stored is never above the cap. A length of at most 4300 digits is read as its number. -/
theorem body_limit (maxBytes : ℕ) (headers : Option (List (Bytes × Bytes)))
    (messages : List Message) :
    (DeclaresMore maxBytes ⟨true, headers⟩ ∨ maxBytes < size (received messages).1 →
      call maxBytes ⟨true, headers⟩ messages = .refused reject) ∧
    (¬DeclaresMore maxBytes ⟨true, headers⟩ → size (received messages).1 ≤ maxBytes →
      ((received messages).2 = .complete → ∃ receive,
        call maxBytes ⟨true, headers⟩ messages = .called receive ∧
        receive 0 = .request (received messages).1.flatten false ∧
        ∀ i, receive (i + 1) = .disconnect) ∧
      ((received messages).2 = .disconnected → ∃ receive,
        call maxBytes ⟨true, headers⟩ messages = .called receive ∧
        ∀ i, receive i = .disconnect) ∧
      ((received messages).2 = .unfinished →
        call maxBytes ⟨true, headers⟩ messages = .awaiting)) ∧
    size (read maxBytes messages).buffer.chunks ≤ maxBytes ∧
    (∃ start body, reject = [.responseStart 413 start, .responseBody body]) ∧
    ∀ value, contentLength ⟨true, headers⟩ = some value → IsDigits value →
      value.length ≤ maxStrDigits → maxBytes < numeral (value.map UInt8.toNat) →
      DeclaresMore maxBytes ⟨true, headers⟩ := by
  have hcall := call_eq maxBytes ⟨true, headers⟩ rfl messages
  constructor
  · intro hmore
    rw [hcall]
    by_cases hdeclared : declaredTooLarge maxBytes ⟨true, headers⟩ = true
    · rw [if_pos hdeclared]
    · have hlarge := hmore.resolve_left (mt declaredTooLarge_iff.mpr hdeclared)
      rw [if_neg hdeclared, measured, if_pos hlarge]
  constructor
  · intro hdeclared hwithin
    rw [hcall, if_neg (mt declaredTooLarge_iff.mp hdeclared), measured, if_neg (not_lt.mpr hwithin)]
    constructor
    · intro hending
      rw [hending]
      exact ⟨_, rfl, rfl, fun _ => rfl⟩
    constructor
    · intro hending
      rw [hending]
      exact ⟨_, rfl, fun _ => rfl⟩
    · intro hending
      rw [hending]
      rfl
  constructor
  · have hbounded := bounded_read maxBytes messages
    rw [← hbounded.total]
    exact hbounded.within
  constructor
  · exact ⟨_, _, rfl⟩
  · intro value hlength hdigits hshort hmore
    use value, (numeral (value.map UInt8.toNat) : ℤ)
    constructor
    · exact hlength
    constructor
    · rw [intOfBytes_digits hdigits, if_neg (not_lt.mpr hshort)]
    · exact_mod_cast hmore

end

/-! ## A length of 4301 digits -/

def longLength : Bytes := List.replicate 4301 57

theorem longLength_digits : IsDigits longLength := by
  constructor
  · exact List.cons_ne_nil _ _
  · intro x hx
    rw [List.eq_of_mem_replicate hx]
    decide

theorem numeral_longLength : 0 < numeral (longLength.map UInt8.toNat) := by
  have hgrow : ∀ (ds : Text) (n : ℕ), n ≤ ds.foldl (fun n d => 10 * n + (d - 48)) n := by
    intro ds
    induction ds with
    | nil => exact fun n => le_rfl
    | cons d ds ih =>
        intro n
        have hrest := ih (10 * n + (d - 48))
        rw [List.foldl_cons]
        omega
  rw [longLength, List.map_replicate, List.replicate_succ, numeral, List.foldl_cons]
  exact lt_of_lt_of_le (by decide) (hgrow _ _)

/-- `int` refuses so many digits, so the request is read and the application is called. -/
theorem a_long_length_is_no_length :
    ¬ ∀ (maxBytes : ℕ) (headers : List (Bytes × Bytes)) (messages : List Message) (value : Bytes),
      contentLength ⟨true, some headers⟩ = some value → IsDigits value →
      maxBytes < numeral (value.map UInt8.toNat) →
      call maxBytes ⟨true, some headers⟩ messages = .refused reject := by
  intro h
  have hlength : contentLength ⟨true, some [(utf8 "content-length", longLength)]⟩ =
      some longLength := by
    simp [contentLength]
  have hrefused := h 0 [(utf8 "content-length", longLength)] [.request [] false] longLength hlength
    longLength_digits numeral_longLength
  have hnone : intOfBytes longLength = none := by
    rw [intOfBytes_digits longLength_digits, if_pos]
    rw [longLength, List.length_replicate]
    decide
  have hdeclared : ¬ declaredTooLarge 0 ⟨true, some [(utf8 "content-length", longLength)]⟩ = true := by
    rw [declaredTooLarge, hlength, Option.bind_some, hnone]
    exact Bool.false_ne_true
  rw [call_eq 0 _ rfl, if_neg hdeclared] at hrefused
  cases hrefused

end AikoIsland.BodyLimit
