import Mathlib.Tactic

/-!
# Byte layouts and key encodings

The pieces of the signing module that recovery uses: the length-prefixed layout
of signed bytes, the ed25519 Multikey decoder, the strict base64url decoder and
the base64url text of a challenge. Bytes are lists of `UInt8`, texts are
`String`, and an `OriginError` is its text.

The base58 accumulator is a natural number as in the source; its big-endian
bytes are produced with the length of the text as a bound, which is enough
because a base58 digit is below 256. Decoding base64 skips what is in no
alphabet, as the library does.
-/
namespace AikoIsland.Signing

abbrev Bytes := List UInt8

/-- `str.encode()`. -/
def utf8 (s : String) : Bytes := s.toList.flatMap String.utf8EncodeChar

/-- `struct.pack(">I", n)`. -/
def packU32 (n : ℕ) : Bytes :=
  [UInt8.ofNat (n / 2 ^ 24), UInt8.ofNat (n / 2 ^ 16), UInt8.ofNat (n / 2 ^ 8), UInt8.ofNat n]

def lp (b : Bytes) : Bytes := packU32 b.length ++ b

/-! ## base58 and Multikey -/

def b58Alphabet : List Char :=
  "123456789ABCDEFGHJKLMNPQRSTUVWXYZabcdefghijkmnopqrstuvwxyz".toList

def b58Index (c : Char) : Option ℕ := b58Alphabet.idxOf? c

/-- The big-endian bytes of `n`, at most `fuel` of them, none for zero. -/
def bytesBE : ℕ → ℕ → Bytes
  | 0, _ => []
  | fuel + 1, n => if n = 0 then [] else bytesBE fuel (n / 256) ++ [UInt8.ofNat n]

def b58Number : List Char → ℕ → Option ℕ
  | [], num => some num
  | c :: cs, num =>
      match b58Index c with
      | none => none
      | some idx => b58Number cs (num * 58 + idx)

def b58decode (s : List Char) : Option Bytes :=
  (b58Number s 0).map fun num =>
    List.replicate (s.takeWhile (· = '1')).length 0 ++ bytesBE s.length num

def multicodecEd25519 : Bytes := [0xed, 0x01]

def pubkeyRawLen : ℕ := 32

def sigRawLen : ℕ := 64

def maxB58Str : ℕ := 128

/-- The raw key, or the text of the `OriginError`. -/
def decodeMultikey (s : String) : Except String Bytes :=
  match s.toList with
  | [] => .error "sender_pubkey must be a multibase-base58btc Multikey (z…)"
  | c :: body =>
      if c ≠ 'z' then .error "sender_pubkey must be a multibase-base58btc Multikey (z…)"
      else if maxB58Str < s.toList.length then .error "sender_pubkey too long"
      else
        match b58decode body with
        | none => .error "sender_pubkey is not valid base58btc"
        | some decoded =>
            if multicodecEd25519.isPrefixOf decoded then
              let raw := decoded.drop multicodecEd25519.length
              if raw.length = pubkeyRawLen then .ok raw
              else .error ("sender_pubkey raw length " ++ toString raw.length ++ " != 32")
            else .error "sender_pubkey is not an ed25519 Multikey (bad multicodec)"

/-! ## base64url -/

def b64Alphabet : List Char :=
  "ABCDEFGHIJKLMNOPQRSTUVWXYZabcdefghijklmnopqrstuvwxyz0123456789-_".toList

def b64Char (n : ℕ) : Char := b64Alphabet.getD n 'A'

def b64Index (c : Char) : Option ℕ := b64Alphabet.idxOf? c

/-- Unpadded base64url, three bytes to four characters. -/
def b64Encode : Bytes → List Char
  | a :: b :: c :: rest =>
      let n := a.toNat * 65536 + b.toNat * 256 + c.toNat
      b64Char (n / 262144) :: b64Char (n / 4096 % 64) :: b64Char (n / 64 % 64) ::
        b64Char (n % 64) :: b64Encode rest
  | [a, b] =>
      let n := a.toNat * 1024 + b.toNat * 4
      [b64Char (n / 4096), b64Char (n / 64 % 64), b64Char (n % 64)]
  | [a] =>
      let n := a.toNat * 16
      [b64Char (n / 64), b64Char (n % 64)]
  | [] => []

/-- The bytes of a row of sextets; unused low bits of the last one are ignored. -/
def b64Bytes : List ℕ → Option Bytes
  | s :: t :: u :: v :: rest =>
      let n := s * 262144 + t * 4096 + u * 64 + v
      (b64Bytes rest).map fun tail =>
        UInt8.ofNat (n / 65536) :: UInt8.ofNat (n / 256 % 256) :: UInt8.ofNat (n % 256) :: tail
  | [s, t, u] =>
      let n := s * 4096 + t * 64 + u
      some [UInt8.ofNat (n / 1024), UInt8.ofNat (n / 4 % 256)]
  | [s, t] => some [UInt8.ofNat ((s * 64 + t) / 16)]
  | [_] => none
  | [] => some []

def b64Decode (cs : List Char) : Option Bytes := (cs.mapM b64Index).bind b64Bytes

def padding (n : ℕ) : List Char :=
  match n % 4 with
  | 2 => ['=', '=']
  | 3 => ['=']
  | _ => []

/-- `base64.urlsafe_b64encode`. -/
def urlsafeB64encode (b : Bytes) : List Char := b64Encode b ++ padding (b64Encode b).length

/-- The sextet of a character after `-` and `_` were translated to the standard alphabet. -/
def sextetOf (c : Char) : Option ℕ :=
  if c = '+' then some 62 else if c = '/' then some 63 else b64Index c

/-- The sextets that `binascii.a2b_base64` reads: `n` is how many came before, `pads` how many
padding characters stand since the last one. -/
def scanSextets (n pads : ℕ) : List Char → Option (List ℕ)
  | [] => if n % 4 = 0 then some [] else none
  | c :: cs =>
      if c = '=' then
        if 2 ≤ n % 4 then
          if 4 ≤ n % 4 + (pads + 1) then some [] else scanSextets n (pads + 1) cs
        else scanSextets n pads cs
      else
        match sextetOf c with
        | none => scanSextets n pads cs
        | some s => (scanSextets (n + 1) 0 cs).map (s :: ·)

def urlsafeB64decode (cs : List Char) : Option Bytes := (scanSextets 0 0 cs).bind b64Bytes

/-- `_B64URL_UNPADDED_RE.match`: its `$` also stands before a final newline. -/
def isUnpaddedB64url (cs : List Char) : Bool :=
  let body := if cs.getLast? = some '\n' then cs.dropLast else cs
  !body.isEmpty && body.all fun c => (b64Index c).isSome

/-- Unpadded, exact length, and the canonical spelling of the decoded bytes; otherwise the text
of the `OriginError`. -/
def b64urlRaw (s : String) (expectLen : ℕ) (field : String) : Except String Bytes :=
  let maxLen := (expectLen * 8 + 5) / 6
  let len := s.toList.length
  if maxLen < len then
    .error (field ++ " too long (" ++ toString len ++ " > " ++ toString maxLen ++ " chars)")
  else if !isUnpaddedB64url s.toList then
    .error (field ++ " must be unpadded base64url ([A-Za-z0-9_-], no '=')")
  else
    match urlsafeB64decode (s.toList ++ List.replicate ((4 - len % 4) % 4) '=') with
    | none => .error (field ++ " is not valid base64url")
    | some raw =>
        if raw.length ≠ expectLen then
          .error (field ++ " decoded length " ++ toString raw.length ++ " != " ++
            toString expectLen)
        else if b64Encode raw ≠ s.toList then
          .error (field ++ " is not canonical unpadded base64url")
        else .ok raw

/-- `bytes_to_base64url`. -/
def bytesToBase64url (b : Bytes) : String := String.ofList (b64Encode b)

/-- `base64url_to_bytes` on the texts that `bytes_to_base64url` produces. -/
def base64urlToBytes (s : String) : Option Bytes := b64Decode s.toList

/-! ## The base64url round trip -/

theorem b64Index_b64Char {n : ℕ} (h : n < 64) : b64Index (b64Char n) = some n := by
  have hall : ∀ i : Fin 64, b64Index (b64Char i) = some i.val := by decide +kernel
  exact hall ⟨n, h⟩

/-- The sextets that `b64Encode` spells. -/
def sextets : Bytes → List ℕ
  | a :: b :: c :: rest =>
      let n := a.toNat * 65536 + b.toNat * 256 + c.toNat
      n / 262144 :: n / 4096 % 64 :: n / 64 % 64 :: n % 64 :: sextets rest
  | [a, b] =>
      let n := a.toNat * 1024 + b.toNat * 4
      [n / 4096, n / 64 % 64, n % 64]
  | [a] =>
      let n := a.toNat * 16
      [n / 64, n % 64]
  | [] => []

theorem b64Encode_eq (b : Bytes) : b64Encode b = (sextets b).map b64Char := by
  induction b using b64Encode.induct with
  | case1 a b c rest ih => simp [b64Encode, sextets, ih]
  | case2 a b => simp [b64Encode, sextets]
  | case3 a => simp [b64Encode, sextets]
  | case4 => simp [b64Encode, sextets]

theorem sextets_lt {b : Bytes} : ∀ n ∈ sextets b, n < 64 := by
  induction b using sextets.induct with
  | case1 a b c rest ih =>
      have ha := a.toNat_lt
      have hb := b.toNat_lt
      have hc := c.toNat_lt
      simp only [sextets, List.mem_cons]
      rintro m (rfl | rfl | rfl | rfl | hm)
      · omega
      · omega
      · omega
      · omega
      · exact ih m hm
  | case2 a b =>
      have ha := a.toNat_lt
      have hb := b.toNat_lt
      simp only [sextets, List.mem_cons, List.not_mem_nil, or_false]
      rintro m (rfl | rfl | rfl) <;> omega
  | case3 a =>
      have ha := a.toNat_lt
      simp only [sextets, List.mem_cons, List.not_mem_nil, or_false]
      rintro m (rfl | rfl) <;> omega
  | case4 => simp [sextets]

theorem uint8_ofNat_eq {a : UInt8} {n : ℕ} (h : n % 256 = a.toNat) : UInt8.ofNat n = a := by
  apply UInt8.toNat_inj.mp
  rw [UInt8.toNat_ofNat', h]

theorem b64Bytes_sextets (b : Bytes) : b64Bytes (sextets b) = some b := by
  induction b using sextets.induct with
  | case1 a b c rest ih =>
      have ha := a.toNat_lt
      have hb := b.toNat_lt
      have hc := c.toNat_lt
      simp only [sextets, b64Bytes, ih, Option.map_some, Option.some.injEq, List.cons.injEq,
        and_true]
      refine ⟨uint8_ofNat_eq ?_, uint8_ofNat_eq ?_, uint8_ofNat_eq ?_⟩ <;> omega
  | case2 a b =>
      have ha := a.toNat_lt
      have hb := b.toNat_lt
      simp only [sextets, b64Bytes, Option.some.injEq, List.cons.injEq, and_true]
      refine ⟨uint8_ofNat_eq ?_, uint8_ofNat_eq ?_⟩ <;> omega
  | case3 a =>
      have ha := a.toNat_lt
      simp only [sextets, b64Bytes, Option.some.injEq, List.cons.injEq, and_true]
      exact uint8_ofNat_eq (by omega)
  | case4 => rfl

theorem mapM_b64Index {ns : List ℕ} (h : ∀ n ∈ ns, n < 64) :
    (ns.map b64Char).mapM b64Index = some ns := by
  induction ns with
  | nil => rfl
  | cons n ns ih =>
      have hn := b64Index_b64Char (h n List.mem_cons_self)
      have hns := ih fun m hm => h m (List.mem_cons_of_mem n hm)
      rw [List.map_cons, List.mapM_cons, hn, hns]
      rfl

/-- Decoding a challenge text gives back the bytes it was minted from. -/
theorem base64urlToBytes_bytesToBase64url (b : Bytes) :
    base64urlToBytes (bytesToBase64url b) = some b := by
  unfold base64urlToBytes bytesToBase64url b64Decode
  rw [String.toList_ofList, b64Encode_eq, mapM_b64Index sextets_lt]
  exact b64Bytes_sextets b

/-! ## The padded text -/

theorem sextetOf_b64Char {n : ℕ} (h : n < 64) : sextetOf (b64Char n) = some n := by
  have hall : ∀ i : Fin 64, sextetOf (b64Char i) = some i.val := by decide +kernel
  exact hall ⟨n, h⟩

theorem b64Char_ne_pad {n : ℕ} (h : n < 64) : b64Char n ≠ '=' := by
  have hall : ∀ i : Fin 64, b64Char i ≠ '=' := by decide +kernel
  exact hall ⟨n, h⟩

theorem scanSextets_padding {n : ℕ} (h : n % 4 ≠ 1) : scanSextets n 0 (padding n) = some [] := by
  have hcases : n % 4 = 0 ∨ n % 4 = 2 ∨ n % 4 = 3 := by omega
  rcases hcases with hn | hn | hn
  · simp [padding, hn, scanSextets]
  · simp [padding, hn, scanSextets]
  · simp [padding, hn, scanSextets]

/-- The decoder reads the sextets and stops at the padding of their number. -/
theorem scanSextets_map {ns : List ℕ} (hns : ∀ s ∈ ns, s < 64) (n : ℕ)
    (h : (n + ns.length) % 4 ≠ 1) :
    scanSextets n 0 (ns.map b64Char ++ padding (n + ns.length)) = some ns := by
  induction ns generalizing n with
  | nil => exact scanSextets_padding h
  | cons s ns ih =>
      have hs : s < 64 := hns s List.mem_cons_self
      have hrest := ih (fun t ht => hns t (List.mem_cons_of_mem _ ht)) (n + 1) (by
        simp only [List.length_cons] at h
        omega)
      have hlen : n + (s :: ns).length = n + 1 + ns.length := by
        simp only [List.length_cons]
        omega
      rw [hlen, List.map_cons, List.cons_append, scanSextets, if_neg (b64Char_ne_pad hs),
        sextetOf_b64Char hs]
      dsimp only
      rw [hrest]
      rfl

theorem length_sextets_mod (b : Bytes) : (sextets b).length % 4 ≠ 1 := by
  induction b using sextets.induct with
  | case1 a b c rest ih =>
      simp only [sextets, List.length_cons]
      omega
  | case2 a b => simp [sextets]
  | case3 a => simp [sextets]
  | case4 => simp [sextets]

theorem urlsafeB64decode_encode (b : Bytes) : urlsafeB64decode (urlsafeB64encode b) = some b := by
  have hlen : (0 + (sextets b).length) % 4 ≠ 1 := by
    rw [Nat.zero_add]
    exact length_sextets_mod b
  have hscan := scanSextets_map sextets_lt 0 hlen
  rw [Nat.zero_add] at hscan
  rw [urlsafeB64decode, urlsafeB64encode, b64Encode_eq, List.length_map, hscan]
  exact b64Bytes_sextets b

/-- The padding that `b64url_raw` puts back is that of the encoder. -/
theorem replicate_eq_padding {n : ℕ} (h : n % 4 ≠ 1) :
    List.replicate ((4 - n % 4) % 4) '=' = padding n := by
  have hcases : n % 4 = 0 ∨ n % 4 = 2 ∨ n % 4 = 3 := by omega
  rcases hcases with hn | hn | hn
  · simp [padding, hn]
  · simp [padding, hn, List.replicate]
  · simp [padding, hn]

example : bytesToBase64url [0xff, 0x00, 0x7f, 0x01] = "_wB_AQ" := by decide

end AikoIsland.Signing
