/-
Lists of parameters as text: `application/x-www-form-urlencoded`.

A name or a value is written as its UTF-8 bytes. A letter, a digit and four other signs
stand for themselves, a space is `+`, and every other byte is a percent sign with two hex
digits. So `&` and `=` stand between the parameters and nowhere else, and what was
written is read back, whatever the texts are.

The reader takes a percent sign without two hex digits as it is. Bytes that are no UTF-8
are not read at all here.
-/
import TechTrends.Json

set_option autoImplicit false

namespace FormUrlEncoded

/-- Parameters, in their order. -/
abbrev Params := List (String × String)

/-! ## Writing -/

/-- The bytes that stand for themselves: letters, digits and `*`, `-`, `.`, `_`. -/
def isPlain (b : UInt8) : Bool :=
  (48 ≤ b && b ≤ 57) || (65 ≤ b && b ≤ 90) || (97 ≤ b && b ≤ 122) || b == 42 || b == 45 || b == 46 || b == 95

/-- A byte of a text. Its hex digits are capitals, where JSON's are small. -/
def encodeByte (b : UInt8) : List Char :=
  if b = 32 then ['+']
  else if isPlain b then [Char.ofNat b.toNat]
  else ['%', (Json.hexDigit (b.toNat / 16)).toUpper, (Json.hexDigit (b.toNat % 16)).toUpper]

def encodeBytes (bs : List UInt8) : List Char := bs.flatMap encodeByte

/-- The bytes of a text. -/
def utf8 (s : String) : List UInt8 := s.toList.flatMap String.utf8EncodeChar

def encode (s : String) : List Char := encodeBytes (utf8 s)

/-- One parameter. -/
def writePair (param : String × String) : List Char := encode param.1 ++ '=' :: encode param.2

def serialize (params : Params) : String := String.ofList (List.intercalate ['&'] (params.map writePair))

/-! ## Reading -/

def decodeBytes : List Char → List UInt8
  | [] => []
  | '+' :: cs => 32 :: decodeBytes cs
  | '%' :: high :: low :: cs =>
    match Json.hexValue high, Json.hexValue low with
    | some a, some b => UInt8.ofNat (16 * a + b) :: decodeBytes cs
    | _, _ => 37 :: decodeBytes (high :: low :: cs)
  | c :: cs => String.utf8EncodeChar c ++ decodeBytes cs

/-- The text that the bytes are, when they are one. -/
def ofUtf8 (bs : List UInt8) : Option String :=
  bs.toByteArray.utf8Decode?.map fun cs => String.ofList cs.toList

def decode (cs : List Char) : Option String := ofUtf8 (decodeBytes cs)

/-- A parameter is cut at its first `=`; without one its value is empty. -/
def readPair (cs : List Char) : Option (String × String) := do
  let name ← decode (cs.takeWhile (· ≠ '='))
  let value ← decode ((cs.dropWhile (· ≠ '=')).drop 1)
  some (name, value)

def parse (text : String) : Option Params := ((text.toList.splitOn '&').filter (· ≠ [])).mapM readPair

/-! ## One byte -/

theorem hexValue_toUpper : ∀ n < 16, Json.hexValue (Json.hexDigit n).toUpper = some n := by decide

theorem utf8EncodeChar_plain : ∀ n < 256, isPlain (UInt8.ofNat n) = true →
    String.utf8EncodeChar (Char.ofNat n) = [UInt8.ofNat n] := by decide +kernel

theorem plain_sign : ∀ n < 256, isPlain (UInt8.ofNat n) = true →
    Char.ofNat n ≠ '+' ∧ Char.ofNat n ≠ '%' ∧ Char.ofNat n ≠ '&' ∧ Char.ofNat n ≠ '=' := by decide +kernel

theorem toUpper_sign : ∀ n < 16, (Json.hexDigit n).toUpper ≠ '&' ∧ (Json.hexDigit n).toUpper ≠ '=' := by decide

/-- A written byte is read back, whatever follows it: itself, a `+`, or a percent sign with
its two digits. -/
theorem decodeBytes_encodeByte (b : UInt8) (cs : List Char) :
    decodeBytes (encodeByte b ++ cs) = b :: decodeBytes cs := by
  have hb : b.toNat < 256 := UInt8.toNat_lt_size b
  have hbyte : UInt8.ofNat b.toNat = b := UInt8.ofNat_toNat
  rw [encodeByte]
  split
  · next hspace =>
    subst hspace
    rfl
  · split
    · next hplain =>
      rw [← hbyte] at hplain
      obtain ⟨hplus, hpercent, -⟩ := plain_sign b.toNat hb hplain
      rw [List.singleton_append, decodeBytes.eq_4 _ _ hplus (fun _ _ _ h => absurd h hpercent),
        utf8EncodeChar_plain b.toNat hb hplain, hbyte]
      rfl
    · rw [List.cons_append, List.cons_append, List.cons_append, List.nil_append, decodeBytes,
        hexValue_toUpper _ (by omega), hexValue_toUpper _ (by omega)]
      simp only [Nat.div_add_mod, hbyte]

theorem decodeBytes_encodeBytes (bs : List UInt8) : decodeBytes (encodeBytes bs) = bs := by
  induction bs with
  | nil => rfl
  | cons b bs ih => rw [encodeBytes, List.flatMap_cons, decodeBytes_encodeByte, ← encodeBytes, ih]

/-- A written byte holds no `&` and no `=`. -/
theorem encodeByte_sign (b : UInt8) : ∀ c ∈ encodeByte b, c ≠ '&' ∧ c ≠ '=' := by
  have hb : b.toNat < 256 := UInt8.toNat_lt_size b
  intro c hc
  rw [encodeByte] at hc
  split at hc
  · rw [List.mem_singleton.1 hc]
    decide
  · split at hc
    · next hplain =>
      rw [← UInt8.ofNat_toNat (x := b)] at hplain
      rw [List.mem_singleton.1 hc]
      exact (plain_sign b.toNat hb hplain).2.2
    · simp only [List.mem_cons, List.not_mem_nil, or_false] at hc
      rcases hc with rfl | rfl | rfl
      · decide
      · exact toUpper_sign _ (by omega)
      · exact toUpper_sign _ (by omega)

/-! ## Texts -/

theorem ofUtf8_utf8 (s : String) : ofUtf8 (utf8 s) = some s := by
  have hbytes : (utf8 s).toByteArray = s.toList.utf8Encode := rfl
  rw [ofUtf8, hbytes, List.utf8Decode?_utf8Encode, Option.map_some, List.toList_toArray, String.ofList_toList]

/-- A text is read back. -/
theorem decode_encode (s : String) : decode (encode s) = some s := by
  rw [decode, encode, decodeBytes_encodeBytes, ofUtf8_utf8]

/-- No written text holds a sign that stands between texts. -/
theorem encode_sign (s : String) : ∀ c ∈ encode s, c ≠ '&' ∧ c ≠ '=' := by
  intro c hc
  obtain ⟨b, -, hb⟩ := List.mem_flatMap.1 hc
  exact encodeByte_sign b c hb

/-! ## Parameters -/

/-- A pair is read back, as the first `=` is the one between its name and its value. -/
theorem readPair_writePair (param : String × String) : readPair (writePair param) = some param := by
  have hname : ∀ c ∈ encode param.1, decide (c ≠ '=') = true := fun c hc =>
    decide_eq_true (encode_sign param.1 c hc).2
  have htake : (writePair param).takeWhile (· ≠ '=') = encode param.1 := by
    rw [writePair, List.takeWhile_append_of_pos hname, List.takeWhile_cons_of_neg (by decide), List.append_nil]
  have hdrop : (writePair param).dropWhile (· ≠ '=') = '=' :: encode param.2 := by
    rw [writePair, List.dropWhile_append_of_pos hname, List.dropWhile_cons_of_neg (by decide)]
  rw [readPair, htake, hdrop, List.drop_one, List.tail_cons, decode_encode, decode_encode]
  rfl

theorem writePair_sign (param : String × String) : '&' ∉ writePair param := by
  intro h
  rw [writePair, List.mem_append, List.mem_cons] at h
  rcases h with h | h | h
  · exact (encode_sign param.1 _ h).1 rfl
  · exact absurd h (by decide)
  · exact (encode_sign param.2 _ h).1 rfl

theorem mapM_readPair (params : Params) : (params.map writePair).mapM readPair = some params := by
  induction params with
  | nil => rfl
  | cons param params ih =>
    rw [List.map_cons, List.mapM_cons, readPair_writePair, ih]
    rfl

/-- **The round trip.** The parameters are read back, in their order, also those with empty
names or values and those of the same name. -/
theorem parse_serialize (params : Params) : parse (serialize params) = some params := by
  rw [parse, serialize, String.toList_ofList]
  cases params with
  | nil => rfl
  | cons param params =>
    have hsigns : ∀ cs ∈ (param :: params).map writePair, '&' ∉ cs := by
      intro cs hcs
      obtain ⟨p, -, rfl⟩ := List.mem_map.1 hcs
      exact writePair_sign p
    -- no parameter is written as nothing
    have hkept : ∀ cs ∈ (param :: params).map writePair, decide (cs ≠ []) = true := by
      intro cs hcs
      obtain ⟨p, -, rfl⟩ := List.mem_map.1 hcs
      simp [writePair]
    rw [List.splitOn_intercalate '&' hsigns (by simp), List.filter_eq_self.2 hkept, mapM_readPair]

end FormUrlEncoded
