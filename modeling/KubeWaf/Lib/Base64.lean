import Mathlib.Data.List.Basic

/-!
# Base64

The standard encoding with padding, as JSON carries bytes. Every quantum of up to three bytes
becomes four characters, so that an encoding is longer than what it encodes.
-/

namespace KubeWaf.Lib.Base64

open List

/-- The character of six bits. -/
def char (n : ℕ) : UInt8 :=
  if n < 26 then UInt8.ofNat (65 + n)
  else if n < 52 then UInt8.ofNat (71 + n)
  else if n < 62 then UInt8.ofNat (n - 4)
  else if n = 62 then 43
  else 47

/-- The padding, `=`. -/
def pad : UInt8 := 61

/-- The encoding of some bytes. -/
def encode : List UInt8 → List UInt8
  | [] => []
  | [a] => [char (a.toNat / 4), char (a.toNat % 4 * 16), pad, pad]
  | [a, b] =>
    [char (a.toNat / 4), char (a.toNat % 4 * 16 + b.toNat / 16), char (b.toNat % 16 * 4), pad]
  | a :: b :: c :: rest =>
    char (a.toNat / 4) :: char (a.toNat % 4 * 16 + b.toNat / 16)
      :: char (b.toNat % 16 * 4 + c.toNat / 64) :: char (c.toNat % 64) :: encode rest

/-- The character of six bits in a URL. -/
def urlChar (n : ℕ) : UInt8 :=
  if n = 62 then 45 else if n = 63 then 95 else char n

/-- The encoding for URLs, without padding. -/
def encodeRawURL : List UInt8 → List UInt8
  | [] => []
  | [a] => [urlChar (a.toNat / 4), urlChar (a.toNat % 4 * 16)]
  | [a, b] =>
    [urlChar (a.toNat / 4), urlChar (a.toNat % 4 * 16 + b.toNat / 16), urlChar (b.toNat % 16 * 4)]
  | a :: b :: c :: rest =>
    urlChar (a.toNat / 4) :: urlChar (a.toNat % 4 * 16 + b.toNat / 16)
      :: urlChar (b.toNat % 16 * 4 + c.toNat / 64) :: urlChar (c.toNat % 64) :: encodeRawURL rest

/-- The six bits of a character. -/
def value (c : UInt8) : Option ℕ :=
  let n := c.toNat
  if 65 ≤ n ∧ n ≤ 90 then some (n - 65)
  else if 97 ≤ n ∧ n ≤ 122 then some (n - 71)
  else if 48 ≤ n ∧ n ≤ 57 then some (n + 4)
  else if n = 43 then some 62
  else if n = 47 then some 63
  else none

/-- The bytes of full quanta, of which the last one may be padded. -/
def decodeQuanta : List UInt8 → Option (List UInt8)
  | [] => some []
  | w :: x :: y :: z :: rest => do
    let w ← value w
    let x ← value x
    let a := UInt8.ofNat (w * 4 + x / 16)
    if y = pad then
      if z = pad ∧ rest = [] then some [a] else none
    else do
      let y ← value y
      let b := UInt8.ofNat (x % 16 * 16 + y / 4)
      if z = pad then
        if rest = [] then some [a, b] else none
      else do
        let z ← value z
        let bytes ← decodeQuanta rest
        some (a :: b :: UInt8.ofNat (y % 4 * 64 + z) :: bytes)
  | _ => none

/-- The bytes of an encoding. Line feeds and carriage returns are skipped. -/
def decode (text : List UInt8) : Option (List UInt8) :=
  decodeQuanta (text.filter fun c => c ≠ 10 && c ≠ 13)

-- the equations of `encode`, stated once for the lemmas below
attribute [local simp] encode

lemma length_lt_length_encode {bytes : List UInt8} (h : bytes ≠ []) :
    bytes.length < (encode bytes).length := by
  match bytes, h with
  | [_], _ => simp
  | [_, _], _ => simp
  | a :: b :: c :: rest, _ =>
    simp only [encode, length_cons]
    by_cases hrest : rest = []
    · rw [hrest]
      decide
    · have ih := length_lt_length_encode hrest
      omega

lemma length_encodeRawURL (bytes : List UInt8) :
    (encodeRawURL bytes).length = (bytes.length * 4 + 2) / 3 := by
  match bytes with
  | [] => rfl
  | [_] => simp [encodeRawURL]
  | [_, _] => simp [encodeRawURL]
  | a :: b :: c :: rest =>
    have ih := length_encodeRawURL rest
    simp only [encodeRawURL, length_cons, ih]
    omega

lemma length_encode (bytes : List UInt8) :
    (encode bytes).length = (bytes.length + 2) / 3 * 4 := by
  match bytes with
  | [] => rfl
  | [_] => simp
  | [_, _] => simp
  | a :: b :: c :: rest =>
    have ih := length_encode rest
    simp only [encode, length_cons, ih]
    omega

/-! ## The characters of an encoding -/

lemma le_toNat_char (n : ℕ) : 43 ≤ (char n).toNat := by
  rw [char]
  split_ifs
  · rw [UInt8.toNat_ofNat']
    omega
  · rw [UInt8.toNat_ofNat']
    omega
  · rw [UInt8.toNat_ofNat']
    omega
  · decide
  · decide

lemma le_toNat_of_mem_encode {bytes : List UInt8} {c : UInt8} (h : c ∈ encode bytes) :
    43 ≤ c.toNat := by
  have hchar : ∀ n, c = char n → 43 ≤ c.toNat := fun n hc => hc ▸ le_toNat_char n
  have hpad : c = pad → 43 ≤ c.toNat := fun hc => hc ▸ by decide
  match bytes with
  | [] => exact absurd h not_mem_nil
  | [_] =>
    simp only [encode, mem_cons, not_mem_nil, or_false] at h
    rcases h with h | h | h | h <;> first | exact hchar _ h | exact hpad h
  | [_, _] =>
    simp only [encode, mem_cons, not_mem_nil, or_false] at h
    rcases h with h | h | h | h <;> first | exact hchar _ h | exact hpad h
  | a :: b :: d :: rest =>
    simp only [encode, mem_cons] at h
    rcases h with h | h | h | h | h
    · exact hchar _ h
    · exact hchar _ h
    · exact hchar _ h
    · exact hchar _ h
    · exact le_toNat_of_mem_encode h

lemma lineFeed_notMem_encode (bytes : List UInt8) : 10 ∉ encode bytes := by
  intro h
  exact absurd (le_toNat_of_mem_encode h) (by decide)

lemma carriageReturn_notMem_encode (bytes : List UInt8) : 13 ∉ encode bytes := by
  intro h
  exact absurd (le_toNat_of_mem_encode h) (by decide)

/-! ## Decoding an encoding -/

lemma value_char {n : ℕ} (h : n < 64) : value (char n) = some n := by
  have hall : ∀ m : Fin 64, value (char m) = some m.val := by decide
  exact hall ⟨n, h⟩

lemma char_ne_pad {n : ℕ} (h : n < 64) : char n ≠ pad := by
  intro heq
  have hvalue := value_char h
  rw [heq] at hvalue
  exact absurd hvalue (by decide +revert)

lemma ofNat_eq {a : UInt8} {n : ℕ} (h : n = a.toNat) : UInt8.ofNat n = a := by
  rw [h, UInt8.ofNat_toNat]

lemma decodeQuanta_encode (bytes : List UInt8) : decodeQuanta (encode bytes) = some bytes := by
  match bytes with
  | [] => rfl
  | [a] =>
    have ha : a.toNat < 256 := a.toNat_lt
    have hbyte : UInt8.ofNat (a.toNat / 4 * 4 + a.toNat % 4 * 16 / 16) = a :=
      ofNat_eq (by omega)
    rw [encode, decodeQuanta, value_char (show a.toNat / 4 < 64 by omega),
      value_char (show a.toNat % 4 * 16 < 64 by omega)]
    simp only [Option.bind_eq_bind, Option.bind_some, hbyte, and_self, if_true]
  | [a, b] =>
    have ha : a.toNat < 256 := a.toNat_lt
    have hb : b.toNat < 256 := b.toNat_lt
    have hbyte₁ : UInt8.ofNat (a.toNat / 4 * 4 + (a.toNat % 4 * 16 + b.toNat / 16) / 16) = a :=
      ofNat_eq (by omega)
    have hbyte₂ : UInt8.ofNat
        ((a.toNat % 4 * 16 + b.toNat / 16) % 16 * 16 + b.toNat % 16 * 4 / 4) = b :=
      ofNat_eq (by omega)
    have hy : b.toNat % 16 * 4 < 64 := by omega
    rw [encode, decodeQuanta, value_char (show a.toNat / 4 < 64 by omega),
      value_char (show a.toNat % 4 * 16 + b.toNat / 16 < 64 by omega)]
    simp only [Option.bind_eq_bind, Option.bind_some, hbyte₁, hbyte₂, char_ne_pad hy, value_char hy,
      if_true, if_false]
  | a :: b :: c :: rest =>
    have ha : a.toNat < 256 := a.toNat_lt
    have hb : b.toNat < 256 := b.toNat_lt
    have hc : c.toNat < 256 := c.toNat_lt
    have hbyte₁ : UInt8.ofNat (a.toNat / 4 * 4 + (a.toNat % 4 * 16 + b.toNat / 16) / 16) = a :=
      ofNat_eq (by omega)
    have hbyte₂ : UInt8.ofNat ((a.toNat % 4 * 16 + b.toNat / 16) % 16 * 16
        + (b.toNat % 16 * 4 + c.toNat / 64) / 4) = b :=
      ofNat_eq (by omega)
    have hbyte₃ : UInt8.ofNat
        ((b.toNat % 16 * 4 + c.toNat / 64) % 4 * 64 + c.toNat % 64) = c :=
      ofNat_eq (by omega)
    have hy : b.toNat % 16 * 4 + c.toNat / 64 < 64 := by omega
    have hz : c.toNat % 64 < 64 := by omega
    have ih := decodeQuanta_encode rest
    rw [encode, decodeQuanta, value_char (show a.toNat / 4 < 64 by omega),
      value_char (show a.toNat % 4 * 16 + b.toNat / 16 < 64 by omega)]
    simp only [Option.bind_eq_bind, Option.bind_some, hbyte₁, hbyte₂, hbyte₃, char_ne_pad hy,
      value_char hy, char_ne_pad hz, value_char hz, ih, if_false]

lemma decode_encode (bytes : List UInt8) : decode (encode bytes) = some bytes := by
  have hfilter : (encode bytes).filter (fun c => c ≠ 10 && c ≠ 13) = encode bytes := by
    rw [filter_eq_self]
    intro c hc
    have hten : c ≠ 10 := fun h => lineFeed_notMem_encode bytes (h ▸ hc)
    have hthirteen : c ≠ 13 := fun h => carriageReturn_notMem_encode bytes (h ▸ hc)
    simp [hten, hthirteen]
  rw [decode, hfilter, decodeQuanta_encode]

end KubeWaf.Lib.Base64
