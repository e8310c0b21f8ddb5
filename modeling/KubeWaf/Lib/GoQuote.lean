import KubeWaf.Lib.Scan
import Mathlib.Tactic

/-!
# Quoted strings

`strconv.Quote` of Go, which the verb `%q` prints, and the reading of such a literal. A text is a
list of bytes, each written as the character with its code; a character above `U+00FF` stands for
no byte and is kept as it is. Which runes above ASCII `strconv.IsPrint` has is a parameter.
-/

namespace KubeWaf.Lib.Go

open List

variable {c d : Char} {s : List Char} {r n : ℕ} (isPrint : ℕ → Bool)

/-! ## UTF-8 -/

def isContinuation (c : Char) : Bool := 0x80 ≤ c.toNat && c.toNat ≤ 0xBF

def tailBits (c : Char) : ℕ := c.toNat - 0x80

/-- The rune above ASCII at the start of a text, with the number of its bytes
(`utf8.DecodeRuneInString`), or nothing where the bytes are no UTF-8. -/
def decodeRune : List Char → Option (ℕ × ℕ)
  | c :: s =>
    if 0xC2 ≤ c.toNat ∧ c.toNat ≤ 0xDF then
      match s with
      | d :: _ => if isContinuation d then some ((c.toNat - 0xC0) * 64 + tailBits d, 2) else none
      | _ => none
    else if 0xE0 ≤ c.toNat ∧ c.toNat ≤ 0xEF then
      match s with
      | d :: e :: _ =>
        let r := (c.toNat - 0xE0) * 4096 + tailBits d * 64 + tailBits e
        if isContinuation d ∧ isContinuation e ∧ 0x800 ≤ r ∧ (r < 0xD800 ∨ 0xDFFF < r)
        then some (r, 3) else none
      | _ => none
    else if 0xF0 ≤ c.toNat ∧ c.toNat ≤ 0xF4 then
      match s with
      | d :: e :: f :: _ =>
        let r := (c.toNat - 0xF0) * 262144 + tailBits d * 4096 + tailBits e * 64 + tailBits f
        if isContinuation d ∧ isContinuation e ∧ isContinuation f ∧ 0x10000 ≤ r ∧ r ≤ 0x10FFFF
        then some (r, 4) else none
      | _ => none
    else none
  | [] => none

/-- The bytes of a rune (`utf8.AppendRune`). -/
def encodeRune (r : ℕ) : List Char :=
  if r < 0x80 then [Char.ofNat r]
  else if r < 0x800 then [Char.ofNat (0xC0 + r / 64), Char.ofNat (0x80 + r % 64)]
  else if r < 0x10000 then
    [Char.ofNat (0xE0 + r / 4096), Char.ofNat (0x80 + r / 64 % 64), Char.ofNat (0x80 + r % 64)]
  else
    [Char.ofNat (0xF0 + r / 262144), Char.ofNat (0x80 + r / 4096 % 64),
      Char.ofNat (0x80 + r / 64 % 64), Char.ofNat (0x80 + r % 64)]

/-! ## Quoting -/

def hexDigit (n : ℕ) : Char := if n < 10 then Char.ofNat (48 + n) else Char.ofNat (87 + n)

/-- The last `k` hexadecimal digits of a number. -/
def hexDigits : ℕ → ℕ → List Char
  | 0, _ => []
  | k + 1, n => hexDigit (n / 16 ^ k % 16) :: hexDigits k n

/-- The escape of an ASCII character, as `appendEscapedRune` writes it. -/
def escapeASCII (c : Char) : List Char :=
  if c = '"' ∨ c = '\\' then ['\\', c]
  else if 0x20 ≤ c.toNat ∧ c.toNat < 0x7F then [c]
  else if c.toNat = 7 then ['\\', 'a']
  else if c.toNat = 8 then ['\\', 'b']
  else if c.toNat = 12 then ['\\', 'f']
  else if c.toNat = 10 then ['\\', 'n']
  else if c.toNat = 13 then ['\\', 'r']
  else if c.toNat = 9 then ['\\', 't']
  else if c.toNat = 11 then ['\\', 'v']
  else ['\\', 'x'] ++ hexDigits 2 c.toNat

/-- The escape of a rune above ASCII that is not printed. -/
def escapeRune (r : ℕ) : List Char :=
  if r < 0x10000 then ['\\', 'u'] ++ hexDigits 4 r else ['\\', 'U'] ++ hexDigits 8 r

/-- What is written for the rune at the start of a text, with the number of its bytes. -/
def escapeAt (isPrint : ℕ → Bool) (c : Char) (s : List Char) : List Char × ℕ :=
  if c.toNat < 0x80 then (escapeASCII c, 1)
  else
    match decodeRune (c :: s) with
    | some (r, width) => if isPrint r then ((c :: s).take width, width) else (escapeRune r, width)
    | none => if c.toNat < 256 then (['\\', 'x'] ++ hexDigits 2 c.toNat, 1) else ([c], 1)

/-- The loop of `strconv.Quote`; `skip` bytes have been written with the rune before. -/
def quoteFrom (isPrint : ℕ → Bool) : ℕ → List Char → List Char
  | _, [] => []
  | skip + 1, _ :: s => quoteFrom isPrint skip s
  | 0, c :: s => (escapeAt isPrint c s).1 ++ quoteFrom isPrint ((escapeAt isPrint c s).2 - 1) s

/-- `strconv.Quote(s)`. -/
def quote (isPrint : ℕ → Bool) (s : List Char) : List Char :=
  '"' :: quoteFrom isPrint 0 s ++ ['"']

/-! ## Reading a literal -/

def hexValue (c : Char) : Option ℕ :=
  if '0' ≤ c ∧ c ≤ '9' then some (c.toNat - 48)
  else if 'a' ≤ c ∧ c ≤ 'f' then some (c.toNat - 87)
  else if 'A' ≤ c ∧ c ≤ 'F' then some (c.toNat - 55)
  else none

/-- The number that the first `k` characters write in hexadecimal. -/
def readHex : ℕ → ℕ → List Char → Option ℕ
  | 0, acc, _ => some acc
  | k + 1, acc, c :: s => (hexValue c).bind fun d => readHex k (acc * 16 + d) s
  | _ + 1, _, [] => none

/-- `utf8.ValidRune(r)`. -/
def validRune (r : ℕ) : Bool := r < 0xD800 || (0xDFFF < r && r ≤ 0x10FFFF)

/-- The number that three octal digits write, when it is a byte. -/
def readOctal : List Char → Option ℕ
  | a :: b :: c :: _ =>
    if [a, b, c].all fun d => '0' ≤ d && d ≤ '7' then
      let n := (a.toNat - 48) * 64 + (b.toNat - 48) * 8 + (c.toNat - 48)
      if n < 256 then some n else none
    else none
  | _ => none

/-- The bytes for which the escape behind a backslash stands, and the number of its characters
(`strconv.UnquoteChar`). -/
def unescape (quote : Char) : List Char → Option (List Char × ℕ)
  | [] => none
  | c :: s =>
    if c = 'a' then some ([Char.ofNat 7], 1)
    else if c = 'b' then some ([Char.ofNat 8], 1)
    else if c = 'f' then some ([Char.ofNat 12], 1)
    else if c = 'n' then some (['\n'], 1)
    else if c = 'r' then some (['\r'], 1)
    else if c = 't' then some (['\t'], 1)
    else if c = 'v' then some ([Char.ofNat 11], 1)
    else if c = '\\' then some (['\\'], 1)
    else if c = quote then some ([quote], 1)
    else if c = 'x' then (readHex 2 0 s).map fun n => ([Char.ofNat n], 3)
    else if c = 'u' then
      (readHex 4 0 s).bind fun n => if validRune n then some (encodeRune n, 5) else none
    else if c = 'U' then
      (readHex 8 0 s).bind fun n => if validRune n then some (encodeRune n, 9) else none
    else (readOctal (c :: s)).map fun n => ([Char.ofNat n], 3)

/-- The text that the inside of a literal stands for; `skip` characters belong to the escape
before. -/
def unquoteFrom (quote : Char) : ℕ → List Char → Option (List Char)
  | _, [] => some []
  | skip + 1, _ :: s => unquoteFrom quote skip s
  | 0, c :: s =>
    if c = '\\' then
      (unescape quote s).bind fun (bytes, n) => (unquoteFrom quote n s).map (bytes ++ ·)
    else (unquoteFrom quote 0 s).map (c :: ·)

/-- The text that the inside of a literal in double or single quotes stands for. -/
def unquote (quote : Char) (body : List Char) : Option (List Char) := unquoteFrom quote 0 body

/-! ## Hexadecimal digits -/

lemma hexValue_hexDigit (h : n < 16) : hexValue (hexDigit n) = some n := by
  have hall : ∀ m : Fin 16, hexValue (hexDigit m) = some m.val := by decide
  exact hall ⟨n, h⟩

lemma length_hexDigits (k n : ℕ) : (hexDigits k n).length = k := by
  induction k with
  | zero => rfl
  | succ k ih => rw [hexDigits, length_cons, ih]

lemma readHex_hexDigits (k acc n : ℕ) (s : List Char) :
    readHex k acc (hexDigits k n ++ s) = some (acc * 16 ^ k + n % 16 ^ k) := by
  induction k generalizing acc with
  | zero => simp [readHex, Nat.mod_one]
  | succ k ih =>
    have hdigit : hexValue (hexDigit (n / 16 ^ k % 16)) = some (n / 16 ^ k % 16) :=
      hexValue_hexDigit (Nat.mod_lt _ (by omega))
    have hmod : n % 16 ^ (k + 1) = n / 16 ^ k % 16 * 16 ^ k + n % 16 ^ k := by
      rw [pow_succ, Nat.mod_mul]
      ring
    rw [hexDigits, cons_append, readHex, hdigit, Option.bind_some, ih, hmod]
    ring_nf

/-- A character of a literal that is no delimiter, no escape and no line feed. -/
def Inert (c : Char) : Prop := c ≠ '"' ∧ c ≠ '\\' ∧ c ≠ '\n'

lemma inert_of_large (h : 0x80 ≤ c.toNat) : Inert c := by
  refine ⟨?_, ?_, ?_⟩
  all_goals
    intro heq
    rw [heq] at h
    revert h
    decide

lemma inert_hexDigits {k : ℕ} (h : c ∈ hexDigits k n) : Inert c := by
  have hall : ∀ m : Fin 16, hexDigit m ≠ '"' ∧ hexDigit m ≠ '\\' ∧ hexDigit m ≠ '\n' := by
    decide
  induction k with
  | zero => simp [hexDigits] at h
  | succ k ih =>
    rcases mem_cons.mp h with h | h
    · rw [h]
      exact hall ⟨n / 16 ^ k % 16, Nat.mod_lt _ (by omega)⟩
    · exact ih h

/-! ## Runes -/

lemma ofNat_eq (h : n = c.toNat) : Char.ofNat n = c := by
  rw [h, Char.ofNat_toNat]

/-- What `decodeRune` reads: a rune above ASCII, written by the bytes that encode it. -/
structure IsRune (s : List Char) (r width : ℕ) : Prop where
  pos : 0 < width
  le : width ≤ s.length
  large : ∀ c ∈ s.take width, 0x80 ≤ c.toNat
  valid : validRune r = true
  bytes : encodeRune r = s.take width

lemma isContinuation_iff : isContinuation c = true ↔ 0x80 ≤ c.toNat ∧ c.toNat ≤ 0xBF := by
  simp [isContinuation]

lemma validRune_iff : validRune r = true ↔ r < 0xD800 ∨ (0xDFFF < r ∧ r ≤ 0x10FFFF) := by
  simp [validRune]

lemma isRune_two (hc : 0xC2 ≤ c.toNat ∧ c.toNat ≤ 0xDF) (hd : isContinuation d = true) :
    IsRune (c :: d :: s) ((c.toNat - 0xC0) * 64 + tailBits d) 2 := by
  rw [isContinuation_iff] at hd
  have hbits : tailBits d = d.toNat - 0x80 := rfl
  refine ⟨by omega, by simp, by simp; omega, by rw [validRune_iff]; omega, ?_⟩
  rw [encodeRune, if_neg (by omega), if_pos (by omega), hbits, ofNat_eq (c := c) (by omega),
    ofNat_eq (c := d) (by omega)]
  rfl

lemma isRune_three {e : Char} (hc : 0xE0 ≤ c.toNat ∧ c.toNat ≤ 0xEF)
    (hd : isContinuation d = true) (he : isContinuation e = true)
    (hr : r = (c.toNat - 0xE0) * 4096 + tailBits d * 64 + tailBits e) (hlow : 0x800 ≤ r)
    (hsurrogate : r < 0xD800 ∨ 0xDFFF < r) : IsRune (c :: d :: e :: s) r 3 := by
  rw [isContinuation_iff] at hd he
  have hd' : tailBits d = d.toNat - 0x80 := rfl
  have he' : tailBits e = e.toNat - 0x80 := rfl
  refine ⟨by omega, by simp, by simp; omega, by rw [validRune_iff]; omega, ?_⟩
  rw [encodeRune, if_neg (by omega), if_neg (by omega), if_pos (by omega),
    ofNat_eq (c := c) (by omega), ofNat_eq (c := d) (by omega), ofNat_eq (c := e) (by omega)]
  rfl

lemma isRune_four {e f : Char} (hc : 0xF0 ≤ c.toNat ∧ c.toNat ≤ 0xF4)
    (hd : isContinuation d = true) (he : isContinuation e = true) (hf : isContinuation f = true)
    (hr : r = (c.toNat - 0xF0) * 262144 + tailBits d * 4096 + tailBits e * 64 + tailBits f)
    (hlow : 0x10000 ≤ r) (hhigh : r ≤ 0x10FFFF) : IsRune (c :: d :: e :: f :: s) r 4 := by
  rw [isContinuation_iff] at hd he hf
  have hd' : tailBits d = d.toNat - 0x80 := rfl
  have he' : tailBits e = e.toNat - 0x80 := rfl
  have hf' : tailBits f = f.toNat - 0x80 := rfl
  refine ⟨by omega, by simp, by simp; omega, by rw [validRune_iff]; omega, ?_⟩
  rw [encodeRune, if_neg (by omega), if_neg (by omega), if_neg (by omega),
    ofNat_eq (c := c) (by omega), ofNat_eq (c := d) (by omega), ofNat_eq (c := e) (by omega),
    ofNat_eq (c := f) (by omega)]
  rfl

lemma decodeRune_eq_some {width : ℕ} (h : decodeRune s = some (r, width)) : IsRune s r width := by
  unfold decodeRune at h
  split at h
  · -- the lead byte fixes the number of continuation bytes, which must be there
    split_ifs at h with htwo hthree hfour
    · split at h
      · split_ifs at h with hd
        rw [← (Prod.mk.inj (Option.some.inj h)).1, ← (Prod.mk.inj (Option.some.inj h)).2]
        exact isRune_two htwo hd
      · cases h
    · split at h
      · simp only at h
        split_ifs at h with hall
        rw [← (Prod.mk.inj (Option.some.inj h)).1, ← (Prod.mk.inj (Option.some.inj h)).2]
        exact isRune_three hthree hall.1 hall.2.1 rfl hall.2.2.1 hall.2.2.2
      · cases h
    · split at h
      · simp only at h
        split_ifs at h with hall
        rw [← (Prod.mk.inj (Option.some.inj h)).1, ← (Prod.mk.inj (Option.some.inj h)).2]
        exact isRune_four hfour hall.1 hall.2.1 hall.2.2.1 rfl hall.2.2.2.1 hall.2.2.2.2
      · cases h
  · cases h

/-! ## What is written is read back -/

/-- A piece of the inside of a literal in double quotes that stands for the given bytes, whatever
follows it: it is read as these bytes, it does not close the literal and it has no line feed. -/
structure Literal (piece bytes : List Char) : Prop where
  reads : ∀ rest, unquoteFrom '"' 0 (piece ++ rest) = (unquoteFrom '"' 0 rest).map (bytes ++ ·)
  inside : runThrough literalStep (.inside '"') piece = some (.inside '"')
  oneLine : '\n' ∉ piece

lemma Literal.nil : Literal [] [] where
  reads rest := by simp
  inside := rfl
  oneLine := by simp

lemma Literal.append {a b x y : List Char} (ha : Literal a x) (hb : Literal b y) :
    Literal (a ++ b) (x ++ y) where
  reads rest := by
    rw [append_assoc, ha.reads, hb.reads, Option.map_map]
    congr 1
    funext z
    simp
  inside := by
    rw [runThrough_append, ha.inside, Option.bind_some, hb.inside]
  oneLine := by
    rw [mem_append, not_or]
    exact ⟨ha.oneLine, hb.oneLine⟩

lemma literalStep_inert (h : Inert c) : literalStep (.inside '"') c = some (.inside '"') := by
  rw [literalStep, Quote.next, if_neg h.2.1, if_neg h.1]

lemma runThrough_inert (h : ∀ c ∈ s, Inert c) :
    runThrough literalStep (.inside '"') s = some (.inside '"') := by
  induction s with
  | nil => rfl
  | cons c s ih =>
    have hc : Inert c := h c mem_cons_self
    have hs : ∀ d ∈ s, Inert d := fun d hd => h d (mem_cons_of_mem _ hd)
    rw [runThrough, literalStep_inert hc, Option.bind_some, ih hs]

lemma not_mem_of_inert (h : ∀ c ∈ s, Inert c) : '\n' ∉ s :=
  fun hmem => (h _ hmem).2.2 rfl

lemma Literal.raw (h : ∀ c ∈ s, Inert c) : Literal s s where
  reads rest := by
    induction s with
    | nil => simp
    | cons c s ih =>
      have hc : Inert c := h c mem_cons_self
      have hs : ∀ d ∈ s, Inert d := fun d hd => h d (mem_cons_of_mem _ hd)
      rw [cons_append, unquoteFrom, if_neg hc.2.1, ih hs, Option.map_map]
      rfl
  inside := runThrough_inert h
  oneLine := not_mem_of_inert h

lemma unquoteFrom_skip (quote : Char) (x s : List Char) :
    unquoteFrom quote x.length (x ++ s) = unquoteFrom quote 0 s := by
  induction x with
  | nil => rfl
  | cons c x ih => rw [length_cons, cons_append, unquoteFrom, ih]

lemma Literal.escape {bytes : List Char} (hc : c ≠ '\n') (hs : ∀ d ∈ s, Inert d)
    (hread : ∀ rest, unescape '"' (c :: s ++ rest) = some (bytes, (c :: s).length)) :
    Literal ('\\' :: c :: s) bytes where
  reads rest := by
    have hskip := unquoteFrom_skip '"' (c :: s) rest
    rw [cons_append, unquoteFrom, if_pos rfl, hread, Option.bind_some]
    simp only
    rw [hskip]
  inside := by
    show ((some (Quote.escaped '"')).bind fun st => runThrough literalStep st (c :: s)) = _
    rw [Option.bind_some, runThrough]
    show ((some (Quote.inside '"')).bind fun st => runThrough literalStep st s) = _
    rw [Option.bind_some, runThrough_inert hs]
  oneLine := by
    have hmem : '\n' ∉ s := not_mem_of_inert hs
    simp only [mem_cons, not_or]
    exact ⟨by decide, hc.symm, hmem⟩

lemma literal_hexByte (h : n < 256) : Literal (['\\', 'x'] ++ hexDigits 2 n) [Char.ofNat n] := by
  have hmod : n % 16 ^ 2 = n := Nat.mod_eq_of_lt (by omega)
  apply Literal.escape (by decide) (fun d hd => inert_hexDigits hd)
  intro rest
  show (readHex 2 0 (hexDigits 2 n ++ rest)).map _ = _
  rw [readHex_hexDigits, hmod]
  simp [length_hexDigits]

lemma literal_hexRune {k : ℕ} (hc : c ≠ '\n') (hr : r < 16 ^ k) (hvalid : validRune r = true)
    (hread : ∀ s, unescape '"' (c :: s) =
      (readHex k 0 s).bind fun n => if validRune n then some (encodeRune n, k + 1) else none) :
    Literal ('\\' :: c :: hexDigits k r) (encodeRune r) := by
  apply Literal.escape hc (fun d hd => inert_hexDigits hd)
  intro rest
  rw [cons_append, hread, readHex_hexDigits, Nat.mod_eq_of_lt hr, Option.bind_some, Nat.zero_mul,
    Nat.zero_add, if_pos hvalid, length_cons, length_hexDigits]

lemma literal_escapeRune (hvalid : validRune r = true) : Literal (escapeRune r) (encodeRune r) := by
  have hr := (validRune_iff).mp hvalid
  rw [escapeRune]
  split_ifs with hsmall
  · exact literal_hexRune (by decide) (by omega) hvalid fun _ => rfl
  · exact literal_hexRune (by decide) (by omega) hvalid fun _ => rfl

lemma literal_letter {bytes : List Char} (hc : c ≠ '\n')
    (hread : ∀ rest, unescape '"' (c :: rest) = some (bytes, 1)) : Literal ['\\', c] bytes :=
  Literal.escape hc (by simp) hread

lemma literal_code (hn : c.toNat = n) (hd : d ≠ '\n')
    (hread : ∀ rest, unescape '"' (d :: rest) = some ([Char.ofNat n], 1)) :
    Literal ['\\', d] [c] := by
  rw [← ofNat_eq hn.symm]
  exact literal_letter hd hread

lemma literal_escapeASCII (h : c.toNat < 0x80) : Literal (escapeASCII c) [c] := by
  unfold escapeASCII
  split_ifs with h1 h2 h3 h4 h5 h6 h7 h8 h9
  · rcases h1 with rfl | rfl
    · exact literal_letter (by decide) fun _ => rfl
    · exact literal_letter (by decide) fun _ => rfl
  · apply Literal.raw
    intro d hd
    rw [mem_singleton] at hd
    rw [not_or] at h1
    refine ⟨by rw [hd]; exact h1.1, by rw [hd]; exact h1.2, ?_⟩
    intro heq
    rw [hd] at heq
    rw [heq] at h2
    revert h2
    decide
  · exact literal_code h3 (by decide) fun _ => rfl
  · exact literal_code h4 (by decide) fun _ => rfl
  · exact literal_code h5 (by decide) fun _ => rfl
  · exact literal_code h6 (by decide) fun _ => rfl
  · exact literal_code h7 (by decide) fun _ => rfl
  · exact literal_code h8 (by decide) fun _ => rfl
  · exact literal_code h9 (by decide) fun _ => rfl
  · have hbyte := literal_hexByte (n := c.toNat) (by omega)
    rwa [Char.ofNat_toNat] at hbyte

lemma literal_escapeAt (c : Char) (s : List Char) :
    Literal (escapeAt isPrint c s).1 ((c :: s).take (escapeAt isPrint c s).2) ∧
      0 < (escapeAt isPrint c s).2 ∧ (escapeAt isPrint c s).2 ≤ (c :: s).length := by
  by_cases hascii : c.toNat < 0x80
  · simp only [escapeAt, if_pos hascii]
    exact ⟨literal_escapeASCII hascii, by omega, by simp⟩
  · simp only [escapeAt, if_neg hascii]
    cases hdecode : decodeRune (c :: s) with
    | some rune =>
      have hrune : IsRune (c :: s) rune.1 rune.2 := decodeRune_eq_some hdecode
      by_cases hprint : isPrint rune.1
      · simp only [if_pos hprint]
        exact ⟨Literal.raw fun d hd => inert_of_large (hrune.large d hd), hrune.pos, hrune.le⟩
      · simp only [if_neg hprint]
        rw [← hrune.bytes]
        exact ⟨literal_escapeRune hrune.valid, hrune.pos, hrune.le⟩
    | none =>
      by_cases hbyte : c.toNat < 256
      · have hliteral := literal_hexByte hbyte
        rw [Char.ofNat_toNat] at hliteral
        simp only [if_pos hbyte]
        exact ⟨hliteral, by omega, by simp⟩
      · have hinert : ∀ d ∈ [c], Inert d := by
          intro d hd
          rw [mem_singleton] at hd
          rw [hd]
          exact inert_of_large (by omega)
        simp only [if_neg hbyte]
        exact ⟨Literal.raw hinert, by omega, by simp⟩

lemma literal_quoteFrom (skip : ℕ) (s : List Char) (hskip : skip ≤ s.length) : Literal (quoteFrom isPrint skip s) (s.drop skip) := by
  induction s generalizing skip with
  | nil =>
    rw [quoteFrom, drop_nil]
    exact Literal.nil
  | cons c s ih =>
    cases skip with
    | succ skip =>
      rw [length_cons] at hskip
      rw [quoteFrom, drop_succ_cons]
      exact ih skip (by omega)
    | zero =>
      obtain ⟨hliteral, hpos, hle⟩ := literal_escapeAt isPrint c s
      rw [quoteFrom]
      generalize (escapeAt isPrint c s).2 = width at *
      have hwidth : width = (width - 1) + 1 := by omega
      have hsplit : (c :: s).drop 0 = (c :: s).take width ++ s.drop (width - 1) := by
        rw [drop_zero, ← take_append_drop width (c :: s)]
        congr 1
        · rw [take_append_drop]
        · conv_lhs => rw [hwidth, drop_succ_cons]
      rw [hsplit]
      rw [length_cons] at hle
      exact hliteral.append (ih (width - 1) (by omega))

lemma literal_quote (s : List Char) : Literal (quoteFrom isPrint 0 s) s := by
  have h := literal_quoteFrom isPrint 0 s (by omega)
  rwa [drop_zero] at h

lemma unquote_quoteFrom (s : List Char) : unquote '"' (quoteFrom isPrint 0 s) = some s := by
  have h := (literal_quote isPrint s).reads []
  rw [append_nil] at h
  rw [unquote, h]
  simp [unquoteFrom]

end KubeWaf.Lib.Go
