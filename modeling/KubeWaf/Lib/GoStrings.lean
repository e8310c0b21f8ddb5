import Mathlib.Data.List.DropRight
import Mathlib.Data.List.Infix

/-!
# Go's string functions

The functions of Go's `strings` package that the models use, on texts given as lists of
characters, with the versions on `String` that the API types need.
-/

namespace KubeWaf.Lib.Go

open List

instance lawfulBEqText : LawfulBEq (List Char) := inferInstance

/-- `unicode.IsSpace`. -/
def isSpace (c : Char) : Bool :=
  let n := c.toNat
  (9 ≤ n && n ≤ 13) || n == 0x20 || n == 0x85 || n == 0xA0 || n == 0x1680
    || (0x2000 ≤ n && n ≤ 0x200A) || n == 0x2028 || n == 0x2029 || n == 0x202F
    || n == 0x205F || n == 0x3000

/-- `strings.TrimFunc(s, p)`. -/
def trimFunc (p : Char → Bool) (s : List Char) : List Char :=
  (s.dropWhile p).rdropWhile p

/-- `strings.TrimPrefix(s, pre)`. -/
def trimPrefix (s pre : List Char) : List Char :=
  if pre.isPrefixOf s then s.drop pre.length else s

/-- `strings.HasSuffix(s, suf)`. -/
def hasSuffix (s suf : List Char) : Bool := suf.isSuffixOf s

/-- `strings.TrimSuffix(s, suf)`. -/
def trimSuffix (s suf : List Char) : List Char :=
  if hasSuffix s suf then s.take (s.length - suf.length) else s

/-- `unicode.ToLower`, on the characters whose lower case is an ASCII letter: the capitals, `İ`
and the Kelvin sign. -/
def toLower (c : Char) : Char :=
  if 'A' ≤ c ∧ c ≤ 'Z' then Char.ofNat (c.toNat + 32)
  else if c.toNat = 0x130 then 'i'
  else if c.toNat = 0x212A then 'k'
  else c

/-- `unicode.ToUpper`, on the characters whose upper case is an ASCII letter: the small letters,
the dotless `ı` and the long `ſ`. -/
def toUpper (c : Char) : Char :=
  if 'a' ≤ c ∧ c ≤ 'z' then Char.ofNat (c.toNat - 32)
  else if c.toNat = 0x131 then 'I'
  else if c.toNat = 0x17F then 'S'
  else c

/-- `ReplaceAllString(s, "-")` for the expression `[^…]+` over the characters in `p`: each
longest run of characters outside `p` becomes one dash. -/
def replaceRuns (p : Char → Bool) : List Char → List Char
  | [] => []
  | c :: s =>
    if p c then c :: replaceRuns p s
    else
      match replaceRuns p s, s with
      | rest, d :: _ => if p d then '-' :: rest else rest
      | rest, [] => '-' :: rest

/-- `strings.ReplaceAll` of `\r\n` and then of `\r` by a line feed. -/
def lineFeeds : List Char → List Char
  | [] => []
  | '\r' :: '\n' :: s => '\n' :: lineFeeds s
  | '\r' :: s => '\n' :: lineFeeds s
  | c :: s => c :: lineFeeds s

lemma carriageReturn_notMem_lineFeeds (s : List Char) : '\r' ∉ lineFeeds s := by
  fun_induction lineFeeds s with
  | case1 => exact not_mem_nil
  | case2 s ih => simp [ih]
  | case3 s _ ih => simp [ih]
  | case4 c s _ hc ih => exact not_mem_cons_of_ne_of_not_mem (fun h => hc h.symm) ih

lemma lineFeeds_eq_self {s : List Char} (h : '\r' ∉ s) : lineFeeds s = s := by
  fun_induction lineFeeds s with
  | case1 => rfl
  | case2 s ih => simp at h
  | case3 s _ ih => simp at h
  | case4 c s _ _ ih => rw [ih (not_mem_of_not_mem_cons h)]

/-- `strings.Contains(s, sub)`. -/
def contains (s sub : List Char) : Bool := s.tails.any fun t => sub.isPrefixOf t

lemma contains_iff_infix {s sub : List Char} : contains s sub = true ↔ sub <:+: s := by
  rw [contains, any_eq_true, infix_iff_prefix_suffix]
  constructor
  · intro ⟨t, ht, hsub⟩
    exact ⟨t, isPrefixOf_iff_prefix.mp hsub, (mem_tails _ _).mp ht⟩
  · intro ⟨t, hsub, ht⟩
    exact ⟨t, (mem_tails _ _).mpr ht, isPrefixOf_iff_prefix.mpr hsub⟩

/-! ## On `String` -/

/-- `strings.TrimSpace(s)`. -/
def trimSpace (s : String) : String := String.ofList (trimFunc isSpace s.toList)

/-- `strings.Trim(s, "'")`. -/
def trimQuotes (s : String) : String := String.ofList (trimFunc (· == '\'') s.toList)

/-- `strings.TrimPrefix(s, pre)`. -/
def trimPrefixStr (s pre : String) : String := String.ofList (trimPrefix s.toList pre.toList)

/-- `strings.HasSuffix(s, suf)`. -/
def hasSuffixStr (s suf : String) : Bool := hasSuffix s.toList suf.toList

/-- `strings.TrimSuffix(s, suf)`. -/
def trimSuffixStr (s suf : String) : String := String.ofList (trimSuffix s.toList suf.toList)

/-- `strings.Contains(s, sub)`. -/
def containsStr (s sub : String) : Bool := s.toList.tails.any fun t => sub.toList.isPrefixOf t

/-- The verb `%q` on a text that needs no escapes. -/
def quoted (s : String) : String := "\"" ++ s ++ "\""

/-- The part of `s` after its first `:`, when there is one (`strings.Index(s, ":")`). -/
def afterColon (s : String) : Option String :=
  match s.toList.dropWhile (· != ':') with
  | [] => none
  | _ :: rest => some (String.ofList rest)

/-! ## Trimming -/

section
variable {p : Char → Bool} {c d : Char} {s : List Char}

lemma trimFunc_of_ends (hc : p c = false) (hd : p d = false) :
    trimFunc p (c :: (s ++ [d])) = c :: (s ++ [d]) := by
  have hleft : (c :: (s ++ [d])).dropWhile p = c :: (s ++ [d]) := by
    rw [dropWhile_cons_of_neg (by rw [hc]; decide)]
  rw [trimFunc, hleft, ← cons_append, rdropWhile_concat_neg _ _ _ (by rw [hd]; decide)]

lemma trimFunc_of_forall (h : ∀ c ∈ s, p c = false) : trimFunc p s = s := by
  have hleft : s.dropWhile p = s := by
    cases s with
    | nil => rfl
    | cons c t =>
      rw [dropWhile_cons_of_neg (by rw [h c mem_cons_self]; decide)]
  rw [trimFunc, hleft, rdropWhile_eq_self_iff]
  intro hs
  rw [h _ (getLast_mem hs)]
  decide

lemma trimFunc_between (hc : p c = true) (hd : p d = true) (h : ∀ c ∈ s, p c = false) :
    trimFunc p (c :: (s ++ [d])) = s := by
  cases s with
  | nil =>
    rw [trimFunc, nil_append, dropWhile_cons_of_pos hc, dropWhile_cons_of_pos hd,
      dropWhile_nil, rdropWhile_nil]
  | cons e t =>
    have he : p e = false := h e mem_cons_self
    have hleft : (c :: (e :: t ++ [d])).dropWhile p = e :: t ++ [d] := by
      rw [dropWhile_cons_of_pos hc, cons_append,
        dropWhile_cons_of_neg (by rw [he]; decide)]
    have hkeep := @trimFunc_of_forall p (e :: t) h
    rw [trimFunc, dropWhile_cons_of_neg (by rw [he]; decide)] at hkeep
    rw [trimFunc, hleft, rdropWhile_concat_pos _ _ _ hd]
    exact hkeep

end

lemma trimQuotes_quoted {v : String} (h : '\'' ∉ v.toList) :
    trimQuotes ("'" ++ v ++ "'") = v := by
  have hlist : ("'" ++ v ++ "'").toList = '\'' :: (v.toList ++ ['\'']) := by
    simp [String.toList_append]
  rw [trimQuotes, hlist, trimFunc_between rfl rfl, String.ofList_toList]
  intro c hc
  rw [beq_eq_false_iff_ne]
  rintro rfl
  exact h hc

lemma trimQuotes_eq_self {v : String} (h : '\'' ∉ v.toList) : trimQuotes v = v := by
  rw [trimQuotes, trimFunc_of_forall, String.ofList_toList]
  intro c hc
  rw [beq_eq_false_iff_ne]
  rintro rfl
  exact h hc

lemma trimSpace_quoted (v : String) : trimSpace ("'" ++ v ++ "'") = "'" ++ v ++ "'" := by
  have hlist : ("'" ++ v ++ "'").toList = '\'' :: (v.toList ++ ['\'']) := by
    simp [String.toList_append]
  rw [trimSpace, hlist, trimFunc_of_ends rfl rfl, ← hlist, String.ofList_toList]

lemma trimPrefix_append (pre s : List Char) : trimPrefix (pre ++ s) pre = s := by
  rw [trimPrefix, if_pos (List.isPrefixOf_iff_prefix.mpr (prefix_append _ _)), drop_left]

lemma trimPrefix_concat {u pre : List Char} {c : Char} (h : pre.getLast? ≠ some c) :
    trimPrefix (u ++ [c]) pre = trimPrefix u pre ++ [c] := by
  have hiff : pre.isPrefixOf (u ++ [c]) = true ↔ pre.isPrefixOf u = true := by
    rw [ List.isPrefixOf_iff_prefix, List.isPrefixOf_iff_prefix, prefix_concat_iff, or_iff_right]
    rintro rfl
    exact h (by simp)
  by_cases hu : pre.isPrefixOf u = true
  · rw [trimPrefix, trimPrefix, if_pos (hiff.mpr hu), if_pos hu,
      drop_append_of_le_length (List.isPrefixOf_iff_prefix.mp hu).length_le]
  · rw [trimPrefix, trimPrefix, if_neg (mt hiff.mp hu), if_neg hu]

lemma trimSuffix_append (s suf : List Char) : trimSuffix (s ++ suf) suf = s := by
  have hhas : hasSuffix (s ++ suf) suf = true := List.isSuffixOf_iff_suffix.mpr (suffix_append _ _)
  rw [trimSuffix, if_pos hhas, length_append, Nat.add_sub_cancel, take_left]

lemma hasSuffix_singleton {s : List Char} {c : Char} :
    hasSuffix s [c] = true ↔ s.getLast? = some c := by
  rw [hasSuffix, isSuffixOf_iff_suffix, getLast?_eq_some_iff]
  exact exists_congr fun t => eq_comm

lemma trimPrefixStr_append (pre s : String) : trimPrefixStr (pre ++ s) pre = s := by
  rw [trimPrefixStr, String.toList_append, trimPrefix_append, String.ofList_toList]

lemma trimPrefixStr_self {s t : String} (h : t ≠ "") : trimPrefixStr s (s ++ t) = s := by
  have hne : ¬(s ++ t).toList.isPrefixOf s.toList = true := by
    intro hpre
    have hlength := (List.isPrefixOf_iff_prefix.mp hpre).length_le
    rw [String.toList_append, length_append] at hlength
    have hnil : t.toList = [] := length_eq_zero_iff.mp (by omega)
    exact h (String.toList_eq_nil_iff.mp hnil)
  rw [trimPrefixStr, trimPrefix, if_neg hne, String.ofList_toList]

lemma afterColon_append {key s : String} (h : ':' ∉ key.toList) :
    afterColon (key ++ ":" ++ s) = some s := by
  have hlist : (key ++ ":" ++ s).toList = key.toList ++ ':' :: s.toList := by
    simp [String.toList_append]
  have hdrop : (key.toList ++ ':' :: s.toList).dropWhile (· != ':') = ':' :: s.toList := by
    rw [dropWhile_append_of_pos]
    · rfl
    · intro c hc
      rw [bne_iff_ne]
      rintro rfl
      exact h hc
  rw [afterColon, hlist, hdrop]
  exact congrArg some String.ofList_toList

lemma afterColon_eq_none {s : String} (h : ':' ∉ s.toList) : afterColon s = none := by
  have hdrop : s.toList.dropWhile (· != ':') = [] := by
    rw [dropWhile_eq_nil_iff]
    intro c hc
    rw [bne_iff_ne]
    rintro rfl
    exact h hc
  rw [afterColon, hdrop]

lemma append_sep_inj {α : Type} {sep : α} {x₁ x₂ z₁ z₂ : List α} (h₁ : sep ∉ x₁)
    (h₂ : sep ∉ x₂) : x₁ ++ sep :: z₁ = x₂ ++ sep :: z₂ ↔ x₁ = x₂ ∧ z₁ = z₂ := by
  induction x₁ generalizing x₂ with
  | nil =>
    cases x₂ with
    | nil => simp
    | cons b x₂ => simp [ne_of_not_mem_cons h₂]
  | cons a x₁ ih =>
    cases x₂ with
    | nil => simp [(ne_of_not_mem_cons h₁).symm]
    | cons b x₂ =>
      simp [ih (not_mem_of_not_mem_cons h₁) (not_mem_of_not_mem_cons h₂), and_assoc]

/-! ## Bytes -/

lemma length_toList_loop (b : ByteArray) (i : ℕ) (r : List UInt8) :
    (ByteArray.toList.loop b i r).length = r.length + (b.size - i) := by
  fun_induction ByteArray.toList.loop b i r with
  | case1 i r hi ih =>
    rw [ih, length_cons]
    omega
  | case2 i r hi =>
    rw [length_reverse]
    omega

lemma length_toUTF8_toList (s : String) : s.toUTF8.toList.length = s.utf8ByteSize := by
  have h := length_toList_loop s.toUTF8 0 []
  rw [length_nil, Nat.zero_add, Nat.sub_zero] at h
  exact h

lemma length_le_utf8ByteSize (s : List Char) : s.length ≤ (String.ofList s).utf8ByteSize := by
  induction s with
  | nil => exact Nat.zero_le _
  | cons c s ih =>
    have hc := Char.utf8Size_pos c
    rw [String.ofList_cons, String.utf8ByteSize_append, String.utf8ByteSize_singleton, length_cons]
    omega

end KubeWaf.Lib.Go
