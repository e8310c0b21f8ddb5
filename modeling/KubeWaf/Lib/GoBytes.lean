import KubeWaf.Lib.Scan
import KubeWaf.Lib.GoStrings
import Mathlib.Tactic

/-!
# Go's string functions on bytes

Code that walks over a string byte by byte sees its bytes, not its runes. Here a text is a list of
bytes, each written as the character with its code.
-/

namespace KubeWaf.Lib.Go

open List

/-- `unicode.IsLetter(rune(c))` of a byte. -/
def isLetter (c : Char) : Bool :=
  let n := c.toNat
  (0x41 ≤ n && n ≤ 0x5A) || (0x61 ≤ n && n ≤ 0x7A) || n == 0xAA || n == 0xB5 || n == 0xBA
    || (0xC0 ≤ n && n ≤ 0xD6) || (0xD8 ≤ n && n ≤ 0xF6) || (0xF8 ≤ n && n ≤ 0xFF)

/-- `unicode.IsDigit(rune(c))` of a byte. -/
def isDigit (c : Char) : Bool := '0' ≤ c && c ≤ '9'

/-- The white space of Unicode, as the bytes that write it. -/
def spaces : List (List Char) :=
  ['\t', '\n', Char.ofNat 0x0B, Char.ofNat 0x0C, '\r', ' '].map (fun c => [c]) ++
    [[0xC2, 0x85], [0xC2, 0xA0], [0xE1, 0x9A, 0x80], [0xE2, 0x80, 0x80], [0xE2, 0x80, 0x81],
      [0xE2, 0x80, 0x82], [0xE2, 0x80, 0x83], [0xE2, 0x80, 0x84], [0xE2, 0x80, 0x85],
      [0xE2, 0x80, 0x86], [0xE2, 0x80, 0x87], [0xE2, 0x80, 0x88], [0xE2, 0x80, 0x89],
      [0xE2, 0x80, 0x8A], [0xE2, 0x80, 0xA8], [0xE2, 0x80, 0xA9], [0xE2, 0x80, 0xAF],
      [0xE2, 0x81, 0x9F], [0xE3, 0x80, 0x80]].map (fun bytes => bytes.map Char.ofNat)

/-- Drop the given byte sequences from the start of a text; `skip` bytes belong to the one before. -/
def dropAll (table : List (List Char)) : ℕ → List Char → List Char
  | _, [] => []
  | skip + 1, _ :: s => dropAll table skip s
  | 0, c :: s =>
    match table.find? fun x => x.isPrefixOf (c :: s) with
    | some (_ :: x) => dropAll table x.length s
    | _ => c :: s

/-- `strings.TrimSpace(s)`. -/
def trimSpaceBytes (s : List Char) : List Char :=
  (dropAll (spaces.map List.reverse) 0 (dropAll spaces 0 s).reverse).reverse

/-- The bytes that occur in white space. -/
def isSpaceByte (c : Char) : Bool := c ∈ spaces.flatten

/-- The text before and behind the first occurrence of `sub` (`strings.Index`). -/
def cutAt (sub : List Char) : List Char → Option (List Char × List Char)
  | [] => if sub = [] then some ([], []) else none
  | c :: s =>
    if sub.isPrefixOf (c :: s) then some ([], (c :: s).drop sub.length)
    else (cutAt sub s).map fun (before, behind) => (c :: before, behind)

/-- `strings.Join(parts, sep)`. -/
def join (sep : List Char) (parts : List (List Char)) : List Char := sep.intercalate parts

/-! ## What trimming takes off -/

section
variable {p : Char → Bool}

lemma dropAll_eq {table : List (List Char)} (htable : ∀ x ∈ table, ∀ c ∈ x, p c = true)
    (skip : ℕ) (s : List Char) (hskip : ∀ c ∈ s.take skip, p c = true) :
    ∃ pre, s = pre ++ dropAll table skip s ∧ ∀ c ∈ pre, p c = true := by
  induction s generalizing skip with
  | nil => exact ⟨[], by cases skip <;> rfl, by simp⟩
  | cons c s ih =>
    -- Whenever the first byte goes, the rest goes on with some number of bytes to skip.
    have hgo : ∀ k, p c = true → (∀ d ∈ s.take k, p d = true) →
        ∃ pre, c :: s = pre ++ dropAll table k s ∧ ∀ d ∈ pre, p d = true := by
      intro k hc hk
      obtain ⟨pre, hs, hpre⟩ := ih k hk
      refine ⟨c :: pre, by rw [cons_append, ← hs], ?_⟩
      intro d hd
      rcases mem_cons.mp hd with rfl | hd
      · exact hc
      · exact hpre d hd
    cases skip with
    | succ skip =>
      rw [take_succ_cons] at hskip
      rw [dropAll]
      exact hgo skip (hskip c mem_cons_self) fun d hd => hskip d (mem_cons_of_mem _ hd)
    | zero =>
      rw [dropAll]
      split
      · rename_i e x hfind
        have hmem : e :: x ∈ table := mem_of_find?_eq_some hfind
        have hpre : (e :: x).isPrefixOf (c :: s) = true :=
          find?_some (p := fun x : List Char => x.isPrefixOf (c :: s)) hfind
        rw [List.isPrefixOf_iff_prefix, cons_prefix_cons] at hpre
        obtain ⟨rfl, t, rfl⟩ := hpre
        apply hgo
        · exact htable _ hmem e mem_cons_self
        · intro d hd
          rw [take_left] at hd
          exact htable _ hmem d (mem_cons_of_mem _ hd)
      · exact ⟨[], rfl, by simp⟩

lemma trimSpaceBytes_eq (s : List Char) :
    ∃ pre post, s = pre ++ trimSpaceBytes s ++ post ∧ (∀ c ∈ pre, isSpaceByte c = true) ∧
      ∀ c ∈ post, isSpaceByte c = true := by
  have hleft : ∀ x ∈ spaces, ∀ c ∈ x, isSpaceByte c = true := by
    intro x hx c hc
    rw [isSpaceByte, decide_eq_true_eq]
    exact mem_flatten.mpr ⟨x, hx, hc⟩
  have hright : ∀ x ∈ spaces.map List.reverse, ∀ c ∈ x, isSpaceByte c = true := by
    intro x hx c hc
    obtain ⟨y, hy, rfl⟩ := mem_map.mp hx
    exact hleft y hy c (mem_reverse.mp hc)
  obtain ⟨pre, hs, hpre⟩ := dropAll_eq hleft 0 s (by simp)
  obtain ⟨post, hs', hpost⟩ := dropAll_eq hright 0 (dropAll spaces 0 s).reverse (by simp)
  refine ⟨pre, post.reverse, ?_, hpre, ?_⟩
  · have hmid : dropAll spaces 0 s = trimSpaceBytes s ++ post.reverse := by
      rw [trimSpaceBytes, ← reverse_append, ← hs', reverse_reverse]
    rw [append_assoc, ← hmid, ← hs]
  · intro c hc
    exact hpost c (mem_reverse.mp hc)

lemma trimSpaceBytes_ne_nil {c : Char} {s : List Char} (hc : isSpaceByte c = false) :
    trimSpaceBytes (c :: s) ≠ [] := by
  intro hnil
  obtain ⟨pre, post, hs, hpre, hpost⟩ := trimSpaceBytes_eq (c :: s)
  rw [hnil, append_nil] at hs
  have hmem : c ∈ pre ++ post := by
    rw [← hs]
    exact mem_cons_self
  have hspace : isSpaceByte c = true := (mem_append.mp hmem).elim (hpre c) (hpost c)
  rw [hspace] at hc
  exact absurd hc (by decide)

lemma trimSpaceBytes_eq_self {s : List Char}
    (hhead : ∀ c t, s = c :: t → isSpaceByte c = false)
    (hlast : ∀ t c, s = t ++ [c] → isSpaceByte c = false) : trimSpaceBytes s = s := by
  obtain ⟨pre, post, hs, hpre, hpost⟩ := trimSpaceBytes_eq s
  have hpre' : pre = [] := by
    by_contra hne
    obtain ⟨c, pre, rfl⟩ := exists_cons_of_ne_nil hne
    have hc := hhead c (pre ++ trimSpaceBytes s ++ post) hs
    rw [hpre c mem_cons_self] at hc
    exact absurd hc (by decide)
  have hpost' : post = [] := by
    by_contra hne
    obtain ⟨t, c, rfl⟩ := eq_nil_or_concat post |>.resolve_left hne
    rw [concat_eq_append, ← append_assoc] at hs
    have hc := hlast (pre ++ trimSpaceBytes s ++ t) c hs
    rw [hpost c (by simp)] at hc
    exact absurd hc (by decide)
  rw [hpre', hpost', nil_append, append_nil] at hs
  exact hs.symm

end

lemma cutAt_eq_some {sub s before behind : List Char} (h : cutAt sub s = some (before, behind)) :
    s = before ++ (sub ++ behind) := by
  induction s generalizing before behind with
  | nil =>
    rw [cutAt] at h
    split_ifs at h with hsub
    simp only [Option.some.injEq, Prod.mk.injEq] at h
    rw [← h.1, ← h.2, hsub]
    rfl
  | cons c s ih =>
    rw [cutAt] at h
    split_ifs at h with hsub
    · simp only [Option.some.injEq, Prod.mk.injEq] at h
      obtain ⟨t, ht⟩ := isPrefixOf_iff_prefix.mp hsub
      rw [← h.1, ← h.2, ← ht, drop_left]
      rfl
    · obtain ⟨⟨before', behind'⟩, hcut, heq⟩ := Option.map_eq_some_iff.mp h
      simp only [Prod.mk.injEq] at heq
      rw [← heq.1, ← heq.2, cons_append, ← ih hcut]

lemma cutAt_isSome (sub before behind : List Char) :
    (cutAt sub (before ++ (sub ++ behind))).isSome = true := by
  induction before with
  | nil =>
    cases hsub : sub ++ behind with
    | nil =>
      rw [nil_append, cutAt, if_pos (append_eq_nil_iff.mp hsub).1]
      rfl
    | cons c s =>
      have hpre : sub.isPrefixOf (c :: s) = true :=
        isPrefixOf_iff_prefix.mpr ⟨behind, hsub⟩
      rw [nil_append, cutAt, if_pos hpre]
      rfl
  | cons c before ih =>
    rw [cons_append, cutAt]
    split_ifs
    · rfl
    · rw [Option.isSome_map]
      exact ih

end KubeWaf.Lib.Go
