/-
The text operations of JavaScript that the service uses: on lists of characters
where the texts are valid Unicode, and on lists of UTF-16 code units where the
code cuts texts at arbitrary places.
-/
import Mathlib.Data.List.Basic

set_option autoImplicit false

namespace JsString

/-! ## Characters -/

/-- `\s` on a code unit or a code point, which is also what `trim` removes. -/
def isWhitespaceCode (n : ℕ) : Bool :=
  (9 ≤ n && n ≤ 13) || n == 0x20 || n == 0xA0 || n == 0x1680 || (0x2000 ≤ n && n ≤ 0x200A) ||
    n == 0x2028 || n == 0x2029 || n == 0x202F || n == 0x205F || n == 0x3000 || n == 0xFEFF

def isWhitespace (c : Char) : Bool := isWhitespaceCode c.toNat

/-- `\w`. -/
def isWordChar (c : Char) : Bool := c.isAlphanum || c == '_'

/-- The list without the elements at both ends that satisfy `p`. -/
def trimBy {α : Type*} (p : α → Bool) (cs : List α) : List α :=
  ((cs.dropWhile p).reverse.dropWhile p).reverse

def trim (cs : List Char) : List Char := trimBy isWhitespace cs

/-- `text.includes(part)`. -/
def includes (text part : String) : Bool :=
  text.toList.tails.any fun t => part.toList.isPrefixOf t

/-! ## Code units -/

abbrev Units := List UInt16

/-- The code units of a text. -/
def utf16 (s : String) : Units :=
  s.toList.flatMap fun c =>
    let n := c.toNat
    if n < 0x10000 then [UInt16.ofNat n]
    else [UInt16.ofNat (0xD800 + (n - 0x10000) / 0x400), UInt16.ofNat (0xDC00 + (n - 0x10000) % 0x400)]

def unit (c : Char) : UInt16 := UInt16.ofNat c.toNat

def isWhitespaceUnit (u : UInt16) : Bool := isWhitespaceCode u.toNat

/-- The characters that `.` does not match. -/
def isLineTerminator (u : UInt16) : Bool :=
  u == unit '\n' || u == unit '\r' || u == 0x2028 || u == 0x2029

def trimUnits (us : Units) : Units := trimBy isWhitespaceUnit us

/-- `.replace(pattern, …)` with the flag `g`. The matcher is given the unit before
a position and the text from there, and answers with the replacement and the
length of the match; a match is not empty. The first argument counts the units
that are still part of the last match. -/
def replaceAll (matcher : Option UInt16 → Units → Option (Units × ℕ)) :
    ℕ → Option UInt16 → Units → Units
  | _, _, [] => []
  | skip + 1, _, u :: us => replaceAll matcher skip (some u) us
  | 0, before, u :: us =>
    match matcher before (u :: us) with
    | some (replacement, n + 1) => replacement ++ replaceAll matcher n (some u) us
    | _ => u :: replaceAll matcher 0 (some u) us

/-- `text.replace(pattern, …)`. -/
def replace (matcher : Option UInt16 → Units → Option (Units × ℕ)) (us : Units) : Units :=
  replaceAll matcher 0 none us

/-! ## The text that is sent

A text that leaves the process is encoded as UTF-8, where a surrogate without its
partner becomes U+FFFD. -/

def isHighSurrogate (u : UInt16) : Bool := 0xD800 ≤ u.toNat && u.toNat ≤ 0xDBFF

def isLowSurrogate (u : UInt16) : Bool := 0xDC00 ≤ u.toNat && u.toNat ≤ 0xDFFF

/-- The character of a unit that is not half of a pair. -/
def loneChar (u : UInt16) : Char :=
  if isHighSurrogate u || isLowSurrogate u then '\uFFFD' else Char.ofNat u.toNat

/-- The character of a surrogate pair. -/
def pairChar (u v : UInt16) : Char :=
  Char.ofNat (0x10000 + (u.toNat - 0xD800) * 0x400 + (v.toNat - 0xDC00))

/-- The characters of a text as another program reads it. -/
def toWellFormed : Units → List Char
  | [] => []
  | [u] => [loneChar u]
  | u :: v :: us =>
    if isHighSurrogate u && isLowSurrogate v then pairChar u v :: toWellFormed us
    else loneChar u :: toWellFormed (v :: us)

/-- A text can be cut before a unit that ends no pair. -/
theorem toWellFormed_append {v : UInt16} (hv : isLowSurrogate v = false) (vs : Units) (us : Units) :
    toWellFormed (us ++ v :: vs) = toWellFormed us ++ toWellFormed (v :: vs) := by
  fun_induction toWellFormed us with
  | case1 => rfl
  | case2 u =>
    rw [List.singleton_append, toWellFormed, hv, Bool.and_false, if_neg (by decide)]
    rfl
  | case3 u w us hpair ih =>
    rw [List.cons_append, List.cons_append, toWellFormed, if_pos hpair, ih]
    rfl
  | case4 u w us hpair ih =>
    rw [List.cons_append] at ih
    rw [List.cons_append, List.cons_append, toWellFormed, if_neg hpair, ih]
    rfl

theorem toNat_ofNat_of_lt {n : ℕ} (h : n < 0xD800 ∨ 0xDFFF < n ∧ n < 0x110000) :
    (Char.ofNat n).toNat = n := by
  have hvalid : n.isValidChar := by
    rcases h with h | h
    · exact Or.inl h
    · exact Or.inr ⟨h.1, h.2⟩
  rw [Char.ofNat, dif_pos hvalid]
  rfl

/-- An ASCII character is read from its own unit only. -/
theorem unit_of_loneChar {u : UInt16} {c : Char} (hc : c.toNat < 0x80) (h : loneChar u = c) :
    unit c = u := by
  rw [loneChar] at h
  split at h
  · rw [← h] at hc
    exact absurd hc (by decide)
  · next hs =>
    have hu : u.toNat < 0xD800 ∨ 0xDFFF < u.toNat ∧ u.toNat < 0x110000 := by
      have hlt := u.toNat_lt
      simp only [isHighSurrogate, isLowSurrogate, Bool.or_eq_true, Bool.and_eq_true,
        decide_eq_true_eq] at hs
      omega
    rw [unit, ← h, toNat_ofNat_of_lt hu, UInt16.ofNat_toNat]

theorem pairChar_toNat {u v : UInt16} (hu : isHighSurrogate u = true) (hv : isLowSurrogate v = true) :
    (pairChar u v).toNat = 0x10000 + (u.toNat - 0xD800) * 0x400 + (v.toNat - 0xDC00) := by
  simp only [isHighSurrogate, isLowSurrogate, Bool.and_eq_true, decide_eq_true_eq] at hu hv
  exact toNat_ofNat_of_lt (Or.inr (by omega))

/-- An ASCII character occurs in what is read only if its unit occurs. -/
theorem mem_toWellFormed {c : Char} (hc : c.toNat < 0x80) {us : Units} (h : c ∈ toWellFormed us) :
    unit c ∈ us := by
  fun_induction toWellFormed us with
  | case1 => cases h
  | case2 u =>
    rw [List.mem_singleton] at h
    rw [unit_of_loneChar hc h.symm]
    exact List.mem_singleton_self u
  | case3 u v us hpair ih =>
    rcases List.mem_cons.1 h with h | h
    · -- the character of a pair is not ASCII
      rw [Bool.and_eq_true] at hpair
      have hnat := pairChar_toNat hpair.1 hpair.2
      rw [← h] at hnat
      omega
    · exact List.mem_cons_of_mem _ (List.mem_cons_of_mem _ (ih h))
  | case4 u v us hpair ih =>
    rcases List.mem_cons.1 h with h | h
    · rw [unit_of_loneChar hc h.symm]
      exact List.mem_cons_self
    · exact List.mem_cons_of_mem _ (ih h)

theorem toWellFormed_cons {u : UInt16} (hu : isHighSurrogate u = false) (us : Units) :
    toWellFormed (u :: us) = loneChar u :: toWellFormed us := by
  cases us with
  | nil => rfl
  | cons v us => rw [toWellFormed, hu, Bool.false_and, if_neg (by decide)]

/-- A valid text is read as it is. -/
theorem toWellFormed_utf16_append (s : String) (us : Units) :
    toWellFormed (utf16 s ++ us) = s.toList ++ toWellFormed us := by
  rw [utf16]
  induction s.toList with
  | nil => rfl
  | cons c cs ih =>
    rw [List.flatMap_cons, List.append_assoc]
    have hvalid : c.toNat < 0xD800 ∨ 0xDFFF < c.toNat ∧ c.toNat < 0x110000 := c.valid
    by_cases hc : c.toNat < 0x10000
    · have hnat : (UInt16.ofNat c.toNat).toNat = c.toNat := UInt16.toNat_ofNat_of_lt' hc
      have hhigh : isHighSurrogate (UInt16.ofNat c.toNat) = false := by
        simp only [isHighSurrogate, hnat, Bool.and_eq_false_iff, decide_eq_false_iff_not]
        omega
      have hlow : isLowSurrogate (UInt16.ofNat c.toNat) = false := by
        simp only [isLowSurrogate, hnat, Bool.and_eq_false_iff, decide_eq_false_iff_not]
        omega
      have hchar : loneChar (UInt16.ofNat c.toNat) = c := by
        rw [loneChar, hhigh, hlow, Bool.or_self, if_neg (by decide), hnat, Char.ofNat_toNat]
      rw [if_pos hc, List.singleton_append, toWellFormed_cons hhigh, hchar, ih]
      rfl
    · have hu : (UInt16.ofNat (0xD800 + (c.toNat - 0x10000) / 0x400)).toNat
          = 0xD800 + (c.toNat - 0x10000) / 0x400 := UInt16.toNat_ofNat_of_lt' (by rw [UInt16.size]; omega)
      have hv : (UInt16.ofNat (0xDC00 + (c.toNat - 0x10000) % 0x400)).toNat
          = 0xDC00 + (c.toNat - 0x10000) % 0x400 := UInt16.toNat_ofNat_of_lt' (by rw [UInt16.size]; omega)
      have hpair : (isHighSurrogate (UInt16.ofNat (0xD800 + (c.toNat - 0x10000) / 0x400)) &&
          isLowSurrogate (UInt16.ofNat (0xDC00 + (c.toNat - 0x10000) % 0x400))) = true := by
        simp only [isHighSurrogate, isLowSurrogate, hu, hv, Bool.and_eq_true, decide_eq_true_eq]
        omega
      have hchar : 0x10000 + (0xD800 + (c.toNat - 0x10000) / 0x400 - 0xD800) * 0x400
          + (0xDC00 + (c.toNat - 0x10000) % 0x400 - 0xDC00) = c.toNat := by omega
      rw [if_neg hc, List.cons_append, List.singleton_append, toWellFormed, if_pos hpair, pairChar,
        hu, hv, hchar, Char.ofNat_toNat, ih]
      rfl

theorem toWellFormed_utf16 (s : String) : toWellFormed (utf16 s) = s.toList := by
  have h := toWellFormed_utf16_append s []
  rwa [List.append_nil, toWellFormed, List.append_nil] at h

/-- Texts joined by a separator that does not occur before it are told apart. -/
theorem append_cons_inj {α : Type*} {c : α} {x y z w : List α} (hx : c ∉ x) (hy : c ∉ y) :
    x ++ c :: z = y ++ c :: w ↔ x = y ∧ z = w := by
  refine ⟨fun h => ?_, fun h => by rw [h.1, h.2]⟩
  induction x generalizing y with
  | nil =>
    cases y with
    | nil => exact ⟨rfl, (List.cons.inj h).2⟩
    | cons b y => exact absurd (List.mem_cons.2 (Or.inl (List.cons.inj h).1)) hy
  | cons a x ih =>
    cases y with
    | nil => exact absurd (List.mem_cons.2 (Or.inl (List.cons.inj h).1.symm)) hx
    | cons b y =>
      obtain ⟨rfl, htail⟩ := List.cons.inj h
      obtain ⟨rfl, hzw⟩ := ih (fun hc => hx (List.mem_cons_of_mem a hc))
        (fun hc => hy (List.mem_cons_of_mem a hc)) htail
      exact ⟨rfl, hzw⟩

end JsString
