import Mathlib

/-!
# Text

Strings as their characters, with the operations of Rust's `str` the development needs: trimming, splitting once at a
separator from either side, hexadecimal output, and decimal integers with a sign and a range.
-/

namespace GasAnalyzer

abbrev Chars := List Char

namespace Text

/-! ### Trimming -/

/-- `char::is_whitespace`: the Unicode property `White_Space`. -/
def isWhitespace (c : Char) : Bool :=
  (9 ≤ c.toNat && c.toNat ≤ 13) || c.toNat == 0x20 || c.toNat == 0x85 || c.toNat == 0xa0 || c.toNat == 0x1680 ||
    (0x2000 ≤ c.toNat && c.toNat ≤ 0x200a) || c.toNat == 0x2028 || c.toNat == 0x2029 || c.toNat == 0x202f ||
    c.toNat == 0x205f || c.toNat == 0x3000

/-- `str::trim` -/
def trim (s : Chars) : Chars := ((s.dropWhile isWhitespace).reverse.dropWhile isWhitespace).reverse

/-- `str::strip_prefix` -/
def stripPrefix : Chars → Chars → Option Chars
  | [], s => some s
  | _ :: _, [] => none
  | c :: cs, d :: ds => if c = d then stripPrefix cs ds else none

/-! ### Splitting -/

/-- `str::split_once` at a character. -/
def splitOnce (sep : Char) : Chars → Option (Chars × Chars)
  | [] => none
  | c :: cs => if c = sep then some ([], cs) else (splitOnce sep cs).map fun (before, after) => (c :: before, after)

/-- `str::rsplit_once` at a character. -/
def rsplitOnce (sep : Char) : Chars → Option (Chars × Chars)
  | [] => none
  | c :: cs =>
    match rsplitOnce sep cs with
    | some (before, after) => some (c :: before, after)
    | none => if c = sep then some ([], cs) else none

theorem rsplitOnce_none {sep : Char} {s : Chars} : rsplitOnce sep s = none ↔ sep ∉ s := by
  induction s with
  | nil => simp [rsplitOnce]
  | cons c cs ih =>
    rw [rsplitOnce]
    cases found : rsplitOnce sep cs with
    | some parts =>
      have inside : sep ∈ cs := by
        apply Classical.byContradiction
        intro outside
        rw [ih.mpr outside] at found
        cases found
      simp [inside]
    | none =>
      have outside := ih.mp found
      by_cases here : c = sep
      · simp [here]
      · simp [here, outside, Ne.symm here]

/-- The last separator is the one with none behind it. -/
theorem rsplitOnce_eq_some {sep : Char} {s before after : Chars} :
    rsplitOnce sep s = some (before, after) ↔ s = before ++ sep :: after ∧ sep ∉ after := by
  induction s generalizing before with
  | nil => simp [rsplitOnce]
  | cons c cs ih =>
    rw [rsplitOnce]
    cases found : rsplitOnce sep cs with
    | some parts =>
      obtain ⟨before', after'⟩ := parts
      constructor
      · intro here
        injection here with here
        injection here with front back
        subst front back
        obtain ⟨shape, free⟩ := ih.mp found
        exact ⟨by rw [shape, List.cons_append], free⟩
      · intro ⟨shape, free⟩
        cases before with
        | nil =>
          injection shape with _ rest
          subst rest
          rw [rsplitOnce_none.mpr free] at found
          cases found
        | cons d ds =>
          injection shape with first rest
          have same := found.symm.trans (ih.mpr ⟨rest, free⟩)
          injection same with same
          injection same with front back
          rw [first, front, back]
    | none =>
      have outside := rsplitOnce_none.mp found
      constructor
      · intro here
        dsimp only at here
        split at here
        · rename_i sepHere
          injection here with here
          injection here with front back
          subst front back
          exact ⟨by rw [sepHere, List.nil_append], outside⟩
        · cases here
      · intro ⟨shape, free⟩
        cases before with
        | nil =>
          injection shape with first rest
          subst rest
          simp [first]
        | cons d ds =>
          injection shape with _ rest
          rw [rest] at outside
          exact absurd (List.mem_append_right _ List.mem_cons_self) outside

theorem rsplitOnce_join {sep : Char} (before : Chars) {after : Chars} (free : sep ∉ after) :
    rsplitOnce sep (before ++ sep :: after) = some (before, after) :=
  rsplitOnce_eq_some.mpr ⟨rfl, free⟩

/-! ### Hexadecimal -/

/-- `hex::encode`: two lower-case digits a byte. -/
def encodeHex : List UInt8 → Chars
  | [] => []
  | b :: bs => Nat.digitChar (b.toNat / 16) :: Nat.digitChar (b.toNat % 16) :: encodeHex bs

theorem mem_encodeHex {c : Char} {bytes : List UInt8} (member : c ∈ encodeHex bytes) :
    ∃ n, n < 16 ∧ c = Nat.digitChar n := by
  induction bytes with
  | nil => cases member
  | cons b bs ih =>
    have bound := b.toNat_lt
    rw [encodeHex, List.mem_cons, List.mem_cons] at member
    obtain high | low | rest := member
    · exact ⟨b.toNat / 16, by omega, high⟩
    · exact ⟨b.toNat % 16, by omega, low⟩
    · exact ih rest

/-- No separator hides in a hexadecimal text. -/
theorem not_mem_encodeHex {c : Char} (other : ∀ n, n < 16 → c ≠ Nat.digitChar n) (bytes : List UInt8) :
    c ∉ encodeHex bytes := by
  intro member
  obtain ⟨n, small, same⟩ := mem_encodeHex member
  exact other n small same

/-! ### Decimal integers -/

/-- `i64::to_string` -/
def showInt : Int → Chars
  | .ofNat n => Nat.toDigits 10 n
  | .negSucc n => '-' :: Nat.toDigits 10 (n + 1)

/-- The digits of `i64::from_str`: at least one, decimal only. -/
def parseDigits (s : Chars) : Option Nat :=
  if s ≠ [] ∧ s.all Char.isDigit = true then some (Nat.ofDigitChars 10 s 0) else none

/-- `i64::from_str`: an optional sign, digits, and a value in range. -/
def parseInt64 (s : Chars) : Option Int :=
  let value : Option Int :=
    match s with
    | '-' :: digits => (parseDigits digits).map fun n : Nat => -(n : Int)
    | '+' :: digits => (parseDigits digits).map fun n : Nat => (n : Int)
    | digits => (parseDigits digits).map fun n : Nat => (n : Int)
  value.filter fun v => -2 ^ 63 ≤ v && v < 2 ^ 63

theorem parseDigits_toDigits (n : Nat) : parseDigits (Nat.toDigits 10 n) = some n := by
  have decimal : (Nat.toDigits 10 n).all Char.isDigit = true := by
    rw [List.all_eq_true]
    intro c member
    exact Nat.isDigit_of_mem_toDigits (by decide) (by decide) member
  rw [parseDigits, if_pos ⟨Nat.toDigits_ne_nil, decimal⟩, Nat.ofDigitChars_ten_toDigits]

theorem not_mem_toDigits {c : Char} (other : c.isDigit = false) (n : Nat) : c ∉ Nat.toDigits 10 n := by
  intro member
  have digit := Nat.isDigit_of_mem_toDigits (by decide) (by decide) member
  rw [other] at digit
  cases digit

/-- A sign is no digit, so the digits are read as they stand. -/
theorem parseInt64_toDigits (n : Nat) (small : n < 2 ^ 63) : parseInt64 (Nat.toDigits 10 n) = some (n : Int) := by
  have value := parseDigits_toDigits n
  have minus := not_mem_toDigits (c := '-') (by decide) n
  have plus := not_mem_toDigits (c := '+') (by decide) n
  unfold parseInt64
  split
  · rename_i digits shape
    rw [shape] at minus
    exact absurd List.mem_cons_self minus
  · rename_i digits shape
    rw [shape] at plus
    exact absurd List.mem_cons_self plus
  · simp only [value, Option.map_some]
    rw [Option.filter_some_pos]
    simp only [Bool.and_eq_true, decide_eq_true_eq]
    omega

theorem parseInt64_showInt {v : Int} (low : -2 ^ 63 ≤ v) (high : v < 2 ^ 63) : parseInt64 (showInt v) = some v := by
  cases v with
  | ofNat n =>
    apply parseInt64_toDigits
    simp only [Int.ofNat_eq_natCast] at high
    omega
  | negSucc n =>
    simp only [showInt, parseInt64, parseDigits_toDigits, Option.map_some]
    rw [Option.filter_some_pos]
    · congr 1
    · simp only [Bool.and_eq_true, decide_eq_true_eq]
      omega

theorem not_mem_showInt {c : Char} (other : c.isDigit = false) (sign : c ≠ '-') (v : Int) : c ∉ showInt v := by
  cases v with
  | ofNat n => exact not_mem_toDigits other n
  | negSucc n =>
    rw [showInt, List.mem_cons, not_or]
    exact ⟨sign, not_mem_toDigits other _⟩

end Text

end GasAnalyzer
