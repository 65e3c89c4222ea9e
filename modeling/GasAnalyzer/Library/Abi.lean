import Mathlib

/-!
# Contract ABI encoding

The standard layout of a sequence of values: a head with the static values in place and, for each
dynamic value, the offset of its encoding in the tail. A value enters the layout as a `Piece`, so a
sequence of values of different types is a list of pieces. Readers take a buffer that starts at the
encoding and may run past it, as a decoder of nested data does.
-/

namespace GasAnalyzer.Abi

abbrev Bytes := List UInt8

/-! ### Words -/

/-- The `width` low-order bytes of `n`, most significant first. -/
def beBytes : Nat → Nat → Bytes
  | 0, _ => []
  | width + 1, n => beBytes width (n / 256) ++ [UInt8.ofNat n]

/-- The number a byte string spells, most significant byte first. -/
def ofBe (bytes : Bytes) : Nat := bytes.foldl (fun acc b => acc * 256 + b.toNat) 0

/-- `n` as a 32-byte word. -/
def word (n : Nat) : Bytes := beBytes 32 n

@[simp] theorem length_beBytes (width n : Nat) : (beBytes width n).length = width := by
  induction width generalizing n with
  | zero => rfl
  | succ width ih => simp [beBytes, ih]

@[simp] theorem length_word (n : Nat) : (word n).length = 32 := length_beBytes 32 n

theorem ofBe_append_singleton (bytes : Bytes) (b : UInt8) :
    ofBe (bytes ++ [b]) = ofBe bytes * 256 + b.toNat := by
  simp [ofBe]

theorem ofBe_beBytes (width n : Nat) : ofBe (beBytes width n) = n % 256 ^ width := by
  induction width generalizing n with
  | zero => simp [beBytes, ofBe, Nat.mod_one]
  | succ width ih =>
    rw [beBytes, ofBe_append_singleton, ih, Nat.pow_succ, Nat.mul_comm (256 ^ width), Nat.mod_mul,
      UInt8.toNat_ofNat']
    omega

theorem ofBe_word {n : Nat} (small : n < 2 ^ 256) : ofBe (word n) = n := by
  rw [word, ofBe_beBytes, show 256 ^ 32 = 2 ^ 256 by decide, Nat.mod_eq_of_lt small]

theorem beBytes_zero (width : Nat) : beBytes width 0 = List.replicate width 0 := by
  induction width with
  | zero => rfl
  | succ width ih => rw [beBytes, Nat.zero_div, ih, List.replicate_succ']; rfl

/-- Leading zeros: a wider word of a number that fits in the narrower one. -/
theorem beBytes_add (extra width : Nat) {n : Nat} (small : n < 256 ^ width) :
    beBytes (extra + width) n = List.replicate extra 0 ++ beBytes width n := by
  induction width generalizing n with
  | zero =>
    have : n = 0 := by simpa using small
    subst this
    simp [beBytes_zero, beBytes]
  | succ width ih =>
    have smaller : n / 256 < 256 ^ width := by
      rw [Nat.div_lt_iff_lt_mul (by decide), ← Nat.pow_succ]
      exact small
    rw [← Nat.add_assoc, beBytes, ih smaller, beBytes, List.append_assoc]

/-- The word at byte `position`, when the buffer reaches that far. -/
def readWord (buffer : Bytes) (position : Nat) : Option Nat :=
  let bytes := (buffer.drop position).take 32
  if bytes.length = 32 then some (ofBe bytes) else none

theorem readWord_word {buffer : Bytes} {position n : Nat} (rest : Bytes) (small : n < 2 ^ 256)
    (there : buffer.drop position = word n ++ rest) : readWord buffer position = some n := by
  have taken : (word n ++ rest).take 32 = word n := by
    rw [List.take_append_of_le_length (by simp), List.take_of_length_le (by simp)]
  simp [readWord, there, taken, ofBe_word small]

/-! ### Byte strings -/

/-- `length` rounded up to whole words. -/
def padLength (length : Nat) : Nat := (length + 31) / 32 * 32

def padding (length : Nat) : Bytes := List.replicate (padLength length - length) 0

def encodeBytes (bytes : Bytes) : Bytes := word bytes.length ++ bytes ++ padding bytes.length

def decodeBytes (buffer : Bytes) : Option Bytes := do
  let length ← readWord buffer 0
  let bytes := (buffer.drop 32).take length
  if bytes.length = length then some bytes else none

theorem length_encodeBytes (bytes : Bytes) :
    (encodeBytes bytes).length = 32 + padLength bytes.length := by
  simp only [encodeBytes, padding, padLength, List.length_append, length_word,
    List.length_replicate]
  omega

theorem decodeBytes_encodeBytes {bytes rest : Bytes} (small : bytes.length < 2 ^ 256) :
    decodeBytes (encodeBytes bytes ++ rest) = some bytes := by
  have head : readWord (encodeBytes bytes ++ rest) 0 = some bytes.length :=
    readWord_word (bytes ++ padding bytes.length ++ rest) small (by simp [encodeBytes])
  have body : ((encodeBytes bytes ++ rest).drop 32).take bytes.length = bytes := by
    rw [encodeBytes, List.append_assoc, List.append_assoc, List.drop_left' (length_word _),
      List.take_left' rfl]
  simp only [decodeBytes, head, body, Option.bind_eq_bind, Option.bind_some, if_true]

/-! ### Sequences -/

/-- One value of a sequence: written in place, or through an offset into the tail. -/
inductive Piece where
  | static (bytes : Bytes)
  | dynamic (bytes : Bytes)

namespace Piece

def headSize : Piece → Nat
  | static bytes => bytes.length
  | dynamic _ => 32

def tail : Piece → Bytes
  | static _ => []
  | dynamic bytes => bytes

end Piece

def headSize (pieces : List Piece) : Nat := (pieces.map Piece.headSize).sum

def tails (pieces : List Piece) : Bytes := pieces.flatMap Piece.tail

/-- The heads of a sequence whose first tail lies at `offset`. -/
def heads (offset : Nat) : List Piece → Bytes
  | [] => []
  | .static bytes :: rest => bytes ++ heads offset rest
  | .dynamic bytes :: rest => word offset ++ heads (offset + bytes.length) rest

/-- The encoding of a sequence of values. -/
def layout (pieces : List Piece) : Bytes := heads (headSize pieces) pieces ++ tails pieces

@[simp] theorem length_heads (offset : Nat) (pieces : List Piece) :
    (heads offset pieces).length = headSize pieces := by
  induction pieces generalizing offset with
  | nil => rfl
  | cons piece rest ih =>
    cases piece with
    | static bytes => simp [heads, headSize, Piece.headSize, ih offset]
    | dynamic bytes => simp [heads, headSize, Piece.headSize, ih (offset + bytes.length)]

theorem headSize_append (before after : List Piece) :
    headSize (before ++ after) = headSize before + headSize after := by
  simp [headSize]

theorem tails_append (before after : List Piece) :
    tails (before ++ after) = tails before ++ tails after := by
  simp [tails]

theorem heads_append (offset : Nat) (before after : List Piece) :
    heads offset (before ++ after) =
      heads offset before ++ heads (offset + (tails before).length) after := by
  induction before generalizing offset with
  | nil => simp [heads, tails]
  | cons piece rest ih =>
    cases piece with
    | static bytes => simp [heads, ih, tails, Piece.tail]
    | dynamic bytes => simp [heads, ih, tails, Piece.tail, Nat.add_assoc]

theorem length_layout (pieces : List Piece) :
    (layout pieces).length = headSize pieces + (tails pieces).length := by
  simp [layout]

/-- A static value stands in the head, after the heads before it. -/
theorem drop_layout_static (before after : List Piece) (bytes : Bytes) :
    ∃ rest, (layout (before ++ .static bytes :: after)).drop (headSize before) = bytes ++ rest := by
  rw [layout, heads_append, List.append_assoc, List.drop_left' (length_heads _ _), heads,
    List.append_assoc]
  exact ⟨_, rfl⟩

/-- Where a dynamic value's encoding starts. -/
def tailOffset (before after : List Piece) (bytes : Bytes) : Nat :=
  headSize (before ++ .dynamic bytes :: after) + (tails before).length

theorem drop_layout_offset (before after : List Piece) (bytes : Bytes) :
    ∃ rest, (layout (before ++ .dynamic bytes :: after)).drop (headSize before) =
      word (tailOffset before after bytes) ++ rest := by
  rw [layout, heads_append, List.append_assoc, List.drop_left' (length_heads _ _), heads,
    List.append_assoc]
  exact ⟨_, rfl⟩

theorem drop_layout_dynamic (before after : List Piece) (bytes : Bytes) :
    ∃ rest, (layout (before ++ .dynamic bytes :: after)).drop (tailOffset before after bytes) =
      bytes ++ rest := by
  rw [layout, tailOffset, ← List.drop_drop, List.drop_left' (length_heads _ _), tails_append,
    List.drop_left' rfl]
  exact ⟨tails after, by simp [tails, Piece.tail]⟩

theorem tailOffset_le (before after : List Piece) (bytes : Bytes) :
    tailOffset before after bytes ≤ (layout (before ++ .dynamic bytes :: after)).length := by
  rw [length_layout, tailOffset, tails_append, List.length_append]
  omega

theorem dynamic_length_le (before after : List Piece) (bytes : Bytes) :
    bytes.length ≤ (layout (before ++ .dynamic bytes :: after)).length := by
  rw [length_layout, tails_append, List.length_append]
  simp only [tails, List.flatMap_cons, Piece.tail, List.length_append]
  omega

/-- Follows the offset word at `position` of the sequence at the start of `buffer`. -/
def readDynamic {β : Type} (decode : Bytes → Option β) (buffer : Bytes) (position : Nat) :
    Option β := do
  let offset ← readWord buffer position
  decode (buffer.drop offset)

theorem readWord_layout {before after : List Piece} {n : Nat} (rest : Bytes) (small : n < 2 ^ 256) :
    readWord (layout (before ++ .static (word n) :: after) ++ rest) (headSize before) = some n := by
  obtain ⟨more, there⟩ := drop_layout_static before after (word n)
  have inside : headSize before ≤ (layout (before ++ .static (word n) :: after)).length := by
    rw [length_layout, headSize_append]
    omega
  refine readWord_word (more ++ rest) small ?_
  rw [List.drop_append_of_le_length inside, there, List.append_assoc]

theorem readDynamic_layout {β : Type} {decode : Bytes → Option β} {before after : List Piece}
    {bytes : Bytes} {value : β} (rest : Bytes)
    (small : (layout (before ++ .dynamic bytes :: after)).length < 2 ^ 256)
    (decodes : ∀ more, decode (bytes ++ more) = some value) :
    readDynamic decode (layout (before ++ .dynamic bytes :: after) ++ rest) (headSize before) =
      some value := by
  have bound := tailOffset_le before after bytes
  have inside : headSize before ≤ (layout (before ++ .dynamic bytes :: after)).length := by
    rw [length_layout, headSize_append]
    omega
  have offset : readWord (layout (before ++ .dynamic bytes :: after) ++ rest) (headSize before) =
      some (tailOffset before after bytes) := by
    obtain ⟨more, there⟩ := drop_layout_offset before after bytes
    refine readWord_word (more ++ rest) (by omega) ?_
    rw [List.drop_append_of_le_length inside, there, List.append_assoc]
  obtain ⟨more, there⟩ := drop_layout_dynamic before after bytes
  simp only [readDynamic, offset, Option.bind_eq_bind, Option.bind_some]
  rw [List.drop_append_of_le_length bound, there, List.append_assoc]
  exact decodes _

theorem split_at_index {β : Type} {values : List β} {i : Nat} {b : β} (there : values[i]? = some b) :
    values = values.take i ++ b :: values.drop (i + 1) := by
  obtain ⟨inside, rfl⟩ := List.getElem?_eq_some_iff.mp there
  rw [List.getElem_cons_drop, List.take_append_drop]

/-- Reading the `i`-th value of a sequence, a static word. -/
theorem readWord_at {pieces : List Piece} {i n position : Nat} (rest : Bytes)
    (there : pieces[i]? = some (.static (word n)))
    (offset : headSize (pieces.take i) = position) (small : n < 2 ^ 256) :
    readWord (layout pieces ++ rest) position = some n := by
  have split := split_at_index there
  have read := @readWord_layout (pieces.take i) (pieces.drop (i + 1)) n rest small
  rwa [← split, offset] at read

/-- Reading the `i`-th value of a sequence, a dynamic one. -/
theorem readDynamic_at {β : Type} {decode : Bytes → Option β} {pieces : List Piece}
    {i position : Nat} {bytes : Bytes} {value : β} (rest : Bytes)
    (there : pieces[i]? = some (.dynamic bytes)) (offset : headSize (pieces.take i) = position)
    (small : (layout pieces).length < 2 ^ 256)
    (decodes : ∀ more, decode (bytes ++ more) = some value) :
    readDynamic decode (layout pieces ++ rest) position = some value := by
  have split := split_at_index there
  rw [split] at small
  have read := readDynamic_layout rest small decodes
  rwa [← split, offset] at read

theorem dynamic_length_at {pieces : List Piece} {i : Nat} {bytes : Bytes}
    (there : pieces[i]? = some (.dynamic bytes)) : bytes.length ≤ (layout pieces).length := by
  have bound := dynamic_length_le (pieces.take i) (pieces.drop (i + 1)) bytes
  rwa [← split_at_index there] at bound

/-! ### Arrays -/

def encodeWordArray (values : List Nat) : Bytes :=
  word values.length ++ layout (values.map (fun n => .static (word n)))

def encodeBytesArray (values : List Bytes) : Bytes :=
  word values.length ++ layout (values.map (fun bytes => .dynamic (encodeBytes bytes)))

def decodeWordArray (buffer : Bytes) : Option (List Nat) := do
  let length ← readWord buffer 0
  (List.range length).mapM (fun i => readWord (buffer.drop 32) (32 * i))

def decodeBytesArray (buffer : Bytes) : Option (List Bytes) := do
  let length ← readWord buffer 0
  (List.range length).mapM (fun i => readDynamic decodeBytes (buffer.drop 32) (32 * i))

theorem mapM_range_getElem {β : Type} {values : List β} {read : Nat → Option β}
    (each : ∀ i (h : i < values.length), read i = some values[i]) :
    (List.range values.length).mapM read = some values := by
  induction values generalizing read with
  | nil => rfl
  | cons v rest ih =>
    have first : read 0 = some v := each 0 (by simp)
    have others : (List.range rest.length).mapM (read ∘ Nat.succ) = some rest :=
      ih (fun i inside => each (i + 1) (by simpa using inside))
    rw [List.length_cons, List.range_succ_eq_map, List.mapM_cons, List.mapM_map, others, first]
    rfl

theorem headSize_words {pieces : List Piece} (each : ∀ p ∈ pieces, p.headSize = 32) :
    headSize pieces = 32 * pieces.length := by
  induction pieces with
  | nil => rfl
  | cons p rest ih =>
    have tail := ih (fun q member => each q (List.mem_cons_of_mem _ member))
    simp only [headSize, List.map_cons, List.sum_cons, List.length_cons] at tail ⊢
    rw [tail, each p List.mem_cons_self]
    omega

theorem decodeWordArray_encodeWordArray {values : List Nat} (rest : Bytes)
    (length : values.length < 2 ^ 256) (small : ∀ n ∈ values, n < 2 ^ 256) :
    decodeWordArray (encodeWordArray values ++ rest) = some values := by
  have head : readWord (encodeWordArray values ++ rest) 0 = some values.length :=
    readWord_word (layout (values.map (fun n => .static (word n))) ++ rest) length
      (by simp [encodeWordArray])
  have body : (encodeWordArray values ++ rest).drop 32 =
      layout (values.map (fun n => .static (word n))) ++ rest := by
    rw [encodeWordArray, List.append_assoc, List.drop_left' (length_word _)]
  simp only [decodeWordArray, head, body, Option.bind_eq_bind, Option.bind_some]
  apply mapM_range_getElem
  intro i inside
  refine readWord_at (i := i) rest ?_ ?_ (small _ (List.getElem_mem inside))
  · simp [List.getElem?_eq_getElem inside]
  · rw [headSize_words (by simp [← List.map_take, Piece.headSize])]
    simp
    omega

theorem decodeBytesArray_encodeBytesArray {values : List Bytes} (rest : Bytes)
    (small : (encodeBytesArray values).length < 2 ^ 256) :
    decodeBytesArray (encodeBytesArray values ++ rest) = some values := by
  have total : (layout (values.map (fun bytes => .dynamic (encodeBytes bytes)))).length < 2 ^ 256 := by
    rw [encodeBytesArray, List.length_append] at small
    omega
  have headBytes : headSize (values.map (fun bytes => Piece.dynamic (encodeBytes bytes))) =
      32 * values.length := by
    rw [headSize_words (by simp [Piece.headSize]), List.length_map]
  have length : values.length < 2 ^ 256 := by
    rw [length_layout] at total
    omega
  have head : readWord (encodeBytesArray values ++ rest) 0 = some values.length :=
    readWord_word (layout (values.map (fun bytes => .dynamic (encodeBytes bytes))) ++ rest)
      length (by simp [encodeBytesArray])
  have body : (encodeBytesArray values ++ rest).drop 32 =
      layout (values.map (fun bytes => .dynamic (encodeBytes bytes))) ++ rest := by
    rw [encodeBytesArray, List.append_assoc, List.drop_left' (length_word _)]
  simp only [decodeBytesArray, head, body, Option.bind_eq_bind, Option.bind_some]
  apply mapM_range_getElem
  intro i inside
  have there : (values.map (fun bytes => Piece.dynamic (encodeBytes bytes)))[i]? =
      some (.dynamic (encodeBytes values[i])) := by
    simp [List.getElem?_eq_getElem inside]
  have fits := Nat.lt_of_le_of_lt (dynamic_length_at there) total
  rw [length_encodeBytes, padLength] at fits
  refine readDynamic_at rest there ?_ total (fun more => decodeBytes_encodeBytes (by omega))
  rw [headSize_words (by simp [← List.map_take, Piece.headSize])]
  simp
  omega

/-! ### Injectivity -/

theorem word_inj {a b : Nat} (smallA : a < 2 ^ 256) (smallB : b < 2 ^ 256) (same : word a = word b) : a = b := by
  rw [← ofBe_word smallA, ← ofBe_word smallB, same]

/-- Sequences that start with a word agree on it and after it. -/
theorem word_append_inj {a b : Nat} {xs ys : Bytes} (smallA : a < 2 ^ 256) (smallB : b < 2 ^ 256)
    (same : word a ++ xs = word b ++ ys) : a = b ∧ xs = ys := by
  obtain ⟨words, rest⟩ := List.append_inj same (by simp)
  exact ⟨word_inj smallA smallB words, rest⟩

/-- The padded length settles what the length word leaves open. -/
theorem encodeBytes_inj {a b : Bytes} (same : encodeBytes a = encodeBytes b) : a = b := by
  have lengths := congrArg List.length same
  rw [length_encodeBytes, length_encodeBytes] at lengths
  unfold encodeBytes at same
  rw [List.append_assoc, List.append_assoc] at same
  obtain ⟨words, rest⟩ := List.append_inj same (by simp)
  have spelled := congrArg ofBe words
  rw [word, word, ofBe_beBytes, ofBe_beBytes, show 256 ^ 32 = 2 ^ 256 by decide] at spelled
  have length : a.length = b.length := by
    unfold padLength at lengths
    omega
  exact (List.append_inj rest length).1

/-! ### Whole words -/

theorem encodeBytes_words (bytes : Bytes) : 32 ∣ (encodeBytes bytes).length := by
  rw [length_encodeBytes, padLength]
  omega

/-- A sequence of whole-word values encodes to whole words. -/
theorem layout_words {pieces : List Piece}
    (heads : ∀ p ∈ pieces, 32 ∣ p.headSize) (tail : ∀ p ∈ pieces, 32 ∣ p.tail.length) :
    32 ∣ (layout pieces).length := by
  rw [length_layout]
  apply Nat.dvd_add
  · induction pieces with
    | nil => exact Nat.dvd_zero _
    | cons p rest ih =>
      simp only [headSize, List.map_cons, List.sum_cons] at ih ⊢
      exact Nat.dvd_add (heads p List.mem_cons_self)
        (ih (fun q member => heads q (List.mem_cons_of_mem _ member))
          (fun q member => tail q (List.mem_cons_of_mem _ member)))
  · induction pieces with
    | nil => exact Nat.dvd_zero _
    | cons p rest ih =>
      simp only [tails, List.flatMap_cons, List.length_append] at ih ⊢
      exact Nat.dvd_add (tail p List.mem_cons_self)
        (ih (fun q member => heads q (List.mem_cons_of_mem _ member))
          (fun q member => tail q (List.mem_cons_of_mem _ member)))

theorem encodeWordArray_words (values : List Nat) : 32 ∣ (encodeWordArray values).length := by
  rw [encodeWordArray, List.length_append, length_word]
  refine Nat.dvd_add (Nat.dvd_refl _) (layout_words ?_ ?_)
  · simp [Piece.headSize]
  · simp [Piece.tail]

theorem encodeBytesArray_words (values : List Bytes) : 32 ∣ (encodeBytesArray values).length := by
  rw [encodeBytesArray, List.length_append, length_word]
  refine Nat.dvd_add (Nat.dvd_refl _) (layout_words ?_ ?_)
  · simp [Piece.headSize]
  · simp only [List.mem_map, forall_exists_index, and_imp]
    rintro p bytes _ rfl
    exact encodeBytes_words bytes

end GasAnalyzer.Abi
