import PsobIndexer.Lib.BigEndian
/-!
# Static Solidity words

The head encoding of a tuple of static members: one 32-byte word for each, its
value at the right or the left end and zeros in the rest. `payloads` takes the
values out of a byte string without looking at the zeros, so what it takes out
spells the string again exactly when every padding byte is zero.
-/

namespace Lib

/-- How a value stands in its word: which end, and how many bytes. -/
structure Cell where
  right : Bool
  size : Fin 33

namespace Cell

/-- An address or an unsigned integer of `size` bytes. -/
def rightAligned (size : Fin 33) : Cell := ⟨true, size⟩

/-- `bytesN`. -/
def leftAligned (size : Fin 33) : Cell := ⟨false, size⟩

def len (c : Cell) : Nat := c.size.val

theorem len_le (c : Cell) : c.len ≤ 32 := Nat.le_of_lt_succ c.size.isLt

def word (c : Cell) (value : Bytes) : Bytes :=
  if c.right then List.replicate (32 - c.len) 0 ++ value else value ++ List.replicate (32 - c.len) 0

def payload (c : Cell) (w : Bytes) : Bytes := if c.right then w.drop (32 - c.len) else w.take c.len

def padding (c : Cell) (w : Bytes) : Bytes := if c.right then w.take (32 - c.len) else w.drop c.len

variable {c : Cell} {value w : Bytes}

theorem length_word (h : value.length = c.len) : (c.word value).length = 32 := by
  have := c.len_le
  unfold word
  split <;> simp <;> omega

theorem length_payload (h : w.length = 32) : (c.payload w).length = c.len := by
  have := c.len_le
  unfold payload
  split <;> simp <;> omega

theorem payload_word (h : value.length = c.len) : c.payload (c.word value) = value := by
  unfold payload word
  split
  · rw [List.drop_left' (by simp)]
  · rw [List.take_left' h]

/-- The value spells the word again exactly when the padding is zero. -/
theorem word_payload_iff (h : w.length = 32) : c.word (c.payload w) = w ↔ ∀ x ∈ c.padding w, x = 0 := by
  have hc := c.len_le
  have hpad : (c.padding w).length = 32 - c.len := by
    unfold padding
    split <;> simp [h]
  have hzero : (∀ x ∈ c.padding w, x = 0) ↔ c.padding w = List.replicate (32 - c.len) 0 := by
    rw [← hpad, List.eq_replicate_length]
  rw [hzero]
  unfold word payload padding
  split
  · conv_lhs => rhs; rw [← List.take_append_drop (32 - c.len) w]
    rw [List.append_left_inj]
    exact eq_comm
  · conv_lhs => rhs; rw [← List.take_append_drop c.len w]
    rw [List.append_right_inj]
    exact eq_comm

end Cell

/-! ## Tuples of words -/

/-- The words of a tuple, one after another. -/
def abiWords (cells : List Cell) (values : List Bytes) : Bytes := (List.zipWith Cell.word cells values).flatten

/-- The values a byte string has in the words of a tuple. -/
def payloads : List Cell → Bytes → List Bytes
  | [], _ => []
  | c :: cells, b => c.payload (b.take 32) :: payloads cells (b.drop 32)

/-- All padding bytes, word by word. -/
def paddings : List Cell → Bytes → Bytes
  | [], _ => []
  | c :: cells, b => c.padding (b.take 32) ++ paddings cells (b.drop 32)

/-- Each value has the length its cell gives it. -/
def Fits (cells : List Cell) (values : List Bytes) : Prop := values.map List.length = cells.map Cell.len

theorem fits_cons {c : Cell} {cells : List Cell} {values : List Bytes} (h : Fits (c :: cells) values) :
    ∃ value values', values = value :: values' ∧ value.length = c.len ∧ Fits cells values' := by
  obtain ⟨value, values', rfl, hval, hrest⟩ := List.map_eq_cons_iff.1 h
  exact ⟨value, values', rfl, hval, hrest⟩

theorem length_of_mem_words {cells : List Cell} {values : List Bytes} (h : Fits cells values) :
    ∀ word ∈ List.zipWith Cell.word cells values, word.length = 32 := by
  induction cells generalizing values with
  | nil => simp
  | cons c cells ih =>
    obtain ⟨value, values', rfl, hval, hrest⟩ := fits_cons h
    rw [List.zipWith_cons_cons, List.forall_mem_cons]
    exact ⟨Cell.length_word hval, ih hrest⟩

theorem length_abiWords {cells : List Cell} {values : List Bytes} (h : Fits cells values) :
    (abiWords cells values).length = 32 * cells.length := by
  induction cells generalizing values with
  | nil => rfl
  | cons c cells ih =>
    obtain ⟨value, values', rfl, hval, hrest⟩ := fits_cons h
    have hlen := ih hrest
    rw [abiWords] at hlen ⊢
    rw [List.zipWith_cons_cons, List.flatten_cons, List.length_append, Cell.length_word hval, hlen, List.length_cons]
    omega

theorem payloads_abiWords {cells : List Cell} {values : List Bytes} (h : Fits cells values) :
    payloads cells (abiWords cells values) = values := by
  induction cells generalizing values with
  | nil => exact (List.map_eq_nil_iff.1 h).symm
  | cons c cells ih =>
    obtain ⟨value, values', rfl, hval, hrest⟩ := fits_cons h
    have hih := ih hrest
    have hword := Cell.length_word hval
    rw [abiWords] at hih ⊢
    rw [List.zipWith_cons_cons, List.flatten_cons, payloads, List.take_left' hword, List.drop_left' hword,
      Cell.payload_word hval, hih]

/-- The values of a byte string spell it again exactly when its padding is zero. -/
theorem abiWords_payloads_iff {cells : List Cell} {b : Bytes} (h : b.length = 32 * cells.length) :
    abiWords cells (payloads cells b) = b ↔ ∀ x ∈ paddings cells b, x = 0 := by
  induction cells generalizing b with
  | nil =>
    obtain rfl := List.length_eq_zero_iff.1 h
    simp [abiWords, paddings]
  | cons c cells ih =>
    rw [List.length_cons] at h
    have hword : (b.take 32).length = 32 := by
      rw [List.length_take]
      omega
    have hih := @ih (b.drop 32) (by rw [List.length_drop]; omega)
    rw [abiWords] at hih ⊢
    rw [payloads, paddings, List.forall_mem_append, List.zipWith_cons_cons, List.flatten_cons,
      ← Cell.word_payload_iff hword, ← hih]
    constructor
    · intro he
      have hhead := congrArg (List.take 32) he
      have htail := congrArg (List.drop 32) he
      rw [List.take_left' (Cell.length_word (Cell.length_payload hword))] at hhead
      rw [List.drop_left' (Cell.length_word (Cell.length_payload hword))] at htail
      exact ⟨hhead, htail⟩
    · rintro ⟨hhead, htail⟩
      rw [hhead, htail, List.take_append_drop]

/-! ## Codecs -/

/-- An encoder and a decoder of one tuple type. The decoder checks nothing but
the length. -/
structure AbiCodec (J : Type) where
  cells : List Cell
  values : J → List Bytes
  encode : J → Bytes
  decode : Bytes → Except String J
  fits : ∀ j, Fits cells (values j)
  encode_words : ∀ j, encode j = abiWords cells (values j)
  decode_eq_ok : ∀ data j, decode data = .ok j ↔ data.length = 32 * cells.length ∧ payloads cells data = values j
  decode_ok : ∀ data, data.length = 32 * cells.length → ∃ j, decode data = .ok j

namespace AbiCodec
variable {J : Type} (C : AbiCodec J)

theorem length_encode (j : J) : (C.encode j).length = 32 * C.cells.length := by
  rw [C.encode_words, length_abiWords (C.fits j)]

theorem decode_encode (j : J) : C.decode (C.encode j) = .ok j := by
  rw [C.decode_eq_ok, C.length_encode, C.encode_words]
  exact ⟨rfl, payloads_abiWords (C.fits j)⟩

/-- What is decoded encodes to the same bytes exactly when the padding is zero. -/
theorem canonical_iff (data : Bytes) :
    (∀ j, C.decode data = .ok j → C.encode j = data) ↔
      (data.length = 32 * C.cells.length → ∀ x ∈ paddings C.cells data, x = 0) := by
  constructor
  · intro h hlen
    obtain ⟨j, hj⟩ := C.decode_ok data hlen
    have hcanon := h j hj
    rw [C.encode_words, ← ((C.decode_eq_ok data j).1 hj).2] at hcanon
    exact (abiWords_payloads_iff hlen).1 hcanon
  · intro hpad j hj
    obtain ⟨hlen, hvalues⟩ := (C.decode_eq_ok data j).1 hj
    rw [C.encode_words, ← hvalues]
    exact (abiWords_payloads_iff hlen).2 (hpad hlen)

end AbiCodec

/-! ## Writing into a zeroed array -/

@[simp] theorem ByteArr.length_val {n : Nat} (a : ByteArr n) : a.val.length = n := a.property

/-- `a[o..o + src.len()].copy_from_slice(src)`, for a range inside the array. -/
def ByteArr.copyFrom {n : Nat} (a : ByteArr n) (o : Nat) (src : Bytes) : ByteArr n :=
  ofSlice n (a.val.take o ++ src ++ a.val.drop (o + src.length)) 0

/-- The bytes from position `p` to the end of an array of `n` bytes, with
`writes` in it and zeros elsewhere. -/
def spread (n : Nat) : Nat → List (Nat × Bytes) → Bytes
  | p, [] => List.replicate (n - p) 0
  | p, (o, src) :: writes => List.replicate (o - p) 0 ++ src ++ spread n (o + src.length) writes

/-- The writes stand one after another, from `p` on, inside the array. -/
def InOrder (n : Nat) : Nat → List (Nat × Bytes) → Prop
  | p, [] => p ≤ n
  | p, (o, src) :: writes => p ≤ o ∧ InOrder n (o + src.length) writes

theorem InOrder.le {n p : Nat} {writes : List (Nat × Bytes)} (h : InOrder n p writes) : p ≤ n := by
  induction writes generalizing p with
  | nil => exact h
  | cons e writes ih =>
    obtain ⟨hle, hrest⟩ := h
    have := ih hrest
    omega

/-- Writing from left to right over zeros. -/
theorem copyFrom_foldl {n p : Nat} {writes : List (Nat × Bytes)} (h : InOrder n p writes) {a : ByteArr n} {pre : Bytes}
    (hpre : pre.length = p) (ha : a.val = pre ++ List.replicate (n - p) 0) :
    (writes.foldl (fun a e => a.copyFrom e.1 e.2) a).val = pre ++ spread n p writes := by
  induction writes generalizing p a pre with
  | nil => exact ha
  | cons e writes ih =>
    obtain ⟨o, src⟩ := e
    obtain ⟨hle, hrest⟩ := h
    have hend := hrest.le
    have hsplit : List.replicate (n - p) (0 : UInt8) =
        List.replicate (o - p) 0 ++ (List.replicate src.length 0 ++ List.replicate (n - (o + src.length)) 0) := by
      rw [List.replicate_append_replicate, List.replicate_append_replicate]
      congr 1
      omega
    have htake : a.val.take o = pre ++ List.replicate (o - p) 0 := by
      rw [ha, hsplit, ← List.append_assoc, List.take_left' (by simp [hpre]; omega)]
    have hdrop : a.val.drop (o + src.length) = List.replicate (n - (o + src.length)) 0 := by
      rw [ha, hsplit, ← List.append_assoc, ← List.append_assoc, List.drop_left' (by simp [hpre]; omega)]
    have hval : (a.copyFrom o src).val =
        (pre ++ List.replicate (o - p) 0 ++ src) ++ List.replicate (n - (o + src.length)) 0 := by
      rw [ByteArr.copyFrom, htake, hdrop, ByteArr.ofSlice_val (by simp [hpre]; omega), List.drop_zero,
        List.take_of_length_le (by simp [hpre]; omega)]
    rw [List.foldl_cons, ih hrest (by simp [hpre]; omega) hval, spread]
    simp only [List.append_assoc]

end Lib
