import PsobIndexer.Lib.Bytes
/-!
# Big-endian numbers

The number a byte string spells with its most significant byte first: what
writing one byte or one bit adds to it, how it is compared byte by byte, and
the invariant rule for a loop that walks an array from its last byte. The last
section is the arithmetic of a long division that takes one bit at a time.
-/

namespace Lib

/-- The number `b` spells, most significant byte first. -/
def beNat : Bytes → Nat
  | [] => 0
  | x :: xs => x.toNat * 256 ^ xs.length + beNat xs

theorem beNat_lt (b : Bytes) : beNat b < 256 ^ b.length := by
  induction b with
  | nil => simp [beNat]
  | cons x xs ih =>
    have hx := x.toNat_lt
    have hmul : x.toNat * 256 ^ xs.length ≤ 255 * 256 ^ xs.length := Nat.mul_le_mul_right _ (by omega)
    simp only [beNat, List.length_cons, pow_succ]
    omega

theorem beNat_replicate_zero (n : Nat) : beNat (List.replicate n 0) = 0 := by
  induction n with
  | zero => rfl
  | succ n ih => simp [List.replicate_succ, beNat, ih]

@[simp] theorem beNat_fill_zero (n : Nat) : beNat (ByteArr.fill n 0).val = 0 := beNat_replicate_zero n

theorem beNat_append (a b : Bytes) : beNat (a ++ b) = beNat a * 256 ^ b.length + beNat b := by
  induction a with
  | nil => simp [beNat]
  | cons x xs ih =>
    simp only [List.cons_append, beNat, ih, List.length_append, pow_add]
    ring

/-- The same number read from the other end. -/
theorem beNat_reverse (b : Bytes) : beNat b.reverse = leNat b := by
  induction b with
  | nil => rfl
  | cons x xs ih =>
    rw [List.reverse_cons, beNat_append, ih]
    simp only [leNat, beNat, List.length_singleton, List.length_nil]
    omega

/-- The low `8 * n` bits of `v`, most significant byte first. -/
def beBytes (n v : Nat) : Bytes := (leBytes n v).reverse

@[simp] theorem length_beBytes (n v : Nat) : (beBytes n v).length = n := by simp [beBytes]

theorem beNat_beBytes {n v : Nat} (h : v < 256 ^ n) : beNat (beBytes n v) = v := by
  rw [beBytes, beNat_reverse, leNat_leBytes h]

theorem beBytes_beNat {b : Bytes} {n : Nat} (h : b.length = n) : beBytes n (beNat b) = b := by
  have hle : beNat b = leNat b.reverse := by rw [← beNat_reverse, List.reverse_reverse]
  rw [beBytes, hle, ← h, ← List.length_reverse, leBytes_leNat, List.reverse_reverse]

/-- `u32::to_be_bytes`. -/
def beU32 (x : UInt32) : Bytes := beBytes 4 x.toNat

/-- `u64::to_be_bytes`. -/
def beU64 (x : UInt64) : Bytes := beBytes 8 x.toNat

@[simp] theorem length_beU32 (x : UInt32) : (beU32 x).length = 4 := length_beBytes 4 _

@[simp] theorem length_beU64 (x : UInt64) : (beU64 x).length = 8 := length_beBytes 8 _

/-- `u32::from_be_bytes` of the four bytes of `b` at `o`. -/
def beU32At (b : Bytes) (o : Nat) : UInt32 := UInt32.ofNat (beNat ((b.drop o).take 4))

/-- `u64::from_be_bytes` of the eight bytes of `b` at `o`. -/
def beU64At (b : Bytes) (o : Nat) : UInt64 := UInt64.ofNat (beNat ((b.drop o).take 8))

theorem beU32At_eq_iff {b : Bytes} {o : Nat} {x : UInt32} (h : o + 4 ≤ b.length) :
    beU32At b o = x ↔ (b.drop o).take 4 = beU32 x := by
  have hlen : ((b.drop o).take 4).length = 4 := by
    rw [List.length_take, List.length_drop]
    omega
  constructor
  · rintro rfl
    have hlt := beNat_lt ((b.drop o).take 4)
    rw [hlen] at hlt
    rw [beU32At, beU32, UInt32.toNat_ofNat_of_lt' hlt, beBytes_beNat hlen]
  · intro he
    rw [beU32At, he, beU32, beNat_beBytes x.toNat_lt, UInt32.ofNat_toNat]

theorem beU64At_eq_iff {b : Bytes} {o : Nat} {x : UInt64} (h : o + 8 ≤ b.length) :
    beU64At b o = x ↔ (b.drop o).take 8 = beU64 x := by
  have hlen : ((b.drop o).take 8).length = 8 := by
    rw [List.length_take, List.length_drop]
    omega
  constructor
  · rintro rfl
    have hlt := beNat_lt ((b.drop o).take 8)
    rw [hlen] at hlt
    rw [beU64At, beU64, UInt64.toNat_ofNat_of_lt' hlt, beBytes_beNat hlen]
  · intro he
    rw [beU64At, he, beU64, beNat_beBytes x.toNat_lt, UInt64.ofNat_toNat]

/-! ## Comparison from the most significant byte -/

theorem beNat_lt_of_head {x y : UInt8} {xs ys : Bytes} (hlen : xs.length = ys.length) (h : x < y) :
    beNat (x :: xs) < beNat (y :: ys) := by
  rw [UInt8.lt_iff_toNat_lt] at h
  have hxs := beNat_lt xs
  have hmul : (x.toNat + 1) * 256 ^ xs.length ≤ y.toNat * 256 ^ xs.length := Nat.mul_le_mul_right _ h
  simp only [beNat, ← hlen]
  rw [Nat.add_mul, Nat.one_mul] at hmul
  omega

theorem beNat_inj {a b : Bytes} (hlen : a.length = b.length) (h : beNat a = beNat b) : a = b := by
  induction a generalizing b with
  | nil => exact (List.length_eq_zero_iff.1 hlen.symm).symm
  | cons x xs ih =>
    cases b with
    | nil => exact absurd hlen (by simp)
    | cons y ys =>
      have hlen' : xs.length = ys.length := Nat.succ.inj hlen
      rcases Nat.lt_trichotomy x.toNat y.toNat with hlt | heq | hlt
      · exact absurd h (beNat_lt_of_head hlen' (UInt8.lt_iff_toNat_lt.2 hlt)).ne
      · have htail : beNat xs = beNat ys := by
          simp only [beNat, hlen', heq] at h
          omega
        rw [UInt8.toNat_inj.1 heq, ih hlen' htail]
      · exact absurd h (beNat_lt_of_head hlen'.symm (UInt8.lt_iff_toNat_lt.2 hlt)).ne'

/-! ## Writing a byte or a bit -/

/-- Overwriting byte `k` trades its old weight for the new one. -/
theorem beNat_set {l : Bytes} {k : Nat} (hk : k < l.length) (x : UInt8) :
    beNat (l.set k x) + (l.getD k 0).toNat * 256 ^ (l.length - 1 - k) = beNat l + x.toNat * 256 ^ (l.length - 1 - k) := by
  induction l generalizing k with
  | nil => exact absurd hk (by simp)
  | cons y ys ih =>
    cases k with
    | zero =>
      simp only [List.set_cons_zero, beNat, List.getD_cons_zero, List.length_cons, Nat.add_sub_cancel, Nat.sub_zero]
      omega
    | succ k =>
      have hrec := ih (Nat.lt_of_succ_lt_succ hk)
      have hexp : (y :: ys).length - 1 - (k + 1) = ys.length - 1 - k := by
        rw [List.length_cons]
        omega
      simp only [List.set_cons_succ, beNat, List.getD_cons_succ, List.length_set, hexp]
      omega

/-- Writing a byte over a zero adds its weight. -/
theorem beNat_set_zero {l : Bytes} {k : Nat} (hk : k < l.length) (h0 : l.getD k 0 = 0) (x : UInt8) :
    beNat (l.set k x) = beNat l + x.toNat * 256 ^ (l.length - 1 - k) := by
  have h := beNat_set hk x
  rw [h0] at h
  simpa using h

/-- Bit `b` of byte `k` is bit `8 * (length - 1 - k) + b` of the number. -/
theorem testBit_beNat {l : Bytes} {k b : Nat} (hk : k < l.length) (hb : b < 8) :
    (beNat l).testBit (8 * (l.length - 1 - k) + b) = (l.getD k 0).toNat.testBit b := by
  induction l generalizing k with
  | nil => exact absurd hk (by simp)
  | cons y ys ih =>
    have hlt : beNat ys < 2 ^ (8 * ys.length) := by
      rw [pow_mul]
      exact beNat_lt ys
    have hshape : beNat (y :: ys) = 2 ^ (8 * ys.length) * y.toNat + beNat ys := by
      rw [beNat, pow_mul, Nat.mul_comm]
      norm_num
    rw [hshape, Nat.testBit_two_pow_mul_add _ hlt]
    cases k with
    | zero =>
      have hge : ¬ 8 * ((y :: ys).length - 1 - 0) + b < 8 * ys.length := by
        rw [List.length_cons]
        omega
      rw [if_neg hge, List.getD_cons_zero]
      congr 1
      rw [List.length_cons]
      omega
    | succ k =>
      have hk' : k < ys.length := Nat.lt_of_succ_lt_succ hk
      have hexp : (y :: ys).length - 1 - (k + 1) = ys.length - 1 - k := by
        rw [List.length_cons]
        omega
      rw [hexp, if_pos (by omega), List.getD_cons_succ, ih hk']

theorem toNat_or_bit (x : UInt8) {b : Nat} (hb : b < 8) (hclear : x.toNat.testBit b = false) :
    (x ||| (1 <<< UInt8.ofNat b)).toNat = x.toNat + 2 ^ b := by
  revert b x
  decide +kernel

/-- Setting a clear bit adds its weight. -/
theorem beNat_set_or {l : Bytes} {k b : Nat} (hk : k < l.length) (hb : b < 8)
    (hclear : (beNat l).testBit (8 * (l.length - 1 - k) + b) = false) :
    beNat (l.set k (l.getD k 0 ||| (1 <<< UInt8.ofNat b))) = beNat l + 2 ^ (8 * (l.length - 1 - k) + b) := by
  rw [testBit_beNat hk hb] at hclear
  have h := beNat_set hk (l.getD k 0 ||| (1 <<< UInt8.ofNat b))
  rw [toNat_or_bit _ hb hclear, Nat.add_mul] at h
  have hpow : 2 ^ (8 * (l.length - 1 - k) + b) = 2 ^ b * 256 ^ (l.length - 1 - k) := by
    rw [pow_add, pow_mul, Nat.mul_comm]
    norm_num
  omega

/-! ## Loops from the last byte -/

/-- What holds of the empty suffix and is kept by each byte holds after the whole scan. -/
theorem ByteArr.scanRev_spec {n : Nat} {σ : Type} {step : σ → UInt8 → UInt8 × σ} {init : σ} {a : ByteArr n}
    {P : Bytes → Bytes → σ → Prop} (h0 : P [] [] init)
    (hstep : ∀ x xs ys s, x :: xs <:+ a.val → ys.length = xs.length → P xs ys s →
      P (x :: xs) ((step s x).1 :: ys) (step s x).2) :
    P a.val (a.scanRev step init).1.val (a.scanRev step init).2 := by
  have main : ∀ l, l <:+ a.val →
      let r := l.foldr (fun x acc => let y := step acc.2 x; (y.1 :: acc.1, y.2)) (([], init) : Bytes × σ)
      r.1.length = l.length ∧ P l r.1 r.2 := by
    intro l
    induction l with
    | nil => exact fun _ => ⟨rfl, h0⟩
    | cons x xs ih =>
      intro hsuf
      obtain ⟨hlen, hP⟩ := ih ((List.suffix_cons x xs).trans hsuf)
      exact ⟨by simpa using hlen, hstep x xs _ _ hsuf hlen hP⟩
  exact (main a.val List.suffix_rfl).2

/-! ## Long division, one bit at a time -/

/-- The next bit of the dividend joins the remainder; the divisor goes into it once or not at all. -/
theorem div_mod_append_bit {p d b : Nat} (hd : 0 < d) (hb : b ≤ 1) :
    (2 * p + b) / d = 2 * (p / d) + (if d ≤ 2 * (p % d) + b then 1 else 0) ∧
      (2 * p + b) % d = if d ≤ 2 * (p % d) + b then 2 * (p % d) + b - d else 2 * (p % d) + b := by
  have hr := Nat.mod_lt p hd
  have hp := Nat.mod_add_div p d
  generalize p % d = r at hr hp
  generalize p / d = q at hp
  rw [Nat.div_mod_unique hd]
  split
  · rw [Nat.mul_add, Nat.mul_left_comm]
    omega
  · rw [Nat.add_zero, Nat.mul_left_comm]
    omega

theorem div_two_pow_succ (n k : Nat) : n / 2 ^ k = 2 * (n / 2 ^ (k + 1)) + (n.testBit k).toNat := by
  rw [pow_succ, ← Nat.div_div_eq_div_mul, Nat.testBit_eq_decide_div_mod_eq]
  rcases Nat.mod_two_eq_zero_or_one (n / 2 ^ k) with h | h <;> simp only [h] <;> simp <;> omega

end Lib
