import PsobIndexer.Lib.BigEndian
import PsobIndexer.Common
/-!
# Compact targets and block work

The byte loops of the 256-bit arithmetic, each read as what it does to the
number the bytes spell. On top of them the work of a target is exact and so is
a sum of works, and the expansion of a compact target is compared with the
rules of `SetCompact` and `CheckProofOfWork`.
-/
open Lib

namespace PsobIndexer

/-- The number a 32-byte big-endian array stands for. -/
def u256 (v : Hash32) : Nat := beNat v.val

theorem u256_lt (v : Hash32) : u256 v < 2 ^ 256 := by
  have h := beNat_lt v.val
  rw [v.property] at h
  exact h

theorem u256_inj {v w : Hash32} (h : u256 v = u256 w) : v = w :=
  Subtype.ext (beNat_inj (v.property.trans w.property.symm) h)

@[simp] theorem u256_zero : u256 (ByteArr.fill 32 0) = 0 := beNat_fill_zero 32

/-! ## One loop at a time -/

theorem u256_addOne (v : Hash32) : u256 (u256AddOne v).1 + 2 ^ 256 * (u256AddOne v).2.toNat = u256 v + 1 := by
  have h := @ByteArr.scanRev_spec 32 Bool (fun carry b => if carry then (b + 1, b = 0xff) else (b, false)) true v
    (fun xs ys carry => beNat ys + 256 ^ xs.length * carry.toNat = beNat xs + 1) rfl
    (fun x xs ys carry _ hlen ih => by
      have hx := x.toNat_lt
      cases carry with
      | false =>
        simp only [Bool.false_eq_true, if_false, beNat, hlen, Bool.toNat_false, Nat.mul_zero, Nat.add_zero] at ih ⊢
        omega
      | true =>
        by_cases hff : x = 0xff
        · subst hff
          have hsum : (0xff : UInt8) + 1 = 0 := rfl
          have hval : (0xff : UInt8).toNat = 255 := rfl
          simp only [if_true, hsum, hval, beNat, hlen, List.length_cons, pow_succ, decide_true, Bool.toNat_true,
            Nat.mul_one, UInt8.toNat_zero, Nat.zero_mul, Nat.zero_add] at ih ⊢
          omega
        · have hne : x.toNat ≠ 255 := fun h => hff (UInt8.toNat_inj.1 h)
          have hsum : (x + 1).toNat = x.toNat + 1 := by
            rw [UInt8.toNat_add]
            exact Nat.mod_eq_of_lt (by show x.toNat + 1 < 256; omega)
          simp only [if_true, hff, decide_false, beNat, hlen, hsum, Bool.toNat_true, Bool.toNat_false, Nat.mul_one,
            Nat.mul_zero, Nat.add_zero, Nat.add_mul, Nat.one_mul] at ih ⊢
          omega)
  rw [v.property] at h
  exact h

theorem u256_not (v : Hash32) : u256 (v.scanRev (fun _ b => (~~~ b, ())) ()).1 + u256 v + 1 = 2 ^ 256 := by
  have h := @ByteArr.scanRev_spec 32 Unit (fun _ b => (~~~ b, ())) () v
    (fun xs ys _ => beNat ys + beNat xs + 1 = 256 ^ xs.length) rfl
    (fun x xs ys _ _ hlen ih => by
      have hx := x.toNat_lt
      have hnot : (~~~ x).toNat = 255 - x.toNat := by
        rw [UInt8.toNat_not]
        rfl
      have hmul : 255 * 256 ^ xs.length = (255 - x.toNat) * 256 ^ xs.length + x.toNat * 256 ^ xs.length := by
        rw [← Nat.add_mul, Nat.sub_add_cancel (by omega)]
      simp only [beNat, hlen, hnot, List.length_cons, pow_succ]
      omega)
  rw [v.property] at h
  exact h

/-- One byte of the shift: a bit comes in from the right, the top bit goes out. -/
theorem shl1_byte (x : UInt8) {carry : UInt8} (hc : carry.toNat ≤ 1) :
    ((x <<< 1) ||| carry).toNat + 256 * (x >>> 7).toNat = 2 * x.toNat + carry.toNat ∧ (x >>> 7).toNat ≤ 1 := by
  have hbit : carry = 0 ∨ carry = 1 := by
    rcases Nat.le_one_iff_eq_zero_or_eq_one.1 hc with h | h
    · exact .inl (UInt8.toNat_inj.1 h)
    · exact .inr (UInt8.toNat_inj.1 h)
  rcases hbit with rfl | rfl
  · revert x
    decide +kernel
  · revert x
    decide +kernel

theorem u256_shl1 {v : Hash32} (h : u256 v < 2 ^ 255) : u256 (u256Shl1 v) = 2 * u256 v := by
  have main := @ByteArr.scanRev_spec 32 UInt8 (fun carry b => ((b <<< 1) ||| carry, b >>> 7)) 0 v
    (fun xs ys carry => carry.toNat ≤ 1 ∧ beNat ys + 256 ^ xs.length * carry.toNat = 2 * beNat xs)
    ⟨by decide, rfl⟩
    (fun x xs ys carry _ hlen ⟨hc, ih⟩ => by
      obtain ⟨hsum, hle⟩ := shl1_byte x hc
      refine ⟨hle, ?_⟩
      have hmul := congrArg (· * 256 ^ xs.length) hsum
      simp only [Nat.add_mul] at hmul
      simp only [beNat, hlen, List.length_cons, pow_succ]
      calc _ = ((x <<< 1) ||| carry).toNat * 256 ^ xs.length + 256 * (x >>> 7).toNat * 256 ^ xs.length + beNat ys := by ring
        _ = 2 * x.toNat * 256 ^ xs.length + (beNat ys + 256 ^ xs.length * carry.toNat) := by rw [hmul]; ring
        _ = 2 * (x.toNat * 256 ^ xs.length + beNat xs) := by rw [ih]; ring)
  rw [v.property] at main
  have hval : u256 (u256Shl1 v) + 2 ^ 256 * (v.scanRev (fun carry b => ((b <<< 1) ||| carry, b >>> 7)) (0 : UInt8)).2.toNat =
    2 * u256 v := main.2
  omega

/-! A loop over two numbers keeps the unread bytes of the second, last byte first. -/

/-- `P` sees the bytes read so far of both numbers, the bytes written and the carry. -/
theorem scanRev_pair {n : Nat} {σ : Type} {step : σ × Bytes → UInt8 → UInt8 × (σ × Bytes)} {init : σ} {a b : ByteArr n}
    {P : Bytes → Bytes → Bytes → σ → Prop} (h0 : P [] [] [] init)
    (hstep : ∀ x xs z zs ys s rest, zs.length = xs.length → ys.length = xs.length → P xs zs ys s →
      P (x :: xs) (z :: zs) ((step (s, z :: rest) x).1 :: ys) (step (s, z :: rest) x).2.1 ∧
        (step (s, z :: rest) x).2.2 = rest) :
    P a.val b.val (a.scanRev step (init, b.val.reverse)).1.val (a.scanRev step (init, b.val.reverse)).2.1 := by
  have main := @ByteArr.scanRev_spec n (σ × Bytes) step (init, b.val.reverse) a
    (fun xs ys s => ∃ pre zs, b.val = pre ++ zs ∧ zs.length = xs.length ∧ s.2 = pre.reverse ∧ P xs zs ys s.1)
    ⟨b.val, [], by simp, rfl, rfl, h0⟩
    (fun x xs ys s hsuf hlen ⟨pre, zs, hb, hzs, hs, ih⟩ => by
      have hle : xs.length + 1 ≤ n := a.property ▸ hsuf.length_le
      have hpre : pre.length + zs.length = n := by rw [← List.length_append, ← hb, b.property]
      obtain rfl | ⟨pre, z, rfl⟩ := List.eq_nil_or_concat pre
      · exact absurd hpre (by simp only [List.length_nil]; omega)
      · rw [List.concat_eq_append] at hb hs
        obtain ⟨c, rest⟩ := s
        rw [List.reverse_append] at hs
        subst hs
        obtain ⟨hP, hrest⟩ := hstep x xs z zs ys c pre.reverse hzs hlen ih
        exact ⟨pre, z :: zs, by simp [hb], by simp [hzs], hrest, hP⟩)
  obtain ⟨pre, zs, hb, hzs, -, hP⟩ := main
  have hpre : pre.length + zs.length = n := by rw [← List.length_append, ← hb, b.property]
  rw [a.property] at hzs
  have hnil : pre = [] := List.length_eq_zero_iff.1 (by omega)
  rw [hnil, List.nil_append] at hb
  rwa [← hb] at hP

theorem u256_addBe {a b : Hash32} (h : u256 a + u256 b < 2 ^ 256) : u256 (u256AddBe a b) = u256 a + u256 b := by
  have main := @scanRev_pair 32 Nat
    (fun (st : Nat × Bytes) x =>
      let s := x.toNat + (st.2.headD 0).toNat + st.1
      (UInt8.ofNat (s % 256), (s / 256, st.2.tail))) 0 a b
    (fun xs zs ys carry => beNat ys + 256 ^ xs.length * carry = beNat xs + beNat zs) rfl
    (fun x xs z zs ys carry rest hzs hys ih => by
      refine ⟨?_, rfl⟩
      have hbyte : (UInt8.ofNat ((x.toNat + z.toNat + carry) % 256)).toNat = (x.toNat + z.toNat + carry) % 256 := by
        rw [UInt8.toNat_ofNat', Nat.mod_mod]
      have hdiv := Nat.mod_add_div (x.toNat + z.toNat + carry) 256
      simp only [List.headD_cons, beNat, hbyte, hzs, hys, List.length_cons, pow_succ]
      calc _ = ((x.toNat + z.toNat + carry) % 256 + 256 * ((x.toNat + z.toNat + carry) / 256)) * 256 ^ xs.length
              + beNat ys := by ring
        _ = (x.toNat + z.toNat) * 256 ^ xs.length + (beNat ys + 256 ^ xs.length * carry) := by rw [hdiv]; ring
        _ = _ := by rw [ih]; ring)
  rw [a.property] at main
  have hlt := u256_lt (u256AddBe a b)
  have hval : u256 (u256AddBe a b) + 2 ^ 256 * _ = u256 a + u256 b := main
  omega

theorem u256_sub {a b : Hash32} (h : u256 b ≤ u256 a) : u256 (u256Sub a b) = u256 a - u256 b := by
  have main := @scanRev_pair 32 Int
    (fun (acc : Int × Bytes) x =>
      let diff := (x.toNat : Int) - ((acc.2.headD 0).toNat : Int) - acc.1
      if diff < 0 then (UInt8.ofNat (diff + 256).toNat, (1, acc.2.tail)) else (UInt8.ofNat diff.toNat, (0, acc.2.tail)))
    0 a b
    (fun xs zs ys borrow => (borrow = 0 ∨ borrow = 1) ∧
      (beNat ys : Int) = beNat xs - beNat zs + 256 ^ xs.length * borrow) ⟨.inl rfl, rfl⟩
    (fun x xs z zs ys borrow rest hzs hys ⟨hb, ih⟩ => by
      have hx := x.toNat_lt
      have hz := z.toNat_lt
      by_cases hneg : (x.toNat : Int) - z.toNat - borrow < 0
      · simp only [List.headD_cons, List.tail_cons, hneg, if_true]
        refine ⟨⟨.inr trivial, ?_⟩, trivial⟩
        have hbyte : ((UInt8.ofNat ((x.toNat : Int) - z.toNat - borrow + 256).toNat).toNat : Int) =
            x.toNat - z.toNat - borrow + 256 := by
          rw [UInt8.toNat_ofNat_of_lt' (by show _ < 256; omega)]
          omega
        simp only [beNat, hzs, hys, List.length_cons, pow_succ, Nat.cast_add, Nat.cast_mul, Nat.cast_pow, hbyte, ih]
        push_cast
        ring
      · simp only [List.headD_cons, List.tail_cons, hneg, if_false]
        refine ⟨⟨.inl trivial, ?_⟩, trivial⟩
        have hbyte : ((UInt8.ofNat ((x.toNat : Int) - z.toNat - borrow).toNat).toNat : Int) =
            x.toNat - z.toNat - borrow := by
          rw [UInt8.toNat_ofNat_of_lt' (by show _ < 256; omega)]
          omega
        simp only [beNat, hzs, hys, List.length_cons, pow_succ, Nat.cast_add, Nat.cast_mul, Nat.cast_pow, hbyte, ih]
        push_cast
        ring)
  rw [a.property] at main
  have hlt := u256_lt (u256Sub a b)
  have hval : (u256 (u256Sub a b) : Int) = u256 a - u256 b + 256 ^ 32 * _ := main.2
  have hpow : (256 : Int) ^ 32 = 2 ^ 256 := by norm_num
  rw [hpow] at hval
  rcases main.1 with hb | hb
  · rw [hb] at hval
    omega
  · rw [hb] at hval
    omega

/-- Comparing from the most significant byte compares the numbers. -/
theorem geBE_iff {a b : Bytes} (hlen : a.length = b.length) : geBE a b = true ↔ beNat b ≤ beNat a := by
  induction a generalizing b with
  | nil =>
    rw [List.length_eq_zero_iff.1 hlen.symm]
    simp [geBE]
  | cons x xs ih =>
    cases b with
    | nil => exact absurd hlen (by simp)
    | cons y ys =>
      have hlen' : xs.length = ys.length := Nat.succ.inj hlen
      by_cases heq : x = y
      · subst heq
        simp only [geBE, ne_eq, not_true, if_false, ih hlen', beNat, hlen']
        omega
      · simp only [geBE, ne_eq, heq, not_false_iff, if_true, decide_eq_true_eq]
        constructor
        · exact fun hlt => (beNat_lt_of_head hlen'.symm hlt).le
        · intro hle
          rcases Nat.lt_trichotomy x.toNat y.toNat with hlt | hxy | hlt
          · exact absurd hle (beNat_lt_of_head hlen' (UInt8.lt_iff_toNat_lt.2 hlt)).not_ge
          · exact absurd (UInt8.toNat_inj.1 hxy) heq
          · exact UInt8.lt_iff_toNat_lt.2 hlt

theorem u256Ge_iff {a b : Hash32} : u256Ge a b = true ↔ u256 b ≤ u256 a :=
  geBE_iff (a.property.trans b.property.symm)

/-! ## Long division -/

/-- Bit `i` from the top, as the division reads it. -/
theorem u256_bit {v : Hash32} {i : Nat} (hi : i < 256) :
    (v.val.getD (i / 8) 0 >>> UInt8.ofNat (7 - i % 8)) &&& 1 = 1 ↔ (u256 v).testBit (255 - i) = true := by
  have hlen := v.property
  have hbyte : ∀ x : UInt8, ∀ b < 8, (x >>> UInt8.ofNat b) &&& 1 = 1 ↔ x.toNat.testBit b = true := by
    decide +kernel
  have hpos : 255 - i = 8 * (v.val.length - 1 - i / 8) + (7 - i % 8) := by omega
  rw [hbyte _ _ (by omega), u256, hpos, testBit_beNat (by omega) (by omega)]

/-- Setting bit `i` from the top where it is clear. -/
theorem u256_setBit {v : Hash32} {i : Nat} (hi : i < 256) (hclear : (u256 v).testBit (255 - i) = false) :
    u256 (v.set (i / 8) (v.val.getD (i / 8) 0 ||| (1 <<< UInt8.ofNat (7 - i % 8)))) = u256 v + 2 ^ (255 - i) := by
  have hlen := v.property
  have hpos : 255 - i = 8 * (v.val.length - 1 - i / 8) + (7 - i % 8) := by omega
  rw [hpos] at hclear ⊢
  exact beNat_set_or (by omega) (by omega) hclear

/-- After `i` bits: quotient and remainder of the bits read so far. -/
structure Divided (num den : Hash32) (i : Nat) (qr : Hash32 × Hash32) : Prop where
  quotient : u256 qr.1 = u256 num / 2 ^ (256 - i) / u256 den * 2 ^ (256 - i)
  remainder : u256 qr.2 = u256 num / 2 ^ (256 - i) % u256 den

/-- The remainder before a turn, which is at most the bits read, leaves room for
one more. -/
theorem Divided.room {num den : Hash32} {i : Nat} {q r : Hash32} (h : Divided num den i (q, r)) (hi : i < 256) :
    u256 r < 2 ^ 255 := by
  have hle : u256 r ≤ u256 num / 2 ^ (256 - i) := h.remainder ▸ Nat.mod_le _ _
  have hlt : u256 num / 2 ^ (256 - i) < 2 ^ i := by
    rw [Nat.div_lt_iff_lt_mul (Nat.two_pow_pos _), ← pow_add, Nat.add_sub_cancel' hi.le]
    exact u256_lt num
  have hpow : 2 ^ i ≤ 2 ^ 255 := Nat.pow_le_pow_right Nat.two_pos (by omega)
  omega

/-- The remainder and the bit that joins it, still a 256-bit number. -/
theorem Divided.shift {num den : Hash32} {i : Nat} {q r : Hash32} (h : Divided num den i (q, r)) (hi : i < 256) :
    u256 (if (num.val.getD (i / 8) 0 >>> UInt8.ofNat (7 - i % 8)) &&& 1 = 1
      then (u256Shl1 r).set 31 ((u256Shl1 r).val.getD 31 0 ||| 1) else u256Shl1 r) =
      2 * u256 r + ((u256 num).testBit (255 - i)).toNat := by
  have hshl := u256_shl1 (h.room hi)
  have hodd : (u256 (u256Shl1 r)).testBit (255 - 255) = false := by
    rw [hshl, Nat.testBit_eq_decide_div_mod_eq]
    simp
  by_cases hbit : (u256 num).testBit (255 - i) = true
  · have hset : u256 ((u256Shl1 r).set 31 ((u256Shl1 r).val.getD 31 0 ||| 1)) = u256 (u256Shl1 r) + 2 ^ (255 - 255) :=
      u256_setBit (by decide) hodd
    rw [if_pos ((u256_bit hi).2 hbit), hset, hshl, hbit]
    rfl
  · rw [if_neg (mt (u256_bit hi).1 hbit), hshl, Bool.eq_false_of_not_eq_true hbit]
    rfl

theorem Divided.step {num den : Hash32} {i : Nat} {qr : Hash32 × Hash32} (hden : 0 < u256 den)
    (h : Divided num den i qr) (hi : i < 256) : Divided num den (i + 1) (u256DivStep num den qr i) := by
  obtain ⟨q, r⟩ := qr
  have hshift := h.shift hi
  have hq : u256 q = u256 num / 2 ^ (256 - i) / u256 den * 2 ^ (256 - i) := h.quotient
  have hr : u256 r = u256 num / 2 ^ (256 - i) % u256 den := h.remainder
  have hexp : 256 - i = (255 - i) + 1 := by omega
  have hnext : 256 - (i + 1) = 255 - i := by omega
  have hbits := div_two_pow_succ (u256 num) (255 - i)
  have hdiv := div_mod_append_bit (p := u256 num / 2 ^ (256 - i)) (b := ((u256 num).testBit (255 - i)).toNat) hden
    (Bool.toNat_le _)
  rw [← hexp] at hbits
  rw [← hbits, ← hr] at hdiv
  unfold u256DivStep
  simp only []
  generalize (if (num.val.getD (i / 8) 0 >>> UInt8.ofNat (7 - i % 8)) &&& 1 = 1
    then (u256Shl1 r).set 31 ((u256Shl1 r).val.getD 31 0 ||| 1) else u256Shl1 r) = r' at hshift
  rw [← hshift] at hdiv
  by_cases hge : u256 den ≤ u256 r'
  · rw [if_pos (u256Ge_iff.2 hge)]
    rw [if_pos hge, if_pos hge] at hdiv
    -- the low bits of the quotient are still clear
    have hclear : (u256 q).testBit (255 - i) = false := by
      rw [hq, Nat.testBit_mul_two_pow]
      simp only [Bool.and_eq_false_iff, decide_eq_false_iff_not]
      exact .inl (by omega)
    refine ⟨?_, ?_⟩
    · rw [u256_setBit hi hclear, hnext, hdiv.1, hq, hexp, pow_succ, Nat.add_mul, Nat.one_mul]
      ring
    · rw [u256_sub hge, hnext, hdiv.2]
  · rw [if_neg (mt u256Ge_iff.1 hge)]
    rw [if_neg hge, if_neg hge] at hdiv
    refine ⟨?_, ?_⟩
    · rw [hnext, hdiv.1, hq, hexp, pow_succ, Nat.add_zero]
      ring
    · rw [hnext, hdiv.2]

/-- `i` turns of the division. -/
theorem divided_run {num den : Hash32} (hden : 0 < u256 den) {i : Nat} (hi : i ≤ 256) :
    Divided num den i ((List.range i).foldl (u256DivStep num den) (ByteArr.fill 32 0, ByteArr.fill 32 0)) := by
  induction i with
  | zero =>
    have hnum : u256 num / 2 ^ (256 - 0) = 0 := Nat.div_eq_of_lt (u256_lt num)
    refine ⟨?_, ?_⟩
    · rw [hnum, Nat.zero_div, Nat.zero_mul]
      exact u256_zero
    · rw [hnum, Nat.zero_mod]
      exact u256_zero
  | succ i ih =>
    rw [List.range_succ, List.foldl_append]
    exact (ih (Nat.le_of_succ_le hi)).step hden hi

theorem u256_divmod {num den : Hash32} (hden : 0 < u256 den) :
    u256 (u256Divmod num den).1 = u256 num / u256 den ∧ u256 (u256Divmod num den).2 = u256 num % u256 den := by
  have run := @divided_run num den hden 256 le_rfl
  have hread : u256 num / 2 ^ (256 - 256) = u256 num := Nat.div_one _
  have hq := run.quotient
  have hr := run.remainder
  rw [hread] at hq hr
  rw [Nat.sub_self, pow_zero, Nat.mul_one] at hq
  exact ⟨hq, hr⟩

/-- A call of the division that has a condition: a shift must not lose the top
bit, and a subtraction must not borrow from beyond it. -/
inductive DivCall where
  | shl1 (v : Hash32)
  | sub (a b : Hash32)

def DivCall.Safe : DivCall → Prop
  | .shl1 v => v.val.getD 0 0 < 0x80
  | .sub a b => u256 b ≤ u256 a

/-- `u256DivStep` with the calls it makes. -/
def u256DivStepCalls (num den : Hash32) (qr : Hash32 × Hash32) (i : Nat) : (Hash32 × Hash32) × List DivCall :=
  let (q, r) := qr
  let called := [.shl1 r]
  let r := u256Shl1 r
  let byte := i / 8
  let bit := UInt8.ofNat (7 - i % 8)
  let r := if (num.val.getD byte 0 >>> bit) &&& 1 = 1 then r.set 31 (r.val.getD 31 0 ||| 1) else r
  if u256Ge r den then
    ((q.set byte (q.val.getD byte 0 ||| (1 <<< bit)), u256Sub r den), called ++ [.sub r den])
  else ((q, r), called)

/-- `u256Divmod` with the calls its turns make, in order. -/
def u256DivmodCalls (num den : Hash32) : (Hash32 × Hash32) × List DivCall :=
  (List.range 256).foldl (fun s i => let t := u256DivStepCalls num den s.1 i; (t.1, s.2 ++ t.2))
    ((ByteArr.fill 32 0, ByteArr.fill 32 0), [])

theorem u256DivStepCalls_fst (num den : Hash32) (qr : Hash32 × Hash32) (i : Nat) :
    (u256DivStepCalls num den qr i).1 = u256DivStep num den qr i := by
  obtain ⟨q, r⟩ := qr
  unfold u256DivStepCalls u256DivStep
  dsimp only
  exact apply_ite Prod.fst _ _ _

/-- The top bit, as the first byte shows it. -/
theorem u256_top_clear {v : Hash32} (h : u256 v < 2 ^ 255) : v.val.getD 0 0 < 0x80 := by
  have htop : ∀ x : UInt8, x.toNat.testBit 7 = false → x < 0x80 := by decide +kernel
  have hlen := v.property
  have hbit : (u256 v).testBit (8 * (v.val.length - 1 - 0) + 7) = (v.val.getD 0 0).toNat.testBit 7 :=
    testBit_beNat (by omega) (by decide)
  rw [hlen, Nat.testBit_lt_two_pow h] at hbit
  exact htop _ hbit.symm

theorem Divided.calls {num den : Hash32} {i : Nat} {qr : Hash32 × Hash32} (h : Divided num den i qr) (hi : i < 256) :
    ∀ call ∈ (u256DivStepCalls num den qr i).2, call.Safe := by
  obtain ⟨q, r⟩ := qr
  have hshl : (DivCall.shl1 r).Safe := u256_top_clear (h.room hi)
  unfold u256DivStepCalls
  dsimp only
  generalize (if (num.val.getD (i / 8) 0 >>> UInt8.ofNat (7 - i % 8)) &&& 1 = 1
    then (u256Shl1 r).set 31 ((u256Shl1 r).val.getD 31 0 ||| 1) else u256Shl1 r) = r'
  intro call hcall
  by_cases hge : u256Ge r' den = true
  · rw [if_pos hge] at hcall
    simp only [List.cons_append, List.nil_append, List.mem_cons, List.not_mem_nil, or_false] at hcall
    rcases hcall with rfl | rfl
    · exact hshl
    · exact u256Ge_iff.1 hge
  · rw [if_neg hge, List.mem_singleton] at hcall
    rw [hcall]
    exact hshl

/-- The division with its calls, `i` turns in. -/
theorem u256DivmodCalls_run {num den : Hash32} (hden : 0 < u256 den) {i : Nat} (hi : i ≤ 256) :
    let s := (List.range i).foldl (fun s i => let t := u256DivStepCalls num den s.1 i; (t.1, s.2 ++ t.2))
      ((ByteArr.fill 32 0, ByteArr.fill 32 0), [])
    s.1 = (List.range i).foldl (u256DivStep num den) (ByteArr.fill 32 0, ByteArr.fill 32 0) ∧
      ∀ call ∈ s.2, call.Safe := by
  induction i with
  | zero => exact ⟨rfl, fun call hcall => absurd hcall List.not_mem_nil⟩
  | succ i ih =>
    obtain ⟨hfst, hcalls⟩ := ih (Nat.le_of_succ_le hi)
    simp only [List.range_succ, List.foldl_append, List.foldl_cons, List.foldl_nil]
    rw [hfst, u256DivStepCalls_fst]
    refine ⟨rfl, fun call hcall => ?_⟩
    rcases List.mem_append.1 hcall with hcall | hcall
    · exact hcalls call hcall
    · exact (divided_run hden (Nat.le_of_succ_le hi)).calls hi call hcall

/-- Quotient and remainder are exact, no shift of the remainder loses a bit and
no subtraction borrows past the top byte. -/
theorem divmod_exact (num den : Hash32) (hden : den ≠ ByteArr.fill 32 0) :
    u256 num = u256 (u256Divmod num den).1 * u256 den + u256 (u256Divmod num den).2 ∧
      u256 (u256Divmod num den).2 < u256 den ∧
      (u256DivmodCalls num den).1 = u256Divmod num den ∧ ∀ call ∈ (u256DivmodCalls num den).2, call.Safe := by
  have hpos : 0 < u256 den := Nat.pos_of_ne_zero fun h => hden (u256_inj (h.trans u256_zero.symm))
  obtain ⟨hq, hr⟩ := @u256_divmod num den hpos
  rw [hq, hr]
  exact ⟨(Nat.div_add_mod' _ _).symm, Nat.mod_lt _ hpos, u256DivmodCalls_run hpos le_rfl⟩

/-- A divisor with its top bit set. -/
theorem divmod_exact_large :
    u256 (ByteArr.fill 32 0xff) = u256 (u256Divmod (ByteArr.fill 32 0xff) (ByteArr.fill 32 0x80)).1 *
      u256 (ByteArr.fill 32 0x80) + u256 (u256Divmod (ByteArr.fill 32 0xff) (ByteArr.fill 32 0x80)).2 :=
  (divmod_exact (ByteArr.fill 32 0xff) (ByteArr.fill 32 0x80) (by decide)).1

/-! ## Work -/

/-- `floor(2^256 / (target + 1))`. -/
def targetWork (target : Hash32) : Nat := 2 ^ 256 / (u256 target + 1)

theorem u256_one : u256 ((ByteArr.fill 32 0).set 31 1) = 1 := by decide

/-- The increment of a number that is not the largest one. -/
theorem u256_addOne_of_lt {v : Hash32} (h : u256 v + 1 < 2 ^ 256) : u256 (u256AddOne v).1 = u256 v + 1 := by
  have hsum := u256_addOne v
  cases hc : (u256AddOne v).2 with
  | false =>
    rw [hc] at hsum
    simpa using hsum
  | true =>
    rw [hc, Bool.toNat_true] at hsum
    omega

theorem u256_blockWork {target : Hash32} (h : 1 ≤ u256 target) : u256 (blockWork target) = targetWork target := by
  have hone := u256_addOne target
  have hnot := u256_not target
  have hlt := u256_lt target
  rw [blockWork, targetWork]
  -- results are named before they are matched on, so that nothing is evaluated
  generalize u256AddOne target = inc at hone ⊢
  generalize (target.scanRev (fun _ b => (~~~ b, ())) ()).1 = num at hnot ⊢
  obtain ⟨denom, denom_overflow⟩ := inc
  have hden := u256_lt denom
  cases denom_overflow with
  | true =>
    -- the target is 2^256 - 1
    rw [Bool.toNat_true] at hone
    have htop : u256 target + 1 = 2 ^ 256 := by omega
    rw [htop, Nat.div_self (Nat.two_pow_pos _)]
    exact u256_one
  | false =>
    rw [Bool.toNat_false, Nat.mul_zero, Nat.add_zero] at hone
    change u256 denom = u256 target + 1 at hone
    have hpos : 0 < u256 denom := by omega
    have hquot := (@u256_divmod num denom hpos).1
    simp only [Bool.false_eq_true, if_false]
    generalize u256Divmod num denom = qr at hquot ⊢
    rw [hone] at hquot
    have hident : 2 ^ 256 / (u256 target + 1) = u256 num / (u256 target + 1) + 1 := by
      rw [← hnot, Nat.add_assoc, Nat.add_div_right _ (Nat.succ_pos _)]
    have hfits : 2 ^ 256 / (u256 target + 1) < 2 ^ 256 := Nat.div_lt_self (Nat.two_pow_pos _) (by omega)
    rw [hident, ← hquot] at hfits ⊢
    exact u256_addOne_of_lt hfits

/-- The running sum of a header chain. -/
theorem u256_foldl_addBe {works : List Hash32} {acc : Hash32} (h : u256 acc + (works.map u256).sum < 2 ^ 256) :
    u256 (works.foldl u256AddBe acc) = u256 acc + (works.map u256).sum := by
  induction works generalizing acc with
  | nil => rfl
  | cons w works ih =>
    rw [List.map_cons, List.sum_cons, ← Nat.add_assoc] at h ⊢
    have hadd : u256 (u256AddBe acc w) = u256 acc + u256 w := u256_addBe (by omega)
    rw [List.foldl_cons, ih (by rw [hadd]; exact h), hadd]

/-- Work is exact, and so is a sum of works that fits. -/
theorem work_exact :
    (∀ target : Hash32, 1 ≤ u256 target → u256 (blockWork target) = 2 ^ 256 / (u256 target + 1)) ∧
      ∀ targets : List Hash32, (∀ target ∈ targets, 1 ≤ u256 target) → (targets.map targetWork).sum < 2 ^ 256 →
        u256 ((targets.map blockWork).foldl u256AddBe (ByteArr.fill 32 0)) = (targets.map targetWork).sum := by
  refine ⟨fun target h => u256_blockWork h, fun targets hpos hfits => ?_⟩
  have hworks : (targets.map blockWork).map u256 = targets.map targetWork := by
    rw [List.map_map]
    exact List.map_congr_left fun target ht => u256_blockWork (hpos target ht)
  have hsum := @u256_foldl_addBe (targets.map blockWork) (ByteArr.fill 32 0)
  rw [hworks, u256_zero, Nat.zero_add] at hsum
  exact hsum hfits

/-- The largest target has work 1, and two blocks of it have work 2. -/
theorem work_exact_largest :
    u256 (blockWork (ByteArr.fill 32 0xff)) = 1 ∧
      u256 (([ByteArr.fill 32 0xff, ByteArr.fill 32 0xff].map blockWork).foldl u256AddBe (ByteArr.fill 32 0)) = 2 := by
  have hone : 1 ≤ u256 (ByteArr.fill 32 0xff) := by decide
  have hwork : targetWork (ByteArr.fill 32 0xff) = 1 := by decide +kernel
  refine ⟨(work_exact.1 _ hone).trans hwork, (work_exact.2 _ ?_ ?_).trans ?_⟩
  · simpa using hone
  · simp [hwork]
  · simp [hwork]

/-! ## Compact targets -/

/-- `nSize`. -/
def compactSize (bits : UInt32) : Nat := (bits >>> 24).toNat

/-- `nWord`, as read. -/
def compactWord (bits : UInt32) : Nat := (bits &&& 0x007fffff).toNat

/-- `nWord` once the small sizes have shifted it. -/
def compactShifted (bits : UInt32) : Nat :=
  if compactSize bits ≤ 3 then compactWord bits >>> (8 * (3 - compactSize bits)) else compactWord bits

/-- The number `SetCompact` leaves, before it is cut to 256 bits. -/
def compactValue (bits : UInt32) : Nat :=
  if compactSize bits ≤ 3 then compactWord bits >>> (8 * (3 - compactSize bits))
  else compactWord bits <<< (8 * (compactSize bits - 3))

/-- `fOverflow`, for a word that is not zero. -/
def CompactOverflows (bits : UInt32) : Prop :=
  compactSize bits > 34 ∨ (compactWord bits > 0xff ∧ compactSize bits > 33) ∨
    (compactWord bits > 0xffff ∧ compactSize bits > 32)

/-- `SetCompact` and the range rules of `CheckProofOfWork`. -/
structure AcceptsCompact (bits : UInt32) : Prop where
  nonzero : compactValue bits ≠ 0
  positive : ¬ (compactShifted bits ≠ 0 ∧ bits &&& 0x00800000 ≠ 0)
  fits : ¬ CompactOverflows bits

theorem compactWord_lt (bits : UInt32) : compactWord bits < 2 ^ 23 := by
  rw [compactWord, UInt32.toNat_and]
  exact Nat.lt_of_le_of_lt Nat.and_le_right (by decide)

theorem u256_set_zero {v : Hash32} {k : Nat} (hk : k < 32) (h0 : v.val.getD k 0 = 0) (x : UInt8) :
    u256 (v.set k x) = u256 v + x.toNat * 256 ^ (31 - k) := by
  have h := beNat_set_zero (l := v.val) (by rw [v.property]; exact hk) h0 x
  rw [v.property] at h
  exact h

theorem getD_set_ne {v : Hash32} {j k : Nat} (h : j ≠ k) (x : UInt8) : (v.set k x).val.getD j 0 = v.val.getD j 0 := by
  rw [List.getD_eq_getElem?_getD, List.getD_eq_getElem?_getD, ByteArr.set, List.getElem?_set_ne (Ne.symm h)]

theorem getD_fill (k : Nat) : (ByteArr.fill 32 0).val.getD k 0 = 0 := by
  rw [List.getD_eq_getElem?_getD, ByteArr.fill, List.getElem?_replicate]
  split <;> rfl

/-- Three bytes written downwards from `k`, where the ones that fall off the array are zero. -/
theorem u256_write {k : Nat} (hk : k < 32) {w : UInt32} (hw : w.toNat < 2 ^ 24) (h1 : k < 1 → w.toNat ≤ 0xff)
    (h2 : k < 2 → w.toNat ≤ 0xffff) :
    u256 (let t0 := (ByteArr.fill 32 0).set k w.toUInt8
      let t1 := if k ≥ 1 then t0.set (k - 1) (w >>> 8).toUInt8 else t0
      if k ≥ 2 then t1.set (k - 2) (w >>> 16).toUInt8 else t1) = w.toNat * 256 ^ (31 - k) := by
  have hb0 : w.toUInt8.toNat = w.toNat % 256 := UInt32.toNat_toUInt8 w
  have hb1 : (w >>> 8).toUInt8.toNat = w.toNat / 256 % 256 := by
    rw [UInt32.toNat_toUInt8, UInt32.toNat_shiftRight, Nat.shiftRight_eq_div_pow]
    rfl
  have hb2 : (w >>> 16).toUInt8.toNat = w.toNat / 65536 % 256 := by
    rw [UInt32.toNat_toUInt8, UInt32.toNat_shiftRight, Nat.shiftRight_eq_div_pow]
    rfl
  have ht0 := u256_set_zero hk (getD_fill k) w.toUInt8
  rw [u256_zero, Nat.zero_add, hb0] at ht0
  rcases Nat.lt_or_ge k 1 with hk1 | hk1
  · have hle := h1 hk1
    simp only [ge_iff_le, Nat.not_le.2 hk1, if_false, Nat.not_le.2 (Nat.lt_succ_of_lt hk1), ht0]
    rw [Nat.mod_eq_of_lt (by omega)]
  have ht1 := u256_set_zero (v := (ByteArr.fill 32 0).set k w.toUInt8) (k := k - 1) (by omega)
    (by rw [getD_set_ne (by omega), getD_fill]) (w >>> 8).toUInt8
  have hexp1 : 31 - (k - 1) = (31 - k) + 1 := by omega
  rw [ht0, hb1, hexp1, pow_succ] at ht1
  rcases Nat.lt_or_ge k 2 with hk2 | hk2
  · have hle := h2 hk2
    simp only [ge_iff_le, hk1, if_true, Nat.not_le.2 hk2, if_false, ht1]
    have hsplit : w.toNat = w.toNat % 256 + 256 * (w.toNat / 256 % 256) := by omega
    conv_rhs => rw [hsplit]
    ring
  have ht2 := u256_set_zero (v := ((ByteArr.fill 32 0).set k w.toUInt8).set (k - 1) (w >>> 8).toUInt8) (k := k - 2)
    (by omega) (by rw [getD_set_ne (by omega), getD_set_ne (by omega), getD_fill]) (w >>> 16).toUInt8
  have hexp2 : 31 - (k - 2) = (31 - k) + 2 := by omega
  rw [ht1, hb2, hexp2, pow_add] at ht2
  simp only [ge_iff_le, hk1, hk2, if_true, ht2]
  have hsplit : w.toNat = w.toNat % 256 + 256 * (w.toNat / 256 % 256) + 65536 * (w.toNat / 65536 % 256) := by omega
  conv_rhs => rw [hsplit]
  ring

theorem u256_writeSmall {w : UInt32} (hw : w.toNat < 2 ^ 24) :
    u256 ((((ByteArr.fill 32 0).set 29 (w >>> 16).toUInt8).set 30 (w >>> 8).toUInt8).set 31 w.toUInt8) = w.toNat := by
  have hcomm : ∀ (v : Hash32) (i j : Nat) (x y : UInt8), i ≠ j → (v.set i x).set j y = (v.set j y).set i x :=
    fun v i j x y hij => Subtype.ext (List.set_comm x y hij)
  have h := u256_write (k := 31) (by decide) hw (fun h => absurd h (by decide)) (fun h => absurd h (by decide))
  rw [hcomm _ 29 30 _ _ (by decide), hcomm _ 29 31 _ _ (by decide), hcomm _ 30 31 _ _ (by decide)]
  exact h.trans (Nat.mul_one _)

/-- Past the guards a target is the value of its encoding. -/
theorem expandTarget_iff {bits : UInt32} {t : Hash32} :
    expandTarget bits = some t ↔ compactWord bits ≠ 0 ∧ bits &&& 0x00800000 = 0 ∧
      ¬ CompactOverflows bits ∧ u256 t = compactValue bits := by
  have hlt := compactWord_lt bits
  have hzero : bits &&& 0x007fffff = 0 ↔ compactWord bits = 0 := UInt32.toNat_inj.symm
  have hff : bits &&& 0x007fffff > 0xff ↔ compactWord bits > 0xff := UInt32.lt_iff_toNat_lt
  have hffff : bits &&& 0x007fffff > 0xffff ↔ compactWord bits > 0xffff := UInt32.lt_iff_toNat_lt
  simp only [expandTarget]
  rw [show (bits >>> 24).toNat = compactSize bits from rfl]
  by_cases hword : compactWord bits = 0
  · simp [hzero.2 hword, hword]
  rw [if_neg (mt hzero.1 hword)]
  by_cases hsign : bits &&& 0x00800000 = 0
  swap
  · simp [hsign]
  rw [if_neg (not_not.2 hsign)]
  have hguard : (compactSize bits > 34 ∨ (bits &&& 0x007fffff > 0xff ∧ compactSize bits > 33) ∨
      (bits &&& 0x007fffff > 0xffff ∧ compactSize bits > 32)) ↔ CompactOverflows bits := by
    rw [hff, hffff, CompactOverflows]
  by_cases hover : CompactOverflows bits
  · rw [if_pos (hguard.2 hover)]
    simp [hover]
  rw [if_neg (mt hguard.1 hover)]
  have hsizes := hover
  rw [CompactOverflows] at hsizes
  -- one array is written in each branch, and its number is the value
  have hval : ∀ v : Hash32, u256 v = compactValue bits → (some v = some t ↔
      compactWord bits ≠ 0 ∧ bits &&& 0x00800000 = 0 ∧
      ¬ CompactOverflows bits ∧ u256 t = compactValue bits) := by
    intro v hv
    constructor
    · intro h
      exact ⟨hword, hsign, hover, Option.some.inj h ▸ hv⟩
    · rintro ⟨-, -, -, ht⟩
      rw [u256_inj (hv.trans ht.symm)]
  by_cases hsmall : compactSize bits ≤ 3
  · rw [if_pos hsmall]
    have hshift : ((bits &&& 0x007fffff) >>> UInt32.ofNat (8 * (3 - compactSize bits))).toNat =
        compactWord bits >>> (8 * (3 - compactSize bits)) := by
      rw [UInt32.toNat_shiftRight, UInt32.toNat_ofNat_of_lt' (by show _ < 2 ^ 32; omega), Nat.mod_eq_of_lt (by omega)]
      rfl
    have hle : compactWord bits >>> (8 * (3 - compactSize bits)) ≤ compactWord bits := by
      rw [Nat.shiftRight_eq_div_pow]
      exact Nat.div_le_self _ _
    exact hval _ ((u256_writeSmall (by rw [hshift]; omega)).trans (by rw [hshift, compactValue, if_pos hsmall]))
  · rw [if_neg hsmall]
    refine hval _ ((u256_write (k := 34 - compactSize bits) (w := bits &&& 0x007fffff) (by omega) ?_ ?_ ?_).trans ?_)
    · show compactWord bits < 2 ^ 24
      omega
    · show _ → compactWord bits ≤ 0xff
      omega
    · show _ → compactWord bits ≤ 0xffff
      omega
    · have hexp : 31 - (34 - compactSize bits) = compactSize bits - 3 := by omega
      rw [hexp, compactValue, if_neg hsmall, Nat.shiftLeft_eq, pow_mul]
      rfl

/-- Core's rules decide, except where a small size shifts a non-zero mantissa
out: the zero test stands before the shift. -/
theorem expand_target_core (bits : UInt32) :
    (∀ t : Hash32, expandTarget bits = some t ↔ AcceptsCompact bits ∧ u256 t = compactValue bits) ↔
      ¬ (bits &&& 0x00800000 = 0 ∧ compactWord bits ≠ 0 ∧ compactSize bits ≤ 3 ∧
        compactWord bits >>> (8 * (3 - compactSize bits)) = 0) := by
  constructor
  · rintro h ⟨hsign, hword, hsmall, hshift⟩
    have hzero : compactValue bits = 0 := by rw [compactValue, if_pos hsmall, hshift]
    have hsome : expandTarget bits = some (ByteArr.fill 32 0) :=
      expandTarget_iff.2 ⟨hword, hsign, by rw [CompactOverflows]; omega, u256_zero.trans hzero.symm⟩
    exact ((h _).1 hsome).1.nonzero hzero
  · intro hcond t
    rw [expandTarget_iff]
    constructor
    · rintro ⟨hword, hsign, hfits, ht⟩
      refine ⟨⟨?_, fun h => h.2 hsign, hfits⟩, ht⟩
      rw [compactValue]
      split
      · rename_i hsmall
        exact fun hshift => hcond ⟨hsign, hword, hsmall, hshift⟩
      · rw [Nat.shiftLeft_eq]
        exact Nat.mul_ne_zero hword (Nat.two_pow_pos _).ne'
    · rintro ⟨⟨hnonzero, hpositive, hfits⟩, ht⟩
      have hword : compactWord bits ≠ 0 := by
        intro h
        exact hnonzero (by simp [compactValue, h])
      have hshifted : compactShifted bits ≠ 0 := by
        intro h
        apply hnonzero
        rw [compactShifted] at h
        rw [compactValue]
        split
        · rename_i hsmall
          rwa [if_pos hsmall] at h
        · rename_i hsmall
          rw [if_neg hsmall] at h
          exact absurd h hword
      refine ⟨hword, ?_, hfits, ht⟩
      by_contra hsign
      exact hpositive ⟨hshifted, hsign⟩

/-- `0x01000001` is a target of zero to Core and a valid one here. -/
theorem expand_target_zero :
    ¬ ∀ t : Hash32, expandTarget 0x01000001 = some t ↔ AcceptsCompact 0x01000001 ∧ u256 t = compactValue 0x01000001 := by
  intro h
  have hsome : expandTarget 0x01000001 = some (ByteArr.fill 32 0) := by decide
  exact ((h _).1 hsome).1.nonzero (by decide)

end PsobIndexer
