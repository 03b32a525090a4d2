import Mathlib.Algebra.Field.ZMod
import Mathlib.Algebra.Polynomial.OfFn
import Mathlib.GroupTheory.OrderOfElement
import Mathlib.RingTheory.AdjoinRoot
import Mathlib.Tactic.Ring

/-!
# Cyclic redundancy checks

A word stands for the polynomial over GF(2) that has its bits as coefficients. A register
that is shifted left, and to which `g` is added when a one comes out, multiplies by `X`
modulo `X ^ w + g`. A message is fed to it symbol by symbol, the highest bit first; the
register then holds the remainder of the message moved up by its width.
-/
namespace Crc

open Polynomial

variable {w k : Nat}

def coef (b : Bool) : ZMod 2 := if b then 1 else 0

theorem coef_xor (a b : Bool) : coef (a ^^ b) = coef a + coef b := by
  cases a <;> cases b <;> decide

theorem coef_injective {a b : Bool} (h : coef a = coef b) : a = b := by
  revert h
  cases a <;> cases b <;> decide

noncomputable def poly (v : BitVec w) : (ZMod 2)[X] := ofFn w fun i => coef (v.getLsbD i)

theorem poly_coeff (v : BitVec w) (i : Nat) : (poly v).coeff i = coef (v.getLsbD i) := by
  by_cases hi : i < w
  · exact ofFn_coeff_eq_val_of_lt _ hi
  · have hout : v.getLsbD i = false := BitVec.getLsbD_of_ge v i (by omega)
    rw [hout]
    exact ofFn_coeff_eq_zero_of_ge _ (by omega)

theorem poly_degree_lt (v : BitVec w) : (poly v).degree < w := ofFn_degree_lt _

theorem poly_injective {a b : BitVec w} (h : poly a = poly b) : a = b := by
  apply BitVec.eq_of_getLsbD_eq
  intro i _
  apply coef_injective
  rw [← poly_coeff, ← poly_coeff, h]

@[simp] theorem poly_zero : poly (0 : BitVec w) = 0 := by
  ext i
  rw [poly_coeff, coeff_zero]
  exact congrArg coef BitVec.getLsbD_zero

theorem poly_xor (a b : BitVec w) : poly (a ^^^ b) = poly a + poly b := by
  ext i
  rw [coeff_add, poly_coeff, poly_coeff, poly_coeff, BitVec.getLsbD_xor, coef_xor]

/-- A narrow word moved up in a wider one. -/
theorem poly_shift (m : BitVec k) (hk : k ≤ w) :
    poly (m.setWidth w <<< (w - k)) = X ^ (w - k) * poly m := by
  ext i
  rw [coeff_X_pow_mul', poly_coeff, poly_coeff, BitVec.getLsbD_shiftLeft, BitVec.getLsbD_setWidth]
  by_cases hlow : w - k ≤ i
  · by_cases hi : i < w
    · have hlt : i - (w - k) < w := by omega
      have hhigh : ¬ i < w - k := by omega
      simp [hlow, hi, hlt, hhigh]
    · have hout : m.getLsbD (i - (w - k)) = false := BitVec.getLsbD_of_ge m _ (by omega)
      simp [hlow, hi, hout]
  · simp [hlow, show i < w - k by omega, coef]

/-- What the register divides by. -/
noncomputable def gen (g : BitVec w) : (ZMod 2)[X] := X ^ w + poly g

theorem gen_monic (g : BitVec w) : (gen g).Monic := monic_X_pow_add (poly_degree_lt g)

theorem gen_degree (g : BitVec w) : (gen g).degree = w := by
  rw [gen, degree_add_eq_left_of_degree_lt, degree_X_pow]
  rw [degree_X_pow]
  exact poly_degree_lt g

def step (g c : BitVec w) : BitVec w := if c.msb then c <<< 1 ^^^ g else c <<< 1

/-- The word in the register, modulo what it divides by. -/
noncomputable def residue (g c : BitVec w) : AdjoinRoot (gen g) := AdjoinRoot.mk (gen g) (poly c)

theorem residue_injective {g a b : BitVec w} (h : residue g a = residue g b) : a = b := by
  have hdvd : gen g ∣ poly a - poly b := AdjoinRoot.mk_eq_mk.mp h
  have hdeg : (poly a - poly b).degree < (gen g).degree := by
    rw [gen_degree]
    exact (degree_sub_le _ _).trans_lt (max_lt (poly_degree_lt a) (poly_degree_lt b))
  exact poly_injective (sub_eq_zero.mp (eq_zero_of_dvd_of_degree_lt hdvd hdeg))

theorem residue_xor (g a b : BitVec w) : residue g (a ^^^ b) = residue g a + residue g b := by
  rw [residue, poly_xor, map_add]
  rfl

@[simp] theorem residue_zero (g : BitVec w) : residue g 0 = 0 := by rw [residue, poly_zero, map_zero]

/-- The highest bit is the one that leaves the word. -/
theorem poly_shiftLeft_one (c : BitVec w) :
    poly (c <<< 1) + (if c.msb then X ^ w else 0) = X * poly c := by
  ext i
  cases i with
  | zero =>
    have hout : (if c.msb = true then (X : (ZMod 2)[X]) ^ w else 0).coeff 0 = 0 := by
      split_ifs with hmsb
      · have hw : 0 < w := by
          by_contra hw
          obtain rfl : w = 0 := by omega
          simp [BitVec.msb, BitVec.getMsbD] at hmsb
        rw [coeff_X_pow, if_neg (by omega)]
      · rfl
    rw [coeff_add, hout, coeff_X_mul_zero, poly_coeff]
    simp [coef]
  | succ i =>
    rw [coeff_add, coeff_X_mul, poly_coeff, poly_coeff, BitVec.getLsbD_shiftLeft]
    by_cases hi : i + 1 = w
    · subst hi
      have hmsb : c.msb = c.getLsbD i := by
        rw [BitVec.msb_eq_getLsbD_last]
        rfl
      rw [hmsb]
      cases c.getLsbD i <;> simp [coef, coeff_X_pow]
    · have hout : (if c.msb = true then (X : (ZMod 2)[X]) ^ w else 0).coeff (i + 1) = 0 := by
        split_ifs
        · rw [coeff_X_pow, if_neg hi]
        · rfl
      rw [hout, add_zero]
      by_cases hlt : i + 1 < w
      · simp [hlt]
      · have hzero : c.getLsbD i = false := BitVec.getLsbD_of_ge c i (by omega)
        simp [hlt, hzero]

theorem residue_step (g c : BitVec w) :
    residue g (step g c) = AdjoinRoot.root (gen g) * residue g c := by
  have hzero : AdjoinRoot.mk (gen g) (gen g) = 0 := AdjoinRoot.mk_self
  rw [residue, residue, ← AdjoinRoot.mk_X, ← map_mul, ← poly_shiftLeft_one, step]
  split_ifs
  · have htwo : (X : (ZMod 2)[X]) ^ w + X ^ w = 0 := CharTwo.add_self_eq_zero _
    have hsum : poly (c <<< 1) + X ^ w + gen g = poly (c <<< 1) + poly g := by
      rw [gen, add_assoc, ← add_assoc (X ^ w), htwo, zero_add]
    rw [poly_xor, ← hsum, map_add, hzero, add_zero]
  · rw [add_zero]

theorem residue_repeat (g c : BitVec w) (n : Nat) :
    residue g (Nat.repeat (step g) n c) = AdjoinRoot.root (gen g) ^ n * residue g c := by
  induction n with
  | zero => rw [pow_zero, one_mul, Nat.repeat]
  | succ n ih => rw [Nat.repeat, residue_step, ih, pow_succ', mul_assoc]

/-- A symbol is added at the upper end of the register and then shifted out of it. -/
def feed (g c : BitVec w) (m : BitVec k) : BitVec w :=
  Nat.repeat (step g) k (c ^^^ m.setWidth w <<< (w - k))

def crc (g : BitVec w) (ms : List (BitVec k)) : BitVec w := ms.foldl (feed g) 0

/-- The highest bit of the first symbol is the leading coefficient. -/
noncomputable def message (ms : List (BitVec k)) : (ZMod 2)[X] :=
  ms.foldl (fun p m => p * X ^ k + poly m) 0

theorem message_snoc (ms : List (BitVec k)) (m : BitVec k) :
    message (ms ++ [m]) = message ms * X ^ k + poly m := by
  rw [message, List.foldl_append]
  rfl

theorem crc_snoc (g : BitVec w) (ms : List (BitVec k)) (m : BitVec k) :
    crc g (ms ++ [m]) = feed g (crc g ms) m := by
  rw [crc, List.foldl_append]
  rfl

theorem residue_feed (hk : k ≤ w) (g c : BitVec w) (m : BitVec k) :
    residue g (feed g c m) = AdjoinRoot.root (gen g) ^ k * residue g c +
      AdjoinRoot.root (gen g) ^ w * AdjoinRoot.mk (gen g) (poly m) := by
  have hshift : residue g (m.setWidth w <<< (w - k)) =
      AdjoinRoot.root (gen g) ^ (w - k) * AdjoinRoot.mk (gen g) (poly m) := by
    rw [residue, poly_shift m hk, map_mul, map_pow, AdjoinRoot.mk_X]
  rw [feed, residue_repeat, residue_xor, hshift, mul_add, ← mul_assoc, ← pow_add,
    Nat.add_sub_cancel' hk]

theorem residue_crc (hk : k ≤ w) (g : BitVec w) (ms : List (BitVec k)) :
    residue g (crc g ms) = AdjoinRoot.mk (gen g) (message ms * X ^ w) := by
  induction ms using List.reverseRecOn with
  | nil =>
    have hzero : message ([] : List (BitVec k)) = 0 := rfl
    rw [hzero, zero_mul, map_zero]
    exact residue_zero g
  | append_singleton ms m ih =>
    rw [crc_snoc, residue_feed hk, ih, message_snoc]
    simp only [map_add, map_mul, map_pow, AdjoinRoot.mk_X]
    ring

/-- The register holds the remainder of the message moved up by its width. -/
theorem crc_remainder (hk : k ≤ w) (g : BitVec w) (ms : List (BitVec k)) :
    poly (crc g ms) = (message ms * X ^ w) %ₘ gen g := by
  have hdvd : gen g ∣ poly (crc g ms) - message ms * X ^ w :=
    AdjoinRoot.mk_eq_mk.mp (residue_crc hk g ms)
  have hself : poly (crc g ms) %ₘ gen g = poly (crc g ms) := by
    rw [modByMonic_eq_self_iff (gen_monic g), gen_degree]
    exact poly_degree_lt _
  rw [← modByMonic_eq_of_dvd_sub (gen_monic g) hdvd, hself]

/-- Bit `i` of a message, counted from the highest bit of the first symbol. -/
def bit (ms : List (BitVec k)) (i : Nat) : Bool := (ms.getD (i / k) 0).getMsbD (i % k)

theorem bit_snoc_last (ms : List (BitVec k)) (m : BitVec k) {i : Nat} (hi : i < k) :
    bit (ms ++ [m]) (k * ms.length + i) = m.getMsbD i := by
  have hdiv : (k * ms.length + i) / k = ms.length := by
    rw [Nat.mul_add_div (by omega), Nat.div_eq_of_lt hi, Nat.add_zero]
  have hmod : (k * ms.length + i) % k = i := by
    rw [Nat.mul_add_mod, Nat.mod_eq_of_lt hi]
  simp [bit, hdiv, hmod]

theorem bit_snoc_other (ms : List (BitVec k)) (m : BitVec k) {i : Nat} (hi : i < k * ms.length) :
    bit (ms ++ [m]) i = bit ms i := by
  rw [bit, bit, List.getD_append _ _ _ _ (Nat.div_lt_of_lt_mul hi)]

/-- Past the end there are no bits. -/
theorem bit_none (ms : List (BitVec k)) {i : Nat} (hi : k * ms.length ≤ i) : bit ms i = false := by
  rcases Nat.eq_zero_or_pos k with rfl | hpos
  · exact BitVec.getMsbD_of_ge _ _ (Nat.zero_le _)
  · have hdiv : ms.length ≤ i / k := by
      rw [Nat.le_div_iff_mul_le hpos, Nat.mul_comm]
      exact hi
    simp [bit, List.getElem?_eq_none hdiv]

theorem message_coeff (ms : List (BitVec k)) (j : Nat) :
    (message ms).coeff j =
      if j < k * ms.length then coef (bit ms (k * ms.length - 1 - j)) else 0 := by
  induction ms using List.reverseRecOn generalizing j with
  | nil => rfl
  | append_singleton ms m ih =>
    have hlen : k * (ms ++ [m]).length = k * ms.length + k := by
      rw [List.length_append, List.length_singleton, Nat.mul_add, Nat.mul_one]
    rw [message_snoc, coeff_add, coeff_mul_X_pow', poly_coeff, hlen]
    by_cases hlow : j < k
    · have hindex : k * ms.length + k - 1 - j = k * ms.length + (k - 1 - j) := by omega
      have hsame : m.getMsbD (k - 1 - j) = m.getLsbD j := by
        rw [BitVec.getMsbD_eq_getLsbD, decide_eq_true (by omega), Bool.true_and]
        exact congrArg m.getLsbD (by omega)
      rw [if_neg (by omega), zero_add, if_pos (by omega), hindex, bit_snoc_last ms m (by omega), hsame]
    · have hout : m.getLsbD j = false := BitVec.getLsbD_of_ge m j (by omega)
      rw [if_pos (by omega), ih, hout]
      by_cases hj : j < k * ms.length + k
      · have hindex : k * ms.length + k - 1 - j = k * ms.length - 1 - (j - k) := by omega
        rw [if_pos (by omega), if_pos hj, hindex, bit_snoc_other ms m (by omega)]
        exact add_zero _
      · rw [if_neg (by omega), if_neg hj]
        exact add_zero _

theorem coef_sub (a b : Bool) : coef a - coef b = if a ≠ b then 1 else 0 := by
  cases a <;> cases b <;> decide

/-- The terms of the difference are the bits that differ. -/
theorem error_coeff {a b : List (BitVec k)} (hlen : a.length = b.length) {i j : Nat}
    (hi : i < k * a.length) (hj : j = k * a.length - 1 - i) :
    (message a - message b).coeff j = if bit a i ≠ bit b i then 1 else 0 := by
  have hback : k * a.length - 1 - j = i := by omega
  rw [coeff_sub, message_coeff, message_coeff, ← hlen, if_pos (by omega), if_pos (by omega), hback,
    coef_sub]

theorem error_term {a b : List (BitVec k)} (hlen : a.length = b.length) {j : Nat}
    (hj : (message a - message b).coeff j ≠ 0) :
    j < k * a.length ∧ bit a (k * a.length - 1 - j) ≠ bit b (k * a.length - 1 - j) := by
  by_cases hlt : j < k * a.length
  · refine ⟨hlt, fun hsame => hj ?_⟩
    rw [error_coeff hlen (i := k * a.length - 1 - j) (by omega) (by omega), if_neg (not_not_intro hsame)]
  · rw [coeff_sub, message_coeff, message_coeff, ← hlen, if_neg hlt, if_neg hlt, sub_zero] at hj
    exact absurd rfl hj

/-- A bit that differs is not past the end. -/
theorem differ_lt {a b : List (BitVec k)} (hlen : a.length = b.length) {i : Nat}
    (hi : bit a i ≠ bit b i) : i < k * a.length := by
  by_contra hout
  rw [bit_none a (by omega), bit_none b (by rw [← hlen]; omega)] at hi
  exact hi rfl

theorem coprime_X_pow {g : BitVec w} (hg : (gen g).coeff 0 ≠ 0) (n : Nat) :
    IsCoprime (gen g) (X ^ n) := by
  have hprime : IsCoprime X (gen g) :=
    irreducible_X.coprime_iff_not_dvd.mpr fun hdvd => hg (X_dvd_iff.mp hdvd)
  exact hprime.symm.pow_right

/-- A difference is missed only if it is divided by what the register divides by. -/
theorem missed_dvd (hk : k ≤ w) {g : BitVec w} (hg : (gen g).coeff 0 ≠ 0) {a b : List (BitVec k)}
    (h : crc g a = crc g b) : gen g ∣ message a - message b := by
  have hresidue := residue_crc hk g a
  rw [h, residue_crc hk g b] at hresidue
  have hdvd : gen g ∣ message a * X ^ w - message b * X ^ w := AdjoinRoot.mk_eq_mk.mp hresidue.symm
  rw [← sub_mul] at hdvd
  exact (coprime_X_pow hg w).dvd_of_dvd_mul_right hdvd

/-- A difference within as many bits in a row as the register has is not missed. -/
theorem burst_detected (hk : k ≤ w) {g : BitVec w} (hg : (gen g).coeff 0 ≠ 0)
    {a b : List (BitVec k)} (hlen : a.length = b.length) {s : Nat}
    (hsome : ∃ i, bit a i ≠ bit b i) (hburst : ∀ i, bit a i ≠ bit b i → s ≤ i ∧ i < s + w) :
    crc g a ≠ crc g b := by
  intro h
  -- the lowest exponent that the burst can reach
  obtain ⟨low, hlow⟩ : ∃ low, low = k * a.length - s - w := ⟨_, rfl⟩
  have hterm : ∀ j, (message a - message b).coeff j ≠ 0 → low ≤ j ∧ j < low + w := by
    intro j hj
    obtain ⟨hlt, hdiffer⟩ := error_term hlen hj
    have hwithin := hburst _ hdiffer
    omega
  obtain ⟨e, he⟩ : X ^ low ∣ message a - message b := by
    rw [X_pow_dvd_iff]
    intro j hj
    by_contra hne
    have hreach := hterm j hne
    omega
  have hshort : e.degree < (gen g).degree := by
    rw [gen_degree, degree_lt_iff_coeff_zero]
    intro j hj
    by_contra hne
    have hcoeff : (message a - message b).coeff (j + low) ≠ 0 := by
      rw [he, coeff_X_pow_mul]
      exact hne
    have hreach := hterm _ hcoeff
    omega
  have hdvd := missed_dvd hk hg h
  rw [he] at hdvd
  have hzero : e = 0 :=
    eq_zero_of_dvd_of_degree_lt ((coprime_X_pow hg low).dvd_of_dvd_mul_left hdvd) hshort
  obtain ⟨i, hi⟩ := hsome
  have hcoeff := error_coeff hlen (differ_lt hlen hi) rfl
  rw [he, hzero, mul_zero, coeff_zero, if_pos hi] at hcoeff
  exact absurd hcoeff (by decide)

/-- The difference in two bits is a power of `X` times another, less one. -/
theorem error_two {a b : List (BitVec k)} (hlen : a.length = b.length) {i j : Nat} (hij : i < j)
    (htwo : ∀ n, bit a n ≠ bit b n ↔ n = i ∨ n = j) :
    message a - message b = X ^ (k * a.length - 1 - j) * (X ^ (j - i) - 1) := by
  have hj : j < k * a.length := differ_lt hlen ((htwo j).mpr (.inr rfl))
  have hright : ∀ n, (X ^ (k * a.length - 1 - j) * (X ^ (j - i) - 1) : (ZMod 2)[X]).coeff n =
      (if n = k * a.length - 1 - i then 1 else 0) - if n = k * a.length - 1 - j then 1 else 0 := by
    intro n
    have hsum : k * a.length - 1 - j + (j - i) = k * a.length - 1 - i := by omega
    rw [mul_sub, mul_one, ← pow_add, hsum, coeff_sub, coeff_X_pow, coeff_X_pow]
  ext n
  rw [hright]
  by_cases hfirst : n = k * a.length - 1 - i
  · rw [error_coeff hlen (by omega) hfirst, if_pos ((htwo i).mpr (.inl rfl)), if_pos hfirst,
      if_neg (by omega), sub_zero]
  · by_cases hsecond : n = k * a.length - 1 - j
    · rw [error_coeff hlen hj hsecond, if_pos ((htwo j).mpr (.inr rfl)), if_neg hfirst,
        if_pos hsecond]
      decide
    · rw [if_neg hfirst, if_neg hsecond, sub_zero]
      by_contra hne
      obtain ⟨_, hdiffer⟩ := error_term hlen hne
      rcases (htwo _).mp hdiffer with hn | hn <;> omega

/-- Two bits that differ are not missed in messages shorter than the order of `X`. -/
theorem two_detected (hk : k ≤ w) {g : BitVec w} (hg : (gen g).coeff 0 ≠ 0)
    {a b : List (BitVec k)} (hlen : a.length = b.length) {i j : Nat} (hij : i < j)
    (htwo : ∀ n, bit a n ≠ bit b n ↔ n = i ∨ n = j)
    (horder : k * a.length ≤ orderOf (AdjoinRoot.root (gen g))) : crc g a ≠ crc g b := by
  intro h
  have hj : j < k * a.length := differ_lt hlen ((htwo j).mpr (.inr rfl))
  have hdvd := missed_dvd hk hg h
  rw [error_two hlen hij htwo] at hdvd
  have hone : AdjoinRoot.root (gen g) ^ (j - i) = 1 := by
    have hmk := AdjoinRoot.mk_eq_zero.mpr ((coprime_X_pow hg _).dvd_of_dvd_mul_left hdvd)
    rw [map_sub, map_pow, map_one, AdjoinRoot.mk_X] at hmk
    exact sub_eq_zero.mp hmk
  have hle := Nat.le_of_dvd (by omega) (orderOf_dvd_of_pow_eq_one hone)
  omega

/-- The product of the first `n` bits of a word, from the highest on, and another word. -/
def mulBits (g a b : BitVec w) : Nat → BitVec w
  | 0 => 0
  | n + 1 => step g (mulBits g a b n) ^^^ if b.getMsbD n then a else 0

def mul (g a b : BitVec w) : BitVec w := mulBits g a b w

/-- `X` to the power that has the given binary digits, the lowest one first. -/
def powerX (g : BitVec w) : List Bool → BitVec w
  | [] => 1
  | b :: bs =>
    let c := mul g (powerX g bs) (powerX g bs)
    if b then step g c else c

/-- The next lower bit moves in behind the bits already taken. -/
theorem poly_ushiftRight (b : BitVec w) {n : Nat} (hn : n < w) :
    poly (b >>> (w - (n + 1))) = X * poly (b >>> (w - n)) + C (coef (b.getMsbD n)) := by
  ext i
  cases i with
  | zero =>
    have hbit : b.getLsbD (w - (n + 1)) = b.getMsbD n := by
      rw [BitVec.getMsbD_eq_getLsbD, decide_eq_true hn, Bool.true_and]
      exact congrArg b.getLsbD (by omega)
    rw [coeff_add, coeff_X_mul_zero, coeff_C_zero, zero_add, poly_coeff, BitVec.getLsbD_ushiftRight,
      Nat.add_zero, hbit]
  | succ i =>
    rw [coeff_add, coeff_X_mul, coeff_C_succ, add_zero, poly_coeff, poly_coeff,
      BitVec.getLsbD_ushiftRight, BitVec.getLsbD_ushiftRight]
    exact congrArg (fun n => coef (b.getLsbD n)) (by omega)

theorem residue_mulBits (g a b : BitVec w) {n : Nat} (hn : n ≤ w) :
    residue g (mulBits g a b n) = residue g a * residue g (b >>> (w - n)) := by
  induction n with
  | zero =>
    have hout : b >>> (w - 0) = 0 := BitVec.ushiftRight_eq_zero (Nat.le_refl w)
    rw [mulBits, hout, residue_zero, mul_zero]
  | succ n ih =>
    have hnext : residue g (b >>> (w - (n + 1))) =
        AdjoinRoot.root (gen g) * residue g (b >>> (w - n)) +
          AdjoinRoot.mk (gen g) (C (coef (b.getMsbD n))) := by
      rw [residue, poly_ushiftRight b hn, map_add, map_mul, AdjoinRoot.mk_X]
      rfl
    rw [mulBits, residue_xor, residue_step, ih (by omega), hnext, mul_add]
    cases b.getMsbD n with
    | false => simp only [coef, Bool.false_eq_true, if_false, residue_zero, map_zero]; ring
    | true => simp only [coef, if_true, map_one]; ring

theorem residue_mul (g a b : BitVec w) : residue g (mul g a b) = residue g a * residue g b := by
  have hall : b >>> (w - w) = b := by rw [Nat.sub_self, BitVec.ushiftRight_zero]
  rw [mul, residue_mulBits g a b (Nat.le_refl w), hall]

theorem residue_one (g : BitVec w) : residue g 1 = 1 := by
  have hdvd : gen g ∣ poly (1 : BitVec w) - 1 := by
    rcases Nat.eq_zero_or_pos w with rfl | hw
    · have hgen : gen g = 1 := (gen_monic g).degree_le_zero_iff_eq_one.mp (gen_degree g).le
      rw [hgen]
      exact one_dvd _
    · have hone : poly (1 : BitVec w) = 1 := by
        ext i
        rw [poly_coeff, coeff_one]
        cases i <;> simp [coef, hw]
      rw [hone, sub_self]
      exact dvd_zero _
  exact (AdjoinRoot.mk_eq_mk.mpr hdvd).trans (map_one _)

/-- The exponent is the number that the digits stand for. -/
theorem residue_powerX (g : BitVec w) (bs : List Bool) :
    residue g (powerX g bs) = AdjoinRoot.root (gen g) ^ bs.foldr Nat.bit 0 := by
  induction bs with
  | nil => exact (residue_one g).trans (pow_zero _).symm
  | cons b bs ih =>
    have hsquare := residue_mul g (powerX g bs) (powerX g bs)
    rw [ih, ← pow_add, ← two_mul] at hsquare
    rw [List.foldr_cons, Nat.bit_val]
    cases b with
    | false => exact hsquare
    | true =>
      have hnext := residue_step g (mul g (powerX g bs) (powerX g bs))
      rw [hsquare, ← pow_succ'] at hnext
      exact hnext

end Crc
