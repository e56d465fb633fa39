/-
Module: LightClient.Proofs.Bytes
Purpose: Big-endian bytes hold the number they were made from, as far as there is room for it, and
  are ordered as the numbers; the length of texts in UTF-8.
Main exports: Bytes.ofBigEndian_bigEndian, Bytes.bigEndian_ofBigEndian, Bytes.bigEndian_inj,
  Bytes.bigEndian_lt_iff, Bytes.length_ofText, Bytes.utf8ByteSize_toString_le
-/
import LightClient.Bytes
import Mathlib.Tactic.Ring

namespace LightClient

namespace Bytes

theorem foldl_digits (bs : Bytes) (acc : Nat) :
    bs.foldl (fun n b => 256 * n + b.toNat) acc = acc * 256 ^ bs.length + ofBigEndian bs := by
  induction bs generalizing acc with
  | nil => simp [ofBigEndian]
  | cons b bs ih =>
    rw [ofBigEndian, List.foldl_cons, List.foldl_cons, ih, ih, List.length_cons]
    ring

/-- The first byte weighs most. -/
theorem ofBigEndian_cons (b : UInt8) (bs : Bytes) :
    ofBigEndian (b :: bs) = b.toNat * 256 ^ bs.length + ofBigEndian bs := by
  rw [ofBigEndian, List.foldl_cons, Nat.mul_zero, Nat.zero_add, foldl_digits]

/-- Reading big-endian bytes gives the number back, without the part there was no room for. -/
theorem ofBigEndian_bigEndian (width n : Nat) :
    ofBigEndian (bigEndian width n) = n % 256 ^ width := by
  induction width with
  | zero => rw [Nat.pow_zero, Nat.mod_one]; rfl
  | succ width ih =>
    have hbyte : (UInt8.ofNat (n / Nat.pow 256 width)).toNat = n / 256 ^ width % 256 := rfl
    rw [bigEndian, ofBigEndian_cons, ih, hbyte, length_bigEndian, Nat.mod_pow_succ]
    ring

/-- Numbers there is room for have different bytes. -/
theorem bigEndian_inj {width n m : Nat} (hn : n < 256 ^ width) (hm : m < 256 ^ width) :
    bigEndian width n = bigEndian width m ↔ n = m := by
  constructor
  · intro h
    have hread := congrArg ofBigEndian h
    rwa [ofBigEndian_bigEndian, ofBigEndian_bigEndian, Nat.mod_eq_of_lt hn,
      Nat.mod_eq_of_lt hm] at hread
  · exact fun h => h ▸ rfl

/-- A number that bytes hold has room in as many bytes. -/
theorem ofBigEndian_lt (bs : Bytes) : ofBigEndian bs < 256 ^ bs.length := by
  induction bs with
  | nil => exact Nat.one_pos
  | cons b bs ih =>
    have hbyte : (b.toNat + 1) * 256 ^ bs.length ≤ 256 * 256 ^ bs.length :=
      Nat.mul_le_mul_right _ b.toNat_lt
    rw [Nat.add_mul] at hbyte
    rw [ofBigEndian_cons, List.length_cons, Nat.pow_succ]
    omega

/-- What there is no room for has no part in the bytes. -/
theorem bigEndian_add_mul (width n k : Nat) :
    bigEndian width (n + k * 256 ^ width) = bigEndian width n := by
  induction width generalizing k with
  | zero => rfl
  | succ width ih =>
    have hsplit : n + k * 256 ^ (width + 1) = n + k * 256 * 256 ^ width := by ring
    have hbyte : UInt8.ofNat ((n + k * 256 * 256 ^ width) / Nat.pow 256 width) =
        UInt8.ofNat (n / Nat.pow 256 width) := by
      apply UInt8.toNat_inj.mp
      show (n + k * 256 * 256 ^ width) / 256 ^ width % 256 = n / 256 ^ width % 256
      rw [Nat.add_mul_div_right _ _ (Nat.pow_pos (by omega)), Nat.add_mul_mod_self_right]
    rw [bigEndian, bigEndian, hsplit, ih, hbyte]

/-- Bytes are those of the number they hold. -/
theorem bigEndian_ofBigEndian (bs : Bytes) : bigEndian bs.length (ofBigEndian bs) = bs := by
  induction bs with
  | nil => rfl
  | cons b bs ih =>
    have hhigh : (ofBigEndian bs + b.toNat * 256 ^ bs.length) / Nat.pow 256 bs.length = b.toNat := by
      show (ofBigEndian bs + b.toNat * 256 ^ bs.length) / 256 ^ bs.length = b.toNat
      rw [Nat.add_mul_div_right _ _ (Nat.pow_pos (by omega)), Nat.div_eq_of_lt (ofBigEndian_lt bs),
        Nat.zero_add]
    rw [List.length_cons, bigEndian, ofBigEndian_cons, Nat.add_comm, hhigh, UInt8.ofNat_toNat,
      bigEndian_add_mul, ih]

/-- Numbers are compared by their quotients first, and by their remainders where these agree. -/
theorem lt_iff_div_mod_lt {n m p : Nat} :
    n < m ↔ n / p < m / p ∨ n / p = m / p ∧ n % p < m % p := by
  have hn := Nat.div_add_mod n p
  have hm := Nat.div_add_mod m p
  constructor
  · intro h
    rcases Nat.lt_or_eq_of_le (Nat.div_le_div_right h.le : n / p ≤ m / p) with hlt | heq
    · exact .inl hlt
    · rw [heq] at hn
      exact .inr ⟨heq, by omega⟩
  · rintro (hlt | ⟨heq, hlt⟩)
    · exact Nat.lt_of_div_lt_div hlt
    · rw [heq] at hn
      omega

/-- Numbers there is room for have the order of their bytes. -/
theorem bigEndian_lt_iff {width n m : Nat} (hn : n < 256 ^ width) (hm : m < 256 ^ width) :
    bigEndian width n < bigEndian width m ↔ n < m := by
  induction width generalizing n m with
  | zero =>
    obtain rfl := Nat.lt_one_iff.mp hn
    obtain rfl := Nat.lt_one_iff.mp hm
    exact iff_of_false (List.not_lt_nil []) (Nat.lt_irrefl 0)
  | succ width ih =>
    have hpos : 0 < 256 ^ width := Nat.pow_pos (by omega)
    have hbyte : ∀ k < 256 ^ (width + 1),
        (UInt8.ofNat (k / Nat.pow 256 width)).toNat = k / 256 ^ width := fun k hk =>
      Nat.mod_eq_of_lt (Nat.div_lt_of_lt_mul (hk.trans_eq (Nat.pow_succ 256 width)))
    have hrest : ∀ k, bigEndian width k = bigEndian width (k % 256 ^ width) := fun k => by
      conv_lhs => rw [← Nat.mod_add_div' k (256 ^ width), bigEndian_add_mul]
    rw [bigEndian, bigEndian, List.cons_lt_cons_iff, UInt8.lt_iff_toNat_lt, ← UInt8.toNat_inj,
      hbyte n hn, hbyte m hm, hrest n, hrest m, ih (Nat.mod_lt n hpos) (Nat.mod_lt m hpos)]
    exact lt_iff_div_mod_lt.symm

/-! ### Texts -/

theorem length_toList_loop (bs : ByteArray) (i : Nat) (r : List UInt8) :
    (ByteArray.toList.loop bs i r).length = bs.size - i + r.length := by
  induction i, r using ByteArray.toList.loop.induct bs with
  | case1 i r hi ih =>
    rw [ByteArray.toList.loop.eq_def, if_pos hi, ih, List.length_cons]
    omega
  | case2 i r hi =>
    rw [ByteArray.toList.loop.eq_def, if_neg hi, List.length_reverse]
    omega

/-- A text has the length of its encoding. -/
theorem length_ofText (s : String) : (ofText s).length = s.utf8ByteSize := by
  rw [ofText, ByteArray.toList, length_toList_loop, String.toUTF8_eq_toByteArray,
    String.size_toByteArray]
  rfl

theorem utf8Size_of_isDigit {c : Char} (h : c.isDigit = true) : c.utf8Size = 1 := by
  simp only [Char.isDigit, Bool.and_eq_true, decide_eq_true_eq] at h
  have hle : c.val ≤ 127 := UInt32.le_trans h.2 (by decide)
  unfold Char.utf8Size
  exact if_pos hle

/-- Each digit of a text takes one byte. -/
theorem utf8ByteSize_ofList {digits : List Char} (h : ∀ c ∈ digits, c.isDigit = true) :
    (String.ofList digits).utf8ByteSize = digits.length := by
  induction digits with
  | nil => rfl
  | cons c digits ih =>
    rw [String.ofList_cons, String.utf8ByteSize_append, String.utf8ByteSize_singleton,
      utf8Size_of_isDigit (h c List.mem_cons_self), ih fun x hx => h x (List.mem_cons_of_mem _ hx),
      List.length_cons, Nat.add_comm]

/-- A number takes no more bytes than it has decimal digits. -/
theorem utf8ByteSize_toString_le {n digits : Nat} (hdigits : 0 < digits) (hn : n < 10 ^ digits) :
    (toString n).utf8ByteSize ≤ digits := by
  rw [Nat.toString_eq_ofList_toDigits, utf8ByteSize_ofList fun c hc =>
    Nat.isDigit_of_mem_toDigits (by omega) (by omega) hc]
  exact (Nat.length_toDigits_le_iff (by omega) hdigits).mpr hn

end Bytes

end LightClient
