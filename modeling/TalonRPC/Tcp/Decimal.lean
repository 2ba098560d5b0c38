import Mathlib.Data.List.TakeWhile
import Mathlib.Data.Nat.Digits.Lemmas
import TalonRPC.Tcp.NetAddr

/-!
# Decimal numbers

A port is written with `std::to_string` and read with `std::atoi`, which gives the port back.

## Main definitions

* `toDecimal`: the decimal text of a number

## Main results

* `isDigit_of_mem_toDigits`: the text of a number that is not negative has digits only
* `atoi_of_isDigit`: what `atoi` makes of digits
* `atoi_toDigits`, `atoi_toDecimal`: reading the text of a number gives the number back
* `take_toDigits`: the front of the text of a number is the text of a quotient
* `length_toDecimal_le_iff`: which numbers have a text of at most nine characters
-/

namespace TalonRPC

/-- The digit of a number below ten. -/
def digitByte (d : ℕ) : UInt8 := .ofNat (0x30 + d)

/-- The digits of a number, the last one first in `Nat.digits`. -/
def toDigits (n : ℕ) : ByteString :=
  if n = 0 then [0x30] else ((Nat.digits 10 n).map digitByte).reverse

/-- `std::to_string` of an int. -/
def toDecimal : ℤ → ByteString
  | .ofNat n => toDigits n
  | .negSucc n => 0x2d :: toDigits (n + 1)

variable {n d : ℕ} {c : UInt8}

theorem toNat_digitByte (h : d < 10) : (digitByte d).toNat = 0x30 + d := by
  rw [digitByte, UInt8.toNat_ofNat']
  omega

theorem isDigit_iff : isDigit c = true ↔ 0x30 ≤ c.toNat ∧ c.toNat ≤ 0x39 := by
  simp [isDigit, UInt8.le_iff_toNat_le]

theorem isDigit_digitByte (h : d < 10) : isDigit (digitByte d) = true := by
  rw [isDigit_iff, toNat_digitByte h]
  omega

/-- **The text of a number has digits only.** -/
theorem isDigit_of_mem_toDigits (h : c ∈ toDigits n) : isDigit c = true := by
  unfold toDigits at h
  split_ifs at h
  · obtain rfl := List.mem_singleton.mp h
    rfl
  · obtain ⟨d, hd, rfl⟩ := List.mem_map.mp (List.mem_reverse.mp h)
    exact isDigit_digitByte (Nat.digits_lt_base (by norm_num) hd)

theorem toDigits_ne_nil (n : ℕ) : toDigits n ≠ [] := by
  unfold toDigits
  split_ifs with h
  · simp
  · simpa [Nat.digits_eq_nil_iff_eq_zero] using h

/-- The value of the digits of a number. -/
theorem foldl_toDigits (n : ℕ) :
    (toDigits n).foldl (fun n c => 10 * n + (c.toNat - 0x30)) 0 = n := by
  unfold toDigits
  split_ifs with h
  · subst h
    rfl
  · have hvalue : ∀ l : List ℕ, (∀ d ∈ l, d < 10) →
        (l.map digitByte).foldr (fun c n => 10 * n + (c.toNat - 0x30)) 0 = Nat.ofDigits 10 l := by
      intro l hl
      induction l with
      | nil => rfl
      | cons d l ih =>
        rw [List.map_cons, List.foldr_cons, ih fun d' hd' => hl d' (by simp [hd']),
          toNat_digitByte (hl d (by simp)), Nat.ofDigits_cons, Nat.add_sub_cancel_left,
          Nat.add_comm]
    rw [List.foldl_reverse, hvalue _ fun d hd => Nat.digits_lt_base (by norm_num) hd,
      Nat.ofDigits_digits]

theorem digits_toDigits (n : ℕ) : digits (toDigits n) = n := by
  rw [digits, List.takeWhile_eq_self_iff.mpr fun _ hc => isDigit_of_mem_toDigits hc]
  exact foldl_toDigits n

/-- `atoi` of digits: their value, which stops at the bound of a long, as an int. -/
theorem atoi_of_isDigit {s : ByteString} (hne : s ≠ []) (hs : ∀ c ∈ s, isDigit c = true) :
    atoi s = Bytes.wrap32 (min (digits s) (2 ^ 63 - 1)) := by
  obtain ⟨c, s, rfl⟩ := List.exists_cons_of_ne_nil hne
  obtain ⟨hge, hle⟩ := isDigit_iff.mp (hs c (List.mem_cons_self ..))
  -- A digit is neither a space nor a sign.
  have hspace : ¬ isSpace c = true := by
    intro hspace
    simp only [isSpace, decide_eq_true_eq, UInt8.le_iff_toNat_le] at hspace
    rcases hspace with rfl | ⟨-, hle'⟩
    · exact absurd hge (by decide)
    · exact absurd (hge.trans hle') (by decide)
  have hminus : c ≠ 0x2d := by
    rintro rfl
    exact absurd hge (by decide)
  have hplus : c ≠ 0x2b := by
    rintro rfl
    exact absurd hge (by decide)
  rw [atoi, List.dropWhile_cons_of_neg hspace]
  split
  · rename_i heq
    exact absurd (List.cons.inj heq).1 hminus
  · rename_i heq
    exact absurd (List.cons.inj heq).1 hplus
  · rfl

/-- **Reading the text of a number** gives the number back, as long as it is an int. -/
theorem atoi_toDigits (h : n < 2 ^ 31) : atoi (toDigits n) = n := by
  rw [atoi_of_isDigit (toDigits_ne_nil n) fun _ hc => isDigit_of_mem_toDigits hc, digits_toDigits,
    min_eq_left (show (n : ℤ) ≤ 2 ^ 63 - 1 by omega)]
  exact Bytes.wrap32_of_range (by omega) (by omega)

/-- So does reading the text of a number with a sign. -/
theorem atoi_toDecimal {z : ℤ} (hge : -2 ^ 31 ≤ z) (hlt : z < 2 ^ 31) :
    atoi (toDecimal z) = z := by
  cases z with
  | ofNat n => exact atoi_toDigits (by simpa using hlt)
  | negSucc n =>
    have hspace : (toDecimal (.negSucc n)).dropWhile isSpace = 0x2d :: toDigits (n + 1) := rfl
    rw [atoi, hspace]
    change Bytes.wrap32 (-((min (digits (toDigits (n + 1))) (2 ^ 63) : ℕ) : ℤ)) = _
    rw [Int.negSucc_eq] at hge ⊢
    rw [digits_toDigits, min_eq_left (by omega)]
    exact Bytes.wrap32_of_range (by omega) (by omega)

theorem drop_digits (k n : ℕ) : (Nat.digits 10 n).drop k = Nat.digits 10 (n / 10 ^ k) := by
  induction k generalizing n with
  | zero => simp
  | succ k ih =>
    by_cases hn : n = 0
    · simp [hn]
    · rw [Nat.digits_eq_cons_digits_div (by norm_num) hn, List.drop_succ_cons, ih,
        Nat.div_div_eq_div_mul, ← pow_succ']

/-- **The front of the text of a number** is the text of a quotient, which is positive if the number
is. -/
theorem take_toDigits {k : ℕ} (hpos : 0 < k) (hle : k ≤ (toDigits n).length) :
    (toDigits n).take k = toDigits (n / 10 ^ ((toDigits n).length - k)) ∧
      (n ≠ 0 → n / 10 ^ ((toDigits n).length - k) ≠ 0) := by
  by_cases hn : n = 0
  · subst hn
    have hlength : (toDigits 0).length = 1 := rfl
    rw [List.take_of_length_le (by omega), Nat.zero_div]
    exact ⟨rfl, fun h => absurd rfl h⟩
  · have htext : toDigits n = ((Nat.digits 10 n).map digitByte).reverse := if_neg hn
    have hlength : (toDigits n).length = (Nat.digits 10 n).length := by simp [htext]
    rw [hlength] at hle ⊢
    -- There are more digits than are cut off.
    have hquotient : n / 10 ^ ((Nat.digits 10 n).length - k) ≠ 0 := by
      have hpow : 10 ^ ((Nat.digits 10 n).length - k) ≤ n :=
        (Nat.lt_digits_length_iff (by norm_num) n).mp (by omega)
      exact (Nat.div_pos hpow (Nat.pow_pos (by norm_num))).ne'
    refine ⟨?_, fun _ => hquotient⟩
    rw [htext, List.take_reverse, List.length_map, ← List.map_drop, drop_digits]
    exact (if_neg hquotient).symm

/-- The text of a number has at most `k` digits if the number is that small. -/
theorem length_toDigits_le_iff {k : ℕ} (hk : 0 < k) : (toDigits n).length ≤ k ↔ n < 10 ^ k := by
  unfold toDigits
  split_ifs with h
  · subst h
    exact iff_of_true hk (Nat.pow_pos (by norm_num))
  · rw [List.length_reverse, List.length_map]
    exact Nat.digits_length_le_iff (by norm_num) n

/-- **The numbers with at most nine characters.** -/
theorem length_toDecimal_le_iff {z : ℤ} :
    (toDecimal z).length ≤ 9 ↔ -10 ^ 8 < z ∧ z < 10 ^ 9 := by
  cases z with
  | ofNat n =>
    change (toDigits n).length ≤ 9 ↔ _
    rw [length_toDigits_le_iff (by norm_num), Int.ofNat_eq_natCast]
    omega
  | negSucc n =>
    change (toDigits (n + 1)).length + 1 ≤ 8 + 1 ↔ _
    rw [Nat.add_le_add_iff_right, length_toDigits_le_iff (by norm_num), Int.negSucc_eq]
    omega

end TalonRPC
