import Mathlib.Algebra.Group.Nat.Defs
import Mathlib.Data.List.Basic

/-!
# Numerals as text

Natural numbers written as text and read back: decimal numerals of any length, read with an
optional plus sign and a bound as fixed-width integer types are, and hexadecimal numerals of a
fixed width.

## Main results

* `parseNat_repr` — a decimal numeral reads back
* `hexString_injective` — fixed-width hexadecimal texts are distinct for distinct numbers
-/

namespace Numeral

/-! ### Decimal -/

/-- The digits of a numeral without its optional plus sign. -/
def unsigned : List Char → List Char
  | '+' :: cs => cs
  | cs => cs

/-- Read a decimal numeral below `bound`: an optional plus sign and at least one digit, nothing
else. -/
def parseNat (bound : ℕ) (s : String) : Option ℕ :=
  let digits := unsigned s.toList
  if digits ≠ [] ∧ digits.all Char.isDigit ∧ Nat.ofDigitChars 10 digits 0 < bound then
    some (Nat.ofDigitChars 10 digits 0)
  else none

theorem unsigned_toDigits (n : ℕ) : unsigned (Nat.toDigits 10 n) = Nat.toDigits 10 n := by
  have hdigit : ∀ c ∈ Nat.toDigits 10 n, c.isDigit := fun c hc =>
    Nat.isDigit_of_mem_toDigits (by decide) (by decide) hc
  unfold unsigned
  split
  · next cs h => exact absurd (hdigit '+' (by rw [h]; exact List.mem_cons_self ..)) (by decide)
  · rfl

/-- A decimal numeral reads back if it is below the bound, and is refused otherwise. -/
theorem parseNat_repr_eq (bound n : ℕ) :
    parseNat bound n.repr = if n < bound then some n else none := by
  have hdigits : (Nat.toDigits 10 n).all Char.isDigit :=
    List.all_eq_true.mpr fun c hc => Nat.isDigit_of_mem_toDigits (by decide) (by decide) hc
  simp only [parseNat, Nat.toList_repr, unsigned_toDigits, Nat.ofDigitChars_ten_toDigits, hdigits,
    ne_eq, Nat.toDigits_ne_nil, not_false_eq_true, true_and]

/-- **A decimal numeral reads back.** -/
theorem parseNat_repr {bound n : ℕ} (h : n < bound) : parseNat bound n.repr = some n := by
  rw [parseNat_repr_eq, if_pos h]

/-! ### Hexadecimal of fixed width -/

/-- The low `w` hexadecimal digits of `n`, the highest first. -/
def hexDigits : ℕ → ℕ → List Char
  | 0, _ => []
  | w + 1, n => hexDigits w (n / 16) ++ [Nat.digitChar (n % 16)]

/-- `0x` and `w` lowercase hexadecimal digits. -/
@[irreducible] def hexString (w n : ℕ) : String := String.ofList ('0' :: 'x' :: hexDigits w n)

theorem digitChar_injective {a b : ℕ} (ha : a < 16) (hb : b < 16)
    (h : Nat.digitChar a = Nat.digitChar b) : a = b := by
  have key : ∀ a b : Fin 16, Nat.digitChar a = Nat.digitChar b → a = b := by decide
  exact congrArg Fin.val (key ⟨a, ha⟩ ⟨b, hb⟩ h)

theorem hexDigits_injective {w n m : ℕ} (hn : n < 16 ^ w) (hm : m < 16 ^ w)
    (h : hexDigits w n = hexDigits w m) : n = m := by
  induction w generalizing n m with
  | zero =>
    rw [pow_zero] at hn hm
    omega
  | succ w ih =>
    rw [pow_succ] at hn hm
    obtain ⟨hhigh, hlow⟩ := List.append_inj' h rfl
    have hdiv : n / 16 = m / 16 := ih (by omega) (by omega) hhigh
    have hmod : n % 16 = m % 16 :=
      digitChar_injective (Nat.mod_lt _ (by decide)) (Nat.mod_lt _ (by decide))
        (by simpa using hlow)
    omega

/-- **Fixed-width hexadecimal texts are distinct for distinct numbers.** -/
theorem hexString_injective {w n m : ℕ} (hn : n < 16 ^ w) (hm : m < 16 ^ w)
    (h : hexString w n = hexString w m) : n = m := by
  have hlist := congrArg String.toList h
  simp only [hexString, String.toList_ofList, List.cons.injEq, true_and] at hlist
  exact hexDigits_injective hn hm hlist

end Numeral
