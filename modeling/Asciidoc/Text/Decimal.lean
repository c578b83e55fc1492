import Asciidoc.Text.Digit

/-!
# Integers as decimal text

The written form of an integer is its decimal digits without leading zeros, after a minus sign
when it is negative. What is stated beside the definitions: reading the digits of a number gives
the number back (`number_ofNat`).
-/

namespace Asciidoc.Text.Decimal

/-- The ASCII digit of a value below ten. -/
def digit (n : Nat) : Char := Char.ofNat (0x30 + n)

/-- The decimal digits of a number. -/
def ofNat (n : Nat) : Text :=
  if _h : n < 10 then [digit n] else ofNat (n / 10) ++ [digit (n % 10)]
termination_by n
decreasing_by omega

/-- The written form of an integer. -/
def ofInt : Int → Text
  | .ofNat n => ofNat n
  | .negSucc n => '-' :: ofNat (n + 1)

/-- The wording of the refusal to write an integer with more than `Digit.longest` digits. -/
def tooLongMessage : Text :=
  "Exceeds the limit (4300 digits) for integer string conversion; ".toList
    ++ "use sys.set_int_max_str_digits() to increase the limit".toList

/-! ## Laws -/

theorem value?_digit {n : Nat} (h : n < 10) : Digit.value? (digit n) = some n :=
  Digit.value?_ascii ⟨n, h⟩

/-- Reading the digits of a number gives the number back. -/
theorem number_ofNat (n : Nat) : Digit.number (ofNat n) = n := by
  rw [ofNat]
  split
  · rename_i h
    simp [Digit.number, value?_digit h]
  · have ih := number_ofNat (n / 10)
    simp only [Digit.number] at ih ⊢
    rw [List.foldl_append, ih]
    simp only [List.foldl_cons, List.foldl_nil, value?_digit (Nat.mod_lt n (by omega : 0 < 10)),
      Option.getD_some]
    omega
termination_by n
decreasing_by omega

theorem ofNat_ne_nil (n : Nat) : ofNat n ≠ [] := by
  rw [ofNat]; split <;> simp

end Asciidoc.Text.Decimal
