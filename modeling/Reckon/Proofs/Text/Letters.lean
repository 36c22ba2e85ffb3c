/-! The ASCII letters by their numbers, and what their lower case is. -/
namespace Reckon.Text
variable {c : Char}

theorem upperRange : c.isUpper = true ↔ 65 ≤ c.toNat ∧ c.toNat ≤ 90 := by
  show decide (c.val ≥ 'A'.val ∧ c.val ≤ 'Z'.val) = true ↔ _
  rw [decide_eq_true_eq, ge_iff_le, UInt32.le_iff_toNat_le, UInt32.le_iff_toNat_le]
  rfl

theorem lowerRange : c.isLower = true ↔ 97 ≤ c.toNat ∧ c.toNat ≤ 122 := by
  show (decide (c.val ≥ 'a'.val) && decide (c.val ≤ 'z'.val)) = true ↔ _
  rw [Bool.and_eq_true, decide_eq_true_eq, decide_eq_true_eq, ge_iff_le, UInt32.le_iff_toNat_le,
    UInt32.le_iff_toNat_le]
  rfl

theorem letterRange :
    c.isAlpha = true ↔ (65 ≤ c.toNat ∧ c.toNat ≤ 90) ∨ (97 ≤ c.toNat ∧ c.toNat ≤ 122) := by
  show (c.isUpper || c.isLower) = true ↔ _
  rw [Bool.or_eq_true, upperRange, lowerRange]

theorem lowerUpper (upper : 65 ≤ c.toNat ∧ c.toNat ≤ 90) : c.toLower.toNat = c.toNat + 32 := by
  have capital : c.val ≥ 'A'.val ∧ c.val ≤ 'Z'.val := by
    rw [ge_iff_le, UInt32.le_iff_toNat_le, UInt32.le_iff_toNat_le]
    exact upper
  have room : c.val.toNat + 32 < 2 ^ 32 := Nat.lt_of_le_of_lt (Nat.add_le_add_right upper.2 32) (by decide)
  have moved : (c.val + ('a'.val - 'A'.val)).toNat = c.val.toNat + 32 := by
    rw [UInt32.toNat_add]
    exact Nat.mod_eq_of_lt room
  unfold Char.toLower
  rw [dif_pos capital]
  exact moved

theorem lowerOther (other : ¬ (65 ≤ c.toNat ∧ c.toNat ≤ 90)) : c.toLower = c := by
  unfold Char.toLower
  rw [dif_neg]
  rintro ⟨above, below⟩
  rw [ge_iff_le, UInt32.le_iff_toNat_le] at above
  rw [UInt32.le_iff_toNat_le] at below
  exact other ⟨above, below⟩

theorem lowerTwice (c : Char) : c.toLower.toLower = c.toLower := by
  apply lowerOther
  by_cases upper : 65 ≤ c.toNat ∧ c.toNat ≤ 90
  · rw [lowerUpper upper]
    omega
  · rwa [lowerOther upper]

end Reckon.Text
