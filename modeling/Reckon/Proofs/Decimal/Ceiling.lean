import Reckon.Decimal.Arithmetic
/-! Whole numbers under a ceiling. A power of ten that the precision can hold is not passed by adding to
it what is less than half of its last digit: the sum is rounded back to it. -/
namespace Reckon.Decimal

theorem halfEvenAtMost {n b d : Nat} (near : 2 * n < 2 * (b * d) + d) : halfEven n d ≤ b := by
  have pos : 0 < d := by
    rcases Nat.eq_zero_or_pos d with rfl | pos
    · simp at near
    · exact pos
  have low := (halfEvenNear n pos).1
  have less : halfEven n d * d < (b + 1) * d := by
    rw [Nat.succ_mul]
    omega
  exact Nat.lt_succ_iff.mp (Nat.lt_of_mul_lt_mul_right less)

def AtMost (k : Nat) (d : Decimal) : Prop :=
  ∃ c e : Nat, d = .finite false c e ∧ c * tenTo e ≤ tenTo k ∧ (c = 0 → e ≤ 999999)

theorem tenToSuccLe {m n : Nat} (less : m < n) : tenTo m * 10 ≤ tenTo n := tenToLe less

theorem firstDigitAtMost {c e k : Nat} (nonzero : c ≠ 0) (small : c * tenTo e ≤ tenTo k) :
    digitCount c + e ≤ k + 1 := by
  have within : tenTo (digitCount c - 1 + e) ≤ tenTo k := by
    rw [tenToAdd]
    exact Nat.le_trans (Nat.mul_le_mul_right _ (tenToDigitCountLe nonzero)) small
  have order : digitCount c - 1 + e ≤ k := (Nat.pow_le_pow_iff_right (by decide)).mp within
  omega

theorem AtMost.place {k : Nat} {d : Decimal} (atMost : AtMost k d) (room : k ≤ 999999) :
    ∃ c e : Nat, d = .finite false c e ∧ e + digitCount c ≤ 1000000 := by
  obtain ⟨c, e, rfl, small, atZero⟩ := atMost
  refine ⟨c, e, rfl, ?_⟩
  by_cases vanishes : c = 0
  · have low := atZero vanishes
    have single : digitCount 0 = 1 := rfl
    rw [vanishes, single]
    omega
  · have place := firstDigitAtMost vanishes small
    omega

theorem inRangeAtMost {c e k : Nat} (room : k ≤ 999999) (nonzero : c ≠ 0) (small : c * tenTo e ≤ tenTo k) :
    ∃ d, inRange false c e = .ok d ∧ AtMost k d := by
  refine ⟨_, if_neg ?_, c, e, rfl, small, fun vanishes => absurd vanishes nonzero⟩
  rintro ⟨_, above⟩
  have place := firstDigitAtMost nonzero small
  simp only [largestExponent] at above
  omega

theorem nearestAtMost {n u s b k : Nat} (below : b * tenTo (u + s) ≤ k)
    (near : 2 * (n * tenTo u) < 2 * (b * tenTo (u + s)) + tenTo (u + s)) :
    halfEven n (tenTo s) * tenTo (u + s) ≤ k := by
  have scale : ∀ a, a * tenTo s * tenTo u = a * tenTo (u + s) := fun a => by
    rw [tenToAdd, Nat.mul_assoc, Nat.mul_comm (tenTo s)]
  have inUnits : 2 * n < 2 * (b * tenTo s) + tenTo s := by
    apply Nat.lt_of_mul_lt_mul_right (a := tenTo u)
    have double : 2 * (b * tenTo s) * tenTo u = 2 * (b * tenTo (u + s)) := by
      rw [Nat.mul_assoc, scale]
    have single : tenTo s * tenTo u = tenTo (u + s) := by
      simpa using scale 1
    rwa [Nat.add_mul, double, single, Nat.mul_assoc]
  exact Nat.le_trans (Nat.mul_le_mul_right _ (halfEvenAtMost inUnits)) below

theorem halfEvenPos {n d : Nat} (unit : 0 < d) (large : d ≤ n) : 0 < halfEven n d := by
  have quotientPos : 0 < n / d := Nat.div_pos large unit
  unfold halfEven
  split
  · exact quotientPos
  · split <;> omega

variable {p : Precision} {m : Nat}

/- The ceiling is ten to the sum of the precision and `m`; ten to the `m` more is still rounded down
to it. -/

theorem keptAtMost {n u s : Nat} (digits : n < tenTo (p.digits + s))
    (small : n * tenTo u ≤ tenTo (p.digits + m) + tenTo m) :
    halfEven n (tenTo s) * tenTo (u + s) ≤ tenTo (p.digits + m) := by
  -- The last digit kept stands below, within or above the digits of the ceiling.
  by_cases fine : u + s ≤ m
  · have kept : halfEven n (tenTo s) ≤ tenTo p.digits := by
      have unit := tenToPos s
      apply halfEvenAtMost
      rw [← tenToAdd]
      omega
    calc halfEven n (tenTo s) * tenTo (u + s)
      _ ≤ tenTo p.digits * tenTo m := Nat.mul_le_mul kept (tenToLe fine)
      _ = tenTo (p.digits + m) := (tenToAdd ..).symm
  · have coarse : tenTo m * 10 ≤ tenTo (u + s) := tenToSuccLe (by omega)
    have positive := tenToPos m
    by_cases reach : u + s ≤ p.digits + m
    · have whole : tenTo (p.digits + m - (u + s)) * tenTo (u + s) = tenTo (p.digits + m) := by
        rw [← tenToAdd, Nat.sub_add_cancel reach]
      exact nearestAtMost (Nat.le_of_eq whole) (by omega)
    · have beyond : tenTo (p.digits + m) * 10 ≤ tenTo (u + s) := tenToSuccLe (by omega)
      have lower : tenTo m ≤ tenTo (p.digits + m) := tenToLe (by omega)
      exact nearestAtMost (b := 0) (by simp) (by omega)

theorem roundAtMost {n u : Nat} (room : p.digits + m ≤ 999999)
    (small : n * tenTo u ≤ tenTo (p.digits + m) + tenTo m) :
    ∃ d, round p false n u = .ok d ∧ AtMost (p.digits + m) d := by
  have pos := p.pos
  by_cases vanishes : n = 0
  · subst vanishes
    rw [roundZero]
    refine ⟨_, rfl, 0, min u 999999, ?_, by simp, fun _ => Nat.min_le_right ..⟩
    simp only [tiny, smallestExponent, largestExponent]
    congr 1
    omega
  · let s := digitCount n - p.digits
    have last : lastKept p n u = ((u + s : Nat) : Int) := by
      simp only [lastKept, tiny, smallestExponent, s]
      omega
    have shift : (lastKept p n u - u).toNat = s := by
      rw [last]
      omega
    have digits : n < tenTo (p.digits + s) :=
      Nat.lt_of_lt_of_le (ltTenToDigitCount n) (tenToLe (by omega))
    have kept := keptAtMost digits small
    have first := tenToDigitCountLe vanishes
    have nonzero : 0 < halfEven n (tenTo s) :=
      halfEvenPos (tenToPos s) (Nat.le_trans (tenToLe (by omega)) first)
    simp only [round, if_neg vanishes, shift]
    split
    · rename_i more
      have carried : halfEven n (tenTo s) / 10 * tenTo (u + s + 1) ≤ tenTo (p.digits + m) := by
        refine Nat.le_trans ?_ kept
        rw [tenToSucc, Nat.mul_comm (tenTo (u + s)), ← Nat.mul_assoc]
        exact Nat.mul_le_mul_right _ (Nat.div_mul_le_self ..)
      have tens : tenTo 1 ≤ halfEven n (tenTo s) := by
        apply Nat.le_of_not_lt
        intro single
        have short := (digitCountLe (by decide)).mpr single
        omega
      have ten : tenTo 1 = 10 := rfl
      have ranged := inRangeAtMost room (by omega) carried
      rwa [Int.natCast_add, ← last] at ranged
    · have ranged := inRangeAtMost room (Nat.ne_of_gt nonzero) kept
      rwa [← last] at ranged

theorem addAtMost {j k : Nat} {a b : Decimal} (room : p.digits + m ≤ 999999) (left : AtMost j a)
    (right : AtMost k b) (small : tenTo j + tenTo k ≤ tenTo (p.digits + m) + tenTo m) :
    ∃ d, add p a b = .ok d ∧ AtMost (p.digits + m) d := by
  obtain ⟨c, e, rfl, leftSmall, _⟩ := left
  obtain ⟨d, f, rfl, rightSmall, _⟩ := right
  let sum := c * tenTo (e - min e f) + d * tenTo (f - min e f)
  have unit : min (e : Int) f = ((min e f : Nat) : Int) := by omega
  have leftUnits : units false c e (min e f : Nat) = (c * tenTo (e - min e f) : Nat) := by
    rw [units, show ((e : Int) - (min e f : Nat)).toNat = e - min e f by omega]
    rfl
  have rightUnits : units false d f (min e f : Nat) = (d * tenTo (f - min e f) : Nat) := by
    rw [units, show ((f : Int) - (min e f : Nat)).toNat = f - min e f by omega]
    rfl
  have total : sum * tenTo (min e f) ≤ tenTo (p.digits + m) + tenTo m := by
    have leftBack : tenTo (e - min e f) * tenTo (min e f) = tenTo e := by
      rw [← tenToAdd, Nat.sub_add_cancel (Nat.min_le_left ..)]
    have rightBack : tenTo (f - min e f) * tenTo (min e f) = tenTo f := by
      rw [← tenToAdd, Nat.sub_add_cancel (Nat.min_le_right ..)]
    rw [Nat.add_mul, Nat.mul_assoc, leftBack, Nat.mul_assoc, rightBack]
    omega
  have positive : (if ((sum : Nat) : Int) = 0 then false && false else decide (((sum : Nat) : Int) < 0))
      = false := by
    split
    · rfl
    · exact decide_eq_false (by omega)
  obtain ⟨r, rounded, within⟩ := roundAtMost room total
  refine ⟨r, ?_, within⟩
  simp only [add, unit, leftUnits, rightUnits, ← Int.natCast_add]
  rw [positive, Int.natAbs_natCast, rounded]

theorem mulAtMost {j k : Nat} {a b : Decimal} (room : p.digits + m ≤ 999999) (left : AtMost j a)
    (right : AtMost k b) (small : j + k ≤ p.digits + m) :
    ∃ d, mul p a b = .ok d ∧ AtMost (p.digits + m) d := by
  obtain ⟨c, e, rfl, leftSmall, _⟩ := left
  obtain ⟨d, f, rfl, rightSmall, _⟩ := right
  have product : c * d * tenTo (e + f) ≤ tenTo (p.digits + m) + tenTo m := by
    calc c * d * tenTo (e + f)
      _ = c * tenTo e * (d * tenTo f) := by rw [tenToAdd]; ac_rfl
      _ ≤ tenTo j * tenTo k := Nat.mul_le_mul leftSmall rightSmall
      _ = tenTo (j + k) := (tenToAdd ..).symm
      _ ≤ tenTo (p.digits + m) := tenToLe small
      _ ≤ tenTo (p.digits + m) + tenTo m := Nat.le_add_right ..
  exact roundAtMost room product

end Reckon.Decimal
