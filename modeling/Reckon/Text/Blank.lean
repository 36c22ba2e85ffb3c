/-! Blank characters, and text cut free of them at both ends. -/
namespace Reckon.Text

def isBlank (c : Char) : Bool :=
  let n := c.toNat
  (9 ≤ n && n ≤ 13) || (28 ≤ n && n ≤ 32) || n == 0x85 || n == 0xa0 || n == 0x1680 ||
  (0x2000 ≤ n && n ≤ 0x200a) || n == 0x2028 || n == 0x2029 || n == 0x202f || n == 0x205f ||
  n == 0x3000

def trimBy (drop : Char → Bool) (s : List Char) : List Char :=
  ((s.dropWhile drop).reverse.dropWhile drop).reverse

def trim (s : List Char) : List Char := trimBy isBlank s

def isBlankText (s : List Char) : Bool := s.all isBlank

theorem trimByAll {drop : Char → Bool} {s : List Char} (h : s.all drop = true) :
    trimBy drop s = [] := by
  have gone : s.dropWhile drop = [] := by
    induction s with
    | nil => rfl
    | cons c s ih =>
      simp only [List.all_cons, Bool.and_eq_true] at h
      simp only [List.dropWhile_cons, h.1, if_true]
      exact ih h.2
  rw [trimBy, gone]
  rfl

theorem trimBlank {s : List Char} (h : isBlankText s = true) : trim s = [] := trimByAll h

variable {drop : Char → Bool} {before word after : List Char}

theorem dropBefore (margin : ∀ c ∈ before, drop c = true) (plain : ∀ c ∈ word, drop c = false)
    (present : word ≠ []) : (before ++ (word ++ after)).dropWhile drop = word ++ after := by
  rw [List.dropWhile_append_of_pos margin]
  cases word with
  | nil => exact absurd rfl present
  | cons c word => simp [plain c List.mem_cons_self]

theorem trimWithin (front : ∀ c ∈ before, drop c = true) (plain : ∀ c ∈ word, drop c = false)
    (back : ∀ c ∈ after, drop c = true) (present : word ≠ []) :
    trimBy drop (before ++ (word ++ after)) = word := by
  have ahead : (before ++ (word ++ after)).dropWhile drop = word ++ after := dropBefore front plain present
  have behind : (after.reverse ++ (word.reverse ++ [])).dropWhile drop = word.reverse ++ [] :=
    dropBefore (by simpa using back) (by simpa using plain) (by simpa using present)
  rw [List.append_nil] at behind
  rw [trimBy, ahead, List.reverse_append, behind, List.reverse_reverse]

theorem trimNone (plain : ∀ c ∈ word, drop c = false) : trimBy drop word = word := by
  cases word with
  | nil => rfl
  | cons c word =>
    have alone : trimBy drop ([] ++ (c :: word ++ [])) = c :: word := trimWithin nofun plain nofun (by simp)
    simpa using alone

end Reckon.Text
