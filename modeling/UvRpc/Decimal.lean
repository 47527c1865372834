import Mathlib

/-! Decimal numerals as bytes, the way printf writes them. -/
namespace Decimal

def print (n : Nat) : List UInt8 := (Nat.toDigits 10 n).map fun d => d.toNat.toUInt8

theorem digit_bounds {n : Nat} {d : Char} (member : d ∈ Nat.toDigits 10 n) : 48 ≤ d.toNat ∧ d.toNat ≤ 57 := by
  have digit := Nat.isDigit_of_mem_toDigits (by decide) (by decide) member
  simp only [Char.isDigit,Bool.and_eq_true,decide_eq_true_eq] at digit
  exact digit

theorem digit_toNat {n : Nat} {d : Char} (member : d ∈ Nat.toDigits 10 n) :
    d.toNat.toUInt8.toNat = d.toNat := by
  have bounds := digit_bounds member
  simp only [Nat.toUInt8,UInt8.toNat_ofNat']
  omega

theorem print_bytes {n : Nat} {b : UInt8} (member : b ∈ print n) : 48 ≤ b.toNat ∧ b.toNat ≤ 57 := by
  obtain ⟨d,digit,rfl⟩ := List.mem_map.mp member
  rw [digit_toNat digit]
  exact digit_bounds digit

theorem print_chars (n : Nat) : ((print n).map fun b => Char.ofNat b.toNat) = Nat.toDigits 10 n := by
  rw [print,List.map_map]
  conv_rhs => rw [← List.map_id (Nat.toDigits 10 n)]
  apply List.map_congr_left
  intro d digit
  simp [digit_toNat digit]

theorem print_injective : Function.Injective print := by
  intro m n same
  have digits : Nat.toDigits 10 m = Nat.toDigits 10 n := by rw [← print_chars m,same,print_chars]
  rw [← Nat.ofDigitChars_ten_toDigits (n := m),digits,Nat.ofDigitChars_ten_toDigits]

def value (digits : List UInt8) : Nat := digits.foldl (fun n d => 10 * n + (d.toNat - 48)) 0

theorem value_print (n : Nat) : value (print n) = n := by
  conv_rhs => rw [← Nat.ofDigitChars_ten_toDigits (n := n),← print_chars n,Nat.ofDigitChars_eq_foldl,List.foldl_map]
  have byte (b : UInt8) : (Char.ofNat b.toNat).toNat = b.toNat := by
    have small := b.toNat_lt
    rw [Char.toNat_ofNat,if_pos (.inl (by omega))]
  simp only [value,byte]
  rfl

theorem print_length_le {n k : Nat} (pos : 0 < k) (small : n < 10 ^ k) : (print n).length ≤ k := by
  rw [print,List.length_map]
  exact (Nat.length_toDigits_le_iff (by decide) pos).mpr small

/-- A numeral behind a separator that is no digit ends at the last separator. -/
theorem append_print_inj {xs ys : List UInt8} {m n : Nat} {sep : UInt8} (not_digit : sep.toNat < 48 ∨ 57 < sep.toNat)
    (same : xs ++ sep :: print m = ys ++ sep :: print n) : xs = ys ∧ m = n := by
  have absent (k : Nat) : sep ∉ print k := fun member => by
    have := print_bytes member
    omega
  rcases List.append_eq_append_iff.mp same with ⟨front,rfl,tail⟩ | ⟨front,rfl,tail⟩
  all_goals
    cases front with
    | nil =>
      injection tail with _ numeral
      simp [print_injective numeral]
    | cons b front =>
      injection tail with _ numeral
      exact absurd (by rw [numeral]; simp) (absent _)

def isDigit (b : UInt8) : Bool := 48 ≤ b.toNat ∧ b.toNat ≤ 57
def isSpace (b : UInt8) : Bool := b.toNat = 32 ∨ 9 ≤ b.toNat ∧ b.toNat ≤ 13

/-- strtoll of the C library with base 10, in memory that ends with `buf`: no answer when
it reads on beyond the end. -/
def strtoll (buf : List UInt8) : Option Int :=
  let buf := buf.dropWhile isSpace
  let (negative,buf) := match buf with
    | [] => (false,[])
    | sign :: rest => if sign = 45 then (true,rest) else if sign = 43 then (false,rest) else (false,sign :: rest)
  if buf.all isDigit then none
  else
    let v : Int := value (buf.takeWhile isDigit)
    some (max (-(2 ^ 63)) (min (2 ^ 63 - 1) (if negative then -v else v)))

theorem print_ne_nil (n : Nat) : print n ≠ [] := by
  intro empty
  have length := congrArg List.length empty
  rw [print,List.length_map] at length
  exact absurd (List.eq_nil_of_length_eq_zero length) Nat.toDigits_ne_nil

theorem print_isDigit (n : Nat) : ∀ b ∈ print n, isDigit b = true := fun b member => by
  simpa [isDigit] using print_bytes member

/-- A printed number is read back, up to the first byte that is no digit. -/
theorem strtoll_print {n : Nat} {stop : UInt8} (small : n < 2 ^ 63) (ends : isDigit stop = false) (rest : List UInt8) :
    strtoll (print n ++ stop :: rest) = some (n : Int) := by
  obtain ⟨d,ds,digits⟩ := List.exists_cons_of_ne_nil (print_ne_nil n)
  have first := print_bytes (n := n) (b := d) (by simp [digits])
  have space : isSpace d = false := by simp [isSpace]; omega
  have minus : d ≠ 45 := by rintro rfl; simp at first
  have plus : d ≠ 43 := by rintro rfl; simp at first
  have scanned : (print n ++ stop :: rest).takeWhile isDigit = print n := by
    rw [List.takeWhile_append_of_pos (print_isDigit n),List.takeWhile_cons_of_neg (by simp [ends]),List.append_nil]
  have stops : (print n ++ stop :: rest).all isDigit = false := by simp [ends]
  have all : strtoll (print n ++ stop :: rest) =
      some (max (-(2 ^ 63)) (min (2 ^ 63 - 1) (value ((print n ++ stop :: rest).takeWhile isDigit) : Int))) := by
    rw [digits] at stops ⊢
    simp only [List.cons_append] at stops ⊢
    simp [strtoll,space,minus,plus,stops]
  rw [all,scanned,value_print]
  congr 1
  omega

end Decimal
