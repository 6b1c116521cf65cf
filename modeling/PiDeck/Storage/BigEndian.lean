import Mathlib

/-! Fixed-width big-endian numbers, and decimal numbers padded with zeros. -/
namespace PiDeck.Storage

/-- The `width` low bytes of `n`, the highest first. -/
def toBigEndian : ℕ → ℕ → List UInt8
  | 0, _ => []
  | width + 1, n => UInt8.ofNat (n / 256 ^ width) :: toBigEndian width n

def ofBigEndian (bytes : List UInt8) : ℕ := bytes.foldl (fun n byte => n * 256 + byte.toNat) 0

@[simp] theorem length_toBigEndian (width n : ℕ) : (toBigEndian width n).length = width := by
  induction width with
  | zero => rfl
  | succ width ih => simp [toBigEndian, ih]

theorem foldl_toBigEndian (width n start : ℕ) :
    (toBigEndian width n).foldl (fun n byte => n * 256 + byte.toNat) start =
      start * 256 ^ width + n % 256 ^ width := by
  induction width generalizing start with
  | zero => simp [toBigEndian, Nat.mod_one]
  | succ width ih =>
    have byte : (UInt8.ofNat (n / 256 ^ width)).toNat = n / 256 ^ width % 256 := by simp
    rw [toBigEndian, List.foldl_cons, ih, byte, Nat.mod_pow_succ]
    ring

theorem ofBigEndian_toBigEndian {width n : ℕ} (h : n < 256 ^ width) : ofBigEndian (toBigEndian width n) = n := by
  rw [ofBigEndian, foldl_toBigEndian, zero_mul, zero_add, Nat.mod_eq_of_lt h]

theorem ofBigEndian_lt (bytes : List UInt8) : ofBigEndian bytes < 256 ^ bytes.length := by
  induction bytes using List.reverseRecOn with
  | nil => simp [ofBigEndian]
  | append_singleton bytes byte ih =>
    have hbyte := byte.toNat_lt
    rw [ofBigEndian, List.foldl_append, List.length_append]
    simp only [ofBigEndian] at ih
    simp only [List.foldl_cons, List.foldl_nil, List.length_singleton, pow_succ]
    omega

theorem ofBigEndian_cons (byte : UInt8) (bytes : List UInt8) :
    ofBigEndian (byte :: bytes) = byte.toNat * 256 ^ bytes.length + ofBigEndian bytes := by
  induction bytes using List.reverseRecOn with
  | nil => simp [ofBigEndian]
  | append_singleton bytes last ih =>
    simp only [ofBigEndian, List.foldl_cons, List.foldl_append, List.foldl_nil,
      List.length_append, List.length_singleton] at ih ⊢
    rw [ih]
    ring

theorem toBigEndian_ofBigEndian {width : ℕ} {bytes : List UInt8} (h : bytes.length = width) :
    toBigEndian width (ofBigEndian bytes) = bytes := by
  have low : ∀ (k high : ℕ) (bytes : List UInt8), bytes.length = k →
      toBigEndian k (high * 256 ^ k + ofBigEndian bytes) = bytes := by
    intro k
    induction k with
    | zero => exact fun high bytes hlength => (List.length_eq_zero_iff.mp hlength).symm
    | succ k ih =>
      intro high bytes hlength
      obtain ⟨byte, rest, rfl⟩ := List.exists_cons_of_length_eq_add_one hlength
      have hrest : rest.length = k := Nat.succ.inj hlength
      have hlow := ofBigEndian_lt rest
      rw [hrest] at hlow
      have hvalue : high * 256 ^ (k + 1) + ofBigEndian (byte :: rest) =
          (high * 256 + byte.toNat) * 256 ^ k + ofBigEndian rest := by
        rw [ofBigEndian_cons, hrest]
        ring
      have hhigh : ((high * 256 + byte.toNat) * 256 ^ k + ofBigEndian rest) / 256 ^ k =
          high * 256 + byte.toNat := by
        rw [Nat.mul_comm, Nat.mul_add_div (by positivity), Nat.div_eq_of_lt hlow, Nat.add_zero]
      have hhead : UInt8.ofNat (high * 256 + byte.toNat) = byte := by
        apply UInt8.toNat_inj.mp
        have hbyte := byte.toNat_lt
        simp only [UInt8.toNat_ofNat']
        omega
      rw [hvalue, toBigEndian, ih _ _ hrest, hhigh, hhead]
  simpa using low width 0 bytes h

/-- `n` in decimal, filled up on the left with zeros to `width` digits. -/
def paddedDigits (width n : ℕ) : List Char := List.leftpad width '0' (Nat.toDigits 10 n)

theorem ofDigitChars_paddedDigits (width n : ℕ) :
    Nat.ofDigitChars 10 (paddedDigits width n) 0 = n := by
  have zeros : ∀ k, Nat.ofDigitChars 10 (List.replicate k '0' ++ Nat.toDigits 10 n) 0 = n := by
    intro k
    induction k with
    | zero => exact Nat.ofDigitChars_ten_toDigits
    | succ k ih => simpa [List.replicate_succ, Nat.ofDigitChars_cons] using ih
  exact zeros _

theorem paddedDigits_isDigit {width n : ℕ} {c : Char} (h : c ∈ paddedDigits width n) :
    c.isDigit = true := by
  obtain hzero | hdigit := List.mem_append.mp h
  · obtain rfl := List.eq_of_mem_replicate hzero
    decide
  · exact Nat.isDigit_of_mem_toDigits (by decide) (by decide) hdigit

/-- A padded number can be read back from the front of a text, up to the first other character. -/
theorem paddedDigits_inj {width m n : ℕ} {c : Char} (hc : c.isDigit = false) {s t : List Char}
    (h : paddedDigits width m ++ c :: s = paddedDigits width n ++ c :: t) : m = n ∧ s = t := by
  have front : ∀ k u, (paddedDigits width k ++ c :: u).takeWhile Char.isDigit =
      paddedDigits width k := by
    intro k u
    rw [List.takeWhile_append_of_pos fun _ => paddedDigits_isDigit]
    simp [hc]
  have hdigits : paddedDigits width m = paddedDigits width n := by
    rw [← front m s, h, front]
  refine ⟨?_, ?_⟩
  · rw [← ofDigitChars_paddedDigits width m, hdigits, ofDigitChars_paddedDigits]
  · rw [hdigits] at h
    exact (List.cons.inj (List.append_cancel_left h)).2

end PiDeck.Storage
