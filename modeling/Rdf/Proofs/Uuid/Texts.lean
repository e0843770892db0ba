import Mathlib.Algebra.Group.Nat.Defs
import Rdf.Uuid.Basic

/-!
# The bytes and the digits of an identifier

Both are fixed-width expansions of one number, so each of them gives the number back. Main
statements:

* `Uuid.bytes_injective`: the sixteen bytes determine the identifier;
* `Uuid.toNat?_digits`: its 32 digits are read back as its number, and so determine it as well.
-/

namespace Rdf

/-! ## Base 256 -/

namespace Bytes

theorem length_ofNat (count n : Nat) : (ofNat count n).length = count := by
  induction count generalizing n with
  | zero => rfl
  | succ count ih => simp [ofNat, ih]

theorem toNat_append_singleton (bytes : List UInt8) (b : UInt8) :
    toNat (bytes ++ [b]) = 256 * toNat bytes + b.toNat := by
  simp [toNat]

/-- Numbers that fit the width are read back from their bytes. -/
theorem toNat_ofNat {count n : Nat} (h : n < 256 ^ count) : toNat (ofNat count n) = n := by
  induction count generalizing n with
  | zero =>
    have hn : n = 0 := by simpa using h
    rw [hn]
    rfl
  | succ count ih =>
    have hdiv : n / 256 < 256 ^ count := by
      rw [Nat.div_lt_iff_lt_mul (by omega)]
      rwa [Nat.pow_succ] at h
    have hmod : (UInt8.ofNat (n % 256)).toNat = n % 256 := by
      simp
    rw [ofNat, toNat_append_singleton, ih hdiv, hmod]
    omega

/-- A byte of the form 255 never occurs in UTF-8. -/
theorem notMem_utf8EncodeChar (c : Char) : (0xFF : UInt8) ∉ String.utf8EncodeChar c := by
  have hbyte : ∀ n < 0xFF, (0xFF : UInt8) ≠ UInt8.ofNat n := by
    intro n hn h
    have htoNat := congrArg UInt8.toNat h
    rw [UInt8.toNat_ofNat_of_lt' (Nat.lt_trans hn (by decide))] at htoNat
    exact absurd htoNat.symm (Nat.ne_of_lt hn)
  -- one case for each length of the form
  fun_cases String.utf8EncodeChar c <;>
    simp only [List.mem_cons, List.not_mem_nil, or_false, not_or]
  · exact hbyte _ (by omega)
  · exact ⟨hbyte _ (by omega), hbyte _ (by omega)⟩
  · exact ⟨hbyte _ (by omega), hbyte _ (by omega), hbyte _ (by omega)⟩
  · exact ⟨hbyte _ (by omega), hbyte _ (by omega), hbyte _ (by omega), hbyte _ (by omega)⟩

theorem utf8_eq (s : String) : utf8 s = s.toList.flatMap String.utf8EncodeChar := by
  unfold utf8
  rw [String.toUTF8_eq_toByteArray, ← String.utf8Encode_toList]
  simp [List.utf8Encode]

theorem notMem_utf8 (s : String) : (0xFF : UInt8) ∉ utf8 s := by
  rw [utf8_eq, List.mem_flatMap]
  rintro ⟨c, -, hc⟩
  exact notMem_utf8EncodeChar c hc

theorem utf8_injective : Function.Injective utf8 := by
  intro s t h
  unfold utf8 at h
  rw [String.toUTF8_eq_toByteArray, String.toUTF8_eq_toByteArray] at h
  apply String.toByteArray_inj.1
  apply ByteArray.ext
  exact Array.toList_inj.1 h

end Bytes

/-! ## Base 16 -/

namespace Hex

theorem value?_digit {d : Nat} (h : d < 16) : value? (digit d) = some d := by
  have hall : ∀ d : Fin 16, value? (digit d) = some d.val := by decide
  exact hall ⟨d, h⟩

theorem isDigit_digit {d : Nat} (h : d < 16) : isDigit (digit d) = true := by
  have hall : ∀ d : Fin 16, isDigit (digit d) = true := by decide
  exact hall ⟨d, h⟩

theorem length_ofNat (count n : Nat) : (ofNat count n).length = count := by
  induction count generalizing n with
  | zero => rfl
  | succ count ih => simp [ofNat, ih]

theorem isDigit_of_mem_ofNat {count n : Nat} {c : Char} (h : c ∈ ofNat count n) :
    isDigit c = true := by
  induction count generalizing n with
  | zero => cases h
  | succ count ih =>
    rw [ofNat, List.mem_append, List.mem_singleton] at h
    rcases h with h | rfl
    · exact ih h
    · exact isDigit_digit (Nat.mod_lt n (by omega))

/-- Numbers that fit the width are read back from their digits. -/
theorem toNat?_ofNat {count n : Nat} (h : n < 16 ^ count) : toNat? (ofNat count n) = some n := by
  induction count generalizing n with
  | zero =>
    have hn : n = 0 := by simpa using h
    rw [hn]
    rfl
  | succ count ih =>
    have hdiv : n / 16 < 16 ^ count := by
      rw [Nat.div_lt_iff_lt_mul (by omega)]
      rwa [Nat.pow_succ] at h
    have hread := ih hdiv
    unfold toNat? at hread ⊢
    rw [ofNat, List.foldlM_append, hread]
    simp [value?_digit (Nat.mod_lt n (show 0 < 16 by omega))]
    omega

end Hex

/-! ## Identifiers -/

namespace Uuid

theorem toNat_lt (u : Uuid) : u.toNat < 2 ^ 128 := u.bits.isLt

theorem ofNat_toNat (u : Uuid) : ofNat u.toNat = u := by
  simp [ofNat, toNat]

theorem length_bytes (u : Uuid) : u.bytes.length = 16 := Bytes.length_ofNat 16 u.toNat

theorem bytes_injective : Function.Injective bytes := by
  intro u v h
  have hu := @Bytes.toNat_ofNat 16 _ u.toNat_lt
  have hv := @Bytes.toNat_ofNat 16 _ v.toNat_lt
  unfold bytes at h
  rw [h, hv] at hu
  rw [← ofNat_toNat u, ← ofNat_toNat v, hu]

theorem length_digits (u : Uuid) : u.digits.length = 32 := Hex.length_ofNat 32 u.toNat

theorem isDigit_of_mem_digits {u : Uuid} {c : Char} (h : c ∈ u.digits) : Hex.isDigit c = true :=
  Hex.isDigit_of_mem_ofNat h

theorem toNat?_digits (u : Uuid) : Hex.toNat? u.digits = some u.toNat :=
  Hex.toNat?_ofNat u.toNat_lt

theorem digits_injective : Function.Injective digits := by
  intro u v h
  have hread := toNat?_digits u
  rw [h, toNat?_digits v] at hread
  rw [← ofNat_toNat u, ← ofNat_toNat v, Option.some.inj hread]

theorem simple_injective : Function.Injective simple := by
  intro u v h
  exact digits_injective (String.ofList_injective h)

end Uuid

end Rdf
