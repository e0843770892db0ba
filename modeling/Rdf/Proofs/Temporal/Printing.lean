import Mathlib.Data.List.DropRight
import Rdf.Proofs.Temporal.Grammar

/-!
# Dates and times that are written

The text of a value is one that the readers accept, and they build the value again from it: the text
holds the fields of the moment, and the moment is built from its fields. Main statements:

* `isDay_printDay`, `isClock_printClock`, `isOffset_printOffset`: the texts of the parts;
* `DateTime.read?_print`, `Date.read?_print`, `TimeOfDay.read?_print`: a value that was read is read
  again from its own text.
-/

namespace Rdf

open Digits (padded)

namespace TemporalText

/-! ## Fractions -/

section Fractions

variable {ds : List Char} {part : Nat}

theorem dropZeros_dropZeros (ds : List Char) : dropZeros (dropZeros ds) = dropZeros ds :=
  List.rdropWhile_idempotent _ _

theorem prefix_dropZeros (ds : List Char) : dropZeros ds <+: ds := List.rdropWhile_prefix _ _

/-- The zeros at the end of a text are as many as it is longer than without them. -/
theorem dropZeros_append_zeros (ds : List Char) :
    dropZeros ds ++ List.replicate (ds.length - (dropZeros ds).length) '0' = ds := by
  let zeros := ds.rtakeWhile (fun c => c = '0')
  have hsplit : dropZeros ds ++ zeros = ds := List.rdropWhile_append_rtakeWhile
  have hzeros : ∀ c ∈ zeros, c = '0' := fun c hc => by
    simpa using List.mem_rtakeWhile_imp hc
  have hlength : ds.length - (dropZeros ds).length = zeros.length := by
    have hsum := congrArg List.length hsplit
    rw [List.length_append] at hsum
    omega
  rw [hlength, ← List.eq_replicate_of_mem hzeros, hsplit]

theorem fraction?_eq_some_iff : fraction? ds = some part ↔ (dropZeros ds).length ≤ 18 ∧
    Digits.toNat (dropZeros ds) * 10 ^ (18 - (dropZeros ds).length) = part := by
  unfold fraction?
  rw [Option.ite_none_left_eq_some, Option.some.injEq, Nat.not_lt]
  exact Iff.rfl

theorem fraction?_lt (hdigits : ∀ c ∈ ds, c.isDigit = true) (h : fraction? ds = some part) :
    part < ticksPerSecond.toNat := by
  obtain ⟨hle, rfl⟩ := fraction?_eq_some_iff.1 h
  have hlt : Digits.toNat (dropZeros ds) < 10 ^ (dropZeros ds).length :=
    Digits.toNat_lt fun c hc => hdigits c ((prefix_dropZeros ds).subset hc)
  calc Digits.toNat (dropZeros ds) * 10 ^ (18 - (dropZeros ds).length)
      < 10 ^ (dropZeros ds).length * 10 ^ (18 - (dropZeros ds).length) :=
        Nat.mul_lt_mul_of_pos_right hlt (Nat.pow_pos (by decide))
    _ = 10 ^ 18 := by rw [← Nat.pow_add, Nat.add_sub_cancel' hle]

/-- A part of a second is read from its eighteen digits, without the zeros at the end. -/
theorem fraction?_dropZeros_padded (h : part < 10 ^ 18) :
    fraction? (dropZeros (padded 18 part)) = some part := by
  have hlength : (padded 18 part).length = 18 := Digits.length_padded_of_lt h
  have hle := (prefix_dropZeros (padded 18 part)).length_le
  have hzeros := dropZeros_append_zeros (padded 18 part)
  rw [hlength] at hle hzeros
  rw [fraction?_eq_some_iff, dropZeros_dropZeros, ← Digits.toNat_append_zeros, hzeros,
    Digits.toNat_padded]
  exact ⟨hle, rfl⟩

end Fractions

/-! ## Parts -/

theorem IsSeconds.lt {t : Nat} {cs : List Char} (h : IsSeconds t cs) :
    t < 60 * ticksPerSecond.toNat := by
  cases h with
  | whole h => exact Nat.mul_lt_mul_of_pos_right h (by decide)
  | @fraction s part ds h _ hdigits hpart =>
    have hlt := fraction?_lt hdigits hpart
    have hle : s * ticksPerSecond.toNat ≤ 59 * ticksPerSecond.toNat :=
      Nat.mul_le_mul_right _ (Nat.le_of_lt_succ h)
    omega

theorem IsClock.ticks_lt {k : Clock} {cs : List Char} (h : IsClock k cs) :
    k.ticks < 60 * ticksPerSecond.toNat := by
  obtain ⟨-, -, -, seconds, hseconds, -⟩ := h
  exact hseconds.lt

theorem isSeconds_printSeconds {t : Nat} (h : t < 60 * ticksPerSecond.toNat) :
    IsSeconds t (printSeconds t) := by
  have hs : t / ticksPerSecond.toNat < 60 := Nat.div_lt_of_lt_mul (Nat.mul_comm _ _ ▸ h)
  have ht : t / ticksPerSecond.toNat * ticksPerSecond.toNat + t % ticksPerSecond.toNat = t :=
    Nat.div_add_mod' _ _
  unfold printSeconds
  dsimp only
  split
  · next hzero =>
    rw [hzero, Nat.add_zero] at ht
    have htext := IsSeconds.whole hs
    rwa [ht] at htext
  · next hpart =>
    have hlt : t % ticksPerSecond.toNat < 10 ^ 18 := Nat.mod_lt t (by decide)
    have hread := fraction?_dropZeros_padded hlt
    have hne : dropZeros (padded 18 (t % ticksPerSecond.toNat)) ≠ [] := by
      intro hnil
      rw [hnil] at hread
      exact hpart (Option.some.inj hread).symm
    have htext := IsSeconds.fraction hs hne
      (fun c hc => Digits.isDigit_of_mem_padded ((prefix_dropZeros _).subset hc)) hread
    rwa [ht] at htext

theorem isClock_printClock (m : Moment) : IsClock ⟨m.hour, m.minute, m.ticks⟩ (printClock m) := by
  have hhour := m.hour_lt
  refine ⟨Nat.le_of_lt hhour, m.minute_lt, fun hmidnight => ?_, _,
    isSeconds_printSeconds m.ticks_lt, by simp [printClock]⟩
  have hlast : m.hour = 24 := hmidnight
  omega

theorem isYear_print {y : Int} (h : Integer.Range.long.contains y.natAbs = true) :
    IsYear y (if y < 0 then '-' :: padded 4 y.natAbs else padded 4 y.natAbs) := by
  split
  · next hneg =>
    have htext := IsYear.negative h
    rwa [show -(y.natAbs : Int) = y by omega] at htext
  · next hpos =>
    have htext := IsYear.plain h
    rwa [show (y.natAbs : Int) = y by omega] at htext

theorem isDay_printDay {d : Calendar.Day} (hvalid : d.Valid)
    (hyear : Integer.Range.long.contains d.year.natAbs = true) : IsDay d (printDay d) :=
  ⟨hvalid, _, isYear_print hyear, by simp [printDay]⟩

theorem IsOffset.bounds {offset : Option Int} {cs : List Char} (h : IsOffset offset cs) :
    ∀ o ∈ offset, -840 ≤ o ∧ o ≤ 840 := by
  intro o ho
  cases h <;> simp only [Option.mem_def, Option.some.injEq, reduceCtorEq] at ho <;> omega

theorem isOffset_printOffset {offset : Option Int} (h : ∀ o ∈ offset, -840 ≤ o ∧ o ≤ 840) :
    IsOffset offset (printOffset offset) := by
  cases offset with
  | none => exact .none
  | some o =>
    obtain ⟨hlow, hhigh⟩ := h o rfl
    simp only [printOffset]
    split
    · next hzero =>
      rw [hzero]
      exact .utc
    · split
      · next hneg =>
        have htext := IsOffset.behind (n := o.natAbs) (by omega)
        rwa [show -(o.natAbs : Int) = o by omega] at htext
      · next hpos =>
        have htext := IsOffset.ahead (n := o.natAbs) (by omega)
        rwa [show (o.natAbs : Int) = o by omega] at htext

end TemporalText

open TemporalText

/-! ## Values -/

section Values

variable {cs : List Char}

theorem DateTime.readable_of_read? {t : DateTime} (h : read? cs = some t) : t.moment.Readable := by
  obtain ⟨d, k, offset, day, clock, ending, -, hclock, hoffset, -, hm⟩ := read?_eq_some_iff.1 h
  exact Moment.readable_of_ofFields? hm hclock.ticks_lt hoffset.bounds

/-- A date with a time of day that was read is read again from its own text. -/
theorem DateTime.read?_print {t : DateTime} (h : read? cs = some t) : read? t.print = some t := by
  have hreadable := readable_of_read? h
  rw [read?_eq_some_iff]
  exact ⟨_, _, _, _, _, _, isDay_printDay t.moment.valid_day hreadable.year_le,
    isClock_printClock t.moment, isOffset_printOffset hreadable.offset, by simp [print],
    Moment.ofFields?_of_readable hreadable t.moment.number_day⟩

/-- A date that was read is read again from its own text: it begins at midnight. -/
theorem Date.read?_print {t : Date} (h : read? cs = some t) : read? t.print = some t := by
  obtain ⟨d, offset, day, ending, -, hoffset, -, hm⟩ := read?_eq_some_iff.1 h
  have hreadable := Moment.readable_of_ofFields? hm (by decide) hoffset.bounds
  have hbuilt := Moment.ofFields?_of_readable hreadable t.moment.number_day
  rw [Moment.hour_of_ofFields? hm (by decide) (by decide),
    Moment.minute_of_ofFields? hm (by decide) (by decide),
    Moment.ticks_of_ofFields? hm (by decide)] at hbuilt
  rw [read?_eq_some_iff]
  exact ⟨_, _, _, _, isDay_printDay t.moment.valid_day hreadable.year_le,
    isOffset_printOffset hreadable.offset, rfl, hbuilt⟩

/-- A time of day that was read is read again from its own text. -/
theorem TimeOfDay.read?_print {t : TimeOfDay} (h : read? cs = some t) : read? t.print = some t := by
  obtain ⟨k, offset, clock, ending, hclock, hoffset, -, hm⟩ := read?_eq_some_iff.1 h
  have hreadable := Moment.readable_of_ofFields? hm hclock.ticks_lt hoffset.bounds
  have hday : Calendar.number referenceDay = t.moment.localSeconds / 86400 := by
    have hnumber := Moment.dayNumber_of_ofFields? hm hclock.ticks_lt hclock.2.1
    omega
  rw [read?_eq_some_iff]
  refine ⟨_, _, _, _, isClock_printClock t.moment, isOffset_printOffset hreadable.offset, rfl, ?_⟩
  rw [Nat.mod_eq_of_lt t.moment.hour_lt]
  exact Moment.ofFields?_of_readable hreadable hday

end Values

end Rdf
