import LSystems.Proofs.Decimal.Doubles
import LSystems.Proofs.Decimal.Nearest
import Mathlib.Data.List.TakeWhile

/-!
# Numerals as text

A numeral without a power of ten is a row of digits with at most one point, and reading
the row finds the same double. So the text of a finite double is a row that reads back
as its magnitude, behind a minus if the sign is set. Main statement:
`exists_row_of_floatText`.
-/

namespace LSystems

namespace Numeral

/-- The row is made of digits and points, and the number that it is read as is nearest
to the double with these bits. -/
structure Writes (row : List Char) (bits : Nat) : Prop where
  nonempty : row ≠ []
  plain : ∀ character ∈ row, character.isDigit ∨ character = '.'
  reads : ∃ numeral, ofDigits? row = some numeral ∧ numeral.nearest = bits

/-! ## Reading rows -/

theorem ofDigits?_whole {row : List Char} (nonempty : row ≠ [])
    (digits : ∀ character ∈ row, character.isDigit) :
    ofDigits? row = some ⟨digitsValue row, 0⟩ := by
  have all : row.takeWhile Char.isDigit = row := List.takeWhile_eq_self_iff.mpr digits
  have none : row.dropWhile Char.isDigit = [] := List.dropWhile_eq_nil_iff.mpr digits
  simp [ofDigits?, all, none, nonempty]

theorem ofDigits?_point {whole fraction : List Char} (nonempty : whole ≠ [])
    (wholeDigits : ∀ character ∈ whole, character.isDigit)
    (fractionDigits : ∀ character ∈ fraction, character.isDigit) :
    ofDigits? (whole ++ '.' :: fraction) =
      some ⟨digitsValue (whole ++ fraction), -fraction.length⟩ := by
  have point : Char.isDigit '.' = false := by decide
  have before : (whole ++ '.' :: fraction).takeWhile Char.isDigit = whole := by
    simp [List.takeWhile_append_of_pos wholeDigits, point]
  have behind : (whole ++ '.' :: fraction).dropWhile Char.isDigit = '.' :: fraction := by
    simp [List.dropWhile_append_of_pos wholeDigits, point]
  have all : fraction.all Char.isDigit = true := List.all_eq_true.mpr fractionDigits
  simp [ofDigits?, before, behind, all, nonempty]

theorem toLower_of_plain {character : Char}
    (plain : character.isDigit ∨ character = '.') :
    character.toLower = character := by
  rcases plain with digit | rfl
  · simp only [Char.isDigit, Bool.and_eq_true, decide_eq_true_eq, ge_iff_le] at digit
    rw [Char.toLower, dif_neg]
    intro upper
    exact absurd (UInt32.le_trans upper.1 digit.2) (by decide)
  · rfl

theorem float?_ofList {row : List Char}
    (plain : ∀ character ∈ row, character.isDigit ∨ character = '.') :
    float? (String.ofList row) = (ofDigits? row).map toFloat := by
  have absent (letter : Char) (notPlain : ¬ (letter.isDigit ∨ letter = '.')) :
      letter ∉ row :=
    fun member => notPlain (plain letter member)
  have unsigned : splitSign row = (false, row) := by
    unfold splitSign
    split
    · exact absurd (List.mem_cons_self ..) (absent '-' (by decide))
    · exact absurd (List.mem_cons_self ..) (absent '+' (by decide))
    · rfl
  have lower : row.map Char.toLower = row := by
    conv_rhs => rw [← List.map_id row]
    exact List.map_congr_left fun character member =>
      toLower_of_plain (plain character member)
  have unnamed {name : String} {letter : Char} (inName : letter ∈ name.toList)
      (notPlain : ¬ (letter.isDigit ∨ letter = '.')) : String.ofList row ≠ name := by
    rintro rfl
    rw [String.toList_ofList] at inName
    exact absent letter notPlain inName
  have noPower :
      row.dropWhile (fun character => character != 'e' && character != 'E') = [] := by
    apply List.dropWhile_eq_nil_iff.mpr
    intro character member
    rw [Bool.and_eq_true, bne_iff_ne, bne_iff_ne]
    exact ⟨fun equal => absent 'e' (by decide) (equal ▸ member),
      fun equal => absent 'E' (by decide) (equal ▸ member)⟩
  have zero (bound : Nat) :
      max (-(bound + 400 : Int)) (min (bound + 400) 0) = 0 := by omega
  have notShort := unnamed (by decide : 'n' ∈ "inf".toList) (by decide)
  have notLong := unnamed (by decide : 'n' ∈ "infinity".toList) (by decide)
  have isNumber := unnamed (by decide : 'n' ∈ "nan".toList) (by decide)
  simp only [float?, String.toList_ofList, unsigned, lower, noPower, scaledFloat?,
    zero, Int.add_zero, notShort, notLong, isNumber, decide_false, Bool.or_self,
    Bool.false_eq_true, if_false]
  rfl

/-! ## Laying out -/

theorem digitsValue_replicate_append (count : Nat) (row : List Char) :
    digitsValue (List.replicate count '0' ++ row) = digitsValue row := by
  simp [digitsValue, Nat.ofDigitChars_append, Nat.ofDigitChars_replicate_zero]

theorem writes_insertPoint {row : List Char}
    (digits : ∀ character ∈ row, character.isDigit) (places : Nat) :
    Writes (insertPoint row places) (nearest ⟨digitsValue row, -places⟩) := by
  let padded := List.replicate (places + 1 - row.length) '0' ++ row
  let whole := padded.take (padded.length - places)
  let fraction := padded.drop (padded.length - places)
  have longer : places < padded.length := by
    simp only [padded, List.length_append, List.length_replicate]
    omega
  have paddedDigits : ∀ character ∈ padded, character.isDigit := by
    intro character member
    rcases List.mem_append.mp member with zero | member
    · rw [List.eq_of_mem_replicate zero]
      decide
    · exact digits _ member
  have wholeDigits : ∀ character ∈ whole, character.isDigit :=
    fun _ member => paddedDigits _ (List.mem_of_mem_take member)
  have fractionDigits : ∀ character ∈ fraction, character.isDigit :=
    fun _ member => paddedDigits _ (List.mem_of_mem_drop member)
  have nonempty : whole ≠ [] := by
    apply List.ne_nil_of_length_pos
    simp only [whole, List.length_take]
    omega
  have count : fraction.length = places := by
    simp only [fraction, List.length_drop]
    omega
  have joined : digitsValue (whole ++ fraction) = digitsValue row := by
    rw [List.take_append_drop, digitsValue_replicate_append]
  refine ⟨List.append_ne_nil_of_left_ne_nil nonempty _, ?_, _,
    ofDigits?_point nonempty wholeDigits fractionDigits, ?_⟩
  · intro character member
    rcases List.mem_append.mp member with member | member
    · exact .inl (wholeDigits _ member)
    · rcases List.mem_cons.mp member with point | member
      · exact .inr point
      · exact .inl (fractionDigits _ member)
  · rw [joined, count]

theorem writes_positional (numeral : Numeral) :
    Writes numeral.positional numeral.nearest := by
  rcases numeral with ⟨digits, exponent⟩
  have areDigits (number : Nat) :
      ∀ character ∈ Nat.toDigits 10 number, character.isDigit :=
    fun _ => Nat.isDigit_of_mem_toDigits (by decide) (by decide)
  rw [positional]
  split
  · next whole =>
      refine ⟨Nat.toDigits_ne_nil, fun _ member => .inl (areDigits _ _ member), _,
        ofDigits?_whole Nat.toDigits_ne_nil (areDigits _), ?_⟩
      have below : (-exponent).toNat = 0 := by
        change 0 ≤ exponent at whole
        omega
      simp [nearest, Decimal.scaled, digitsValue, Nat.ofDigitChars_ten_toDigits, below]
  · next small =>
      have writes := writes_insertPoint (areDigits digits) (-exponent).toNat
      have places : -((-exponent).toNat : Int) = exponent := by
        change ¬ 0 ≤ exponent at small
        omega
      rwa [places, digitsValue, Nat.ofDigitChars_ten_toDigits] at writes

theorem writes_zero : Writes ['0'] 0 :=
  ⟨by decide, by simp, ⟨0, 0⟩, by decide +kernel, by
    simp [nearest, Decimal.scaled, Decimal.nearest]⟩

end Numeral

/-! ## Doubles -/

/-- A finite double is written as a row that reads back as its magnitude, with a minus
in front if its sign is set. -/
theorem exists_row_of_floatText {value : Float} (finite : value.isFinite = true) :
    ∃ row, Numeral.Writes row (Decimal.magnitude value) ∧
      (floatText value).toList =
        if Decimal.isNegative value then '-' :: row else row := by
  have inside := Decimal.magnitude_lt_infinityBits finite
  have signed (unsigned : String) :
      (if Decimal.isNegative value then "-" ++ unsigned else unsigned).toList =
        if Decimal.isNegative value then '-' :: unsigned.toList else unsigned.toList := by
    split <;> simp
  simp only [floatText, FloatLayout.write, FloatLayout.plain,
    Decimal.isNaN_of_isFinite finite, Bool.false_eq_true, if_false, if_neg inside.ne]
  by_cases zero : Decimal.magnitude value = 0
  · rw [if_pos zero]
    refine ⟨"0".toList, ?_, signed "0"⟩
    rw [zero]
    exact Numeral.writes_zero
  · rw [if_neg zero]
    have nearest := Decimal.nearest_shortest .upper (Nat.pos_of_ne_zero zero) inside
    have writes :=
      Numeral.writes_positional (Decimal.shortest .upper (Decimal.magnitude value))
    rw [nearest] at writes
    rw [signed, String.toList_ofList]
    exact ⟨_, writes, rfl⟩

end LSystems
