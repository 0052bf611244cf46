/-
Doubles on their way through the text.

Doubles are an arithmetic that rounds.  So they have what is asked of an arithmetic, and the numerals of
valid doubles are fixed once they have been printed.

* `readsBack_double` and `printsAgain_double`: what is asked of the arithmetic,
* `Double.numeral_fixed`: up to the bound of a coordinate or a length, a double is read back from its
  numeral within the same bounds, and is printed as the same numeral.
-/
import FeynmanTikz.Proofs.Number.Doubles
import FeynmanTikz.Proofs.Tikz.RoundedMeasure

namespace FeynmanTikz

theorem readsBack_double : ReadsBack Float := readsBack_of_rounds

theorem printsAgain_double : PrintsAgain Float := printsAgain_of_rounds

namespace Double

/-- From the numeral of a double that is not too large a double on the same side of zero is read back, which
is not too large either and is printed as the same numeral.  A coordinate and a radius of an ellipse are
kept up to half a hundredth of the text, and a radius of at least one stays one of at least one.  The
radius of a point and the width of a line stay positive. -/
theorem numeral_fixed {x : Float} {n : Bool} {q : Rat} (hx : Stands x n q) (hq : q ≤ 1000000000) :
    (∀ m, m = Measure.abscissa ∨ m = Measure.ordinate →
      ∃ y r, m.Settles x y ∧ Stands y n r ∧ r ≤ 1000000000 ∧ |r - q| ≤ 1 / 10 + 1 / 1000000) ∧
    (n = false → 1 ≤ q →
      ∃ y r, Measure.ellipseRadius.Settles x y ∧ Stands y false r ∧ 1 ≤ r ∧ r ≤ 1000000000 ∧
        |r - q| ≤ 1 / 10 + 1 / 1000000) ∧
    (n = false → 0 < q → ∀ m, m = Measure.pointRadius ∨ m = Measure.lineWidth →
      ∃ y r, m.Settles x y ∧ Stands y false r ∧ 0 < r ∧ r ≤ 1000000000) := by
  have htwenty : (20 : Rat) / 200 + 1 / 1000000 = 1 / 10 + 1 / 1000000 := by norm_num
  rw [← htwenty]
  refine ⟨fun m hm => ?_, fun hn hone => ?_, fun hn hpos m hm => ?_⟩
  · have hv : m.Valid n q := by
      rcases hm with rfl | rfl
      · exact ⟨by rintro ⟨⟩, hx.nonneg, hq, by rintro ⟨⟩, by rintro ⟨⟩⟩
      · exact ⟨by rintro ⟨⟩, hx.nonneg, hq, by rintro ⟨⟩, by rintro ⟨⟩⟩
    obtain ⟨y, r, hsettles, hy, hr, hnear⟩ := Measure.exists_settled hx hv
    refine ⟨y, r, hsettles, hy, hr.le_max, ?_⟩
    rcases hm with rfl | rfl
    · exact hnear rfl
    · exact hnear rfl
  · subst hn
    have hv : Measure.ellipseRadius.Valid false q :=
      ⟨fun _ => rfl, hx.nonneg, hq, fun _ => lt_of_lt_of_le one_pos hone, fun _ => hone⟩
    obtain ⟨y, r, hsettles, hy, hr, hnear⟩ := Measure.exists_settled hx hv
    exact ⟨y, r, hsettles, hy, hr.one_le rfl, hr.le_max, hnear rfl⟩
  · subst hn
    have hs : m.isSigned = false := by rcases hm with rfl | rfl <;> rfl
    have hv : m.Valid false q :=
      ⟨fun _ => rfl, hx.nonneg, hq, fun _ => hpos, by rcases hm with rfl | rfl <;> rintro ⟨⟩⟩
    obtain ⟨y, r, hsettles, hy, hr, -⟩ := Measure.exists_settled hx hv
    exact ⟨y, r, hsettles, hy, hr.pos hs, hr.le_max⟩

/-- The largest number there is. -/
theorem numeral_fixed_largest :
    Stands (Arithmetic.ofInt 1000000000 : Float) false 1000000000 ∧
    (∀ m, m = Measure.abscissa ∨ m = Measure.ordinate →
      ∃ (y : Float) (r : Rat), m.Settles (Arithmetic.ofInt 1000000000) y ∧ Stands y false r ∧
        r ≤ 1000000000 ∧ |r - 1000000000| ≤ 1 / 10 + 1 / 1000000) ∧
    (∃ (y : Float) (r : Rat), Measure.ellipseRadius.Settles (Arithmetic.ofInt 1000000000) y ∧
      Stands y false r ∧ 1 ≤ r ∧ r ≤ 1000000000 ∧ |r - 1000000000| ≤ 1 / 10 + 1 / 1000000) ∧
    ∀ m, m = Measure.pointRadius ∨ m = Measure.lineWidth →
      ∃ (y : Float) (r : Rat), m.Settles (Arithmetic.ofInt 1000000000) y ∧ Stands y false r ∧ 0 < r ∧
        r ≤ 1000000000 := by
  have hx : Stands (Arithmetic.ofInt 1000000000 : Float) false 1000000000 := stands_ofInt (by norm_num)
  obtain ⟨hcoordinate, hradius, hlength⟩ := numeral_fixed hx le_rfl
  exact ⟨hx, hcoordinate, hradius rfl (by norm_num), hlength rfl (by norm_num)⟩

end Double

end FeynmanTikz
