/-
Settings of the text format and of the strokes.

* `Codec R`: constants of the text format (scale, decimals, floors, names),
* `Decoration R`: the measures of one decorated stroke,
* `Strokes R`: sampling and decoration of all strokes, and the sizes of markers,
* `Given R σ`: settings of type `σ` as they are handed in, which may be no settings at all.

The standard settings are the ones every operation uses unless it is given others.

Design notes.
* Settings come from outside and are not checked.  A setting that is not what it should be is a
  fault of the operation that first needs it.
* What is no settings has none of them.  An operation that never asks for one does not notice.
-/
import FeynmanTikz.Value.Access

namespace FeynmanTikz

/-- The number `m · 10 ^ e` as a value. -/
def decimal {R : Type} [Arithmetic R] (m : Nat) (e : Int) : Value R :=
  .number (.real (Arithmetic.ofDecimal m e))

/-- The number `n.0`. -/
def whole {R : Type} [Arithmetic R] (n : Nat) : Value R := decimal n 0

/-- Settings as they are handed in. -/
structure Given (R σ : Type) where
  /-- What has been handed in. -/
  value : Value R
  /-- The settings, or the fault of asking for one of them. -/
  settings : Except (Fault R) σ

/-- Constants of the text format. -/
structure Codec (R : Type) where
  /-- Editor units in one unit of the text. -/
  scale : Value R
  /-- Decimals of every number in the text. -/
  precision : Value R
  /-- Smallest radius of a point, in text units. -/
  minPointRadius : Value R
  /-- Smallest line width, in points. -/
  minLineWidth : Value R
  /-- The key of a comment that carries an arrow style. -/
  arrowKey : Value R
  /-- The fill of an ellipse. -/
  ellipseFill : Value R
  /-- The name of the arrow tip. -/
  tipName : Value R
  /-- The stroke width of a statement that gives none. -/
  defaultStrokeWidth : Value R

namespace Codec

variable {R : Type} [Arithmetic R]

def standard : Codec R where
  scale := whole 20
  precision := .int 2
  minPointRadius := decimal 4 (-2)
  minLineWidth := decimal 4 (-1)
  arrowKey := .text "edge-arrow"
  ellipseFill := .text "gray!20"
  tipName := .text "Stealth"
  defaultStrokeWidth := whole 2

def fields : List (Field R (Codec R)) :=
  [⟨"scale", (·.scale), fun v c => { c with scale := v }⟩,
   ⟨"precision", (·.precision), fun v c => { c with precision := v }⟩,
   ⟨"min_point_radius", (·.minPointRadius), fun v c => { c with minPointRadius := v }⟩,
   ⟨"min_line_width_pt", (·.minLineWidth), fun v c => { c with minLineWidth := v }⟩,
   ⟨"arrow_comment_key", (·.arrowKey), fun v c => { c with arrowKey := v }⟩,
   ⟨"ellipse_fill", (·.ellipseFill), fun v c => { c with ellipseFill := v }⟩,
   ⟨"tip_name", (·.tipName), fun v c => { c with tipName := v }⟩,
   ⟨"default_stroke_width", (·.defaultStrokeWidth),
     fun v c => { c with defaultStrokeWidth := v }⟩]

def value (c : Codec R) : Value R := recordOf "CodecConfig" fields c

/-- The standard settings with some fields changed. -/
def ofChanges (changes : List (String × Value R)) : Except (Fault R) (Codec R) :=
  withFields fields standard changes

def given (c : Codec R) : Given R (Codec R) := ⟨c.value, .ok c⟩

instance : Coe (Codec R) (Given R (Codec R)) := ⟨given⟩

omit [Arithmetic R] in
@[simp] theorem settings_given (c : Codec R) : c.given.settings = .ok c := rfl

/-- Anything, taken for settings. -/
def ofValue (v : Value R) : Given R (Codec R) := ⟨v, ofRecord "CodecConfig" fields standard v⟩

/-- What is handed in, or `default` if that is as good as nothing. -/
def orElse (default : Given R (Codec R)) (v : Value R) : Given R (Codec R) :=
  if v.isTruthy then ofValue v else default

end Codec

/-- The measures of a decorated stroke. -/
structure Decoration (R : Type) where
  amplitude : Value R
  wavelength : Value R
  /-- Distance between samples on a straight edge. -/
  step : Value R
  /-- Least number of steps on a straight edge. -/
  minSteps : Value R
  /-- Number of steps on a curve. -/
  curveSamples : Value R
  /-- Share of the amplitude that is also spent along the edge. -/
  tangentialRatio : Value R

/-- Sampling and decoration of strokes, and the sizes of markers. -/
structure Strokes (R : Type) where
  wavy : Decoration R
  spring : Decoration R
  plainSamples : Value R
  /-- An edge shorter than this is drawn plain. -/
  minDecoratedLength : Value R
  arrowSize : Value R
  /-- Distance from the tip to the base of an arrowhead, in sizes. -/
  arrowSetback : Value R
  /-- Half the base of an arrowhead, in sizes. -/
  arrowHalfWidth : Value R
  crossHalfLength : Value R

namespace Strokes

variable {R : Type} [Arithmetic R]

def standard : Strokes R where
  wavy :=
    { amplitude := decimal 26 (-1)
      wavelength := whole 15
      step := decimal 15 (-1)
      minSteps := .int 26
      curveSamples := .int 96
      tangentialRatio := whole 0 }
  spring :=
    { amplitude := whole 5
      wavelength := whole 7
      step := decimal 9 (-1)
      minSteps := .int 42
      curveSamples := .int 140
      tangentialRatio := decimal 25 (-2) }
  plainSamples := .int 64
  minDecoratedLength := whole 2
  arrowSize := whole 10
  arrowSetback := decimal 11 (-1)
  arrowHalfWidth := decimal 45 (-2)
  crossHalfLength := whole 6

/-- A wavy stroke moves across the edge only, so its tangential share is no field. -/
def fields : List (Field R (Strokes R)) :=
  [⟨"wavy_amplitude", (·.wavy.amplitude), fun v s => { s with wavy.amplitude := v }⟩,
   ⟨"wavy_wavelength", (·.wavy.wavelength), fun v s => { s with wavy.wavelength := v }⟩,
   ⟨"wavy_step", (·.wavy.step), fun v s => { s with wavy.step := v }⟩,
   ⟨"wavy_min_steps", (·.wavy.minSteps), fun v s => { s with wavy.minSteps := v }⟩,
   ⟨"wavy_curve_samples", (·.wavy.curveSamples), fun v s => { s with wavy.curveSamples := v }⟩,
   ⟨"spring_amplitude", (·.spring.amplitude), fun v s => { s with spring.amplitude := v }⟩,
   ⟨"spring_wavelength", (·.spring.wavelength), fun v s => { s with spring.wavelength := v }⟩,
   ⟨"spring_step", (·.spring.step), fun v s => { s with spring.step := v }⟩,
   ⟨"spring_min_steps", (·.spring.minSteps), fun v s => { s with spring.minSteps := v }⟩,
   ⟨"spring_curve_samples", (·.spring.curveSamples),
     fun v s => { s with spring.curveSamples := v }⟩,
   ⟨"spring_tangential_ratio", (·.spring.tangentialRatio),
     fun v s => { s with spring.tangentialRatio := v }⟩,
   ⟨"plain_curve_samples", (·.plainSamples), fun v s => { s with plainSamples := v }⟩,
   ⟨"min_decorated_length", (·.minDecoratedLength),
     fun v s => { s with minDecoratedLength := v }⟩,
   ⟨"arrow_size", (·.arrowSize), fun v s => { s with arrowSize := v }⟩,
   ⟨"arrow_setback", (·.arrowSetback), fun v s => { s with arrowSetback := v }⟩,
   ⟨"arrow_half_width", (·.arrowHalfWidth), fun v s => { s with arrowHalfWidth := v }⟩,
   ⟨"cross_half_length", (·.crossHalfLength), fun v s => { s with crossHalfLength := v }⟩]

def value (s : Strokes R) : Value R := recordOf "StrokeConfig" fields s

/-- The standard settings with some fields changed. -/
def ofChanges (changes : List (String × Value R)) : Except (Fault R) (Strokes R) :=
  withFields fields standard changes

def given (s : Strokes R) : Given R (Strokes R) := ⟨s.value, .ok s⟩

instance : Coe (Strokes R) (Given R (Strokes R)) := ⟨given⟩

omit [Arithmetic R] in
@[simp] theorem settings_given (s : Strokes R) : s.given.settings = .ok s := rfl

/-- Anything, taken for settings. -/
def ofValue (v : Value R) : Given R (Strokes R) :=
  ⟨v, ofRecord "StrokeConfig" fields standard v⟩

/-- What is handed in, or `default` if that is as good as nothing. -/
def orElse (default : Given R (Strokes R)) (v : Value R) : Given R (Strokes R) :=
  if v.isTruthy then ofValue v else default

end Strokes

end FeynmanTikz
