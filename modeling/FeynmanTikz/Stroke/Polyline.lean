/-
The polyline drawn for an edge.

* `plainPath`: the chord, or a sampled curve,
* `Decoration.straight` and `Decoration.curve`: a wave along a chord or a curve,
* `Edge.polyline` chooses among them by the stroke kind,
* `dashPattern`: lengths of dashes and gaps.

Design notes.
* All polylines but a chord are pinned: their end vertices are set to the ends of the edge,
  whatever the wave does there.
* A curve is decorated by arc length: the phase of the wave at a sample is the length of the
  sampled polyline up to it.  Where the tangent vanishes the chord gives the direction.
* An edge that is too short to be decorated is drawn as its chord.
* Ends that are no rows of coordinates have a chord too, and a curve without decoration.
-/
import FeynmanTikz.Settings
import FeynmanTikz.Stroke.Position

namespace FeynmanTikz

variable {R : Type} [Arithmetic R] [Arrays R]

/-- The function that moves a decorated stroke across its edge. -/
inductive Wave where
  | sine
  | cosine
deriving DecidableEq

def Wave.apply (w : Wave) (x : R) : R :=
  match w with
  | sine => Arrays.sin x
  | cosine => Arrays.cos x

def Wave.value : Wave → Value R
  | sine => .symbol "<ufunc 'sin'>"
  | cosine => .symbol "<ufunc 'cos'>"

/-- Dashes and gaps of a stroke kind that has them, or nothing. -/
def dashPattern (strokeKind : Value R) : Value R :=
  match strokeKind with
  | .text "dashed" => .tuple [realNumber 8, realNumber 6]
  | .text "dotted" => .tuple [realNumber 2, realNumber 6]
  | _ => .none

def recordDashPattern (strokeKind : Value R) : Logged R (Value R) :=
  recorded "dash_pattern" [strokeKind] (fun d => d) (pure (dashPattern strokeKind))

def recordPinEnds (p : Positions R) (start finish : Value R) : Logged R (Positions R) :=
  recorded "_pin_ends" [p.grid, start, finish] Positions.grid (p.pinned start finish)

def recordChord (start finish : Value R) : Logged R (Positions R) :=
  recorded "_chord" [start, finish] Positions.grid (Positions.chord start finish)

/-- One more than a number of steps, which must be whole. -/
def sampleCount (steps : Value R) : Except (Fault R) Int := do
  match ← (← Value.add steps (.int 1)).expectNumber with
  | .int n => return n
  | .real _ => .error .wrongType

/-- The chord, or the curve at equally spaced parameters, of which there are at least
three. -/
def plainPath (start finish : Value R) (control : Value R := .none)
    (samples : Value R := Strokes.standard.plainSamples) : Logged R (Positions R) :=
  if control.isSome then do
    let count ← sampleCount (← Value.max (.int 2) samples)
    let ts ← evenlySpaced (Arithmetic.ofInt 1 : R) count
    let points ← Cubic.sample ⟨start, control, control, finish⟩ ts
    recordPinEnds points start finish
  else recordChord start finish

/-- Steps along a straight edge: one per step length, and no fewer than the least number. -/
def stepCount (minSteps step : Value R) (length : R) : Except (Fault R) (Value R) := do
  let n ← liftArithmetic (Scalar.floorDiv length (← step.expectNumber))
  Value.max minSteps (.int (← liftArithmetic (Scalar.truncate n)))

/-- Phase per unit of length. -/
def waveNumber (wavelength : Value R) : Except (Fault R) R := do
  let turn : Computed R := 2 * Computed.of (.real Arithmetic.pi)
  (← (turn / ↑wavelength).result).expectReal

/-- The number by which all cells of an array are multiplied.  A text is not even tried. -/
def factor (v : Value R) : Except (Fault R) R :=
  match v with
  | .text _ => .error .notNumeric
  | v => v.expectReal

/-- The measures of a decoration as numbers: across the edge and along it. -/
def Decoration.amplitudes (d : Decoration R) : Except (Fault R) (R × R) := do
  let across ← factor d.amplitude
  let along ← factor (← Value.mul d.tangentialRatio d.amplitude)
  return (across, along)

/-- Whether a length is less than a bound. -/
def isShort (length : R) (bound : Value R) : Except (Fault R) Bool := do
  return (Scalar.real length).lt (← bound.expectNumber)

/-- The coordinates of a position as numbers of type `R`. -/
def coordinates (v : Value R) : Except (Fault R) (R × R) := do
  let x ← v.x.result
  let x ← x.expectReal
  let y ← v.y.result
  return (x, ← y.expectReal)

/-- A wave along the chord. -/
def Decoration.straight (d : Decoration R) (wave : Wave) (minLength start finish : Value R) :
    Logged R (Positions R) := do
  let direction ← Vec.sub finish start
  let length ← Vec.norm direction
  if ← isShort length minLength then
    recordChord start finish
  else
    let (ux, uy) ← coordinates (← Vec.dividedBy direction (.real length))
    let steps ← stepCount d.minSteps d.step length
    let k ← waveNumber d.wavelength
    let positions ← evenlySpaced length (← sampleCount steps)
    let (across, along) ← d.amplitudes
    let (x0, y0) ← coordinates start
    let points := positions.map fun s =>
      let off := across * wave.apply (k * s)
      let reach := s + along * Arrays.sin (k * s)
      [x0 + ux * reach + -uy * off, y0 + uy * reach + ux * off]
    recordPinEnds (.rows 2 points) start finish

def Decoration.recordStraight (d : Decoration R) (wave : Wave)
    (minLength start finish : Value R) : Logged R (Positions R) :=
  .around
    ⟨"_decorate_straight", [start, finish],
     [("amplitude", d.amplitude), ("wavelength", d.wavelength), ("step", d.step),
      ("min_steps", d.minSteps), ("min_length", minLength), ("normal_wave", wave.value),
      ("tangential_ratio", d.tangentialRatio)]⟩
    Positions.grid (d.straight wave minLength start finish)

/-- The direction of a tangent, or `chord` where it vanishes. -/
def unitTangent (chord tangent : R × R) : R × R :=
  let length := Arrays.hypot tangent.1 tangent.2
  if Arithmetic.le length Vec.tinyLength then chord
  else (tangent.1 / length, tangent.2 / length)

/-- A wave along a curve. -/
def Decoration.curve (d : Decoration R) (wave : Wave)
    (minLength start control finish : Value R) : Logged R (Positions R) := do
  let ts ← evenlySpaced (Arithmetic.ofInt 1 : R) (← sampleCount d.curveSamples)
  let c : Cubic R := ⟨start, control, control, finish⟩
  let base ← c.sample ts
  let lengths ← base.segments
  if ← isShort (Arrays.total lengths) minLength then
    recordChord start finish
  else
    let tangents ← c.sampleTangents ts
    tangents.expectCoordinate 1
    let chord ← Vec.normalize (← Vec.sub finish start)
    let chord ← coordinates chord
    let tangents ← (fitting tangents.pairs? : Except (Fault R) _)
    let base ← (fitting base.pairs? : Except (Fault R) _)
    let k ← waveNumber d.wavelength
    let (across, lengthwise) ← d.amplitudes
    let points := (base.zip ((Path.arcLengths lengths).zip tangents)).map fun (b, s, tangent) =>
      let u := unitTangent chord tangent
      let off := across * wave.apply (k * s)
      let shift := lengthwise * Arrays.sin (k * s)
      [b.1 + -u.2 * off + u.1 * shift, b.2 + u.1 * off + u.2 * shift]
    recordPinEnds (.rows 2 points) start finish

def Decoration.recordCurve (d : Decoration R) (wave : Wave)
    (minLength start control finish : Value R) : Logged R (Positions R) :=
  .around
    ⟨"_decorate_curve", [start, control, finish],
     [("amplitude", d.amplitude), ("wavelength", d.wavelength), ("samples", d.curveSamples),
      ("min_length", minLength), ("normal_wave", wave.value),
      ("tangential_ratio", d.tangentialRatio)]⟩
    Positions.grid (d.curve wave minLength start control finish)

/-- A photon on a straight edge. -/
def wavyStraight (s : Given R (Strokes R)) (start finish : Value R) : Logged R (Positions R) := do
  let s ← s.settings
  s.wavy.recordStraight .sine s.minDecoratedLength start finish

/-- A gluon on a straight edge. -/
def springStraight (s : Given R (Strokes R)) (start finish : Value R) : Logged R (Positions R) := do
  let s ← s.settings
  s.spring.recordStraight .cosine s.minDecoratedLength start finish

/-- A photon on a curve. -/
def wavyCurve (s : Given R (Strokes R)) (start control finish : Value R) :
    Logged R (Positions R) := do
  let s ← s.settings
  s.wavy.recordCurve .sine s.minDecoratedLength start control finish

/-- A gluon on a curve. -/
def springCurve (s : Given R (Strokes R)) (start control finish : Value R) :
    Logged R (Positions R) := do
  let s ← s.settings
  s.spring.recordCurve .cosine s.minDecoratedLength start control finish

/-- The polyline of a curve. -/
def Edge.curvedPolyline (e : Edge R) (strokeKind : Value R) (s : Given R (Strokes R)) :
    Logged R (Positions R) :=
  let arguments := [e.start, e.control, e.finish, s.value]
  match strokeKind with
  | .text "wavy" =>
    recorded "wavy_curve" arguments Positions.grid (wavyCurve s e.start e.control e.finish)
  | .text "spring" =>
    recorded "spring_curve" arguments Positions.grid (springCurve s e.start e.control e.finish)
  | _ => do
    let s ← s.settings
    .around ⟨"plain_path", [e.start, e.finish, e.control], [("samples", s.plainSamples)]⟩
      Positions.grid (plainPath e.start e.finish e.control s.plainSamples)

/-- The polyline of a straight edge. -/
def Edge.straightPolyline (e : Edge R) (strokeKind : Value R) (s : Given R (Strokes R)) :
    Logged R (Positions R) :=
  let ends := [e.start, e.finish]
  match strokeKind with
  | .text "wavy" =>
    recorded "wavy_straight" (ends ++ [s.value]) Positions.grid (wavyStraight s e.start e.finish)
  | .text "spring" =>
    recorded "spring_straight" (ends ++ [s.value]) Positions.grid (springStraight s e.start e.finish)
  | _ => recorded "plain_path" ends Positions.grid (plainPath e.start e.finish)

/-- The polyline drawn for an edge. -/
def Edge.polyline (e : Edge R) (s : Given R (Strokes R)) : Logged R (Positions R) := do
  let style ← e.drawn
  if ← e.recordIsCurve then e.curvedPolyline style.strokeKind s
  else e.straightPolyline style.strokeKind s

def Edge.recordPolyline (e : Edge R) (s : Given R (Strokes R)) : Logged R (Positions R) :=
  recorded "build_polyline" [e.value, s.value] Positions.grid (e.polyline s)

/-- The polyline of what should be an edge. -/
def polylineOn (v : Value R) (s : Given R (Strokes R)) : Logged R (Positions R) :=
  match edge? v with
  | some e => e.polyline s
  | none => Logged.fail .missingField

def recordPolylineOn (v : Value R) (s : Given R (Strokes R)) : Logged R (Positions R) :=
  recorded "build_polyline" [v, s.value] Positions.grid (polylineOn v s)

end FeynmanTikz
