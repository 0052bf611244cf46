/-
Units of the text format.

One unit of the text is `scale` editor units, and the second coordinate of the text grows
upwards, that of the editor downwards.  The two conversions undo each other in exact
arithmetic, unless the scale is zero.
-/
import FeynmanTikz.Geometry.Vec
import FeynmanTikz.Settings

namespace FeynmanTikz

variable {R : Type} [Arithmetic R]

/-- From editor space to the text. -/
def toTextUnits (codec : Given R (Codec R)) (p : Value R) : Except (Fault R) (Value R) := do
  let codec ← codec.settings
  Vec.ofFormulas (p.x / ↑codec.scale) (-p.y / ↑codec.scale)

/-- From the text to editor space. -/
def toEditorSpace (codec : Given R (Codec R)) (p : Value R) : Except (Fault R) (Value R) := do
  let codec ← codec.settings
  Vec.ofFormulas (p.x * ↑codec.scale) (-p.y * ↑codec.scale)

end FeynmanTikz
