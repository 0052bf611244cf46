/-
What the statement of an element says.

A statement names the kind of its element and gives the parts of the element as they are printed:
positions, lengths and the options of a style.

* `Edge.Course`: the path of a straight edge, or that of a curve with its control point,
* `Diagram.States`: a statement is one for an element of a diagram,
* `Diagram.States.formatted`: the writer writes nothing else for it.

Design notes.
* A part is given by what it is printed as, whatever numeral that may be.  So nothing is asked of the
  numbers here, and a statement need not be one that can be read back.
-/
import FeynmanTikz.Proofs.Diagram.Identity
import FeynmanTikz.Proofs.Tikz.Measure

namespace FeynmanTikz

variable {R : Type} [Arithmetic R]

/-- The path of an edge, joined by dashes if it is straight. -/
inductive Edge.Course (e : Edge R) : String → Prop where
  | chord {start finish : String} (kind : e.kind = .text "straight")
      (hstart : formatCoordinate standardCodec e.start = .ok start)
      (hfinish : formatCoordinate standardCodec e.finish = .ok finish) :
      Course e (start ++ " -- " ++ finish)
  | bow {start control finish : String} (kind : e.kind = .text "curve")
      (hstart : formatCoordinate standardCodec e.start = .ok start)
      (hcontrol : formatCoordinate standardCodec e.control = .ok control)
      (hfinish : formatCoordinate standardCodec e.finish = .ok finish) :
      Course e (start ++ " .. controls " ++ control ++ " .. " ++ finish)

/-- A statement is one for an element. -/
inductive Diagram.States (d : Diagram R) : Element R → String → Prop where
  | point {p : Point R} {position radius : String}
      (hposition : formatCoordinate standardCodec p.position = .ok position)
      (hradius : Measure.pointRadius.printed p.radius = .ok radius) :
      States d (.point p) ("\\fill " ++ position ++ " circle (" ++ radius ++ ");")
  | edge {e : Edge R} {style : Style R} {path options : String} (course : e.Course path)
      (drawn : e.drawn = .ok style) (hoptions : styleOptions standardCodec style = .ok options) :
      States d (.edge e)
        ("\\draw[" ++ options ++ "] " ++ path ++ ";" ++ arrowComment Codec.standard style.arrow)
  | ellipse {e : Ellipse R} {center rx ry color width : String}
      (hcenter : formatCoordinate standardCodec e.center = .ok center)
      (hrx : Measure.ellipseRadius.printed e.rx = .ok rx)
      (hry : Measure.ellipseRadius.printed e.ry = .ok ry) (hcolor : tikzColor e.color = .ok color)
      (hwidth : formatLineWidth standardCodec e.strokeWidth = .ok width) :
      States d (.ellipse e) ("\\draw[" ++ Value.commaSeparated
        ["fill=" ++ (Codec.standard : Codec R).ellipseFill.plain, "draw=" ++ color,
          "line width=" ++ width] ++
        "] " ++ center ++ " ellipse (" ++ rx ++ " and " ++ ry ++ ");")
  | label {l : Label R} {p : Value R} {position : String} (resolved : (d.resolve l).result = .ok p)
      (hposition : formatCoordinate standardCodec p = .ok position) :
      States d (.label l) ("\\node at " ++ position ++ " " ++
        inBraces ("$" ++ String.ofList (stripMath (textOf l.text)) ++ "$") ++ ";")

/-! ### The writer -/

/-- What describes a style describes no element. -/
theorem styleOptionsOf_eq (codec : Given R (Codec R)) {v : Value R} {style : Style R}
    (h : Style.ofValue v = .ok style) : styleOptionsOf codec v = styleOptions codec style := by
  have hname : ∃ fields, v = .record "EdgeStyle" fields := by
    unfold Style.ofValue ofRecord at h
    split at h
    · split at h
      · rename_i hn
        exact ⟨_, by rw [hn]⟩
      · cases h
    · cases h
  obtain ⟨fields, rfl⟩ := hname
  show (Style.ofValue (.record "EdgeStyle" fields) >>= _) = _
  rw [h]
  rfl

theorem Edge.Course.format {e : Edge R} {path : String} (h : e.Course path) :
    formatPath standardCodec e = .ok path := by
  unfold formatPath
  cases h with
  | chord kind hstart hfinish =>
    have hc : e.isCurve = false := by rw [Edge.isCurve, kind]; rfl
    rw [hstart, hfinish, ok_bind, ok_bind, if_neg (by rw [hc]; decide)]
    rfl
  | bow kind hstart hcontrol hfinish =>
    have hsome : e.control ≠ .none := by
      intro hnone
      rw [hnone] at hcontrol
      cases hcontrol
    have hc : e.isCurve = true := by
      rw [Edge.isCurve, kind]
      cases hv : e.control with
      | none => exact absurd hv hsome
      | _ => rfl
    rw [hstart, hfinish, ok_bind, ok_bind, if_pos hc, hcontrol]
    rfl

/-- The statement the writer writes for an element of one of the collections. -/
def Diagram.formatted (d : Diagram R) : Shelf → Element R → Except (Fault R) String
  | .points, e => do formatPoint standardCodec (← e.asPoint)
  | .edges, e => do formatEdge standardCodec (← e.asEdge)
  | .ellipses, e => do formatEllipse standardCodec (← e.asEllipse)
  | .labels, e => (do d.formatLabel standardCodec (← e.asLabel) : Logged R String).result

/-- The writer writes the statement of an element that is in the collection for its kind. -/
theorem Diagram.States.formatted {d : Diagram R} {e : Element R} {t : String} (h : d.States e t)
    {s : Shelf} (hs : s.admits e = true) : d.formatted s e = .ok t := by
  cases h with
  | @point p position radius hposition hradius =>
    cases s <;> cases hs
    -- The radius is printed in the same steps as a measure.
    obtain ⟨floor, hfloor, hradius⟩ := bind_eq_ok.1 hradius
    obtain ⟨scaled, hscaled, hfloor⟩ := bind_eq_ok.1 hfloor
    show formatPoint standardCodec p = _
    unfold formatPoint
    rw [Codec.settings_given, ok_bind, hscaled, ok_bind, hfloor, ok_bind, hposition, ok_bind, hradius]
    rfl
  | @edge e style path options course drawn hoptions =>
    cases s <;> cases hs
    show formatEdge standardCodec e = _
    unfold formatEdge
    rw [course.format, ok_bind, styleOptionsOf_eq _ drawn, hoptions, ok_bind, drawn, ok_bind,
      Codec.settings_given]
    rfl
  | @ellipse e center rx ry color width hcenter hrx hry hcolor hwidth =>
    cases s <;> cases hs
    show formatEllipse standardCodec e = _
    unfold formatEllipse
    rw [Codec.settings_given, ok_bind, hcolor, ok_bind, hwidth, ok_bind, formatLength_eq, hrx, ok_bind,
      formatLength_eq, hry, ok_bind, hcenter, ok_bind]
    rfl
  | @label l p position resolved hposition =>
    cases s <;> cases hs
    show (d.formatLabel standardCodec l).result = _
    unfold Diagram.formatLabel
    rw [Logged.result_bind, resolved, ok_bind]
    show formatLabelAt standardCodec p l = _
    unfold formatLabelAt
    rw [hposition, ok_bind]
    rfl

end FeynmanTikz
