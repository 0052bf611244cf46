/-
What may go wrong while statements are turned into elements.

Two things may: the options of a statement have no meaning, or an element is not valid.  Both are told
of the statement.  Nothing else goes wrong, since the positions and lengths of a statement are numbers
and its options and its comment are texts.

* `Fault.IsTold`: the faults that are told of a statement,
* `Element.IsReal`, `AllReal`: the measured parts of an element, or of all, are numbers of type `R`,
* `ends_checkPair` and its companions, `ends_check`: the check of an element of numbers has no other
  faults,
* `ends_read`, `ends_edgeStyle`: nor has reading options.
-/
import FeynmanTikz.Proofs.Diagram.Run
import FeynmanTikz.Proofs.Tikz.LineByLine

namespace FeynmanTikz

open Edit

variable {R : Type} [Arithmetic R]

/-- The faults that are told of a statement. -/
def Fault.IsTold (e : Fault R) : Prop := (∃ v, e = .invalid v) ∨ ∃ c, e = .refused c

omit [Arithmetic R] in
theorem Fault.IsTold.atStatement {e : Fault R} (h : e.IsTold) (p : Place R) :
    ∃ f, atStatement p e = .unreadable f ∧ f.place = some p := by
  rcases h with ⟨v, rfl⟩ | ⟨c, rfl⟩
  · exact ⟨_, rfl, rfl⟩
  · exact ⟨_, rfl, rfl⟩

/-! ### Checks of numbers -/

omit [Arithmetic R] in
theorem isTold_violation (s : Subject) (p : Problem R) :
    Fault.IsTold (.invalid (.element s p)) := .inl ⟨_, rfl⟩

omit [Arithmetic R] in
/-- A rule that is checked before the rest. -/
theorem ends_unless {c : Prop} [Decidable c] {s : Subject} {p : Problem R}
    {rest : Except (Fault R) Unit} (h : Ends Fault.IsTold (fun _ => True) rest) :
    Ends Fault.IsTold (fun _ => True) (if c then violation s p else rest) := by
  by_cases hc : c
  · rw [if_pos hc]
    exact isTold_violation s p
  · rw [if_neg hc]
    exact h

omit [Arithmetic R] in
theorem ends_unless_bind {c : Prop} [Decidable c] {s : Subject} {p : Problem R}
    {rest : Unit → Except (Fault R) Unit} (h : Ends Fault.IsTold (fun _ => True) (rest ())) :
    Ends Fault.IsTold (fun _ => True) (if c then violation s p >>= rest else rest ()) := by
  by_cases hc : c
  · rw [if_pos hc]
    exact isTold_violation s p
  · rw [if_neg hc]
    exact h

/-- Whether a number of type `R` is finite can always be told. -/
theorem ends_isFiniteNumber (x : R) :
    Ends Fault.IsTold (fun _ => True) (isFiniteNumber (.real x)) := trivial

theorem ends_checkCoordinate (s : Subject) (part : Part) (whole : Value R) (x : R) :
    Ends Fault.IsTold (fun _ => True) (checkCoordinate s part whole (.real x)) :=
  (ends_isFiniteNumber x).bind fun _ _ => ends_unless (ends_unless trivial)

theorem ends_checkPair (s : Subject) (part : Part) {v : Value R} (h : IsRealPair v) :
    Ends Fault.IsTold (fun _ => True) (checkPair s part v) := by
  obtain ⟨x, y, rfl⟩ := h
  exact (ends_checkCoordinate s part _ x).bind fun _ _ => ends_checkCoordinate s part _ y

theorem ends_checkLength (s : Subject) (part : Part) {v : Value R} (h : IsRealNumber v)
    {least : Scalar R → Except (Fault R) Unit}
    (hl : ∀ x, Ends Fault.IsTold (fun _ => True) (least x)) :
    Ends Fault.IsTold (fun _ => True) (checkLength s part v least) := by
  obtain ⟨x, rfl⟩ := h
  exact (ends_isFiniteNumber x).bind fun _ _ => ends_unless (ends_unless (hl _))

theorem ends_checkPositive (s : Subject) (part : Part) {v : Value R} (h : IsRealNumber v) :
    Ends Fault.IsTold (fun _ => True) (checkPositive s part v) :=
  ends_checkLength s part h fun _ => ends_unless trivial

theorem ends_checkRadius (s : Subject) (part : Part) {v : Value R} (h : IsRealNumber v) :
    Ends Fault.IsTold (fun _ => True) (checkRadius s part v) :=
  ends_checkLength s part h fun _ => ends_unless trivial

omit [Arithmetic R] in
theorem ends_checkColor (s : Subject) (v : Value R) :
    Ends Fault.IsTold (fun _ => True) (checkColor s v) := by
  have key (items : List (Value R)) : Ends Fault.IsTold (fun _ => True)
      (if items.length ≠ 3 then violation s (.notTriple v)
        else if items.all isComponent then Except.ok () else violation s (.badComponent v)) := by
    refine ends_unless ?_
    split
    · trivial
    · exact isTold_violation s _
  unfold checkColor
  split
  · exact key _
  · exact key _
  · exact isTold_violation s _

theorem ends_checkStyle (s : Subject) {style : Style R} (h : IsRealNumber style.strokeWidth) :
    Ends Fault.IsTold (fun _ => True) (style.check s) := by
  unfold Style.check
  refine ends_unless_bind <| ends_unless_bind ?_
  exact (ends_checkColor s _).bind fun _ _ => ends_checkPositive s _ h

theorem ends_checkEdge {e : Edge R} {style : Style R} (hs : IsRealPair e.start)
    (hf : IsRealPair e.finish) (hc : e.control = .none ∨ IsRealPair e.control)
    (hd : e.drawn = .ok style) (hw : IsRealNumber style.strokeWidth) :
    Ends Fault.IsTold (fun _ => True) e.check := by
  have hstyle : Ends Fault.IsTold (fun _ => True)
      (e.drawn >>= fun style => style.check (.edge e.id.plain)) := by
    rw [hd]
    exact ends_checkStyle _ hw
  unfold Edge.check
  refine ends_unless_bind ?_
  refine (ends_checkPair _ _ hs).bind fun _ _ => (ends_checkPair _ _ hf).bind fun _ _ => ?_
  split
  · split
    · exact isTold_violation _ _
    · rename_i hne
      have hp : IsRealPair e.control := hc.resolve_left hne
      exact (ends_checkPair _ _ hp).bind fun _ _ => hstyle
  · split
    · exact hstyle
    · exact isTold_violation _ _

omit [Arithmetic R] in
theorem ends_checkLabelText (s : Subject) (v : Value R) :
    Ends Fault.IsTold (fun _ => True) (checkLabelText s v) := by
  unfold checkLabelText
  split
  · exact ends_unless <| ends_unless <| ends_unless trivial
  · exact isTold_violation s _

/-! ### Elements of numbers -/

/-- The measured parts of an element are numbers of type `R`. -/
def Element.IsReal : Element R → Prop
  | .point p => IsRealPair p.position ∧ IsRealNumber p.radius
  | .edge e => IsRealPair e.start ∧ IsRealPair e.finish ∧ (e.control = .none ∨ IsRealPair e.control) ∧
      ∃ style, e.drawn = .ok style ∧ IsRealNumber style.strokeWidth
  | .ellipse e => IsRealPair e.center ∧ IsRealNumber e.rx ∧ IsRealNumber e.ry ∧
      IsRealNumber e.strokeWidth
  | .label l => IsRealPair l.position ∧ l.binding = .none

/-- The measured parts of all elements are numbers of type `R`. -/
def AllReal (d : Diagram R) : Prop := ∀ s, ∀ e ∈ (d.shelf s).values, e.IsReal

/-- The check of an element by itself.  A label is checked beside no edges. -/
def Element.check : Element R → Except (Fault R) Unit
  | .point p => p.check
  | .edge e => e.check
  | .ellipse e => e.check
  | .label l => l.check (.set [])

theorem Label.check_of_unbound {l : Label R} (h : l.binding = .none) (edges edges' : Value R) :
    l.check edges = l.check edges' := by
  unfold Label.check Label.bound?
  rw [h]
  rfl

/-- The check of an element of numbers has no faults but those that are told of a statement. -/
theorem ends_check {e : Element R} (h : e.IsReal) : Ends Fault.IsTold (fun _ => True) e.check := by
  cases e with
  | point p => exact (ends_checkPair _ _ h.1).bind fun _ _ => ends_checkPositive _ _ h.2
  | edge e =>
    obtain ⟨hs, hf, hc, style, hd, hw⟩ := h
    exact ends_checkEdge hs hf hc hd hw
  | ellipse e =>
    obtain ⟨hc, hx, hy, hw⟩ := h
    refine (ends_checkPair _ _ hc).bind fun _ _ => (ends_checkRadius _ _ hx).bind fun _ _ => ?_
    refine (ends_checkRadius _ _ hy).bind fun _ _ => (ends_checkColor _ _).bind fun _ _ => ?_
    exact ends_checkPositive _ _ hw
  | label l =>
    obtain ⟨hp, hb⟩ := h
    refine (ends_checkPair _ _ hp).bind fun _ _ => (ends_checkLabelText _ _).bind fun _ _ => ?_
    unfold Label.bound?
    rw [hb]
    trivial

/-! ### Options -/

def IsTuple (v : Value R) : Prop := ∃ items, v = .tuple items

/-- A colour or a width that an entry asks for can be used as one. -/
def Effect.IsReal : Effect R → Prop
  | .color c => IsTuple c
  | .width w => IsRealNumber w
  | _ => True

omit [Arithmetic R] in
theorem ends_readColor (t : List Char) : Ends Fault.IsTold
    (fun o : Option (Value R) => ∀ c ∈ o, IsTuple c) (readColor t) := by
  have hcomponent (ds : List Char) :
      Ends Fault.IsTold (fun _ => True) (component ds : Except (Fault R) (Value R)) := by
    unfold component
    split
    · exact .inr ⟨_, rfl⟩
    · trivial
  unfold readColor
  dsimp only
  split
  · refine (Ends.mapM fun ds _ => hcomponent ds).bind fun items _ => ?_
    rintro _ ⟨⟩
    exact ⟨items, rfl⟩
  split
  · rintro _ ⟨⟩
    exact ⟨_, rfl⟩
  · rintro _ ⟨⟩

theorem ends_readWidth (t : List Char) :
    Ends Fault.IsTold IsRealNumber (readWidth t : Except (Fault R) (Value R)) := by
  unfold readWidth
  split
  · exact .inr ⟨_, rfl⟩
  split
  · dsimp only
    split
    · exact ⟨_, rfl⟩
    · exact .inr ⟨_, rfl⟩
  · exact .inr ⟨_, rfl⟩

theorem ends_readSetting (entry key value : List Char) :
    Ends Fault.IsTold Effect.IsReal (readSetting entry key value : Logged R (Effect R)).result := by
  unfold readSetting
  dsimp only
  split
  · rw [Logged.result_bind]
    refine (ends_readColor _).bind fun o ho => ?_
    cases o with
    | some c => exact ho c rfl
    | none => trivial
  split
  · rw [Logged.result_bind]
    exact (ends_readWidth _).bind fun w hw => hw
  split
  · split
    · trivial
    · split
      · trivial
      · trivial
  · trivial

omit [Arithmetic R] in
theorem ends_readFlag (entry : List Char) :
    Ends Fault.IsTold Effect.IsReal (readFlag entry : Logged R (Effect R)).result := by
  unfold readFlag
  dsimp only
  split
  · trivial
  split
  · trivial
  split
  · trivial
  · split
    · trivial
    · trivial

theorem ends_readEntry (entry : List Char) :
    Ends Fault.IsTold Effect.IsReal (readEntry entry : Logged R (Effect R)).result := by
  unfold readEntry
  split
  · exact ends_readSetting _ _ _
  · exact ends_readFlag _

theorem ends_readEntries : ∀ entries : List (List Char), Ends Fault.IsTold
    (fun es => ∀ e ∈ es, e.IsReal) (readEntries entries : Logged R (List (Effect R))).result
  | [] => by simp [readEntries, Ends]
  | entry :: entries => by
    rw [readEntries, Logged.result_bind]
    refine (ends_readEntry entry).bind fun e he => ?_
    rw [Logged.result_bind]
    refine (ends_readEntries entries).bind fun es hes => ?_
    exact List.forall_mem_cons.2 ⟨he, hes⟩

omit [Arithmetic R] in
/-- The last effect is one of those selected, or the default. -/
theorem lastEffect_of {α : Type} {P : α → Prop} {f : Effect R → Option α} {default : α}
    {es : List (Effect R)} (hd : P default) (h : ∀ e ∈ es, ∀ a, f e = some a → P a) :
    P (lastEffect f default es) := by
  unfold lastEffect
  cases hl : (es.filterMap f).getLast? with
  | none => exact hd
  | some a =>
    obtain ⟨e, he, hf⟩ := List.mem_filterMap.1 (List.mem_of_getLast? hl)
    exact h e he a hf

/-- The colour and the width among some options can be used as such. -/
structure DrawOptions.IsReal (o : DrawOptions R) : Prop where
  color : IsTuple o.color
  strokeWidth : IsRealNumber o.strokeWidth

omit [Arithmetic R] in
theorem DrawOptions.isReal_ofEffects {width : Value R} (hw : IsRealNumber width)
    {es : List (Effect R)} (h : ∀ e ∈ es, e.IsReal) : (ofEffects width es).IsReal := by
  constructor
  · refine lastEffect_of (P := IsTuple) ⟨_, rfl⟩ fun e he c hc => ?_
    cases e <;> cases hc
    exact h _ he
  · refine lastEffect_of (P := IsRealNumber) hw fun e he w hw => ?_
    cases e <;> cases hw
    exact h _ he

theorem ends_read {options : Value R} (ho : IsText options) : Ends Fault.IsTold DrawOptions.IsReal
    (DrawOptions.read options standardCodec).result := by
  obtain ⟨t, rfl⟩ := ho
  unfold DrawOptions.read
  simp only [Logged.result_bind]
  refine Ends.bind (P := fun c => c = Codec.standard) rfl fun c hc => ?_
  subst hc
  refine Ends.bind (P := fun _ => True) trivial fun entries _ => ?_
  refine (ends_readEntries entries).bind fun es hes => ?_
  exact DrawOptions.isReal_ofEffects ⟨_, rfl⟩ hes

/-- The arrow style of a text can always be told. -/
theorem exists_arrow_of_isText {c : Value R} (h : IsText c) :
    ∃ a, (arrowOfComment standardCodec c).result = .ok a := by
  have hb := isArrowComment_of_isText (c := Codec.standard) h
  obtain ⟨t, rfl⟩ := h
  have hchars : (liftM (Value.text t : Value R).characters : Logged R (List Char)).result =
      .ok t.toList := rfl
  unfold arrowOfComment
  rw [Logged.result_bind]
  show ∃ a, (isArrowComment standardCodec (.text t) >>= _) = Except.ok a
  rw [hb, ok_bind]
  -- A comment that is no arrow comment, or has no value that is known, stands for no arrow.
  split
  · rw [Logged.result_bind, hchars, ok_bind]
    cases commentParts? t.toList with
    | none => exact ⟨_, rfl⟩
    | some parts =>
      dsimp only
      split
      · exact ⟨_, rfl⟩
      · exact ⟨_, rfl⟩
  · exact ⟨_, rfl⟩

/-- The style of an edge is a style with a width of type `R`. -/
theorem ends_edgeStyle {options comment : Value R} (ho : IsText options) (hc : IsText comment) :
    Ends Fault.IsTold (fun v => ∃ style : Style R, v = style.value ∧ IsRealNumber style.strokeWidth)
      (edgeStyle standardCodec options comment).result := by
  obtain ⟨a, ha⟩ := exists_arrow_of_isText hc
  unfold edgeStyle
  simp only [Logged.result_bind]
  refine (ends_read ho).bind fun o ho => ?_
  rw [ha]
  exact ⟨_, rfl, ho.strokeWidth⟩

/-- A pair is as good as its coordinates. -/
theorem IsRealPair.firstTwo {v : Value R} (h : IsRealPair v) : v.firstTwo = .ok v := by
  obtain ⟨x, y, rfl⟩ := h
  rfl

/-- What is a pair of numbers, if it is there at all, is kept as it is. -/
theorem optionalPair_of_isReal {v : Value R} (h : v = .none ∨ IsRealPair v) :
    Diagram.optionalPair v = .ok v := by
  rcases h with rfl | ⟨x, y, rfl⟩
  · rfl
  · rfl

omit [Arithmetic R] in
/-- The control point of a statement, if it has one. -/
theorem control_of_isReal {control : Option (Value R)} (h : ∀ p ∈ control, IsRealPair p) :
    control.getD .none = .none ∨ IsRealPair (control.getD .none) := by
  cases control with
  | none => exact .inl rfl
  | some c => exact .inr (h c rfl)

end FeynmanTikz
