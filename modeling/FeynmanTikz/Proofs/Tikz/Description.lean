/-
Which element a statement describes.

A statement says everything about an element but its id.  Statements are turned into elements in four
passes, one for each collection, and every element takes the next id.

* `Describes`: a statement describes an element; `Describes.unique`: one for each id,
* `IsFlawed`: no element that a statement describes passes its check,
* `addStatement_cases`: a statement of numbers adds what it describes under the next id, or is flawed
  and is refused,
* `NumberedFrom`: some elements have consecutive ids,
* `addStatements_cases`: what one pass does, by induction on the statements,
* `ConsistsOf`, `ofStatements_cases`: what the four passes do,
* `ofText_cases`: what becomes of a text; `ends_ofText`: it is read as a diagram of numbers, or it is
  unreadable.
-/
import FeynmanTikz.Proofs.Diagram.Validation
import FeynmanTikz.Proofs.Tikz.Creation
import Mathlib.Data.List.Forall2

namespace FeynmanTikz

open Edit

variable {R : Type} [Arithmetic R]

/-- The name of the kind of statement for a collection. -/
def Shelf.kind : Shelf → String
  | .points => "point"
  | .edges => "edge"
  | .ellipses => "ellipse"
  | .labels => "label"

theorem Shelf.kind_inj {s t : Shelf} (h : s.kind = t.kind) : s = t := by
  cases s <;> cases t <;> first | rfl | exact absurd h (by decide)

omit [Arithmetic R] in
theorem isWrapper_of_kind {b : StatementBody R} {shelf : Shelf} (h : b.kind = shelf.kind) :
    b.isWrapper = false := by
  cases b with
  | point | edge | ellipse | label => rfl
  | beginPicture | endPicture => cases shelf <;> simp [StatementBody.kind, Shelf.kind] at h

omit [Arithmetic R] in
/-- Whatever stands for an element is meant for a collection. -/
theorem exists_shelf {b : StatementBody R} (h : b.isWrapper = false) :
    ∃ shelf : Shelf, b.kind = shelf.kind := by
  cases b with
  | point => exact ⟨.points, rfl⟩
  | edge => exact ⟨.edges, rfl⟩
  | ellipse => exact ⟨.ellipses, rfl⟩
  | label => exact ⟨.labels, rfl⟩
  | beginPicture | endPicture => cases h

/-! ### One statement -/

/-- A statement describes an element, under whatever id. -/
def Describes (codec : Given R (Codec R)) (s : Statement R) (e : Element R) : Prop :=
  match s.body with
  | .point position radius => e = .point ⟨e.id, position, radius⟩
  | .edge start finish control options =>
    ∃ style, (edgeStyle codec options s.comment).result = .ok style ∧
      e = .edge ⟨e.id, .text (if control.isSome then "curve" else "straight"), start, finish,
        control.getD .none, style⟩
  | .ellipse center rx ry options =>
    ∃ o, (DrawOptions.read options codec).result = .ok o ∧
      e = .ellipse ⟨e.id, center, rx, ry, o.color, o.strokeWidth⟩
  | .label position text => e = .label ⟨e.id, position, .text (String.ofList text), .none⟩
  | .beginPicture | .endPicture => False

/-- A statement stands for an element, but nothing that it describes passes its check. -/
structure IsFlawed (codec : Given R (Codec R)) (s : Statement R) : Prop where
  notWrapper : s.body.isWrapper = false
  check : ∀ e, Describes codec s e → e.check ≠ .ok ()

namespace Describes

variable {codec : Given R (Codec R)} {s : Statement R} {e e' : Element R}

/-- A statement describes one element for each id. -/
theorem unique (h : Describes codec s e) (h' : Describes codec s e') (hid : e.id = e'.id) : e = e' := by
  unfold Describes at h h'
  cases hb : s.body with
  | point | label =>
    rw [hb] at h h'
    rw [h, h', hid]
  | edge =>
    rw [hb] at h h'
    obtain ⟨style, hstyle, h⟩ := h
    obtain ⟨style', hstyle', h'⟩ := h'
    cases hstyle.symm.trans hstyle'
    rw [h, h', hid]
  | ellipse =>
    rw [hb] at h h'
    obtain ⟨o, ho, h⟩ := h
    obtain ⟨o', ho', h'⟩ := h'
    cases ho.symm.trans ho'
    rw [h, h', hid]
  | beginPicture | endPicture =>
    rw [hb] at h
    exact h.elim

/-- The element is meant for the collection for the kind of statement. -/
theorem admits (h : Describes codec s e) {shelf : Shelf} (hk : s.body.kind = shelf.kind) :
    shelf.admits e = true := by
  unfold Describes at h
  cases hb : s.body with
  | point =>
    rw [hb] at h hk
    rw [h, ← Shelf.kind_inj (s := .points) hk]
    rfl
  | edge =>
    rw [hb] at h hk
    obtain ⟨style, -, h⟩ := h
    rw [h, ← Shelf.kind_inj (s := .edges) hk]
    rfl
  | ellipse =>
    rw [hb] at h hk
    obtain ⟨o, -, h⟩ := h
    rw [h, ← Shelf.kind_inj (s := .ellipses) hk]
    rfl
  | label =>
    rw [hb] at h hk
    rw [h, ← Shelf.kind_inj (s := .labels) hk]
    rfl
  | beginPicture | endPicture =>
    rw [hb] at h
    exact h.elim

/-- A label that is described is bound to nothing and has the text of its statement. -/
theorem label {l : Label R} (h : Describes codec s (.label l)) : l.binding = .none ∧
    ∃ position text, s.body = .label position text ∧ l.text = .text (String.ofList text) := by
  unfold Describes at h
  split at h
  · cases h
  · obtain ⟨_, -, h⟩ := h
    cases h
  · obtain ⟨_, -, h⟩ := h
    cases h
  · rename_i position text hb
    rw [Element.label.inj h]
    exact ⟨rfl, position, text, hb, rfl⟩
  · exact h.elim
  · exact h.elim

/-- Whether an element passes its check does not depend on its id. -/
theorem check_iff (h : Describes codec s e) (h' : Describes codec s e') :
    e.check = .ok () ↔ e'.check = .ok () := by
  unfold Describes at h h'
  cases hb : s.body with
  | point =>
    rw [hb] at h h'
    rw [h, h']
    refine Point.check_eq_ok.trans (Iff.trans ?_ Point.check_eq_ok.symm)
    exact Iff.rfl
  | edge =>
    rw [hb] at h h'
    obtain ⟨style, hstyle, h⟩ := h
    obtain ⟨style', hstyle', h'⟩ := h'
    cases hstyle.symm.trans hstyle'
    rw [h, h']
    refine Edge.check_eq_ok.trans (Iff.trans ?_ Edge.check_eq_ok.symm)
    exact ⟨fun hv => ⟨hv.start, hv.finish, hv.bend, hv.style⟩,
      fun hv => ⟨hv.start, hv.finish, hv.bend, hv.style⟩⟩
  | ellipse =>
    rw [hb] at h h'
    obtain ⟨o, ho, h⟩ := h
    obtain ⟨o', ho', h'⟩ := h'
    cases ho.symm.trans ho'
    rw [h, h']
    refine Ellipse.check_eq_ok.trans (Iff.trans ?_ Ellipse.check_eq_ok.symm)
    exact ⟨fun hv => ⟨hv.center, hv.rx, hv.ry, hv.color, hv.width⟩,
      fun hv => ⟨hv.center, hv.rx, hv.ry, hv.color, hv.width⟩⟩
  | label =>
    rw [hb] at h h'
    rw [h, h']
    refine Label.check_eq_ok.trans (Iff.trans ?_ Label.check_eq_ok.symm)
    exact ⟨fun hv => ⟨hv.position, hv.text, hv.binding⟩, fun hv => ⟨hv.position, hv.text, hv.binding⟩⟩
  | beginPicture | endPicture =>
    rw [hb] at h
    exact h.elim

/-- A statement of numbers describes elements of numbers. -/
theorem isReal (h : Describes standardCodec s e) (hs : s.IsReal) : e.IsReal := by
  unfold Describes at h
  obtain ⟨hbody, hcomment⟩ := hs
  cases hb : s.body with
  | point =>
    rw [hb] at h hbody
    rw [h]
    exact hbody
  | edge start finish control options =>
    rw [hb] at h hbody
    obtain ⟨hs, hf, hc, ho⟩ := hbody
    obtain ⟨v, hv, h⟩ := h
    obtain ⟨style, rfl, hw⟩ := (ends_edgeStyle ho hcomment).ok hv
    rw [h]
    exact ⟨hs, hf, control_of_isReal hc, style, rfl, hw⟩
  | ellipse center rx ry options =>
    rw [hb] at h hbody
    obtain ⟨hc, hx, hy, ho⟩ := hbody
    obtain ⟨o, hread, h⟩ := h
    rw [h]
    exact ⟨hc, hx, hy, ((ends_read ho).ok hread).strokeWidth⟩
  | label =>
    rw [hb] at h hbody
    rw [h]
    exact ⟨hbody, rfl⟩
  | beginPicture | endPicture =>
    rw [hb] at h
    exact h.elim

end Describes

/-! ### Creating what is described -/

/-- An element of some kind, if it passes its check. -/
def checked {α : Type} (make : α → Element R) (a : α) : Except (Fault R) α := do
  (make a).check
  return a

section

variable {d : Diagram R} {n : Int}

/-- An element that is created from numbers is checked as it stands. -/
theorem newPoint_eq (hn : d.next = .int n) {position : Value R} (hp : IsRealPair position)
    (radius : Value R) :
    d.newPoint position radius = checked Element.point ⟨.int n, position, radius⟩ := by
  unfold Diagram.newPoint
  rw [hp.firstTwo, ok_bind, hn]
  rfl

theorem newEdge_eq (hn : d.next = .int n) {start finish : Value R} {control : Option (Value R)}
    (hs : IsRealPair start) (hf : IsRealPair finish) (hc : ∀ p ∈ control, IsRealPair p)
    (style : Style R) :
    d.newEdge (.text (if control.isSome then "curve" else "straight")) start finish
        (control.getD .none) style.value =
      checked Element.edge ⟨.int n, .text (if control.isSome then "curve" else "straight"), start, finish,
        control.getD .none, style.value⟩ := by
  -- A curve has a control point, so none is made up for it.
  have hcontrol : (Diagram.controlOrDefault (.text (if control.isSome then "curve" else "straight"))
      start finish (control.getD .none)).result = .ok (control.getD .none) := by
    cases control with
    | none => rfl
    | some c =>
      obtain ⟨x, y, rfl⟩ := hc c rfl
      rfl
  unfold Diagram.newEdge
  rw [hcontrol, ok_bind, hs.firstTwo, ok_bind, hf.firstTwo, ok_bind,
    optionalPair_of_isReal (control_of_isReal hc), ok_bind, hn]
  rfl

theorem newEllipse_eq (hn : d.next = .int n) {center color : Value R} (hc : IsRealPair center)
    (hcolor : IsTuple color) (rx ry width : Value R) : d.newEllipse center rx ry color width =
      checked Element.ellipse ⟨.int n, center, rx, ry, color, width⟩ := by
  obtain ⟨items, rfl⟩ := hcolor
  unfold Diagram.newEllipse
  rw [hc.firstTwo, ok_bind, hn]
  rfl

theorem newLabel_eq (hn : d.next = .int n) {position : Value R} (hp : IsRealPair position)
    (text : Value R) :
    d.newLabel position text .none = checked Element.label ⟨.int n, position, text, .none⟩ := by
  have hcheck := Label.check_of_unbound (l := ⟨.int n, position, text, .none⟩) rfl d.edgeIds (.set [])
  unfold Diagram.newLabel checked Element.check
  dsimp only
  rw [hp.firstTwo, ok_bind, hn, ← hcheck]
  rfl

end

/-- Whether the element that is described has passed its check decides what becomes of a statement. -/
theorem outcome_of_checked {α : Type} {make : α → Element R} {m : Diagram.Mutation R α}
    {d : Diagram R} {a : α} {write : α → Diagram R} {shelf : Shelf} {s : Statement R}
    (hm : m.outcome d = written (checked make a) write d) (hw : write a = d.grown shelf (make a))
    (hwrapper : s.body.isWrapper = false) (hdescribes : Describes standardCodec s (make a))
    (hs : s.IsReal) : ((make a).check = .ok () ∧ (forStatement s m).outcome d = (.ok (), d.grown shelf (make a))) ∨
      (IsFlawed standardCodec s ∧ ∃ f : Fault R, f.IsTold ∧
        (forStatement s m).outcome d = (.error (atStatement s.place f), d)) := by
  rw [Diagram.outcome_forStatement, hm]
  unfold checked
  rcases hc : (make a).check with f | ⟨⟩
  · refine .inr ⟨⟨hwrapper, fun e he hok => ?_⟩, f, (ends_check (hdescribes.isReal hs)).error hc, rfl⟩
    rw [he.check_iff hdescribes, hc] at hok
    cases hok
  · exact .inl ⟨rfl, by rw [← hw]; rfl⟩

/-- If the options of a statement cannot be read, nothing is described at all. -/
theorem flawed_of_options {α β : Type} {x : Logged R β} {f : β → Diagram.Mutation R α}
    {s : Statement R} {e : Fault R} (hx : x.result = .error e) (he : e.IsTold)
    (hwrapper : s.body.isWrapper = false)
    (hs : ∀ a, Describes standardCodec s a → ∃ b, x.result = .ok b) (d : Diagram R) :
    IsFlawed standardCodec s ∧ ∃ f' : Fault R, f'.IsTold ∧
      (forStatement s (liftM x >>= f)).outcome d = (.error (atStatement s.place f'), d) := by
  refine ⟨⟨hwrapper, fun a ha => ?_⟩, e, he, ?_⟩
  · obtain ⟨b, hb⟩ := hs a ha
    cases hx.symm.trans hb
  · rw [Diagram.outcome_forStatement, outcome_liftLogged_bind, hx]
    rfl

/-- A statement of numbers adds the element that it describes under the next id, or it is flawed and is
refused. -/
theorem addStatement_cases {d : Diagram R} {n : Int} (hn : d.next = .int n) {s : Statement R}
    (hs : s.IsReal) {shelf : Shelf} (hk : s.body.kind = shelf.kind) :
    (∃ e, Describes standardCodec s e ∧ e.id = .int n ∧ e.check = .ok () ∧
      (addStatement standardCodec shelf.kind s).outcome d = (.ok (), d.grown shelf e)) ∨
    (IsFlawed standardCodec s ∧ ∃ f : Fault R, f.IsTold ∧
      (addStatement standardCodec shelf.kind s).outcome d = (.error (atStatement s.place f), d)) := by
  have hbody := hs.body
  have hwrapper : s.body.isWrapper = false := isWrapper_of_kind hk
  unfold addStatement
  rw [if_neg (not_not_intro hk)]
  cases hb : s.body with
  | point position radius =>
    rw [hb] at hk hbody
    obtain rfl := Shelf.kind_inj (s := .points) hk
    have hout := Diagram.outcome_createPoint d position radius
    rw [newPoint_eq hn hbody.1] at hout
    have hdescribes : Describes standardCodec s (.point ⟨.int n, position, radius⟩) := by
      unfold Describes
      rw [hb]
      rfl
    exact (outcome_of_checked hout rfl hwrapper hdescribes hs).imp_left
      fun ⟨hc, ho⟩ => ⟨_, hdescribes, rfl, hc, ho⟩
  | edge start finish control options =>
    rw [hb] at hk hbody
    obtain rfl := Shelf.kind_inj (s := .edges) hk
    obtain ⟨hstart, hfinish, hcontrol, ho⟩ := hbody
    have hends := ends_edgeStyle ho hs.comment
    rcases hstyle : (edgeStyle standardCodec options s.comment).result with f | v
    · refine .inr (flawed_of_options hstyle (hends.error hstyle) hwrapper (fun e he => ?_) d)
      unfold Describes at he
      rw [hb] at he
      obtain ⟨v, hv, -⟩ := he
      exact ⟨v, hv⟩
    · obtain ⟨style, rfl, -⟩ := hends.ok hstyle
      have hout := (outcome_liftLogged_bind_ok hstyle _ d).trans
        (Diagram.outcome_createEdge d (.text (if control.isSome then "curve" else "straight")) start
          finish (control.getD .none) style.value)
      rw [newEdge_eq hn hstart hfinish hcontrol] at hout
      have hdescribes : Describes standardCodec s
          (.edge ⟨.int n, .text (if control.isSome then "curve" else "straight"), start, finish,
            control.getD .none, style.value⟩) := by
        unfold Describes
        rw [hb]
        exact ⟨_, hstyle, rfl⟩
      exact (outcome_of_checked hout rfl hwrapper hdescribes hs).imp_left
        fun ⟨hc, ho⟩ => ⟨_, hdescribes, rfl, hc, ho⟩
  | ellipse center rx ry options =>
    rw [hb] at hk hbody
    obtain rfl := Shelf.kind_inj (s := .ellipses) hk
    obtain ⟨hcenter, -, -, ho⟩ := hbody
    have hends := ends_read ho
    rcases hread : (DrawOptions.read options standardCodec).result with f | o
    · refine .inr (flawed_of_options hread (hends.error hread) hwrapper (fun e he => ?_) d)
      unfold Describes at he
      rw [hb] at he
      obtain ⟨o, ho, -⟩ := he
      exact ⟨o, ho⟩
    · have hout := (outcome_liftLogged_bind_ok hread
        (fun o => Diagram.createEllipse center rx ry o.color o.strokeWidth) d).trans
          (Diagram.outcome_createEllipse d center rx ry o.color o.strokeWidth)
      rw [newEllipse_eq hn hcenter (hends.ok hread).color] at hout
      have hdescribes : Describes standardCodec s
          (.ellipse ⟨.int n, center, rx, ry, o.color, o.strokeWidth⟩) := by
        unfold Describes
        rw [hb]
        exact ⟨o, hread, rfl⟩
      exact (outcome_of_checked hout rfl hwrapper hdescribes hs).imp_left
        fun ⟨hc, ho⟩ => ⟨_, hdescribes, rfl, hc, ho⟩
  | label position text =>
    rw [hb] at hk hbody
    obtain rfl := Shelf.kind_inj (s := .labels) hk
    have hout := Diagram.outcome_createLabel d position (.text (String.ofList text)) .none
    rw [newLabel_eq hn hbody] at hout
    have hdescribes : Describes standardCodec s
        (.label ⟨.int n, position, .text (String.ofList text), .none⟩) := by
      unfold Describes
      rw [hb]
      rfl
    exact (outcome_of_checked hout rfl hwrapper hdescribes hs).imp_left
      fun ⟨hc, ho⟩ => ⟨_, hdescribes, rfl, hc, ho⟩
  | beginPicture | endPicture =>
    rw [hb] at hwrapper
    cases hwrapper

theorem addStatement_of_kind {codec : Given R (Codec R)} {wanted : String} {s : Statement R}
    (h : s.body.kind ≠ wanted) (d : Diagram R) :
    (addStatement codec wanted s).outcome d = (.ok (), d) := by
  unfold addStatement
  rw [if_pos h]
  rfl

/-! ### Consecutive ids -/

/-- The ids of the elements are `n` and the numbers that follow it, in order. -/
def NumberedFrom (n : Int) (es : List (Element R)) : Prop :=
  es.map Element.id = (List.range es.length).map fun i => .int (n + i)

namespace NumberedFrom

variable {n : Int} {e : Element R} {es fs : List (Element R)}

omit [Arithmetic R]

theorem nil : NumberedFrom n ([] : List (Element R)) := rfl

theorem cons (he : e.id = .int n) (hes : NumberedFrom (n + 1) es) : NumberedFrom n (e :: es) := by
  unfold NumberedFrom at hes ⊢
  rw [List.map_cons, hes, he, List.length_cons, List.range_succ_eq_map, List.map_cons, List.map_map,
    List.cons.injEq]
  refine ⟨by simp, List.map_congr_left fun i _ => ?_⟩
  show (Value.int (n + 1 + i) : Value R) = .int (n + (i + 1 : Nat))
  rw [int_inj]
  omega

theorem append (hes : NumberedFrom n es) (hfs : NumberedFrom (n + es.length) fs) :
    NumberedFrom n (es ++ fs) := by
  unfold NumberedFrom at hes hfs ⊢
  rw [List.map_append, hes, hfs, List.length_append, List.range_add, List.map_append, List.map_map]
  refine congrArg _ (List.map_congr_left fun i _ => ?_)
  show (Value.int (n + es.length + i) : Value R) = .int (n + (es.length + i : Nat))
  rw [int_inj]
  omega

end NumberedFrom

/-! ### One pass -/

/-- What a pass over some statements has added to a diagram whose next id was `n`: the elements that
they describe, as far as they are meant for a collection, in order. -/
structure Passed (shelf : Shelf) (ss : List (Statement R)) (n : Int) (d : Diagram R)
    (es : List (Element R)) (d' : Diagram R) : Prop where
  orderly : d'.Orderly (n + es.length)
  described : List.Forall₂ (fun s e => Describes standardCodec s e ∧ e.check = .ok ())
    (ss.filter (·.body.kind = shelf.kind)) es
  numbered : NumberedFrom n es
  values : ∀ t, (d'.shelf t).values = if t = shelf then (d.shelf t).values ++ es else (d.shelf t).values

/-- One pass adds what the statements describe, or it comes to a statement that is flawed. -/
theorem addStatements_cases (shelf : Shelf) : ∀ {ss : List (Statement R)} {d : Diagram R} {n : Int},
    d.Orderly n → (∀ s ∈ ss, s.IsReal) →
    (∃ es d', (addStatements standardCodec shelf.kind ss).outcome d = (.ok (), d') ∧
      Passed shelf ss n d es d') ∨
    ∃ s ∈ ss, IsFlawed standardCodec s ∧ ∃ (f : Fault R) (d' : Diagram R), f.IsTold ∧
      (addStatements standardCodec shelf.kind ss).outcome d = (.error (atStatement s.place f), d')
  | [], d, n, h, _ => by
    refine .inl ⟨[], d, rfl, by simpa using h, .nil, .nil, fun t => ?_⟩
    split
    · rw [List.append_nil]
    · rfl
  | s :: ss, d, n, h, hreal => by
    have hrest := fun t ht => hreal t (List.mem_cons_of_mem _ ht)
    unfold addStatements
    by_cases hk : s.body.kind = shelf.kind
    · rcases addStatement_cases h.next_eq (hreal s List.mem_cons_self) hk with
        ⟨e, he, hid, hc, hout⟩ | ⟨hflawed, f, hf, hout⟩
      · have hgrown : (d.grown shelf e).Orderly (n + 1) :=
          h.create (he.admits hk) hid fun l hl => .inl (hl ▸ he).label.1
        rw [outcome_bind_ok hout]
        refine (addStatements_cases shelf hgrown hrest).imp ?_ ?_
        · rintro ⟨es, d', hout, hp⟩
          refine ⟨e :: es, d', hout, ?_, ?_, .cons hid hp.numbered, fun t => ?_⟩
          · rw [List.length_cons, show n + ((es.length + 1 : Nat) : Int) = n + 1 + es.length by omega]
            exact hp.orderly
          · rw [List.filter_cons_of_pos (by simpa using hk)]
            exact .cons ⟨he, hc⟩ hp.described
          · rw [hp.values t, h.values_grown hid]
            split
            · rw [List.append_assoc]
              rfl
            · rfl
        · rintro ⟨t, ht, hflawed⟩
          exact ⟨t, List.mem_cons_of_mem _ ht, hflawed⟩
      · exact .inr ⟨s, List.mem_cons_self, hflawed, f, d, hf, outcome_bind_error hout⟩
    · -- A statement for another collection has its turn in another pass.
      rw [outcome_bind_ok (addStatement_of_kind hk d)]
      refine (addStatements_cases shelf h hrest).imp ?_ ?_
      · rintro ⟨es, d', hout, hp⟩
        refine ⟨es, d', hout, hp.orderly, ?_, hp.numbered, hp.values⟩
        rw [List.filter_cons_of_neg (by simpa using hk)]
        exact hp.described
      · rintro ⟨t, ht, hflawed⟩
        exact ⟨t, List.mem_cons_of_mem _ ht, hflawed⟩

/-! ### Four passes -/

/-- A diagram consists of what some statements describe: collection by collection, in their order, with
ids that count from one. -/
structure ConsistsOf (d : Diagram R) (ss : List (Statement R)) : Prop where
  orderly : d.Orderly (1 + d.elements.length)
  described : ∀ shelf : Shelf, List.Forall₂ (fun s e => Describes standardCodec s e ∧ e.check = .ok ())
    (ss.filter (·.body.kind = shelf.kind)) (d.shelf shelf).values
  numbered : NumberedFrom 1 d.elements

/-- After the four passes the next id is above all others already. -/
theorem ConsistsOf.of_passes {ss : List (Statement R)} {d₁ d₂ d₃ d₄ : Diagram R}
    {ps es ls ts : List (Element R)} (hp : Passed .points ss 1 Diagram.empty ps d₁)
    (he : Passed .edges ss (1 + ps.length) d₁ es d₂)
    (hl : Passed .ellipses ss (1 + ps.length + es.length) d₂ ls d₃)
    (ht : Passed .labels ss (1 + ps.length + es.length + ls.length) d₃ ts d₄) : ConsistsOf d₄ ss := by
  have hempty (t : Shelf) : ((Diagram.empty : Diagram R).shelf t).values = [] := by cases t <;> rfl
  have hvalues (t : Shelf) : (d₄.shelf t).values = match t with
      | .points => ps | .edges => es | .ellipses => ls | .labels => ts := by
    rw [ht.values, hl.values, he.values, hp.values, hempty]
    cases t <;> rfl
  have helements : d₄.elements = ps ++ es ++ ls ++ ts := by
    unfold Diagram.elements
    rw [show d₄.points.values = ps from hvalues .points, show d₄.edges.values = es from hvalues .edges,
      show d₄.ellipses.values = ls from hvalues .ellipses, show d₄.labels.values = ts from hvalues .labels]
  refine ⟨?_, fun shelf => ?_, ?_⟩
  · rw [helements]
    have ho := ht.orderly
    simp only [List.length_append, Int.natCast_add, ← Int.add_assoc]
    exact ho
  · rw [hvalues]
    cases shelf with
    | points => exact hp.described
    | edges => exact he.described
    | ellipses => exact hl.described
    | labels => exact ht.described
  · rw [helements]
    have hne : NumberedFrom 1 (ps ++ es) := hp.numbered.append he.numbered
    have hnl : NumberedFrom 1 (ps ++ es ++ ls) := hne.append (by
      rw [List.length_append, Int.natCast_add, ← Int.add_assoc]
      exact hl.numbered)
    refine hnl.append ?_
    simp only [List.length_append, Int.natCast_add, ← Int.add_assoc]
    exact ht.numbered

/-- The largest id of a diagram that counts from one is below the next one. -/
theorem ConsistsOf.maxId {ss : List (Statement R)} {d : Diagram R} (h : ConsistsOf d ss) :
    ∃ m, d.maxId = .ok (.int m) ∧ m < 1 + d.elements.length := by
  obtain ⟨m, hm, hlt⟩ := h.orderly.maxId
  by_cases hne : d.elements = []
  · refine ⟨0, ?_, by omega⟩
    unfold Diagram.maxId
    rw [hne]
    rfl
  · exact ⟨m, hm, hlt hne⟩

/-- What a diagram consists of is not flawed. -/
theorem ConsistsOf.not_isFlawed {ss : List (Statement R)} {d : Diagram R} (h : ConsistsOf d ss)
    {s : Statement R} (hs : s ∈ ss) : ¬IsFlawed standardCodec s := by
  intro hflawed
  obtain ⟨shelf, hk⟩ := exists_shelf hflawed.notWrapper
  have hmem : s ∈ ss.filter (·.body.kind = shelf.kind) := List.mem_filter.2 ⟨hs, by simpa using hk⟩
  obtain ⟨e, -, he, hcheck⟩ := exists_of_forall₂ (List.Forall₂.flip (h.described shelf)) hmem
  exact hflawed.check e he hcheck

/-- Statements of numbers make up the diagram of what they describe, or one of them is flawed. -/
theorem ofStatements_cases {ss : List (Statement R)} (h : ∀ s ∈ ss, s.IsReal) :
    (∃ d, (Diagram.ofStatements standardCodec ss).result = .ok d ∧ ConsistsOf d ss) ∨
    ∃ s ∈ ss, IsFlawed standardCodec s ∧ ∃ f : Fault R, f.IsTold ∧
      (Diagram.ofStatements standardCodec ss).result = .error (atStatement s.place f) := by
  rw [Diagram.result_ofStatements]
  -- The first statement that is flawed ends all passes.
  have refuse {m : Diagram.Mutation R Unit} {f : Unit → Diagram.Mutation R (Diagram R)} {d d' : Diagram R}
      {e : Fault R} (hm : m.outcome d = (.error e, d')) : ((m >>= f).outcome d).1 = .error e := by
    rw [outcome_bind_error hm]
  rcases addStatements_cases .points Diagram.orderly_empty h with
    ⟨ps, d₁, h₁, hp⟩ | ⟨s, hs, hflawed, f, d', hf, hout⟩
  · rw [outcome_bind_ok (m := addStatements standardCodec "point" ss) h₁]
    rcases addStatements_cases .edges hp.orderly h with
      ⟨es, d₂, h₂, he⟩ | ⟨s, hs, hflawed, f, d', hf, hout⟩
    · rw [outcome_bind_ok (m := addStatements standardCodec "edge" ss) h₂]
      rcases addStatements_cases .ellipses he.orderly h with
        ⟨ls, d₃, h₃, hl⟩ | ⟨s, hs, hflawed, f, d', hf, hout⟩
      · rw [outcome_bind_ok (m := addStatements standardCodec "ellipse" ss) h₃]
        rcases addStatements_cases .labels hl.orderly h with
          ⟨ts, d₄, h₄, ht⟩ | ⟨s, hs, hflawed, f, d', hf, hout⟩
        · rw [outcome_bind_ok (m := addStatements standardCodec "label" ss) h₄]
          have hd := ConsistsOf.of_passes hp he hl ht
          obtain ⟨m, hm, hlt⟩ := hd.maxId
          refine .inl ⟨d₄, ?_, hd⟩
          rw [outcome_bind_ok (outcome_current d₄), outcome_liftExcept_bind, hm]
          dsimp only
          rw [outcome_liftExcept_bind]
          show Except.ok (d₄.reserve (.int m)) = _
          rw [Diagram.reserve_of_lt hd.orderly.next_eq hlt]
        · exact .inr ⟨s, hs, hflawed, f, hf, refuse hout⟩
      · exact .inr ⟨s, hs, hflawed, f, hf, refuse hout⟩
    · exact .inr ⟨s, hs, hflawed, f, hf, refuse hout⟩
  · exact .inr ⟨s, hs, hflawed, f, hf, refuse hout⟩

/-! ### Texts -/

/-- A text is read as the diagram of its statements, or there is a first line that cannot be read, or one
of the statements is flawed. -/
theorem ofText_cases (text : List Char) :
    (∃ ss d, (readDocument standardCodec text).result = .ok ss ∧ (∀ s ∈ ss, s.IsReal) ∧
      (Diagram.ofText (R := R) standardCodec text).result = .ok d ∧ ConsistsOf d ss) ∨
    (∃ i line f, IsFirstFault standardCodec 1 (lines text) i line (.unreadable f) ∧
      f.IsAt (Place.IsOn (1 + i) line) ∧
      (Diagram.ofText (R := R) standardCodec text).result = .error (.unreadable f)) ∨
    ∃ ss i line s f, (readDocument standardCodec text).result = .ok ss ∧ s ∈ ss ∧
      (lines text)[i]? = some line ∧ s.place.IsOn (1 + i) line ∧ IsFlawed standardCodec s ∧
      f.place = some s.place ∧
      (Diagram.ofText (R := R) standardCodec text).result = .error (.unreadable f) := by
  have hends := ends_readDocument (R := R) text
  unfold Diagram.ofText
  simp only [Logged.result_bind]
  rcases hread : (readDocument (R := R) standardCodec text).result with e | ss
  · obtain ⟨i, line, hfirst, f, rfl, hf⟩ := hends.error hread
    exact .inr (.inl ⟨i, line, f, hfirst, hf, rfl⟩)
  · have hss := hends.ok hread
    rw [ok_bind]
    rcases ofStatements_cases fun s hs => (hss s hs).1 with
      ⟨d, hd, hc⟩ | ⟨s, hs, hflawed, f, hf, hout⟩
    · rw [hd]
      exact .inl ⟨ss, d, rfl, fun s hs => (hss s hs).1, rfl, hc⟩
    · obtain ⟨-, i, line, hline, hplace⟩ := hss s hs
      obtain ⟨g, hg, hgp⟩ := hf.atStatement s.place
      rw [hout, hg]
      exact .inr (.inr ⟨ss, i, line, s, g, rfl, hs, hline, hplace, hflawed, hgp, rfl⟩)

/-- The diagram a text is read as consists of what its statements describe. -/
theorem consistsOf_ofText {text : List Char} {d : Diagram R}
    (h : (Diagram.ofText standardCodec text).result = .ok d) :
    ∃ ss, (readDocument standardCodec text).result = .ok ss ∧ (∀ s ∈ ss, s.IsReal) ∧ ConsistsOf d ss := by
  rcases ofText_cases (R := R) text with
    ⟨ss, d', hread, hreal, hd, hc⟩ | ⟨i, line, f, -, -, hf⟩ | ⟨ss, i, line, s, f, -, -, -, -, -, -, hf⟩
  · obtain rfl : d = d' := Except.ok.inj (h.symm.trans hd)
    exact ⟨ss, hread, hreal, hc⟩
  · cases h.symm.trans hf
  · cases h.symm.trans hf

/-- A text is read as a diagram of numbers, or it is unreadable. -/
theorem ends_ofText (text : List Char) :
    Ends Fault.IsUnreadable AllReal (Diagram.ofText (R := R) standardCodec text).result := by
  rcases ofText_cases (R := R) text with
    ⟨ss, d, -, hreal, hd, hc⟩ | ⟨i, line, f, -, -, hf⟩ | ⟨ss, i, line, s, f, -, -, -, -, -, -, hf⟩
  · refine Ends.of_eq_ok hd fun shelf e he => ?_
    obtain ⟨s, hs, hdescribes, -⟩ := exists_of_forall₂ (hc.described shelf) he
    exact hdescribes.isReal (hreal s (List.mem_of_mem_filter hs))
  · rw [hf]
    exact ⟨f, rfl⟩
  · rw [hf]
    exact ⟨f, rfl⟩

end FeynmanTikz
