/-
What a valid element is made of.

A field of an element holds any value; a check that succeeds says what it must be.  For each check
there is one equivalence between its success and the form of the value:

* `IsCoordinate`, `IsPositive`, `IsRadius`: the numbers that are accepted as a coordinate, as a
  length, and as a radius of an ellipse,
* `IsPosition`, `IsColor`, `IsLabelText`: pairs, colours and label texts in terms of these,
* `Point.check_eq_ok`, `Edge.check_eq_ok`, `Ellipse.check_eq_ok`, `Label.check_eq_ok` and
  `Style.check_eq_ok`: whole elements.
-/
import FeynmanTikz.Diagram.Validity
import FeynmanTikz.Proofs.Outcome

namespace FeynmanTikz

variable {R : Type} [Arithmetic R]

/-- A finite number within the bounds of a coordinate. -/
structure IsCoordinate (x : Scalar R) : Prop where
  finite : isFiniteNumber x = .ok true
  near : isFar x.reading = false

/-- A finite number that is not too large for a length. -/
structure IsLength (x : Scalar R) : Prop where
  finite : isFiniteNumber x = .ok true
  bounded : (Reading.ofRat maxMagnitude).lt x.reading = false

/-- A positive length. -/
structure IsPositive (x : Scalar R) : Prop extends IsLength x where
  positive : x.reading.le (.ofInt 0) = false

/-- A length that can be a radius of an ellipse. -/
structure IsRadius (x : Scalar R) : Prop extends IsLength x where
  least : x.reading.lt (.ofRat minEllipseRadius) = false

/-- A pair with the given coordinates. -/
def IsPair (v : Value R) (x y : Scalar R) : Prop :=
  v = .tuple [.number x, .number y] ∨ v = .list [.number x, .number y]

omit [Arithmetic R] in
theorem isPair_pair (x y : Scalar R) : IsPair (Value.pair x y) x y := .inl rfl

theorem x_of_isPair {p : Value R} {x y : Scalar R} (h : IsPair p x y) : p.x = .ok (.number x) := by
  rcases h with rfl | rfl <;> rfl

theorem y_of_isPair {p : Value R} {x y : Scalar R} (h : IsPair p x y) : p.y = .ok (.number y) := by
  rcases h with rfl | rfl <;> rfl

omit [Arithmetic R] in
/-- A pair has just two coordinates. -/
theorem IsPair.unique {v : Value R} {a b c d : Scalar R} (h : IsPair v a b) (h' : IsPair v c d) :
    a = c ∧ b = d := by
  rcases h with rfl | rfl
  · obtain ⟨⟩ := h'.resolve_right (by simp)
    exact ⟨rfl, rfl⟩
  · obtain ⟨⟩ := h'.resolve_left (by simp)
    exact ⟨rfl, rfl⟩

def IsPosition (v : Value R) : Prop := ∃ x y, IsPair v x y ∧ IsCoordinate x ∧ IsCoordinate y

/-- A triple with the given components. -/
def IsTriple (v : Value R) (r g b : Nat) : Prop :=
  v = .tuple [.int r, .int g, .int b] ∨ v = .list [.int r, .int g, .int b]

def IsColor (v : Value R) : Prop := ∃ r g b : Nat, IsTriple v r g b ∧ r ≤ 255 ∧ g ≤ 255 ∧ b ≤ 255

/-- A text that can stand on one line, between braces. -/
structure IsLabelText (t : List Char) : Prop where
  oneLine : t.contains '\n' = false ∧ t.contains '\r' = false
  balanced : bracesBalanced t = true
  closed : endsInEscape t = false

omit [Arithmetic R] in
@[simp] theorem violation_ne_ok {α : Type} (s : Subject) (p : Problem R) (a : α) :
    violation s p ≠ .ok a := by
  simp [violation]

omit [Arithmetic R] in
/-- A rule that is checked before the rest. -/
theorem unless_eq_ok {c : Prop} [Decidable c] {s : Subject} {p : Problem R}
    {rest : Except (Fault R) Unit} :
    (if c then violation s p else rest) = .ok () ↔ ¬c ∧ rest = .ok () := by
  by_cases h : c <;> simp [h]

omit [Arithmetic R] in
theorem unless_bind_eq_ok {α : Type} {c : Prop} [Decidable c] {s : Subject} {p : Problem R}
    {rest : Unit → Except (Fault R) α} {a : α} :
    (if c then violation s p >>= rest else rest ()) = .ok a ↔ ¬c ∧ rest () = .ok a := by
  by_cases h : c <;> simp [h, violation]

theorem checkCoordinate_eq_ok {s : Subject} {part : Part} {whole v : Value R} :
    checkCoordinate s part whole v = .ok () ↔ ∃ x, v = .number x ∧ IsCoordinate x := by
  constructor
  · intro h
    cases v with
    | number x =>
      obtain ⟨f, hf, h⟩ := bind_eq_ok.1 h
      cases f with
      | false => cases h
      | true =>
        refine ⟨x, rfl, hf, ?_⟩
        simpa [unless_eq_ok] using h
    | _ => cases h
  · rintro ⟨x, rfl, hf, hn⟩
    simp [checkCoordinate, hf, hn]

theorem checkPair_eq_ok {s : Subject} {part : Part} {v : Value R} :
    checkPair s part v = .ok () ↔ IsPosition v := by
  constructor
  · intro h
    unfold checkPair at h
    split at h
    · obtain ⟨⟨⟩, h₁, h₂⟩ := bind_eq_ok.1 h
      obtain ⟨x, rfl, hx⟩ := checkCoordinate_eq_ok.1 h₁
      obtain ⟨y, rfl, hy⟩ := checkCoordinate_eq_ok.1 h₂
      exact ⟨x, y, .inl rfl, hx, hy⟩
    · obtain ⟨⟨⟩, h₁, h₂⟩ := bind_eq_ok.1 h
      obtain ⟨x, rfl, hx⟩ := checkCoordinate_eq_ok.1 h₁
      obtain ⟨y, rfl, hy⟩ := checkCoordinate_eq_ok.1 h₂
      exact ⟨x, y, .inr rfl, hx, hy⟩
    · simp at h
  · rintro ⟨x, y, rfl | rfl, hx, hy⟩
    all_goals
      unfold checkPair
      exact bind_eq_ok.2 ⟨(), checkCoordinate_eq_ok.2 ⟨x, rfl, hx⟩,
        checkCoordinate_eq_ok.2 ⟨y, rfl, hy⟩⟩

theorem checkLength_eq_ok {s : Subject} {part : Part} {v : Value R}
    {least : Scalar R → Except (Fault R) Unit} :
    checkLength s part v least = .ok () ↔
      ∃ x, v = .number x ∧ IsLength x ∧ least x = .ok () := by
  constructor
  · intro h
    cases v with
    | number x =>
      obtain ⟨f, hf, h⟩ := bind_eq_ok.1 h
      cases f with
      | false => cases h
      | true =>
        obtain ⟨hb, hl⟩ := unless_eq_ok.1 (unless_eq_ok.1 h).2
        exact ⟨x, rfl, ⟨hf, by simpa using hb⟩, hl⟩
    | _ => cases h
  · rintro ⟨x, rfl, ⟨hf, hb⟩, hl⟩
    simp [checkLength, hf, hb, hl]

theorem checkPositive_eq_ok {s : Subject} {part : Part} {v : Value R} :
    checkPositive s part v = .ok () ↔ ∃ x, v = .number x ∧ IsPositive x := by
  unfold checkPositive
  rw [checkLength_eq_ok]
  constructor
  · rintro ⟨x, rfl, hl, hp⟩
    exact ⟨x, rfl, hl, by simpa using (unless_eq_ok.1 hp).1⟩
  · rintro ⟨x, rfl, hl, hp⟩
    exact ⟨x, rfl, hl, by simp [hp]⟩

theorem checkRadius_eq_ok {s : Subject} {part : Part} {v : Value R} :
    checkRadius s part v = .ok () ↔ ∃ x, v = .number x ∧ IsRadius x := by
  unfold checkRadius
  rw [checkLength_eq_ok]
  constructor
  · rintro ⟨x, rfl, hl, hr⟩
    exact ⟨x, rfl, hl, by simpa using (unless_eq_ok.1 hr).1⟩
  · rintro ⟨x, rfl, hl, hr⟩
    exact ⟨x, rfl, hl, by simp [hr]⟩

omit [Arithmetic R] in
theorem isComponent_iff {v : Value R} : isComponent v = true ↔ ∃ n : Nat, v = .int n ∧ n ≤ 255 := by
  constructor
  · intro h
    unfold isComponent at h
    split at h
    · rename_i n
      simp only [Bool.and_eq_true, decide_eq_true_eq] at h
      exact ⟨n.toNat, by simp [Value.int, Int.toNat_of_nonneg h.1], by omega⟩
    · cases h
  · rintro ⟨n, rfl, hn⟩
    simp only [isComponent, Value.int, Bool.and_eq_true, decide_eq_true_eq]
    omega

omit [Arithmetic R] in
theorem components_iff {items : List (Value R)} :
    items.length = 3 ∧ items.all isComponent = true ↔
      ∃ r g b : Nat, items = [.int r, .int g, .int b] ∧ r ≤ 255 ∧ g ≤ 255 ∧ b ≤ 255 := by
  constructor
  · rintro ⟨hl, ha⟩
    match items, hl with
    | [x, y, z], _ =>
      simp only [List.all_cons, List.all_nil, Bool.and_true, Bool.and_eq_true] at ha
      obtain ⟨r, rfl, hr⟩ := isComponent_iff.1 ha.1
      obtain ⟨g, rfl, hg⟩ := isComponent_iff.1 ha.2.1
      obtain ⟨b, rfl, hb⟩ := isComponent_iff.1 ha.2.2
      exact ⟨r, g, b, rfl, hr, hg, hb⟩
  · rintro ⟨r, g, b, rfl, hr, hg, hb⟩
    refine ⟨rfl, ?_⟩
    simp only [List.all_cons, List.all_nil, Bool.and_true, Bool.and_eq_true]
    exact ⟨isComponent_iff.2 ⟨r, rfl, hr⟩, isComponent_iff.2 ⟨g, rfl, hg⟩,
      isComponent_iff.2 ⟨b, rfl, hb⟩⟩

omit [Arithmetic R] in
theorem checkColor_eq_ok {s : Subject} {v : Value R} : checkColor s v = .ok () ↔ IsColor v := by
  have key : ∀ items : List (Value R),
      (if items.length ≠ 3 then violation s (.notTriple v)
        else if items.all isComponent then Except.ok () else violation s (.badComponent v)) = .ok () ↔
      ∃ r g b : Nat, items = [.int r, .int g, .int b] ∧ r ≤ 255 ∧ g ≤ 255 ∧ b ≤ 255 := by
    intro items
    rw [unless_eq_ok, ← components_iff, Decidable.not_not]
    by_cases ha : items.all isComponent = true <;> simp [ha]
  constructor
  · intro h
    unfold checkColor at h
    split at h
    · obtain ⟨r, g, b, rfl, hc⟩ := (key _).1 h
      exact ⟨r, g, b, .inl rfl, hc⟩
    · obtain ⟨r, g, b, rfl, hc⟩ := (key _).1 h
      exact ⟨r, g, b, .inr rfl, hc⟩
    · simp at h
  · rintro ⟨r, g, b, rfl | rfl, hc⟩
    · exact (key _).2 ⟨r, g, b, rfl, hc⟩
    · exact (key _).2 ⟨r, g, b, rfl, hc⟩

omit [Arithmetic R] in
theorem isOneOf_iff {names : List String} {v : Value R} :
    isOneOf names v = true ↔ ∃ t ∈ names, v = .text t := by
  constructor
  · intro h
    cases v with
    | text t => exact ⟨t, by simpa [isOneOf] using h, rfl⟩
    | _ => cases h
  · rintro ⟨t, ht, rfl⟩
    simpa [isOneOf] using ht

/-! ### Whole elements -/

/-- The rules a style must satisfy. -/
structure Style.IsValid (d : Style R) : Prop where
  stroke : ∃ t ∈ strokeKinds, d.strokeKind = .text t
  arrow : ∃ t ∈ arrowStyles, d.arrow = .text t
  color : IsColor d.color
  width : ∃ x, d.strokeWidth = .number x ∧ IsPositive x

theorem Style.check_eq_ok {d : Style R} {s : Subject} : d.check s = .ok () ↔ d.IsValid := by
  unfold Style.check
  simp only [unless_bind_eq_ok, bind_eq_ok]
  constructor
  · rintro ⟨hs, ha, ⟨⟩, hc, hw⟩
    exact ⟨isOneOf_iff.1 (by simpa using hs), isOneOf_iff.1 (by simpa using ha),
      checkColor_eq_ok.1 hc, checkPositive_eq_ok.1 hw⟩
  · rintro ⟨hs, ha, hc, hw⟩
    exact ⟨by simp [isOneOf_iff.2 hs], by simp [isOneOf_iff.2 ha], (), checkColor_eq_ok.2 hc,
      checkPositive_eq_ok.2 hw⟩

theorem Point.check_eq_ok {p : Point R} :
    p.check = .ok () ↔ IsPosition p.position ∧ ∃ x, p.radius = .number x ∧ IsPositive x := by
  unfold Point.check
  rw [bind_eq_ok]
  constructor
  · rintro ⟨⟨⟩, hp, hr⟩
    exact ⟨checkPair_eq_ok.1 hp, checkPositive_eq_ok.1 hr⟩
  · rintro ⟨hp, hr⟩
    exact ⟨(), checkPair_eq_ok.2 hp, checkPositive_eq_ok.2 hr⟩

/-- The rules an edge must satisfy. -/
structure Edge.IsValid (e : Edge R) : Prop where
  start : IsPosition e.start
  finish : IsPosition e.finish
  bend : (e.kind = .text "straight" ∧ e.control = .none) ∨
    (e.kind = .text "curve" ∧ IsPosition e.control)
  style : ∃ d, e.drawn = .ok d ∧ d.IsValid

theorem IsPosition.ne_none {v : Value R} (h : IsPosition v) : v ≠ .none := by
  obtain ⟨x, y, rfl | rfl, -⟩ := h <;> simp

theorem Edge.check_eq_ok {e : Edge R} : e.check = .ok () ↔ e.IsValid := by
  unfold Edge.check
  simp only [unless_bind_eq_ok, bind_eq_ok]
  constructor
  · rintro ⟨hk, ⟨⟩, hs, ⟨⟩, hf, h⟩
    obtain ⟨t, ht, hk⟩ := isOneOf_iff.1 (by simpa using hk)
    simp only [edgeKinds, List.mem_cons, List.not_mem_nil, or_false] at ht
    -- Which control point is asked for depends on the kind.
    rcases ht with rfl | rfl
    · rw [hk, if_neg (by simp [isOneOf])] at h
      split at h
      · rename_i hc
        obtain ⟨d, hd, hv⟩ := bind_eq_ok.1 h
        exact ⟨checkPair_eq_ok.1 hs, checkPair_eq_ok.1 hf, .inl ⟨hk, hc⟩, d, hd,
          Style.check_eq_ok.1 hv⟩
      · cases h
    · rw [hk, if_pos (by simp [isOneOf])] at h
      split at h
      · cases h
      · obtain ⟨⟨⟩, hc, h⟩ := bind_eq_ok.1 h
        obtain ⟨d, hd, hv⟩ := bind_eq_ok.1 h
        exact ⟨checkPair_eq_ok.1 hs, checkPair_eq_ok.1 hf, .inr ⟨hk, checkPair_eq_ok.1 hc⟩, d, hd,
          Style.check_eq_ok.1 hv⟩
  · rintro ⟨hs, hf, hb, d, hd, hv⟩
    have hr : (e.drawn >>= fun d => d.check (.edge e.id.plain)) = .ok () :=
      bind_eq_ok.2 ⟨d, hd, Style.check_eq_ok.2 hv⟩
    rcases hb with ⟨hk, hc⟩ | ⟨hk, hc⟩
    · refine ⟨by simp [hk, isOneOf, edgeKinds], (), checkPair_eq_ok.2 hs, (),
        checkPair_eq_ok.2 hf, ?_⟩
      rw [hk, if_neg (by simp [isOneOf]), hc]
      exact hr
    · refine ⟨by simp [hk, isOneOf, edgeKinds], (), checkPair_eq_ok.2 hs, (),
        checkPair_eq_ok.2 hf, ?_⟩
      rw [hk, if_pos (by simp [isOneOf])]
      split
      · exact absurd ‹_› hc.ne_none
      · exact bind_eq_ok.2 ⟨(), checkPair_eq_ok.2 hc, hr⟩

/-- The rules an ellipse must satisfy. -/
structure Ellipse.IsValid (e : Ellipse R) : Prop where
  center : IsPosition e.center
  rx : ∃ x, e.rx = .number x ∧ IsRadius x
  ry : ∃ x, e.ry = .number x ∧ IsRadius x
  color : IsColor e.color
  width : ∃ x, e.strokeWidth = .number x ∧ IsPositive x

theorem Ellipse.check_eq_ok {e : Ellipse R} : e.check = .ok () ↔ e.IsValid := by
  unfold Ellipse.check
  constructor
  · intro h
    obtain ⟨⟨⟩, hp, h⟩ := bind_eq_ok.1 h
    obtain ⟨⟨⟩, hx, h⟩ := bind_eq_ok.1 h
    obtain ⟨⟨⟩, hy, h⟩ := bind_eq_ok.1 h
    obtain ⟨⟨⟩, hc, hw⟩ := bind_eq_ok.1 h
    exact ⟨checkPair_eq_ok.1 hp, checkRadius_eq_ok.1 hx, checkRadius_eq_ok.1 hy,
      checkColor_eq_ok.1 hc, checkPositive_eq_ok.1 hw⟩
  · rintro ⟨hp, hx, hy, hc, hw⟩
    simp [checkPair_eq_ok.2 hp, checkRadius_eq_ok.2 hx, checkRadius_eq_ok.2 hy,
      checkColor_eq_ok.2 hc, checkPositive_eq_ok.2 hw]

omit [Arithmetic R] in
theorem checkLabelText_eq_ok {s : Subject} {v : Value R} :
    checkLabelText s v = .ok () ↔ ∃ t, v = .text t ∧ IsLabelText t.toList := by
  constructor
  · intro h
    cases v with
    | text t =>
      obtain ⟨h1, h⟩ := unless_eq_ok.1 h
      obtain ⟨h2, h⟩ := unless_eq_ok.1 h
      obtain ⟨h3, -⟩ := unless_eq_ok.1 h
      exact ⟨t, rfl, by simpa using h1, by simpa using h2, by simpa using h3⟩
    | _ => cases h
  · rintro ⟨t, rfl, ⟨h1, h2⟩, h3, h4⟩
    simp [checkLabelText, -List.contains_eq_mem, h1, h2, h3, h4]

/-- The binding of a label, if it has one, names a known anchor, a finite offset and an edge among
`edges`. -/
structure Binding.IsValid (b : Binding R) (edges : List (Value R)) : Prop where
  anchor : ∃ t ∈ anchors, b.anchor = .text t
  offset : IsPosition b.offset
  target : ∃ k, b.target.expectKey = .ok k ∧ ∃ id ∈ edges, id.key? = some k

theorem Binding.check_eq_ok {b : Binding R} {s : Subject} {edges : List (Value R)} :
    b.check s (.set edges) = .ok () ↔ b.IsValid edges := by
  have hc (f : Bool) : (Value.set edges).contains b.target = .ok f ↔
      ∃ k, b.target.expectKey = .ok k ∧ (edges.any fun x => x.key? = some k) = f := by
    show (b.target.expectKey >>= fun k => pure _) = _ ↔ _
    simp [bind_eq_ok]
  unfold Binding.check
  simp only [unless_bind_eq_ok, bind_eq_ok, unless_eq_ok, hc]
  constructor
  · rintro ⟨ha, ⟨⟩, ho, f, ⟨k, hk, rfl⟩, hf, -⟩
    exact ⟨isOneOf_iff.1 (by simpa using ha), checkPair_eq_ok.1 ho, k, hk, by simpa using hf⟩
  · rintro ⟨ha, ho, k, hk, id, hid, hkey⟩
    refine ⟨by simp [isOneOf_iff.2 ha], (), checkPair_eq_ok.2 ho, true, ⟨k, hk, ?_⟩, by simp, rfl⟩
    exact List.any_eq_true.2 ⟨id, hid, by simpa using hkey⟩

/-- The rules a label must satisfy beside some edges. -/
structure Label.IsValid (l : Label R) (edges : List (Value R)) : Prop where
  position : IsPosition l.position
  text : ∃ t, l.text = .text t ∧ IsLabelText t.toList
  binding : ∃ b, l.bound? = .ok b ∧ ∀ c ∈ b, c.IsValid edges

theorem Label.check_eq_ok {l : Label R} {edges : List (Value R)} :
    l.check (.set edges) = .ok () ↔ l.IsValid edges := by
  unfold Label.check
  simp only [bind_eq_ok]
  constructor
  · rintro ⟨⟨⟩, hp, ⟨⟩, ht, b, hb, h⟩
    refine ⟨checkPair_eq_ok.1 hp, checkLabelText_eq_ok.1 ht, b, hb, ?_⟩
    rintro c rfl
    exact Binding.check_eq_ok.1 h
  · rintro ⟨hp, ht, b, hb, hv⟩
    refine ⟨(), checkPair_eq_ok.2 hp, (), checkLabelText_eq_ok.2 ht, b, hb, ?_⟩
    cases b with
    | none => rfl
    | some c => exact Binding.check_eq_ok.2 (hv c rfl)

omit [Arithmetic R] in
theorem checkAll_eq_ok {α : Type} {f : α → Except (Fault R) Unit} {as : List α} :
    Diagram.checkAll f as = .ok () ↔ ∀ a ∈ as, f a = .ok () := by
  induction as with
  | nil => simp [Diagram.checkAll]
  | cons a as ih =>
    unfold Diagram.checkAll
    rw [bind_eq_ok, List.forall_mem_cons, ← ih]
    constructor
    · rintro ⟨⟨⟩, ha, has⟩
      exact ⟨ha, has⟩
    · rintro ⟨ha, has⟩
      exact ⟨(), ha, has⟩

end FeynmanTikz
