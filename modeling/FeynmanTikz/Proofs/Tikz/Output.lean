/-
Every valid diagram is written, one statement per line.

A check looks at an element as it is stored, whoever has put it there.  It finds numbers that fit into
`R`, and then their opposites fit as well, so the element has a statement.  No part of a statement holds
a newline.

* `Diagram.isDrawable_of_validate`: every element of a valid diagram has a statement,
* `Diagram.States.isLine`: the statement of an element that has been checked is a line,
* `Edge.ShownBy`: whether an edge bends can be seen on its line,
* `Diagram.output_of_validate`: a valid diagram has a listing, and a document whose lines between the
  begin and the end line are the statements of its elements.

Design notes.
* Lines are told apart by newlines alone here.  The text of a label may hold other characters that end a
  line for a reader.
* A label may stand at coordinates that are infinite or undefined.  They are printed as words.
-/
import FeynmanTikz.Proofs.Listing
import FeynmanTikz.Proofs.Number.Opposites
import FeynmanTikz.Proofs.Tikz.Plain
import FeynmanTikz.Proofs.Tikz.Totality

namespace FeynmanTikz

variable {R : Type} [Arithmetic R]

/-! ### Numbers that have been checked -/

section

variable [HasOpposites R]

theorem Scalar.Fits.neg {x : Scalar R} (h : x.Fits) : x.neg.Fits := by
  cases x with
  | real x => exact ⟨-x, rfl⟩
  | int n =>
    obtain ⟨r, hr⟩ := h
    have hfinite : Arithmetic.isFinite (Arithmetic.ofInt n : R) = true := by
      unfold toReal at hr
      dsimp only at hr
      split at hr
      · assumption
      · cases hr
    refine ⟨Arithmetic.ofInt (-n), ?_⟩
    show (if Arithmetic.isFinite (Arithmetic.ofInt (-n) : R) then _ else _) = _
    rw [if_pos (HasOpposites.isFinite_neg n hfinite)]

theorem IsPosition.isFittingPair {v : Value R} (h : IsPosition v) : IsFittingPair v := by
  obtain ⟨x, y, hv, hx, hy⟩ := h
  exact ⟨x, y, hv, ⟨hx.fits, hx.fits.neg⟩, hy.fits, hy.fits.neg⟩

theorem isFitting_of_length {P : Scalar R → Prop} (hP : ∀ {x}, P x → IsLength x) {v : Value R}
    (h : ∃ x, v = .number x ∧ P x) : IsFitting v := by
  obtain ⟨x, hv, hx⟩ := h
  have hfits := Scalar.fits_of_isFiniteNumber (hP hx).finite
  exact ⟨x, hv, hfits, hfits.neg⟩

theorem Edge.IsValid.isDrawable {e : Edge R} (h : e.IsValid) (d : Diagram R) :
    d.IsDrawable (.edge e) := by
  obtain ⟨style, hdrawn, hstyle⟩ := h.style
  refine ⟨h, h.start.isFittingPair, h.finish.isFittingPair, ?_, style, hdrawn,
    isFitting_of_length IsPositive.toIsLength hstyle.width⟩
  exact h.bend.imp And.right fun hcurve => hcurve.2.isFittingPair

namespace Diagram

omit [HasOpposites R] in
/-- Under an id that is there stands an edge that has been checked. -/
theorem edge_of_validate {d : Diagram R} (hv : d.validate = .ok ()) {k : Key} {id : Value R}
    (hid : id ∈ d.edges.ids) (hk : id.key? = some k) :
    ∃ e, d.edges.find? k = some (.edge e) ∧ e.IsValid := by
  obtain ⟨e, he⟩ := Option.isSome_iff_exists.1
    (show (d.edges.find? k).isSome = true from Collection.contains_iff.2 ⟨id, hid, hk⟩)
  obtain ⟨_, hm, -⟩ := Collection.mem_of_find? he
  have hc := d.check_of_validate hv .edges e (List.mem_map_of_mem (f := Prod.snd) hm)
  have hs := admits_of_check hc
  cases e with
  | edge e => exact ⟨e, he, Edge.check_eq_ok.1 hc⟩
  | _ => cases hs

/-- Every element of a valid diagram is drawable. -/
theorem isDrawable_of_validate {d : Diagram R} (hv : d.validate = .ok ()) {s : Shelf} {e : Element R}
    (he : e ∈ (d.shelf s).values) : d.IsDrawable e := by
  have hc := d.check_of_validate hv s e he
  have hs := admits_of_check hc
  cases e with
  | point p =>
    cases s <;> cases hs
    obtain ⟨hposition, hradius⟩ := Point.check_eq_ok.1 hc
    exact ⟨hposition.isFittingPair, isFitting_of_length IsPositive.toIsLength hradius⟩
  | edge e =>
    cases s <;> cases hs
    exact (Edge.check_eq_ok.1 hc).isDrawable d
  | ellipse e =>
    cases s <;> cases hs
    have h := Ellipse.check_eq_ok.1 hc
    exact ⟨h.color, h.center.isFittingPair, isFitting_of_length IsRadius.toIsLength h.rx,
      isFitting_of_length IsRadius.toIsLength h.ry, isFitting_of_length IsPositive.toIsLength h.width⟩
  | label l =>
    cases s <;> cases hs
    obtain ⟨hposition, -, b, hb, hbinding⟩ := Label.check_eq_ok.1 hc
    cases b with
    | none => exact ⟨_, d.resolve_of_unbound hb, hposition.isFittingPair⟩
    | some b =>
      obtain ⟨hanchor, hoffset, k, hk, id, hid, hkey⟩ := hbinding b rfl
      obtain ⟨e, hfind, hvalid⟩ := edge_of_validate hv hid hkey
      obtain ⟨x, y, hp⟩ := d.resolve_real hb hk hfind hvalid hanchor hoffset
      -- Where the label stands may be far out of bounds, but it is a pair of numbers of type `R`.
      exact ⟨_, hp, IsRealPair.isFittingPair ⟨x, y, rfl⟩⟩

end Diagram

end

/-! ### Lines -/

/-- A text without newlines. -/
def IsLine (t : String) : Prop := '\n' ∉ t.toList

instance (t : String) : Decidable (IsLine t) := inferInstanceAs (Decidable (¬_))

@[simp] theorem isLine_append {t u : String} : IsLine (t ++ u) ↔ IsLine t ∧ IsLine u := by
  unfold IsLine
  rw [String.toList_append, List.mem_append, not_or]

theorem IsPlain.isLine {t : String} (h : IsPlain t) : IsLine t := fun hc => (h _ hc).1 rfl

theorem isLine_formatCoordinate {v : Value R} {t : String}
    (h : formatCoordinate standardCodec v = .ok t) : IsLine t := by
  obtain ⟨u, hu, rfl⟩ := exists_formatCoordinate h
  exact isLine_append.2 ⟨hu.isLine, by decide⟩

theorem Edge.Course.isLine {e : Edge R} {path : String} (h : e.Course path) : IsLine path := by
  cases h with
  | chord kind hstart hfinish =>
    simp only [isLine_append]
    exact ⟨⟨isLine_formatCoordinate hstart, by decide⟩, isLine_formatCoordinate hfinish⟩
  | bow kind hstart hcontrol hfinish =>
    simp only [isLine_append]
    exact ⟨⟨⟨⟨isLine_formatCoordinate hstart, by decide⟩, isLine_formatCoordinate hcontrol⟩, by decide⟩,
      isLine_formatCoordinate hfinish⟩

/-- What is left of the text of a label is a line if the text is one. -/
theorem isLine_stripMath {t : List Char} (h : IsLabelText t) :
    IsLine (String.ofList (stripMath t)) := by
  unfold IsLine
  rw [String.toList_ofList]
  intro hm
  have hnot := h.oneLine.1
  rw [List.contains_eq_mem, decide_eq_false_iff_not] at hnot
  exact hnot (mem_of_mem_stripMath hm)

namespace Diagram

/-- The statement of an element that has been checked is a line. -/
theorem States.isLine {d : Diagram R} {e : Element R} {t : String} (h : d.States e t) {s : Shelf}
    (hc : d.check s e = .ok ()) : IsLine t := by
  have hs := admits_of_check hc
  cases h with
  | point hposition hradius =>
    simp only [isLine_append]
    exact ⟨⟨⟨⟨by decide, isLine_formatCoordinate hposition⟩, by decide⟩,
      (Measure.isPlain_printed hradius).isLine⟩, by decide⟩
  | edge course drawn hoptions =>
    cases s <;> cases hs
    obtain ⟨style, hdrawn, hstyle⟩ := (Edge.check_eq_ok.1 hc).style
    obtain rfl := Except.ok.inj (hdrawn.symm.trans drawn)
    simp only [isLine_append]
    exact ⟨⟨⟨⟨⟨by decide, (isPlain_styleOptions hstyle.color hoptions).isLine⟩, by decide⟩,
      course.isLine⟩, by decide⟩, (isPlain_arrowComment _).isLine⟩
  | ellipse hcenter hrx hry hcolor hwidth =>
    cases s <;> cases hs
    have hink := isPlain_ellipseOptions (Ellipse.check_eq_ok.1 hc).color hcolor hwidth
    simp only [isLine_append]
    exact ⟨⟨⟨⟨⟨⟨⟨⟨by decide, hink.isLine⟩, by decide⟩, isLine_formatCoordinate hcenter⟩, by decide⟩,
      (Measure.isPlain_printed hrx).isLine⟩, by decide⟩, (Measure.isPlain_printed hry).isLine⟩,
      by decide⟩
  | label resolved hposition =>
    cases s <;> cases hs
    obtain ⟨t, ht, htext⟩ := (Label.check_eq_ok.1 hc).text
    rw [ht]
    simp only [inBraces, isLine_append]
    exact ⟨⟨⟨⟨by decide, isLine_formatCoordinate hposition⟩, by decide⟩,
      ⟨by decide, ⟨by decide, isLine_stripMath htext⟩, by decide⟩, by decide⟩, by decide⟩

end Diagram

/-! ### Straight edges and curves -/

/-- What follows the first position on a line. -/
def afterPosition (t : String) : List Char := (t.toList.dropWhile (· != ')')).drop 1

theorem afterPosition_eq {before : String} (h : IsPlain before) (after : String) :
    afterPosition (before ++ ")" ++ after) = after.toList := by
  have hbefore : ∀ c ∈ before.toList, (c != ')') = true := fun c hc => by simpa using (h c hc).2
  unfold afterPosition
  rw [String.toList_append, String.toList_append, List.append_assoc,
    List.dropWhile_append_of_pos hbefore]
  rfl

/-- On the line of a straight edge dashes follow its first position, on that of a curve its control
point. -/
structure Edge.ShownBy (e : Edge R) (t : String) : Prop where
  straight : e.kind = .text "straight" ↔ " -- ".toList <+: afterPosition t
  curve : e.kind = .text "curve" ↔ " .. controls ".toList <+: afterPosition t

theorem Edge.Course.exists_rest {e : Edge R} {path : String} (h : e.Course path) :
    ∃ start rest, formatCoordinate standardCodec e.start = .ok start ∧ path = start ++ rest ∧
      ((e.kind = .text "straight" ∧ " -- ".toList <+: rest.toList) ∨
        (e.kind = .text "curve" ∧ " .. controls ".toList <+: rest.toList)) := by
  have hprefix (t u : String) : t.toList <+: (t ++ u).toList := by
    rw [String.toList_append]
    exact List.prefix_append _ _
  cases h with
  | chord kind hstart hfinish =>
    exact ⟨_, _, hstart, String.append_assoc .., .inl ⟨kind, hprefix _ _⟩⟩
  | bow kind hstart hcontrol hfinish =>
    have hpath (a b c : String) : a ++ " .. controls " ++ b ++ " .. " ++ c =
        a ++ (" .. controls " ++ (b ++ " .. " ++ c)) := by
      simp only [String.append_assoc]
    exact ⟨_, _, hstart, hpath .., .inr ⟨kind, hprefix _ _⟩⟩

/-- Whether an edge bends can be seen on its line. -/
theorem Diagram.States.shownBy {d : Diagram R} {e : Edge R} {t : String} (h : d.States (.edge e) t)
    (hv : e.IsValid) : e.ShownBy t := by
  cases h with
  | @edge _ style path options course drawn hoptions =>
    obtain ⟨style', hdrawn, hstyle⟩ := hv.style
    obtain rfl := Except.ok.inj (hdrawn.symm.trans drawn)
    obtain ⟨start, rest, hstart, rfl, hkind⟩ := course.exists_rest
    obtain ⟨u, hu, rfl⟩ := exists_formatCoordinate hstart
    -- There is no closing parenthesis among the options, so the first one ends the start.
    have hbefore : IsPlain ("\\draw[" ++ options ++ "] " ++ u) := by
      simp only [isPlain_append]
      exact ⟨⟨⟨by decide, isPlain_styleOptions hstyle.color hoptions⟩, by decide⟩, hu⟩
    have hafter : rest.toList <+: afterPosition ("\\draw[" ++ options ++ "] " ++ (u ++ ")" ++ rest) ++
        ";" ++ arrowComment Codec.standard style'.arrow) := by
      have hline : "\\draw[" ++ options ++ "] " ++ (u ++ ")" ++ rest) ++ ";" ++
          arrowComment Codec.standard style'.arrow = "\\draw[" ++ options ++ "] " ++ u ++ ")" ++
            (rest ++ (";" ++ arrowComment Codec.standard style'.arrow)) := by
        simp only [String.append_assoc]
      rw [hline, afterPosition_eq hbefore, String.toList_append]
      exact List.prefix_append _ _
    -- Dashes and a control point cannot both follow.
    have happart {t : List Char} (hs : " -- ".toList <+: t) (hc : " .. controls ".toList <+: t) : False :=
      absurd (List.prefix_of_prefix_length_le hs hc (by decide)) (by decide)
    rcases hkind with ⟨hk, hr⟩ | ⟨hk, hr⟩
    · have hshown := hr.trans hafter
      exact ⟨iff_of_true hk hshown, iff_of_false (by simp [hk]) (happart hshown)⟩
    · have hshown := hr.trans hafter
      exact ⟨iff_of_false (by simp [hk]) fun hs => happart hs hshown, iff_of_true hk hshown⟩

/-! ### Whole diagrams -/

theorem splitOn_onLines : ∀ {ls : List (List Char)}, (∀ l ∈ ls, '\n' ∉ l) →
    (onLines ls).splitOn '\n' = ls ++ [[]]
  | [], _ => rfl
  | l :: ls, h => by
    obtain ⟨hl, hls⟩ := List.forall_mem_cons.1 h
    show ((l ++ ['\n']) ++ onLines ls).splitOn '\n' = _
    rw [List.append_assoc, List.singleton_append, List.splitOn_append_cons_self_of_not_mem hl,
      splitOn_onLines hls]
    rfl

namespace Diagram

/-- A valid diagram has a listing, and it has a document.  The lines of the document between the begin
and the end line are the statements of its elements, collection by collection, and the line of an edge
shows whether it bends. -/
theorem output_of_validate [HasUnits R] [HasOpposites R] {d : Diagram R} (hv : d.validate = .ok ()) :
    ∃ (listing text : String) (statements : Shelf → List String),
      d.listing = .ok listing ∧ (d.document standardCodec).result = .ok text ∧
      (∀ s, List.Forall₂ (fun e t => s.admits e = true ∧ d.States e t ∧
        ∀ x, e = .edge x → x.ShownBy t) (d.shelf s).values (statements s)) ∧
      text.toList.splitOn '\n' = openingLines ++
        (statements .points ++ statements .edges ++ statements .ellipses ++ statements .labels).map
          (fun t => (indent ++ t).toList) ++ [endPictureLine.toList, []] := by
  obtain ⟨listing, hlisting⟩ := d.exists_listing hv
  have hstates (s : Shelf) : ∃ ts, List.Forall₂ (fun e t => s.admits e = true ∧ d.States e t ∧
      (∀ x, e = .edge x → x.ShownBy t) ∧ IsLine t) (d.shelf s).values ts := by
    refine exists_forall₂ fun e he => ?_
    have hc := d.check_of_validate hv s e he
    obtain ⟨t, ht⟩ := exists_states (isDrawable_of_validate hv he)
    refine ⟨t, admits_of_check hc, ht, ?_, ht.isLine hc⟩
    rintro x rfl
    have hs := admits_of_check hc
    cases s <;> cases hs
    exact ht.shownBy (Edge.check_eq_ok.1 hc)
  choose ts hts using hstates
  have hformatted (s : Shelf) : (d.shelf s).values.mapM (d.formatted s) = .ok (ts s) :=
    mapM_eq_ok ((hts s).imp fun _ _ h => h.2.1.formatted h.1)
  obtain ⟨text, htext, hlines⟩ := document_eq hformatted
  refine ⟨listing, text, ts, hlisting, htext, fun s => (hts s).imp fun _ _ h => ⟨h.1, h.2.1, h.2.2.1⟩, ?_⟩
  rw [hlines, splitOn_onLines, List.append_assoc]
  · rfl
  · intro l hl
    simp only [List.mem_append, List.mem_map, List.mem_singleton] at hl
    rcases hl with (hl | ⟨t, ht, rfl⟩) | rfl
    · exact (oneLine_openingLines l hl).newline_notMem
    · have hline (s : Shelf) (hm : t ∈ ts s) : IsLine (indent ++ t) := by
        obtain ⟨e, -, -, -, -, h⟩ := exists_of_forall₂ (hts s) hm
        exact isLine_append.2 ⟨by decide, h⟩
      rcases ht with ((ht | ht) | ht) | ht
      · exact hline .points ht
      · exact hline .edges ht
      · exact hline .ellipses ht
      · exact hline .labels ht
    · exact oneLine_endPictureLine.newline_notMem

/-- A diagram put together by hand: its ids do not rise, positions are lists, and the text of its label
holds a character that ends a line for a reader. -/
def byHand {R : Type} [Arithmetic R] : Diagram R where
  points := ⟨[(.int 7, .point ⟨.int 7, .list [.int 10, .int (-20)], .int 3⟩)]⟩
  edges := ⟨[(.int 6, .edge ⟨.int 6, .text "curve", .pair (.int 0) (.int 0), .list [.int 40, .int 0],
      .pair (.int 20) (.int 30), Style.value ⟨.text "wavy", rgb 255 0 0, .int 2, .text "mid-cross"⟩⟩),
    (.int 2, .edge ⟨.int 2, .text "straight", .pair (.int 0) (.int 5), .pair (.int 1) (.int 5), .none,
      Style.value ⟨.text "solid", black, .int 1, .text "both"⟩⟩)]⟩
  labels := ⟨[(.int 4, .label ⟨.int 4, .pair (.int 0) (.int 0), .text "a\u2028b",
    Binding.value ⟨.int 2, .text "mid", .pair (.int 0) (.int 7)⟩⟩)]⟩
  next := .int 8

theorem output_of_byHand : (byHand : Diagram Float).validate = .ok () ∧
    ∃ (listing text : String) (statements : Shelf → List String),
      (byHand : Diagram Float).listing = .ok listing ∧
      ((byHand : Diagram Float).document standardCodec).result = .ok text ∧
      (∀ s, List.Forall₂ (fun e t => s.admits e = true ∧ (byHand : Diagram Float).States e t ∧
        ∀ x, e = .edge x → x.ShownBy t) ((byHand : Diagram Float).shelf s).values (statements s)) ∧
      text.toList.splitOn '\n' = openingLines ++
        (statements .points ++ statements .edges ++ statements .ellipses ++ statements .labels).map
          (fun t => (indent ++ t).toList) ++ [endPictureLine.toList, []] := by
  obtain ⟨⟨⟩, hv⟩ := exists_of_isOk (x := (byHand : Diagram Float).validate) (by decide +kernel)
  exact ⟨hv, output_of_validate hv⟩

end Diagram

end FeynmanTikz
