/-
Building a diagram from the rows of a document.

* `Row.Yields`: an element has been read from a row,
* `AreRead.yields`: what the statements of some rows describe has been read from these rows,
* `ofStatements_rows`: the statements of sound rows are built into a diagram of the elements of the rows,
* `ofText_documentText`: a document of sound rows is read as a diagram whose elements are those of
  the rows, in order.
-/
import FeynmanTikz.Proofs.Tikz.Pages

namespace FeynmanTikz

variable {R : Type} [Arithmetic R]

/-- An element has been read from a row. -/
def Row.Yields (row : Row) (e : Element R) : Prop := ∃ id, e = row.element R id

/-- The statements of the rows for a collection are those of its kind. -/
theorem AreRead.filter {rows : List Row} {ss : List (Statement R)} (h : AreRead rows ss) (shelf : Shelf) :
    AreRead (rows.filter (·.shelf = shelf)) (ss.filter (·.body.kind = shelf.kind)) := by
  refine List.rel_filter ?_ h
  rintro row s ⟨place, rfl⟩
  have hkind : (row.statement place : Statement R).body.kind = row.shelf.kind := row.kind_body
  simp only [hkind, decide_eq_true_eq]
  exact ⟨congrArg Shelf.kind, Shelf.kind_inj⟩

/-- What the statements of rows describe has been read from these rows. -/
theorem AreRead.yields {rows : List Row} {ss : List (Statement R)} {es : List (Element R)}
    (h : AreRead rows ss) (hs : ∀ row ∈ rows, row.Sound R)
    (hd : List.Forall₂ (fun s e => Describes standardCodec s e ∧ e.check = .ok ()) ss es) :
    List.Forall₂ Row.Yields rows es := by
  induction h generalizing es with
  | nil =>
    cases hd
    exact .nil
  | cons hrow _ ih =>
    obtain ⟨place, rfl⟩ := hrow
    obtain ⟨hrow, hrows⟩ := List.forall_mem_cons.1 hs
    obtain ⟨e, es, ⟨he, -⟩, hes, rfl⟩ := List.forall₂_cons_left_iff.1 hd
    refine .cons ⟨e.id, he.unique (hrow.describes place e.id) ?_⟩ (ih hrows hes)
    rw [Row.id_element]

omit [Arithmetic R] in
/-- The statements around a picture are of no kind for a collection. -/
theorem filter_statements (ss : List (Statement R)) (shelf : Shelf) :
    (ss.filter (!·.body.isWrapper)).filter (·.body.kind = shelf.kind) =
      ss.filter (·.body.kind = shelf.kind) := by
  rw [List.filter_filter]
  refine List.filter_congr fun s _ => ?_
  by_cases hk : s.body.kind = shelf.kind
  · simp [hk, isWrapper_of_kind hk]
  · simp [hk]

/-- The statements of sound rows are built into a diagram whose elements are those of the rows, whatever
stands around them. -/
theorem ofStatements_rows {rows : List Row} {ss : List (Statement R)} (hs : ∀ row ∈ rows, row.Sound R)
    (hreal : ∀ s ∈ ss, s.IsReal) (hss : AreRead rows (ss.filter (!·.body.isWrapper))) :
    ∃ d : Diagram R, (Diagram.ofStatements standardCodec ss).result = .ok d ∧
      ∀ s, List.Forall₂ Row.Yields (rows.filter (·.shelf = s)) (d.shelf s).values := by
  rcases ofStatements_cases hreal with ⟨d, hd, hc⟩ | ⟨s, hmem, hflawed, -⟩
  · refine ⟨d, hd, fun shelf => ?_⟩
    have hrows := hss.filter shelf
    rw [filter_statements] at hrows
    exact hrows.yields (fun row hrow => hs row (List.mem_of_mem_filter hrow)) (hc.described shelf)
  · -- No row is flawed, and neither is what stands around the picture.
    have hwritten : s ∈ ss.filter (!·.body.isWrapper) :=
      List.mem_filter.2 ⟨hmem, by rw [hflawed.notWrapper]; rfl⟩
    obtain ⟨row, hrow, place, rfl⟩ := exists_of_forall₂ hss hwritten
    exact ((hs row hrow).not_isFlawed place hflawed).elim

/-- The statement of a sound row is built into a diagram that holds its element only. -/
theorem ofStatements_row {row : Row} (h : row.Sound R) (place : Place R) :
    ∃ (d : Diagram R) (id : Value R),
      (Diagram.ofStatements standardCodec [row.statement place]).result = .ok d ∧
        ∀ s, (d.shelf s).values = if row.shelf = s then [row.element R id] else [] := by
  have hsound : ∀ r ∈ [row], r.Sound R := by simpa using h
  have hreal : ∀ s ∈ [row.statement place], s.IsReal := by simpa using row.isReal_statement place
  have hread : AreRead [row] ([row.statement place].filter (!·.body.isWrapper)) := by
    rw [List.filter_cons_of_pos (by simpa [Row.statement] using row.isWrapper_body)]
    exact .cons ⟨place, rfl⟩ .nil
  obtain ⟨d, hd, hyields⟩ := ofStatements_rows hsound hreal hread
  have hown := hyields row.shelf
  rw [List.filter_cons_of_pos (by simp)] at hown
  obtain ⟨e, es, ⟨id, rfl⟩, hes, hvalues⟩ := List.forall₂_cons_left_iff.1 hown
  cases hes
  refine ⟨d, id, hd, fun s => ?_⟩
  by_cases hs : row.shelf = s
  · rw [if_pos hs, ← hs, hvalues]
  · have hother := hyields s
    rw [List.filter_cons_of_neg (by simpa using hs)] at hother
    rw [if_neg hs]
    exact (List.forall₂_nil_left_iff.1 hother)

/-- Rows sorted by the collections for their elements, which can be read back. -/
def AreSound (R : Type) [Arithmetic R] (rows : Shelf → List Row) : Prop :=
  ∀ s, ∀ row ∈ rows s, row.shelf = s ∧ row.Sound R

namespace AreSound

variable {rows : Shelf → List Row}

theorem sound (h : AreSound R rows) : ∀ row ∈ allRows rows, row.Sound R := by
  intro row hrow
  simp only [allRows, List.mem_append] at hrow
  rcases hrow with ((hrow | hrow) | hrow) | hrow
  all_goals exact (h _ row hrow).2

/-- The rows of a collection are found among all rows. -/
theorem filter_allRows (h : AreSound R rows) (s : Shelf) :
    (allRows rows).filter (·.shelf = s) = rows s := by
  have hown : (rows s).filter (·.shelf = s) = rows s :=
    List.filter_eq_self.2 fun row hrow => by simpa using (h s row hrow).1
  have hother {t : Shelf} (hts : t ≠ s) : (rows t).filter (·.shelf = s) = [] :=
    List.filter_eq_nil_iff.2 fun row hrow => by
      rw [(h t row hrow).1]
      simpa using hts
  unfold allRows
  simp only [List.filter_append]
  cases s <;> simp [hown, hother]

end AreSound

/-- A document of sound rows is read as a diagram whose elements are those of the rows. -/
theorem ofText_documentText {rows : Shelf → List Row} (h : AreSound R rows) :
    ∃ d : Diagram R, (Diagram.ofText standardCodec (documentText R rows).toList).result = .ok d ∧
      ∀ s, List.Forall₂ Row.Yields (rows s) (d.shelf s).values := by
  obtain ⟨first, last, ss, hread, hfirst, hss, hlast⟩ := readDocument_documentText h.sound
  have hreal := fun s hs => ((ends_readDocument _).ok hread s hs).1
  have hinner : (first :: (ss ++ [last])).filter (!·.body.isWrapper) = ss := by
    rw [List.filter_cons_of_neg (by rw [hfirst]; exact Bool.false_ne_true), List.filter_append,
      List.filter_cons_of_neg (by rw [hlast]; exact Bool.false_ne_true), List.filter_nil, List.append_nil]
    refine List.filter_eq_self.2 fun s hs => ?_
    obtain ⟨row, -, place, rfl⟩ := exists_of_forall₂ hss hs
    simpa [Row.statement] using row.isWrapper_body
  rw [← hinner] at hss
  obtain ⟨d, hd, hyields⟩ := ofStatements_rows h.sound hreal hss
  refine ⟨d, ?_, fun s => ?_⟩
  · unfold Diagram.ofText
    simp only [Logged.result_bind]
    rw [hread, ok_bind, hd]
    rfl
  · have hrows := hyields s
    rwa [h.filter_allRows] at hrows

end FeynmanTikz
