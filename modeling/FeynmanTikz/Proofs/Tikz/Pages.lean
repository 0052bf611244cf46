/-
Whole documents, line by line.

* `documentText`: the text of a document whose statements are given as rows,
* `Transcribes.document`: this is what the writer writes for a diagram with these rows,
* `readLines_rows`: the lines of some rows are read as their statements,
* `readDocument_documentText`: the statements of a document are those of its rows, between the two
  statements around the picture.
-/
import FeynmanTikz.Proofs.Tikz.Additions
import FeynmanTikz.Proofs.Tikz.Written

namespace FeynmanTikz

variable {R : Type} [Arithmetic R]

/-! ### Writing documents -/

theorem toList_intercalate_newline : ∀ (w : String) (ws : List String),
    ("\n".intercalate (w :: ws)).toList ++ ['\n'] = onLines ((w :: ws).map String.toList)
  | w, [] => by simp [onLines]
  | w, v :: ws => by
    have ih := toList_intercalate_newline v ws
    rw [String.intercalate_cons_cons, String.toList_append, String.toList_append, List.append_assoc,
      List.append_assoc, ih]
    simp [onLines]

/-- All rows of a document, collection by collection. -/
def allRows (rows : Shelf → List Row) : List Row :=
  rows .points ++ rows .edges ++ rows .ellipses ++ rows .labels

/-- A row on its line. -/
def rowLine (R : Type) [Arithmetic R] (row : Row) : List Char := indent.toList ++ row.text R

/-- What stands above the statements of a document. -/
def openingLines : List (List Char) := headerLines.map String.toList ++ [beginPictureLine.toList]

/-- The lines of a document. -/
def documentLines (R : Type) [Arithmetic R] (rows : Shelf → List Row) : List (List Char) :=
  openingLines ++ (allRows rows).map (rowLine R) ++ [endPictureLine.toList]

/-- The text of a document. -/
def documentText (R : Type) [Arithmetic R] (rows : Shelf → List Row) : String :=
  String.ofList (onLines (documentLines R rows))

/-- The elements of a diagram are written as rows. -/
def Transcribes (d : Diagram R) (rows : Shelf → List Row) : Prop :=
  ∀ s, List.Forall₂ (fun e row => Row.Of d e row ∧ row.shelf = s) (d.shelf s).values (rows s)

omit [Arithmetic R] in
theorem result_mapM {α β : Type} (f : α → Logged R β) (as : List α) :
    (as.mapM f).result = as.mapM fun a => (f a).result := by
  have key : ∀ (as : List α) (bs : List β),
      (List.mapM.loop f as bs).result = List.mapM.loop (fun a => (f a).result) as bs := by
    intro as
    induction as with
    | nil => exact fun _ => rfl
    | cons a as ih =>
      intro bs
      show (f a >>= fun b => List.mapM.loop f as (b :: bs)).result = _
      rw [Logged.result_bind]
      exact congrArg _ (funext fun b => ih (b :: bs))
  exact key as []

/-- The statements of a diagram are written collection by collection. -/
theorem Diagram.statements_eq {d : Diagram R} {ts : Shelf → List String}
    (h : ∀ s, (d.shelf s).values.mapM (d.formatted s) = .ok (ts s)) :
    (d.statements standardCodec).result =
      .ok (ts .points ++ ts .edges ++ ts .ellipses ++ ts .labels) := by
  unfold Diagram.statements
  simp only [Logged.result_bind]
  show (d.points.values.mapM (d.formatted .points) >>= fun points =>
    d.edges.values.mapM (d.formatted .edges) >>= fun edges =>
    d.ellipses.values.mapM (d.formatted .ellipses) >>= fun ellipses =>
    ((d.labels.values.mapM fun e : Element R => do
      d.formatLabel standardCodec (← e.asLabel) : Logged R (List String)).result) >>= fun labels =>
      .ok (points ++ edges ++ ellipses ++ labels)) = _
  rw [result_mapM]
  have hp := h .points
  have he := h .edges
  have hl := h .ellipses
  have hb := h .labels
  simp only [Diagram.shelf] at hp he hl hb
  rw [hp, ok_bind, he, ok_bind, hl, ok_bind]
  show (d.labels.values.mapM (d.formatted .labels) >>= _) = _
  rw [hb, ok_bind]

/-- The statements of a diagram are the texts of its rows. -/
theorem Transcribes.formatted {d : Diagram R} {rows : Shelf → List Row} (h : Transcribes d rows)
    (s : Shelf) : (d.shelf s).values.mapM (d.formatted s) =
      .ok ((rows s).map fun row => String.ofList (row.text R)) := by
  refine mapM_eq_ok (List.forall₂_map_right_iff.2 ((h s).imp ?_))
  rintro e row ⟨hof, rfl⟩
  exact hof.formatted

/-- A document is its lines, and the statements stand on lines of their own. -/
theorem toList_document (body : List String) (hb : ∀ t ∈ body, t ≠ "") :
    ("\n".intercalate (headerLines ++ [beginPictureLine] ++
      (if ("\n".intercalate body).isEmpty then [] else ["\n".intercalate body]) ++ [endPictureLine]) ++
        "\n").toList =
      onLines (openingLines ++ body.map String.toList ++ [endPictureLine.toList]) := by
  have hwhole (ws : List String) : ("\n".intercalate (headerLines ++ ws) ++ "\n").toList =
      onLines ((headerLines ++ ws).map String.toList) := by
    rw [String.toList_append]
    exact toList_intercalate_newline _ _
  rw [List.append_assoc, List.append_assoc, hwhole]
  -- Without statements there is no body line at all, not even an empty one.
  cases body with
  | nil => simp [openingLines]
  | cons w ws =>
    have hne : ("\n".intercalate (w :: ws)).isEmpty = false := by
      have hw := hb w List.mem_cons_self
      cases ws with
      | nil => simpa using hw
      | cons v ws => simp [String.intercalate_cons_cons, hw]
    rw [if_neg (by rw [hne]; decide)]
    have hbody : onLines [("\n".intercalate (w :: ws)).toList] = onLines ((w :: ws).map String.toList) := by
      rw [← toList_intercalate_newline]
      simp [onLines]
    simp only [List.map_append, onLines_append, List.map_cons, List.map_nil] at hbody ⊢
    rw [hbody]
    simp [openingLines, onLines_append]

/-- The document of a diagram is its statements, each on a line of its own, in the picture. -/
theorem Diagram.document_eq {d : Diagram R} {ts : Shelf → List String}
    (h : ∀ s, (d.shelf s).values.mapM (d.formatted s) = .ok (ts s)) :
    ∃ text, (d.document standardCodec).result = .ok text ∧ text.toList = onLines (openingLines ++
      (ts .points ++ ts .edges ++ ts .ellipses ++ ts .labels).map (fun t => (indent ++ t).toList) ++
        [endPictureLine.toList]) := by
  unfold Diagram.document Diagram.code
  simp only [Logged.result_bind, Diagram.statements_eq h, ok_bind]
  refine ⟨_, rfl, (toList_document _ fun t ht hempty => ?_).trans ?_⟩
  · obtain ⟨u, -, rfl⟩ := List.mem_map.1 ht
    have hlength := congrArg (fun w => w.toList.length) hempty
    simp [indent] at hlength
  · simp only [List.map_map, Function.comp_def]

/-- The writer writes the document of the rows. -/
theorem Transcribes.document {d : Diagram R} {rows : Shelf → List Row} (h : Transcribes d rows) :
    (d.document standardCodec).result = .ok (documentText R rows) := by
  obtain ⟨text, htext, hlines⟩ := Diagram.document_eq h.formatted
  rw [htext]
  refine congrArg Except.ok (String.toList_inj.1 (hlines.trans ?_))
  have hrow (row : Row) : (indent ++ String.ofList (row.text R)).toList = rowLine R row := by
    rw [String.toList_append, String.toList_ofList, rowLine]
  rw [documentText, String.toList_ofList, documentLines]
  simp only [allRows, List.map_append, List.map_map, Function.comp_def, hrow]

/-! ### Reading documents -/

theorem readLine_comment (n : Nat) (t : List Char) :
    ∃ c, readLine (R := R) standardCodec n ('%' :: t) = .ok (.comment c) := by
  obtain ⟨ts, hts, hseen⟩ := Lexes.nil.before (Starts.comment (R := R) t) (.int n) 1
  obtain ⟨k, us, rfl, hk, -, -⟩ := Reads.cons_of_map hseen
  refine ⟨k.text, ?_⟩
  have hnone : readStatement (R := R) standardCodec (k :: us) = .ok none := by
    unfold readStatement
    dsimp only
    rw [if_pos hk]
  unfold readLine tokenize
  rw [hts, ok_bind, hnone]
  rfl

theorem headerLines_comment {l : String} (hl : l ∈ headerLines) :
    ∃ t, l.toList = '%' :: t ∧ OneLine t := by
  simp only [headerLines, List.mem_cons, List.not_mem_nil, or_false] at hl
  rcases hl with rfl | rfl | rfl
  · exact ⟨_, rfl, by decide⟩
  · exact ⟨_, rfl, by decide⟩
  · unfold inBraces
    simp only [String.toList_append]
    exact ⟨_, rfl, by decide⟩

omit [Arithmetic R] in
theorem lexes_environment (name : String)
    (hn : (∀ c ∈ name.toList, isLetter c = true) ∧ name.toList ≠ []) :
    Lexes R ("\\".toList ++ name.toList ++ ("\x7b".toList ++ pictureEnvironment.toList ++ "\x7d".toList))
      [(.command, name.toList), (.group, pictureEnvironment.toList)] := by
  refine Lexes.before ?_ (.command hn.1 hn.2 (by rintro c ⟨⟩; decide))
  exact Lexes.nil.before (.group rfl _)

theorem tells_begin : Tells (R := R) beginPictureLine.toList .beginPicture none := by
  unfold beginPictureLine inBraces
  simp only [String.toList_append]
  refine tells_of_lexes (lexes_environment "begin" (by decide)) fun command hc => ?_
  unfold readBody
  rw [hc, String.ofList_toList]
  exact reads_environment (.inl rfl)

theorem tells_end : Tells (R := R) endPictureLine.toList .endPicture none := by
  unfold endPictureLine inBraces
  simp only [String.toList_append]
  refine tells_of_lexes (lexes_environment "end" (by decide)) fun command hc => ?_
  unfold readBody
  rw [hc, String.ofList_toList]
  exact reads_environment (.inr rfl)

theorem readLines_of_statement {codec : Given R (Codec R)} {n : Nat} {l : List Char}
    {s : Statement R}
    (h : readLine codec n l = .ok (.statement s)) (above : Option (Statement R))
    (rest : List (List Char)) : (readLines codec n above (l :: rest)).result =
      ((readLines codec (n + 1) (some s) rest).result.map fun ss => above.toList ++ ss) := by
  rw [readLines, h]
  show (Logged.record (.statementRead n s.body.kind) >>= fun _ =>
    readLines codec (n + 1) (some s) rest >>= fun ss =>
      (pure (above.toList ++ ss) : Logged R _)).result = _
  simp only [Logged.result_bind]
  show ((readLines codec (n + 1) (some s) rest).result >>= _) = _
  rcases (readLines codec (n + 1) (some s) rest).result with e | ss <;> rfl

/-- A text that is a single line is read as the statement on it. -/
theorem readDocument_of_statement {codec : Given R (Codec R)} {t : List Char} {s : Statement R}
    (ht : OneLine t) (hne : t ≠ []) (h : readLine codec 1 t = .ok (.statement s)) :
    (readDocument codec t).result = .ok [s] := by
  unfold readDocument
  rw [lines_of_oneLine ht hne, readLines_of_statement h]
  rfl

theorem readLines_of_comment {n : Nat} {l : List Char} {c : Value R}
    (h : readLine standardCodec n l = .ok (.comment c)) (rest : List (List Char)) :
    (readLines (R := R) standardCodec n none (l :: rest)).result =
      (readLines standardCodec (n + 1) none rest).result := by
  rw [readLines, h]
  show ((readLines standardCodec (n + 1) none rest : Logged R (List (Statement R))) >>= fun ss =>
    pure ([] ++ ss)).result = _
  rw [Logged.result_bind]
  rcases (readLines standardCodec (n + 1) none rest).result with e | ss <;> rfl

/-- Comments at the top of a document are passed over. -/
theorem readLines_comments (rest : List (List Char)) : ∀ {header : List String} {n : Nat},
    (∀ l ∈ header, ∃ t, l.toList = '%' :: t) →
      (readLines (R := R) standardCodec n none (header.map String.toList ++ rest)).result =
        (readLines standardCodec (n + header.length) none rest).result
  | [], _, _ => rfl
  | l :: header, n, hl => by
    obtain ⟨t, ht⟩ := hl l List.mem_cons_self
    obtain ⟨c, hc⟩ := readLine_comment (R := R) n t
    rw [← ht] at hc
    rw [List.map_cons, List.cons_append, readLines_of_comment hc,
      readLines_comments rest fun m hm => hl m (List.mem_cons_of_mem _ hm), List.length_cons,
      show n + 1 + header.length = n + (header.length + 1) by omega]

/-- The lines above the statements are read as the statement that opens the picture. -/
theorem readLines_opening (R : Type) [Arithmetic R] : ∃ (n : Nat) (first : Statement R),
    first.body = .beginPicture ∧ ∀ rest : List (List Char),
      (readLines standardCodec 1 none (openingLines ++ rest)).result =
        (readLines standardCodec n (some first) rest).result := by
  obtain ⟨place, hp⟩ := tells_begin (R := R) (1 + headerLines.length)
  refine ⟨1 + headerLines.length + 1, ⟨place, .beginPicture, commentValue none⟩, rfl, fun rest => ?_⟩
  rw [openingLines, List.append_assoc, readLines_comments _ fun l hl => by
    obtain ⟨t, ht, -⟩ := headerLines_comment hl
    exact ⟨t, ht⟩]
  rw [List.singleton_append, readLines_of_statement hp]
  rcases (readLines standardCodec _ _ rest).result with e | ss <;> rfl

/-- The statements are read from rows. -/
def AreRead (rows : List Row) (ss : List (Statement R)) : Prop :=
  List.Forall₂ (fun row s => ∃ place, s = row.statement place) rows ss

theorem readLines_rows : ∀ {rows : List Row} (n : Nat) (above : Statement R),
    (∀ row ∈ rows, row.Sound R) → ∃ ss last,
      (readLines standardCodec n (some above) (rows.map (rowLine R) ++ [endPictureLine.toList])).result =
        .ok (above :: (ss ++ [last])) ∧ AreRead rows ss ∧ last.body = .endPicture
  | [], n, above, _ => by
    obtain ⟨place, hp⟩ := tells_end (R := R) n
    exact ⟨[], _, readLines_of_statement hp _ _, .nil, rfl⟩
  | row :: rows, n, above, h => by
    obtain ⟨place, hp⟩ := (h row List.mem_cons_self).tells n
    obtain ⟨ss, last, hread, hss, hlast⟩ := readLines_rows (n + 1) (row.statement place)
      fun r hr => h r (List.mem_cons_of_mem _ hr)
    refine ⟨row.statement place :: ss, last, ?_, .cons ⟨place, rfl⟩ hss, hlast⟩
    rw [List.map_cons, List.cons_append]
    exact (readLines_of_statement hp _ _).trans (congrArg (Except.map _) hread)

theorem oneLine_openingLines : ∀ l ∈ openingLines, OneLine l := by
  intro l hl
  simp only [openingLines, List.mem_append, List.mem_map, List.mem_singleton] at hl
  rcases hl with ⟨t, ht, rfl⟩ | rfl
  · obtain ⟨u, hu, ho⟩ := headerLines_comment ht
    rw [hu]
    exact .cons rfl ho
  · unfold beginPictureLine inBraces
    simp only [String.toList_append]
    decide

theorem oneLine_endPictureLine : OneLine endPictureLine.toList := by
  unfold endPictureLine inBraces
  simp only [String.toList_append]
  decide

/-- The lines of a document are lines. -/
theorem oneLine_documentLines {rows : Shelf → List Row} (hs : ∀ row ∈ allRows rows, row.Sound R) :
    ∀ l ∈ documentLines R rows, OneLine l := by
  intro l hl
  simp only [documentLines, List.mem_append, List.mem_map, List.mem_singleton] at hl
  rcases hl with (hl | ⟨row, hrow, rfl⟩) | rfl
  · exact oneLine_openingLines l hl
  · exact OneLine.append (by decide) (hs row hrow).oneLine
  · exact oneLine_endPictureLine

/-- The statements of a document are those of its rows, between two that stand around them. -/
theorem readDocument_documentText {rows : Shelf → List Row}
    (hs : ∀ row ∈ allRows rows, row.Sound R) : ∃ (first last : Statement R) (ss : List (Statement R)),
      (readDocument standardCodec (documentText R rows).toList).result = .ok (first :: (ss ++ [last])) ∧
        first.body = .beginPicture ∧ AreRead (allRows rows) ss ∧ last.body = .endPicture := by
  obtain ⟨n, first, hfirst, hopening⟩ := readLines_opening R
  obtain ⟨ss, last, hread, hss, hlast⟩ := readLines_rows n first hs
  refine ⟨first, last, ss, ?_, hfirst, hss, hlast⟩
  unfold readDocument documentText
  rw [String.toList_ofList, lines_onLines (oneLine_documentLines hs), documentLines, List.append_assoc,
    hopening]
  exact hread

end FeynmanTikz
