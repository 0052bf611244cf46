/-
Joining option lists.

The counter that cuts an option list is back at zero behind every option, whatever stands in it, so what
has been joined at commas is cut there again.

* `settles_iff`: a text has no comma to be cut at, and where the counter stands after it,
* `exists_pieces`: a text is cut in the same way whatever follows it, and the last piece goes on,
* `IsOption`: texts that can be joined to others,
* `splitOptions_comma_iff`: a comma ends an option list if and only if the counter is at zero there and no
  escape takes the comma along,
* `splitOptions_joined`: options that have been joined are found again.
-/
import FeynmanTikz.Proofs.Tikz.Nesting
import FeynmanTikz.Proofs.Tikz.Written

namespace FeynmanTikz

/-! ### Commas -/

/-- No comma stands where the counter is at zero, unless it is escaped. -/
def Uncut (d : Int) (t : List Char) : Prop :=
  ∀ p q, t = p ++ ',' :: q → endsInEscape p = false → depthAfter d p ≠ 0

theorem uncut_nil (d : Int) : Uncut d [] := by
  intro p q ht
  simp at ht

theorem uncut_escape {d : Int} {c : Char} {t : List Char} : Uncut d ('\\' :: c :: t) ↔ Uncut d t := by
  constructor
  · intro h p q ht he
    exact h ('\\' :: c :: p) q (by rw [ht]; rfl) (by rwa [endsInEscape_escape])
  · intro h p q ht he
    match p, ht, he with
    | [x], ht, he =>
      obtain ⟨rfl, -⟩ := List.cons.inj ht
      cases he
    | x :: y :: p, ht, he =>
      obtain ⟨rfl, hmore⟩ := List.cons.inj ht
      obtain ⟨rfl, htail⟩ := List.cons.inj hmore
      rw [endsInEscape_escape] at he
      exact h p q htail he

theorem uncut_cons {d : Int} {c : Char} {t : List Char} (hc : c ≠ '\\') :
    Uncut d (c :: t) ↔ (c = ',' → d ≠ 0) ∧ Uncut (d + turn c) t := by
  constructor
  · intro h
    refine ⟨?_, fun p q ht he => ?_⟩
    · rintro rfl
      exact h [] t rfl rfl
    · rw [← depthAfter_cons hc]
      exact h (c :: p) q (by rw [ht]; rfl) (by rwa [endsInEscape_cons hc])
  · rintro ⟨hcomma, h⟩ p q ht he
    cases p with
    | nil => exact hcomma (List.cons.inj ht).1
    | cons x p =>
      obtain ⟨rfl, htail⟩ := List.cons.inj ht
      rw [depthAfter_cons hc]
      exact h p q htail (by rwa [endsInEscape_cons hc] at he)

theorem settles_turn {c : Char} (hc : c ≠ '\\') (d : Int) (t : List Char) :
    settles d (c :: t) = if c = ',' ∧ d = 0 then none else settles (d + turn c) t := by
  rw [settles_cons hc]
  unfold turn
  grind

/-- A text settles the counter if it has no comma to be cut at and does not escape what follows it. -/
theorem settles_iff {d e : Int} {t : List Char} :
    settles d t = some e ↔ depthAfter d t = e ∧ endsInEscape t = false ∧ Uncut d t := by
  induction t using escapeInduction generalizing d with
  | nil =>
    have hnil : settles d [] = some d := rfl
    simp [hnil, depthAfter, uncut_nil, show endsInEscape [] = false from rfl]
  | cut =>
    constructor
    · intro h
      cases h
    · rintro ⟨-, he, -⟩
      cases he
  | escape c t ih =>
    rw [uncut_escape, endsInEscape_escape]
    exact ih
  | cons c t hc ih =>
    rw [uncut_cons hc, endsInEscape_cons hc, depthAfter_cons hc, settles_turn hc]
    split_ifs with hcut
    · simp [hcut]
    · have hkept : c = ',' → d ≠ 0 := fun hcomma hd => hcut ⟨hcomma, hd⟩
      rw [ih, and_iff_right hkept]

/-! ### Pieces of texts that go on -/

theorem optionPieces_step {c : Char} (hc : c ≠ '\\') (d : Int) (t : List Char) :
    optionPieces d (c :: t) =
      if c = ',' ∧ d = 0 then [] :: optionPieces 0 t else consFirst c (optionPieces (d + turn c) t) := by
  by_cases hcomma : c = ','
  · subst hcomma
    rw [optionPieces_cons hc, if_neg (by decide), if_neg (by decide), show turn ',' = 0 from rfl,
      Int.add_zero]
  · rw [optionPieces_turn hc hcomma, if_neg fun hcut => hcomma hcut.1]

/-- A character in front changes the first piece, which may be the one that goes on. -/
theorem exists_consFirst (c : Char) (ps : List (List Char)) (p : List Char) : ∃ ps' p',
    ∀ qs, consFirst c (ps ++ prepend p qs) = ps' ++ prepend p' qs := by
  cases ps with
  | nil => exact ⟨[], c :: p, fun _ => rfl⟩
  | cons q ps => exact ⟨(c :: q) :: ps, p, fun _ => rfl⟩

/-- A text is cut in the same way whatever follows it, and its last piece goes on. -/
theorem exists_pieces {t : List Char} (d : Int) (he : endsInEscape t = false) : ∃ ps p, ∀ u,
    optionPieces d (t ++ u) = ps ++ prepend p (optionPieces (depthAfter d t) u) := by
  induction t using escapeInduction generalizing d with
  | nil => exact ⟨[], [], fun _ => rfl⟩
  | cut => cases he
  | escape c t ih =>
    rw [endsInEscape_escape] at he
    obtain ⟨ps, p, hpieces⟩ := ih d he
    obtain ⟨ps₁, p₁, h₁⟩ := exists_consFirst c ps p
    obtain ⟨ps₂, p₂, h₂⟩ := exists_consFirst '\\' ps₁ p₁
    refine ⟨ps₂, p₂, fun u => ?_⟩
    show consFirst '\\' (consFirst c (optionPieces d (t ++ u))) = _
    rw [hpieces, h₁, h₂]
    rfl
  | cons c t hc ih =>
    rw [endsInEscape_cons hc] at he
    rw [depthAfter_cons hc]
    obtain ⟨ps, p, hpieces⟩ := ih (d + turn c) he
    by_cases hcut : c = ',' ∧ d = 0
    · obtain ⟨rfl, rfl⟩ := hcut
      refine ⟨[] :: ps, p, fun u => ?_⟩
      rw [List.cons_append, optionPieces_step hc, if_pos ⟨rfl, rfl⟩]
      exact congrArg _ (hpieces u)
    · obtain ⟨ps', p', h⟩ := exists_consFirst c ps p
      refine ⟨ps', p', fun u => ?_⟩
      rw [List.cons_append, optionPieces_step hc, if_neg hcut, hpieces, h]

/-! ### Options at a comma -/

theorem trimmedPieces_append (ps qs : List (List Char)) :
    trimmedPieces (ps ++ qs) = trimmedPieces ps ++ trimmedPieces qs := by
  simp [trimmedPieces]

/-- An option that goes on is another one. -/
theorem trimmedPieces_longer (ps : List (List Char)) (p u : List Char) {c : Char} (hc : isBlank c = false) :
    trimmedPieces (ps ++ [p ++ c :: u]) ≠ trimmedPieces (ps ++ [p]) := by
  have hlonger : trim (p ++ c :: u) ≠ [] := trim_ne_nil (not_blank_of_mem (c := c) (by simp) hc)
  rw [trimmedPieces_append, trimmedPieces_append, trimmedPieces_cons, if_neg hlonger, trimmedPieces_cons]
  intro h
  replace h := List.append_cancel_left h
  by_cases hp : ∀ x ∈ p, isBlank x = true
  · have htrim : trim p = [] := by
      unfold trim trimLeft
      rw [List.dropWhile_eq_nil_iff.2 hp]
      rfl
    rw [if_pos htrim] at h
    cases h
  · rw [if_neg (trim_ne_nil hp)] at h
    exact trim_ne_trim_append hp u hc (List.cons.inj h).1.symm

/-- A comma where the counter is at zero ends the options before it. -/
theorem splitOptions_comma {t : List Char} (hd : depthAfter 0 t = 0) (he : endsInEscape t = false)
    (u : List Char) : splitOptions (t ++ ',' :: u) = splitOptions t ++ splitOptions u := by
  obtain ⟨ps, p, hpieces⟩ := exists_pieces 0 he
  have hself : optionPieces 0 t = ps ++ [p] := by simpa [optionPieces, prepend_cons] using hpieces []
  have hcut : optionPieces 0 (t ++ ',' :: u) = ps ++ [p] ++ optionPieces 0 u := by
    rw [hpieces, hd, optionPieces_step (by decide), if_pos ⟨rfl, rfl⟩, prepend_cons]
    simp
  unfold splitOptions
  rw [hcut, hself, trimmedPieces_append]

/-- Elsewhere a comma belongs to the last piece. -/
theorem exists_pieces_comma {t : List Char} (h : ¬(depthAfter 0 t = 0 ∧ endsInEscape t = false)) :
    ∃ ps p, optionPieces 0 t = ps ++ [p] ∧ optionPieces 0 (t ++ [',']) = ps ++ [p ++ [',']] := by
  cases he : endsInEscape t with
  | true =>
    obtain ⟨v, rfl, hv⟩ : ∃ v, t = v ++ ['\\'] ∧ endsInEscape v = false := by
      rcases List.eq_nil_or_concat t with rfl | ⟨v, c, rfl⟩
      · cases he
      · rw [List.concat_eq_append, endsInEscape_concat] at he
        exact ⟨v, by simp_all⟩
    obtain ⟨ps, p, hpieces⟩ := exists_pieces 0 hv
    refine ⟨ps, p ++ ['\\'], ?_, ?_⟩
    · simpa [optionPieces, prepend_cons] using hpieces ['\\']
    · simpa [optionPieces, prepend_cons, consFirst] using hpieces ['\\', ',']
  | false =>
    have hd : depthAfter 0 t ≠ 0 := fun hd => h ⟨hd, he⟩
    obtain ⟨ps, p, hpieces⟩ := exists_pieces 0 he
    refine ⟨ps, p, ?_, ?_⟩
    · simpa [optionPieces, prepend_cons] using hpieces []
    · simpa [optionPieces, prepend_cons, consFirst, hd] using hpieces [',']

/-- A comma ends the options before it if and only if the counter is at zero there and no escape takes the
comma along. -/
theorem splitOptions_comma_iff {t : List Char} : depthAfter 0 t = 0 ∧ endsInEscape t = false ↔
    ∀ u, splitOptions (t ++ ',' :: u) = splitOptions t ++ splitOptions u := by
  constructor
  · rintro ⟨hd, he⟩
    exact splitOptions_comma hd he
  · intro h
    by_contra hopen
    obtain ⟨ps, p, hself, hmore⟩ := exists_pieces_comma hopen
    refine trimmedPieces_longer ps p [] (c := ',') (by decide) ?_
    rw [← hself, ← hmore]
    exact (h []).trans (List.append_nil _)

/-! ### Options that are joined -/

/-- A text that can be joined to others with commas. -/
structure IsOption (w : List Char) : Prop where
  nonempty : w ≠ []
  /-- It does not start with a blank. -/
  start : ∀ c ∈ w.head?, isBlank c = false
  /-- It does not end with a blank. -/
  finish : ∀ c ∈ w.getLast?, isBlank c = false
  /-- It closes as many brackets as it opens. -/
  closed : depthAfter 0 w = 0
  /-- It has no comma of its own outside its brackets. -/
  uncut : Uncut 0 w
  /-- It does not escape what follows it. -/
  unescaped : endsInEscape w = false

theorem IsOption.isEntry {w : List Char} (h : IsOption w) : IsEntry w where
  settled := settles_iff.2 ⟨h.closed, h.unescaped, h.uncut⟩
  trimmed := by
    obtain ⟨c, hc⟩ := Option.ne_none_iff_exists'.1 (mt List.head?_eq_none_iff.1 h.nonempty)
    obtain ⟨e, he⟩ := Option.ne_none_iff_exists'.1 (mt List.getLast?_eq_none_iff.1 h.nonempty)
    exact trim_of_ends hc (h.start c hc) he (h.finish e he)
  nonempty := h.nonempty

/-- Whether a text is an option can be found out by running the counter and looking at its ends. -/
theorem IsOption.of_settles {w : List Char} {c e : Char} (hs : settles 0 w = some 0)
    (hc : w.head? = some c) (hstart : isBlank c = false) (he : w.getLast? = some e)
    (hfinish : isBlank e = false) : IsOption w where
  nonempty := by
    rintro rfl
    cases hc
  start := by
    intro x hx
    rwa [← Option.some.inj (hc.symm.trans hx)]
  finish := by
    intro x hx
    rwa [← Option.some.inj (he.symm.trans hx)]
  closed := (settles_iff.1 hs).1
  uncut := (settles_iff.1 hs).2.2
  unescaped := (settles_iff.1 hs).2.1

theorem toList_commaSeparated (ws : List String) :
    (Value.commaSeparated ws).toList = joined (ws.map String.toList) := by
  have hjoined := commaSeparated_eq (ws.map String.toList)
  have hid : String.ofList ∘ String.toList = id := funext fun _ => String.ofList_toList
  rw [List.map_map, hid, List.map_id] at hjoined
  rw [hjoined, String.toList_ofList]

/-- Options that have been joined are cut where they have been joined.  So is any text at any comma where
its counter is at zero, and at no other. -/
theorem splitOptions_joined :
    (∀ ws : List String, (∀ w ∈ ws, IsOption w.toList) →
      splitOptions (Value.commaSeparated ws).toList = ws.map String.toList) ∧
    ∀ t, depthAfter 0 t = 0 ∧ endsInEscape t = false ↔
      ∀ u, splitOptions (t ++ ',' :: u) = splitOptions t ++ splitOptions u := by
  refine ⟨fun ws h => ?_, fun t => splitOptions_comma_iff⟩
  have hentries : ∀ p ∈ ws.map String.toList, IsEntry p := by
    intro p hp
    obtain ⟨w, hw, rfl⟩ := List.mem_map.1 hp
    exact (h w hw).isEntry
  have hsplit := splitOptions_append hentries []
  rw [List.append_nil] at hsplit
  rw [toList_commaSeparated, hsplit]
  exact List.append_nil _

/-- Commas in braces, behind a backslash, and behind a bracket that is closed before it is opened. -/
theorem splitOptions_joined_unusual :
    (∀ w ∈ ["draw=\x7brgb,255:red,1;green,2;blue,3\x7d", "a\\,b", "x],[y"], IsOption w.toList) ∧
      splitOptions (Value.commaSeparated
        ["draw=\x7brgb,255:red,1;green,2;blue,3\x7d", "a\\,b", "x],[y"]).toList =
        ["draw=\x7brgb,255:red,1;green,2;blue,3\x7d".toList, "a\\,b".toList, "x],[y".toList] := by
  have hoptions : ∀ w ∈ ["draw=\x7brgb,255:red,1;green,2;blue,3\x7d", "a\\,b", "x],[y"],
      IsOption w.toList := by
    rw [List.forall_mem_cons, List.forall_mem_cons, List.forall_mem_singleton]
    exact ⟨.of_settles rfl rfl rfl rfl rfl, .of_settles rfl rfl rfl rfl rfl, .of_settles rfl rfl rfl rfl rfl⟩
  exact ⟨hoptions, splitOptions_joined.1 _ hoptions⟩

end FeynmanTikz
