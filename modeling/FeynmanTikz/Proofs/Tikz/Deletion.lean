/-
The text of a diagram after a deletion.

Every element has a statement of its own.  A deletion takes the statement of its element away and
changes no other: a label that was bound to a deleted edge is written where it stood.

* `Diagram.line`: the statement for an element,
* `Orderly.result_statements`: the statements of a diagram are those of its elements, in order,
* `line_label_congr`: the statement for a label depends on its text and on where it stands,
* `Sound.line_deleted`: no other statement is changed by a deletion,
* `TakesLine`: a deletion takes one line from the text,
* `Sound.statements_unbound`: the text does not tell whether a label is bound,
* `delete_removes_line`: both, in every diagram that can be reached.
-/
import FeynmanTikz.Proofs.Diagram.Effects
import FeynmanTikz.Proofs.Tikz.Pages

namespace FeynmanTikz

open Edit

/-! ### Lists -/

section

variable {ε α β : Type} {f g : α → Except ε β}

theorem mapM_congr : ∀ {as : List α}, (∀ a ∈ as, f a = g a) → as.mapM f = as.mapM g
  | [], _ => rfl
  | a :: as, h => by
    rw [List.mapM_cons, List.mapM_cons, h a List.mem_cons_self,
      mapM_congr fun b hb => h b (List.mem_cons_of_mem _ hb)]

theorem mapM_eraseIdx : ∀ {as : List α} {bs : List β}, as.mapM f = .ok bs → ∀ i,
    (as.eraseIdx i).mapM f = .ok (bs.eraseIdx i)
  | [], bs, h, i => by
    cases h
    rfl
  | a :: as, bs, h, i => by
    rw [List.mapM_cons] at h
    obtain ⟨b, hb, h⟩ := bind_eq_ok.1 h
    obtain ⟨cs, hcs, h⟩ := bind_eq_ok.1 h
    cases h
    cases i with
    | zero => exact hcs
    | succ i =>
      rw [List.eraseIdx_cons_succ, List.mapM_cons, hb, ok_bind, mapM_eraseIdx hcs i]
      rfl

theorem exists_getElem?_of_mapM : ∀ {as : List α} {bs : List β}, as.mapM f = .ok bs →
    ∀ {i : Nat} {a : α}, as[i]? = some a → ∃ b, bs[i]? = some b ∧ f a = .ok b
  | [], _, _, _, _, hi => by cases hi
  | a :: as, bs, h, i, a', hi => by
    rw [List.mapM_cons] at h
    obtain ⟨b, hb, h⟩ := bind_eq_ok.1 h
    obtain ⟨cs, hcs, h⟩ := bind_eq_ok.1 h
    cases h
    cases i with
    | zero =>
      cases hi
      exact ⟨b, rfl, hb⟩
    | succ i => exact exists_getElem?_of_mapM hcs hi

/-- Where no two items have the same key, an item is taken away by its key or by its place. -/
theorem exists_filter_eq_eraseIdx {κ : Type} [DecidableEq κ] {key : α → κ} :
    ∀ {as : List α}, (as.map key).Nodup → ∀ {a : α}, a ∈ as →
      ∃ i : Nat, as[i]? = some a ∧ as.filter (fun b => key b ≠ key a) = as.eraseIdx i
  | b :: as, hn, a, ha => by
    obtain ⟨hb, hn⟩ := List.nodup_cons.1 hn
    rcases List.mem_cons.1 ha with rfl | ha
    · refine ⟨0, rfl, ?_⟩
      rw [List.filter_cons, if_neg (by simp), List.eraseIdx_cons_zero, List.filter_eq_self]
      intro c hc
      have hne : key c ≠ key a := fun h => hb (h ▸ List.mem_map_of_mem hc)
      simpa using hne
    · obtain ⟨i, hi, hf⟩ := exists_filter_eq_eraseIdx hn ha
      refine ⟨i + 1, hi, ?_⟩
      have hne : key b ≠ key a := fun h => hb (h ▸ List.mem_map_of_mem ha)
      rw [List.filter_cons, if_pos (by simpa using hne), List.eraseIdx_cons_succ, hf]

end

variable {R : Type} [Arithmetic R]

namespace Diagram

/-! ### Statements -/

/-- The statement for an element of a diagram. -/
def line (d : Diagram R) (codec : Given R (Codec R)) : Element R → Except (Fault R) String
  | .point p => formatPoint codec p
  | .edge e => formatEdge codec e
  | .ellipse e => formatEllipse codec e
  | .label l => (d.formatLabel codec l).result

/-- The statements of a diagram are those of its elements, in order. -/
theorem Orderly.result_statements {d : Diagram R} {n : Int} (h : d.Orderly n)
    (codec : Given R (Codec R)) :
    (d.statements codec).result = d.elements.mapM (d.line codec) := by
  -- Each collection holds elements of its own kind only.
  have key (s : Shelf) {f : Element R → Except (Fault R) String}
      (hf : ∀ e, s.admits e = true → f e = d.line codec e) :
      (d.shelf s).values.mapM f = (d.shelf s).values.mapM (d.line codec) :=
    mapM_congr fun e he => hf e (h.admits he)
  have hpoints : (d.points.values.mapM fun e => do formatPoint codec (← e.asPoint)) =
      d.points.values.mapM (d.line codec) :=
    key .points fun e he => by cases e <;> first | rfl | cases he
  have hedges : (d.edges.values.mapM fun e => do formatEdge codec (← e.asEdge)) =
      d.edges.values.mapM (d.line codec) :=
    key .edges fun e he => by cases e <;> first | rfl | cases he
  have hellipses : (d.ellipses.values.mapM fun e => do formatEllipse codec (← e.asEllipse)) =
      d.ellipses.values.mapM (d.line codec) :=
    key .ellipses fun e he => by cases e <;> first | rfl | cases he
  have hlabels : (d.labels.values.mapM fun e => do
      (d.formatLabel codec (← (liftM e.asLabel : Logged R (Label R)).result)).result) =
      d.labels.values.mapM (d.line codec) :=
    key .labels fun e he => by cases e <;> first | rfl | cases he
  unfold statements elements
  simp only [Logged.result_bind, Logged.result_ofExcept, Logged.result_pure, result_mapM, hpoints, hedges,
    hellipses, hlabels, List.mapM_append, bind_assoc, pure_eq_ok, ok_bind]

theorem result_code (d : Diagram R) (codec : Given R (Codec R)) :
    (d.code codec).result =
      (d.statements codec).result.map fun ts => "\n".intercalate (ts.map (indent ++ ·)) := by
  unfold code
  rw [Logged.result_bind]
  rcases (d.statements codec).result with e | ts <;> rfl

/-- The statement for a label depends on its text and on where it stands. -/
theorem line_label_congr {d t : Diagram R} {l l' : Label R} (htext : l'.text = l.text)
    (hresolve : (t.resolve l').result = (d.resolve l).result) (codec : Given R (Codec R)) :
    t.line codec (.label l') = d.line codec (.label l) := by
  unfold line formatLabel
  dsimp only
  rw [Logged.result_bind, Logged.result_bind, hresolve]
  refine bind_congr fun p => ?_
  unfold formatLabelAt
  rw [htext]

/-! ### After a deletion -/

/-- No two elements are found under the same key. -/
theorem Orderly.nodup_keys_elements {d : Diagram R} {n : Int} (h : d.Orderly n) :
    (d.elements.map fun e => e.id.key?).Nodup := by
  obtain ⟨is, his, hn, -⟩ := h.exists_ids
  have hkeys : (d.elements.map fun e => e.id.key?) = is.map fun i => some (intKey i) := by
    calc (d.elements.map fun e => e.id.key?)
        = (d.elements.map Element.id).map (·.key?) := by rw [List.map_map]; rfl
      _ = is.map fun i => some (intKey i) := by rw [his, List.map_map]; rfl
  rw [hkeys]
  exact hn.map fun i j hij => intKey_inj.1 (Option.some.inj hij)

namespace Sound

variable {d : Diagram R}

theorem elements_deleted (h : d.Sound) {s : Shelf} {e : Element R} (he : e ∈ (d.shelf s).values)
    {id : Value R} (hid : id.key? = e.id.key?) : (d.deleted s id).elements =
      (d.elements.filter fun x => x.id.key? ≠ e.id.key?).map (d.rested id fun _ => .none) := by
  obtain ⟨n, hn⟩ := h.orderly
  have hvalues (t : Shelf) : ((d.deleted s id).shelf t).values =
      ((d.shelf t).values.filter fun x => x.id.key? ≠ e.id.key?).map
        (d.rested id fun _ => .none) := by
    unfold Collection.values
    rw [h.entries_deleted he hid t, List.map_map, List.filter_map, List.map_map, hid]
    refine congrArg _ (List.filter_congr fun x hx => ?_)
    show decide (x.1.key? ≠ e.id.key?) = decide (x.2.id.key? ≠ e.id.key?)
    rw [(hn.own t x hx).1]
  have hpoints := hvalues .points
  have hedges := hvalues .edges
  have hellipses := hvalues .ellipses
  have hlabels := hvalues .labels
  simp only [shelf] at hpoints hedges hellipses hlabels
  unfold Diagram.elements
  rw [hpoints, hedges, hellipses, hlabels]
  simp only [List.filter_append, List.map_append]

/-- What is left is written as it was. -/
theorem line_deleted (h : d.Sound) {s : Shelf} {e : Element R} (he : e ∈ (d.shelf s).values)
    {id : Value R} (hid : id.key? = e.id.key?) (codec : Given R (Codec R)) {x : Element R}
    (hx : x ∈ d.elements) :
    (d.deleted s id).line codec (d.rested id (fun _ => .none) x) = d.line codec x := by
  cases x with
  | label l =>
    obtain ⟨n, hn⟩ := h.orderly
    obtain ⟨u, hu⟩ := mem_elements.1 hx
    have hl : .label l ∈ d.labels.values := by rwa [hn.eq_labels hu] at hu
    obtain ⟨l', hl', htext⟩ : ∃ l', d.rested id (fun _ => .none) (.label l) = .label l' ∧
        l'.text = l.text := by
      rw [rested_label]
      split <;> exact ⟨_, rfl, rfl⟩
    rw [hl']
    exact line_label_congr htext (h.resolve_deleted he hid hl hl') codec
  | _ => rfl

end Sound

/-- The statements of a picture, one per line. -/
def onePerLine (ts : List String) : String := "\n".intercalate (ts.map (indent ++ ·))

/-- What the deletion of an element under its id leads to, where `i` is the place of the element among
all. -/
structure TakesLine (d t : Diagram R) (e : Element R) (id : Value R) (i : Nat) : Prop where
  place : d.elements[i]? = some e
  next_eq : t.next = d.next
  /-- The others are where they were, and only labels of a deleted edge are changed. -/
  entries : ∀ s, (t.shelf s).entries =
    ((d.shelf s).entries.filter fun x => x.1.key? ≠ id.key?).map
      fun x => (x.1, d.rested id (fun _ => .none) x.2)
  /-- Every label that is left stands where it stood. -/
  resolve : ∀ l l', .label l ∈ d.labels.values → d.rested id (fun _ => .none) (.label l) = .label l' →
    (t.resolve l').result = (d.resolve l).result
  /-- The statement of the element is gone, and no other is changed. -/
  statements : ∀ codec ts, (d.statements codec).result = .ok ts →
    (∃ line, ts[i]? = some line ∧ d.line codec e = .ok line) ∧
      (t.statements codec).result = .ok (ts.eraseIdx i) ∧
      (t.code codec).result = .ok (onePerLine (ts.eraseIdx i))

/-- A deletion under the id of an element, in whatever form it is given. -/
theorem Sound.takesLine {d : Diagram R} (h : d.Sound) {e : Element R} (he : e ∈ d.elements)
    {id : Value R} (hid : id.key? = e.id.key?) :
    ∃ t i, (Diagram.delete id).outcome d = (.ok e, t) ∧ TakesLine d t e id i := by
  obtain ⟨n, hn⟩ := h.orderly
  obtain ⟨s, hs⟩ := mem_elements.1 he
  obtain ⟨i, hi, herase⟩ := exists_filter_eq_eraseIdx hn.nodup_keys_elements he
  refine ⟨d.deleted s id, i, h.outcome_delete_eq hs hid, hi, next_deleted d s id,
    h.entries_deleted hs hid, fun l l' hl hl' => h.resolve_deleted hs hid hl hl', ?_⟩
  intro codec ts hts
  rw [hn.result_statements] at hts
  have hlines : (d.deleted s id).elements.mapM ((d.deleted s id).line codec) =
      (d.elements.eraseIdx i).mapM (d.line codec) := by
    rw [h.elements_deleted hs hid, herase, List.mapM_map]
    exact mapM_congr fun x hx => h.line_deleted hs hid codec (List.mem_of_mem_eraseIdx hx)
  have hstatements : ((d.deleted s id).statements codec).result = .ok (ts.eraseIdx i) := by
    have hm : (d.deleted s id).Orderly n := by
      have hkeeps := Orderly.keeps_delete n id d hn
      rwa [h.outcome_delete_eq hs hid] at hkeeps
    rw [hm.result_statements, hlines]
    exact mapM_eraseIdx hts i
  refine ⟨exists_getElem?_of_mapM hts hi, hstatements, ?_⟩
  rw [result_code, hstatements]
  rfl

/-! ### After a label has been unbound -/

/-- A label where it stands, bound to nothing. -/
def unbound (d : Diagram R) (l : Label R) : Label R :=
  { l with position := d.standing l, binding := .none }

/-- A label is found under its id, in whatever form this is given. -/
theorem Sound.outcome_unbindLabel_eq {d : Diagram R} (h : d.Sound) {l : Label R}
    (hl : .label l ∈ d.labels.values) {id : Value R} (hid : id.key? = l.id.key?) :
    (Diagram.unbindLabel id).outcome d = (.ok (d.unbound l), d.replaceLabel id (d.unbound l)) := by
  obtain ⟨n, hn⟩ := h.orderly
  have hunder : d.labelUnder id = .ok l :=
    bind_eq_ok.2 ⟨_, hn.lookUp_of_mem (s := .labels) hl hid, rfl⟩
  have hfreed : d.freedLabel id = .ok (d.unbound l) :=
    bind_eq_ok.2 ⟨l, hunder, bind_eq_ok.2 ⟨_, h.resolve_standing hl, rfl⟩⟩
  rw [outcome_unbindLabel, hfreed]
  rfl

/-- The text of a diagram is the same whether a label is bound or stands there by itself. -/
theorem Sound.statements_unbound {d : Diagram R} (h : d.Sound) {l : Label R}
    (hl : .label l ∈ d.labels.values) {id : Value R} (hid : id.key? = l.id.key?)
    (codec : Given R (Codec R)) :
    ((d.replaceLabel id (d.unbound l)).statements codec).result = (d.statements codec).result := by
  obtain ⟨n, hn⟩ := h.orderly
  obtain ⟨x, hx, hxl⟩ := List.mem_map.1 hl
  obtain ⟨before, after, hsplit⟩ := List.append_of_mem hx
  obtain rfl : x = (l.id, .label l) := Prod.ext (by rw [(hn.own .labels x hx).1, hxl]; rfl) hxl
  have ht : (d.replaceLabel id (d.unbound l)).Orderly n := by
    have hkeeps := Orderly.keeps_unbindLabel n id d hn
    rwa [h.outcome_unbindLabel_eq hl hid] at hkeeps
  have hvalues : d.labels.values = before.map Prod.snd ++ .label l :: after.map Prod.snd := by
    show d.labels.entries.map Prod.snd = _
    rw [show d.labels.entries = _ from hsplit]
    simp
  have hvalues' : (d.replaceLabel id (d.unbound l)).labels.values =
      before.map Prod.snd ++ .label (d.unbound l) :: after.map Prod.snd := by
    have hinsert := hn.insert_eq (s := .labels) (e := .label l) (a := .label (d.unbound l)) hsplit hid
    show ((d.shelf .labels).insert id _).values = _
    rw [hinsert]
    simp [Collection.values]
  -- The edges are the same, so no other label is written anywhere else.
  have hline (e : Element R) : (d.replaceLabel id (d.unbound l)).line codec e = d.line codec e := by
    cases e with
    | label k => exact line_label_congr rfl (congrArg Logged.result (resolve_congr rfl k)) codec
    | _ => rfl
  have hresolve : (d.resolve (d.unbound l)).result = (d.resolve l).result :=
    (d.resolve_of_unbound rfl).trans (h.resolve_standing hl).symm
  have hlabel : d.line codec (.label (d.unbound l)) = d.line codec (.label l) :=
    line_label_congr (show (d.unbound l).text = l.text from rfl) hresolve codec
  rw [ht.result_statements, hn.result_statements, funext hline]
  unfold Diagram.elements
  rw [hvalues, hvalues']
  simp only [List.mapM_append, List.mapM_cons, hlabel]
  rfl

/-! ### In every diagram that can be reached -/

/-- After every run a deletion under the id of an element succeeds and takes one statement away, and a
label can be unbound without a change of the text. -/
theorem delete_removes_line {start : Diagram R} (hs : start.IsStart) (qs : List (Request R)) :
    (∀ e ∈ (start.run qs).elements, ∀ id : Value R, id.key? = e.id.key? → ∃ t i,
      (delete id).outcome (start.run qs) = (.ok e, t) ∧ TakesLine (start.run qs) t e id i) ∧
    ∀ l, .label l ∈ (start.run qs).labels.values → ∀ id : Value R, id.key? = l.id.key? → ∃ l' t,
      (unbindLabel id).outcome (start.run qs) = (.ok l', t) ∧ ∀ codec,
        (t.statements codec).result = ((start.run qs).statements codec).result ∧
          (t.code codec).result = ((start.run qs).code codec).result := by
  have h : (start.run qs).Sound := hs.sound.run qs
  refine ⟨fun e he id hid => h.takesLine he hid, fun l hl id hid => ?_⟩
  refine ⟨_, _, h.outcome_unbindLabel_eq hl hid, fun codec => ?_⟩
  have hstatements := h.statements_unbound hl hid codec
  refine ⟨hstatements, ?_⟩
  rw [result_code, result_code, hstatements]

/-- An edge with a label bound to it is deleted. -/
theorem delete_removes_line_tied : (empty : Diagram Float).IsStart ∧
    ∃ (e : Element Float) (t : Diagram Float) (i : Nat),
      (delete (.int 1)).outcome ((empty : Diagram Float).run (tiedRequests 5)) = (.ok e, t) ∧
      TakesLine ((empty : Diagram Float).run (tiedRequests 5)) t e (.int 1) i := by
  have hs : (empty : Diagram Float).IsStart := .inl rfl
  have hkey : ((empty : Diagram Float).run (tiedRequests 5)).elements.head?.map
      (fun e => e.id.key?) = some (Value.int 1 : Value Float).key? := by decide +kernel
  obtain ⟨e, he, hid⟩ := Option.map_eq_some_iff.1 hkey
  obtain ⟨t, i, h⟩ := (delete_removes_line hs (tiedRequests 5)).1 e (List.mem_of_head? he) (.int 1)
    hid.symm
  exact ⟨hs, e, t, i, h⟩

end Diagram

end FeynmanTikz
