/-
A text is read line by line.

The reader goes through the lines with the statement right above in its hands, which may still take a
comment.  What comes out is what the lines say on their own, except that an edge without an arrow
comment takes that of the line right below it.

* `carriesArrow`, `arrowLine?`: comments that carry an arrow style, after a statement or on a line of
  their own,
* `settled`: what a line and the one below it contribute to a text,
* `readLines_eq`: the reader fails as the first line that cannot be read, and otherwise gives what the
  lines contribute,
* `TakesBelow`, `SettledAs`, `settled_eq_some`: what becomes of a statement by the line below it,
* `readDocument_byLines`: reading a text, in these terms,
* `ends_readDocument`: the statements of a text are of numbers and stand on its lines, or a line is
  unreadable.
-/
import FeynmanTikz.Proofs.Tikz.Refusals

namespace FeynmanTikz

variable {R : Type} [Arithmetic R]

/-! ### What lines contribute -/

section

omit [Arithmetic R]

/-- Whether a comment carries an arrow style, known or not. -/
def carriesArrow (codec : Given R (Codec R)) (comment : Value R) : Bool :=
  match isArrowComment codec comment with
  | .ok b => b
  | .error _ => false

/-- Whether a text carries an arrow style can always be told. -/
theorem isArrowComment_of_isText {c : Codec R} {comment : Value R} (h : IsText comment) :
    isArrowComment c.given comment = .ok (carriesArrow c.given comment) := by
  obtain ⟨t, rfl⟩ := h
  have hchars : (Value.text t : Value R).characters = .ok t.toList := rfl
  have hb : ∃ b, isArrowComment c.given (.text t) = .ok b := by
    unfold isArrowComment
    rw [hchars, ok_bind]
    cases commentParts? t.toList with
    | none => exact ⟨_, rfl⟩
    | some parts => exact ⟨_, rfl⟩
  obtain ⟨b, hb⟩ := hb
  unfold carriesArrow
  rw [hb]

/-- The comment on a line that holds nothing else, if it carries an arrow style. -/
def arrowLine? (codec : Given R (Codec R)) (n : Nat) (line : List Char) : Option (Value R) :=
  match tokenize (.int n) line with
  | .ok [t] => if t.kind = .comment ∧ carriesArrow codec t.text then some t.text else none
  | _ => none

/-- The statement with the arrow comment of the line below, if there is one: an edge takes it unless it
has one of its own. -/
def Statement.takes (codec : Given R (Codec R)) (s : Statement R) : Option (Value R) → Statement R
  | some c => if s.body.isEdge ∧ ¬carriesArrow codec s.comment then { s with comment := c } else s
  | none => s

end

/-- What line number `n` contributes to a text, given the line below it, if there is one. -/
def settled (codec : Given R (Codec R)) (n : Nat) (line : List Char) (below : Option (List Char)) :
    Option (Statement R) :=
  match lineStatement codec n line with
  | .ok (some s) => some (s.takes codec (below.bind (arrowLine? codec (n + 1))))
  | _ => none

/-- What some lines contribute, the first of which is number `n`. -/
def settledFrom (codec : Given R (Codec R)) (n : Nat) : List (List Char) → List (Statement R)
  | [] => []
  | line :: rest => (settled codec n line rest.head?).toList ++ settledFrom codec (n + 1) rest

/-- Reads some lines, each on its own, up to the first that cannot be read. -/
def readEach (codec : Given R (Codec R)) (n : Nat) : List (List Char) → Except (Fault R) Unit
  | [] => .ok ()
  | line :: rest => do
    let _ ← (lineStatement codec n line).mapError (withExcerpt line)
    readEach codec (n + 1) rest

theorem readEach_eq_ok {codec : Given R (Codec R)} {n : Nat} {ls : List (List Char)} :
    readEach codec n ls = .ok () ↔
      ∀ i line, ls[i]? = some line → ∃ o, lineStatement codec (n + i) line = .ok o := by
  induction ls generalizing n with
  | nil => simp [readEach]
  | cons line rest ih =>
    rw [readEach]
    rcases hl : lineStatement codec n line with e | o
    · -- The first line already fails.
      refine iff_of_false (fun h => by cases h) fun h => ?_
      obtain ⟨o, ho⟩ := h 0 line rfl
      rw [Nat.add_zero, hl] at ho
      cases ho
    · have hstep : readEach codec (n + 1) rest = .ok () ↔
          ∀ i l, rest[i]? = some l → ∃ o, lineStatement codec (n + (i + 1)) l = .ok o := by
        simp only [ih, Nat.add_assoc, Nat.add_comm 1]
      refine hstep.trans ⟨fun h i l hi => ?_, fun h i l hi => h (i + 1) l hi⟩
      cases i with
      | zero =>
        cases hi
        exact ⟨o, hl⟩
      | succ i => exact h i l hi

/-- Of some lines, the first of which is number `n`, the one at `i` is the first that cannot be read,
and `e` is its failure. -/
structure IsFirstFault (codec : Given R (Codec R)) (n : Nat) (ls : List (List Char)) (i : Nat)
    (line : List Char) (e : Fault R) : Prop where
  here : ls[i]? = some line
  fails : ∃ fault, lineStatement codec (n + i) line = .error fault ∧ e = withExcerpt line fault
  earlier : ∀ j < i, ∀ l, ls[j]? = some l → ∃ o, lineStatement codec (n + j) l = .ok o

/-- The first of the lines that cannot be read is at fault. -/
theorem readEach_eq_error {codec : Given R (Codec R)} {n : Nat} {ls : List (List Char)} {e : Fault R} :
    readEach codec n ls = .error e ↔ ∃ i line, IsFirstFault codec n ls i line e := by
  induction ls generalizing n with
  | nil => exact iff_of_false (fun h => by cases h) fun ⟨i, l, h⟩ => by cases h.here
  | cons line rest ih =>
    rw [readEach]
    rcases hl : lineStatement codec n line with fault | o
    · constructor
      · intro h
        cases h
        exact ⟨0, line, rfl, ⟨fault, hl, rfl⟩, fun j hj => absurd hj (Nat.not_lt_zero j)⟩
      · rintro ⟨i, l, hi, ⟨fault', hf, rfl⟩, hbefore⟩
        cases i with
        | zero =>
          cases hi
          rw [Nat.add_zero, hl] at hf
          cases hf
          rfl
        | succ i =>
          obtain ⟨o, ho⟩ := hbefore 0 (Nat.zero_lt_succ i) line rfl
          rw [Nat.add_zero, hl] at ho
          cases ho
    · -- The first line can be read, so the fault is in the others, which are counted from the next.
      have hnumber (i : Nat) : n + 1 + i = n + (i + 1) := by omega
      refine (ih (n := n + 1)).trans ⟨?_, ?_⟩
      · rintro ⟨i, l, hi, hf, hbefore⟩
        rw [hnumber] at hf
        refine ⟨i + 1, l, hi, hf, fun j hj m hm => ?_⟩
        cases j with
        | zero =>
          cases hm
          exact ⟨o, hl⟩
        | succ j =>
          rw [← hnumber]
          exact hbefore j (Nat.lt_of_succ_lt_succ hj) m hm
      · rintro ⟨i, l, hi, hf, hbefore⟩
        cases i with
        | zero =>
          cases hi
          obtain ⟨fault, hf, -⟩ := hf
          rw [Nat.add_zero, hl] at hf
          cases hf
        | succ i =>
          rw [← hnumber] at hf
          refine ⟨i, l, hi, hf, fun j hj m hm => ?_⟩
          rw [hnumber]
          exact hbefore (j + 1) (Nat.succ_lt_succ hj) m hm

/-- What some lines contribute, line by line. -/
theorem settledFrom_eq (codec : Given R (Codec R)) (n : Nat) (ls : List (List Char)) :
    settledFrom codec n ls = (List.range ls.length).filterMap fun i =>
      ls[i]?.bind fun line => settled codec (n + i) line ls[i + 1]? := by
  induction ls generalizing n with
  | nil => rfl
  | cons line rest ih =>
    rw [settledFrom, ih, List.length_cons, List.range_succ_eq_map, List.filterMap_cons,
      List.filterMap_map]
    have htail : (fun i => rest[i]?.bind fun l => settled codec (n + 1 + i) l rest[i + 1]?) =
        (fun i => (line :: rest)[i]?.bind fun l => settled codec (n + i) l (line :: rest)[i + 1]?) ∘
          Nat.succ := by
      funext i
      simp only [Function.comp_apply, List.getElem?_cons_succ, Nat.succ_eq_add_one, Nat.add_assoc,
        Nat.add_comm 1]
    rw [htail]
    simp only [List.getElem?_cons_zero, Option.bind_some, Nat.add_zero, List.getElem?_cons_succ,
      List.head?_eq_getElem?]
    cases settled codec n line rest[0]? <;> rfl

/-! ### Reading lines -/

variable {codec : Given R (Codec R)} {n : Nat} {line : List Char}

theorem readLine_of_error {e : Fault R} (h : lineStatement codec n line = .error e) :
    readLine codec n line = .error e := by
  unfold lineStatement at h
  unfold readLine
  rcases hts : tokenize (.int n) line with f | ts
  · rw [hts] at h
    cases h
    rfl
  · rw [hts, ok_bind] at h
    rw [ok_bind, h]
    rfl

/-- A line with a statement is no comment line, and the comment of the statement is a text. -/
theorem readLine_of_statement {s : Statement R} (h : lineStatement codec n line = .ok (some s)) :
    readLine codec n line = .ok (.statement s) ∧ arrowLine? codec n line = none ∧
      IsText s.comment := by
  obtain ⟨ts, hts, h⟩ := bind_eq_ok.1 h
  have hcut := (ends_tokenize n line).ok hts
  refine ⟨?_, ?_, ?_⟩
  · unfold readLine
    rw [hts, ok_bind, h]
    rfl
  · -- The first token is no comment, or there would be no statement.
    unfold arrowLine?
    rw [hts]
    split
    · rename_i t ht
      cases ht
      refine if_neg fun hk => ?_
      rw [readStatement, if_pos hk.1] at h
      cases h
    · rfl
  · rcases comment_of_readStatement h with hc | ⟨k, hk, hc⟩
    · exact ⟨_, hc⟩
    · obtain ⟨t, ht, -⟩ := (hcut k hk).text
      exact ⟨t, hc.trans ht⟩

/-- A line without a statement is blank, or a comment. -/
theorem readLine_of_none (h : lineStatement codec n line = .ok none) :
    (readLine codec n line = .ok .blank ∧ arrowLine? codec n line = none) ∨
      ∃ c, IsText c ∧ readLine codec n line = .ok (.comment c) ∧
        arrowLine? codec n line = if carriesArrow codec c then some c else none := by
  obtain ⟨ts, hts, h⟩ := bind_eq_ok.1 h
  unfold readLine arrowLine?
  rw [hts, ok_bind, h]
  cases ts with
  | nil => exact .inl ⟨rfl, rfl⟩
  | cons t ts =>
    -- Only a comment starts a line of tokens that holds no statement, and then it is all there is.
    by_cases hk : t.kind = .comment
    · obtain rfl := eq_nil_of_comment hts hk
      obtain ⟨text, htext, -⟩ := ((ends_tokenize n line).ok hts t List.mem_cons_self).text
      refine .inr ⟨t.text, ⟨text, htext⟩, rfl, ?_⟩
      simp only [hk, true_and]
    · rw [readStatement, if_neg hk] at h
      obtain ⟨s, -, h⟩ := bind_eq_ok.1 h
      cases h

omit [Arithmetic R] in
theorem isText_of_arrowLine {comment : Value R} (h : arrowLine? codec n line = some comment) :
    IsText comment := by
  unfold arrowLine? at h
  split at h
  · rename_i t hts
    split at h
    · cases h
      obtain ⟨text, htext, -⟩ := ((ends_tokenize n line).ok hts t List.mem_cons_self).text
      exact ⟨text, htext⟩
    · cases h
  · cases h

omit [Arithmetic R] in
/-- A comment that is handed to a statement is taken by the rule. -/
theorem withComment_eq {c : Codec R} {s : Statement R} (hs : IsText s.comment) {comment : Value R}
    (hc : IsText comment) : withComment c.given s comment =
      .ok (s.takes c.given (if carriesArrow c.given comment then some comment else none)) := by
  unfold withComment
  rw [isArrowComment_of_isText hc, ok_bind]
  by_cases ha : carriesArrow c.given comment = true
  · by_cases he : s.body.isEdge = true
    · rw [if_pos (by rw [ha, he]; rfl), if_pos ha, isArrowComment_of_isText hs, ok_bind]
      by_cases hown : carriesArrow c.given s.comment = true
      · rw [if_pos hown, Statement.takes, if_neg fun h => h.2 hown]
        rfl
      · rw [if_neg hown, Statement.takes, if_pos ⟨he, hown⟩]
        rfl
    · rw [if_neg (by simp [he]), if_pos ha, Statement.takes, if_neg fun h => he h.1]
      rfl
  · rw [if_neg (by simp [ha]), if_neg ha]
    rfl

/-- The reader fails as the first line that cannot be read, and otherwise gives what the lines
contribute, after the statement above with the comment it takes. -/
theorem readLines_eq (c : Codec R) : ∀ (ls : List (List Char)) (n : Nat) {above : Option (Statement R)},
    (∀ s ∈ above, IsText s.comment) → (readLines c.given n above ls).result = (do
      readEach c.given n ls
      return (above.map (·.takes c.given (ls.head?.bind (arrowLine? c.given n)))).toList ++
        settledFrom c.given n ls)
  | [], n, above, _ => by
    cases above <;> rfl
  | line :: rest, n, above, ha => by
    -- What stands above is settled by this line, and what this line leaves is settled by the next.
    have step (done above : Option (Statement R)) (ha : ∀ s ∈ above, IsText s.comment) : (do
          let ss ← readLines c.given (n + 1) above rest
          return done.toList ++ ss : Logged R (List (Statement R))).result = (do
        readEach c.given (n + 1) rest
        return done.toList ++ ((above.map
          (·.takes c.given (rest.head?.bind (arrowLine? c.given (n + 1))))).toList ++
            settledFrom c.given (n + 1) rest)) := by
      rw [Logged.result_bind, readLines_eq c rest (n + 1) ha]
      cases readEach c.given (n + 1) rest <;> rfl
    rw [readLines, Logged.result_bind, readEach, settledFrom, List.head?_cons, Option.bind_some]
    unfold settled
    rcases hl : lineStatement c.given n line with e | _ | s
    · rw [readLine_of_error hl]
      rfl
    · rcases readLine_of_none hl with ⟨hr, hn⟩ | ⟨comment, hc, hr, hn⟩
      · rw [hr, hn]
        refine (step above none (by simp)).trans ?_
        cases above <;> rfl
      · rw [hr, hn]
        cases above with
        | none => exact step none none (by simp)
        | some s =>
          have htake : (Option.mapM (fun s => Logged.ofExcept (withComment c.given s comment)) (some s) :
              Logged R _).result = some <$> withComment c.given s comment := Logged.result_map _ _
          rw [withComment_eq (ha s rfl) hc] at htake
          show (Option.mapM _ (some s) >>= _ : Logged R _).result = _
          rw [Logged.result_bind, htake]
          exact step (some _) none (by simp)
    · obtain ⟨hr, hn, hs⟩ := readLine_of_statement hl
      rw [hr, hn]
      refine (step above (some s) (by rintro _ ⟨⟩; exact hs)).trans ?_
      cases above <;> rfl

/-! ### Reading texts -/

theorem readDocument_eq (c : Codec R) (text : List Char) : (readDocument c.given text).result = (do
    readEach c.given 1 (lines text)
    return settledFrom c.given 1 (lines text)) := by
  rw [readDocument, readLines_eq c _ 1 (by simp)]
  rfl

/-- Reading a text fails as the first of its lines that cannot be read. -/
theorem readDocument_eq_error {c : Codec R} {text : List Char} {e : Fault R} :
    (readDocument c.given text).result = .error e ↔
      ∃ i line, IsFirstFault c.given 1 (lines text) i line e := by
  rw [readDocument_eq, ← readEach_eq_error]
  rcases readEach c.given 1 (lines text) with f | _
  · constructor
    · rintro ⟨⟩
      rfl
    · rintro ⟨⟩
      rfl
  · exact iff_of_false (fun h => by cases h) fun h => by cases h

/-- The statement on line number `n` is an edge without an arrow comment of its own, and the line below
it is a comment that carries an arrow. -/
structure TakesBelow (codec : Given R (Codec R)) (n : Nat) (s : Statement R)
    (below : Option (List Char)) (comment : Value R) : Prop where
  edge : s.body.isEdge = true
  own : carriesArrow codec s.comment = false
  below : ∃ l, below = some l ∧ arrowLine? codec (n + 1) l = some comment

/-- A statement is settled by the line below it: an edge without an arrow comment takes the
one that stands there, and everything else stays as it is. -/
inductive SettledAs (codec : Given R (Codec R)) (n : Nat) (s : Statement R) (below : Option (List Char)) :
    Statement R → Prop where
  | kept (h : ∀ comment, ¬TakesBelow codec n s below comment) : SettledAs codec n s below s
  | taken {comment : Value R} (h : TakesBelow codec n s below comment) :
    SettledAs codec n s below { s with comment }

omit [Arithmetic R] in
theorem takesBelow_iff {s : Statement R} {below : Option (List Char)} {comment : Value R} :
    TakesBelow codec n s below comment ↔ (s.body.isEdge = true ∧ ¬carriesArrow codec s.comment = true) ∧
      below.bind (arrowLine? codec (n + 1)) = some comment := by
  constructor
  · intro h
    exact ⟨⟨h.edge, by simp [h.own]⟩, Option.bind_eq_some_iff.2 h.below⟩
  · rintro ⟨⟨hedge, hown⟩, hbelow⟩
    exact ⟨hedge, by simpa using hown, Option.bind_eq_some_iff.1 hbelow⟩

omit [Arithmetic R] in
theorem settledAs_iff {s s' : Statement R} {below : Option (List Char)} :
    SettledAs codec n s below s' ↔ s' = s.takes codec (below.bind (arrowLine? codec (n + 1))) := by
  constructor
  · rintro (h | h)
    · rcases hbelow : below.bind (arrowLine? codec (n + 1)) with _ | comment
      · rfl
      · exact (if_neg fun hs => h comment (takesBelow_iff.2 ⟨hs, hbelow⟩)).symm
    · obtain ⟨hs, hbelow⟩ := takesBelow_iff.1 h
      rw [hbelow]
      exact (if_pos hs).symm
  · rintro rfl
    by_cases h : ∃ comment, TakesBelow codec n s below comment
    · obtain ⟨comment, h⟩ := h
      obtain ⟨hs, hbelow⟩ := takesBelow_iff.1 h
      rw [hbelow, Statement.takes, if_pos hs]
      exact .taken h
    · rcases hbelow : below.bind (arrowLine? codec (n + 1)) with _ | comment
      · exact .kept fun comment hc => h ⟨comment, hc⟩
      · rw [Statement.takes, if_neg fun hs => h ⟨comment, takesBelow_iff.2 ⟨hs, hbelow⟩⟩]
        exact .kept fun comment hc => h ⟨comment, hc⟩

/-- What a line contributes is what it says, as the line below it makes it. -/
theorem settled_eq_some {below : Option (List Char)} {s : Statement R} :
    settled codec n line below = some s ↔
      ∃ s₀, lineStatement codec n line = .ok (some s₀) ∧ SettledAs codec n s₀ below s := by
  unfold settled
  constructor
  · intro h
    split at h
    · rename_i s₀ hs₀
      exact ⟨s₀, hs₀, settledAs_iff.2 (Option.some.inj h).symm⟩
    · cases h
  · rintro ⟨s₀, hs₀, h⟩
    rw [hs₀, settledAs_iff.1 h]

theorem mem_settledFrom {ls : List (List Char)} {s : Statement R} (h : s ∈ settledFrom codec n ls) :
    ∃ i line, ls[i]? = some line ∧ settled codec (n + i) line ls[i + 1]? = some s := by
  rw [settledFrom_eq, List.mem_filterMap] at h
  obtain ⟨i, -, hi⟩ := h
  obtain ⟨l, hl, hs⟩ := Option.bind_eq_some_iff.1 hi
  exact ⟨i, l, hl, hs⟩

/-- A text can be read if each of its lines can, and then its statements are what the lines contribute,
in order.  A line contributes what it says on its own, but for an edge without an arrow comment, which
takes that of the line right below it.  Otherwise the failure is that of the first line that cannot be
read. -/
theorem readDocument_byLines (c : Codec R) (text : List Char) :
    (∀ ss, (readDocument c.given text).result = .ok ss ↔
      (∀ i line, (lines text)[i]? = some line → ∃ o, lineStatement c.given (1 + i) line = .ok o) ∧
      ss = (List.range (lines text).length).filterMap fun i =>
        (lines text)[i]?.bind fun line => settled c.given (1 + i) line (lines text)[i + 1]?) ∧
    (∀ i line s, settled c.given (1 + i) line (lines text)[i + 1]? = some s ↔
      ∃ s₀, lineStatement c.given (1 + i) line = .ok (some s₀) ∧
        SettledAs c.given (1 + i) s₀ (lines text)[i + 1]? s) ∧
    ∀ e, (readDocument c.given text).result = .error e ↔
      ∃ i line, IsFirstFault c.given 1 (lines text) i line e := by
  refine ⟨fun ss => ?_, fun i line s => settled_eq_some, fun e => readDocument_eq_error⟩
  rw [readDocument_eq, bind_eq_ok, ← readEach_eq_ok, ← settledFrom_eq]
  constructor
  · rintro ⟨⟨⟩, hread, hss⟩
    exact ⟨hread, (Except.ok.inj hss).symm⟩
  · rintro ⟨hread, rfl⟩
    exact ⟨(), hread, rfl⟩

omit [Arithmetic R] in
theorem Fault.IsAt.withExcerpt {on : Place R → Prop} {e : Fault R} (h : e.IsAt on) (line : List Char) :
    (withExcerpt line e).IsAt on := by
  obtain ⟨f, rfl, hf⟩ := h
  unfold FeynmanTikz.withExcerpt
  dsimp only
  split
  · exact ⟨_, rfl, hf⟩
  · exact ⟨_, rfl, hf⟩

/-- The statements of a text are of numbers and stand on its lines, or there is a first line that cannot
be read, and the failure is on that line. -/
theorem ends_readDocument (text : List Char) : Ends
    (fun e => ∃ i line, IsFirstFault standardCodec 1 (lines text) i line e ∧
      e.IsAt (Place.IsOn (1 + i) line))
    (fun ss => ∀ s ∈ ss, s.IsReal ∧ ∃ i line, (lines text)[i]? = some line ∧ s.place.IsOn (1 + i) line)
    (readDocument (R := R) standardCodec text).result := by
  rw [readDocument_eq]
  rcases hread : readEach (R := R) standardCodec 1 (lines text) with e | _
  · obtain ⟨i, l, h⟩ := readEach_eq_error.1 hread
    obtain ⟨fault, hf, he⟩ := h.fails
    exact ⟨i, l, h, by rw [he]; exact ((ends_lineStatement _ l).error hf).withExcerpt l⟩
  · intro s hs
    obtain ⟨i, l, hl, hsettled⟩ := mem_settledFrom hs
    obtain ⟨s₀, hs₀, hs⟩ := settled_eq_some.1 hsettled
    obtain ⟨hreal, hplace⟩ := (ends_lineStatement _ l).ok hs₀ s₀ rfl
    rcases hs with - | htakes
    · exact ⟨hreal, i, l, hl, hplace⟩
    · obtain ⟨l', -, hc⟩ := htakes.below
      exact ⟨⟨hreal.body, isText_of_arrowLine hc⟩, i, l, hl, hplace⟩

end FeynmanTikz
