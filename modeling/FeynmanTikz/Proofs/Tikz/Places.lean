/-
Readers look at the places of tokens in their failures only.

`Parallel r m m'` says of two readers what a relational Hoare triple says of two programs: on tokens that
differ in their places at most, both fail, or both succeed with results related by `r` and leave such
tokens again.  Each reader is parallel to itself.

* `EndAlike`, `SameReading`: outcomes that are the same, places and faults aside,
* `Parallel.bind`, `Parallel.expect`, `Parallel.accept?` and their companions: the rules,
* `parallel_coordinate`, …, `parallel_whole`: the readers,
* `sameReading_of_seen`: tokens that differ in their places at most are read as the same statement.
-/
import FeynmanTikz.Proofs.Tikz.Grammar

namespace FeynmanTikz

open TokenReader

/-- Both computations fail, or they succeed with related results. -/
inductive EndAlike {ε α β : Type} (r : α → β → Prop) : Except ε α → Except ε β → Prop
  | ok {a : α} {b : β} (h : r a b) : EndAlike r (.ok a) (.ok b)
  | error (e e' : ε) : EndAlike r (.error e) (.error e')

theorem EndAlike.bind {ε α β γ δ : Type} {r : α → β → Prop} {q : γ → δ → Prop} {x : Except ε α}
    {y : Except ε β} {f : α → Except ε γ} {g : β → Except ε δ} (h : EndAlike r x y)
    (hf : ∀ a b, r a b → EndAlike q (f a) (g b)) : EndAlike q (x >>= f) (y >>= g) := by
  cases h with
  | ok h => exact hf _ _ h
  | error e e' => exact .error e e'

/-- Two lines are read as the same: as nothing, as a statement that says the same wherever it stands, or
not at all. -/
inductive SameReading {R : Type} :
    Except (Fault R) (Option (Statement R)) → Except (Fault R) (Option (Statement R)) → Prop
  | nothing : SameReading (.ok none) (.ok none)
  | statement (p p' : Place R) (body : StatementBody R) (comment : Value R) :
    SameReading (.ok (some ⟨p, body, comment⟩)) (.ok (some ⟨p', body, comment⟩))
  | failure (e e' : Fault R) : SameReading (.error e) (.error e')

variable {R : Type}

/-- On tokens that differ in their places at most, both readers fail, or they succeed with related results
and leave such tokens. -/
def Parallel {α β : Type} (r : α → β → Prop) (m : TokenReader R α) (m' : TokenReader R β) : Prop :=
  ∀ ts ts' : List (Token R), ts.map Token.seen = ts'.map Token.seen →
    EndAlike (fun x y => r x.1 y.1 ∧ x.2.map Token.seen = y.2.map Token.seen) (m.run ts) (m'.run ts')

namespace Parallel

variable {α β γ δ : Type} {r : α → β → Prop} {q : γ → δ → Prop}

theorem bind {m : TokenReader R α} {m' : TokenReader R β} {f : α → TokenReader R γ}
    {f' : β → TokenReader R δ} (hm : Parallel r m m') (hf : ∀ a b, r a b → Parallel q (f a) (f' b)) :
    Parallel q (m >>= f) (m' >>= f') := by
  intro ts ts' hts
  rw [StateT.run_bind, StateT.run_bind]
  exact (hm ts ts' hts).bind fun x y h => hf x.1 y.1 h.1 x.2 y.2 h.2

/-- Both readers go on with the same. -/
theorem bindEq {m m' : TokenReader R α} {f : α → TokenReader R γ} {f' : α → TokenReader R δ}
    (hm : Parallel Eq m m') (hf : ∀ a, Parallel q (f a) (f' a)) : Parallel q (m >>= f) (m' >>= f') := by
  refine hm.bind fun a b h => ?_
  subst h
  exact hf a

theorem pure {a : α} {b : β} (h : r a b) : Parallel r (pure a : TokenReader R α) (pure b) :=
  fun _ _ hts => .ok ⟨h, hts⟩

theorem failAt (p p' : Place R) (problem problem' : ReadProblem R) :
    Parallel r (failAt p problem) (failAt p' problem') :=
  fun _ _ _ => .error _ _

/-- What does not look at the tokens at all. -/
theorem liftExcept (x : Except (Fault R) α) : Parallel Eq (liftM x : TokenReader R α) (liftM x) := by
  intro ts ts' hts
  rcases x with e | a
  · exact .error e e
  · exact .ok ⟨rfl, hts⟩

theorem ite {c : Prop} [Decidable c] {m n : TokenReader R α} {m' n' : TokenReader R β}
    (hm : Parallel r m m') (hn : Parallel r n n') :
    Parallel r (if c then m else n) (if c then m' else n') := by
  split
  · exact hm
  · exact hn

theorem get : Parallel (R := R) (fun ts ts' => ts.map Token.seen = ts'.map Token.seen) get get :=
  fun _ _ hts => .ok ⟨hts, hts⟩

theorem set {us us' : List (Token R)} (h : us.map Token.seen = us'.map Token.seen) :
    Parallel (fun _ _ => True) (set us : TokenReader R PUnit) (set us') :=
  fun _ _ _ => .ok ⟨trivial, h⟩

/-- The next token is looked at, if there is one. -/
theorem next {f f' : List (Token R) → TokenReader R α} {r : α → α → Prop} (hnil : Parallel r (f []) (f' []))
    (hcons : ∀ t t' us us', t.kind = t'.kind → t.text = t'.text →
      us.map Token.seen = us'.map Token.seen → Parallel r (f (t :: us)) (f' (t' :: us'))) :
    Parallel r (MonadState.get >>= f) (MonadState.get >>= f') := by
  refine get.bind fun ts ts' hts => ?_
  cases ts with
  | nil =>
    obtain rfl : ts' = [] := List.map_eq_nil_iff.1 hts.symm
    exact hnil
  | cons t us =>
    obtain ⟨t', us', rfl, ht, hus⟩ := List.map_eq_cons_iff.1 hts.symm
    exact hcons t t' us us' (congrArg Prod.fst ht).symm (congrArg Prod.snd ht).symm hus.symm

theorem expect (k : TokenKind) :
    Parallel (R := R) (fun t t' => t.text = t'.text) (expect k) (expect k) := by
  refine next (fun _ _ _ => .error _ _) fun t t' us us' hk ht hus => ?_
  dsimp only
  rw [hk]
  exact ite ((set hus).bind fun _ _ _ => pure ht) (failAt _ _ _ _)

theorem accept? (k : TokenKind) : Parallel (R := R)
    (fun o o' => o.map Token.text = o'.map Token.text) (accept? k) (accept? k) := by
  refine next (pure rfl) fun t t' us us' hk ht hus => ?_
  dsimp only
  rw [hk]
  exact ite ((set hus).bind fun _ _ _ => pure (congrArg some ht)) (pure rfl)

theorem expectWord (word : String) :
    Parallel (R := R) (fun _ _ => True) (expectWord word) (expectWord word) := by
  refine (expect .word).bind fun t t' ht => ?_
  rw [ht]
  exact ite (pure trivial) (failAt _ _ _ _)

end Parallel

/-! ### The readers -/

variable [Arithmetic R] (codec : Given R (Codec R))

omit [Arithmetic R] in
/-- The text of a token that may be missing. -/
theorem text_of_optional (o o' : Option (Token R)) : o.map Token.text = o'.map Token.text →
    (match o with
      | some t => t.text
      | none => .text "") =
    (match o' with
      | some t => t.text
      | none => .text "" : Value R) := by
  intro h
  cases o with
  | none =>
    obtain rfl : o' = none := Option.map_eq_none_iff.1 h.symm
    rfl
  | some t =>
    obtain ⟨t', rfl, ht⟩ := Option.map_eq_some_iff.1 h.symm
    exact ht.symm

theorem parallel_number {t t' : Token R} (ht : t.text = t'.text) :
    Parallel Eq (numberOf t) (numberOf t') := by
  unfold numberOf
  rw [ht]
  exact (Parallel.liftExcept _).bindEq fun x => .ite (.pure rfl) (.failAt _ _ _ _)

theorem parallel_coordinate : Parallel Eq (readCoordinate codec) (readCoordinate codec) := by
  refine (Parallel.expect .leftParen).bind fun opening opening' _ => ?_
  refine (Parallel.expect .number).bind fun x x' hx => (parallel_number hx).bindEq fun a => ?_
  refine (Parallel.expect .comma).bind fun _ _ _ => ?_
  refine (Parallel.expect .number).bind fun y y' hy => (parallel_number hy).bindEq fun b => ?_
  refine (Parallel.expect .rightParen).bind fun _ _ _ => ?_
  refine (Parallel.liftExcept _).bindEq fun p => (Parallel.liftExcept _).bindEq fun q => ?_
  refine (Parallel.liftExcept _).bindEq fun finite => Parallel.ite ?_ (.failAt _ _ _ _)
  exact (Parallel.liftExcept _).bindEq fun finite => .ite (.pure rfl) (.failAt _ _ _ _)

theorem parallel_length : Parallel Eq (readLength codec) (readLength codec) := by
  refine (Parallel.expect .number).bind fun t t' ht => (parallel_number ht).bindEq fun x => ?_
  refine (Parallel.liftExcept _).bindEq fun c => (Parallel.liftExcept _).bindEq fun v => ?_
  exact (Parallel.liftExcept _).bindEq fun finite => .ite (.pure rfl) (.failAt _ _ _ _)

theorem parallel_point : Parallel Eq (readPoint codec) (readPoint codec) := by
  refine (parallel_coordinate codec).bindEq fun p => (Parallel.expectWord "circle").bind fun _ _ _ => ?_
  refine (Parallel.expect .leftParen).bind fun _ _ _ => (parallel_length codec).bindEq fun r => ?_
  exact (Parallel.expect .rightParen).bind fun _ _ _ => .pure rfl

theorem parallel_ellipse (center options : Value R) :
    Parallel Eq (readEllipse codec center options) (readEllipse codec center options) := by
  refine (Parallel.expect .leftParen).bind fun _ _ _ => (parallel_length codec).bindEq fun rx => ?_
  refine (Parallel.expectWord "and").bind fun _ _ _ => (parallel_length codec).bindEq fun ry => ?_
  exact (Parallel.expect .rightParen).bind fun _ _ _ => .pure rfl

theorem parallel_path (p p' : Place R) (start : Value R) {options options' : Value R}
    (h : options = options') :
    Parallel Eq (readPath codec p start options) (readPath codec p' start options') := by
  subst h
  refine (Parallel.accept? .dashes).bind fun dashes dashes' hdashes => ?_
  have hdashes : dashes.isSome = dashes'.isSome := by simpa using congrArg Option.isSome hdashes
  rw [hdashes]
  refine Parallel.ite ((parallel_coordinate codec).bindEq fun finish => .pure rfl) ?_
  refine (Parallel.accept? .dots).bind fun dots dots' hdots => ?_
  have hdots : dots.isSome = dots'.isSome := by simpa using congrArg Option.isSome hdots
  rw [hdots]
  refine Parallel.ite ?_ ?_
  · refine (Parallel.expectWord "controls").bind fun _ _ _ => ?_
    refine (parallel_coordinate codec).bindEq fun control => ?_
    refine (Parallel.expect .dots).bind fun _ _ _ => ?_
    exact (parallel_coordinate codec).bindEq fun finish => .pure rfl
  · refine Parallel.next (.failAt _ _ _ _) fun t t' us us' hk ht hus => ?_
    dsimp only
    rw [hk, ht]
    exact Parallel.ite ((Parallel.set hus).bind fun _ _ _ => parallel_ellipse codec start _)
      (.failAt _ _ _ _)

theorem parallel_draw (p p' : Place R) : Parallel Eq (readDraw codec p) (readDraw codec p') := by
  rw [readDraw_eq, readDraw_eq]
  refine (Parallel.accept? .attributes).bind fun o o' ho => ?_
  exact (parallel_coordinate codec).bindEq fun start =>
    parallel_path codec p p' start (text_of_optional o o' ho)

theorem parallel_label : Parallel Eq (readLabel codec) (readLabel codec) := by
  refine (Parallel.expectWord "at").bind fun _ _ _ => (parallel_coordinate codec).bindEq fun p => ?_
  refine (Parallel.expect .group).bind fun group group' hg => ?_
  rw [hg]
  exact .pure rfl

omit [Arithmetic R] in
theorem parallel_environment (body : StatementBody R) :
    Parallel Eq (readEnvironment body) (readEnvironment body) := by
  refine (Parallel.expect .group).bind fun group group' hg => ?_
  rw [hg]
  refine (Parallel.liftExcept _).bindEq fun name => Parallel.ite (.failAt _ _ _ _) ?_
  split
  · exact (Parallel.accept? .attributes).bind fun _ _ _ => .pure rfl
  · exact .pure rfl

theorem parallel_body {t t' : Token R} (ht : t.text = t'.text) :
    Parallel Eq (readBody codec t) (readBody codec t') := by
  unfold readBody
  rw [ht]
  split
  · exact parallel_point codec
  · exact parallel_draw codec _ _
  · exact parallel_label codec
  · exact parallel_environment .beginPicture
  · exact parallel_environment .endPicture
  · exact .failAt _ _ _ _

omit [Arithmetic R] in
/-- After a statement a comment may follow, and nothing else. -/
theorem parallel_closing (p p' : Place R) (body : StatementBody R) :
    Parallel (fun s s' : Statement R => s.body = s'.body ∧ s.comment = s'.comment)
      (do
        let last ← accept? .comment
        match ← get with
        | [] => return ⟨p, body, match last with
          | some t => t.text
          | none => .text ""⟩
        | t :: _ => failAt t.place (.trailingToken t.text))
      (do
        let last ← accept? .comment
        match ← get with
        | [] => return ⟨p', body, match last with
          | some t => t.text
          | none => .text ""⟩
        | t :: _ => failAt t.place (.trailingToken t.text)) := by
  refine (Parallel.accept? .comment).bind fun last last' hl => ?_
  have hl := text_of_optional last last' hl
  exact Parallel.next (.pure ⟨rfl, hl⟩) fun _ _ _ _ _ _ _ => .failAt _ _ _ _

theorem parallel_whole :
    Parallel (fun s s' : Statement R => s.body = s'.body ∧ s.comment = s'.comment)
      (readWhole codec) (readWhole codec) := by
  refine (Parallel.expect .command).bind fun command command' hc => ?_
  refine (parallel_body codec hc).bindEq fun body => ?_
  dsimp only
  refine Parallel.ite ?_ (parallel_closing _ _ body)
  exact (Parallel.expect .semicolon).bind fun _ _ _ => parallel_closing _ _ body

/-- Tokens that differ in their places at most are read as the same statement. -/
theorem sameReading_of_seen {ts ts' : List (Token R)} (h : ts.map Token.seen = ts'.map Token.seen) :
    SameReading (readStatement codec ts) (readStatement codec ts') := by
  cases ts with
  | nil =>
    obtain rfl : ts' = [] := List.map_eq_nil_iff.1 h.symm
    exact .nothing
  | cons t us =>
    obtain ⟨t', us', rfl, ht, -⟩ := List.map_eq_cons_iff.1 h.symm
    have hk : t'.kind = t.kind := congrArg Prod.fst ht
    unfold readStatement
    dsimp only
    rw [hk]
    split
    · exact .nothing
    · have hwhole := parallel_whole codec _ _ h
      rw [StateT.run'_eq, StateT.run'_eq]
      generalize (readWhole codec).run (t :: us) = x at hwhole ⊢
      generalize (readWhole codec).run (t' :: us') = y at hwhole ⊢
      cases hwhole with
      | @ok a b hab =>
        obtain ⟨⟨p, body, comment⟩, rest⟩ := a
        obtain ⟨⟨p', body', comment'⟩, rest'⟩ := b
        obtain ⟨⟨rfl, rfl⟩, -⟩ := hab
        exact .statement p p' body comment
      | error e e' => exact .failure e e'

end FeynmanTikz
