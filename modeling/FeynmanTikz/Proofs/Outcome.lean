/-
Outcomes of edits: the result and the state, without the journal.

`Edit.outcome m s` forgets what an edit recorded.  It commutes with every way of composing edits,
so a statement about a mutation never mentions the journal:

* `bind_eq_ok` takes a computation that succeeded apart, `mapM_eq_ok` puts a list of them together,
  `Ends` says how one may end,
* `Edit.outcome_bind` and its companions open a mutation step by step,
* `Edit.written`: the outcome of an edit that computes first and writes only what it computed,
* `Edit.Keeps P m`: the edit `m` leads from states that satisfy `P` to such states, whether it
  succeeds or fails; `Keeps.bind` and `Keeps.forEach` compose this,
* `Edit.AllOrNothing P m s`: from the state `s`, the edit `m` either succeeds or changes nothing.

Design notes: an edit that fails keeps what it had written, so `Keeps` speaks of the state after a
failure as well.
-/
import FeynmanTikz.Diagram.Editing
import Mathlib.Data.List.Forall2

namespace FeynmanTikz

section

variable {ε α β : Type}

@[simp] theorem ok_bind (a : α) (f : α → Except ε β) : (Except.ok a >>= f) = f a := rfl

@[simp] theorem error_bind (e : ε) (f : α → Except ε β) :
    ((Except.error e : Except ε α) >>= f) = .error e := rfl

@[simp] theorem pure_eq_ok (a : α) : (pure a : Except ε α) = .ok a := rfl

theorem bind_eq_ok {x : Except ε α} {f : α → Except ε β} {b : β} :
    x >>= f = .ok b ↔ ∃ a, x = .ok a ∧ f a = .ok b := by
  rcases x with e | a
  · simp
  · simp

theorem exists_of_isOk {x : Except ε α} (h : x.isOk = true) : ∃ a, x = .ok a := by
  rcases x with e | a
  · cases h
  · exact ⟨a, rfl⟩

theorem eq_ok_of_toOption {x : Except ε α} {a : α} (h : x.toOption = some a) : x = .ok a := by
  rcases x with e | b
  · cases h
  · exact congrArg _ (Option.some.inj h)

theorem exists_of_not_isOk {x : Except ε α} (h : x.isOk = false) : ∃ e, x = .error e := by
  rcases x with e | a
  · exact ⟨e, rfl⟩
  · cases h

/-- A list of computations that all succeed gives the list of their results. -/
theorem mapM_eq_ok {f : α → Except ε β} {as : List α} {bs : List β}
    (h : List.Forall₂ (fun a b => f a = .ok b) as bs) : as.mapM f = .ok bs := by
  induction h with
  | nil => rfl
  | cons hab _ ih =>
    rw [List.mapM_cons, hab, ok_bind, ih]
    rfl

theorem exists_forall₂ {r : α → β → Prop} : ∀ {as : List α}, (∀ a ∈ as, ∃ b, r a b) →
    ∃ bs, List.Forall₂ r as bs
  | [], _ => ⟨[], .nil⟩
  | a :: as, h => by
    obtain ⟨b, hb⟩ := h a List.mem_cons_self
    obtain ⟨bs, hbs⟩ := exists_forall₂ fun c hc => h c (List.mem_cons_of_mem _ hc)
    exact ⟨b :: bs, .cons hb hbs⟩

/-- Every element of a list is related to one of the other. -/
theorem exists_of_forall₂ {r : α → β → Prop} {as : List α} {bs : List β}
    (h : List.Forall₂ r as bs) {b : β} (hb : b ∈ bs) : ∃ a ∈ as, r a b := by
  induction h with
  | nil => cases hb
  | cons hr _ ih =>
    rcases List.mem_cons.1 hb with rfl | hb
    · exact ⟨_, List.mem_cons_self, hr⟩
    · obtain ⟨a, ha, hab⟩ := ih hb
      exact ⟨a, List.mem_cons_of_mem _ ha, hab⟩

theorem exists_mapM {f : α → Except ε β} {as : List α} (h : ∀ a ∈ as, ∃ b, f a = .ok b) :
    ∃ bs, as.mapM f = .ok bs := by
  obtain ⟨bs, hbs⟩ := exists_forall₂ h
  exact ⟨bs, mapM_eq_ok hbs⟩

/-- A computation ends with a result that satisfies `P`, or with a fault that satisfies `E`. -/
def Ends (E : ε → Prop) (P : α → Prop) : Except ε α → Prop
  | .ok a => P a
  | .error e => E e

namespace Ends

variable {E : ε → Prop} {P : α → Prop} {Q : β → Prop} {x : Except ε α}

theorem of_eq_ok {a : α} (h : x = .ok a) (ha : P a) : Ends E P x := by
  rw [h]
  exact ha

theorem mono {Q : α → Prop} (h : Ends E P x) (hPQ : ∀ a, P a → Q a) : Ends E Q x := by
  rcases x with e | a
  · exact h
  · exact hPQ a h

/-- If the first computation ends well, the second one goes on from its result. -/
theorem bind {f : α → Except ε β} (hx : Ends E P x) (hf : ∀ a, P a → Ends E Q (f a)) :
    Ends E Q (x >>= f) := by
  rcases x with e | a
  · exact hx
  · exact hf a hx

theorem map {f : α → β} (h : Ends E P x) (hf : ∀ a, P a → Q (f a)) : Ends E Q (f <$> x) := by
  rcases x with e | a
  · exact h
  · exact hf a h

theorem mapM {f : α → Except ε β} : ∀ {as : List α}, (∀ a ∈ as, Ends E Q (f a)) →
    Ends E (fun bs => ∀ b ∈ bs, Q b) (as.mapM f)
  | [], _ => by simp [Ends]
  | a :: as, h => by
    rw [List.mapM_cons]
    refine (h a List.mem_cons_self).bind fun b hb => ?_
    refine (mapM fun c hc => h c (List.mem_cons_of_mem _ hc)).bind fun bs hbs => ?_
    exact List.forall_mem_cons.2 ⟨hb, hbs⟩

theorem error {e : ε} (h : Ends E P x) (he : x = .error e) : E e := by
  rw [he] at h
  exact h

theorem ok {a : α} (h : Ends E P x) (ha : x = .ok a) : P a := by
  rw [ha] at h
  exact h

end Ends

theorem map_eq_ok {x : Except ε α} {f : α → β} {b : β} :
    f <$> x = .ok b ↔ ∃ a, x = .ok a ∧ f a = b := by
  rcases x with e | a
  · simp [Functor.map, Except.map]
  · simp [Functor.map, Except.map]

end

namespace Edit

variable {R σ α β : Type}

/-- The result of an edit and the state it leaves. -/
def outcome (m : Edit R σ α) (s : σ) : Except (Fault R) α × σ := ((m s).1.result, (m s).2)

@[simp] theorem outcome_pure (a : α) (s : σ) : (pure a : Edit R σ α).outcome s = (.ok a, s) := rfl

theorem outcome_bind (m : Edit R σ α) (f : α → Edit R σ β) (s : σ) :
    (m >>= f).outcome s = match m.outcome s with
      | (.ok a, s') => (f a).outcome s'
      | (.error e, s') => (.error e, s') := by
  show (Edit.bind m f).outcome s = _
  unfold outcome Edit.bind
  obtain ⟨⟨journal, _ | a⟩, s'⟩ := m s <;> rfl

theorem outcome_bind_ok {m : Edit R σ α} {f : α → Edit R σ β} {s s' : σ} {a : α}
    (h : m.outcome s = (.ok a, s')) : (m >>= f).outcome s = (f a).outcome s' := by
  rw [outcome_bind, h]

theorem outcome_bind_error {m : Edit R σ α} {f : α → Edit R σ β} {s s' : σ} {e : Fault R}
    (h : m.outcome s = (.error e, s')) : (m >>= f).outcome s = (.error e, s') := by
  rw [outcome_bind, h]

theorem outcome_bind_eq_ok {m : Edit R σ α} {f : α → Edit R σ β} {s t : σ} {b : β} :
    (m >>= f).outcome s = (.ok b, t) ↔
      ∃ a s', m.outcome s = (.ok a, s') ∧ (f a).outcome s' = (.ok b, t) := by
  rw [outcome_bind]
  rcases m.outcome s with ⟨e | a, s'⟩
  · simp
  · constructor
    · intro h
      exact ⟨a, s', rfl, h⟩
    · rintro ⟨_, _, ⟨⟩, h⟩
      exact h

/-- An answer that is made of the result changes nothing. -/
theorem outcome_bind_pure_eq_ok {m : Edit R σ α} {f : α → β} {s t : σ} {b : β} :
    (do return f (← m) : Edit R σ β).outcome s = (.ok b, t) ↔
      ∃ a, m.outcome s = (.ok a, t) ∧ f a = b := by
  refine outcome_bind_eq_ok.trans ⟨?_, ?_⟩
  · rintro ⟨a, s', ha, ⟨⟩⟩
    exact ⟨a, ha, rfl⟩
  · rintro ⟨a, ha, rfl⟩
    exact ⟨a, t, ha, rfl⟩

@[simp] theorem outcome_current (s : σ) : (current : Edit R σ σ).outcome s = (.ok s, s) := rfl

@[simp] theorem outcome_put (t s : σ) : (put t : Edit R σ Unit).outcome s = (.ok (), t) := rfl

@[simp] theorem outcome_update (f : σ → σ) (s : σ) :
    (update f : Edit R σ Unit).outcome s = (.ok (), f s) := rfl

@[simp] theorem outcome_fail (e : Fault R) (s : σ) :
    (fail e : Edit R σ α).outcome s = (.error e, s) := rfl

@[simp] theorem outcome_record (e : Event R) (s : σ) :
    (record e : Edit R σ Unit).outcome s = (.ok (), s) := rfl

@[simp] theorem outcome_liftLogged (m : Logged R α) (s : σ) :
    (liftM m : Edit R σ α).outcome s = (m.result, s) := rfl

@[simp] theorem outcome_liftExcept (r : Except (Fault R) α) (s : σ) :
    (liftM r : Edit R σ α).outcome s = (r, s) := rfl

theorem outcome_liftExcept_bind (x : Except (Fault R) α) (f : α → Edit R σ β) (s : σ) :
    ((liftM x : Edit R σ α) >>= f).outcome s = match x with
      | .ok a => (f a).outcome s
      | .error e => (.error e, s) := by
  rw [outcome_bind, outcome_liftExcept]
  rcases x with e | a <;> rfl

theorem outcome_liftLogged_bind (m : Logged R α) (f : α → Edit R σ β) (s : σ) :
    ((liftM m : Edit R σ α) >>= f).outcome s = match m.result with
      | .ok a => (f a).outcome s
      | .error e => (.error e, s) := by
  rw [outcome_bind, outcome_liftLogged]
  rcases m.result with e | a <;> rfl

theorem outcome_liftLogged_bind_ok {m : Logged R α} {a : α} (h : m.result = .ok a)
    (f : α → Edit R σ β) (s : σ) :
    ((liftM m : Edit R σ α) >>= f).outcome s = (f a).outcome s := by
  rw [outcome_liftLogged_bind, h]

/-- The outcome of writing what has been computed; a failed computation writes nothing. -/
def written (r : Except (Fault R) α) (write : α → σ) (s : σ) : Except (Fault R) α × σ :=
  match r with
  | .ok a => (.ok a, write a)
  | .error e => (.error e, s)

@[simp] theorem written_ok (a : α) (write : α → σ) (s : σ) :
    written (R := R) (.ok a) write s = (.ok a, write a) := rfl

@[simp] theorem written_error (e : Fault R) (write : α → σ) (s : σ) :
    written (.error e) write s = (.error e, s) := rfl

theorem written_eq_ok {r : Except (Fault R) α} {write : α → σ} {s t : σ} {a : α} :
    written r write s = (.ok a, t) ↔ r = .ok a ∧ t = write a := by
  rcases r with e | b
  · simp
  · constructor
    · rintro ⟨⟩
      exact ⟨rfl, rfl⟩
    · rintro ⟨⟨⟩, rfl⟩
      rfl

theorem written_keeps {P : σ → Prop} {r : Except (Fault R) α} {write : α → σ} {s : σ} (hs : P s)
    (hw : ∀ a, r = .ok a → P (write a)) : P (written r write s).2 := by
  rcases r with e | a
  · exact hs
  · exact hw a rfl

/-- Whether the edit succeeds or fails, it leads from states that satisfy `P` to such states. -/
def Keeps (P : σ → Prop) (m : Edit R σ α) : Prop := ∀ s, P s → P (m.outcome s).2

theorem Keeps.pure {P : σ → Prop} (a : α) : Keeps P (pure a : Edit R σ α) := fun _ h => h

theorem Keeps.bind {P : σ → Prop} {m : Edit R σ α} {f : α → Edit R σ β} (hm : Keeps P m)
    (hf : ∀ a, Keeps P (f a)) : Keeps P (m >>= f) := by
  intro s hs
  have h := hm s hs
  rw [outcome_bind]
  rcases hr : m.outcome s with ⟨_ | a, s'⟩
  · rw [hr] at h
    exact h
  · rw [hr] at h
    exact hf a s' h

/-- The edit either succeeds, and the state it leads to satisfies `P`, or it fails and changes
nothing. -/
def AllOrNothing (P : σ → Prop) (m : Edit R σ α) (s : σ) : Prop :=
  (∃ a t, m.outcome s = (.ok a, t) ∧ P t) ∨ ∃ e, m.outcome s = (.error e, s)

namespace AllOrNothing

variable {P : σ → Prop} {m : Edit R σ α} {s : σ}

/-- What is computed first and written at the end is written as a whole or not at all. -/
theorem of_written {r : Except (Fault R) α} {write : α → σ} (hm : m.outcome s = written r write s)
    (hw : ∀ a, r = .ok a → P (write a)) : AllOrNothing P m s := by
  rcases r with e | a
  · exact .inr ⟨e, hm⟩
  · exact .inl ⟨a, write a, hm, hw a rfl⟩

/-- An answer that is made of the result changes nothing. -/
theorem bind_pure (h : AllOrNothing P m s) (f : α → β) :
    AllOrNothing P (do return f (← m)) s := by
  rcases h with ⟨a, t, ha, hP⟩ | ⟨e, he⟩
  · exact .inl ⟨f a, t, outcome_bind_ok ha, hP⟩
  · exact .inr ⟨e, outcome_bind_error he⟩

/-- A fault leaves the state as it was. -/
theorem unchanged (h : AllOrNothing P m s) {e : Fault R} (he : (m.outcome s).1 = .error e) :
    (m.outcome s).2 = s := by
  rcases h with ⟨a, t, ha, -⟩ | ⟨e', he'⟩
  · rw [ha] at he
    cases he
  · rw [he']

/-- What holds before and after every success holds whatever the outcome. -/
theorem keeps {Q : σ → Prop} (h : AllOrNothing P m s) (hs : Q s) (hP : ∀ t, P t → Q t) :
    Q (m.outcome s).2 := by
  rcases h with ⟨a, t, ha, ht⟩ | ⟨e, he⟩
  · rw [ha]
    exact hP t ht
  · rw [he]
    exact hs

end AllOrNothing

end Edit

theorem Diagram.Keeps.forEach {R α : Type} {P : Diagram R → Prop}
    {f : α → Diagram.Mutation R Unit} (hf : ∀ a, Edit.Keeps P (f a)) :
    ∀ as : List α, Edit.Keeps P (Diagram.forEach f as)
  | [] => Edit.Keeps.pure ()
  | a :: as => Edit.Keeps.bind (hf a) fun _ => Diagram.Keeps.forEach hf as

end FeynmanTikz
