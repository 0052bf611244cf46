/-
Option lists: what is written is what is read.

* `settles`: how a text changes the depth at which commas are looked at,
* `splitOptions_append`: an option list is cut where its entries have been joined,
* `Carries`: an entry that asks for one thing wherever it stands,
* `read_append`: an option list that begins with such entries asks for all of these things, in order, and
  then for what the rest asks for.
-/
import FeynmanTikz.Proofs.Tikz.Measure
import FeynmanTikz.Proofs.Tikz.Tokens
import Mathlib.Data.List.Forall2

namespace FeynmanTikz

/-! ### Cutting option lists -/

/-- The depth after a text, unless it has a comma outside all brackets or ends in an escape. -/
def settles : Int → List Char → Option Int
  | d, [] => some d
  | _, '\\' :: [] => none
  | d, '\\' :: _ :: rest => settles d rest
  | d, c :: rest =>
    if c = '\x7b' ∨ c = '[' then settles (d + 1) rest
    else if c = '\x7d' ∨ c = ']' then settles (d - 1) rest
    else if c = ',' ∧ d = 0 then none
    else settles d rest

/-- A text put in front of the first piece. -/
def prepend (t : List Char) (ps : List (List Char)) : List (List Char) := t.foldr consFirst ps

theorem optionPieces_cons {c : Char} (hc : c ≠ '\\') (d : Int) (rest : List Char) :
    optionPieces d (c :: rest) =
      if c = '\x7b' ∨ c = '[' then consFirst c (optionPieces (d + 1) rest)
      else if c = '\x7d' ∨ c = ']' then consFirst c (optionPieces (d - 1) rest)
      else if c = ',' ∧ d = 0 then [] :: optionPieces 0 rest
      else consFirst c (optionPieces d rest) := by
  conv => lhs; rw [optionPieces.eq_def]
  split
  · contradiction
  · rename_i h
    exact absurd (List.cons.inj h).1 hc
  · rename_i h
    exact absurd (List.cons.inj h).1 hc
  · rename_i h
    obtain ⟨rfl, rfl⟩ := List.cons.inj h
    rfl

theorem settles_cons {c : Char} (hc : c ≠ '\\') (d : Int) (rest : List Char) :
    settles d (c :: rest) =
      if c = '\x7b' ∨ c = '[' then settles (d + 1) rest
      else if c = '\x7d' ∨ c = ']' then settles (d - 1) rest
      else if c = ',' ∧ d = 0 then none
      else settles d rest := by
  conv => lhs; rw [settles.eq_def]
  split
  · contradiction
  · rename_i h
    exact absurd (List.cons.inj h).1 hc
  · rename_i h
    exact absurd (List.cons.inj h).1 hc
  · rename_i h
    obtain ⟨rfl, rfl⟩ := List.cons.inj h
    rfl

/-- A text without a comma to be cut at goes into one piece. -/
theorem optionPieces_append {d e : Int} {t : List Char} (h : settles d t = some e)
    (rest : List Char) : optionPieces d (t ++ rest) = prepend t (optionPieces e rest) := by
  -- The depth decides whether a comma would cut, and both functions count it alike.
  induction t using escapeInduction generalizing d with
  | nil =>
    cases h
    rfl
  | cut => cases h
  | escape c t ih =>
    show consFirst '\\' (consFirst c (optionPieces d (t ++ rest))) = _
    rw [ih h]
    rfl
  | cons c t hc ih =>
    rw [settles_cons hc] at h
    rw [List.cons_append, optionPieces_cons hc]
    split_ifs at h ⊢
    all_goals
      rw [ih h]
      rfl

theorem settles_append {d e : Int} {t : List Char} (h : settles d t = some e) (u : List Char) :
    settles d (t ++ u) = settles e u := by
  induction t using escapeInduction generalizing d with
  | nil =>
    cases h
    rfl
  | cut => cases h
  | escape c t ih => exact ih h
  | cons c t hc ih =>
    rw [settles_cons hc] at h
    rw [List.cons_append, settles_cons hc]
    split_ifs at h ⊢
    all_goals exact ih h

theorem prepend_cons (p : List Char) (ps : List (List Char)) :
    ∀ t, prepend t (p :: ps) = (t ++ p) :: ps
  | [] => rfl
  | c :: t => by
    show consFirst c (prepend t (p :: ps)) = _
    rw [prepend_cons p ps t]
    rfl

/-- An entry that is cut out as it stands. -/
structure IsEntry (p : List Char) : Prop where
  settled : settles 0 p = some 0
  trimmed : trim p = p
  nonempty : p ≠ []

/-- Entries with a comma and a space between them. -/
def joined : List (List Char) → List Char
  | [] => []
  | [p] => p
  | p :: ps => p ++ ',' :: ' ' :: joined ps

/-- A space after a comma belongs to no entry. -/
theorem trimmedPieces_space (ps : List (List Char)) :
    trimmedPieces (consFirst ' ' ps) = trimmedPieces ps := by
  cases ps with
  | nil => decide
  | cons p ps => rfl

/-- A text that no comma cuts is an option of its own; the last one may leave brackets open. -/
theorem splitOptions_of_settles {p : List Char} {d : Int} (h : settles 0 p = some d) (ht : trim p = p)
    (hne : p ≠ []) : splitOptions p = [p] := by
  have hp := optionPieces_append h []
  rw [List.append_nil] at hp
  unfold splitOptions trimmedPieces
  rw [hp, optionPieces, prepend_cons, List.append_nil, List.map_singleton, ht,
    List.filter_cons_of_pos (by simp [hne])]
  rfl

theorem IsEntry.trimmedPieces_cons {p : List Char} (h : IsEntry p) (ps : List (List Char)) :
    trimmedPieces (p :: ps) = p :: trimmedPieces ps := by
  unfold trimmedPieces
  rw [List.map_cons, h.trimmed, List.filter_cons_of_pos (by simp [h.nonempty])]

theorem IsEntry.splitOptions_cons {p : List Char} (h : IsEntry p) : ∀ ps : List (List Char),
    splitOptions (joined (p :: ps)) = p :: splitOptions (joined ps)
  | [] => splitOptions_of_settles h.settled h.trimmed h.nonempty
  | q :: ps => by
    show trimmedPieces (optionPieces 0 (p ++ ',' :: ' ' :: joined (q :: ps))) = _
    rw [optionPieces_append h.settled, optionPieces_cons (by decide), if_neg (by decide),
      if_neg (by decide), if_pos (by decide), prepend_cons, List.append_nil,
      optionPieces_cons (by decide), if_neg (by decide), if_neg (by decide), if_neg (by decide),
      h.trimmedPieces_cons, trimmedPieces_space]
    rfl

/-- Entries are cut off as they stand, whatever follows them. -/
theorem splitOptions_append {ps : List (List Char)} (h : ∀ p ∈ ps, IsEntry p) (qs : List (List Char)) :
    splitOptions (joined (ps ++ qs)) = ps ++ splitOptions (joined qs) := by
  induction ps with
  | nil => rfl
  | cons p ps ih =>
    obtain ⟨hp, hps⟩ := List.forall_mem_cons.1 h
    rw [List.cons_append, hp.splitOptions_cons, ih hps]
    rfl

/-! ### Entries -/

theorem AreDigits.oneLine {ds : List Char} (h : AreDigits ds) : OneLine ds := by
  intro c hc
  have := toNat_of_isDigit (h c hc)
  simp only [isLineBoundary, List.contains_eq_mem, decide_eq_false_iff_not, List.mem_cons,
    List.not_mem_nil, or_false]
  omega

variable {R : Type} [Arithmetic R]

/-- An entry of an option list asks for an effect, wherever it stands. -/
structure Carries (w : List Char) (e : Effect R) : Prop where
  isEntry : IsEntry w
  oneLine : OneLine w
  passed : passes [.square] w = some [.square]
  read : (readEntry w : Logged R _).result = .ok e

theorem passes_joined : ∀ {ws : List (List Char)}, (∀ w ∈ ws, passes [.square] w = some [.square]) →
    passes [.square] (joined ws) = some [.square]
  | [], _ => rfl
  | [w], h => h w List.mem_cons_self
  | w :: v :: ws, h => by
    show passes [.square] (w ++ ',' :: ' ' :: joined (v :: ws)) = _
    rw [passes_append (h w List.mem_cons_self)]
    exact passes_joined fun u hu => h u (List.mem_cons_of_mem _ hu)

theorem oneLine_joined : ∀ {ws : List (List Char)}, (∀ w ∈ ws, OneLine w) → OneLine (joined ws)
  | [], _ => by decide
  | [w], h => h w List.mem_cons_self
  | w :: v :: ws, h => by
    show OneLine (w ++ ([',', ' '] ++ joined (v :: ws)))
    refine (h w List.mem_cons_self).append (OneLine.append (by decide) ?_)
    exact oneLine_joined fun u hu => h u (List.mem_cons_of_mem _ hu)

theorem exists_carries {ws : List (List Char)} {es : List (Effect R)}
    (h : List.Forall₂ Carries ws es) : ∀ w ∈ ws, ∃ e : Effect R, Carries w e := by
  intro w hw
  obtain ⟨e, -, he⟩ := exists_of_forall₂ h.flip hw
  exact ⟨e, he⟩

theorem readEntries_append {ws us : List (List Char)} {es fs : List (Effect R)}
    (h : List.Forall₂ Carries ws es) (hu : (readEntries us).result = .ok fs) :
    (readEntries (ws ++ us)).result = .ok (es ++ fs) := by
  induction h with
  | nil => exact hu
  | cons hw _ ih =>
    rw [List.cons_append, readEntries, Logged.result_bind, hw.read, ok_bind, Logged.result_bind, ih]
    rfl

/-- An option list that begins with entries is read as their effects and those of the rest. -/
theorem read_append {ws us : List (List Char)} {es fs : List (Effect R)}
    (h : List.Forall₂ Carries ws es) (hu : (readEntries (splitOptions (joined us))).result = .ok fs) :
    (DrawOptions.read (.text (String.ofList (joined (ws ++ us)))) standardCodec).result =
      .ok (DrawOptions.ofEffects Codec.standard.defaultStrokeWidth (es ++ fs)) := by
  have hsplit : splitOptions (joined (ws ++ us)) = ws ++ splitOptions (joined us) := by
    refine splitOptions_append (fun w hw => ?_) us
    obtain ⟨e, he⟩ := exists_carries h w hw
    exact he.isEntry
  have hentries : optionEntries (.text (String.ofList (joined (ws ++ us))) : Value R) =
      .ok (ws ++ splitOptions (joined us)) := by
    show Except.ok (splitOptions (String.ofList (joined (ws ++ us))).toList) = _
    rw [String.toList_ofList, hsplit]
  unfold DrawOptions.read
  rw [hentries]
  simp only [Logged.result_bind]
  show ((readEntries (ws ++ splitOptions (joined us))).result >>= _) = _
  rw [readEntries_append h hu]
  rfl

/-- An option list that is written is read as the effects of its entries. -/
theorem read_joined {ws : List (List Char)} {es : List (Effect R)}
    (h : List.Forall₂ Carries ws es) :
    (DrawOptions.read (.text (String.ofList (joined ws))) standardCodec).result =
      .ok (DrawOptions.ofEffects Codec.standard.defaultStrokeWidth es) := by
  have hnone : (readEntries (splitOptions (joined [])) : Logged R _).result = .ok [] := rfl
  have hread := read_append h hnone
  rwa [List.append_nil, List.append_nil] at hread

end FeynmanTikz
