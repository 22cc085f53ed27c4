import Mathlib.Tactic.SplitIfs
import SyntaxTrees.Grammar.Basic

/-!
# Kinds by name

A grammar hands the name of a kind to the engine and gets its number. The engine takes every
beginning of the text `ERROR`, the empty text included, for the name of the kind of errors; every
other name it looks up among the kinds that its tables list (`Language.FindsKinds`).

So a number that is found need not lead back to the name: it does if the name is no beginning of
`ERROR`, or if it is `ERROR` in full (`Grammar.kindId?_leads_back`). Behind a proper beginning there
is a number although no kind has that name (`Grammar.beginning_of_error_found`).
-/

namespace SyntaxTrees

namespace Language

def errorKind : Nat := 0xFFFF

def errorName : String := "ERROR"

/-- The text is the name of the kind of errors or a beginning of it. -/
def BeginsError (kind : String) : Prop := kind.toList <+: errorName.toList

instance (kind : String) : Decidable (BeginsError kind) :=
  inferInstanceAs (Decidable (_ <+: _))

/-- The kind with the number has the name, and it is a production or a token as asked for. -/
def IsKind (l : Language) (id : Nat) (kind : String) (named : Bool) : Prop :=
  l.kindName? id = some kind ∧ l.kindIsNamed id = named

instance (l : Language) (id : Nat) (kind : String) (named : Bool) :
    Decidable (l.IsKind id kind named) := inferInstanceAs (Decidable (_ ∧ _))

/-- How the engine finds the kinds that its tables list. Zero, which is the number of the end of
input, is the answer for what is not listed. -/
structure FindsKinds (l : Language) (listed : Nat → Prop) : Prop where
  errorKind_name : l.kindName? errorKind = some errorName
  error {kind : String} (hkind : BeginsError kind) (named : Bool) :
    l.kindNumber kind named = errorKind
  found {kind : String} {named : Bool} (hkind : ¬ BeginsError kind)
    (hnumber : l.kindNumber kind named ≠ 0) :
    listed (l.kindNumber kind named) ∧ l.IsKind (l.kindNumber kind named) kind named
  unlisted {kind : String} {named : Bool} (hkind : ¬ BeginsError kind)
    (hnumber : l.kindNumber kind named = 0) {id : Nat} (hid : listed id) : ¬ l.IsKind id kind named

end Language

namespace Grammar

open SyntaxTrees.Language (BeginsError FindsKinds errorKind errorName)

theorem kindId?_eq_some_iff {g : Grammar} {kind : String} {named : Bool} {id : Nat} :
    g.kindId? kind named = some id ↔ g.language.kindNumber kind named = id ∧ id ≠ 0 := by
  unfold kindId?
  split
  · next hzero =>
    rw [hzero]
    constructor
    · intro h
      cases h
    · rintro ⟨rfl, hne⟩
      exact absurd rfl hne
  · next number hne =>
    constructor
    · intro h
      cases h
      exact ⟨rfl, hne⟩
    · rintro ⟨hnumber, -⟩
      rw [hnumber]

section

variable {g : Grammar} {listed : Nat → Prop} (h : g.language.FindsKinds listed)
  {kind : String} {named : Bool}

include h

/-- A beginning of `ERROR` is taken for the name of the kind of errors. -/
theorem kindId?_of_beginsError (hkind : BeginsError kind) :
    g.kindId? kind named = some errorKind := by
  rw [kindId?_eq_some_iff]
  exact ⟨h.error hkind named, by decide⟩

/-- What is found for any other name is listed and has that name. -/
theorem isKind_of_kindId? (hkind : ¬ BeginsError kind) {id : Nat}
    (hid : g.kindId? kind named = some id) : listed id ∧ g.language.IsKind id kind named := by
  rcases kindId?_eq_some_iff.mp hid with ⟨rfl, hne⟩
  exact h.found hkind hne

/-- For any other name a number is found exactly if a kind of this name is listed. -/
theorem exists_kindId?_iff (hkind : ¬ BeginsError kind) :
    (∃ id, g.kindId? kind named = some id) ↔ ∃ id, listed id ∧ g.language.IsKind id kind named := by
  constructor
  · rintro ⟨id, hid⟩
    exact ⟨id, isKind_of_kindId? h hkind hid⟩
  · rintro ⟨id, hlisted, hid⟩
    -- the number found need not be this one, as kinds may share a name
    refine ⟨g.language.kindNumber kind named, kindId?_eq_some_iff.mpr ⟨rfl, ?_⟩⟩
    intro hzero
    exact h.unlisted hkind hzero hlisted hid

/-- The kind of errors has no name but the full one. -/
theorem isKind_errorKind_iff :
    g.language.IsKind errorKind kind named ↔
      kind = errorName ∧ g.isNamedKind errorKind = named := by
  rw [Language.IsKind, h.errorKind_name, Option.some.injEq, @eq_comm _ errorName]
  rfl

/-- From the name of a kind to its number and back. The number that is found for a name is that of a
kind of this name, unless the name is a beginning of `ERROR`; then it must be `ERROR` in full, asked
for as what the kind of errors is. A number is found for the beginnings of `ERROR` and for the kinds
that are listed, and for nothing else. -/
theorem kindId?_leads_back (kind : String) (named : Bool) :
    (∀ id, g.kindId? kind named = some id →
      (g.kindName? id = some kind ∧ g.isNamedKind id = named ↔
        ¬ BeginsError kind ∨ kind = errorName ∧ g.isNamedKind errorKind = named)) ∧
    ((∃ id, g.kindId? kind named = some id) ↔
      BeginsError kind ∨
        ∃ id, listed id ∧ g.kindName? id = some kind ∧ g.isNamedKind id = named) := by
  by_cases hkind : BeginsError kind
  · -- the engine takes the beginning of the name for the name itself
    have herror : g.kindId? kind named = some errorKind := kindId?_of_beginsError h hkind
    constructor
    · intro id hid
      rw [herror] at hid
      cases hid
      simp only [hkind, not_true_eq_false, false_or]
      exact isKind_errorKind_iff h
    · simp only [hkind, true_or, iff_true]
      exact ⟨errorKind, herror⟩
  · constructor
    · -- any other name is looked up among the kinds that are listed
      intro id hid
      simp only [hkind, not_false_eq_true, true_or, iff_true]
      exact (isKind_of_kindId? h hkind hid).2
    · simp only [hkind, false_or]
      exact exists_kindId?_iff h hkind

end

/-! ## Tables with one kind -/

/-- Tables that list identifiers and nothing else. -/
def identifierTables : Language where
  abi := 14
  kindCount := 2
  kindName? id :=
    if id = 0 then some "end"
    else if id = 1 then some "identifier"
    else if id = errorKind then some errorName
    else none
  kindIsNamed id := id == 1 || id == errorKind
  kindNumber kind named :=
    if BeginsError kind then errorKind
    else if kind = "identifier" ∧ named = true then 1
    else 0

theorem findsKinds_identifierTables : identifierTables.FindsKinds (· = 1) where
  errorKind_name := by decide
  error hkind named := if_pos hkind
  found {kind named} hkind hnumber := by
    unfold identifierTables at hnumber ⊢
    dsimp only at hnumber ⊢
    rw [if_neg hkind] at hnumber ⊢
    split at hnumber
    · next hname =>
      rcases hname with ⟨rfl, rfl⟩
      decide
    · exact absurd rfl hnumber
  unlisted {kind named} hkind hnumber id := by
    rintro rfl ⟨hname, hnamed⟩
    cases hname
    cases hnamed
    exact absurd hnumber (by decide)

/-- The number of identifiers leads back to their name, and so does that of the kind of errors. -/
theorem identifier_leads_back :
    let g : Grammar := { registry := 0, serial := 0, name := "", language := identifierTables }
    g.language.FindsKinds (· = 1) ∧
      (g.kindId? "identifier" true = some 1 ∧
        g.kindName? 1 = some "identifier" ∧ g.isNamedKind 1 = true) ∧
      g.kindId? "ERROR" true = some errorKind ∧
        g.kindName? errorKind = some "ERROR" ∧ g.isNamedKind errorKind = true := by
  intro g
  have hfinds : g.language.FindsKinds (· = 1) := findsKinds_identifierTables
  have hidentifier : g.kindId? "identifier" true = some 1 := by decide
  have herror : g.kindId? "ERROR" true = some errorKind := by decide
  -- both numbers lead back, the second although it is that of no listed kind
  have hback := (kindId?_leads_back hfinds "identifier" true).1 1 hidentifier
  have hback' := (kindId?_leads_back hfinds "ERROR" true).1 errorKind herror
  refine ⟨hfinds, ⟨hidentifier, hback.mpr (.inl (by decide))⟩, herror, hback'.mpr (.inr ?_)⟩
  exact ⟨rfl, by decide⟩

/-- A number is found for the empty text, although no kind has it for a name, and the number does not
lead back to it. -/
theorem beginning_of_error_found :
    let g : Grammar := { registry := 0, serial := 0, name := "", language := identifierTables }
    g.language.FindsKinds (· = 1) ∧ g.kindId? "" true = some errorKind ∧
      ¬ (g.kindName? errorKind = some "" ∧ g.isNamedKind errorKind = true) ∧
      ∀ id, g.kindName? id ≠ some "" := by
  intro g
  have hnameless : ∀ id, g.kindName? id ≠ some "" := by
    intro id hname
    unfold kindName? at hname
    dsimp only [g, identifierTables] at hname
    split_ifs at hname
    all_goals exact absurd (Option.some.inj hname) (by decide)
  exact ⟨findsKinds_identifierTables, by decide, fun hback => hnameless errorKind hback.1, hnameless⟩

end Grammar

end SyntaxTrees
