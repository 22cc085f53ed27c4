import Mathlib.Data.List.Basic
import SyntaxTrees.Proofs.Grammar.Name
import SyntaxTrees.Registry

/-!
# Who owns a name

A registry looks names up in two tables, that of the canonical names and that of the aliases.
`Registry.owner?` is the two seen as one: the canonical name behind a normal form.
`Registry.WellFormed` says that the tables fit together. A registration enters names that are
`Fresh`, and this keeps the tables well-formed (`WellFormed.insert`) and changes the owner of
nothing but the names entered (`owner?_insert`).
-/

namespace SyntaxTrees.Registry

variable {r : Registry} {name : String} {aliases : List String} {p : Provider}

/-! ## Owners -/

/-- The canonical name behind a normal form. -/
def owner? (r : Registry) (key : String) : Option String :=
  if key ∈ r.providers then some key else r.aliases[key]?

theorem resolve?_eq (r : Registry) (name : String) :
    r.resolve? name = r.owner? (normalizeName name) := rfl

theorem owner?_eq_none_iff {key : String} :
    r.owner? key = none ↔ key ∉ r.providers ∧ key ∉ r.aliases := by
  have halias : r.aliases[key]? = none ↔ key ∉ r.aliases := by
    rw [Std.TreeMap.mem_iff_isSome_getElem?, Option.not_isSome_iff_eq_none]
  rw [← halias]
  by_cases hkey : key ∈ r.providers <;> simp [owner?, hkey]

theorem getElem?_foldl_insert (m : Std.TreeMap String String) (aliases : List String)
    (name key : String) :
    (aliases.foldl (fun m a => m.insert a name) m)[key]? =
      if key ∈ aliases then some name else m[key]? := by
  induction aliases generalizing m with
  | nil => simp
  | cons a rest ih =>
    rw [List.foldl_cons, ih, Std.TreeMap.getElem?_insert]
    by_cases hrest : key ∈ rest
    · simp [hrest]
    · by_cases ha : a = key
      · simp [ha]
      · simp [hrest, ha, Ne.symm ha]

theorem getElem?_aliases_insert (r : Registry) (name : String) (aliases : List String)
    (p : Provider) (key : String) :
    (r.insert name aliases p).aliases[key]? =
      if key ∈ aliases then some name else r.aliases[key]? :=
  getElem?_foldl_insert r.aliases aliases name key

theorem mem_aliases_insert {key : String} :
    key ∈ (r.insert name aliases p).aliases ↔ key ∈ aliases ∨ key ∈ r.aliases := by
  rw [Std.TreeMap.mem_iff_isSome_getElem?, getElem?_aliases_insert,
    Std.TreeMap.mem_iff_isSome_getElem?]
  by_cases hkey : key ∈ aliases <;> simp [hkey]

theorem getElem?_providers_insert (r : Registry) (name : String) (aliases : List String)
    (p : Provider) (key : String) :
    (r.insert name aliases p).providers[key]? = if name = key then some p else r.providers[key]? := by
  simp [insert, Std.TreeMap.getElem?_insert]

theorem mem_providers_insert {key : String} :
    key ∈ (r.insert name aliases p).providers ↔ key = name ∨ key ∈ r.providers := by
  rw [insert, Std.TreeMap.mem_insert, Std.compare_eq_iff_eq, @eq_comm _ name key]

/-! ## Tables that fit together -/

/-- The tables of a registry fit together. -/
structure WellFormed (r : Registry) : Prop where
  /-- Canonical names are normal forms. -/
  provider_normal : ∀ {key : String}, key ∈ r.providers → IsNormalName key
  /-- Aliases are normal forms. -/
  alias_normal : ∀ {key : String}, key ∈ r.aliases → IsNormalName key
  /-- No alias is a canonical name. -/
  alias_not_provider : ∀ {key : String}, key ∈ r.aliases → key ∉ r.providers
  /-- An alias stands for a canonical name. -/
  alias_target : ∀ {key canonical : String}, r.aliases[key]? = some canonical → canonical ∈ r.providers
  /-- Handles are kept under canonical names. -/
  cache_provider : ∀ {key : String}, key ∈ r.cache → key ∈ r.providers

/-- The names can be entered into a registry: they are normal forms that have no owner. -/
structure Fresh (r : Registry) (name : String) (aliases : List String) : Prop where
  normal : ∀ key ∈ name :: aliases, IsNormalName key
  name_not_mem : name ∉ aliases
  unowned : ∀ key ∈ name :: aliases, r.owner? key = none

theorem wellFormed_empty (key : Nat) (abis : AbiRange) : WellFormed { key, abis } where
  provider_normal h := by simp at h
  alias_normal h := by simp at h
  alias_not_provider h := by simp at h
  alias_target h := by simp at h
  cache_provider h := by simp at h

/-- The owner of a name is a canonical name. -/
theorem WellFormed.owner_mem (h : r.WellFormed) {key canonical : String}
    (hkey : r.owner? key = some canonical) : canonical ∈ r.providers := by
  rw [owner?] at hkey
  split at hkey
  · cases hkey
    assumption
  · exact h.alias_target hkey

/-- Fresh names are owned by the name entered, and all others by whom they were. -/
theorem owner?_insert (hfresh : r.Fresh name aliases) (p : Provider) (key : String) :
    (r.insert name aliases p).owner? key =
      if key ∈ name :: aliases then some name else r.owner? key := by
  simp only [owner?, getElem?_aliases_insert, mem_providers_insert]
  by_cases hname : key = name
  · simp [hname]
  · by_cases halias : key ∈ aliases
    · have hkey : key ∉ r.providers :=
        (owner?_eq_none_iff.mp (hfresh.unowned key (List.mem_cons_of_mem _ halias))).1
      simp [hname, halias, hkey]
    · simp [hname, halias]

theorem WellFormed.insert (h : r.WellFormed) (hfresh : r.Fresh name aliases) (p : Provider) :
    (r.insert name aliases p).WellFormed := by
  have hunowned := fun key hkey => owner?_eq_none_iff.mp (hfresh.unowned key hkey)
  refine
    { provider_normal := ?_, alias_normal := ?_, alias_not_provider := ?_, alias_target := ?_,
      cache_provider := ?_ }
  · intro key hkey
    rcases mem_providers_insert.mp hkey with rfl | hold
    · exact hfresh.normal key (by simp)
    · exact h.provider_normal hold
  · intro key hkey
    rcases mem_aliases_insert.mp hkey with hnew | hold
    · exact hfresh.normal key (by simp [hnew])
    · exact h.alias_normal hold
  · -- new names meet neither each other nor an old name of the other table
    intro key hkey hprovider
    rcases mem_aliases_insert.mp hkey with hnew | hold
    · rcases mem_providers_insert.mp hprovider with rfl | hmem
      · exact hfresh.name_not_mem hnew
      · exact (hunowned key (by simp [hnew])).1 hmem
    · rcases mem_providers_insert.mp hprovider with rfl | hmem
      · exact (hunowned key (by simp)).2 hold
      · exact h.alias_not_provider hold hmem
  · intro key canonical hkey
    rw [getElem?_aliases_insert] at hkey
    rw [mem_providers_insert]
    split at hkey
    · cases hkey
      exact Or.inl rfl
    · exact Or.inr (h.alias_target hkey)
  · intro key hkey
    rw [mem_providers_insert]
    exact Or.inr (h.cache_provider hkey)

end SyntaxTrees.Registry
