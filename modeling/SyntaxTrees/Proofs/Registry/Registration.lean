import SyntaxTrees.Proofs.Registry.Naming

/-!
# What a registration does

A registration claims every string whose normal form is that of its name or of one of its aliases
that are not blank (`Claims`). It succeeds exactly if the name is not blank and nothing that it
claims has an owner (`registerAs_eq_ok_iff`, `fresh_claimed_iff`), and then it is an entry of
fresh names. The registries that a program starts with are made of such entries alone
(`IsInitial.entered`), also that of the built-in grammars, whose names are not checked.
-/

namespace SyntaxTrees.Registry

variable {r r' : Registry} {name : String} {aliases : List String} {p : Provider}

/-! ## Claims -/

/-- The registration of a name and its aliases claims the string. -/
def Claims (name : String) (aliases : List String) (s : String) : Prop :=
  normalizeName s = normalizeName name ∨
    ∃ a ∈ aliases, ¬ IsBlankName a ∧ normalizeName s = normalizeName a

theorem mem_claimedAliases {key : String} :
    key ∈ claimedAliases name aliases ↔
      key ≠ name ∧ ∃ a ∈ aliases, ¬ IsBlankName a ∧ key = normalizeName a := by
  simp only [claimedAliases, List.mem_filter, List.mem_map, Bool.and_eq_true, Bool.not_eq_true',
    bne_iff_ne, ← normalizeName_eq_empty_iff]
  constructor
  · rintro ⟨⟨a, ha, rfl⟩, hne, hname⟩
    refine ⟨hname, a, ha, ?_, rfl⟩
    simpa using hne
  · rintro ⟨hname, a, ha, hblank, rfl⟩
    refine ⟨⟨a, ha, rfl⟩, ?_, hname⟩
    simpa using hblank

/-- The strings claimed are those whose normal forms are entered. -/
theorem claims_iff {s : String} :
    Claims name aliases s ↔
      normalizeName s ∈ normalizeName name :: claimedAliases (normalizeName name) aliases := by
  rw [Claims, List.mem_cons, mem_claimedAliases]
  by_cases hname : normalizeName s = normalizeName name <;> simp [hname]

theorem isNormalName_of_mem_claimed (hname : normalizeName name ≠ "") {key : String}
    (hkey : key ∈ normalizeName name :: claimedAliases (normalizeName name) aliases) :
    IsNormalName key := by
  rcases List.mem_cons.mp hkey with rfl | halias
  · exact isNormalName_normalizeName hname
  · rcases mem_claimedAliases.mp halias with ⟨-, a, -, hblank, rfl⟩
    exact isNormalName_normalizeName (mt normalizeName_eq_empty_iff.mp hblank)

/-- What a registration enters is fresh if the name is not blank and nothing claimed resolves. -/
theorem fresh_claimed_iff :
    r.Fresh (normalizeName name) (claimedAliases (normalizeName name) aliases) ↔
      ¬ IsBlankName name ∧ ∀ s, Claims name aliases s → r.resolve? s = none := by
  rw [← normalizeName_eq_empty_iff]
  constructor
  · intro hfresh
    -- a key put in is the normal form of some spelling claimed
    refine ⟨(hfresh.normal _ List.mem_cons_self).1, ?_⟩
    intro s hs
    exact hfresh.unowned _ (claims_iff.mp hs)
  · rintro ⟨hname, hfree⟩
    refine ⟨fun key => isNormalName_of_mem_claimed hname, ?_, ?_⟩
    · intro hmem
      exact (mem_claimedAliases.mp hmem).1 rfl
    · -- and a key is a spelling of itself
      intro key hkey
      have hnormal := isNormalName_of_mem_claimed hname hkey
      have hclaims : Claims name aliases key := by
        rw [claims_iff, hnormal.2]
        exact hkey
      have hnone := hfree key hclaims
      rwa [resolve?_eq, hnormal.2] at hnone

/-! ## Registering -/

/-- A registration succeeds exactly if what it enters is fresh. -/
theorem registerAs_eq_ok_iff :
    r.registerAs name p aliases = .ok r' ↔
      r.Fresh (normalizeName name) (claimedAliases (normalizeName name) aliases) ∧
        r' = r.insert (normalizeName name) (claimedAliases (normalizeName name) aliases) p := by
  rw [fresh_claimed_iff, ← normalizeName_eq_empty_iff, registerAs]
  by_cases hname : normalizeName name = ""
  · simp [hname]
  · have hfind :
        (normalizeName name :: claimedAliases (normalizeName name) aliases).find?
            r.isRegistered = none ↔
          ∀ s, Claims name aliases s → r.resolve? s = none := by
      rw [List.find?_eq_none]
      constructor
      · intro h s hs
        have hkey := h _ (claims_iff.mp hs)
        rw [isRegistered, resolve?_eq, normalizeName_normalizeName] at hkey
        rw [resolve?_eq]
        simpa using hkey
      · intro h key hkey
        have hclaims : Claims name aliases key := by
          rw [claims_iff, (isNormalName_of_mem_claimed hname hkey).2]
          exact hkey
        simp [isRegistered, h key hclaims]
    -- the names are looked up in their order, but success does not depend on it
    rw [if_neg (by simpa using hname), ← hfind]
    cases hcase : (normalizeName name :: claimedAliases (normalizeName name) aliases).find?
        r.isRegistered with
    | some taken => simp [hcase]
    | none => simp [hcase, hname, eq_comm]

/-- A registration gives the strings that it claims to its name, and takes none from another. -/
theorem resolve?_registerAs (hok : r.registerAs name p aliases = .ok r') (s : String) :
    r'.resolve? s = some (normalizeName name) ∧ Claims name aliases s ∧ r.resolve? s = none ∨
      r'.resolve? s = r.resolve? s ∧ ¬ Claims name aliases s := by
  rcases registerAs_eq_ok_iff.mp hok with ⟨hfresh, rfl⟩
  rw [resolve?_eq, owner?_insert hfresh]
  by_cases hs : Claims name aliases s
  · left
    rw [if_pos (claims_iff.mp hs)]
    exact ⟨rfl, hs, (fresh_claimed_iff.mp hfresh).2 s hs⟩
  · right
    rw [if_neg (mt claims_iff.mpr hs)]
    exact ⟨rfl, hs⟩

/-! ## The registries that a program starts with -/

/-- A registry as a program gets it: empty, with the built-in grammars, or as configured. -/
inductive IsInitial : Registry → Prop
  | empty (key : Nat) (abis : AbiRange) : IsInitial { key, abis }
  | builtins (key : Nat) (tables : Tables) : IsInitial (withBuiltins key tables)
  | configured {key : Nat} {tables : Tables} {c : Config} {r : Registry}
    (h : ofConfig key tables c = .ok r) : IsInitial r

/-- The registry was made under the key by entering fresh names and nothing else. -/
inductive Entered (key : Nat) (abis : AbiRange) : Registry → Prop
  | empty : Entered key abis { key, abis }
  | insert {r : Registry} {name : String} {aliases : List String} (h : Entered key abis r)
    (hfresh : r.Fresh name aliases) (p : Provider) : Entered key abis (r.insert name aliases p)

variable {key : Nat} {abis : AbiRange}

theorem Entered.wellFormed (h : r.Entered key abis) : r.WellFormed := by
  induction h with
  | empty => exact wellFormed_empty key abis
  | insert _ hfresh p ih => exact ih.insert hfresh p

/-- Entering names loads nothing. -/
theorem Entered.not_loaded (h : r.Entered key abis) : r.cache = ∅ ∧ r.constructed = [] := by
  induction h with
  | empty => exact ⟨rfl, rfl⟩
  | insert _ _ _ ih => exact ih

theorem Entered.constants (h : r.Entered key abis) : r.key = key ∧ r.abis = abis := by
  induction h with
  | empty => exact ⟨rfl, rfl⟩
  | insert _ _ _ ih => exact ih

/-- The names and aliases of providers, in the order in which they are entered. -/
def allNames (providers : List Provider) : List String :=
  providers.flatMap fun p => p.name :: p.aliases

/-- Providers whose names do not meet can be entered without a check. -/
theorem Entered.foldl_insert (h : r.Entered key abis) {providers : List Provider}
    (hnormal : ∀ key ∈ allNames providers, IsNormalName key)
    (hnodup : (allNames providers).Nodup)
    (hunowned : ∀ key ∈ allNames providers, r.owner? key = none) :
    (providers.foldl (fun r p => r.insert p.name p.aliases p) r).Entered key abis := by
  induction providers generalizing r with
  | nil => exact h
  | cons p rest ih =>
    rw [allNames, List.flatMap_cons, ← allNames] at hnormal hnodup hunowned
    rcases List.nodup_append.mp hnodup with ⟨hown, hrest, hapart⟩
    have hfresh : r.Fresh p.name p.aliases :=
      ⟨fun key hkey => hnormal key (List.mem_append_left _ hkey), (List.nodup_cons.mp hown).1,
        fun key hkey => hunowned key (List.mem_append_left _ hkey)⟩
    -- what follows stays unowned, as it shares no name with this provider
    refine ih (h.insert hfresh p) (fun key hkey => hnormal key (List.mem_append_right _ hkey))
      hrest ?_
    intro key hkey
    rw [owner?_insert hfresh, if_neg fun hmem => hapart key hmem key hkey rfl]
    exact hunowned key (List.mem_append_right _ hkey)

theorem entered_withBuiltins (key : Nat) (tables : Tables) :
    (withBuiltins key tables).Entered key tables.abis := by
  have hnames : allNames (Provider.builtins tables) =
      Provider.builtinNames.flatMap fun entry => entry.1 :: entry.2 := rfl
  refine Entered.empty.foldl_insert ?_ ?_ ?_
  · rw [hnames]
    decide +kernel
  · rw [hnames]
    decide +kernel
  · intro name _
    exact owner?_eq_none_iff.mpr (by simp)

theorem Entered.registerEntry (h : r.Entered key abis) {tables : Tables} {e : ConfigEntry}
    (hok : registerEntry tables r e = .ok r') : r'.Entered key abis := by
  rw [Registry.registerEntry] at hok
  split at hok
  · cases hok
  · rcases registerAs_eq_ok_iff.mp hok with ⟨hfresh, rfl⟩
    exact h.insert hfresh _

theorem Entered.foldlM_registerEntry (h : r.Entered key abis) {tables : Tables}
    {entries : List ConfigEntry} (hok : entries.foldlM (Registry.registerEntry tables) r = .ok r') :
    r'.Entered key abis := by
  induction entries generalizing r with
  | nil =>
    cases hok
    exact h
  | cons e rest ih =>
    -- a refused entry would have ended the fold
    rw [List.foldlM_cons] at hok
    cases hentry : Registry.registerEntry tables r e with
    | error fault =>
      rw [hentry] at hok
      cases hok
    | ok next =>
      rw [hentry] at hok
      exact ih (h.registerEntry hentry) hok

theorem IsInitial.entered (h : r.IsInitial) : ∃ key abis, r.Entered key abis := by
  cases h with
  | empty key abis => exact ⟨key, abis, .empty⟩
  | builtins key tables => exact ⟨key, tables.abis, entered_withBuiltins key tables⟩
  | configured hok => exact ⟨_, _, Entered.empty.foldlM_registerEntry hok⟩

theorem IsInitial.wellFormed (h : r.IsInitial) : r.WellFormed := by
  rcases h.entered with ⟨key, abis, hentered⟩
  exact hentered.wellFormed

theorem IsInitial.not_loaded (h : r.IsInitial) : r.cache = ∅ ∧ r.constructed = [] := by
  rcases h.entered with ⟨key, abis, hentered⟩
  exact hentered.not_loaded

/-- A registry has the key and the versions of tables that it was made with. -/
theorem constants_withBuiltins (key : Nat) (tables : Tables) :
    (withBuiltins key tables).key = key ∧ (withBuiltins key tables).abis = tables.abis :=
  (entered_withBuiltins key tables).constants

theorem constants_ofConfig {tables : Tables} {c : Config} (h : ofConfig key tables c = .ok r) :
    r.key = key ∧ r.abis = tables.abis :=
  (Entered.empty.foldlM_registerEntry h).constants

end SyntaxTrees.Registry
