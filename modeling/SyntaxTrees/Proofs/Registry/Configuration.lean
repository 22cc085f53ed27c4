import SyntaxTrees.Proofs.Registry.Loading

/-!
# Configured registries

An entry of a configuration claims its key, which is the normal form of its name, the normal forms
of its aliases that are not blank, and, if it goes by the very name of its provider, the aliases of
the provider. The entries are registered one after the other, each against what the earlier ones
have left (`Registry.Holds`). That the next one succeeds means that it claims nothing that an
earlier one claims (`Registry.Holds.registerEntry_isOk_iff`), so that all of them succeed exactly
if no two claim the same (`Registry.Holds.foldlM_isOk_iff`). In this no entry comes before another:
configurations that differ in their order come to the same (`Registry.SameOutcome`), which is part of
`Registry.configured_by_claims`.
-/

namespace SyntaxTrees

/-! ## Built-in providers -/

namespace Provider

/-- The aliases of the built-in provider of a name. -/
def builtinAliases (name : String) : List String := (builtinNames.lookup name).getD []

/-- The engine reads the tables of all built-in providers. -/
def UsableTables (tables : Tables) : Prop :=
  ∀ name ∈ builtinNames.map Prod.fst, (tables.language name).kindCount ≠ 0 ∧
    tables.abis.oldest ≤ (tables.language name).abi ∧ (tables.language name).abi ≤ tables.abis.newest

theorem find?_name (tables : Tables) (name : String)
    (entries : List (String × List String)) :
    (entries.map fun (name, aliases) =>
        ({ name, aliases, language := tables.language name } : Provider)).find? (·.name == name) =
      (entries.lookup name).map fun aliases => { name, aliases, language := tables.language name } := by
  induction entries with
  | nil => rfl
  | cons entry rest ih =>
    rcases entry with ⟨first, aliases⟩
    rw [List.map_cons, List.find?_cons, List.lookup_cons]
    by_cases hname : first = name
    · -- the head is the entry asked for
      subst hname
      simp
    · -- it is not: the search goes on
      have hbeq : (name == first) = false := by simpa using Ne.symm hname
      have hbeq' : (first == name) = false := by simpa using hname
      simp only [hbeq, hbeq']
      exact ih

/-- There is a built-in provider of a name exactly if the name is listed. -/
theorem builtin?_cases (tables : Tables) (name : String) :
    (name ∉ builtinNames.map Prod.fst ∧ builtin? tables name = none) ∨
      name ∈ builtinNames.map Prod.fst ∧ builtin? tables name =
        some { name, aliases := builtinAliases name, language := tables.language name } := by
  have hfind : builtin? tables name = _ := find?_name tables name builtinNames
  rw [hfind, builtinAliases]
  cases hlookup : builtinNames.lookup name with
  | none =>
    left
    constructor
    · -- no entry has the name
      intro hmem
      rcases List.mem_map.mp hmem with ⟨entry, hentry, rfl⟩
      have hne := List.lookup_eq_none_iff.mp hlookup entry hentry
      simp at hne
    · rfl
  | some aliases =>
    right
    constructor
    · -- the look-up found one
      rcases List.lookup_eq_some_iff.mp hlookup with ⟨front, back, hsplit, -⟩
      rw [hsplit]
      simp
    · rfl

/-- The aliases of built-in providers are normal forms. -/
theorem isNormalName_builtinAlias {name a : String} (h : a ∈ builtinAliases name) :
    IsNormalName a := by
  have hall : ∀ entry ∈ builtinNames, ∀ a ∈ entry.2, IsNormalName a := by decide +kernel
  rw [builtinAliases] at h
  cases hlookup : builtinNames.lookup name with
  | none =>
    rw [hlookup] at h
    cases h
  | some aliases =>
    rw [hlookup] at h
    rcases List.lookup_eq_some_iff.mp hlookup with ⟨front, back, hsplit, -⟩
    have hmem : (name, aliases) ∈ builtinNames := by simp [hsplit]
    exact hall _ hmem a h

end Provider

/-! ## What an entry claims -/

namespace ConfigEntry

def key (e : ConfigEntry) : String := normalizeName e.name

/-- The aliases of the provider, if the entry goes by the very name of the provider. -/
def inherited (e : ConfigEntry) : List String :=
  if e.name = e.providerName then Provider.builtinAliases e.providerName else []

/-- The names that the entry claims, in normal form: its key, its aliases without blank ones, and
the aliases that it inherits. -/
def claims (e : ConfigEntry) : List String :=
  e.key :: ((e.aliases.map normalizeName).filter (· ≠ "") ++ e.inherited)

/-- The entry could be registered if there were no other: it has a provider and a name. -/
def IsSound (e : ConfigEntry) : Prop :=
  e.providerName ∈ Provider.builtinNames.map Prod.fst ∧ e.key ≠ ""

/-- The provider that the entry is registered with. -/
def builtin (e : ConfigEntry) (tables : Tables) : Provider :=
  { name := e.providerName
    aliases := Provider.builtinAliases e.providerName
    language := tables.language e.providerName }

theorem key_mem_claims (e : ConfigEntry) : e.key ∈ e.claims := List.mem_cons_self

/-- What the entry claims is what registering it enters. -/
theorem mem_claims_iff {e : ConfigEntry} {k : String} :
    k ∈ e.claims ↔ k ∈ e.key :: Registry.claimedAliases e.key (e.aliases ++ e.inherited) := by
  have hinherited : ∀ a ∈ e.inherited, IsNormalName a := by
    intro a ha
    unfold inherited at ha
    split at ha
    · exact Provider.isNormalName_builtinAlias ha
    · cases ha
  unfold claims
  rw [List.mem_cons, List.mem_cons, Registry.mem_claimedAliases]
  by_cases hkey : k = e.key
  · simp [hkey]
  · simp only [hkey, false_or, ne_eq, not_false_eq_true, true_and, List.mem_append,
      ← normalizeName_eq_empty_iff]
    constructor
    · rintro (hown | hinh)
      · rcases List.mem_filter.mp hown with ⟨hmap, hne⟩
        rcases List.mem_map.mp hmap with ⟨a, ha, rfl⟩
        exact ⟨a, Or.inl ha, by simpa using hne, rfl⟩
      · -- an inherited alias is its own normal form
        rcases hinherited k hinh with ⟨hne, hnormal⟩
        exact ⟨k, Or.inr hinh, by rwa [hnormal], hnormal.symm⟩
    · rintro ⟨a, ha | ha, hne, rfl⟩
      · left
        exact List.mem_filter.mpr ⟨List.mem_map_of_mem ha, by simpa using hne⟩
      · right
        rwa [(hinherited a ha).2]

end ConfigEntry

namespace Registry

variable {r r' : Registry} {tables : Tables} {e : ConfigEntry}
  {done rest entries : List ConfigEntry}

/-! ## One entry -/

/-- What a sound entry claims can be entered if none of it has an owner. -/
theorem fresh_of_unowned (hsound : e.IsSound) (hunowned : ∀ k ∈ e.claims, r.owner? k = none) :
    r.Fresh e.key (claimedAliases e.key (e.aliases ++ e.inherited)) := by
  refine ⟨?_, ?_, ?_⟩
  · intro k hk
    exact isNormalName_of_mem_claimed hsound.2 hk
  · intro hmem
    exact (mem_claimedAliases.mp hmem).1 rfl
  · intro k hk
    exact hunowned k (ConfigEntry.mem_claims_iff.mpr hk)

/-- Entering an entry succeeds if it is sound and nothing that it claims has an owner. -/
theorem registerEntry_eq_ok_iff :
    registerEntry tables r e = .ok r' ↔
      e.IsSound ∧ (∀ k ∈ e.claims, r.owner? k = none) ∧
        r' = r.insert e.key (claimedAliases e.key (e.aliases ++ e.inherited)) (e.builtin tables) := by
  unfold registerEntry
  rcases Provider.builtin?_cases tables e.providerName with ⟨hunknown, hnone⟩ | ⟨hknown, hsome⟩
  · rw [hnone]
    simp [ConfigEntry.IsSound, hunknown]
  · -- the aliases put to `registerAs` are the entry's own, then the inherited ones
    have haliases : (if e.name = e.providerName then
        e.aliases ++ Provider.builtinAliases e.providerName else e.aliases) =
        e.aliases ++ e.inherited := by
      unfold ConfigEntry.inherited
      split
      · rfl
      · rw [List.append_nil]
    rw [hsome]
    simp only [haliases]
    rw [registerAs_eq_ok_iff]
    constructor
    · rintro ⟨hfresh, rfl⟩
      refine ⟨⟨hknown, (hfresh.normal _ List.mem_cons_self).1⟩, ?_, rfl⟩
      intro k hk
      exact hfresh.unowned k (ConfigEntry.mem_claims_iff.mp hk)
    · rintro ⟨hsound, hunowned, rfl⟩
      exact ⟨fresh_of_unowned hsound hunowned, rfl⟩

/-- An entry that cannot be entered is an error of the configuration. -/
theorem registerEntry_error {err : Error} (h : registerEntry tables r e = .error err) :
    ∃ detail, err = .config detail := by
  unfold registerEntry at h
  split at h
  · cases h
    exact ⟨_, rfl⟩
  · simp only [registerAs] at h
    split at h
    · -- the name or one of the aliases is taken
      cases h
      exact ⟨_, rfl⟩
    · split at h
      · cases h
        exact ⟨_, rfl⟩
      · cases h

/-! ## Several entries -/

/-- The registry is what some entries make of an empty one: a name belongs to the entry that
claims it, and the tables behind an entry are those of its provider. -/
structure Holds (tables : Tables) (entries : List ConfigEntry) (r : Registry) : Prop where
  owner_iff : ∀ {k canonical : String},
    r.owner? k = some canonical ↔ ∃ e ∈ entries, k ∈ e.claims ∧ canonical = e.key
  provider_eq : ∀ {e : ConfigEntry}, e ∈ entries → r.providers[e.key]? = some (e.builtin tables)

theorem holds_empty (key : Nat) : Holds tables [] { key, abis := tables.abis } where
  owner_iff := by simp [owner?]
  provider_eq h := by cases h

/-- Nothing that an entry claims has an owner if and only if it shares no claim with the entries
before it. -/
theorem Holds.unowned_iff (h : Holds tables done r) :
    (∀ k ∈ e.claims, r.owner? k = none) ↔ ∀ d ∈ done, d.claims.Disjoint e.claims := by
  constructor
  · intro hunowned d hd k hkd hke
    have howner : r.owner? k = some d.key := h.owner_iff.mpr ⟨d, hd, hkd, rfl⟩
    rw [hunowned k hke] at howner
    cases howner
  · intro hapart k hk
    cases howner : r.owner? k with
    | none => rfl
    | some canonical =>
      rcases h.owner_iff.mp howner with ⟨d, hd, hkd, -⟩
      exact absurd hk (hapart d hd hkd)

theorem Holds.registerEntry_isOk_iff (h : Holds tables done r) :
    (∃ r', registerEntry tables r e = .ok r') ↔
      e.IsSound ∧ ∀ d ∈ done, d.claims.Disjoint e.claims := by
  rw [← h.unowned_iff]
  constructor
  · rintro ⟨r', hok⟩
    rcases registerEntry_eq_ok_iff.mp hok with ⟨hsound, hunowned, -⟩
    exact ⟨hsound, hunowned⟩
  · rintro ⟨hsound, hunowned⟩
    exact ⟨_, registerEntry_eq_ok_iff.mpr ⟨hsound, hunowned, rfl⟩⟩

/-- An entry joins those before it. -/
theorem Holds.registerEntry (h : Holds tables done r) (hok : registerEntry tables r e = .ok r') :
    Holds tables (done ++ [e]) r' := by
  rcases registerEntry_eq_ok_iff.mp hok with ⟨hsound, hunowned, rfl⟩
  have hfresh := fresh_of_unowned hsound hunowned
  constructor
  · intro k canonical
    rw [owner?_insert hfresh]
    simp only [← ConfigEntry.mem_claims_iff, List.mem_append, List.mem_singleton, or_and_right,
      exists_or, exists_eq_left]
    by_cases hk : k ∈ e.claims
    · -- no earlier entry claims it
      rw [if_pos hk, Option.some.injEq]
      have hnone : ¬ ∃ d ∈ done, k ∈ d.claims ∧ canonical = d.key := by
        rw [← h.owner_iff, hunowned k hk]
        simp
      rw [or_iff_right hnone, and_iff_right hk, eq_comm]
    · rw [if_neg hk, h.owner_iff]
      simp [hk]
  · intro d hd
    rw [List.mem_append, List.mem_singleton] at hd
    rw [getElem?_providers_insert]
    rcases hd with hd | rfl
    · have hne : e.key ≠ d.key := by
        intro heq
        have hdisjoint := h.unowned_iff.mp hunowned d hd
        exact hdisjoint d.key_mem_claims (heq ▸ e.key_mem_claims)
      rw [if_neg hne]
      exact h.provider_eq hd
    · rw [if_pos rfl]

/-- All entries can be entered if and only if each of them is sound and no two claim the same. The
induction is on the entries to come, and what is left of the condition for those already entered
is that they claim nothing that is still to come. -/
theorem Holds.foldlM_isOk_iff (h : Holds tables done r) :
    (∃ r', rest.foldlM (Registry.registerEntry tables) r = .ok r') ↔
      (∀ e ∈ rest, e.IsSound) ∧ (∀ d ∈ done, ∀ e ∈ rest, d.claims.Disjoint e.claims) ∧
        rest.Pairwise fun e f => e.claims.Disjoint f.claims := by
  induction rest generalizing done r with
  | nil => simp [pure, Except.pure]
  | cons e rest ih =>
    rw [List.foldlM_cons]
    cases hentry : Registry.registerEntry tables r e with
    | error err =>
      -- the first entry already fails
      have hnot : ¬ (e.IsSound ∧ ∀ d ∈ done, d.claims.Disjoint e.claims) := by
        rw [← h.registerEntry_isOk_iff, hentry]
        simp
      constructor
      · rintro ⟨r', hr'⟩
        cases hr'
      · rintro ⟨hsound, hapart, -⟩
        exact absurd ⟨hsound e List.mem_cons_self,
          fun d hd => hapart d hd e List.mem_cons_self⟩ hnot
    | ok next =>
      rcases h.registerEntry_isOk_iff.mp ⟨next, hentry⟩ with ⟨hsound, hapart⟩
      show (∃ r', rest.foldlM (Registry.registerEntry tables) next = .ok r') ↔ _
      rw [ih (h.registerEntry hentry), List.pairwise_cons]
      constructor
      · rintro ⟨hsound', hapart', hpairwise⟩
        refine ⟨?_, ?_, ?_, hpairwise⟩
        · intro f hf
          rcases List.mem_cons.mp hf with rfl | hf
          · exact hsound
          · exact hsound' f hf
        · intro d hd f hf
          rcases List.mem_cons.mp hf with rfl | hf
          · exact hapart d hd
          · exact hapart' d (List.mem_append_left _ hd) f hf
        · intro f hf
          exact hapart' e (by simp) f hf
      · rintro ⟨hsound', hapart', hfirst, hpairwise⟩
        refine ⟨fun f hf => hsound' f (List.mem_cons_of_mem _ hf), ?_, hpairwise⟩
        intro d hd f hf
        rcases List.mem_append.mp hd with hd | hd
        · exact hapart' d hd f (List.mem_cons_of_mem _ hf)
        · rw [List.mem_singleton.mp hd]
          exact hfirst f hf

theorem Holds.foldlM (h : Holds tables done r)
    (hok : rest.foldlM (Registry.registerEntry tables) r = .ok r') :
    Holds tables (done ++ rest) r' := by
  induction rest generalizing done r with
  | nil =>
    cases hok
    rwa [List.append_nil]
  | cons e rest ih =>
    -- an entry refused would have ended the fold
    rw [List.foldlM_cons] at hok
    cases hentry : Registry.registerEntry tables r e with
    | error err =>
      rw [hentry] at hok
      cases hok
    | ok next =>
      rw [hentry] at hok
      have hrest := ih (h.registerEntry hentry) hok
      rwa [List.append_assoc, List.singleton_append] at hrest

theorem foldlM_registerEntry_error {err : Error}
    (h : entries.foldlM (Registry.registerEntry tables) r = .error err) :
    ∃ detail, err = .config detail := by
  induction entries generalizing r with
  | nil => cases h
  | cons e rest ih =>
    rw [List.foldlM_cons] at h
    cases hentry : Registry.registerEntry tables r e with
    | error fault =>
      rw [hentry] at h
      cases h
      exact registerEntry_error hentry
    | ok next =>
      rw [hentry] at h
      exact ih h

/-! ## Whole configurations -/

variable {key : Nat} {c c' : Config}

theorem holds_ofConfig (h : ofConfig key tables c = .ok r) : Holds tables c.grammars r := by
  have hholds := (holds_empty key).foldlM h
  rwa [List.nil_append] at hholds

/-- Whether a configuration is accepted is a matter of its entries and of pairs of them. -/
theorem ofConfig_isOk_iff :
    (∃ r, ofConfig key tables c = .ok r) ↔
      (∀ e ∈ c.grammars, e.IsSound) ∧
        c.grammars.Pairwise fun e f => e.claims.Disjoint f.claims := by
  have hempty : Holds tables [] { key, abis := tables.abis } := holds_empty key
  unfold ofConfig
  rw [hempty.foldlM_isOk_iff]
  simp

/-- A configuration is accepted in any order of its entries or in none. -/
theorem ofConfig_isOk_of_perm (key' : Nat) (hperm : c.grammars.Perm c'.grammars)
    (h : ∃ r, ofConfig key tables c = .ok r) : ∃ r, ofConfig key' tables c' = .ok r := by
  rw [ofConfig_isOk_iff] at h ⊢
  rcases h with ⟨hsound, hpairwise⟩
  constructor
  · intro e he
    exact hsound e (hperm.mem_iff.mpr he)
  · exact (hperm.pairwise_iff fun hef => hef.symm).mp hpairwise

theorem Holds.mem_names_iff (h : Holds tables entries r) {k : String} :
    k ∈ r.names ↔ ∃ e ∈ entries, k = e.key := by
  rw [mem_names]
  constructor
  · intro hk
    have howner : r.owner? k = some k := by rw [owner?, if_pos hk]
    rcases h.owner_iff.mp howner with ⟨e, he, -, heq⟩
    exact ⟨e, he, heq⟩
  · rintro ⟨e, he, rfl⟩
    exact (Std.TreeMap.getElem?_eq_some_iff.mp (h.provider_eq he)).1

/-- Names that are listed in ascending order are known if it is known which they are. -/
theorem names_eq_of_mem_iff (h : ∀ k, k ∈ r.names ↔ k ∈ r'.names) : r.names = r'.names := by
  have hperm : r.names.Perm r'.names :=
    (List.perm_ext_iff_of_nodup r.providers.nodup_keys r'.providers.nodup_keys).mpr h
  refine hperm.eq_of_pairwise ?_ r.names_pairwise_lt r'.names_pairwise_lt
  intro a b _ _ hab hba
  exact absurd hba (String.lt_asymm hab)

/-- Registries of the same entries resolve all names alike. -/
theorem Holds.resolve?_eq (h : Holds tables entries r) (h' : Holds tables done r')
    (hmem : ∀ e, e ∈ entries ↔ e ∈ done) (s : String) : r.resolve? s = r'.resolve? s := by
  apply Option.ext
  intro canonical
  rw [Registry.resolve?_eq, Registry.resolve?_eq, h.owner_iff, h'.owner_iff]
  simp only [hmem]

/-! ## Outcomes -/

/-- Two configurations come to the same: both are refused, or both are accepted and their registries
have the same names and resolve all strings alike. -/
def SameOutcome (x y : Except Error Registry) : Prop :=
  ((∃ detail, x = .error (.config detail)) ∧ ∃ detail, y = .error (.config detail)) ∨
    ∃ r r', x = .ok r ∧ y = .ok r' ∧ r.names = r'.names ∧ ∀ s, r.resolve? s = r'.resolve? s

/-- A configuration is accepted, or refused as such. -/
theorem ofConfig_cases (key : Nat) (tables : Tables) (c : Config) :
    (∃ r, ofConfig key tables c = .ok r) ∨
      ∃ detail, ofConfig key tables c = .error (.config detail) := by
  cases hc : ofConfig key tables c with
  | ok r => exact Or.inl ⟨r, rfl⟩
  | error err =>
    right
    rcases foldlM_registerEntry_error hc with ⟨detail, rfl⟩
    exact ⟨detail, rfl⟩

/-- If each of two configurations is accepted whenever the other one is, only their registries are
left to compare. -/
theorem sameOutcome_of_isOk_iff {key' : Nat}
    (hok : (∃ r, ofConfig key tables c = .ok r) ↔ ∃ r', ofConfig key' tables c' = .ok r')
    (hsame : ∀ r r', ofConfig key tables c = .ok r → ofConfig key' tables c' = .ok r' →
      r.names = r'.names ∧ ∀ s, r.resolve? s = r'.resolve? s) :
    SameOutcome (ofConfig key tables c) (ofConfig key' tables c') := by
  rcases ofConfig_cases key tables c with ⟨r, hr⟩ | ⟨detail, hrefused⟩
  · -- the first is accepted, so the second is
    right
    rcases hok.mp ⟨r, hr⟩ with ⟨r', hr'⟩
    exact ⟨r, r', hr, hr', hsame r r' hr hr'⟩
  · -- the first is refused, so the second cannot be accepted
    left
    refine ⟨⟨detail, hrefused⟩, ?_⟩
    rcases ofConfig_cases key' tables c' with haccepted | hrefused'
    · rcases hok.mpr haccepted with ⟨r, hr⟩
      rw [hrefused] at hr
      cases hr
    · exact hrefused'

/-! ## Loading from a configured registry -/

/-- A provider is never replaced. -/
theorem getElem?_providers_after (hr : r.WellFormed) (requests : List Request) {key : String}
    {p : Provider} (hp : r.providers[key]? = some p) :
    (r.after requests).providers[key]? = some p := by
  induction requests using List.reverseRecOn with
  | nil => exact hp
  | append_singleton requests q ih =>
    rw [after_concat]
    rcases answer_cases (hr.after requests) q with heq | ⟨_, _, q, hfresh, heq⟩ | ⟨_, heq⟩ |
      ⟨_, _, -, -, -, heq⟩ <;> rw [heq]
    · exact ih
    · exact getElem?_providers_of_fresh hfresh ih q
    · exact ih
    · exact ih

/-- Whatever has been asked of the registry, a name that an entry claims loads the tables of the
provider of the entry, under the key of the entry. -/
theorem load_claimed (htables : Provider.UsableTables tables)
    (hok : ofConfig key tables c = .ok r) (requests : List Request) (he : e ∈ c.grammars)
    {s : String} (hs : normalizeName s ∈ e.claims) :
    ∃ g, ((r.after requests).load s).1 = .ok g ∧ g.name = e.key ∧
      g.language = tables.language e.providerName := by
  rcases (IsInitial.configured hok).sound with ⟨hr, hempty⟩
  have hsound : (r.after requests).CacheSound := hempty.after hr requests
  have hholds : Holds tables c.grammars r := holds_ofConfig hok
  -- a run of requests keeps the range, the owner and the provider of the name
  have habis : (r.after requests).abis = tables.abis :=
    (constants_after hr requests).2.trans (constants_ofConfig hok).2
  have hresolve : (r.after requests).resolve? s = some e.key :=
    resolve?_after hr requests (hholds.owner_iff.mpr ⟨e, he, hs, rfl⟩)
  have hprovider : (r.after requests).providers[e.key]? = some (e.builtin tables) :=
    getElem?_providers_after hr requests (hholds.provider_eq he)
  rcases (ofConfig_isOk_iff.mp ⟨r, hok⟩).1 e he with ⟨hknown, -⟩
  rcases htables e.providerName hknown with ⟨hkinds, hold, hnew⟩
  -- usable tables leave no fault to report
  have husable : fault? tables.abis (e.builtin tables).language = none :=
    fault?_of_usable hkinds hold hnew
  rcases load_of_resolve? (hr.after requests) hsound hresolve with ⟨p, hp, hreply⟩
  obtain rfl : e.builtin tables = p := Option.some.inj (hprovider.symm.trans hp)
  rcases hreply with ⟨fault, hfault, -⟩ | ⟨-, g, hg, hname, hlanguage⟩
  · rw [habis, husable] at hfault
    cases hfault
  · exact ⟨g, hg, hname, hlanguage⟩

/-- A configuration is accepted if and only if all providers are built-in, no key is empty, and no
two entries claim the same name. The registry that comes of it resolves the strings whose normal
forms are claimed, each to the key of the entry that claims it, has the keys as its names, and
loads for each entry the tables of its provider under its key, also after any other requests. If
the entries come in another order, then either both configurations are refused as such, or the two
registries have the same names and resolve all strings alike. -/
theorem configured_by_claims (key : Nat) (tables : Tables) (c : Config) :
    ((∃ r, ofConfig key tables c = .ok r) ↔
      (∀ e ∈ c.grammars, e.providerName ∈ Provider.builtinNames.map Prod.fst) ∧
        (∀ e ∈ c.grammars, e.key ≠ "") ∧
        c.grammars.Pairwise fun e f => e.claims.Disjoint f.claims) ∧
    (∀ r, ofConfig key tables c = .ok r →
      (∀ s canonical, r.resolve? s = some canonical ↔
        ∃ e ∈ c.grammars, normalizeName s ∈ e.claims ∧ canonical = e.key) ∧
      (∀ k, k ∈ r.names ↔ ∃ e ∈ c.grammars, k = e.key) ∧
      (Provider.UsableTables tables → ∀ requests, ∀ e ∈ c.grammars, ∀ s,
        normalizeName s ∈ e.claims → ∃ g, ((r.after requests).load s).1 = .ok g ∧
          g.name = e.key ∧ g.language = tables.language e.providerName)) ∧
    ∀ key' (c' : Config), c.grammars.Perm c'.grammars →
      ((∃ detail, ofConfig key tables c = .error (.config detail)) ∧
        ∃ detail, ofConfig key' tables c' = .error (.config detail)) ∨
      ∃ r r', ofConfig key tables c = .ok r ∧ ofConfig key' tables c' = .ok r' ∧
        r.names = r'.names ∧ ∀ s, r.resolve? s = r'.resolve? s := by
  refine ⟨?_, ?_, ?_⟩
  · -- accepted
    rw [ofConfig_isOk_iff, ← and_assoc]
    exact and_congr_left fun _ => forall₂_and
  · -- what is registered, and what loads
    intro r hok
    have hholds : Holds tables c.grammars r := holds_ofConfig hok
    refine ⟨?_, fun k => hholds.mem_names_iff, ?_⟩
    · intro s canonical
      exact hholds.owner_iff
    · intro htables requests e he s hs
      exact load_claimed htables hok requests he hs
  · -- another order
    intro key' c' hperm
    refine sameOutcome_of_isOk_iff ?_ ?_
    · constructor
      · exact ofConfig_isOk_of_perm key' hperm
      · exact ofConfig_isOk_of_perm key hperm.symm
    · intro r r' hr hr'
      have hholds := holds_ofConfig hr
      have hholds' := holds_ofConfig hr'
      constructor
      · -- both registries list the same keys, in the one order
        apply names_eq_of_mem_iff
        intro k
        rw [hholds.mem_names_iff, hholds'.mem_names_iff]
        simp only [hperm.mem_iff]
      · exact hholds.resolve?_eq hholds' fun e => hperm.mem_iff

/-- An alias of a renamed grammar loads the tables of its provider, and the entry before it keeps
the aliases of its own. -/
theorem configured_ecma_loads :
    let tables : Tables := { language := fun _ => { abi := 14, kindCount := 1 }, abis := ⟨13, 14⟩ }
    let bash : ConfigEntry := { name := "bash" }
    let ecma : ConfigEntry := { name := "ecma", provider := some "javascript", aliases := ["Node"] }
    Provider.UsableTables tables ∧ ∃ r, ofConfig 0 tables ⟨[bash, ecma]⟩ = .ok r ∧
      r.resolve? " SH" = some "bash" ∧ ∃ g, (r.load "node").1 = .ok g ∧ g.name = "ecma" := by
  intro tables bash ecma
  have htables : Provider.UsableTables tables := by
    intro name _
    exact ⟨Nat.one_ne_zero, by simp [tables], by simp [tables]⟩
  rcases configured_by_claims 0 tables ⟨[bash, ecma]⟩ with ⟨haccepted, hregistry, -⟩
  obtain ⟨r, hr⟩ := haccepted.mpr (by
    refine ⟨by decide +kernel, by decide +kernel, ?_⟩
    rw [List.pairwise_pair, List.disjoint_left]
    decide +kernel)
  rcases hregistry r hr with ⟨hresolve, -, hload⟩
  refine ⟨htables, r, hr, (hresolve _ _).mpr ⟨bash, by simp, by decide +kernel⟩, ?_⟩
  rcases hload htables [] ecma (by simp) "node" (by decide +kernel) with ⟨g, hg, hname, -⟩
  refine ⟨g, hg, ?_⟩
  rw [hname]
  decide +kernel

end Registry

end SyntaxTrees
