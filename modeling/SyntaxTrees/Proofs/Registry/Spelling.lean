import SyntaxTrees.Proofs.Registry.Configuration

/-!
# Names in another spelling

A grammar is registered under the normal form of its configured name, so two spellings of one normal
form make the same key. Whether an entry inherits the aliases of its provider is decided before, on
the name as it is written. So an entry with its name in another spelling claims what it lists itself
(`ConfigEntry.ownClaims`) and, if the name is the very name of the provider, the aliases of the
provider on top (`ConfigEntry.mem_claims_of_provider`). Entries of one key that claim the same can
take each other's place in any configuration, and no others can (`Registry.sameOutcome_iff`). For two
spellings of a name this is worked out in `Registry.spelling_outcome`, and two capital letters are
enough to lose the aliases (`Registry.capitals_lose_aliases`).
-/

namespace SyntaxTrees

namespace ConfigEntry

/-- The entry with its name in another spelling. -/
def spelled (e : ConfigEntry) (name : String) : ConfigEntry := { e with name }

/-- What the entry claims on its own, without what it inherits. -/
def ownClaims (e : ConfigEntry) : List String :=
  e.key :: (e.aliases.map normalizeName).filter (· ≠ "")

variable {e : ConfigEntry} {k name p : String}

/-- What a sound entry claims are normal forms. -/
theorem normalizeName_of_mem_claims (h : e.IsSound) (hk : k ∈ e.claims) : normalizeName k = k :=
  (Registry.isNormalName_of_mem_claimed h.2 (mem_claims_iff.mp hk)).2

/-- An entry that names its provider inherits the aliases if it goes by the very name of the
provider. -/
theorem mem_claims_of_provider (hp : e.provider = some p) :
    k ∈ e.claims ↔ k ∈ e.ownClaims ∨ e.name = p ∧ k ∈ Provider.builtinAliases p := by
  have hprovider : e.providerName = p := by
    unfold providerName
    rw [hp, Option.getD_some]
  unfold claims ownClaims inherited
  rw [hprovider, List.mem_cons, List.mem_append, List.mem_cons, or_assoc, List.mem_ite_nil_right]

theorem ownClaims_spelled (h : normalizeName name = normalizeName e.name) :
    (e.spelled name).ownClaims = e.ownClaims := by
  unfold ownClaims key spelled
  rw [h]

theorem isSound_spelled (hp : e.provider = some p)
    (h : normalizeName name = normalizeName e.name) : (e.spelled name).IsSound ↔ e.IsSound := by
  unfold IsSound providerName key spelled
  rw [h, hp, Option.getD_some, Option.getD_some]

theorem mem_claims_spelled (hp : e.provider = some p)
    (h : normalizeName name = normalizeName e.name) :
    k ∈ (e.spelled name).claims ↔
      k ∈ e.ownClaims ∨ name = p ∧ k ∈ Provider.builtinAliases p := by
  have hp' : (e.spelled name).provider = some p := hp
  rw [mem_claims_of_provider hp', ownClaims_spelled h]
  rfl

/-- Another spelling claims the same if both spellings are the very name of the provider or neither
is, and else only if the entry claims all that there is to inherit on its own. -/
theorem claims_spelled_iff (hp : e.provider = some p)
    (h : normalizeName name = normalizeName e.name) :
    (∀ k, k ∈ e.claims ↔ k ∈ (e.spelled name).claims) ↔
      ((e.name = p ↔ name = p) ∨ ∀ a ∈ Provider.builtinAliases p, a ∈ e.ownClaims) := by
  simp only [mem_claims_of_provider hp, mem_claims_spelled hp h]
  by_cases he : e.name = p <;> by_cases hname : name = p <;> simp [he, hname]

end ConfigEntry

namespace Registry

variable {r r' : Registry} {tables : Tables} {e f : ConfigEntry}
  {front back : List ConfigEntry} {key key' : Nat}

/-- Registries of one outcome resolve all strings alike. -/
theorem SameOutcome.resolve?_eq {x y : Except Error Registry} (h : SameOutcome x y)
    (hx : x = .ok r) (hy : y = .ok r') (s : String) : r.resolve? s = r'.resolve? s := by
  subst hx hy
  rcases h with ⟨⟨detail, hrefused⟩, -⟩ | ⟨q, q', hq, hq', -, hsame⟩
  · cases hrefused
  · cases hq
    cases hq'
    exact hsame s

/-! ## One entry among others -/

/-- A configuration is accepted if the one without some entry is, and if the entry is sound and
claims nothing that another one claims. -/
theorem ofConfig_isOk_middle :
    (∃ r, ofConfig key tables ⟨front ++ e :: back⟩ = .ok r) ↔
      e.IsSound ∧ (∀ d ∈ front ++ back, e.claims.Disjoint d.claims) ∧
        ∃ r, ofConfig key tables ⟨front ++ back⟩ = .ok r := by
  have hperm : (front ++ e :: back).Perm (e :: (front ++ back)) := List.perm_middle
  have hfirst : (∃ r, ofConfig key tables ⟨front ++ e :: back⟩ = .ok r) ↔
      ∃ r, ofConfig key tables ⟨e :: (front ++ back)⟩ = .ok r := by
    constructor
    · exact ofConfig_isOk_of_perm key hperm
    · exact ofConfig_isOk_of_perm key hperm.symm
  rw [hfirst, ofConfig_isOk_iff, ofConfig_isOk_iff]
  simp only [List.forall_mem_cons, List.pairwise_cons]
  tauto

/-- What an entry claims belongs to the entry that takes its place, if to any. -/
theorem resolve?_of_mem_claims (hc : ∃ r, ofConfig key tables ⟨front ++ e :: back⟩ = .ok r)
    (hc' : ofConfig key' tables ⟨front ++ f :: back⟩ = .ok r') {s : String}
    (hs : normalizeName s ∈ e.claims) :
    r'.resolve? s = if normalizeName s ∈ f.claims then some f.key else none := by
  rcases ofConfig_isOk_middle.mp hc with ⟨-, hapart, -⟩
  -- `s` is claimed by `e`, so by none of its neighbours
  have hothers : ∀ d ∈ front ++ back, normalizeName s ∉ d.claims := by
    intro d hd hsd
    exact hapart d hd hs hsd
  apply Option.ext
  intro canonical
  rw [resolve?_eq, (holds_ofConfig hc').owner_iff]
  constructor
  · -- an owner of `s` is `f` or a neighbour
    rintro ⟨d, hd, hsd, rfl⟩
    rcases List.mem_append.mp hd with hd | hd
    · exact absurd hsd (hothers d (List.mem_append_left _ hd))
    · rcases List.mem_cons.mp hd with rfl | hd
      · rw [if_pos hsd]
      · exact absurd hsd (hothers d (List.mem_append_right _ hd))
  · intro howner
    split at howner
    · cases howner
      exact ⟨f, by simp, by assumption, rfl⟩
    · cases howner

/-- An entry claims at least what another one does if the registries with the one in place of the
other resolve all strings alike. -/
theorem mem_claims_of_resolve?_eq (hc : ofConfig key tables ⟨front ++ e :: back⟩ = .ok r)
    (hc' : ofConfig key' tables ⟨front ++ f :: back⟩ = .ok r')
    (hsame : ∀ s, r.resolve? s = r'.resolve? s) {k : String} (hk : k ∈ e.claims) :
    k ∈ f.claims := by
  have hnormal : normalizeName k = k :=
    ConfigEntry.normalizeName_of_mem_claims (ofConfig_isOk_middle.mp ⟨r, hc⟩).1 hk
  have hclaimed : normalizeName k ∈ e.claims := by rwa [hnormal]
  have hresolve := hsame k
  rw [resolve?_of_mem_claims ⟨r, hc⟩ hc hclaimed, resolve?_of_mem_claims ⟨r, hc⟩ hc' hclaimed,
    if_pos hclaimed, hnormal] at hresolve
  by_contra hnot
  rw [if_neg hnot] at hresolve
  cases hresolve

/-- An entry that claims less can take the place of one that was accepted. -/
theorem ofConfig_isOk_of_subset (hsound : f.IsSound ↔ e.IsSound) (hsub : f.claims ⊆ e.claims)
    (hc : ∃ r, ofConfig key tables ⟨front ++ e :: back⟩ = .ok r) :
    ∃ r, ofConfig key' tables ⟨front ++ f :: back⟩ = .ok r := by
  rw [ofConfig_isOk_middle] at hc ⊢
  rcases hc with ⟨he, hapart, hothers⟩
  refine ⟨hsound.mpr he, ?_, ofConfig_isOk_of_perm key' (List.Perm.refl _) hothers⟩
  intro d hd
  exact List.disjoint_of_subset_left hsub (hapart d hd)

/-! ## Two entries of one key -/

section OneKey

variable (hkey : f.key = e.key)
include hkey

/-- A string that both entries claim or neither does is resolved alike. -/
theorem resolve?_eq_of_mem_claims_iff (hc : ofConfig key tables ⟨front ++ e :: back⟩ = .ok r)
    (hc' : ofConfig key' tables ⟨front ++ f :: back⟩ = .ok r') {s : String}
    (hs : normalizeName s ∈ e.claims ↔ normalizeName s ∈ f.claims) :
    r.resolve? s = r'.resolve? s := by
  apply Option.ext
  intro canonical
  rw [resolve?_eq, resolve?_eq, (holds_ofConfig hc).owner_iff, (holds_ofConfig hc').owner_iff]
  simp only [List.mem_append, List.mem_cons, or_and_right, exists_or, exists_eq_left, hs, hkey]

theorem names_eq_of_key_eq (hc : ofConfig key tables ⟨front ++ e :: back⟩ = .ok r)
    (hc' : ofConfig key' tables ⟨front ++ f :: back⟩ = .ok r') : r.names = r'.names := by
  apply names_eq_of_mem_iff
  intro k
  rw [(holds_ofConfig hc).mem_names_iff, (holds_ofConfig hc').mem_names_iff]
  simp only [List.mem_append, List.mem_cons, or_and_right, exists_or, exists_eq_left, hkey]

/-- Two entries of one key come to the same exactly if they claim the same, unless the configuration
is refused with either of them. -/
theorem sameOutcome_iff (hsound : f.IsSound ↔ e.IsSound) :
    SameOutcome (ofConfig key tables ⟨front ++ e :: back⟩)
        (ofConfig key' tables ⟨front ++ f :: back⟩) ↔
      ((∃ r, ofConfig key tables ⟨front ++ e :: back⟩ = .ok r) ∨
          (∃ r, ofConfig key' tables ⟨front ++ f :: back⟩ = .ok r) →
        ∀ k, k ∈ e.claims ↔ k ∈ f.claims) := by
  constructor
  · -- the outcomes agree: refused both, or the claims can be read off the registries
    rintro (⟨⟨detail, hc⟩, detail', hc'⟩ | ⟨r, r', hc, hc', -, hsame⟩) haccepted k
    · simp [hc, hc'] at haccepted
    · constructor
      · exact mem_claims_of_resolve?_eq hc hc' hsame
      · exact mem_claims_of_resolve?_eq hc' hc fun s => (hsame s).symm
  · -- the claims agree: so does what is accepted, and then what resolves
    intro hclaims
    apply sameOutcome_of_isOk_iff
    · constructor
      · intro hc
        have hmem := hclaims (Or.inl hc)
        exact ofConfig_isOk_of_subset hsound (fun k => (hmem k).mpr) hc
      · intro hc'
        have hmem := hclaims (Or.inr hc')
        exact ofConfig_isOk_of_subset hsound.symm (fun k => (hmem k).mp) hc'
    · intro r r' hc hc'
      have hmem := hclaims (Or.inl ⟨r, hc⟩)
      constructor
      · exact names_eq_of_key_eq hkey hc hc'
      · intro s
        exact resolve?_eq_of_mem_claims_iff hkey hc hc' (hmem _)

end OneKey

/-! ## Two spellings of one name -/

/-- What another spelling of its name does to an entry that names its provider. Both configurations
come to the same if the two spellings are alike in being the very name of the provider, if the entry
claims the aliases of the provider on its own, or if neither configuration is accepted; in no other
case. The spelling that is not the name of the provider is accepted whenever the other one is. If
both are accepted, the names are the same, and so is what any string stands for that is no alias of
the provider; such an alias, unless the entry claims it on its own, is lost with the very name. -/
theorem spelling_outcome (key key' : Nat) (tables : Tables)
    (front back : List ConfigEntry) (e : ConfigEntry) (p name : String)
    (hp : e.provider = some p) (hname : normalizeName name = normalizeName e.name) :
    let outcome := ofConfig key tables ⟨front ++ e :: back⟩
    let outcome' := ofConfig key' tables ⟨front ++ e.spelled name :: back⟩
    (SameOutcome outcome outcome' ↔
      ((∃ r, outcome = .ok r) ∨ (∃ r, outcome' = .ok r) →
        (e.name = p ↔ name = p) ∨ ∀ a ∈ Provider.builtinAliases p, a ∈ e.ownClaims)) ∧
    (e.name = p → (∃ r, outcome = .ok r) → ∃ r, outcome' = .ok r) ∧
    ∀ r r', outcome = .ok r → outcome' = .ok r' →
      r.names = r'.names ∧
      (∀ s, normalizeName s ∉ Provider.builtinAliases p → r.resolve? s = r'.resolve? s) ∧
      (e.name = p → name ≠ p → ∀ a ∈ Provider.builtinAliases p, a ∉ e.ownClaims →
        r.resolve? a = some e.key ∧ r'.resolve? a = none) := by
  intro outcome outcome'
  have hkey : (e.spelled name).key = e.key := hname
  have hsound := ConfigEntry.isSound_spelled hp hname
  refine ⟨?_, ?_, ?_⟩
  · -- when the outcomes agree
    rw [sameOutcome_iff hkey hsound, ConfigEntry.claims_spelled_iff hp hname]
  · -- the very name of the provider claims the most
    intro he
    apply ofConfig_isOk_of_subset hsound
    intro k hk
    rw [ConfigEntry.mem_claims_of_provider hp]
    rcases (ConfigEntry.mem_claims_spelled hp hname).mp hk with hown | ⟨-, hinherited⟩
    · exact Or.inl hown
    · exact Or.inr ⟨he, hinherited⟩
  · -- both accepted
    intro r r' hr hr'
    refine ⟨names_eq_of_key_eq hkey hr hr', ?_, ?_⟩
    · -- a name that is no alias of the provider
      intro s hs
      apply resolve?_eq_of_mem_claims_iff hkey hr hr'
      rw [ConfigEntry.mem_claims_of_provider hp, ConfigEntry.mem_claims_spelled hp hname]
      simp only [hs, and_false]
    · -- an alias that only the very name brings
      intro he hne a ha hown
      have hnormal : normalizeName a = a := (Provider.isNormalName_builtinAlias ha).2
      have hclaimed : normalizeName a ∈ e.claims := by
        rw [hnormal, ConfigEntry.mem_claims_of_provider hp]
        exact Or.inr ⟨he, ha⟩
      have hlost : normalizeName a ∉ (e.spelled name).claims := by
        rw [hnormal, ConfigEntry.mem_claims_spelled hp hname]
        rintro (hlisted | ⟨hvery, -⟩)
        · exact hown hlisted
        · exact hne hvery
      constructor
      · rw [resolve?_of_mem_claims ⟨r, hr⟩ hr hclaimed, if_pos hclaimed]
      · rw [resolve?_of_mem_claims ⟨r, hr⟩ hr' hclaimed, if_neg hlost]

/-- An entry that lists the aliases of its provider itself may write its name in capitals. -/
theorem listed_aliases_in_capitals :
    let tables : Tables := { language := fun _ => { abi := 14, kindCount := 1 }, abis := ⟨13, 14⟩ }
    let bash : ConfigEntry := { name := "bash" }
    let e : ConfigEntry :=
      { name := "javascript", provider := some "javascript", aliases := ["JSX", "js"] }
    normalizeName "JavaScript" = normalizeName e.name ∧
      SameOutcome (ofConfig 0 tables ⟨[bash, e]⟩)
        (ofConfig 1 tables ⟨[bash, e.spelled "JavaScript"]⟩) := by
  intro tables bash e
  have hname : normalizeName "JavaScript" = normalizeName e.name := by decide +kernel
  rcases spelling_outcome 0 1 tables [bash] [] e "javascript" "JavaScript" rfl hname with ⟨hsame, -⟩
  refine ⟨hname, hsame.mpr ?_⟩
  intro _
  right
  decide +kernel

/-- An entry for the built-in grammar under its own name is given two capital letters. The name that
it is registered under stays the same, and the aliases of the grammar are no longer known. -/
theorem capitals_lose_aliases :
    let tables : Tables := { language := fun _ => { abi := 14, kindCount := 1 }, abis := ⟨13, 14⟩ }
    let e : ConfigEntry := { name := "javascript", provider := some "javascript" }
    normalizeName "JavaScript" = normalizeName e.name ∧
    (∃ r r', ofConfig 0 tables ⟨[e]⟩ = .ok r ∧
      ofConfig 0 tables ⟨[e.spelled "JavaScript"]⟩ = .ok r' ∧
      r.resolve? "js" = some "javascript" ∧ r'.resolve? "js" = none) ∧
    ¬ SameOutcome (ofConfig 0 tables ⟨[e]⟩) (ofConfig 0 tables ⟨[e.spelled "JavaScript"]⟩) := by
  intro tables e
  have hname : normalizeName "JavaScript" = normalizeName e.name := by decide +kernel
  have hempty : ∃ r, ofConfig 0 tables ⟨[] ++ []⟩ = .ok r := ⟨_, rfl⟩
  have haccepted : ∃ r, ofConfig 0 tables ⟨[] ++ e :: []⟩ = .ok r := by
    refine ofConfig_isOk_middle.mpr ⟨?_, by simp, hempty⟩
    constructor <;> decide +kernel
  have haccepted' : ∃ r, ofConfig 0 tables ⟨[] ++ e.spelled "JavaScript" :: []⟩ = .ok r := by
    refine ofConfig_isOk_middle.mpr ⟨?_, by simp, hempty⟩
    constructor <;> decide +kernel
  rcases haccepted with ⟨r, hr⟩
  rcases haccepted' with ⟨r', hr'⟩
  have hclaimed : normalizeName "js" ∈ e.claims := by decide +kernel
  have hlost : normalizeName "js" ∉ (e.spelled "JavaScript").claims := by decide +kernel
  have hresolve : r.resolve? "js" = some "javascript" := by
    rw [resolve?_of_mem_claims ⟨r, hr⟩ hr hclaimed, if_pos hclaimed]
    decide +kernel
  have hresolve' : r'.resolve? "js" = none := by
    rw [resolve?_of_mem_claims ⟨r, hr⟩ hr' hclaimed, if_neg hlost]
  refine ⟨hname, ⟨r, r', hr, hr', hresolve, hresolve'⟩, ?_⟩
  intro hsame
  have heq := hsame.resolve?_eq hr hr' "js"
  rw [hresolve, hresolve'] at heq
  cases heq

end Registry

end SyntaxTrees
