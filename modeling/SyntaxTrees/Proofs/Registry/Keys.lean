import SyntaxTrees.Proofs.Registry.Run

/-!
# Keys of names

A registration normalises a name once and then asks whether somebody answers to the result, which
normalises it again. Both come to the same key because a normal form is its own
(`resolve?_normalizeName`), and it is the key under which every later request looks the name up. So
the check is sound: a name that is taken is refused (`registerAs_of_taken`), and what a registration
enters was free before (`normal_forms_are_keys`).
-/

namespace SyntaxTrees.Registry

variable {r r' : Registry} {name : String} {aliases : List String} {p : Provider}

/-- A name and its normal form stand for the same grammar. -/
theorem resolve?_normalizeName (r : Registry) (name : String) :
    r.resolve? (normalizeName name) = r.resolve? name := by
  rw [resolve?_eq, resolve?_eq, normalizeName_normalizeName]

/-- What has an owner is a normal form. -/
theorem WellFormed.isNormalName (h : r.WellFormed) {key canonical : String}
    (hkey : r.owner? key = some canonical) : IsNormalName key := by
  unfold owner? at hkey
  split at hkey
  · next hprovider => exact h.provider_normal hprovider
  · exact h.alias_normal (Std.TreeMap.getElem?_eq_some_iff.mp hkey).1

/-- A name that is taken is refused, and the refusal names the key. -/
theorem registerAs_of_taken (h : r.WellFormed) {canonical : String}
    (hname : r.resolve? name = some canonical) (p : Provider) (aliases : List String) :
    r.registerAs name p aliases =
      .error (.config s!"grammar name '{normalizeName name}' is already registered") := by
  have hnormal : IsNormalName (normalizeName name) := h.isNormalName hname
  have htaken : r.isRegistered (normalizeName name) = true := by
    rw [isRegistered, resolve?_normalizeName, hname]
    rfl
  have hnonempty : ¬ (normalizeName name).isEmpty = true := by simpa using hnormal.1
  unfold registerAs
  dsimp only
  rw [if_neg hnonempty, List.find?_cons_of_pos htaken]

/-- The keys that a registration enters are the normal forms of the strings that it claims. -/
theorem mem_claimed_iff (hname : ¬ IsBlankName name) {key : String} :
    key ∈ normalizeName name :: claimedAliases (normalizeName name) aliases ↔
      ∃ s, Claims name aliases s ∧ key = normalizeName s := by
  constructor
  · intro hkey
    have hnormal := isNormalName_of_mem_claimed (mt normalizeName_eq_empty_iff.mp hname) hkey
    refine ⟨key, ?_, hnormal.2.symm⟩
    rw [claims_iff, hnormal.2]
    exact hkey
  · rintro ⟨s, hs, rfl⟩
    exact claims_iff.mp hs

/-- A key is in a table after a registration if it was there before, or is the normal form of a
string that the registration claims. -/
theorem mem_tables_registerAs (hok : r.registerAs name p aliases = .ok r') {key : String} :
    key ∈ r'.providers ∨ key ∈ r'.aliases ↔
      (key ∈ r.providers ∨ key ∈ r.aliases) ∨ ∃ s, Claims name aliases s ∧ key = normalizeName s := by
  rcases registerAs_eq_ok_iff.mp hok with ⟨hfresh, rfl⟩
  rw [← mem_claimed_iff (fresh_claimed_iff.mp hfresh).1, mem_providers_insert, mem_aliases_insert,
    List.mem_cons, or_or_or_comm, or_comm]

/-- Normal forms of names are keys. Normalising again changes nothing, only blank names have the
empty normal form, and white space around a name does not matter. So the keys that a registration
enters are those that it has found free before and under which every later request looks the names
up: from then on they stand for its name, however they are spelt, and are refused to everybody else.
-/
theorem normal_forms_are_keys :
    (∀ s, normalizeName (normalizeName s) = normalizeName s) ∧
    (∀ s, normalizeName s = "" ↔ IsBlankName s) ∧
    (∀ before s behind, IsBlankName before → IsBlankName behind →
      normalizeName (before ++ s ++ behind) = normalizeName s) ∧
    ∀ r₀ : Registry, r₀.IsInitial → ∀ (earlier : List Request) (name : String) (p : Provider)
      (aliases : List String) (r' : Registry),
      let r := r₀.after earlier
      r.registerAs name p aliases = .ok r' →
      (∀ key, key ∈ r'.providers ∨ key ∈ r'.aliases ↔
        (key ∈ r.providers ∨ key ∈ r.aliases) ∨
          ∃ s, Claims name aliases s ∧ key = normalizeName s) ∧
      ∀ s, Claims name aliases s →
        r.isRegistered (normalizeName s) = false ∧
        ∀ later : List Request, (r'.after later).resolve? s = some (normalizeName name) ∧
          (r'.after later).resolve? (normalizeName s) = some (normalizeName name) ∧
          ∀ (q : Provider) (further : List String), (r'.after later).registerAs s q further =
            .error (.config s!"grammar name '{normalizeName s}' is already registered") := by
  refine ⟨normalizeName_normalizeName, fun s => normalizeName_eq_empty_iff,
    fun before s behind hbefore hbehind => normalizeName_append_blank hbefore hbehind s, ?_⟩
  intro r₀ h₀ earlier name p aliases r' r hok
  have hr : r.WellFormed := h₀.wellFormed.after earlier
  rcases registerAs_eq_ok_iff.mp hok with ⟨hfresh, hentered⟩
  have hr' : r'.WellFormed := by
    rw [hentered]
    exact hr.insert hfresh p
  refine ⟨fun key => mem_tables_registerAs hok, ?_⟩
  intro s hs
  -- the check was made with the normal form, yet it is about the string itself
  have hfree : r.resolve? s = none := (fresh_claimed_iff.mp hfresh).2 s hs
  have htaken : r'.resolve? s = some (normalizeName name) := by
    rcases resolve?_registerAs hok s with ⟨hnew, -, -⟩ | ⟨-, hclaims⟩
    · exact hnew
    · exact absurd hs hclaims
  constructor
  · rw [isRegistered, resolve?_normalizeName, hfree]
    rfl
  · intro later
    have hkept : (r'.after later).resolve? s = some (normalizeName name) :=
      resolve?_after hr' later htaken
    refine ⟨hkept, ?_, fun q further => registerAs_of_taken (hr'.after later) hkept q further⟩
    rw [resolve?_normalizeName]
    exact hkept

/-- A name in capitals that ends with a sigma, between an ideographic space and a line feed, and an
alias with a dotted capital: both are found under what was entered, and refused in other spellings. -/
theorem keys_of_greek_name :
    let way : Provider := { name := "way", language := { abi := 14, kindCount := 1 } }
    let r₀ : Registry := { key := 0, abis := ⟨13, 14⟩ }
    let name := "\u3000" ++ "ΟΔΟΣ" ++ "\n"
    let key := "οδος"
    normalizeName name = normalizeName "ΟΔΟΣ" ∧ normalizeName "ΟΔΟΣ" = key ∧
    ∃ r', r₀.registerAs name way ["İ"] = .ok r' ∧ r'.resolve? "i\u0307 " = some key ∧
      r'.registerAs "Οδος" way [] =
        .error (.config s!"grammar name '{key}' is already registered") := by
  intro way r₀ name key
  rcases normal_forms_are_keys with ⟨-, -, hblanks, hkeys⟩
  -- blanks and capitals give way to the key
  have haround : normalizeName name = normalizeName "ΟΔΟΣ" :=
    hblanks "\u3000" "ΟΔΟΣ" "\n" (by decide) (by decide)
  have hname : normalizeName "ΟΔΟΣ" = key := by decide +kernel
  have hspelling : normalizeName "Οδος" = key := by decide +kernel
  -- nothing is registered yet, so the name and the alias are free
  have hfresh : r₀.Fresh (normalizeName name) (claimedAliases (normalizeName name) ["İ"]) := by
    rw [fresh_claimed_iff]
    refine ⟨by decide, fun s _ => ?_⟩
    exact owner?_eq_none_iff.mpr (by simp [r₀])
  obtain ⟨r', hok⟩ : ∃ r', r₀.registerAs name way ["İ"] = .ok r' :=
    ⟨_, registerAs_eq_ok_iff.mpr ⟨hfresh, rfl⟩⟩
  have hclaimed := (hkeys r₀ (.empty 0 ⟨13, 14⟩) [] name way ["İ"] r' hok).2
  have halias : Claims name ["İ"] "i\u0307 " :=
    .inr ⟨"İ", List.mem_singleton_self _, by decide, by decide +kernel⟩
  have hother : Claims name ["İ"] "Οδος" := .inl (by rw [haround, hname, hspelling])
  have hfound := ((hclaimed _ halias).2 []).1
  have hrefused := ((hclaimed _ hother).2 []).2.2 way []
  rw [haround, hname] at hfound
  rw [hspelling] at hrefused
  exact ⟨haround, hname, r', hok, hfound, hrefused⟩

end SyntaxTrees.Registry
