import Mathlib.Data.List.Dedup
import SyntaxTrees.Proofs.Registry.Run

/-!
# What loadings give

The tables behind a name decide what loading it gives, and the cache decides only whether they are
constructed for it. `CacheSound` says what the handles in the cache are: each is kept under its
own name, for tables that are not at fault, and no two have the same number. `Tallies` ties the
cache and the constructions to what an observer has seen of the run: a grammar is in the cache if
it was ever given out, and its tables were constructed once for that and once for every failure.
Both hold after every run; `loads_share_handles` puts them together.
-/

namespace SyntaxTrees.Registry

variable {r r' : Registry} {name : String} {aliases : List String} {p : Provider}

/-! ## Faults of tables -/

theorem fault?_of_empty {abis : AbiRange} {l : Language} (h : l.kindCount = 0) :
    fault? abis l = some .emptyTables := by
  rw [fault?, if_pos h]

theorem fault?_of_abi {abis : AbiRange} {l : Language} (h : l.kindCount ≠ 0)
    (habi : l.abi < abis.oldest ∨ abis.newest < l.abi) :
    fault? abis l = some (.abiMismatch l.abi abis.oldest abis.newest) := by
  rw [fault?, if_neg h, if_pos habi]

theorem fault?_of_usable {abis : AbiRange} {l : Language} (h : l.kindCount ≠ 0)
    (hold : abis.oldest ≤ l.abi) (hnew : l.abi ≤ abis.newest) : fault? abis l = none := by
  rw [fault?, if_neg h, if_neg (by omega)]

/-! ## The handles in the cache -/

/-- The handles in the cache are what their names say, and no two are the same. -/
structure CacheSound (r : Registry) : Prop where
  registry_eq : ∀ {key : String} {g : Grammar}, r.cache[key]? = some g → g.registry = r.key
  name_eq : ∀ {key : String} {g : Grammar}, r.cache[key]? = some g → g.name = key
  /-- The handle is for the tables of the provider, and these are usable. -/
  tables : ∀ {key : String} {g : Grammar}, r.cache[key]? = some g →
    ∃ p, r.providers[key]? = some p ∧ g.language = p.language ∧ fault? r.abis p.language = none
  serial_lt : ∀ {key : String} {g : Grammar}, r.cache[key]? = some g → g.serial < r.cache.size
  serial_injective : ∀ {key key' : String} {g g' : Grammar}, r.cache[key]? = some g →
    r.cache[key']? = some g' → g.serial = g'.serial → key = key'

theorem CacheSound.name_mem (h : r.CacheSound) {key : String} {g : Grammar}
    (hg : r.cache[key]? = some g) : g.name ∈ r.cache := by
  rw [h.name_eq hg]
  exact (Std.TreeMap.getElem?_eq_some_iff.mp hg).1

theorem cacheSound_of_empty (h : r.cache = ∅) : r.CacheSound where
  registry_eq hg := by simp [h] at hg
  name_eq hg := by simp [h] at hg
  tables hg := by simp [h] at hg
  serial_lt hg := by simp [h] at hg
  serial_injective hg := by simp [h] at hg

/-- A registry that nobody has asked is in order, and nothing is loaded. -/
theorem IsInitial.sound (h : r.IsInitial) : r.WellFormed ∧ r.CacheSound :=
  ⟨h.wellFormed, cacheSound_of_empty h.not_loaded.1⟩

/-- Entering fresh names replaces no provider. -/
theorem getElem?_providers_of_fresh (hfresh : r.Fresh name aliases) {key : String}
    {old : Provider} (hold : r.providers[key]? = some old) (p : Provider) :
    (r.insert name aliases p).providers[key]? = some old := by
  have hne : name ≠ key := by
    rintro rfl
    have hunowned := owner?_eq_none_iff.mp (hfresh.unowned name List.mem_cons_self)
    exact hunowned.1 (Std.TreeMap.getElem?_eq_some_iff.mp hold).1
  rw [getElem?_providers_insert, if_neg hne, hold]

theorem CacheSound.insert (h : r.CacheSound) (hfresh : r.Fresh name aliases) (p : Provider) :
    (r.insert name aliases p).CacheSound where
  registry_eq := h.registry_eq
  name_eq := h.name_eq
  tables hg := by
    rcases h.tables hg with ⟨old, hold, hlanguage, hfault⟩
    exact ⟨old, getElem?_providers_of_fresh hfresh hold p, hlanguage, hfault⟩
  serial_lt := h.serial_lt
  serial_injective := h.serial_injective

/-- The handles after a construction are the new one and those from before. -/
theorem getElem?_cache_kept {canonical key : String} {g : Grammar}
    (hg : (r.kept canonical p).cache[key]? = some g) :
    (key = canonical ∧ g = r.newHandle canonical p) ∨ r.cache[key]? = some g := by
  rw [kept, Std.TreeMap.getElem?_insert] at hg
  split at hg
  · rename_i heq
    cases hg
    exact Or.inl ⟨(Std.LawfulEqOrd.eq_of_compare heq).symm, rfl⟩
  · exact Or.inr hg

/-- The handle of a new grammar joins those in the cache. -/
theorem CacheSound.kept (h : r.CacheSound) {canonical : String}
    (hp : r.providers[canonical]? = some p) (hnew : r.cache[canonical]? = none)
    (hfault : fault? r.abis p.language = none) : (r.kept canonical p).CacheSound := by
  have hsize : (r.kept canonical p).cache.size = r.cache.size + 1 := by
    rw [Registry.kept, Std.TreeMap.size_insert, Std.TreeMap.contains_eq_isSome_getElem?, hnew]
    rfl
  refine
    { registry_eq := ?_, name_eq := ?_, tables := ?_, serial_lt := ?_, serial_injective := ?_ }
  · intro key g hg
    rcases getElem?_cache_kept hg with ⟨-, rfl⟩ | hold
    · rfl
    · exact h.registry_eq hold
  · intro key g hg
    rcases getElem?_cache_kept hg with ⟨rfl, rfl⟩ | hold
    · rfl
    · exact h.name_eq hold
  · intro key g hg
    rcases getElem?_cache_kept hg with ⟨rfl, rfl⟩ | hold
    · exact ⟨p, hp, rfl, hfault⟩
    · exact h.tables hold
  · intro key g hg
    rw [hsize]
    rcases getElem?_cache_kept hg with ⟨-, rfl⟩ | hold
    · exact Nat.lt_succ_self _
    · exact Nat.lt_succ_of_lt (h.serial_lt hold)
  · -- the number of the new handle is one that no handle had before
    intro key key' g g' hg hg' heq
    rcases getElem?_cache_kept hg with ⟨rfl, rfl⟩ | hold <;>
      rcases getElem?_cache_kept hg' with ⟨rfl, rfl⟩ | hold'
    · rfl
    · exact absurd heq.symm (Nat.ne_of_lt (h.serial_lt hold'))
    · exact absurd heq (Nat.ne_of_lt (h.serial_lt hold))
    · exact h.serial_injective hold hold' heq

theorem CacheSound.answer (hr : r.WellFormed) (h : r.CacheSound) (q : Request) :
    (r.answer q).2.CacheSound := by
  rcases answer_cases hr q with heq | ⟨_, _, p, hfresh, heq⟩ | ⟨_, heq⟩ |
    ⟨canonical, p, hp, hnew, hfault, heq⟩ <;> rw [heq]
  · exact h
  · exact h.insert hfresh p
  · exact { h with }
  · exact h.kept hp hnew hfault

theorem CacheSound.after (hr : r.WellFormed) (h : r.CacheSound) (requests : List Request) :
    (r.after requests).CacheSound := by
  induction requests using List.reverseRecOn with
  | nil => exact h
  | append_singleton requests q ih =>
    rw [after_concat]
    exact ih.answer (hr.after requests) q

/-- A handle in the cache stays there. -/
theorem getElem?_cache_answer (hr : r.WellFormed) (q : Request) {key : String} {g : Grammar}
    (hg : r.cache[key]? = some g) : (r.answer q).2.cache[key]? = some g := by
  rcases answer_cases hr q with heq | ⟨_, _, _, -, heq⟩ | ⟨_, heq⟩ |
    ⟨canonical, p, -, hnew, -, heq⟩ <;> rw [heq]
  · exact hg
  · exact hg
  · exact hg
  · -- what is constructed is kept under a name that had no handle
    have hne : compare canonical key ≠ .eq := by
      intro heq
      rw [← Std.LawfulEqOrd.eq_of_compare heq, hnew] at hg
      cases hg
    rw [kept, Std.TreeMap.getElem?_insert, if_neg hne]
    exact hg

theorem getElem?_cache_after (hr : r.WellFormed) (requests : List Request) {key : String}
    {g : Grammar} (hg : r.cache[key]? = some g) : (r.after requests).cache[key]? = some g := by
  induction requests using List.reverseRecOn with
  | nil => exact hg
  | append_singleton requests q ih =>
    rw [after_concat]
    exact getElem?_cache_answer (hr.after requests) q ih

/-- A loading that succeeds gives out what the cache then has for the name. -/
theorem getElem?_cache_load (hr : r.WellFormed) {s : String} {g : Grammar}
    (hg : (r.load s).1 = .ok g) :
    ∃ canonical, r.resolve? s = some canonical ∧
      (r.answer (.load s)).2.cache[canonical]? = some g := by
  rw [answer_load]
  rcases load_cases hr s with ⟨-, hload⟩ | ⟨canonical, p, hs, -, ⟨_, hold, hload⟩ |
    ⟨_, -, -, hload⟩ | ⟨-, -, hload⟩⟩ <;> rw [hload] at hg ⊢ <;> cases hg
  · exact ⟨canonical, hs, hold⟩
  · exact ⟨canonical, hs, by simp [kept]⟩

/-- Handles in the cache are the same if and only if they are kept under the same name. -/
theorem CacheSound.same_iff (h : r.CacheSound) {key key' : String} {g g' : Grammar}
    (hg : r.cache[key]? = some g) (hg' : r.cache[key']? = some g') : g.Same g' ↔ key = key' := by
  constructor
  · rintro ⟨-, hserial⟩
    exact h.serial_injective hg hg' hserial
  · rintro rfl
    rw [hg] at hg'
    cases hg'
    exact ⟨rfl, rfl⟩

/-- Two loadings of a run give out the same handle if and only if their names stand for the same
grammar. -/
theorem same_iff_resolve?_eq (hr : r.WellFormed) (h : r.CacheSound) {s t : String}
    {later : List Request} {g g' : Grammar} (hg : (r.load s).1 = .ok g)
    (hg' : ((r.after (.load s :: later)).load t).1 = .ok g') :
    g.Same g' ↔ r.resolve? s = (r.after (.load s :: later)).resolve? t := by
  have hlater : (r.after (.load s :: later)).WellFormed := hr.after _
  rcases getElem?_cache_load hr hg with ⟨canonical, hs, hcache⟩
  rcases getElem?_cache_load hlater hg' with ⟨canonical', ht, hcache'⟩
  -- both handles are in the cache after the second loading
  have hkept := getElem?_cache_answer hlater (.load t)
    (getElem?_cache_after (hr.answer (.load s)) later hcache)
  have hsound := (h.after hr (.load s :: later)).answer hlater (.load t)
  rw [hsound.same_iff hkept hcache', hs, ht, Option.some.injEq]

/-! ## Handles that were given out -/

/-- A run has given out the handle. -/
def GivesOut (r : Registry) (requests : List Request) (g : Grammar) : Prop :=
  ∃ s, (.load s, .loaded g) ∈ r.log requests

/-- No step changes the key of a registry or the versions of tables that are read. -/
theorem constants_answer (hr : r.WellFormed) (q : Request) :
    (r.answer q).2.key = r.key ∧ (r.answer q).2.abis = r.abis := by
  rcases answer_cases hr q with heq | ⟨_, _, _, -, heq⟩ | ⟨_, heq⟩ | ⟨_, _, -, -, -, heq⟩ <;>
    rw [heq] <;> exact ⟨rfl, rfl⟩

theorem constants_after (hr : r.WellFormed) (requests : List Request) :
    (r.after requests).key = r.key ∧ (r.after requests).abis = r.abis := by
  induction requests using List.reverseRecOn with
  | nil => exact ⟨rfl, rfl⟩
  | append_singleton requests q ih =>
    rw [after_concat, ← ih.1, ← ih.2]
    exact constants_answer (hr.after requests) q

theorem load_of_loaded {s : String} {g : Grammar} (h : (r.answer (.load s)).1 = .loaded g) :
    (r.load s).1 = .ok g := by
  rw [Registry.answer] at h
  split at h
  · rename_i hload
    cases h
    rw [hload]
  · cases h

section Handles

variable {requests requests' : List Request} {g g' : Grammar}

/-- A handle that was given out stays in the cache under its own name. -/
theorem GivesOut.cached (hr : r.IsInitial) (hg : r.GivesOut requests g) :
    (r.after requests).cache[g.name]? = some g := by
  rcases hr.sound with ⟨hwell, hsound⟩
  rcases hg with ⟨s, hs⟩
  induction requests using List.reverseRecOn with
  | nil => cases hs
  | append_singleton requests q ih =>
    rw [log_concat, List.mem_append, List.mem_singleton] at hs
    rw [after_concat]
    rcases hs with hold | hnew
    · exact getElem?_cache_answer (hwell.after requests) q (ih hold)
    · -- the last step has given it out
      rcases Prod.mk.inj hnew with ⟨rfl, hreply⟩
      obtain ⟨canonical, -, hcache⟩ :=
        getElem?_cache_load (hwell.after requests) (load_of_loaded hreply.symm)
      have hnext := (hsound.after hwell requests).answer (hwell.after requests) (.load s)
      rwa [hnext.name_eq hcache]

/-- The handles that one run gives out are told apart by their names. -/
theorem GivesOut.same_iff (hr : r.IsInitial) (hg : r.GivesOut requests g)
    (hg' : r.GivesOut requests g') : g.Same g' ↔ g.name = g'.name := by
  rcases hr.sound with ⟨hwell, hsound⟩
  exact (hsound.after hwell requests).same_iff (hg.cached hr) (hg'.cached hr)

theorem GivesOut.registry_eq (hr : r.IsInitial) (hg : r.GivesOut requests g) :
    g.registry = r.key := by
  rcases hr.sound with ⟨hwell, hsound⟩
  rw [← (constants_after hwell requests).1]
  exact (hsound.after hwell requests).registry_eq (hg.cached hr)

/-- Registries do not share handles. -/
theorem GivesOut.not_same (hr : r.IsInitial) (hr' : r'.IsInitial) (hg : r.GivesOut requests g)
    (hg' : r'.GivesOut requests' g') (hkeys : r.key ≠ r'.key) : ¬ g.Same g' := by
  rintro ⟨hregistry, -⟩
  rw [hg.registry_eq hr, hg'.registry_eq hr'] at hregistry
  exact hkeys hregistry

end Handles

/-! ## What an observer counts -/

/-- The canonical name of the grammar that a step gave out. -/
def loadedName? : Request × Reply → Option String
  | (.load _, .loaded g) => some g.name
  | _ => none

/-- The canonical name of the grammar whose tables a step found at fault. -/
def failedName? : Request × Reply → Option String
  | (.load _, .refused (.unusableGrammar name _)) => some name
  | _ => none

def loadedNames (steps : List (Request × Reply)) : List String := steps.filterMap loadedName?

def failedNames (steps : List (Request × Reply)) : List String := steps.filterMap failedName?

theorem names_of_registration {q : Request} (hq : q.registration? = some (name, p, aliases))
    (reply : Reply) : loadedName? (q, reply) = none ∧ failedName? (q, reply) = none := by
  cases q with
  | register _ => exact ⟨rfl, rfl⟩
  | registerAs _ _ _ => exact ⟨rfl, rfl⟩
  | load _ => cases hq

/-- The cache and the constructions agree with the steps of a run. -/
structure Tallies (r : Registry) (steps : List (Request × Reply)) : Prop where
  mem_cache : ∀ canonical, canonical ∈ r.cache ↔ canonical ∈ loadedNames steps
  constructions : ∀ canonical, r.constructions canonical =
    (failedNames steps).count canonical + if canonical ∈ loadedNames steps then 1 else 0

theorem tallies_of_not_loaded (hcache : r.cache = ∅) (hconstructed : r.constructed = []) :
    r.Tallies [] where
  mem_cache canonical := by simp [hcache, loadedNames]
  constructions canonical := by simp [Registry.constructions, hconstructed, failedNames, loadedNames]

/-- A step keeps the tallies if it adds to the cache what it gives out, and to the constructions
what it found at fault or what it gives out for the first time. -/
theorem Tallies.concat {steps : List (Request × Reply)} (h : r.Tallies steps)
    (step : Request × Reply)
    (hcache : ∀ canonical,
      canonical ∈ r'.cache ↔ canonical ∈ r.cache ∨ loadedName? step = some canonical)
    (hconstructions : ∀ canonical, r'.constructions canonical = r.constructions canonical +
      (if failedName? step = some canonical then 1 else 0) +
        if canonical ∉ r.cache ∧ loadedName? step = some canonical then 1 else 0) :
    r'.Tallies (steps ++ [step]) := by
  have hloaded (canonical : String) : canonical ∈ loadedNames (steps ++ [step]) ↔
      canonical ∈ loadedNames steps ∨ loadedName? step = some canonical := by
    simp [loadedNames]
  have hfailed (canonical : String) : (failedNames (steps ++ [step])).count canonical =
      (failedNames steps).count canonical + if failedName? step = some canonical then 1 else 0 := by
    rw [failedNames, failedNames, List.filterMap_append, List.count_append]
    cases hstep : failedName? step with
    | none => simp [hstep]
    | some name => simp [hstep, List.count_singleton]
  constructor
  · intro canonical
    rw [hcache, hloaded, h.mem_cache]
  · intro canonical
    rw [hconstructions, hfailed, h.constructions]
    simp only [h.mem_cache, hloaded]
    by_cases hmem : canonical ∈ loadedNames steps
    · simp only [hmem, not_true_eq_false, false_and, true_or, if_true, if_false]
      omega
    · simp only [hmem, not_false_eq_true, true_and, false_or, if_false]
      omega

/-- Every step keeps the tallies. -/
theorem Tallies.answer {steps : List (Request × Reply)} (hr : r.WellFormed) (hsound : r.CacheSound)
    (h : r.Tallies steps) (q : Request) :
    (r.answer q).2.Tallies (steps ++ [(q, (r.answer q).1)]) := by
  have hregister {name p aliases} (hq : q.registration? = some (name, p, aliases)) :
      (r.answer q).2.Tallies (steps ++ [(q, (r.answer q).1)]) := by
    rcases names_of_registration hq (r.answer q).1 with ⟨hloaded, hfailed⟩
    rcases registration_loads_nothing hq r with ⟨hcache, hconstructed⟩
    refine h.concat _ ?_ ?_
    · intro canonical
      simp [hcache, hloaded]
    · intro canonical
      simp [Registry.constructions, hconstructed, hloaded, hfailed]
  cases q with
  | register p => exact hregister rfl
  | registerAs name p aliases => exact hregister rfl
  | load s =>
    rcases load_cases hr s with ⟨-, hload⟩ | ⟨canonical, p, -, -, ⟨g, hcache, hload⟩ |
      ⟨fault, -, -, hload⟩ | ⟨hnew, -, hload⟩⟩ <;> simp only [Registry.answer, hload]
    · refine h.concat _ (fun key => ?_) (fun key => ?_)
      · simp [loadedName?]
      · simp [loadedName?, failedName?]
    · -- what comes from the cache is in it, so it is not given out for the first time
      have hmem : g.name ∈ r.cache := hsound.name_mem hcache
      refine h.concat _ (fun key => ?_) (fun key => ?_)
      · simp only [loadedName?, Option.some.injEq, iff_self_or]
        rintro rfl
        exact hmem
      · have hnone : ¬ (key ∉ r.cache ∧ g.name = key) := by
          rintro ⟨hkey, rfl⟩
          exact hkey hmem
        simp [loadedName?, failedName?, hnone]
    · refine h.concat _ (fun key => ?_) (fun key => ?_)
      · simp [loadedName?, noted]
      · simp [loadedName?, failedName?, noted, Registry.constructions, List.count_cons]
    · -- what is constructed and kept was not in the cache
      have hnot : canonical ∉ r.cache := by
        rw [Std.TreeMap.mem_iff_isSome_getElem?, hnew]
        simp
      refine h.concat _ (fun key => ?_) (fun key => ?_)
      · rw [kept, Std.TreeMap.mem_insert, Std.compare_eq_iff_eq, or_comm]
        simp [loadedName?, newHandle]
      · have hfirst : (key ∉ r.cache ∧ canonical = key) ↔ canonical = key := by
          rw [and_iff_right_iff_imp]
          rintro rfl
          exact hnot
        simp [loadedName?, failedName?, kept, noted, newHandle, Registry.constructions,
          List.count_cons, hfirst]

theorem Tallies.after (hr : r.WellFormed) (hsound : r.CacheSound) (h : r.Tallies [])
    (requests : List Request) : (r.after requests).Tallies (r.log requests) := by
  induction requests using List.reverseRecOn with
  | nil => exact h
  | append_singleton requests q ih =>
    rw [after_concat, log_concat]
    exact ih.answer (hr.after requests) (hsound.after hr requests) q

/-- The cache holds one handle for each grammar that was given out. -/
theorem Tallies.loadedCount_eq {steps : List (Request × Reply)} (h : r.Tallies steps) :
    r.loadedCount = (loadedNames steps).dedup.length := by
  have hperm : r.cache.keys.Perm (loadedNames steps).dedup := by
    rw [List.perm_ext_iff_of_nodup r.cache.nodup_keys (List.nodup_dedup _)]
    intro canonical
    rw [Std.TreeMap.mem_keys, List.mem_dedup, h.mem_cache]
  rw [← hperm.length_eq, Std.TreeMap.length_keys]
  rfl

/-! ## The replies to loadings -/

/-- Nobody claims a name that does not resolve. -/
theorem resolve?_eq_none_iff {s : String} :
    r.resolve? s = none ↔ normalizeName s ∉ r.providers ∧ normalizeName s ∉ r.aliases :=
  owner?_eq_none_iff

/-- The reply to loading a name that has an owner is decided by the tables of its provider. -/
theorem load_of_resolve? (hr : r.WellFormed) (h : r.CacheSound) {s canonical : String}
    (hs : r.resolve? s = some canonical) :
    ∃ p, r.providers[canonical]? = some p ∧
      ((∃ fault, fault? r.abis p.language = some fault ∧
          (r.load s).1 = .error (.unusableGrammar canonical fault)) ∨
        fault? r.abis p.language = none ∧
          ∃ g, (r.load s).1 = .ok g ∧ g.name = canonical ∧ g.language = p.language) := by
  rcases load_cases hr s with ⟨hnone, -⟩ | ⟨canonical', p, hs', hp, hrest⟩
  · rw [hnone] at hs
    cases hs
  · obtain rfl : canonical' = canonical := by
      rw [hs'] at hs
      exact Option.some.inj hs
    refine ⟨p, hp, ?_⟩
    rcases hrest with ⟨g, hg, hload⟩ | ⟨fault, -, hfault, hload⟩ | ⟨-, hfault, hload⟩ <;> rw [hload]
    · -- the handle in the cache was constructed from the tables of the same provider
      rcases h.tables hg with ⟨q, hq, hlanguage, hfault⟩
      obtain rfl : p = q := by
        rw [hp] at hq
        exact Option.some.inj hq
      exact Or.inr ⟨hfault, g, rfl, h.name_eq hg, hlanguage⟩
    · exact Or.inl ⟨fault, hfault, rfl⟩
    · exact Or.inr ⟨hfault, _, rfl, rfl, rfl⟩

theorem load_ne_internal (hr : r.WellFormed) (s detail : String) :
    (r.load s).1 ≠ .error (.internal detail) := by
  rcases load_cases hr s with ⟨-, hload⟩ | ⟨_, _, -, -, ⟨_, -, hload⟩ | ⟨_, -, -, hload⟩ |
    ⟨-, -, hload⟩⟩ <;> rw [hload] <;> simp

/-- A loading that fails leaves all tables as they are. -/
theorem load_error_tables (hr : r.WellFormed) {s : String} {e : Error}
    (he : (r.load s).1 = .error e) :
    (r.load s).2.providers = r.providers ∧ (r.load s).2.aliases = r.aliases ∧
      (r.load s).2.cache = r.cache := by
  rcases load_cases hr s with ⟨-, hload⟩ | ⟨_, _, -, -, ⟨_, -, hload⟩ | ⟨_, -, -, hload⟩ |
    ⟨-, -, hload⟩⟩ <;> rw [hload] at he ⊢ <;> cases he <;> exact ⟨rfl, rfl, rfl⟩

theorem load_unknown_iff (hr : r.WellFormed) (h : r.CacheSound) {s : String} :
    (r.load s).1 = .error (.unknownGrammar s) ↔
      normalizeName s ∉ r.providers ∧ normalizeName s ∉ r.aliases := by
  rw [← resolve?_eq_none_iff]
  constructor
  · intro hload
    cases hs : r.resolve? s with
    | none => rfl
    | some canonical =>
      obtain ⟨p, -, ⟨fault, -, heq⟩ | ⟨-, g, heq, -⟩⟩ := load_of_resolve? hr h hs <;>
        rw [heq] at hload <;> cases hload
  · intro hs
    simp [load, hs]

/-- Loadings over a whole run: a name that nothing claims is unknown, and else the tables of its
grammar decide the reply, which is never an internal error. Two loadings give out the same handle
if and only if their names stand for the same grammar. A loading that fails changes no table, and
tables are constructed once for each failure, once for the handle that is kept, and never by a
registration. -/
theorem loads_share_handles {r₀ : Registry} (h₀ : r₀.IsInitial) (requests : List Request) :
    let r := r₀.after requests
    let steps := r₀.log requests
    let abis := r₀.abis
    (∀ s, (r.load s).1 = .error (.unknownGrammar s) ↔
        normalizeName s ∉ r.providers ∧ normalizeName s ∉ r.aliases) ∧
      (∀ s canonical, r.resolve? s = some canonical → ∃ p, r.providers[canonical]? = some p ∧
        (p.language.kindCount = 0 →
          (r.load s).1 = .error (.unusableGrammar canonical .emptyTables)) ∧
        (p.language.kindCount ≠ 0 → p.language.abi < abis.oldest ∨ abis.newest < p.language.abi →
          (r.load s).1 = .error
            (.unusableGrammar canonical (.abiMismatch p.language.abi abis.oldest abis.newest))) ∧
        (p.language.kindCount ≠ 0 → abis.oldest ≤ p.language.abi → p.language.abi ≤ abis.newest →
          ∃ g, (r.load s).1 = .ok g ∧ g.name = canonical ∧ g.language = p.language)) ∧
      (∀ s detail, (r.load s).1 ≠ .error (.internal detail)) ∧
      (∀ s t later g g', (r.load s).1 = .ok g →
        ((r.after (.load s :: later)).load t).1 = .ok g' →
        (g.Same g' ↔ r.resolve? s = (r.after (.load s :: later)).resolve? t)) ∧
      r.loadedCount = (loadedNames steps).dedup.length ∧
      (∀ s e, (r.load s).1 = .error e →
        (r.load s).2.providers = r.providers ∧ (r.load s).2.aliases = r.aliases ∧
          (r.load s).2.cache = r.cache) ∧
      (∀ canonical, r.constructions canonical =
        (failedNames steps).count canonical + if canonical ∈ loadedNames steps then 1 else 0) ∧
      ∀ q name p aliases, q.registration? = some (name, p, aliases) →
        (r.answer q).2.constructed = r.constructed := by
  intro r steps abis
  -- the invariants at the start, carried through the run
  rcases h₀.not_loaded with ⟨hcache, hconstructed⟩
  have hr₀ : r₀.WellFormed := h₀.wellFormed
  have habis : r.abis = abis := (constants_after hr₀ requests).2
  have hr : r.WellFormed := hr₀.after requests
  have hsound : r.CacheSound := (cacheSound_of_empty hcache).after hr₀ requests
  have htallies : r.Tallies steps :=
    (tallies_of_not_loaded hcache hconstructed).after hr₀ (cacheSound_of_empty hcache) requests
  refine ⟨fun s => load_unknown_iff hr hsound, ?_, load_ne_internal hr,
    fun s t later g g' hg hg' => same_iff_resolve?_eq hr hsound hg hg', htallies.loadedCount_eq,
    fun s e he => load_error_tables hr he, htallies.constructions,
    fun q name p aliases hq => (registration_loads_nothing hq r).2⟩
  -- a known name: the answer is its provider's fault, if it has one
  intro s canonical hs
  rcases load_of_resolve? hr hsound hs with ⟨p, hp, hreply⟩
  rw [habis] at hreply
  refine ⟨p, hp, ?_, ?_, ?_⟩
  · intro hempty
    simpa [fault?_of_empty hempty] using hreply
  · intro hkinds habi
    simpa [fault?_of_abi hkinds habi] using hreply
  · intro hkinds hold hnew
    simpa [fault?_of_usable hkinds hold hnew] using hreply

/-- Two spellings of a name load one grammar, and its tables are constructed once. -/
theorem handle_of_lua_run :
    let lua : Provider := { name := "lua", language := { abi := 14, kindCount := 1 } }
    let r₀ : Registry := { key := 0, abis := ⟨13, 14⟩ }
    let requests : List Request := [.registerAs "Lua" lua ["L"], .load "lua", .load "l"]
    r₀.IsInitial ∧ (r₀.after requests).loadedCount = 1 ∧
      (r₀.after requests).constructions "lua" = 1 := by
  intro lua r₀ requests
  obtain ⟨-, -, -, -, hcount, -, hconstructions, -⟩ := loads_share_handles (.empty 0 ⟨13, 14⟩) requests
  refine ⟨.empty 0 ⟨13, 14⟩, hcount.trans ?_, (hconstructions "lua").trans ?_⟩
  · decide +kernel
  · decide +kernel

end SyntaxTrees.Registry
