import Mathlib.Data.List.Induction
import SyntaxTrees.Proofs.Registry.Registration

/-!
# Runs of a registry

A run answers one `Request` after the other, be it a registration or a loading, and `log` is what
an observer sees of it. One step is known from `registerAs_eq_ok_iff` and from `load_cases`, which
says all that a loading can do. Tables that fit together do so after every run
(`WellFormed.after`), and a name that has an owner keeps it (`resolve?_answer`). The two together
are `names_keep_owners`.
-/

namespace SyntaxTrees.Registry

variable {r r' : Registry} {name : String} {aliases : List String} {p : Provider}

/-! ## Requests and replies -/

inductive Request where
  | register (p : Provider)
  | registerAs (name : String) (p : Provider) (aliases : List String)
  | load (name : String)

inductive Reply where
  | registered
  | loaded (g : Grammar)
  | refused (e : Error)

/-- The reply to a registration; if it is refused, the registry is left as it is. -/
def settle (r : Registry) : Except Error Registry → Reply × Registry
  | .ok r' => (.registered, r')
  | .error e => (.refused e, r)

/-- The reply to a request, and the registry afterwards. -/
def answer (r : Registry) : Request → Reply × Registry
  | .register p => r.settle (r.register p)
  | .registerAs name p aliases => r.settle (r.registerAs name p aliases)
  | .load name =>
    match r.load name with
    | (.ok g, r') => (.loaded g, r')
    | (.error e, r') => (.refused e, r')

def after (r : Registry) (requests : List Request) : Registry :=
  requests.foldl (fun r q => (r.answer q).2) r

/-- The requests of a run with their replies. -/
def log (r : Registry) : List Request → List (Request × Reply)
  | [] => []
  | q :: rest => (q, (r.answer q).1) :: (r.answer q).2.log rest

theorem after_concat (r : Registry) (requests : List Request) (q : Request) :
    r.after (requests ++ [q]) = ((r.after requests).answer q).2 := by
  simp [after]

theorem log_concat (r : Registry) (requests : List Request) (q : Request) :
    r.log (requests ++ [q]) = r.log requests ++ [(q, ((r.after requests).answer q).1)] := by
  induction requests generalizing r with
  | nil => rfl
  | cons first rest ih =>
    rw [List.cons_append, log, log, ih, List.cons_append]
    rfl

/-- What a request wants to register: a name, a provider and aliases. -/
def Request.registration? : Request → Option (String × Provider × List String)
  | .register p => some (p.name, p, p.aliases)
  | .registerAs name p aliases => some (name, p, aliases)
  | .load _ => none

/-- The canonical name that a step entered. -/
def registeredName? : Request × Reply → Option String
  | (q, .registered) => q.registration?.map fun (name, _) => normalizeName name
  | _ => none

def registeredNames (steps : List (Request × Reply)) : List String :=
  steps.filterMap registeredName?

/-! ## Registering -/

/-- All that a registration can do. -/
theorem registration_cases {q : Request} (hq : q.registration? = some (name, p, aliases))
    (r : Registry) :
    (∃ r', r.registerAs name p aliases = .ok r' ∧ r.answer q = (.registered, r')) ∨
      ∃ e, r.registerAs name p aliases = .error e ∧ r.answer q = (.refused e, r) := by
  -- both requests settle what `registerAs` says
  have hanswer : r.answer q = r.settle (r.registerAs name p aliases) := by
    cases q with
    | register provider =>
      cases hq
      rfl
    | registerAs _ _ _ =>
      cases hq
      rfl
    | load _ => cases hq
  rw [hanswer]
  cases r.registerAs name p aliases with
  | ok r' => exact Or.inl ⟨r', rfl, rfl⟩
  | error e => exact Or.inr ⟨e, rfl, rfl⟩

/-- A registration neither constructs tables nor gives out handles. -/
theorem registration_loads_nothing {q : Request} (hq : q.registration? = some (name, p, aliases))
    (r : Registry) :
    (r.answer q).2.cache = r.cache ∧ (r.answer q).2.constructed = r.constructed := by
  rcases registration_cases hq r with ⟨r', hok, hanswer⟩ | ⟨e, -, hanswer⟩
  · rcases registerAs_eq_ok_iff.mp hok with ⟨-, rfl⟩
    rw [hanswer]
    exact ⟨rfl, rfl⟩
  · rw [hanswer]
    exact ⟨rfl, rfl⟩

/-! ## Loading -/

/-- The handle that a loading constructs. -/
def newHandle (r : Registry) (canonical : String) (p : Provider) : Grammar :=
  { registry := r.key, serial := r.cache.size, name := canonical, language := p.language }

/-- The registry after one more construction. -/
def noted (r : Registry) (canonical : String) : Registry :=
  { r with constructed := canonical :: r.constructed }

/-- The registry after a construction that gave a handle to keep. -/
def kept (r : Registry) (canonical : String) (p : Provider) : Registry :=
  { r.noted canonical with cache := r.cache.insert canonical (r.newHandle canonical p) }

/-- All that a loading can do: the name is unknown, or it stands for a grammar that is in the
cache, whose tables are at fault, or that is constructed and kept. -/
theorem load_cases (h : r.WellFormed) (name : String) :
    (r.resolve? name = none ∧ r.load name = (.error (.unknownGrammar name), r)) ∨
    ∃ canonical p, r.resolve? name = some canonical ∧ r.providers[canonical]? = some p ∧
      ((∃ g, r.cache[canonical]? = some g ∧ r.load name = (.ok g, r)) ∨
        (∃ fault, r.cache[canonical]? = none ∧ fault? r.abis p.language = some fault ∧
          r.load name = (.error (.unusableGrammar canonical fault), r.noted canonical)) ∨
        r.cache[canonical]? = none ∧ fault? r.abis p.language = none ∧
          r.load name = (.ok (r.newHandle canonical p), r.kept canonical p)) := by
  cases hname : r.resolve? name with
  | none =>
    left
    simp [load, hname]
  | some canonical =>
    right
    -- a name owned has a provider
    have hmem : canonical ∈ r.providers := h.owner_mem hname
    rcases Option.isSome_iff_exists.mp (Std.TreeMap.mem_iff_isSome_getElem?.mp hmem) with ⟨p, hp⟩
    refine ⟨canonical, p, rfl, hp, ?_⟩
    cases hcache : r.cache[canonical]? with
    | some g =>
      left
      exact ⟨g, rfl, by simp [load, hname, hcache]⟩
    | none =>
      right
      -- nothing cached: the provider is tried
      have hload : r.load name = r.construct canonical p := by simp [load, hname, hcache, hp]
      rw [hload, construct]
      cases hfault : fault? r.abis p.language with
      | some fault =>
        left
        exact ⟨fault, rfl, rfl, rfl⟩
      | none =>
        right
        exact ⟨rfl, rfl, rfl⟩

theorem load_providers (h : r.WellFormed) (name : String) :
    (r.load name).2.providers = r.providers := by
  rcases load_cases h name with ⟨-, hload⟩ | ⟨_, _, -, -, ⟨_, -, hload⟩ |
    ⟨_, -, -, hload⟩ | ⟨-, -, hload⟩⟩ <;> rw [hload] <;> rfl

theorem answer_load (r : Registry) (name : String) :
    (r.answer (.load name)).2 = (r.load name).2 := by
  rw [answer]
  rcases r.load name with ⟨_ | _, _⟩ <;> rfl

/-! ## What a step keeps -/

/-- All that a step can do to a registry: leave it as it is, enter fresh names, construct tables
in vain, or construct and keep a handle that was not there. -/
theorem answer_cases (h : r.WellFormed) (q : Request) :
    (r.answer q).2 = r ∨
      (∃ name aliases p, r.Fresh name aliases ∧ (r.answer q).2 = r.insert name aliases p) ∨
      (∃ canonical, (r.answer q).2 = r.noted canonical) ∨
      ∃ canonical p, r.providers[canonical]? = some p ∧ r.cache[canonical]? = none ∧
        fault? r.abis p.language = none ∧ (r.answer q).2 = r.kept canonical p := by
  have hregister {name p aliases} (hq : q.registration? = some (name, p, aliases)) :
      (r.answer q).2 = r ∨
        ∃ name aliases p, r.Fresh name aliases ∧ (r.answer q).2 = r.insert name aliases p := by
    rcases registration_cases hq r with ⟨r', hok, hanswer⟩ | ⟨e, -, hanswer⟩
    · -- a success has checked that what it enters is fresh
      right
      rcases registerAs_eq_ok_iff.mp hok with ⟨hfresh, rfl⟩
      exact ⟨_, _, p, hfresh, by rw [hanswer]⟩
    · left
      rw [hanswer]
  cases q with
  | register p => exact (hregister rfl).imp_right Or.inl
  | registerAs name p aliases => exact (hregister rfl).imp_right Or.inl
  | load name =>
    rw [answer_load]
    rcases load_cases h name with ⟨-, hload⟩ | ⟨canonical, p, -, hp, ⟨_, -, hload⟩ |
      ⟨_, -, -, hload⟩ | ⟨hcache, hfault, hload⟩⟩ <;> rw [hload]
    · exact Or.inl rfl
    · exact Or.inl rfl
    · exact Or.inr (Or.inr (Or.inl ⟨canonical, rfl⟩))
    · exact Or.inr (Or.inr (Or.inr ⟨canonical, p, hp, hcache, hfault, rfl⟩))

theorem WellFormed.answer (h : r.WellFormed) (q : Request) : (r.answer q).2.WellFormed := by
  rcases answer_cases h q with heq | ⟨_, _, p, hfresh, heq⟩ | ⟨_, heq⟩ |
    ⟨canonical, p, hp, -, -, heq⟩ <;> rw [heq]
  · exact h
  · exact h.insert hfresh p
  · exact { h with }
  · -- the one step that writes to the cache, and it writes under a canonical name
    have hmem : canonical ∈ r.providers := (Std.TreeMap.getElem?_eq_some_iff.mp hp).1
    refine { h with cache_provider := ?_ }
    intro key hkey
    rcases Std.TreeMap.mem_insert.mp hkey with hnew | hold
    · rw [← Std.LawfulEqOrd.eq_of_compare hnew]
      exact hmem
    · exact h.cache_provider hold

/-- A name that has an owner keeps it. -/
theorem resolve?_answer (h : r.WellFormed) (q : Request) {s canonical : String}
    (hs : r.resolve? s = some canonical) : (r.answer q).2.resolve? s = some canonical := by
  rcases answer_cases h q with heq | ⟨_, _, p, hfresh, heq⟩ | ⟨_, heq⟩ | ⟨_, _, -, -, -, heq⟩ <;>
    rw [heq]
  · exact hs
  · -- what has an owner is not fresh
    have hne := mt (hfresh.unowned (normalizeName s)) (by simp [← resolve?_eq, hs])
    rw [resolve?_eq, owner?_insert hfresh, if_neg hne]
    exact hs
  · exact hs
  · exact hs

theorem mem_names {key : String} : key ∈ r.names ↔ key ∈ r.providers := Std.TreeMap.mem_keys

/-- The names of a registry grow by those that are entered. -/
theorem mem_names_answer (h : r.WellFormed) (q : Request) {key : String} :
    key ∈ (r.answer q).2.names ↔
      key ∈ r.names ∨ registeredName? (q, (r.answer q).1) = some key := by
  have hregister {name p aliases} (hq : q.registration? = some (name, p, aliases)) :
      key ∈ (r.answer q).2.names ↔
        key ∈ r.names ∨ registeredName? (q, (r.answer q).1) = some key := by
    -- the two ways of registering at once
    rcases registration_cases hq r with ⟨r', hok, hanswer⟩ | ⟨e, -, hanswer⟩
    · rcases registerAs_eq_ok_iff.mp hok with ⟨-, rfl⟩
      rw [hanswer, mem_names, mem_names, mem_providers_insert, registeredName?, hq, Option.map_some,
        Option.some.injEq, or_comm, @eq_comm _ key]
    · rw [hanswer]
      simp [registeredName?]
  cases q with
  | register p => exact hregister rfl
  | registerAs name p aliases => exact hregister rfl
  | load name =>
    -- a load registers no name
    have hnone : registeredName? (.load name, (r.answer (.load name)).1) = none := by
      cases (r.answer (.load name)).1 <;> rfl
    rw [answer_load, mem_names, mem_names, load_providers h, hnone]
    simp

/-! ## What a run keeps -/

theorem WellFormed.after (h : r.WellFormed) (requests : List Request) :
    (r.after requests).WellFormed := by
  induction requests using List.reverseRecOn with
  | nil => exact h
  | append_singleton requests q ih =>
    rw [after_concat]
    exact ih.answer q

theorem resolve?_after (h : r.WellFormed) (requests : List Request) {s canonical : String}
    (hs : r.resolve? s = some canonical) : (r.after requests).resolve? s = some canonical := by
  induction requests using List.reverseRecOn with
  | nil => exact hs
  | append_singleton requests q ih =>
    rw [after_concat]
    exact resolve?_answer (h.after requests) q ih

theorem mem_names_after (h : r.WellFormed) (requests : List Request) {key : String} :
    key ∈ (r.after requests).names ↔
      key ∈ r.names ∨ key ∈ registeredNames (r.log requests) := by
  induction requests using List.reverseRecOn with
  | nil => simp [Registry.after, log, registeredNames]
  | append_singleton requests q ih =>
    rw [after_concat, log_concat, mem_names_answer (h.after requests), ih, registeredNames,
      registeredNames, List.filterMap_append, List.mem_append, or_assoc]
    simp

theorem names_pairwise_lt (r : Registry) : r.names.Pairwise (· < ·) := by
  refine r.providers.ordered_keys.imp ?_
  intro a b hab
  exact compareOfLessAndEq_eq_lt.mp hab

/-- The names of a registry over a whole run: the tables fit together, the canonical names are in
strictly ascending order and are those of the start and those registered since. A name that has an
owner keeps it. A registration succeeds if its name is not blank and nothing that it claims has an
owner; it then gives exactly the strings that it claims to its own name, and if it is refused, it
changes no table. -/
theorem names_keep_owners {r₀ : Registry} (h₀ : r₀.IsInitial) (requests : List Request) :
    let r := r₀.after requests
    r.WellFormed ∧
      (r.names.Pairwise (· < ·) ∧
        ∀ key, key ∈ r.names ↔ key ∈ r₀.names ∨ key ∈ registeredNames (r₀.log requests)) ∧
      (∀ q s canonical, r.resolve? s = some canonical →
        (r.answer q).2.resolve? s = some canonical) ∧
      ∀ q name p aliases, q.registration? = some (name, p, aliases) →
        ((r.answer q).1 = .registered ↔
          ¬ IsBlankName name ∧ ∀ s, Claims name aliases s → r.resolve? s = none) ∧
        (∀ r', r.answer q = (.registered, r') → ∀ s canonical,
          r.resolve? s = none ∧ r'.resolve? s = some canonical ↔
            Claims name aliases s ∧ canonical = normalizeName name) ∧
        ∀ e r', r.answer q = (.refused e, r') →
          r'.providers = r.providers ∧ r'.aliases = r.aliases ∧ r'.cache = r.cache := by
  intro r
  have hr : r.WellFormed := h₀.wellFormed.after requests
  refine ⟨hr, ⟨r.names_pairwise_lt, fun key => mem_names_after h₀.wellFormed requests⟩,
    fun q s canonical hs => resolve?_answer hr q hs, ?_⟩
  intro q name p aliases hq
  rw [← fresh_claimed_iff]
  rcases registration_cases hq r with ⟨next, hok, hanswer⟩ | ⟨fault, herror, hanswer⟩
  · rw [hanswer]
    refine ⟨?_, ?_, ?_⟩
    · simp [(registerAs_eq_ok_iff.mp hok).1]
    · intro r' heq s canonical
      obtain rfl : next = r' := congrArg Prod.snd heq
      rcases resolve?_registerAs hok s with ⟨hnew, hclaims, hnone⟩ | ⟨hold, hclaims⟩
      · simp [hnew, hclaims, hnone, @eq_comm _ canonical]
      · simp only [hold, hclaims, false_and, iff_false, not_and]
        intro hnone hsome
        rw [hnone] at hsome
        cases hsome
    · intro e r' heq
      cases heq
  · rw [hanswer]
    refine ⟨?_, ?_, ?_⟩
    · -- what is fresh would have been entered
      simp only [reduceCtorEq, false_iff]
      intro hfresh
      rw [registerAs_eq_ok_iff.mpr ⟨hfresh, rfl⟩] at herror
      cases herror
    · intro r' heq
      cases heq
    · intro e r' heq
      obtain rfl : r = r' := congrArg Prod.snd heq
      exact ⟨rfl, rfl, rfl⟩

/-- A name is entered in normal form, whatever else the run asks for. -/
theorem names_of_lua_run :
    let lua : Provider := { name := "lua", language := { abi := 14, kindCount := 1 } }
    let r₀ : Registry := { key := 0, abis := ⟨13, 14⟩ }
    let requests := [.registerAs " Lua\t" lua ["L", " "], .registerAs "l" lua [], .load "LUA"]
    r₀.IsInitial ∧ "lua" ∈ (r₀.after requests).names := by
  intro lua r₀ requests
  rcases names_keep_owners (.empty 0 ⟨13, 14⟩) requests with ⟨-, ⟨-, hnames⟩, -⟩
  refine ⟨.empty 0 ⟨13, 14⟩, (hnames "lua").mpr (Or.inr ?_)⟩
  decide +kernel

end SyntaxTrees.Registry
