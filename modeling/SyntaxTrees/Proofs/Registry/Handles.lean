import SyntaxTrees.Proofs.Registry.Loading

/-!
# The handles of a program

A program makes registries and asks them for grammars, in any order. Each registry has the key that is
its place (`Registries.Sound`), and what a registry has given out it keeps (`Keeps.step`). So the
handles of a program are the same if and only if they come from one registry and have one name
(`Registries.same_iff`).
-/

namespace SyntaxTrees

theorem Registry.Origin.isInitial {origin : Origin} {key : Nat} {r : Registry}
    (h : origin.make key = .ok r) : r.IsInitial ∧ r.key = key := by
  cases origin with
  | empty abis =>
    cases h
    exact ⟨.empty key abis, rfl⟩
  | builtins tables =>
    cases h
    exact ⟨.builtins key tables, (constants_withBuiltins key tables).1⟩
  | configured tables c => exact ⟨.configured h, (constants_ofConfig h).1⟩

namespace Registries

/-! ## Runs -/

inductive Request where
  | make (origin : Registry.Origin)
  | share (tables : Tables)
  | ask (key : Nat) (q : Registry.Request)

/-- Carries out a request. There is a reply if a registry was asked. -/
def step (rs : Registries) : Request → Option Registry.Reply × Registries
  | .make origin => (none, (rs.make origin).2)
  | .share tables => (none, (rs.share tables).2)
  | .ask key q => rs.ask key (·.answer q)

def after (rs : Registries) (requests : List Request) : Registries :=
  requests.foldl (fun rs q => (rs.step q).2) rs

/-- In a run from the start of the program, the registry with the key has given out the handle. -/
def GivesOut (requests : List Request) (key : Nat) (g : Grammar) : Prop :=
  ∃ front s back, requests = front ++ .ask key (.load s) :: back ∧
    ((after {} front).step (.ask key (.load s))).1 = some (.loaded g)

/-! ## One step -/

/-- All that a step can do: add a new registry under the next key, let a registry answer, or leave all
as they are. -/
theorem step_cases (rs : Registries) (q : Request) :
    (∃ r : Registry, r.IsInitial ∧ r.key = rs.all.size ∧ (rs.step q).1 = none ∧
        (rs.step q).2.all = rs.all.push r) ∨
      (∃ key asked r, q = .ask key asked ∧ rs.all[key]? = some r ∧
        (rs.step q).1 = some (r.answer asked).1 ∧
        (rs.step q).2.all = rs.all.setIfInBounds key (r.answer asked).2) ∨
      (rs.step q).1 = none ∧ (rs.step q).2.all = rs.all := by
  cases q with
  | make origin =>
    rw [step, make]
    -- a configuration may be refused, and then nothing is allocated
    cases hmake : origin.make rs.all.size with
    | ok r => exact .inl ⟨r, (origin.isInitial hmake).1, (origin.isInitial hmake).2, rfl, rfl⟩
    | error e => exact .inr (.inr ⟨rfl, rfl⟩)
  | share tables =>
    rw [step, share]
    -- a registry is made the first time only
    cases rs.shared with
    | some key => exact .inr (.inr ⟨rfl, rfl⟩)
    | none =>
      have hkey := (Registry.constants_withBuiltins rs.all.size tables).1
      exact .inl ⟨_, .builtins rs.all.size tables, hkey, rfl, rfl⟩
  | ask key asked =>
    rw [step, ask]
    cases hr : rs.all[key]? with
    | some r => exact .inr (.inl ⟨key, asked, r, rfl, hr, rfl, rfl⟩)
    | none => exact .inr (.inr ⟨rfl, rfl⟩)

/-! ## What every step keeps -/

/-- Every registry is in order, and its key is its place. -/
def Sound (rs : Registries) : Prop :=
  ∀ (key : Nat) (r : Registry), rs.all[key]? = some r → r.key = key ∧ r.WellFormed ∧ r.CacheSound

/-- The registry with the key has loaded the handle. -/
def Keeps (rs : Registries) (key : Nat) (g : Grammar) : Prop :=
  ∃ r : Registry, rs.all[key]? = some r ∧ r.cache[g.name]? = some g

variable {rs : Registries} {key : Nat} {g : Grammar}

theorem Sound.step (h : rs.Sound) (q : Request) : (rs.step q).2.Sound := by
  intro key r hr
  rcases step_cases rs q with ⟨new, hinitial, hkey, -, hall⟩ | ⟨place, asked, old, -, hold, -, hall⟩ |
    ⟨-, hall⟩ <;> rw [hall] at hr
  · -- a new registry stands behind all others
    rw [Array.getElem?_push] at hr
    split_ifs at hr with hplace
    · cases hr
      exact ⟨hkey.trans hplace.symm, hinitial.sound⟩
    · exact h key r hr
  · -- only the registry that was asked has changed
    rw [Array.getElem?_setIfInBounds] at hr
    split_ifs at hr with hplace
    · cases hr
      subst hplace
      rcases h _ old hold with ⟨hkey, hwell, hsound⟩
      exact ⟨(Registry.constants_answer hwell asked).1.trans hkey, hwell.answer asked,
        hsound.answer hwell asked⟩
    · exact h key r hr
  · exact h key r hr

/-- What a registry has loaded it keeps. -/
theorem Keeps.step (h : rs.Sound) (hg : rs.Keeps key g) (q : Request) :
    (rs.step q).2.Keeps key g := by
  rcases hg with ⟨r, hr, hcache⟩
  have hkey : key < rs.all.size := (Array.getElem?_eq_some_iff.mp hr).1
  rcases step_cases rs q with ⟨new, -, -, -, hall⟩ | ⟨place, asked, old, -, hold, -, hall⟩ |
    ⟨-, hall⟩
  · -- a registry is appended, behind the one at `key`
    refine ⟨r, ?_, hcache⟩
    rw [hall, Array.getElem?_push, if_neg (Nat.ne_of_lt hkey)]
    exact hr
  · -- a registry is asked: this one, or one at another place
    by_cases hplace : place = key
    · subst hplace
      obtain rfl : old = r := Option.some.inj (hold.symm.trans hr)
      refine ⟨(old.answer asked).2, ?_, Registry.getElem?_cache_answer (h _ old hr).2.1 asked hcache⟩
      rw [hall, Array.getElem?_setIfInBounds_self_of_lt hkey]
    · refine ⟨r, ?_, hcache⟩
      rw [hall, Array.getElem?_setIfInBounds_ne hplace]
      exact hr
  · exact ⟨r, by rw [hall, hr], hcache⟩

/-- What a registry gives out it has loaded. -/
theorem keeps_of_loaded (h : rs.Sound) {s : String}
    (hreply : (rs.step (.ask key (.load s))).1 = some (.loaded g)) :
    (rs.step (.ask key (.load s))).2.Keeps key g := by
  rcases step_cases rs (.ask key (.load s)) with ⟨_, -, -, hnone, -⟩ |
    ⟨place, asked, r, heq, hr, hanswer, hall⟩ | ⟨hnone, -⟩
  · rw [hnone] at hreply
    cases hreply
  · cases heq
    -- what was loaded is in the cache that the request leaves
    rw [hanswer] at hreply
    rcases h _ r hr with ⟨-, hwell, hsound⟩
    have hloaded := Registry.load_of_loaded (Option.some.inj hreply)
    rcases Registry.getElem?_cache_load hwell hloaded with ⟨canonical, -, hcache⟩
    have hname := (hsound.answer hwell (.load s)).name_eq hcache
    refine ⟨(r.answer (.load s)).2, ?_, by rwa [hname]⟩
    rw [hall, Array.getElem?_setIfInBounds_self_of_lt (Array.getElem?_eq_some_iff.mp hr).1]
  · rw [hnone] at hreply
    cases hreply

/-! ## Whole runs -/

theorem after_append (front back : List Request) :
    rs.after (front ++ back) = (rs.after front).after back := by
  rw [after, after, after, List.foldl_append]

theorem Sound.after (h : rs.Sound) (requests : List Request) : (rs.after requests).Sound := by
  induction requests generalizing rs with
  | nil => exact h
  | cons q requests ih => exact ih (h.step q)

theorem Keeps.after (h : rs.Sound) (hg : rs.Keeps key g) (requests : List Request) :
    (rs.after requests).Keeps key g := by
  induction requests generalizing rs with
  | nil => exact hg
  | cons q requests ih => exact ih (h.step q) (hg.step h q)

/-- A program starts without registries. -/
theorem sound_empty : Sound {} := by
  intro key r hr
  cases hr

section Handles

variable {requests : List Request} {key' : Nat} {g' : Grammar}

theorem GivesOut.keeps (h : GivesOut requests key g) : (after {} requests).Keeps key g := by
  rcases h with ⟨front, s, back, rfl, hreply⟩
  have hsound := sound_empty.after front
  rw [after_append]
  exact (keeps_of_loaded hsound hreply).after (hsound.step _) back

/-- Two handles that a program was given are the same if and only if one registry gave out both of them
under one name. -/
theorem same_iff (hg : GivesOut requests key g) (hg' : GivesOut requests key' g') :
    g.Same g' ↔ key = key' ∧ g.name = g'.name := by
  have hsound := sound_empty.after requests
  rcases hg.keeps with ⟨r, hr, hcache⟩
  rcases hg'.keeps with ⟨r', hr', hcache'⟩
  rcases hsound key r hr with ⟨hkey, -, hr₀⟩
  rcases hsound key' r' hr' with ⟨hkey', -, hr₀'⟩
  by_cases hkeys : key = key'
  · -- both are in the cache of one registry
    subst hkeys
    obtain rfl : r = r' := Option.some.inj (hr.symm.trans hr')
    rw [hr₀.same_iff hcache hcache']
    exact (and_iff_right rfl).symm
  · constructor
    · rintro ⟨hregistry, -⟩
      rw [hr₀.registry_eq hcache, hr₀'.registry_eq hcache', hkey, hkey'] at hregistry
      exact absurd hregistry hkeys
    · rintro ⟨heq, -⟩
      exact absurd heq hkeys

end Handles

end Registries

end SyntaxTrees
