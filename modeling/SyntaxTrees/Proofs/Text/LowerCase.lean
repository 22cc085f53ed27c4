import Mathlib.Data.List.Basic
import SyntaxTrees.Text.LowerCase

/-!
# Lower case is settled

A character is settled if lower-casing leaves it alone wherever it stands. The table of capital
letters sends none of them to another capital, to the capital sigma or to white space, so that the
lower case of a text consists of settled characters (`settled_of_mem_lower`), a second
lower-casing changes nothing (`lower_lower`), and no blank comes in at the ends.
-/

namespace SyntaxTrees.Text

/-! ## The table of capital letters -/

/-- The code points of the small letters of a run. -/
def CapitalRun.targets (r : CapitalRun) : List Nat :=
  (List.range ((r.last - r.first) / r.step + 1)).map fun i => r.target + i * r.step

/-- No small letter of the first run is a capital of the second. Most pairs are settled by a look
at the ends of the two runs. -/
def CapitalRun.isApart (r s : CapitalRun) : Bool :=
  Nat.blt (r.target + (r.last - r.first)) s.first ||
    (Nat.blt s.last r.target || r.targets.all fun code => !s.contains code)

/-- A code point that is a character, has no rule of its own and is no white space. -/
def isPlainCode (code : Nat) : Bool :=
  decide code.isValidChar && code != 0x130 && code != 0x3A3 && !isBlank (.ofNat code)

theorem capitalRuns_isApart :
    capitalRuns.all (fun r => capitalRuns.all r.isApart) = true := by decide +kernel

theorem capitalRuns_isPlainCode :
    capitalRuns.all (fun r => r.targets.all isPlainCode) = true := by decide +kernel

theorem CapitalRun.contains_eq_false_of_isApart {r s : CapitalRun} (h : r.isApart s = true)
    {code : Nat} (hcode : code ∈ r.targets) : s.contains code = false := by
  have hmem := hcode
  rw [targets, List.mem_map] at hmem
  rcases hmem with ⟨i, hi, rfl⟩
  -- a code of `r` lies between its first and last, a whole number of steps up
  have hstep : i * r.step ≤ r.last - r.first := by
    refine Nat.le_trans (Nat.mul_le_mul_right r.step ?_) (Nat.div_mul_le_self _ r.step)
    have hlt := List.mem_range.mp hi
    omega
  simp only [isApart, Bool.or_eq_true, List.all_eq_true, Nat.blt_eq] at h
  rcases h with hbefore | hafter | hall
  · -- `s` ends before `r` begins
    simp only [contains, Bool.and_eq_false_iff, decide_eq_false_iff_not]
    exact Or.inl (Or.inl (by omega))
  · -- `s` begins after `r` ends
    simp only [contains, Bool.and_eq_false_iff, decide_eq_false_iff_not]
    exact Or.inl (Or.inr (by omega))
  · -- they overlap, and every code was looked at
    simpa using hall _ hcode

/-- A capital of a run goes to a small letter of the run. -/
theorem CapitalRun.target_mem_targets {r : CapitalRun} {code : Nat} (h : r.contains code = true) :
    r.target + (code - r.first) ∈ r.targets := by
  simp only [contains, Bool.and_eq_true, decide_eq_true_eq, beq_iff_eq] at h
  rcases h with ⟨⟨hfirst, hlast⟩, hmod⟩
  rw [targets, List.mem_map]
  refine ⟨(code - r.first) / r.step, ?_, ?_⟩
  · have hle : (code - r.first) / r.step ≤ (r.last - r.first) / r.step :=
      Nat.div_le_div_right (by omega)
    exact List.mem_range.mpr (by omega)
  · rw [Nat.div_mul_cancel (Nat.dvd_of_mod_eq_zero hmod)]

/-! ## Settled characters -/

/-- Lower-casing leaves the character alone wherever it stands. -/
def Settled (c : Char) : Prop := c.toNat ≠ 0x3A3 ∧ lowerChar c = [c]

instance (c : Char) : Decidable (Settled c) := inferInstanceAs (Decidable (_ ∧ _))

/-- The check of a given list of characters, as one computation. -/
theorem settled_of_all {l : List Char}
    (h : l.all (fun c => decide (Settled c) && !isBlank c) = true) :
    (∀ c ∈ l, Settled c) ∧ ∀ c ∈ l, isBlank c = false := by
  rw [List.all_eq_true] at h
  constructor
  · intro c hc
    exact of_decide_eq_true (Bool.and_eq_true_iff.mp (h c hc)).1
  · intro c hc
    simpa using (Bool.and_eq_true_iff.mp (h c hc)).2

/-- A small letter of the table is settled and no white space. -/
theorem settled_of_mem_targets {r : CapitalRun} (hr : r ∈ capitalRuns) {code : Nat}
    (hcode : code ∈ r.targets) : Settled (.ofNat code) ∧ isBlank (.ofNat code) = false := by
  have hplain := List.all_eq_true.mp (List.all_eq_true.mp capitalRuns_isPlainCode r hr) code hcode
  simp only [isPlainCode, Bool.and_eq_true, decide_eq_true_eq, bne_iff_ne, ne_eq,
    Bool.not_eq_true'] at hplain
  rcases hplain with ⟨⟨⟨hvalid, hdotted⟩, hsigma⟩, hblank⟩
  have htoNat : (Char.ofNat code).toNat = code := by
    rw [Char.ofNat, dif_pos hvalid]
    rfl
  -- no run of capitals has a small letter of another
  have hfind : capitalRuns.find? (·.contains code) = none := by
    rw [List.find?_eq_none]
    intro s hs
    have hapart := List.all_eq_true.mp (List.all_eq_true.mp capitalRuns_isApart r hr) s hs
    simp [CapitalRun.contains_eq_false_of_isApart hapart hcode]
  refine ⟨⟨by rw [htoNat]; exact hsigma, ?_⟩, hblank⟩
  rw [lowerChar, htoNat, if_neg hdotted, hfind]

/-- The lower case of a character is not empty and settled, and it is white space only if the
character is. -/
theorem lowerChar_spec {c : Char} (hc : c.toNat ≠ 0x3A3) :
    lowerChar c ≠ [] ∧ (∀ d ∈ lowerChar c, Settled d) ∧
      (isBlank c = false → ∀ d ∈ lowerChar c, isBlank d = false) := by
  by_cases hdotted : c.toNat = 0x130
  · -- `İ` is the one letter with two in place of it
    have hlower : lowerChar c = ['i', .ofNat 0x307] := if_pos hdotted
    rcases settled_of_all (l := ['i', .ofNat 0x307]) (by decide +kernel) with ⟨hsettled, hblank⟩
    rw [hlower]
    exact ⟨by simp, hsettled, fun _ => hblank⟩
  · rcases hfind : capitalRuns.find? (·.contains c.toNat) with _ | r
    · -- no capital: the letter stays
      have hlower : lowerChar c = [c] := by rw [lowerChar, if_neg hdotted, hfind]
      simp [hlower, Settled, hc]
    · -- a capital of run `r`
      have hlower : lowerChar c = [.ofNat (r.target + (c.toNat - r.first))] := by
        rw [lowerChar, if_neg hdotted, hfind]
      have hr : r ∈ capitalRuns := List.mem_of_find?_eq_some hfind
      have hcontains : r.contains c.toNat = true := by simpa using List.find?_some hfind
      have hmem := CapitalRun.target_mem_targets hcontains
      rcases settled_of_mem_targets hr hmem with ⟨hsettled, hblank⟩
      simp [hlower, hsettled, hblank]

/-! ## Texts -/

/-- The lower case of a text starts with that of its first character, and this is not empty,
settled, and white space only if the character is. -/
theorem lowerAfter_cons (before : List Char) (c : Char) (rest : List Char) :
    ∃ lowered, lowerAfter before (c :: rest) = lowered ++ lowerAfter (c :: before) rest ∧
      lowered ≠ [] ∧ (∀ d ∈ lowered, Settled d) ∧
      (isBlank c = false → ∀ d ∈ lowered, isBlank d = false) := by
  refine ⟨_, rfl, ?_⟩
  by_cases hc : c.toNat = 0x3A3
  · -- a capital sigma: the last of its word, or not
    simp only [if_pos hc]
    split
    · rcases settled_of_all (l := [.ofNat 0x3C2]) (by decide +kernel) with ⟨hsettled, hblank⟩
      exact ⟨by simp, hsettled, fun _ => hblank⟩
    · rcases settled_of_all (l := [.ofNat 0x3C3]) (by decide +kernel) with ⟨hsettled, hblank⟩
      exact ⟨by simp, hsettled, fun _ => hblank⟩
  · simp only [if_neg hc]
    exact lowerChar_spec hc

theorem settled_of_mem_lowerAfter {before l : List Char} {d : Char}
    (hd : d ∈ lowerAfter before l) : Settled d := by
  induction l generalizing before with
  | nil => simp [lowerAfter] at hd
  | cons c rest ih =>
    rcases lowerAfter_cons before c rest with ⟨lowered, heq, -, hsettled, -⟩
    rw [heq, List.mem_append] at hd
    rcases hd with hd | hd
    · exact hsettled d hd
    · exact ih hd

theorem lowerAfter_of_settled {before l : List Char} (h : ∀ c ∈ l, Settled c) :
    lowerAfter before l = l := by
  induction l generalizing before with
  | nil => rfl
  | cons c rest ih =>
    rcases h c (by simp) with ⟨hsigma, hlower⟩
    have hrest : lowerAfter (c :: before) rest = rest :=
      ih fun d hd => h d (List.mem_cons_of_mem c hd)
    simp [lowerAfter, hsigma, hlower, hrest]

/-- What is in lower case stays as it is. -/
theorem lower_lower (l : List Char) : lower (lower l) = lower l :=
  lowerAfter_of_settled fun _ hd => settled_of_mem_lowerAfter hd

theorem lower_eq_nil_iff {l : List Char} : lower l = [] ↔ l = [] := by
  cases l with
  | nil => simp [lower, lowerAfter]
  | cons c rest =>
    rcases lowerAfter_cons [] c rest with ⟨lowered, heq, hne, -⟩
    simp [lower, heq, hne]

/-- A text that starts with no white space starts with none in lower case. -/
theorem isBlank_head?_lower {l : List Char} (h : ∀ c ∈ l.head?, isBlank c = false) :
    ∀ d ∈ (lower l).head?, isBlank d = false := by
  cases l with
  | nil => simp [lower, lowerAfter]
  | cons c rest =>
    rcases lowerAfter_cons [] c rest with ⟨lowered, heq, hne, -, hblank⟩
    rw [lower, heq, List.head?_append_of_ne_nil _ hne]
    intro d hd
    exact hblank (h c rfl) d (List.mem_of_head? hd)

theorem isBlank_getLast?_lowerAfter {before l : List Char}
    (h : ∀ c ∈ l.getLast?, isBlank c = false) :
    ∀ d ∈ (lowerAfter before l).getLast?, isBlank d = false := by
  induction l generalizing before with
  | nil => simp [lowerAfter]
  | cons c rest ih =>
    rcases lowerAfter_cons before c rest with ⟨lowered, heq, hne, -, hblank⟩
    rw [heq]
    cases rest with
    | nil =>
      -- the last letter is `c` itself
      intro d hd
      simp only [lowerAfter, List.append_nil] at hd
      exact hblank (h c rfl) d (List.mem_of_getLast? hd)
    | cons c' rest =>
      -- it is in the rest, which is not lowered to nothing
      rcases lowerAfter_cons (c :: before) c' rest with ⟨lowered', heq', hne', -⟩
      have hnil : lowerAfter (c :: before) (c' :: rest) ≠ [] := by simp [heq', hne']
      rw [List.getLast?_append_of_ne_nil _ hnil]
      exact ih (by simpa using h)

end SyntaxTrees.Text
