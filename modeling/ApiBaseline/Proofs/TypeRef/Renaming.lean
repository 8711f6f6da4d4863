import ApiBaseline.Proofs.TypeRef.Substitution
import Mathlib.Data.Set.Function

/-!
# Renaming of generic parameters

A parameter is bound where it is declared, and its name is of no account: when
the declaration and all that mentions it are renamed together, arguments arrive
in the same places (`substitute_rename`). The new names have to be distinct, and
they must not be taken by anything that is not renamed (`IsRenaming`).

With a substitution in between that is not enough: what it puts in may mention a
parameter that happens to bear one of the old names. Where it does not, renaming
is as harmless as before (`substitute_substitute_rename`).
-/

namespace ApiBaseline

/-- New names for the parameters `own`. They are distinct, and among the names
that are taken they use those of the parameters only. -/
structure IsRenaming (ρ : String → String) (own taken : List String) : Prop where
  injective : Set.InjOn ρ {n | n ∈ own}
  fresh : ∀ n ∈ own, ρ n ∈ taken → ρ n ∈ own

theorem IsRenaming.not_mem_map {ρ : String → String} {own taken : List String}
    (h : IsRenaming ρ own taken) {n : String} (htaken : n ∈ taken) (hown : n ∉ own) :
    n ∉ own.map ρ := by
  intro hn
  obtain ⟨k, hk, rfl⟩ := List.mem_map.mp hn
  exact hown (h.fresh k hk htaken)

theorem IsRenaming.single {taken : List String} {m : String} (hm : m ∉ taken) (n : String) :
    IsRenaming (fun _ => m) [n] taken where
  injective _ hk _ hl _ := (List.mem_singleton.mp hk).trans (List.mem_singleton.mp hl).symm
  fresh _ _ htaken := absurd htaken hm

namespace TypeRef

def renamed (own : List String) (ρ : String → String) (n : String) : String :=
  if n ∈ own then ρ n else n

/-- The reference with the parameters `own` renamed. -/
def rename (own : List String) (ρ : String → String) (t : TypeRef) : TypeRef :=
  t.bind fun n => param (renamed own ρ n)

/-! ## Names and their places -/

theorem actual_of_not_mem {names : List String} {n : String} (h : n ∉ names)
    (actuals : List TypeRef) : actual names actuals n = param n :=
  actual_of_not_isBound fun hbound : IsBound names actuals n => h hbound.1

theorem actual_mem {names : List String} {actuals : List TypeRef} {n : String}
    (hlen : actuals.length = names.length) (h : n ∈ names) :
    actual names actuals n ∈ actuals :=
  actual_mem_of_isBound (isBound_of_mem hlen h)

/-- The new names stand where the old ones have stood. -/
theorem idxOf_map_of_injOn {ρ : String → String} {own : List String}
    (hρ : Set.InjOn ρ {n | n ∈ own}) {n : String} (h : n ∈ own) :
    (own.map ρ).idxOf (ρ n) = own.idxOf n := by
  induction own with
  | nil => exact absurd h List.not_mem_nil
  | cons m own ih =>
      rw [List.map_cons, List.idxOf_cons, List.idxOf_cons]
      by_cases heq : m = n
      · simp [heq]
      · have hne : ρ m ≠ ρ n := fun hsame => heq (hρ List.mem_cons_self h hsame)
        have htail : Set.InjOn ρ {k | k ∈ own} := hρ.mono fun k hk => List.mem_cons_of_mem m hk
        have hown : n ∈ own := (List.mem_cons.mp h).resolve_left (Ne.symm heq)
        rw [beq_false_of_ne hne, beq_false_of_ne heq, ih htail hown]

/-- An argument arrives where it has arrived before. -/
theorem actual_renamed {ρ : String → String} {own taken : List String}
    (hρ : IsRenaming ρ own taken) {actuals : List TypeRef}
    (hlen : actuals.length = own.length) {n : String} (h : n ∈ taken) :
    actual (own.map ρ) actuals (renamed own ρ n) = actual own actuals n := by
  by_cases hown : n ∈ own
  · have hlt : own.idxOf n < actuals.length := (isBound_of_mem hlen hown).2
    rw [renamed, if_pos hown, actual_of_mem (List.mem_map_of_mem hown), actual_of_mem hown,
      idxOf_map_of_injOn hρ.injective hown, List.getElem?_eq_getElem hlt, Option.getD_some,
      Option.getD_some]
  · rw [renamed, if_neg hown, actual_of_not_mem (hρ.not_mem_map h hown), actual_of_not_mem hown]

/-! ## Substitution for renamed parameters -/

theorem substitute_of_not_mem {names : List String} {t : TypeRef}
    (h : ∀ n ∈ t.mentions, n ∉ names) (actuals : List TypeRef) :
    t.substitute names actuals = t := by
  have hstay : t.bind (actual names actuals) = t.bind param :=
    bind_congr fun n hn => actual_of_not_mem (h n hn) actuals
  rw [substitute_eq_bind, hstay, bind_param]

theorem mem_mentions_substitute {names : List String} {actuals : List TypeRef} {t : TypeRef}
    {n : String} (hlen : actuals.length = names.length)
    (h : n ∈ (t.substitute names actuals).mentions) :
    n ∈ t.mentions ∨ ∃ a ∈ actuals, n ∈ a.mentions := by
  rw [substitute_eq_bind] at h
  obtain ⟨k, hk, hn⟩ := mem_mentions_bind.mp h
  by_cases hmem : k ∈ names
  · exact Or.inr ⟨_, actual_mem hlen hmem, hn⟩
  · rw [actual_of_not_mem hmem, mentions, List.mem_singleton] at hn
    exact Or.inl (hn ▸ hk)

section

variable {ρ : String → String} {own taken : List String} (hρ : IsRenaming ρ own taken)
  {t : TypeRef} (ht : t.mentions ⊆ taken)

include hρ ht

theorem substitute_rename {actuals : List TypeRef} (hlen : actuals.length = own.length) :
    (t.rename own ρ).substitute (own.map ρ) actuals = t.substitute own actuals := by
  rw [substitute_eq_bind, rename, bind_bind, substitute_eq_bind]
  exact bind_congr fun n hn => actual_renamed hρ hlen (ht hn)

/-- Two kinds of parameters, of which the second ones are renamed: what is put in
for the first ones must not mention the second ones by their old names. -/
theorem substitute_substitute_rename {names : List String} {actuals refs : List TypeRef}
    (hnames : names ⊆ taken) (hdisjoint : ∀ n ∈ own, n ∉ names)
    (hactuals : actuals.length = names.length) (htaken : ∀ a ∈ actuals, a.mentions ⊆ taken)
    (hcapture : ∀ a ∈ actuals, ∀ n ∈ a.mentions, n ∉ own) (hrefs : refs.length = own.length) :
    ((t.rename own ρ).substitute names actuals).substitute (own.map ρ) refs
      = (t.substitute names actuals).substitute own refs := by
  rw [substitute_eq_bind (own.map ρ), substitute_eq_bind names, rename, bind_bind, bind_bind,
    substitute_eq_bind own, substitute_eq_bind names, bind_bind]
  refine bind_congr fun n hn => ?_
  show (actual names actuals (renamed own ρ n)).bind (actual (own.map ρ) refs) = _
  by_cases hown : n ∈ own
  · have hnew : renamed own ρ n ∉ names := by
      rw [renamed, if_pos hown]
      exact fun h => hdisjoint _ (hρ.fresh n hown (hnames h)) h
    rw [actual_of_not_mem hnew, actual_of_not_mem (hdisjoint n hown)]
    exact actual_renamed hρ hrefs (ht hn)
  · rw [renamed, if_neg hown, ← substitute_eq_bind, ← substitute_eq_bind]
    -- What stands in the place of another parameter is out of reach of both substitutions.
    have houtside : ∀ k ∈ (actual names actuals n).mentions, k ∈ taken ∧ k ∉ own := by
      by_cases hmem : n ∈ names
      · have ha := actual_mem hactuals hmem
        exact fun k hk => ⟨htaken _ ha hk, hcapture _ ha k hk⟩
      · intro k hk
        rw [actual_of_not_mem hmem, mentions, List.mem_singleton] at hk
        exact ⟨hk ▸ ht hn, hk ▸ hown⟩
    rw [substitute_of_not_mem fun k hk => (houtside k hk).2,
      substitute_of_not_mem fun k hk => hρ.not_mem_map (houtside k hk).1 (houtside k hk).2]

end

end TypeRef

end ApiBaseline
