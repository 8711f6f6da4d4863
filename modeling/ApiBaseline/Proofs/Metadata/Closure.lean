import ApiBaseline.Metadata.Closure
import Mathlib.Data.Set.Finite.Basic
import Mathlib.Logic.Relation

/-!
# What a search reaches

`reach?` adds to one list, shared by all branches of the search, and never
enters a reference again. What a search in progress owes to the references it
has not finished cannot be said of the list alone, so the specification
(`Explored`) compares the list before with the list after: every reference that
is new in the list has all its successors there. Chained from the empty list
the differences add up, and nothing is left open (`mem_allInterfaces_iff`).

The search comes to an end when finitely many references can be reached
(`reach?_of_finite`); nothing else bounds it.
-/

namespace ApiBaseline

/-! ## Explored lists -/

section Search

variable {next : TypeRef → List TypeRef}

/-- A reference leads to another one in some steps. -/
abbrev Leads (next : TypeRef → List TypeRef) : TypeRef → TypeRef → Prop :=
  Relation.ReflTransGen fun t u => u ∈ next t

/-- What a list leads to stays in the list when its members' successors do. -/
theorem leads_mem {out : List TypeRef} (hclosed : ∀ x ∈ out, ∀ y ∈ next x, y ∈ out)
    {t u : TypeRef} (ht : t ∈ out) (hlead : Leads next t u) : u ∈ out := by
  induction hlead with
  | refl => exact ht
  | tail _ hstep ih => exact hclosed _ ih _ hstep

theorem leads_finite {bound : List TypeRef} (hclosed : ∀ x ∈ bound, ∀ y ∈ next x, y ∈ bound)
    {t : TypeRef} (ht : t ∈ bound) : {u | Leads next t u}.Finite :=
  bound.toFinset.finite_toSet.subset fun _ hu => List.mem_toFinset.mpr (leads_mem hclosed ht hu)

/-- The list `out` is `seen` with what a search from `ts` adds to it. -/
structure Explored (next : TypeRef → List TypeRef) (seen ts out : List TypeRef) : Prop where
  /-- Nothing is lost. -/
  keeps : ∀ x ∈ seen, x ∈ out
  /-- The search has been everywhere it was sent to. -/
  visits : ∀ t ∈ ts, t ∈ out
  /-- A new reference has its successors in the list. -/
  closes : ∀ x ∈ out, x ∈ seen ∨ ∀ y ∈ next x, y ∈ out
  /-- A new reference has been led to. -/
  arises : ∀ x ∈ out, x ∈ seen ∨ ∃ t ∈ ts, Leads next t x

namespace Explored

theorem nil (seen : List TypeRef) : Explored next seen [] seen where
  keeps _ h := h
  visits _ h := absurd h List.not_mem_nil
  closes _ h := Or.inl h
  arises _ h := Or.inl h

theorem append {seen mid out ts us : List TypeRef} (h₁ : Explored next seen ts mid)
    (h₂ : Explored next mid us out) : Explored next seen (ts ++ us) out where
  keeps x hx := h₂.keeps x (h₁.keeps x hx)
  visits t ht := by
    rcases List.mem_append.mp ht with ht | ht
    · exact h₂.keeps t (h₁.visits t ht)
    · exact h₂.visits t ht
  closes x hx := by
    rcases h₂.closes x hx with hmid | hnew
    · rcases h₁.closes x hmid with hseen | hclosed
      · exact Or.inl hseen
      · exact Or.inr fun y hy => h₂.keeps y (hclosed y hy)
    · exact Or.inr hnew
  arises x hx := by
    rcases h₂.arises x hx with hmid | ⟨u, hu, hlead⟩
    · rcases h₁.arises x hmid with hseen | ⟨t, ht, hlead⟩
      · exact Or.inl hseen
      · exact Or.inr ⟨t, List.mem_append_left us ht, hlead⟩
    · exact Or.inr ⟨u, List.mem_append_right ts hu, hlead⟩

/-- A reference that has been seen is not entered again. -/
theorem visited {seen : List TypeRef} {t : TypeRef} (h : t ∈ seen) :
    Explored next seen [t] seen where
  keeps _ hx := hx
  visits u hu := by rwa [List.mem_singleton.mp hu]
  closes _ hx := Or.inl hx
  arises _ hx := Or.inl hx

/-- Entering a reference: once its successors are explored, so is it. -/
theorem enter {seen out : List TypeRef} {t : TypeRef}
    (h : Explored next (seen ++ [t]) (next t) out) : Explored next seen [t] out where
  keeps x hx := h.keeps x (List.mem_append_left _ hx)
  visits u hu := h.keeps u (List.mem_append_right _ hu)
  closes x hx := by
    rcases h.closes x hx with hold | hnew
    · rcases List.mem_append.mp hold with hseen | ht
      · exact Or.inl hseen
      · obtain rfl := List.mem_singleton.mp ht
        exact Or.inr h.visits
    · exact Or.inr hnew
  arises x hx := by
    rcases h.arises x hx with hold | ⟨u, hu, hlead⟩
    · rcases List.mem_append.mp hold with hseen | ht
      · exact Or.inl hseen
      · obtain rfl := List.mem_singleton.mp ht
        exact Or.inr ⟨x, List.mem_cons_self, .refl⟩
    · exact Or.inr ⟨t, List.mem_cons_self, hlead.head hu⟩

/-- A search from a list that is closed under the successors leaves a list that
is closed under them. -/
theorem closed {seen ts out : List TypeRef} (h : Explored next seen ts out)
    (hseen : ∀ x ∈ seen, ∀ y ∈ next x, y ∈ seen) : ∀ x ∈ out, ∀ y ∈ next x, y ∈ out := by
  intro x hx y hy
  rcases h.closes x hx with hold | hnew
  · exact h.keeps y (hseen x hold y hy)
  · exact hnew y hy

end Explored

/-! ## The search -/

/-- A search from several references in turn explores them when each single
search does. -/
theorem explored_foldlM {search : List TypeRef → TypeRef → Option (List TypeRef)}
    (hsearch : ∀ seen t out, search seen t = some out → Explored next seen [t] out)
    {ts seen out : List TypeRef} (h : ts.foldlM search seen = some out) :
    Explored next seen ts out := by
  induction ts generalizing seen with
  | nil =>
      obtain rfl : seen = out := by simpa using h
      exact .nil seen
  | cons t ts ih =>
      obtain ⟨mid, hmid, hrest⟩ : ∃ mid, search seen t = some mid
          ∧ ts.foldlM search mid = some out := by
        simpa [List.foldlM_cons, Option.bind_eq_some_iff] using h
      exact (hsearch seen t mid hmid).append (ih hrest)

/-- A search that comes to an end has explored where it started. -/
theorem explored_reach? {seen out : List TypeRef} {t : TypeRef}
    (h : reach? next seen t = some out) : Explored next seen [t] out := by
  refine reach?.partial_correctness next (fun seen t out => Explored next seen [t] out)
    ?_ seen t out h
  intro search hsearch seen t out hstep
  by_cases hseen : t ∈ seen
  · obtain rfl : seen = out := by simpa [hseen] using hstep
    exact .visited hseen
  · rw [if_neg hseen] at hstep
    exact .enter (explored_foldlM hsearch hstep)

/-- Searches in a row come to an end if each of them does from every list that
holds the first one. -/
theorem foldlM_reach?_isSome {start us acc : List TypeRef} (hacc : start ⊆ acc)
    (hall : ∀ acc, start ⊆ acc → ∀ u ∈ us, (reach? next acc u).isSome) :
    (us.foldlM (reach? next) acc).isSome := by
  induction us generalizing acc with
  | nil => rfl
  | cons u us ih =>
      obtain ⟨mid, hmid⟩ := Option.isSome_iff_exists.mp (hall acc hacc u List.mem_cons_self)
      have hgrow : start ⊆ mid := fun x hx => (explored_reach? hmid).keeps x (hacc hx)
      have hrest := ih hgrow fun acc hacc u hu => hall acc hacc u (List.mem_cons_of_mem _ hu)
      simpa [List.foldlM_cons, hmid] using hrest

/-- A search within finitely many references comes to an end: every reference
that it enters is one less to enter. -/
theorem reach?_isSome {bound : Finset TypeRef}
    (hbound : ∀ t ∈ bound, ∀ u ∈ next t, u ∈ bound) (seen : List TypeRef) {t : TypeRef}
    (ht : t ∈ bound) : (reach? next seen t).isSome := by
  -- Fewer and fewer references of the bound are left to enter.
  induction hn : (bound \ seen.toFinset).card using Nat.strongRecOn generalizing seen t with
  | ind n ih =>
      rw [reach?.eq_1]
      by_cases hseen : t ∈ seen
      · simp [hseen]
      · rw [if_neg hseen]
        -- The branches share the list: a later one starts from what the earlier ones leave,
        -- of which no more is known than that it has grown.
        refine foldlM_reach?_isSome (List.Subset.refl _) fun acc hacc u hu => ?_
        have hless : (bound \ acc.toFinset).card < n := by
          rw [← hn]
          refine Finset.card_lt_card ((Finset.ssubset_iff_of_subset ?_).mpr ⟨t, ?_, ?_⟩)
          · intro x hx
            obtain ⟨hxb, hxacc⟩ := Finset.mem_sdiff.mp hx
            refine Finset.mem_sdiff.mpr ⟨hxb, fun hxseen => hxacc ?_⟩
            exact List.mem_toFinset.mpr
              (hacc (List.mem_append_left _ (List.mem_toFinset.mp hxseen)))
          · exact Finset.mem_sdiff.mpr ⟨ht, fun h => hseen (List.mem_toFinset.mp h)⟩
          · intro h
            have htacc : t ∈ acc := hacc (List.mem_append_right _ List.mem_cons_self)
            exact (Finset.mem_sdiff.mp h).2 (List.mem_toFinset.mpr htacc)
        exact ih _ hless acc (hbound t ht u hu) rfl

/-- A search comes to an end where finitely many references can be reached. -/
theorem reach?_of_finite {t : TypeRef} (hfin : {u | Leads next t u}.Finite)
    (seen : List TypeRef) : ∃ out, reach? next seen t = some out := by
  have hbound : ∀ u ∈ hfin.toFinset, ∀ v ∈ next u, v ∈ hfin.toFinset := by
    intro u hu v hv
    rw [Set.Finite.mem_toFinset] at hu ⊢
    exact hu.tail hv
  have ht : t ∈ hfin.toFinset := (Set.Finite.mem_toFinset hfin).mpr .refl
  exact Option.isSome_iff_exists.mp (reach?_isSome hbound seen ht)

end Search

/-! ## The interfaces of a type -/

namespace Module

/-- What the hierarchy of a type declares. -/
def declarations (m : Module) (d : Definition) : List TypeRef :=
  (m.hierarchy d).flatMap declared

/-- The interfaces that a type declares somewhere in its hierarchy, those that
they extend, those that these extend, and so on. -/
def interfaceClosure (m : Module) (d : Definition) : Set TypeRef :=
  {i | ∃ j ∈ m.declarations d, Leads m.parents j i}

/-- A list that holds the declarations and what its members extend bounds the
closure. -/
theorem interfaceClosure_finite {m : Module} {d : Definition} (bound : List TypeRef)
    (hdeclared : ∀ i ∈ m.declarations d, i ∈ bound)
    (hclosed : ∀ i ∈ bound, ∀ j ∈ m.parents i, j ∈ bound) :
    (m.interfaceClosure d).Finite := by
  refine bound.toFinset.finite_toSet.subset fun i hi => ?_
  obtain ⟨j, hj, hlead⟩ := hi
  rw [Finset.mem_coe, List.mem_toFinset]
  exact leads_mem hclosed (hdeclared j hj) hlead

/-- Searches that come to an end, in a row, explore where they start. -/
theorem explored_expand {m : Module} {ts seen : List TypeRef}
    (hfin : ∀ t ∈ ts, {u | Leads m.parents t u}.Finite) :
    Explored m.parents seen ts (ts.foldl m.expand seen) := by
  induction ts generalizing seen with
  | nil => exact .nil seen
  | cons t ts ih =>
      obtain ⟨out, hout⟩ := reach?_of_finite (hfin t List.mem_cons_self) seen
      have hexpand : m.expand seen t = out := by rw [expand, hout, Option.getD_some]
      rw [List.foldl_cons, hexpand]
      exact (explored_reach? hout).append (ih fun u hu => hfin u (List.mem_cons_of_mem _ hu))

/-- Whatever a search adds has been led to, whether or not the search comes to
an end. -/
theorem arises_of_mem_expand {m : Module} {ts seen : List TypeRef} {i : TypeRef}
    (h : i ∈ ts.foldl m.expand seen) : i ∈ seen ∨ ∃ t ∈ ts, Leads m.parents t i := by
  induction ts generalizing seen with
  | nil => exact Or.inl h
  | cons t ts ih =>
      rcases ih h with hmem | ⟨u, hu, hlead⟩
      · rw [expand] at hmem
        cases hout : reach? m.parents seen t with
        | none =>
            rw [hout] at hmem
            exact Or.inl hmem
        | some out =>
            rw [hout] at hmem
            rcases (explored_reach? hout).arises i hmem with hseen | ⟨u, hu, hlead⟩
            · exact Or.inl hseen
            · obtain rfl := List.mem_singleton.mp hu
              exact Or.inr ⟨u, List.mem_cons_self, hlead⟩
      · exact Or.inr ⟨u, List.mem_cons_of_mem _ hu, hlead⟩

/-- A type implements nothing but what its declarations lead to. -/
theorem allInterfaces_sound {m : Module} {d : Definition} {i : TypeRef}
    (h : i ∈ m.allInterfaces d) : i ∈ m.interfaceClosure d :=
  (arises_of_mem_expand h).resolve_left List.not_mem_nil

/-- A type implements all that its declarations lead to, if that is finite. -/
theorem mem_allInterfaces_iff {m : Module} {d : Definition}
    (hfin : (m.interfaceClosure d).Finite) (i : TypeRef) :
    i ∈ m.allInterfaces d ↔ i ∈ m.interfaceClosure d := by
  refine ⟨allInterfaces_sound, fun ⟨j, hj, hlead⟩ => ?_⟩
  have hexplored : Explored m.parents [] (m.declarations d) (m.allInterfaces d) :=
    explored_expand fun t ht => hfin.subset fun u hu => ⟨t, ht, hu⟩
  exact leads_mem (hexplored.closed nofun) (hexplored.visits j hj) hlead

end Module

end ApiBaseline
