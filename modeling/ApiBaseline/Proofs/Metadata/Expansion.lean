import ApiBaseline.Metadata.Dispatch
import ApiBaseline.Proofs.Metadata.Closure
import ApiBaseline.Proofs.Metadata.Inheritance

/-!
# What an expansion adds

A search writes behind the list that it is given, and nothing that stands there
already (`extends_reach?`). During the search the list is not closed, so what it
adds depends on the list; from a closed list on it adds exactly what can be
reached and is not there yet (`reach?_of_closed`).

All interfaces of a type are found by searches that share one list, while a level
declares an interface when a search of its own finds it. Both are the same
interfaces, and the shared list holds each of them once (`expand_reachable`).
-/

namespace ApiBaseline

/-! ## Lists that grow -/

/-- The list `out` is `seen` with further references behind it, none of which is
there twice. -/
structure Extends (seen out : List TypeRef) : Prop where
  front : seen <+: out
  nodup : seen.Nodup → out.Nodup

namespace Extends

theorem refl (seen : List TypeRef) : Extends seen seen := ⟨List.prefix_rfl, id⟩

theorem trans {seen mid out : List TypeRef} (h₁ : Extends seen mid) (h₂ : Extends mid out) :
    Extends seen out :=
  ⟨h₁.front.trans h₂.front, fun h => h₂.nodup (h₁.nodup h)⟩

theorem enter {seen : List TypeRef} {t : TypeRef} (h : t ∉ seen) :
    Extends seen (seen ++ [t]) where
  front := List.prefix_append seen [t]
  nodup hseen := by
    rw [← List.concat_eq_append]
    exact hseen.concat h

end Extends

section Search

variable {next : TypeRef → List TypeRef}

theorem extends_foldlM {search : List TypeRef → TypeRef → Option (List TypeRef)}
    (hsearch : ∀ seen t out, search seen t = some out → Extends seen out)
    {ts seen out : List TypeRef} (h : ts.foldlM search seen = some out) :
    Extends seen out := by
  induction ts generalizing seen with
  | nil =>
      obtain rfl : seen = out := by simpa using h
      exact .refl seen
  | cons t ts ih =>
      rw [List.foldlM_cons] at h
      obtain ⟨mid, hmid, hrest⟩ := Option.bind_eq_some_iff.mp h
      exact (hsearch seen t mid hmid).trans (ih hrest)

/-- A search writes behind the list that it is given. -/
theorem extends_reach? {seen out : List TypeRef} {t : TypeRef}
    (h : reach? next seen t = some out) : Extends seen out := by
  refine reach?.partial_correctness next (fun seen _ out => Extends seen out) ?_ seen t out h
  -- The reference goes behind the list, and what is found from it behind that.
  intro search hsearch seen t out hstep
  by_cases hseen : t ∈ seen
  · obtain rfl : seen = out := by simpa [hseen] using hstep
    exact .refl seen
  · rw [if_neg hseen] at hstep
    exact (Extends.enter hseen).trans (extends_foldlM hsearch hstep)

/-- From a closed list on a search adds what can be reached and is not there. -/
theorem reach?_of_closed {seen : List TypeRef} {t : TypeRef}
    (hfin : {u | Leads next t u}.Finite) (hnodup : seen.Nodup)
    (hclosed : ∀ x ∈ seen, ∀ y ∈ next x, y ∈ seen) :
    ∃ new, reach? next seen t = some (seen ++ new) ∧ (seen ++ new).Nodup
      ∧ ∀ u, u ∈ new ↔ Leads next t u ∧ u ∉ seen := by
  obtain ⟨out, hout⟩ := reach?_of_finite hfin seen
  have hexplored := explored_reach? hout
  obtain ⟨⟨new, rfl⟩, hextends⟩ := extends_reach? hout
  have hall : (seen ++ new).Nodup := hextends hnodup
  refine ⟨new, hout, hall, fun u => ⟨fun hu => ?_, fun ⟨hlead, hu⟩ => ?_⟩⟩
  · have hold : u ∉ seen := fun h => List.disjoint_of_nodup_append hall h hu
    rcases hexplored.arises u (List.mem_append_right seen hu) with h | ⟨s, hs, hlead⟩
    · exact absurd h hold
    · obtain rfl := List.mem_singleton.mp hs
      exact ⟨hlead, hold⟩
  · have ht : t ∈ seen ++ new := hexplored.visits t List.mem_cons_self
    have hmem : u ∈ seen ++ new := leads_mem (hexplored.closed hclosed) ht hlead
    exact (List.mem_append.mp hmem).resolve_left hu

/-- Searches in a row that come to an end write one behind the other. -/
theorem foldlM_reach?_of_finite {ts : List TypeRef}
    (hfin : ∀ t ∈ ts, {u | Leads next t u}.Finite) (seen : List TypeRef) :
    ∃ out, ts.foldlM (reach? next) seen = some out := by
  have hsome : (ts.foldlM (reach? next) seen).isSome := by
    refine foldlM_reach?_isSome (List.Subset.refl seen) fun acc _ t ht => ?_
    exact Option.isSome_iff_exists.mpr (reach?_of_finite (hfin t ht) acc)
  exact Option.isSome_iff_exists.mp hsome

end Search

/-! ## Expansions -/

namespace Module

variable {m : Module}

theorem expand_of_reach? {seen out : List TypeRef} {i : TypeRef}
    (h : reach? m.parents seen i = some out) : m.expand seen i = out := by
  rw [expand, h, Option.getD_some]

theorem foldl_expand_of_foldlM {ts seen out : List TypeRef}
    (h : ts.foldlM (reach? m.parents) seen = some out) : ts.foldl m.expand seen = out := by
  induction ts generalizing seen with
  | nil => simpa using h
  | cons t ts ih =>
      rw [List.foldlM_cons] at h
      obtain ⟨mid, hmid, hrest⟩ := Option.bind_eq_some_iff.mp h
      rw [List.foldl_cons, expand_of_reach? hmid, ih hrest]

/-- A fresh expansion holds what the interface leads to. -/
theorem mem_closure_iff {i : TypeRef} (hfin : {j | Leads m.parents i j}.Finite) (j : TypeRef) :
    j ∈ m.closure i ↔ Leads m.parents i j := by
  obtain ⟨new, hnew, -, hmem⟩ := reach?_of_closed hfin List.nodup_nil nofun
  rw [closure, expand_of_reach? hnew, List.nil_append, hmem]
  exact and_iff_left List.not_mem_nil

/-- An interface that extends no other is all that its expansion adds. -/
theorem expand_of_parents {i : TypeRef} {seen : List TypeRef} (h : m.parents i = [])
    (hi : i ∉ seen) : m.expand seen i = seen ++ [i] := by
  simp [expand, reach?.eq_1, h, hi]

/-- Interfaces that extend no others are listed as they stand. -/
theorem foldl_expand_of_parents {ts seen : List TypeRef} (h : ∀ t ∈ ts, m.parents t = [])
    (hnodup : (seen ++ ts).Nodup) : ts.foldl m.expand seen = seen ++ ts := by
  induction ts generalizing seen with
  | nil => rw [List.foldl_nil, List.append_nil]
  | cons t ts ih =>
      have ht : t ∉ seen := fun hmem =>
        List.disjoint_of_nodup_append hnodup hmem List.mem_cons_self
      rw [List.append_cons] at hnodup
      rw [List.foldl_cons, expand_of_parents (h t List.mem_cons_self) ht,
        ih (fun u hu => h u (List.mem_cons_of_mem t hu)) hnodup, ← List.append_cons]

theorem declares_iff {l : Level} (hfin : ∀ i ∈ declared l, {j | Leads m.parents i j}.Finite)
    (j : TypeRef) : m.declares l j = true ↔ ∃ i ∈ declared l, Leads m.parents i j := by
  rw [declares, List.any_eq_true]
  constructor
  · rintro ⟨i, hi, hj⟩
    exact ⟨i, hi, (mem_closure_iff (hfin i hi) j).mp (List.contains_iff_mem.mp hj)⟩
  · rintro ⟨i, hi, hlead⟩
    exact ⟨i, hi, List.contains_iff_mem.mpr ((mem_closure_iff (hfin i hi) j).mpr hlead)⟩

theorem finite_of_mem_hierarchy {d : Definition} (hfin : (m.interfaceClosure d).Finite)
    {l : Level} (hl : l ∈ m.hierarchy d) :
    ∀ i ∈ declared l, {j | Leads m.parents i j}.Finite := fun i hi =>
  hfin.subset fun _ hj => ⟨i, List.mem_flatMap.mpr ⟨l, hl, hi⟩, hj⟩

/-- What the declarations of a type lead to is what its levels declare. -/
theorem mem_interfaceClosure_iff {d : Definition} (hfin : (m.interfaceClosure d).Finite)
    (j : TypeRef) : j ∈ m.interfaceClosure d ↔ ∃ l ∈ m.hierarchy d, m.declares l j = true := by
  constructor
  · rintro ⟨i, hi, hlead⟩
    obtain ⟨l, hl, hil⟩ := List.mem_flatMap.mp hi
    exact ⟨l, hl, (declares_iff (finite_of_mem_hierarchy hfin hl) j).mpr ⟨i, hil, hlead⟩⟩
  · rintro ⟨l, hl, hj⟩
    obtain ⟨i, hil, hlead⟩ := (declares_iff (finite_of_mem_hierarchy hfin hl) j).mp hj
    exact ⟨i, List.mem_flatMap.mpr ⟨l, hl, hil⟩, hlead⟩

/-- An expansion into a closed list comes to an end and adds, each once, the
interfaces that can be reached and are not there. So the interfaces of a type are
found once each, and they are those that its levels declare. -/
theorem expand_reachable (m : Module) :
    (∀ (i : TypeRef) (seen : List TypeRef), {j | Leads m.parents i j}.Finite → seen.Nodup →
        (∀ x ∈ seen, ∀ y ∈ m.parents x, y ∈ seen) →
        ∃ new, reach? m.parents seen i = some (seen ++ new) ∧ m.expand seen i = seen ++ new
          ∧ (seen ++ new).Nodup ∧ ∀ j, j ∈ new ↔ Leads m.parents i j ∧ j ∉ seen)
      ∧ ∀ d : Definition, (m.interfaceClosure d).Finite →
          (m.declarations d).foldlM (reach? m.parents) [] = some (m.allInterfaces d)
            ∧ (m.allInterfaces d).Nodup
            ∧ ∀ j, j ∈ m.allInterfaces d ↔ ∃ l ∈ m.hierarchy d, m.declares l j = true := by
  constructor
  · intro i seen hfin hnodup hclosed
    obtain ⟨new, hnew, hall, hmem⟩ := reach?_of_closed hfin hnodup hclosed
    exact ⟨new, hnew, expand_of_reach? hnew, hall, hmem⟩
  · intro d hfin
    have hdeclared : ∀ i ∈ m.declarations d, {j | Leads m.parents i j}.Finite :=
      fun i hi => hfin.subset fun _ hj => ⟨i, hi, hj⟩
    obtain ⟨out, hout⟩ := foldlM_reach?_of_finite hdeclared []
    obtain rfl : m.allInterfaces d = out := foldl_expand_of_foldlM hout
    have hextends := extends_foldlM (fun _ _ _ => extends_reach?) hout
    refine ⟨hout, hextends.nodup List.nodup_nil, fun j => ?_⟩
    rw [mem_allInterfaces_iff hfin, mem_interfaceClosure_iff hfin]

/-! ## A mill and a barn -/

/-- A mill for a crop is a barn for it, and for corn. -/
def mill : Definition :=
  { box with
    name := "IMill"
    isInterface := true
    interfaces := [.named "IBarn" [.param "T"], .named "IBarn" [.named "Corn" []]] }

/-- A barn for a crop is a mill for it. -/
def barn : Definition :=
  { box with
    name := "IBarn"
    isInterface := true
    interfaces := [.named "IMill" [.param "T"]] }

/-- A farm is a mill for hay and a barn for corn. -/
def farm : Definition :=
  { tin with
    name := "Farm"
    base := none
    interfaces := [.named "IMill" [.named "Hay" []], .named "IBarn" [.named "Corn" []]] }

/-- The interfaces of the farm extend each other in circles, and both lead to corn. -/
def village : Manifest := ⟨"Village", [farm, mill, barn], [], []⟩

theorem farm_grinds_once :
    (∃ new, reach? (ofManifest village).parents
          [.named "IBarn" [.named "Corn" []], .named "IMill" [.named "Corn" []]]
          (.named "IMill" [.named "Hay" []])
        = some ([.named "IBarn" [.named "Corn" []], .named "IMill" [.named "Corn" []]] ++ new)
      ∧ .named "IBarn" [.named "Hay" []] ∈ new ∧ .named "IMill" [.named "Corn" []] ∉ new)
    ∧ ((ofManifest village).allInterfaces farm).Nodup
    ∧ .named "IMill" [.named "Corn" []] ∈ (ofManifest village).allInterfaces farm := by
  let bound : List TypeRef :=
    [.named "IMill" [.named "Hay" []], .named "IBarn" [.named "Hay" []],
      .named "IBarn" [.named "Corn" []], .named "IMill" [.named "Corn" []]]
  have hclosed : ∀ x ∈ bound, ∀ y ∈ (ofManifest village).parents x, y ∈ bound := by decide
  obtain ⟨hsearch, htypes⟩ := (ofManifest village).expand_reachable
  constructor
  · obtain ⟨new, hnew, -, -, hmem⟩ := hsearch (.named "IMill" [.named "Hay" []])
      [.named "IBarn" [.named "Corn" []], .named "IMill" [.named "Corn" []]]
      (leads_finite hclosed (by decide)) (by decide) (by decide)
    refine ⟨new, hnew, (hmem _).mpr ⟨.single (by decide), by decide⟩, fun h => ?_⟩
    exact ((hmem _).mp h).2 (by decide)
  · obtain ⟨-, hnodup, -⟩ := htypes farm (interfaceClosure_finite bound (by decide) hclosed)
    refine ⟨hnodup, (mem_allInterfaces_iff
      (interfaceClosure_finite bound (by decide) hclosed) _).mpr ?_⟩
    exact ⟨.named "IBarn" [.named "Corn" []], by decide, .single (by decide)⟩

end Module

end ApiBaseline
