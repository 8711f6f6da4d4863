import ApiBaseline.Classify.Type
import ApiBaseline.Proofs.Generate
import ApiBaseline.Proofs.Metadata.Expansion
import Mathlib.Data.Fintype.Card
import Mathlib.Data.Fintype.List

/-!
# Reduced lists of interfaces

A declared list is reduced by dropping each interface that another one of the list
extends, whether or not that one is dropped itself. Nothing is lost by it
(`Reduces.lossless`): of the interfaces that lead to a dropped one some is kept, as long
as no two of the list extend each other, for then extension is well-founded on the list
(`exists_introduced_leads`). With two that do, both would go.

The list is the same for types and for generic parameters, and records take over what is
left of it (`reduces_introduced`).
-/

namespace ApiBaseline

/-- What is left of a list, each element once, stands in the order in which the list
first mentions it. -/
theorem pairwise_idxOf_eraseDups_filter {α : Type} [DecidableEq α] (p : α → Bool)
    (xs : List α) :
    (xs.filter p).eraseDups.Pairwise fun a b => xs.idxOf a < xs.idxOf b := by
  induction xs using List.reverseRecOn with
  | nil => exact .nil
  | append_singleton xs x ih =>
      rw [List.filter_append, List.eraseDups_append]
      have hfront : ∀ a ∈ (xs.filter p).eraseDups, a ∈ xs := fun a ha =>
        List.mem_of_mem_filter (List.mem_eraseDups.mp ha)
      have holder : (xs.filter p).eraseDups.Pairwise
          fun a b => (xs ++ [x]).idxOf a < (xs ++ [x]).idxOf b := by
        refine ih.imp_of_mem fun {a b} ha hb hlt => ?_
        rwa [List.idxOf_append_of_mem (hfront a ha), List.idxOf_append_of_mem (hfront b hb)]
      -- The last element adds nothing, or it is new and comes last.
      have hlast : (([x].filter p).removeAll (xs.filter p)).eraseDups = []
          ∨ (([x].filter p).removeAll (xs.filter p)).eraseDups = [x] ∧ x ∉ xs := by
        by_cases hx : p x = true <;> by_cases hmem : x ∈ xs <;>
          simp [hx, hmem, List.removeAll, List.eraseDups_cons]
      rcases hlast with hnil | ⟨hsingle, hnew⟩
      · rwa [hnil, List.append_nil]
      · rw [hsingle]
        refine List.pairwise_append.mpr ⟨holder, List.pairwise_singleton _ x, fun a ha b hb => ?_⟩
        rw [List.mem_singleton.mp hb, List.idxOf_append_of_mem (hfront a ha),
          List.idxOf_append_of_notMem hnew]
        exact Nat.lt_add_right _ (List.idxOf_lt_length_of_mem (hfront a ha))

namespace Module

/-- The list `kept` is what remains of a declared list when the interfaces that others
of it imply are dropped. -/
structure Reduces (m : Module) (declared kept : List TypeRef) : Prop where
  nodup : kept.Nodup
  subset : kept ⊆ declared
  /-- What is kept stands in the order in which it is first declared. -/
  order : kept.Pairwise fun i j => declared.idxOf i < declared.idxOf j
  /-- The kept interfaces expand to all that the declared ones expand to. -/
  lossless : ∀ j, (∃ i ∈ kept, j ∈ m.closure i) ↔ ∃ i ∈ declared, j ∈ m.closure i
  nonempty : declared ≠ [] → kept ≠ []
  /-- No kept interface extends another one. -/
  minimal : ∀ i ∈ kept, ∀ j ∈ kept, Leads m.parents i j → i = j

/-- The interface `j` of the list is another one than `i` and leads to it. -/
def ExtendsOther (m : Module) (declared : List TypeRef) (j i : {i // i ∈ declared}) : Prop :=
  j ≠ i ∧ Leads m.parents j.1 i.1

section

variable {m : Module} {declared : List TypeRef}
  (hfin : ∀ i ∈ declared, {j | Leads m.parents i j}.Finite)

include hfin

/-- What is left are the interfaces that no other one of the list leads to. -/
theorem mem_introduced_iff (i : TypeRef) : i ∈ m.introduced declared
    ↔ i ∈ declared ∧ ∀ j ∈ declared, Leads m.parents j i → j = i := by
  simp only [introduced, List.mem_eraseDups, List.mem_filter, Bool.not_eq_true',
    List.any_eq_false, implies, Bool.and_eq_true, bne_iff_ne, List.contains_iff_mem, not_and]
  refine and_congr_right fun _ => forall₂_congr fun j hj => ?_
  rw [mem_closure_iff (hfin j hj)]
  exact ⟨fun h hlead => by_contra fun hne => h hne hlead, fun h hne hlead => hne (h hlead)⟩

variable (hcycle : ∀ i ∈ declared, ∀ j ∈ declared,
  Leads m.parents i j → Leads m.parents j i → i = j)

include hcycle

omit hfin in
/-- Going on to interfaces that extend the one at hand comes to an end: the list is finite
and this never leads back. -/
theorem wellFounded_extendsOther : WellFounded (m.ExtendsOther declared) := by
  have : IsTrans {i // i ∈ declared} (m.ExtendsOther declared) := by
    refine ⟨fun j i k hji hik => ⟨fun hjk => hji.1 ?_, hji.2.trans hik.2⟩⟩
    subst hjk
    exact Subtype.ext (hcycle j.1 j.2 i.1 i.2 hji.2 hik.2)
  have : Std.Irrefl (m.ExtendsOther declared) := ⟨fun i h => h.1 rfl⟩
  exact Finite.wellFounded_of_trans_of_irrefl _

/-- Something that is kept leads to every declared interface. -/
theorem exists_introduced_leads (i : {i // i ∈ declared}) :
    ∃ k ∈ m.introduced declared, Leads m.parents k i.1 := by
  induction i using (wellFounded_extendsOther hcycle).induction with
  | _ i ih =>
      by_cases hkept : i.1 ∈ m.introduced declared
      · exact ⟨i.1, hkept, .refl⟩
      · rw [mem_introduced_iff hfin] at hkept
        obtain ⟨j, hj, hlead, hne⟩ : ∃ j ∈ declared, Leads m.parents j i.1 ∧ j ≠ i.1 := by
          simpa [i.2] using hkept
        obtain ⟨k, hk, hkj⟩ := ih ⟨j, hj⟩ ⟨fun h => hne (congrArg Subtype.val h), hlead⟩
        exact ⟨k, hk, hkj.trans hlead⟩

theorem reduces_of_finite : m.Reduces declared (m.introduced declared) := by
  have horder : (m.introduced declared).Pairwise
      fun i j => declared.idxOf i < declared.idxOf j := pairwise_idxOf_eraseDups_filter _ _
  have hsubset : m.introduced declared ⊆ declared := fun i hi =>
    ((mem_introduced_iff hfin i).mp hi).1
  have hsurvivor := fun i hi => exists_introduced_leads hfin hcycle ⟨i, hi⟩
  refine ⟨horder.imp fun hlt heq => ?_, hsubset, horder, fun j => ⟨?_, ?_⟩, ?_, ?_⟩
  · exact absurd (heq ▸ hlt) (Nat.lt_irrefl _)
  · rintro ⟨i, hi, hj⟩
    exact ⟨i, hsubset hi, hj⟩
  · rintro ⟨i, hi, hj⟩
    obtain ⟨k, hk, hki⟩ := hsurvivor i hi
    refine ⟨k, hk, (mem_closure_iff (hfin k (hsubset hk)) j).mpr ?_⟩
    exact hki.trans ((mem_closure_iff (hfin i hi) j).mp hj)
  · intro hdeclared hnil
    obtain ⟨i, hi⟩ := List.exists_mem_of_ne_nil declared hdeclared
    obtain ⟨k, hk, -⟩ := hsurvivor i hi
    exact absurd (hnil ▸ hk) List.not_mem_nil
  · intro i hi j hj hlead
    exact ((mem_introduced_iff hfin j).mp hj).2 i (hsubset hi) hlead

end

/-! ## Records -/

/-- The record bounds its parameter by the base, unless that is a root, and by what
remains of the interfaces. -/
structure Bounds (m : Module) (p : GenericParam) (c : ConstraintRecord) : Prop where
  parameterName : c.parameterName = p.name
  bounds : c.bounds = (p.baseType.toList.filter (!·.isRoot)).map (·.canonicalName)
    ++ (m.introduced p.interfaces).map (·.canonicalName)

/-- Some of the parameters have records, in their order. Those for which any interface
remains are among them. -/
def BoundsAll (m : Module) (params : List GenericParam) (records : List ConstraintRecord) :
    Prop :=
  ∃ constrained, constrained.Sublist params ∧ List.Forall₂ m.Bounds constrained records
    ∧ ∀ p ∈ params, m.introduced p.interfaces ≠ [] → p ∈ constrained

theorem boundsAll_constraintRecords (m : Module) (params : List GenericParam) :
    m.BoundsAll params (m.constraintRecords params) := by
  refine ⟨params.filter fun p => (m.constraintRecord p).isConstrained, List.filter_sublist, ?_,
    fun p hp hremains => List.mem_filter.mpr ⟨hp, ?_⟩⟩
  · rw [constraintRecords, List.filter_map, List.forall₂_map_right_iff]
    exact List.forall₂_same.mpr fun p _ => ⟨rfl, rfl⟩
  · simp [ConstraintRecord.isConstrained, constraintRecord, introducedNames, hremains]

/-- **Reduction is lossless and minimal.** A list of interfaces of which no two extend
each other is reduced to what implies all of it and nothing twice. The interfaces in
records of types, and in those of the constraints of types and methods, are what remains
of the lists that are declared. -/
theorem reduces_introduced (m : Module) :
    (∀ declared : List TypeRef, (∀ i ∈ declared, {j | Leads m.parents i j}.Finite) →
        (∀ i ∈ declared, ∀ j ∈ declared,
          Leads m.parents i j → Leads m.parents j i → i = j) →
        m.Reduces declared (m.introduced declared))
      ∧ (∀ (d : Definition) (t : TypeRecord), m.classify d = .ok t →
          t.interfaces = (m.introduced d.interfaces).map (·.canonicalName)
            ∧ m.BoundsAll d.genericParams t.constraints)
      ∧ ∀ (d : Definition) (position : Nat) (x : Method) (r : MemberRecord),
          (m.memberContext d).method position x = .ok r →
            m.BoundsAll x.genericParams r.constraints := by
  refine ⟨fun declared hfin hcycle => reduces_of_finite hfin hcycle, fun d t ht => ?_,
    fun d position x r hr => ?_⟩
  · obtain ⟨members, -, rfl⟩ := classify_eq_ok ht
    exact ⟨rfl, boundsAll_constraintRecords m _⟩
  · obtain ⟨parameters, -, hrecord⟩ := bind_eq_ok hr
    obtain rfl := Except.ok.inj hrecord
    exact boundsAll_constraintRecords m _

/-! ## A larder -/

/-- Food in rows, as one reads it off a source of food. -/
def foodRows : TypeRef := .named "IReader" [.array (.named "Food" []) 1]

def foodSource : TypeRef := .named "ISource" [.named "Food" []]

/-- A larder declares that food can be read in rows, twice, and that it is a source. -/
def larder : Definition :=
  { tin with name := "Larder", base := none, interfaces := [foodRows, foodSource, foodRows] }

/-- The larder is introduced as a source of food, which can be read in rows anyway. -/
theorem larder_is_source :
    (ofManifest pantry).Reduces larder.interfaces
        ((ofManifest pantry).introduced larder.interfaces)
      ∧ (ofManifest pantry).introduced larder.interfaces = [foodSource]
      ∧ ∃ t, (ofManifest pantry).classify larder = .ok t ∧ t.interfaces = ["ISource<Food>"] := by
  obtain ⟨hreduces, hrecords, -⟩ := reduces_introduced (ofManifest pantry)
  have hclosed : ∀ x ∈ larder.interfaces, ∀ y ∈ (ofManifest pantry).parents x,
      y ∈ larder.interfaces := by decide
  have hfin : ∀ i ∈ larder.interfaces, {j | Leads (ofManifest pantry).parents i j}.Finite :=
    fun i hi => leads_finite hclosed hi
  have hmem : ∀ i ∈ larder.interfaces, i = foodRows ∨ i = foodSource := by decide
  have hrows : ∀ j, Leads (ofManifest pantry).parents foodRows j → j = foodRows := by
    intro j hlead
    have hplain : ∀ x ∈ [foodRows], ∀ y ∈ (ofManifest pantry).parents x, y ∈ [foodRows] := by
      decide
    exact List.mem_singleton.mp (leads_mem hplain List.mem_cons_self hlead)
  have hkept := hreduces larder.interfaces hfin fun i hi j hj hij hji => by
    rcases hmem i hi with rfl | rfl
    · exact (hrows j hij).symm
    · rcases hmem j hj with rfl | rfl
      · exact hrows _ hji
      · rfl
  have hsource : ∀ i ∈ (ofManifest pantry).introduced larder.interfaces, i = foodSource := by
    intro i hi
    obtain ⟨hdeclared, honly⟩ := (mem_introduced_iff hfin i).mp hi
    rcases hmem i hdeclared with rfl | rfl
    · exact (honly foodSource (by decide) (.single (by decide))).symm
    · rfl
  have hsingle : (ofManifest pantry).introduced larder.interfaces = [foodSource] := by
    cases hlist : (ofManifest pantry).introduced larder.interfaces with
    | nil => exact absurd hlist (hkept.nonempty (by decide))
    | cons i rest =>
        rw [hlist, List.forall_mem_cons] at hsource
        have hnodup := hlist ▸ hkept.nodup
        have hrest : rest = [] := List.eq_nil_iff_forall_not_mem.mpr fun j hj => by
          have hji : j = i := (hsource.2 j hj).trans hsource.1.symm
          exact (List.nodup_cons.mp hnodup).1 (hji ▸ hj)
        rw [hsource.1, hrest]
  obtain ⟨t, ht⟩ : ∃ t, (ofManifest pantry).classify larder = .ok t := ⟨_, rfl⟩
  refine ⟨hkept, hsingle, t, ht, ?_⟩
  rw [(hrecords larder t ht).1, hsingle]
  decide

end Module

end ApiBaseline
