import ApiBaseline.Metadata.Method
import ApiBaseline.Proofs.TypeRef.Renaming
import ApiBaseline.Proofs.TypeRef.RoundTrip

/-!
# Substitutions in a row

A parameter is bound when there is an argument at the first position of its name
(`IsBound`); lists of parameters may repeat names and be longer than their arguments.
What is put in for a bound parameter is met by a second substitution just as it would
be if the arguments had been substituted beforehand. A parameter that is not bound stays
in place, and the second substitution must leave it there: that is all that two
substitutions need to be one (`substitute_substitute_iff`).

What is put together from well-formed references is well-formed, so it can be written
and read (`isWellFormed_substitute`).
-/

namespace ApiBaseline.TypeRef

/-! ## Two substitutions -/

/-- What is put in shows, for every parameter that is mentioned and for no other. -/
theorem bind_eq_bind_iff {σ τ : String → TypeRef} {t : TypeRef} :
    t.bind σ = t.bind τ ↔ ∀ n ∈ t.mentions, σ n = τ n := by
  refine ⟨fun h => ?_, bind_congr⟩
  induction t with
  | named name args ih =>
      rw [bind, bind, bindAll_eq_map, bindAll_eq_map] at h
      have hargs := List.map_inj_left.mp (named.inj h).2
      intro n hn
      obtain ⟨a, ha, hn⟩ := mem_mentions_named.mp hn
      exact ih a ha (hargs a ha) n hn
  | param m =>
      intro n hn
      obtain rfl := List.mem_singleton.mp hn
      exact h
  | array element rank ih => exact ih (array.inj h).1
  | byRef target ih => exact ih (byRef.inj h)
  | pointer target ih => exact ih (pointer.inj h)

/-- Two substitutions in a row are one with substituted arguments exactly if the second
one leaves alone the parameters that the first one has no arguments for. -/
theorem substitute_substitute_iff (names outer : List String) (actuals args : List TypeRef)
    (t : TypeRef) :
    (t.substitute names actuals).substitute outer args
        = t.substitute names (actuals.map (·.substitute outer args))
      ↔ ∀ n ∈ t.mentions,
          IsBound names actuals n ∨ (param n).substitute outer args = param n := by
  rw [substitute_eq_bind outer, substitute_eq_bind names, bind_bind, substitute_eq_bind names,
    bind_eq_bind_iff]
  refine forall₂_congr fun n _ => ?_
  by_cases h : IsBound names actuals n
  · rw [actual_map_of_isBound h, substitute_eq_bind outer]
    exact iff_of_true rfl (Or.inl h)
  · rw [actual_of_not_isBound h, actual_of_not_isBound ((isBound_map_iff _).not.mpr h),
      ← substitute_eq_bind, or_iff_right h]

/-- The second substitution reaches a parameter without an argument. -/
example : ((param "U").substitute ["T", "U"] [named "Book" []]).substitute ["U"] [named "Toy" []]
    ≠ (param "U").substitute ["T", "U"]
      ([named "Book" []].map (·.substitute ["U"] [named "Toy" []])) := by decide

/-! ## Well-formed references -/

theorem isWellFormed_bind {σ : String → TypeRef} {t : TypeRef}
    (hσ : ∀ n, isName n = true → (σ n).isWellFormed = true) (ht : t.isWellFormed = true) :
    (t.bind σ).isWellFormed = true := by
  induction t with
  | named name args ih =>
      rw [isWellFormed, areWellFormed_eq_all, Bool.and_eq_true, List.all_eq_true] at ht
      rw [bind, bindAll_eq_map, isWellFormed, areWellFormed_eq_all, List.all_map,
        Bool.and_eq_true, List.all_eq_true]
      exact ⟨ht.1, fun a ha => ih a ha (ht.2 a ha)⟩
  | param n => exact hσ n ht
  | array element rank ih =>
      rw [isWellFormed, Bool.and_eq_true] at ht
      rw [bind, isWellFormed, Bool.and_eq_true]
      exact ⟨ih ht.1, ht.2⟩
  | byRef target ih => exact ih ht
  | pointer target ih => exact ih ht

/-- Well-formed arguments in a well-formed reference make a well-formed one. -/
theorem isWellFormed_substitute {names : List String} {actuals : List TypeRef} {t : TypeRef}
    (ht : t.isWellFormed = true) (hactuals : ∀ a ∈ actuals, a.isWellFormed = true) :
    (t.substitute names actuals).isWellFormed = true := by
  rw [substitute_eq_bind]
  refine isWellFormed_bind (fun n hn => ?_) ht
  by_cases h : IsBound names actuals n
  · exact hactuals _ (actual_mem_of_isBound h)
  · rw [actual_of_not_isBound h]
    exact hn

/-! ## The laws for lists of parameters -/

/-- **Parameters are put in by the first positions of their names.** -/
theorem substitute_composes :
    (∀ (ps : List GenericParam) (t : TypeRef),
        t.substitute (genericNames ps) (genericRefs ps) = t)
      ∧ (∀ (ps qs : List GenericParam) (as bs : List TypeRef) (t : TypeRef),
          (∀ n ∈ t.mentions, IsBound (genericNames ps) as n ∨ n ∉ genericNames qs) →
            (t.substitute (genericNames ps) as).substitute (genericNames qs) bs
              = t.substitute (genericNames ps) (as.map (·.substitute (genericNames qs) bs)))
      ∧ (∀ (ps qs : List GenericParam) (as bs : List TypeRef) (t : TypeRef),
          (t.substitute (genericNames ps) as).substitute (genericNames qs) bs
              = t.substitute (genericNames ps) (as.map (·.substitute (genericNames qs) bs))
            ↔ ∀ n ∈ t.mentions, IsBound (genericNames ps) as n
                ∨ (param n).substitute (genericNames qs) bs = param n)
      ∧ ∀ (ps : List GenericParam) (as : List TypeRef) (t : TypeRef),
          t.isWellFormed = true → (∀ a ∈ as, a.isWellFormed = true) →
            (t.substitute (genericNames ps) as).isWellFormed = true
              ∧ parse (t.substitute (genericNames ps) as).display
                = .ok (t.substitute (genericNames ps) as) := by
  refine ⟨fun ps t => ?_, fun ps qs as bs t h => ?_, fun ps qs as bs t => ?_,
    fun ps as t ht has => ?_⟩
  · have hrefs : genericRefs ps = (genericNames ps).map param := (List.map_map).symm
    rw [hrefs, substitute_own]
  · refine (substitute_substitute_iff _ _ as bs t).mpr fun n hn => (h n hn).imp_right fun hq => ?_
    exact actual_of_not_mem hq bs
  · exact substitute_substitute_iff _ _ as bs t
  · have hwell : (t.substitute (genericNames ps) as).isWellFormed = true :=
      isWellFormed_substitute ht has
    exact ⟨hwell, parse_display hwell⟩

/-- Three parameters, of which two have one name. -/
def shelfParams : List GenericParam :=
  [.unconstrained "T", .unconstrained "U", .unconstrained "T"]

def boxParams : List GenericParam := [.unconstrained "U", .unconstrained "T"]

/-- With one argument for three parameters only the first one is bound. What stands in its
place mentions the second one, which the second substitution binds. -/
theorem shelf_composes :
    (∀ n ∈ (named "Shelf" [param "T", array (param "V") 1]).mentions,
        IsBound (genericNames shelfParams) [named "Box" [param "U"]] n
          ∨ n ∉ genericNames boxParams)
      ∧ ((named "Shelf" [param "T", array (param "V") 1]).substitute
            (genericNames shelfParams) [named "Box" [param "U"]]).substitute
            (genericNames boxParams) [named "Book" []]
          = named "Shelf" [named "Box" [named "Book" []], array (param "V") 1]
      ∧ (named "Shelf" [param "T", array (param "V") 1]).substitute
            (genericNames shelfParams) [named "Box" [named "Book" []]]
          = named "Shelf" [named "Box" [named "Book" []], array (param "V") 1]
      ∧ parse "Shelf<Box<!U>, !V[]>"
          = .ok (named "Shelf" [named "Box" [param "U"], array (param "V") 1]) := by
  have hbound : ∀ n ∈ (named "Shelf" [param "T", array (param "V") 1]).mentions,
      IsBound (genericNames shelfParams) [named "Box" [param "U"]] n
        ∨ n ∉ genericNames boxParams := by decide
  obtain ⟨-, hcompose, -, hread⟩ := substitute_composes
  have hone := hcompose shelfParams boxParams [named "Box" [param "U"]] [named "Book" []] _ hbound
  have htext := (hread shelfParams [named "Box" [param "U"]]
    (named "Shelf" [param "T", array (param "V") 1]) (by decide) (by decide)).2
  exact ⟨hbound, hone, by decide, htext⟩

end ApiBaseline.TypeRef
