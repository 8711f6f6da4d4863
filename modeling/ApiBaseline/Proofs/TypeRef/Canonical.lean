import ApiBaseline.Proofs.TypeRef.RoundTrip
import ApiBaseline.Proofs.TypeRef.Substitution

/-!
# What a canonical name says

A canonical name leaves out the mark of generic parameters and nothing else. So
it is the display form of the reference in which every parameter has become a
type of the same name (`canonicalName_eq_display`), and that is the reference
which is read from it. Two references share a canonical name when they differ at
most in what is a parameter and what is a type.
-/

namespace ApiBaseline.TypeRef

/-- The reference with a type of the same name, without arguments, in place of
each generic parameter. -/
def erase (t : TypeRef) : TypeRef := t.bind fun n => named n []

theorem erase_named (name : String) (args : List TypeRef) :
    (named name args).erase = named name (args.map erase) := by
  rw [erase, bind, bindAll_eq_map]
  rfl

/-- With no parameters left the mark is never written. -/
theorem spell_erase (mark : String) (t : TypeRef) : t.erase.spell mark = t.spell "" := by
  induction t with
  | named name args ih =>
      have hargs : (args.map erase).map (spell mark) = args.map (spell "") := by
        rw [List.map_map]
        exact List.map_congr_left ih
      rw [erase_named, spell, spell, spellAll_eq_map, spellAll_eq_map, hargs]
  | param n =>
      show n ++ "" = "" ++ n
      rw [String.append_empty, String.empty_append]
  | array element rank ih => rw [spell, ← ih]; rfl
  | byRef target ih => rw [spell, ← ih]; rfl
  | pointer target ih => rw [spell, ← ih]; rfl

theorem canonicalName_eq_display (t : TypeRef) : t.canonicalName = t.erase.display :=
  (spell_erase "!" t).symm

theorem isWellFormed_erase (t : TypeRef) : t.erase.isWellFormed = t.isWellFormed := by
  induction t with
  | named name args ih =>
      have hargs : areWellFormed (args.map erase) = areWellFormed args := by
        rw [areWellFormed_eq_all, areWellFormed_eq_all, Bool.eq_iff_iff]
        simp only [List.all_eq_true, List.forall_mem_map]
        exact forall₂_congr fun a ha => by rw [ih a ha]
      rw [erase_named, isWellFormed, isWellFormed, hargs]
  | param n => exact Bool.and_true (isName n)
  | array element rank ih => rw [isWellFormed, ← ih]; rfl
  | byRef target ih => rw [isWellFormed, ← ih]; rfl
  | pointer target ih => rw [isWellFormed, ← ih]; rfl

theorem erase_of_mentions {t : TypeRef} (h : t.mentions = []) : t.erase = t := by
  have hsame : t.bind (fun n => named n []) = t.bind param := by
    refine bind_congr fun n hn => ?_
    rw [h] at hn
    exact absurd hn List.not_mem_nil
  rw [erase, hsame, bind_param]

/-- **A canonical name identifies a reference up to the mark of parameters.**
It is read as the erased reference, so references share it exactly when they are
equal once erased. -/
theorem parse_canonicalName :
    (∀ t : TypeRef, t.isWellFormed = true → parse t.canonicalName = .ok t.erase)
      ∧ (∀ t u : TypeRef, t.isWellFormed = true → u.isWellFormed = true →
          (t.canonicalName = u.canonicalName ↔ t.erase = u.erase))
      ∧ ∀ t u : TypeRef, t.isWellFormed = true → u.isWellFormed = true →
          t.mentions = [] → u.mentions = [] → t.canonicalName = u.canonicalName → t = u := by
  have hread : ∀ t : TypeRef, t.isWellFormed = true → parse t.canonicalName = .ok t.erase := by
    intro t ht
    rw [canonicalName_eq_display]
    exact parse_display ((isWellFormed_erase t).trans ht)
  have hsame : ∀ t u : TypeRef, t.isWellFormed = true → u.isWellFormed = true →
      (t.canonicalName = u.canonicalName ↔ t.erase = u.erase) := by
    intro t u ht hu
    constructor
    · intro hname
      have hparse := hread t ht
      rw [hname, hread u hu] at hparse
      exact (Except.ok.inj hparse).symm
    · intro herase
      rw [canonicalName_eq_display, canonicalName_eq_display, herase]
  refine ⟨hread, hsame, fun t u ht hu htm hum hname => ?_⟩
  have herase := (hsame t u ht hu).mp hname
  rwa [erase_of_mentions htm, erase_of_mentions hum] at herase

/-- A pair of a parameter and an array by reference shares its canonical name with
the pair of a type and that array; arrays of another rank have another name. -/
theorem pair_shares_name :
    parse (named "Ns.Pair" [param "T", byRef (array (named "Int" []) 2)]).canonicalName
        = .ok (named "Ns.Pair" [named "T" [], byRef (array (named "Int" []) 2)])
      ∧ (named "Ns.Pair" [param "T", byRef (array (named "Int" []) 2)]).canonicalName
        = (named "Ns.Pair" [named "T" [], byRef (array (named "Int" []) 2)]).canonicalName
      ∧ (array (named "Int" []) 2).canonicalName ≠ (array (named "Int" []) 3).canonicalName := by
  obtain ⟨hread, hsame, hinj⟩ := parse_canonicalName
  refine ⟨hread _ (by decide), (hsame _ _ (by decide) (by decide)).mpr (by decide), ?_⟩
  intro hname
  exact absurd (hinj _ _ (by decide) (by decide) rfl rfl hname) (by decide)

end ApiBaseline.TypeRef
