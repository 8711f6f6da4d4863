import ApiBaseline.Proofs.Generate.Settings

/-!
# Namespaces by their segments

A name is a list of segments with dots between them, and a segment may be empty. A
namespace lies in another one exactly when the segments of that one are the first of its
own (`inNamespace_iff`): behind a text there is nothing or a dot when, and only when, it
ends with its last segment. The namespace of a definition is all segments but the last of
what stands in front of the first plus sign (`segments_namespaceName`), so a nested type
lies in the namespace of the type around it.
-/

namespace ApiBaseline

/-- The parts of a name between its dots. -/
def segments (name : String) : List (List Char) := name.toList.splitOn '.'

/-! ## Initial parts -/

theorem intercalate_append {α : Type} {sep : List α} {xs : List (List α)} (hxs : xs ≠ [])
    (y : List α) (ys : List (List α)) :
    sep.intercalate (xs ++ y :: ys) = sep.intercalate xs ++ sep ++ sep.intercalate (y :: ys) := by
  induction xs with
  | nil => exact absurd rfl hxs
  | cons x xs ih =>
      cases xs with
      | nil => rw [List.singleton_append, List.intercalate_cons_cons, List.intercalate_singleton]
      | cons x' xs =>
          rw [List.cons_append, List.cons_append, List.intercalate_cons_cons, ← List.cons_append,
            ih (List.cons_ne_nil _ _), List.intercalate_cons_cons]
          simp only [List.append_assoc]

/-- The parts of a list are the first ones of another list when the list ends where one of
those does. -/
theorem splitOn_prefix_iff {α : Type} [DecidableEq α] {sep : α} {xs ys : List α} :
    xs.splitOn sep <+: ys.splitOn sep ↔ ys = xs ∨ ∃ rest, ys = xs ++ sep :: rest := by
  constructor
  · rintro ⟨parts, hparts⟩
    have hys : ys = [sep].intercalate (xs.splitOn sep ++ parts) := by
      rw [hparts, List.intercalate_splitOn]
    cases parts with
    | nil =>
        rw [List.append_nil, List.intercalate_splitOn] at hys
        exact Or.inl hys
    | cons part parts =>
        rw [intercalate_append (List.splitOn_ne_nil _ _), List.intercalate_splitOn] at hys
        exact Or.inr ⟨_, by rw [hys, List.append_assoc, List.singleton_append]⟩
  · rintro (rfl | ⟨rest, rfl⟩)
    · exact List.prefix_refl _
    · rw [List.splitOn_append_cons_self]
      exact List.prefix_append _ _

theorem dropPrefix?_eq_some_iff {front cs rest : List Char} :
    dropPrefix? front cs = some rest ↔ cs = front ++ rest := by
  induction front generalizing cs with
  | nil => exact Option.some_inj
  | cons f fs ih =>
      cases cs with
      | nil => exact iff_of_false nofun nofun
      | cons c cs =>
          rw [dropPrefix?, List.cons_append, List.cons.injEq]
          by_cases hfc : f = c
          · rw [if_pos hfc, ih, and_iff_right hfc.symm]
          · rw [if_neg hfc]
            exact iff_of_false nofun fun h => hfc h.1.symm

/-- **A namespace lies in another one by whole segments.** -/
theorem inNamespace_iff {outer namespaceName : String} :
    inNamespace outer namespaceName = true ↔ segments outer <+: segments namespaceName := by
  rw [segments, segments, splitOn_prefix_iff, inNamespace]
  cases hdrop : dropPrefix? outer.toList namespaceName.toList with
  | none =>
      have hnot : ∀ rest, namespaceName.toList ≠ outer.toList ++ rest := fun rest h => by
        rw [dropPrefix?_eq_some_iff.mpr h] at hdrop
        cases hdrop
      refine iff_of_false Bool.false_ne_true ?_
      rintro (h | ⟨rest, h⟩)
      · exact hnot [] (by rw [h, List.append_nil])
      · exact hnot _ h
  | some rest =>
      rw [dropPrefix?_eq_some_iff.mp hdrop]
      cases rest with
      | nil => simp
      | cons c rest => simp

example : segments ".Io..Text" = [[], "Io".toList, [], "Text".toList]
    ∧ inNamespace ".Io" ".Io..Text" = true ∧ inNamespace ".I" ".Io..Text" = false := by decide

/-! ## The namespace of a definition -/

theorem splitLast?_eq_none {c : Char} {cs : List Char} (h : splitLast? c cs = none) : c ∉ cs := by
  induction cs with
  | nil => exact List.not_mem_nil
  | cons d ds ih =>
      rw [splitLast?] at h
      split at h
      · cases h
      · next hrest =>
        split at h
        · cases h
        · next hd => exact List.not_mem_cons_of_ne_of_not_mem (Ne.symm hd) (ih hrest)

theorem splitLast?_eq_some {c : Char} {cs front back : List Char}
    (h : splitLast? c cs = some (front, back)) : cs = front ++ c :: back ∧ c ∉ back := by
  induction cs generalizing front with
  | nil => cases h
  | cons d ds ih =>
      rw [splitLast?] at h
      split at h
      · next front' back' hrest =>
        obtain ⟨rfl, rfl⟩ := Prod.mk.inj (Option.some.inj h)
        obtain ⟨rfl, hback⟩ := ih hrest
        exact ⟨rfl, hback⟩
      · next hrest =>
        split at h
        · next hd =>
          obtain ⟨rfl, rfl⟩ := Prod.mk.inj (Option.some.inj h)
          exact ⟨by rw [hd, List.nil_append], splitLast?_eq_none hrest⟩
        · cases h

namespace Definition

variable (d : Definition)

/-- The name of the outermost type around the defined one. -/
def outermostName : String := String.ofList (d.name.toList.takeWhile (· ≠ '+'))

theorem outermostName_nested (e : Definition) (nested : String) :
    ({ e with name := d.name ++ "+" ++ nested } : Definition).outermostName = d.outermostName := by
  have hplus : "+".toList = ['+'] := rfl
  rw [outermostName, outermostName, String.toList_append, String.toList_append, hplus,
    List.append_assoc, List.takeWhile_append]
  split
  · next hlength =>
    rw [List.singleton_append, List.takeWhile_cons_of_neg (by simp), List.append_nil,
      (List.takeWhile_prefix _).eq_of_length hlength]
  · rfl

theorem namespaceName_eq : d.namespaceName
    = match splitLast? '.' d.outermostName.toList with
      | some (front, _) => String.ofList front
      | none => "" := by
  have hname : d.outermostName.toList = d.name.toList.takeWhile (· ≠ '+') := String.toList_ofList
  exact hname ▸ rfl

/-- The namespace has the segments of the outermost name but the last one; that of a name
with one segment is empty. -/
theorem segments_namespaceName : segments d.namespaceName
    = if (segments d.outermostName).dropLast = [] then [[]]
      else (segments d.outermostName).dropLast := by
  rw [namespaceName_eq, segments, segments]
  cases hsplit : splitLast? '.' d.outermostName.toList with
  | none =>
      rw [List.splitOn_eq_singleton (splitLast?_eq_none hsplit)]
      rfl
  | some parts =>
      obtain ⟨front, back⟩ := parts
      obtain ⟨hname, hback⟩ := splitLast?_eq_some hsplit
      rw [hname, List.splitOn_append_cons_self, List.splitOn_eq_singleton hback,
        List.dropLast_concat, if_neg (List.splitOn_ne_nil _ _), String.toList_ofList]

end Definition

/-! ## The condition -/

namespace Filter

/-- **Namespaces are left out by whole segments,** and with them the types nested in those
that are left out. -/
theorem excludeNamespaces_iff (f : Filter) (outers : List String) (d : Definition) :
    ((f.excludeNamespaces outers).accepts d = false
        ↔ f.accepts d = false ∨ ∃ outer ∈ outers, segments outer <+: segments d.namespaceName)
      ∧ (segments d.namespaceName = if (segments d.outermostName).dropLast = [] then [[]]
          else (segments d.outermostName).dropLast)
      ∧ ((excludeNamespaces [] [""]).accepts d = false
          ↔ (segments d.namespaceName).head? = some [])
      ∧ ∀ (e : Definition) (nested : String),
          (excludeNamespaces [] outers).accepts { e with name := d.name ++ "+" ++ nested }
            = (excludeNamespaces [] outers).accepts d := by
  have hrejects : ∀ (g : Filter) (outers : List String),
      (g.excludeNamespaces outers).accepts d = false
        ↔ g.accepts d = false ∨ ∃ outer ∈ outers, segments outer <+: segments d.namespaceName := by
    intro g outers
    rw [accepts_excludeNamespaces, Bool.and_eq_false_iff]
    simp only [Predicate.excludeNamespaces, Bool.not_eq_false', List.any_eq_true, inNamespace_iff]
  refine ⟨hrejects f outers, d.segments_namespaceName, ?_, fun e nested => ?_⟩
  · have haccepts : ¬ accepts [] d = false := by rw [Bool.not_eq_false]; rfl
    rw [hrejects, or_iff_right haccepts, List.head?_eq_some_iff]
    simp only [List.mem_singleton, exists_eq_left]
    exact exists_congr fun rest => eq_comm
  · rw [accepts_excludeNamespaces, accepts_excludeNamespaces]
    simp only [Predicate.excludeNamespaces, Definition.namespaceName_eq,
      Definition.outermostName_nested]
    rfl

end Filter

end ApiBaseline
