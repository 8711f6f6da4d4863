import ApiBaseline.Proofs.Classify.Renaming
import ApiBaseline.Proofs.Generate
import ApiBaseline.Proofs.TypeRef.Spelling
import Mathlib.Data.List.Nodup

/-!
# Names of records

A record bears the canonical name of its definition. As long as names hold no
comma and no angle bracket, that name can be taken apart again: into the name of
the definition and the names of its parameters (`canonicalName_inj`), the number
of which is the arity. So definitions of one name and different arity have
different canonical names.

Whether a name is unique in a document is then a question about the entries of
the manifest. A look-up finds the first entry of a name and arity, but a document
has a record for every entry that is accepted (`canonicalNames_generate`). An
entry that is repeated gets two records (`repeated_entry_recorded_twice`).
-/

namespace ApiBaseline

/-! ## Names taken apart -/

theorem flatMap_comma_eq_intercalate (first : List Char) (rest : List (List Char)) :
    first ++ rest.flatMap (',' :: ·) = [','].intercalate (first :: rest) := by
  induction rest generalizing first with
  | nil => simp
  | cons second rest ih =>
      rw [List.intercalate_cons_cons, ← ih second, List.flatMap_cons]
      simp

/-- Between commas stand the parts of a list, with the spaces that follow commas. -/
theorem splitOn_parts {part : String} {parts : List String}
    (h : ∀ p ∈ part :: parts, ',' ∉ p.toList) :
    (part.toList ++ parts.flatMap fun p => ',' :: ' ' :: p.toList).splitOn ','
      = part.toList :: parts.map fun p => ' ' :: p.toList := by
  have hjoin := flatMap_comma_eq_intercalate part.toList (parts.map fun p => ' ' :: p.toList)
  rw [List.flatMap_map] at hjoin
  rw [hjoin]
  refine List.splitOn_intercalate ',' ?_ (List.cons_ne_nil _ _)
  simpa using h

theorem angled_inj {ps qs : List String} (hp : ∀ p ∈ ps, ',' ∉ p.toList)
    (hq : ∀ q ∈ qs, ',' ∉ q.toList) : angled ps = angled qs ↔ ps = qs := by
  refine ⟨fun h => ?_, congrArg angled⟩
  have hchars := congrArg String.toList h
  cases ps with
  | nil =>
      cases qs with
      | nil => rfl
      | cons q qs =>
          rw [TypeRef.angled_toList] at hchars
          cases hchars
  | cons p ps =>
      cases qs with
      | nil =>
          rw [TypeRef.angled_toList] at hchars
          cases hchars
      | cons q qs =>
          simp only [TypeRef.angled_toList, List.cons_append, List.cons.injEq, true_and,
            List.append_cancel_right_eq] at hchars
          have hsplit := congrArg (List.splitOn ',') hchars
          rw [splitOn_parts hp, splitOn_parts hq, List.cons.injEq] at hsplit
          obtain ⟨hfirst, hrest⟩ := hsplit
          have hinj : Function.Injective fun p : String => ' ' :: p.toList := fun a b hab =>
            String.toList_inj.mp (List.tail_eq_of_cons_eq hab)
          rw [String.toList_inj.mp hfirst, List.map_injective_iff.mpr hinj hrest]

/-- The names of the definition hold nothing that a canonical name puts between
them. -/
structure Definition.PlainlyNamed (d : Definition) : Prop where
  name : '<' ∉ d.name.toList
  params : ∀ n ∈ d.paramNames, ',' ∉ n.toList

namespace Definition

/-- The name stands in front of the first bracket. -/
theorem takeWhile_canonicalName {d : Definition} (h : '<' ∉ d.name.toList) :
    d.canonicalName.toList.takeWhile (· ≠ '<') = d.name.toList := by
  have hname : ∀ c ∈ d.name.toList, decide (c ≠ '<') = true := by
    intro c hc
    refine decide_eq_true fun heq => h (heq ▸ hc)
  have hsuffix : (genericSuffix d.genericParams).toList.takeWhile (· ≠ '<') = [] := by
    rw [genericSuffix]
    cases d.genericParams with
    | nil => rfl
    | cons p ps =>
        rw [List.map_cons, TypeRef.angled_toList]
        rfl
  rw [canonicalName, String.toList_append, List.takeWhile_append_of_pos hname, hsuffix,
    List.append_nil]

/-- A canonical name tells the name and the names of the parameters. -/
theorem canonicalName_inj {d e : Definition} (hd : d.PlainlyNamed) (he : e.PlainlyNamed) :
    d.canonicalName = e.canonicalName ↔ d.name = e.name ∧ d.paramNames = e.paramNames := by
  constructor
  · intro h
    have hname : d.name = e.name := by
      rw [← String.toList_inj, ← takeWhile_canonicalName hd.name, h,
        takeWhile_canonicalName he.name]
    rw [canonicalName, canonicalName, hname, String.append_right_inj] at h
    exact ⟨hname, (angled_inj hd.params he.params).mp h⟩
  · rintro ⟨hname, hparams⟩
    rw [canonicalName, canonicalName, hname]
    exact congrArg (e.name ++ angled ·) hparams

end Definition

/-! ## Names in a document -/

theorem Module.name_of_classify {m : Module} {d : Definition} {t : TypeRecord}
    (h : m.classify d = .ok t) : t.name = d.canonicalName := by
  obtain ⟨members, -, rfl⟩ := classify_eq_ok h
  rfl

section

variable {ds : List Definition} (hplain : ∀ d ∈ ds, d.PlainlyNamed)

include hplain

theorem count_canonicalName {d : Definition} (hd : d ∈ ds) :
    (ds.map (·.canonicalName)).count d.canonicalName
      = ds.countP fun e => e.name == d.name && e.paramNames == d.paramNames := by
  rw [List.count_eq_countP, List.countP_map]
  refine List.countP_congr fun e he => ?_
  simp [Definition.canonicalName_inj (hplain e he) (hplain d hd)]

theorem nodup_canonicalNames :
    (ds.map (·.canonicalName)).Nodup ↔ (ds.map fun d => (d.name, d.paramNames)).Nodup := by
  rw [List.Nodup, List.Nodup, List.pairwise_map, List.pairwise_map]
  refine List.Pairwise.iff_of_mem fun {d e} hd he => ?_
  rw [ne_eq, ne_eq, Definition.canonicalName_inj (hplain d hd) (hplain e he), Prod.mk.injEq]

end

/-- Distinct names and arities make for distinct names and parameters. -/
theorem nodup_names_of_keys {ds : List Definition} (h : (ds.map (·.key)).Nodup) :
    (ds.map fun d => (d.name, d.paramNames)).Nodup := by
  have hkey : (fun d : Definition => d.key)
      = (fun p : String × List String => (p.1, p.2.length)) ∘ fun d => (d.name, d.paramNames) := by
    funext d
    simp [Definition.key, Definition.arity, Definition.paramNames, genericNames]
  rw [hkey, ← List.map_map] at h
  exact List.Nodup.of_map _ h

/-- Every accepted entry has one record under its canonical name, so a name stands
in a document as often as an entry with the same name and parameters is accepted. -/
theorem Module.canonicalNames_generate {m : Module} {f : Filter} {document : Document}
    (hplain : ∀ d ∈ m.manifest.types, d.PlainlyNamed) (h : m.generate f = .ok document) :
    document.types.map (·.name) = (m.accepted f).map (·.canonicalName)
      ∧ (∀ d ∈ m.accepted f, (document.types.map (·.name)).count d.canonicalName
          = (m.accepted f).countP fun e => e.name == d.name && e.paramNames == d.paramNames)
      ∧ ((document.types.map (·.name)).Nodup
          ↔ ((m.accepted f).map fun d => (d.name, d.paramNames)).Nodup)
      ∧ (((m.accepted f).map (·.key)).Nodup →
          ∀ d ∈ m.accepted f, (document.types.map (·.name)).count d.canonicalName = 1) := by
  have hnames : document.types.map (·.name) = (m.accepted f).map (·.canonicalName) :=
    map_of_mapM_eq_ok (generate_eq_ok h) fun _ _ => name_of_classify
  have hplain' : ∀ d ∈ m.accepted f, d.PlainlyNamed := fun d hd =>
    hplain d (List.mem_of_mem_filter hd)
  rw [hnames]
  refine ⟨rfl, fun d hd => count_canonicalName hplain' hd, nodup_canonicalNames hplain',
    fun hkeys d hd => ?_⟩
  have hnodup := (nodup_canonicalNames hplain').mpr (nodup_names_of_keys hkeys)
  exact List.count_eq_one_of_mem hnodup (List.mem_map_of_mem hd)

/-! ## Shelves -/

def plainShelf : Definition := openClass "Shelf" [] none []

/-- A shelf, a shelf for something, and a slot of the latter. -/
def shelves : List Definition :=
  [plainShelf, openClass "Shelf" ["T"] none [], openClass "Shelf+Slot" ["T"] none []]

theorem shelves_named_once :
    ∃ document, (Module.ofManifest (library shelves)).generate [] = .ok document
      ∧ document.types.map (·.name) = ["Shelf", "Shelf<T>", "Shelf+Slot<T>"]
      ∧ ∀ d ∈ shelves, (document.types.map (·.name)).count d.canonicalName = 1 := by
  have hplain : ∀ d ∈ (Module.ofManifest (library shelves)).manifest.types, d.PlainlyNamed := by
    intro d hd
    have hchars : ∀ d ∈ shelves,
        '<' ∉ d.name.toList ∧ ∀ n ∈ d.paramNames, ',' ∉ n.toList := by decide
    exact ⟨(hchars d hd).1, (hchars d hd).2⟩
  obtain ⟨document, hdocument⟩ : ∃ document,
      (Module.ofManifest (library shelves)).generate [] = .ok document := ⟨_, rfl⟩
  obtain ⟨hnames, -, -, honce⟩ := Module.canonicalNames_generate hplain hdocument
  exact ⟨document, hdocument, hnames.trans (by decide), honce (by decide)⟩

/-- What is listed twice has two records of the same name. -/
theorem repeated_entry_recorded_twice :
    plainShelf.PlainlyNamed ∧ ∃ document,
      (Module.ofManifest (library [plainShelf, plainShelf])).generate [] = .ok document
        ∧ (document.types.map (·.name)).count plainShelf.canonicalName = 2 := by
  refine ⟨⟨by decide, by decide⟩, _, rfl, ?_⟩
  decide

end ApiBaseline
