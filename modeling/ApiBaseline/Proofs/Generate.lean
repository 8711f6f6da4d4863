import ApiBaseline.Diff
import ApiBaseline.Generate
import Mathlib.Data.List.Forall2

/-!
# What a generated document holds

A document that is generated at all has one record for every accepted
definition (`mem_types_iff`), and a record has what the members of its
definition are classified as (`mem_members_iff`). The identifier of a type says
nothing of its members, so it can be told from the head of the record
(`typeIds_generate`).
-/

namespace ApiBaseline

/-! ## How steps end -/

theorem bind_eq_ok {ε α β : Type} {e : Except ε α} {f : α → Except ε β} {b : β}
    (h : e >>= f = .ok b) : ∃ a, e = .ok a ∧ f a = .ok b := by
  cases e with
  | error e => cases h
  | ok a => exact ⟨a, rfl, h⟩

theorem bind_eq_error {ε α β : Type} {result : Except ε α} {f : α → Except ε β} {e : ε}
    (h : result >>= f = .error e) : result = .error e ∨ ∃ a, result = .ok a ∧ f a = .error e := by
  cases result with
  | error e' => exact Or.inl (congrArg _ (Except.error.inj h))
  | ok a => exact Or.inr ⟨a, rfl, h⟩

theorem map_eq_ok {ε α β : Type} {g : α → β} {result : Except ε α} {b : β}
    (h : result.map g = .ok b) : ∃ a, result = .ok a ∧ b = g a := by
  cases result with
  | ok a => exact ⟨a, rfl, (Except.ok.inj h).symm⟩
  | error e => cases h

theorem map_eq_error {ε α β : Type} {g : α → β} {result : Except ε α} {e : ε}
    (h : result.map g = .error e) : result = .error e := by
  cases result with
  | ok a => cases h
  | error e' => exact congrArg _ (Except.error.inj h)

theorem mapM_eq_ok {ε α β : Type} {f : α → Except ε β} {xs : List α} {ys : List β}
    (h : xs.mapM f = .ok ys) : List.Forall₂ (fun x y => f x = .ok y) xs ys := by
  induction xs generalizing ys with
  | nil =>
      obtain rfl := Except.ok.inj h
      exact .nil
  | cons x xs ih =>
      rw [List.mapM_cons] at h
      obtain ⟨y, hx, h⟩ := bind_eq_ok h
      obtain ⟨rest, hxs, h⟩ := bind_eq_ok h
      obtain rfl := Except.ok.inj h
      exact .cons hx (ih hxs)

/-- The results are those of the single steps. -/
theorem mem_of_mapM_eq_ok {ε α β : Type} {f : α → Except ε β} {xs : List α} {ys : List β}
    (h : xs.mapM f = .ok ys) (y : β) : y ∈ ys ↔ ∃ x ∈ xs, f x = .ok y := by
  have hall := mapM_eq_ok h
  clear h
  induction hall with
  | nil => simp
  | cons hx _ ih =>
      simp only [List.mem_cons, exists_eq_or_imp, hx, Except.ok.injEq, ih]
      exact or_congr_left eq_comm

theorem map_of_mapM_eq_ok {ε α β γ : Type} {f : α → Except ε β} {g : β → γ} {k : α → γ}
    {xs : List α} {ys : List β} (h : xs.mapM f = .ok ys)
    (hk : ∀ x y, f x = .ok y → g y = k x) : ys.map g = xs.map k := by
  have hall := mapM_eq_ok h
  clear h
  induction hall with
  | nil => rfl
  | cons hx _ ih => rw [List.map_cons, List.map_cons, hk _ _ hx, ih]

theorem exists_of_mapM_eq_ok {ε α β : Type} {f : α → Except ε β} {xs : List α} {ys : List β}
    (h : xs.mapM f = .ok ys) {x : α} (hx : x ∈ xs) : ∃ y, f x = .ok y := by
  have hall := mapM_eq_ok h
  clear h
  induction hall with
  | nil => exact absurd hx List.not_mem_nil
  | cons hy _ ih =>
      rcases List.mem_cons.mp hx with rfl | hx
      · exact ⟨_, hy⟩
      · exact ih hx

theorem mapM_congr_of_mem {ε α β : Type} {f g : α → Except ε β} {xs : List α}
    (h : ∀ x ∈ xs, f x = g x) : xs.mapM f = xs.mapM g := by
  induction xs with
  | nil => rfl
  | cons x xs ih =>
      have htail := ih fun y hy => h y (List.mem_cons_of_mem x hy)
      rw [List.mapM_cons, List.mapM_cons, h x List.mem_cons_self, htail]

theorem mapM_eq_ok_map {ε α β : Type} {f : α → Except ε β} {g : α → β} {xs : List α}
    (h : ∀ x ∈ xs, f x = .ok (g x)) : xs.mapM f = .ok (xs.map g) := by
  rw [mapM_congr_of_mem (g := fun x => pure (g x)) h, List.mapM_pure]
  rfl

/-! ## Records -/

theorem MemberContext.classify_method {c : MemberContext} {position : Nat} {x : Method}
    {r : MemberRecord} :
    c.classify position (.method x) = .ok (some r) ↔ c.method position x = .ok r := by
  rw [classify]
  cases c.method position x with
  | error e => exact ⟨nofun, nofun⟩
  | ok r' => simp [Except.map]

namespace Module

variable {m : Module} {d : Definition} {t : TypeRecord}

theorem classify_eq_ok (h : m.classify d = .ok t) :
    ∃ members, (m.memberContext d).classifyAll = .ok members
      ∧ t = { m.typeHead d with members := members } := by
  obtain ⟨members, hmembers, h⟩ := bind_eq_ok h
  exact ⟨members, hmembers, (Except.ok.inj h).symm⟩

theorem id_of_classify (h : m.classify d = .ok t) : t.id = (m.typeHead d).id := by
  obtain ⟨members, -, rfl⟩ := classify_eq_ok h
  rfl

/-- A type's record holds the records of its members and no others. -/
theorem mem_members_iff (h : m.classify d = .ok t) (r : MemberRecord) :
    r ∈ t.members ↔ ∃ p ∈ d.members.zipIdx,
      (m.memberContext d).classify p.2 p.1 = .ok (some r) := by
  obtain ⟨members, hmembers, rfl⟩ := classify_eq_ok h
  obtain ⟨records, hrecords, hmembers⟩ := bind_eq_ok hmembers
  obtain rfl := Except.ok.inj hmembers
  rw [List.mem_filterMap]
  simp only [id, exists_eq_right]
  exact mem_of_mapM_eq_ok hrecords (some r)

/-- The record of a declared method stands in the record of its type. -/
theorem mem_members_of_method {position : Nat} {x : Method} {r : MemberRecord}
    (h : m.classify d = .ok t) (hx : (position, x) ∈ d.methods)
    (hr : (m.memberContext d).method position x = .ok r) : r ∈ t.members := by
  obtain ⟨⟨member, i⟩, hmem, hmethod⟩ := List.mem_filterMap.mp hx
  obtain ⟨y, hy, hpair⟩ := Option.map_eq_some_iff.mp hmethod
  obtain ⟨rfl, rfl⟩ := Prod.mk.inj hpair
  refine (mem_members_iff h r).mpr ⟨(member, i), hmem, ?_⟩
  cases member with
  | method z =>
      obtain rfl := Option.some.inj hy
      exact MemberContext.classify_method.mpr hr
  | constructor z => exact absurd hy nofun
  | field z => exact absurd hy nofun
  | property name => exact absurd hy nofun
  | event name => exact absurd hy nofun
  | nestedType name => exact absurd hy nofun
  | unsupported => exact absurd hy nofun

/-! ## Documents -/

variable {f : Filter} {document : Document}

/-- The definitions that a document is about, in its order. -/
def accepted (m : Module) (f : Filter) : List Definition := m.manifest.types.filter f.accepts

theorem accepted_nil (m : Module) : m.accepted [] = m.manifest.types :=
  List.filter_eq_self.mpr fun _ _ => rfl

theorem generate_eq_ok (h : m.generate f = .ok document) :
    (m.accepted f).mapM m.classify = .ok document.types := by
  obtain ⟨types, htypes, h⟩ := bind_eq_ok h
  obtain rfl := Except.ok.inj h
  exact htypes

/-- A document holds the records of the accepted definitions and no others. -/
theorem mem_types_iff (h : m.generate f = .ok document) (t : TypeRecord) :
    t ∈ document.types ↔ ∃ d ∈ m.accepted f, m.classify d = .ok t :=
  mem_of_mapM_eq_ok (generate_eq_ok h) t

theorem typeIds_generate (h : m.generate f = .ok document) :
    document.typeIds = (m.accepted f).map fun d => (m.typeHead d).id :=
  map_of_mapM_eq_ok (generate_eq_ok h) fun _ _ => id_of_classify

theorem exists_classify (h : m.generate f = .ok document) (hd : d ∈ m.accepted f) :
    ∃ t, m.classify d = .ok t :=
  exists_of_mapM_eq_ok (generate_eq_ok h) hd

/-- A module has a document when every accepted definition has a record. The
document lists the records in the order of the definitions. -/
theorem generate_eq_ok_iff : m.generate f = .ok document
    ↔ ∃ record : Definition → TypeRecord,
        (∀ d ∈ m.accepted f, m.classify d = .ok (record d))
          ∧ document = ⟨m.manifest.identity, (m.accepted f).map record⟩ := by
  constructor
  · intro h
    obtain ⟨types, htypes, hdocument⟩ := bind_eq_ok h
    obtain rfl := Except.ok.inj hdocument
    let record : Definition → TypeRecord := fun d =>
      (m.classify d).toOption.getD (m.typeHead d)
    have hrecord : ∀ d t, m.classify d = .ok t → t = record d := by
      intro d t ht
      simp only [record, ht]
      rfl
    refine ⟨record, fun d hd => ?_, ?_⟩
    · obtain ⟨t, ht⟩ := exists_of_mapM_eq_ok htypes hd
      rw [ht, ← hrecord d t ht]
    · have hmap := map_of_mapM_eq_ok (g := id) htypes hrecord
      rw [List.map_id] at hmap
      rw [hmap, accepted]
  · rintro ⟨record, hrecord, rfl⟩
    rw [generate, ← accepted, mapM_eq_ok_map hrecord]
    rfl

end Module

end ApiBaseline
