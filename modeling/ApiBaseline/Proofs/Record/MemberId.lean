import ApiBaseline.Proofs.Classify.Explicit
import ApiBaseline.Proofs.Record.ParameterList

/-!
# Identifiers of members

The identifier of a method or constructor holds all that a caller writes. Where the names in
a manifest are plain, and no text that is a default has the characters in it that end its
literal, the identifier tells the name and the parameters (`parameters_of_id`): the first
parenthesis stands in front of the parameters, and the last space that follows no comma
stands in front of the name.

The condition on texts is needed. They are written between quotes as they are, so one text
with a quote in it can be taken for two defaults with a parameter between them, and two
overloads have one identifier (`stamp_labels_share_id`).
-/

namespace ApiBaseline

/-! ## Plain manifests -/

/-- The names that a member bears, it and its parameters. -/
def Member.ownNames : Member → List String
  | .constructor x | .method x => x.name :: x.params.map (·.name)
  | .field f => [f.name]
  | .property name | .event name | .nestedType name => [name]
  | .unsupported => []

/-- All names in the definition: of types, of generic parameters, of members and of their
parameters. -/
def Definition.allNames (d : Definition) : List String :=
  d.name :: d.types.flatMap (·.typeNames) ++ d.names ++ d.members.flatMap (·.ownNames)

/-- References are well-formed, as they are in every manifest that has been read, and all
names are plain. -/
structure Manifest.IsPlain (M : Manifest) : Prop where
  references : ∀ d ∈ M.definitions, ∀ t ∈ d.types, t.isWellFormed = true
  names : ∀ d ∈ M.definitions, ∀ n ∈ d.allNames, IsPlainName n

theorem TypeRef.isWellFormed_withoutByRef {t : TypeRef} (h : t.isWellFormed = true) :
    t.withoutByRef.isWellFormed = true := by
  cases t <;> exact h

namespace Manifest.IsPlain

variable {M : Manifest} (h : M.IsPlain) {d : Definition} (hd : d ∈ M.definitions)

include h hd

theorem name : IsPlainName d.name := h.names d hd _ (by simp [Definition.allNames])

theorem type {t : TypeRef} (ht : t ∈ d.types) : t.IsPlain where
  types n hn := h.names d hd n (by
    simp only [Definition.allNames, List.cons_append, List.mem_cons, List.mem_append,
      List.mem_flatMap]
    exact Or.inr (Or.inl (Or.inl ⟨t, ht, hn⟩)))
  params n hn := h.names d hd n (by
    simp only [Definition.allNames, Definition.names, List.cons_append, List.mem_cons,
      List.mem_append, List.mem_flatMap]
    exact Or.inr (Or.inl (Or.inr (Or.inr ⟨t, ht, hn⟩))))

theorem param {n : String} (hn : n ∈ d.paramNames) : IsPlainName n := h.names d hd n (by
  simp only [Definition.allNames, Definition.names, List.cons_append, List.mem_cons,
    List.mem_append]
  exact Or.inr (Or.inl (Or.inr (Or.inl (Or.inl hn)))))

variable {member : Member} (hmember : member ∈ d.members)

include hmember

theorem ownName {n : String} (hn : n ∈ member.ownNames) : IsPlainName n := h.names d hd n <|
  List.mem_append_right _ (List.mem_flatMap.mpr ⟨member, hmember, hn⟩)

theorem memberParam {n : String} (hn : n ∈ member.paramNames) : IsPlainName n :=
  h.names d hd n (by
    simp only [Definition.allNames, Definition.names, List.cons_append, List.mem_cons,
      List.mem_append, List.mem_flatMap]
    exact Or.inr (Or.inl (Or.inr (Or.inl (Or.inr ⟨member, hmember, hn⟩)))))

theorem memberType {t : TypeRef} (ht : t ∈ member.types) :
    t.IsPlain ∧ t.isWellFormed = true := by
  have htypes : ∀ t ∈ d.types, t.IsPlain ∧ t.isWellFormed = true := fun t ht =>
    ⟨h.type hd ht, h.references d hd t ht⟩
  exact (Definition.forall_types.mp htypes).2.2.2 member hmember t ht

end Manifest.IsPlain

/-! ## Plain interfaces -/

/-- The references in which a level names what is above it are plain. -/
structure Level.IsPlain (l : Level) : Prop where
  base : ∀ t ∈ l.definition.base, t.IsPlain
  interfaces : ∀ t ∈ l.definition.interfaces, t.IsPlain
  args : ∀ a ∈ l.args, a.IsPlain

namespace Manifest.IsPlain

variable {M : Manifest} (h : M.IsPlain)

include h

theorem level {d : Definition} (hd : d ∈ M.definitions) {args : List TypeRef}
    (hargs : ∀ a ∈ args, a.IsPlain) : (Level.mk d args).IsPlain := by
  obtain ⟨hbase, hinterfaces, -, -⟩ := Definition.forall_types.mp fun _ ht => h.type hd ht
  exact ⟨hbase, hinterfaces, hargs⟩

theorem nextLevel? {seen : List (String × Nat)} {below up : Level} (hbelow : below.IsPlain)
    (hup : (Module.ofManifest M).nextLevel? seen below = some up) : up.IsPlain := by
  obtain ⟨base, hbase, hres, -, hargs⟩ := Module.nextLevel?_eq_some hup
  obtain ⟨b, hb, rfl⟩ := Option.map_eq_some_iff.mp hbase
  refine h.level (Module.resolve_eq_some hres).1 ?_
  rw [hargs]
  exact ((hbelow.base b hb).substitute _ hbelow.args).args

theorem parents {i : TypeRef} (hi : i.IsPlain) :
    ∀ j ∈ (Module.ofManifest M).parents i, j.IsPlain := by
  unfold Module.parents
  cases hres : (Module.ofManifest M).resolve i with
  | none => exact fun _ hj => absurd hj List.not_mem_nil
  | some known =>
      intro j hj
      obtain ⟨t, ht, rfl⟩ := List.mem_map.mp hj
      exact ((h.level (Module.resolve_eq_some hres).1 hi.args).interfaces t ht).substitute _ hi.args

theorem leads {i j : TypeRef} (hi : i.IsPlain)
    (hlead : Leads (Module.ofManifest M).parents i j) : j.IsPlain := by
  induction hlead with
  | refl => exact hi
  | tail _ hstep ih => exact h.parents ih _ hstep

/-- The interfaces of a type are plain. -/
theorem allInterfaces {d : Definition} (hd : d ∈ M.definitions) :
    ∀ i ∈ (Module.ofManifest M).allInterfaces d, i.IsPlain := by
  have hown : ∀ a ∈ d.ownArgs, a.IsPlain := by
    intro a ha
    obtain ⟨p, hp, rfl⟩ := List.mem_map.mp ha
    exact ⟨fun _ hn => absurd hn List.not_mem_nil, fun n hn =>
      List.mem_singleton.mp hn ▸ h.param hd (List.mem_map_of_mem hp)⟩
  have hlevels : ∀ l ∈ (Module.ofManifest M).hierarchy d, l.IsPlain :=
    Module.climb_invariant (fun _ _ _ hl hup => h.nextLevel? hl hup) (h.level hd hown)
  intro i hi
  obtain ⟨j, hj, hlead⟩ := Module.allInterfaces_sound hi
  obtain ⟨l, hl, hdeclared⟩ := List.mem_flatMap.mp hj
  obtain ⟨t, ht, rfl⟩ := List.mem_map.mp hdeclared
  exact h.leads (((hlevels l hl).interfaces t ht).substitute _ (hlevels l hl).args) hlead

end Manifest.IsPlain

/-! ## Legible records -/

namespace MemberRecord

/-- The name and the parameters of the record can be told from its identifier. -/
structure IsLegible (r : MemberRecord) : Prop where
  name : IsTidy r.name.toList
  parameters : ∀ p ∈ r.parameters, p.IsLegible
  type : r.kind = .method → IsWord r.typeText.toList

/-- The words in front of a method's type. -/
def modifiers (m : MemberRecord) : List String :=
  if m.explicitInterface.isSome then []
  else m.visibility.keyword :: wordsWhen [(m.isNew, "new"), (m.isStatic, "static")]
    ++ m.overrideWords

/-- All words that access and modifiers are written with. -/
def modifierWords : List String :=
  ["public", "protected internal", "protected", "private", "internal", "new", "static", "sealed",
    "abstract", "override", "virtual"]

variable {r s : MemberRecord}

theorem keyword_mem (a : Accessibility) : a.keyword ∈ modifierWords := by
  cases a <;> decide

theorem constructorWords_subset (r : MemberRecord) : r.constructorWords ⊆ modifierWords := by
  refine List.cons_subset.mpr ⟨keyword_mem _, fun w hw => ?_⟩
  have hrows : ["static"] ⊆ modifierWords := by decide
  exact hrows (mem_of_mem_wordsWhen hw)

theorem overrideWords_subset (r : MemberRecord) : r.overrideWords ⊆ modifierWords := by
  have hrows : ["sealed", "abstract", "override"] ⊆ modifierWords
      ∧ ["abstract"] ⊆ modifierWords ∧ ["virtual"] ⊆ modifierWords := by decide
  unfold overrideWords
  split
  · exact fun w hw => hrows.1 (mem_of_mem_wordsWhen hw)
  · split
    · exact hrows.2.1
    · exact fun w hw => hrows.2.2 (mem_of_mem_wordsWhen hw)

theorem modifiers_subset (r : MemberRecord) : r.modifiers ⊆ modifierWords := by
  have hrows : ["new", "static"] ⊆ modifierWords := by decide
  unfold modifiers
  split
  · exact List.nil_subset _
  · refine List.append_subset.mpr ⟨List.cons_subset.mpr ⟨keyword_mem _, fun w hw => ?_⟩,
      r.overrideWords_subset⟩
    exact hrows (mem_of_mem_wordsWhen hw)

theorem paren_not_mem_spaced {ws : List String} (h : ws ⊆ modifierWords) : '(' ∉ spaced ws := by
  have hwords : ∀ w ∈ modifierWords, '(' ∉ w.toList ++ [' '] := by decide
  intro hmem
  obtain ⟨w, hw, hparen⟩ := List.mem_flatMap.mp hmem
  exact hwords w (h hw) hparen

theorem toList_intercalate {ws : List String} (hne : ws ≠ []) :
    (" ".intercalate ws ++ " ").toList = spaced ws := by
  induction ws with
  | nil => exact absurd rfl hne
  | cons w ws ih =>
      cases ws with
      | nil => simp [String.intercalate_singleton, spaced]
      | cons v ws =>
          rw [String.intercalate_cons_cons, spaced_cons, ← ih (List.cons_ne_nil v ws)]
          simp

theorem id_constructor (h : r.kind = .constructor) : r.id.toList
    = spaced r.constructorWords ++ r.name.toList
      ++ '(' :: (listChars r.isExtension r.parameters ++ ')' :: []) := by
  have hwords : (" ".intercalate r.constructorWords ++ " ").toList = spaced r.constructorWords :=
    toList_intercalate (List.cons_ne_nil _ _)
  simp only [id, h, String.toList_append, parameterList_toList] at hwords ⊢
  rw [hwords]
  simp

theorem id_method (h : r.kind = .method) : r.id.toList
    = spaced r.modifiers ++ r.typeText.toList ++ ' ' :: r.name.toList
      ++ '(' :: (listChars r.isExtension r.parameters
        ++ ')' :: (constraintClause r.constraints).toList) := by
  have hne : r.modifiers ++ [r.typeText] ≠ [] := by simp
  have hwords : (" ".intercalate r.methodWords ++ " ").toList
      = spaced (r.modifiers ++ [r.typeText]) := toList_intercalate hne
  simp only [id, h, String.toList_append, parameterList_toList] at hwords ⊢
  rw [hwords, spaced_append, spaced_cons]
  simp [spaced]

/-- The parameters stand behind the first parenthesis. -/
theorem parameters_of_front {front front' rest rest' : List Char} (hr : r.IsLegible)
    (hs : s.IsLegible) (hfront : '(' ∉ front) (hfront' : '(' ∉ front')
    (h : front ++ '(' :: (listChars r.isExtension r.parameters ++ ')' :: rest)
      = front' ++ '(' :: (listChars s.isExtension s.parameters ++ ')' :: rest')) :
    front = front' ∧ r.parameters = s.parameters := by
  obtain ⟨hsame, -, hlist⟩ := eq_of_append_cons (p := (· = '('))
    (fun c hc hparen => hfront (hparen ▸ hc)) (fun c hc hparen => hfront' (hparen ▸ hc))
    rfl rfl h
  exact ⟨hsame, eq_of_listed hr.parameters hs.parameters hlist⟩

namespace IsLegible

theorem parameters_of_constructor (hr : r.IsLegible) (hs : s.IsLegible)
    (hkind : r.kind = .constructor) (hkind' : s.kind = .constructor) (hid : r.id = s.id) :
    r.parameters = s.parameters := by
  have hparen : ∀ m : MemberRecord, m.IsLegible →
      '(' ∉ spaced m.constructorWords ++ m.name.toList := fun m hm => by
    rw [List.mem_append, not_or]
    exact ⟨paren_not_mem_spaced m.constructorWords_subset,
      fun hmem => hm.name.plain _ hmem (by decide)⟩
  have hchars := congrArg String.toList hid
  rw [id_constructor hkind, id_constructor hkind'] at hchars
  exact (parameters_of_front hr hs (hparen r hr) (hparen s hs) hchars).2

theorem parameters_of_method (hr : r.IsLegible) (hs : s.IsLegible) (hkind : r.kind = .method)
    (hkind' : s.kind = .method) (hid : r.id = s.id) :
    r.name = s.name ∧ r.parameters = s.parameters := by
  have hparen : ∀ m : MemberRecord, m.IsLegible → m.kind = .method →
      '(' ∉ spaced m.modifiers ++ m.typeText.toList ++ ' ' :: m.name.toList := by
    intro m hm hmethod
    simp only [List.mem_append, List.mem_cons, not_or]
    exact ⟨⟨paren_not_mem_spaced m.modifiers_subset,
      fun hmem => (hm.type hmethod).plain _ hmem (by decide)⟩, by decide,
      fun hmem => hm.name.plain _ hmem (by decide)⟩
  -- The type is the last word in front of the name.
  have hlast : ∀ m : MemberRecord, m.IsLegible → m.kind = .method →
      (spaced m.modifiers ++ m.typeText.toList).getLast? ≠ some ',' := by
    intro m hm hmethod
    obtain ⟨c, hc, hne⟩ := (hm.type hmethod).ends
    rw [List.getLast?_append, hc]
    exact fun heq => hne (Option.some.inj heq)
  have hchars := congrArg String.toList hid
  rw [id_method hkind, id_method hkind'] at hchars
  obtain ⟨hfront, hparameters⟩ :=
    parameters_of_front hr hs (hparen r hr hkind) (hparen s hs hkind') hchars
  obtain ⟨-, hname⟩ := hr.name.spaced.unique_last hs.name.spaced (hlast r hr hkind)
    (hlast s hs hkind') hfront
  exact ⟨String.toList_inj.mp hname, hparameters⟩

end IsLegible

end MemberRecord

/-! ## Records of a plain manifest -/

theorem subset_of_splitLast? {c : Char} {cs front back : List Char}
    (h : splitLast? c cs = some (front, back)) : back ⊆ cs := by
  induction cs generalizing front with
  | nil => cases h
  | cons d ds ih =>
      rw [splitLast?] at h
      split at h
      · next front' back' hrest =>
        obtain ⟨-, rfl⟩ := Prod.mk.inj (Option.some.inj h)
        exact fun e he => List.mem_cons_of_mem d (ih hrest he)
      · split at h
        · obtain ⟨-, rfl⟩ := Prod.mk.inj (Option.some.inj h)
          exact List.subset_cons_self d ds
        · cases h

theorem Definition.simpleName_subset (d : Definition) :
    d.simpleName.toList ⊆ d.name.toList := by
  unfold simpleName
  dsimp only
  split
  · next hsplit =>
    rw [String.toList_ofList]
    exact subset_of_splitLast? hsplit
  · split
    · next hsplit =>
      rw [String.toList_ofList]
      exact subset_of_splitLast? hsplit
    · exact List.Subset.refl _

/-- The names in the method are plain, and its references are well-formed. -/
structure Method.IsPlain (x : Method) : Prop where
  name : IsPlainName x.name
  generics : ∀ n ∈ genericNames x.genericParams, IsPlainName n
  params : ∀ p ∈ x.params, IsPlainName p.name
  types : ∀ t ∈ x.types, t.IsPlain ∧ t.isWellFormed = true

theorem Manifest.IsPlain.method {M : Manifest} (h : M.IsPlain) {d : Definition}
    (hd : d ∈ M.definitions) {member : Member} (hmember : member ∈ d.members) {x : Method}
    (hx : member.callable? = some x) : x.IsPlain := by
  have hown : member.ownNames = x.name :: x.params.map (·.name)
      ∧ member.paramNames = genericNames x.genericParams ∧ member.types = x.types := by
    cases member with
    | constructor y => obtain rfl := Option.some.inj hx; exact ⟨rfl, rfl, rfl⟩
    | method y => obtain rfl := Option.some.inj hx; exact ⟨rfl, rfl, rfl⟩
    | field f => cases hx
    | property name => cases hx
    | event name => cases hx
    | nestedType name => cases hx
    | unsupported => cases hx
  obtain ⟨hnames, hgenerics, htypes⟩ := hown
  have hplain : ∀ n ∈ x.name :: x.params.map (·.name), IsPlainName n := fun n hn =>
    h.ownName hd hmember (hnames ▸ hn)
  rw [List.forall_mem_cons, List.forall_mem_map] at hplain
  exact ⟨hplain.1, fun n hn => h.memberParam hd hmember (hgenerics ▸ hn), hplain.2,
    fun t ht => h.memberType hd hmember (htypes ▸ ht)⟩

/-- The defaults of the method's parameters have an end. -/
def Method.HasClosedDefaults (x : Method) : Prop := ∀ p ∈ x.params, p.HasClosedDefault

theorem Module.isLegible_parameterRecord {m : Module} {owner : String} {p : Parameter}
    {r : ParameterRecord} (hr : m.parameterRecord owner p = .ok r) (hclosed : p.HasClosedDefault)
    (hname : IsPlainName p.name) (htype : p.type.IsPlain) (hwf : p.type.isWellFormed = true) :
    r.IsLegible := by
  rw [parameterRecord_eq_map] at hr
  obtain ⟨literal, hliteral, rfl⟩ := map_eq_ok hr
  refine ⟨htype.withoutByRef.isWord (TypeRef.isWellFormed_withoutByRef hwf), hname, ?_⟩
  rintro l rfl
  exact isLiteral_of_defaultLiteral hliteral hclosed

namespace MemberContext

variable {c : MemberContext} {position : Nat} {x : Method} {r : MemberRecord}
  (hplain : x.IsPlain) (hclosed : x.HasClosedDefaults)

include hplain hclosed

theorem isLegible_parameters {ps : List ParameterRecord} (h : c.parameters x = .ok ps) :
    ∀ p ∈ ps, p.IsLegible := by
  intro p hp
  obtain ⟨q, hq, hrecord⟩ := (mem_of_mapM_eq_ok h p).mp hp
  obtain ⟨-, hparams, -⟩ := Method.forall_types.mp hplain.types
  exact Module.isLegible_parameterRecord hrecord (hclosed q hq) (hplain.params q hq)
    (hparams q hq).1 (hparams q hq).2

theorem isLegible_constructor (hname : IsPlainName c.definition.name)
    (hr : c.constructor x = .ok r) : r.IsLegible := by
  obtain ⟨parameters, hparameters, hr⟩ := bind_eq_ok hr
  obtain rfl := Except.ok.inj hr
  refine ⟨?_, isLegible_parameters hplain hclosed hparameters, nofun⟩
  have hsimple : IsPlainName c.definition.simpleName := fun d hd =>
    hname d (c.definition.simpleName_subset hd)
  exact hsimple.isTidy

omit hplain hclosed

theorem constructor_eq_ok (hr : c.constructor x = .ok r) :
    r.kind = .constructor ∧ r.name = c.definition.simpleName := by
  obtain ⟨parameters, -, hr⟩ := bind_eq_ok hr
  obtain rfl := Except.ok.inj hr
  exact ⟨rfl, rfl⟩

/-- What has parameters is recorded as a constructor or as a method. -/
theorem classify_callable {member : Member} (hx : member.callable? = some x)
    (hr : c.classify position member = .ok (some r)) :
    c.constructor x = .ok r ∨ (r.kind = .method ∧ c.method position x = .ok r) := by
  cases member with
  | constructor y =>
      obtain rfl := Option.some.inj hx
      obtain ⟨r', hr', heq⟩ := map_eq_ok hr
      obtain rfl := Option.some.inj heq
      exact Or.inl hr'
  | method y =>
      obtain rfl := Option.some.inj hx
      have hmethod := classify_method.mp hr
      exact Or.inr ⟨(Option.some.inj (isOf_method hmethod).1).symm, hmethod⟩
  | field f => cases hx
  | property name => cases hx
  | event name => cases hx
  | nestedType name => cases hx
  | unsupported => cases hx

end MemberContext

namespace Module

section

variable {M : Manifest} (h : M.IsPlain) {d : Definition} (hd : d ∈ M.definitions)
  {position : Nat} {x : Method} (hplain : x.IsPlain)

include h hd hplain

/-- An interface that qualifies the name of a method is plain. -/
theorem isTidy_methodName : IsTidy (MemberContext.methodName
    (((ofManifest M).memberContext d).interfaces.explicit? position x) x).toList := by
  have hgenerics : ∀ part ∈ x.genericParams.map (·.name), IsTidy part.toList := fun n hn =>
    (hplain.generics n hn).isTidy
  have hsuffix : IsTidy (genericSuffix x.genericParams).toList := .list hgenerics
  unfold MemberContext.methodName
  rw [String.toList_append]
  refine .append ?_ hsuffix
  cases hexplicit : ((ofManifest M).memberContext d).interfaces.explicit? position x with
  | none => exact hplain.name.isTidy
  | some i =>
      obtain ⟨-, -, htable⟩ := InterfaceTable.explicit?_eq_some_iff.mp hexplicit
      obtain ⟨before, after, hlist, -⟩ := implemented?_eq_some_iff.mp htable
      have hi := h.allInterfaces hd i (by rw [hlist]; simp)
      have hdot : IsTidy ".".toList := .of_plain (by decide)
      simp only [String.toList_append]
      exact (hi.isTidy.append hdot).append hplain.name.isTidy

theorem isLegible_method (hclosed : x.HasClosedDefaults) {r : MemberRecord}
    (hr : ((ofManifest M).memberContext d).method position x = .ok r) : r.IsLegible := by
  obtain ⟨parameters, hparameters, hr⟩ := bind_eq_ok hr
  obtain rfl := Except.ok.inj hr
  obtain ⟨htype, -⟩ := Method.forall_types.mp hplain.types
  exact ⟨isTidy_methodName h hd hplain,
    MemberContext.isLegible_parameters hplain hclosed hparameters, fun _ => htype.1.isWord htype.2⟩

omit hplain

/-- **Identifiers tell parameters.** In a plain manifest, two methods or two constructors of
a type that are recorded with one identifier are recorded with one name and the same
parameters, if their defaults have an end. -/
theorem parameters_of_id {i j : Nat} {a b : Member} {x y : Method}
    (ha : d.members[i]? = some a) (hb : d.members[j]? = some b) (hx : a.callable? = some x)
    (hy : b.callable? = some y) (hxclosed : x.HasClosedDefaults) (hyclosed : y.HasClosedDefaults)
    {r s : MemberRecord}
    (hr : ((ofManifest M).memberContext d).classify i a = .ok (some r))
    (hs : ((ofManifest M).memberContext d).classify j b = .ok (some s))
    (hkind : r.kind = s.kind) (hid : r.id = s.id) :
    r.name = s.name ∧ r.parameters = s.parameters := by
  have hxplain := h.method hd (List.mem_of_getElem? ha) hx
  have hyplain := h.method hd (List.mem_of_getElem? hb) hy
  rcases MemberContext.classify_callable hx hr with hr | ⟨hrkind, hr⟩
  · obtain ⟨hrkind, hrname⟩ := MemberContext.constructor_eq_ok hr
    rcases MemberContext.classify_callable hy hs with hs | ⟨hskind, -⟩
    · obtain ⟨hskind, hsname⟩ := MemberContext.constructor_eq_ok hs
      have hrlegible := MemberContext.isLegible_constructor hxplain hxclosed (h.name hd) hr
      have hslegible := MemberContext.isLegible_constructor hyplain hyclosed (h.name hd) hs
      exact ⟨hrname.trans hsname.symm,
        hrlegible.parameters_of_constructor hslegible hrkind hskind hid⟩
    · rw [hrkind, hskind] at hkind
      cases hkind
  · rcases MemberContext.classify_callable hy hs with hs | ⟨hskind, hs⟩
    · rw [hrkind, (MemberContext.constructor_eq_ok hs).1] at hkind
      cases hkind
    · exact (isLegible_method h hd hxplain hxclosed hr).parameters_of_method
        (isLegible_method h hd hyplain hyclosed hs) hrkind hskind hid

end

/-! ## A stamp -/

/-- A line of text, with a text in case that there is none. -/
def textLine (name : String) (default : String) : Parameter :=
  { Parameter.plain name (.named "System.String" []) with
    isOptional := true
    hasDefault := true
    default := some (.text default) }

/-- Labels what stands on the lines. -/
def label (lines : List Parameter) : Method :=
  { Method.plain "Label" with params := lines }

/-- Books under two keys, in the name of which there are commas. -/
def keyedBooks : Parameter :=
  { textLine "books" "" with
    type := .named "Map" [.array (.named "Key" []) 2, .named "Book" []], hasDefault := false }

/-- A mark that is not recorded, at the first line. -/
def stamp : Definition :=
  openClass "Stamp" [] none [label [textLine "first" "x, y", keyedBooks],
    label [{ textLine "first" "x, y" with isIn := true }, keyedBooks]]

theorem stamp_labels_alike : ∃ r s,
    ((ofManifest (library [stamp])).memberContext stamp).classify 0
        (.method (label [textLine "first" "x, y", keyedBooks])) = .ok (some r)
      ∧ ((ofManifest (library [stamp])).memberContext stamp).classify 1
        (.method (label [{ textLine "first" "x, y" with isIn := true }, keyedBooks]))
          = .ok (some s)
      ∧ r.id = s.id ∧ r.name = s.name ∧ r.parameters = s.parameters := by
  have hplain : (library [stamp]).IsPlain := ⟨by decide, by decide⟩
  have hbooks : keyedBooks.HasClosedDefault := fun _ hdefault => by cases hdefault
  have hline : ∀ b, Parameter.HasClosedDefault { textLine "first" "x, y" with isIn := b } := by
    rintro b s - hs
    obtain rfl : "x, y" = s := by simpa [textLine] using hs
    cases b <;> decide
  have hclosed : ∀ b, Method.HasClosedDefaults
      (label [{ textLine "first" "x, y" with isIn := b }, keyedBooks]) := fun b =>
    List.forall_mem_cons.mpr ⟨hline b, List.forall_mem_singleton.mpr hbooks⟩
  refine ⟨_, _, rfl, rfl, ?_, ?_⟩
  · decide
  · exact parameters_of_id hplain List.mem_cons_self (i := 0) (j := 1) rfl rfl rfl rfl
      (hclosed false) (hclosed true) rfl rfl rfl (by decide)

/-- One line, with the end of its text, another line and the begin of its text in it. -/
def brokenStamp : Definition :=
  openClass "Stamp" [] none [label [textLine "first" "x", textLine "second" "y"],
    label [textLine "first" "x\", System.String second = \"y"]]

/-- A text is written as it is, so one line is taken for two. -/
theorem stamp_labels_share_id : (library [brokenStamp]).IsPlain ∧ ∃ r s,
    ((ofManifest (library [brokenStamp])).memberContext brokenStamp).classify 0
        (.method (label [textLine "first" "x", textLine "second" "y"])) = .ok (some r)
      ∧ ((ofManifest (library [brokenStamp])).memberContext brokenStamp).classify 1
        (.method (label [textLine "first" "x\", System.String second = \"y"])) = .ok (some s)
      ∧ r.kind = s.kind ∧ r.id = s.id ∧ r.parameters ≠ s.parameters :=
  ⟨⟨by decide, by decide⟩, _, _, rfl, rfl, rfl, by decide, by decide⟩

end Module

end ApiBaseline
