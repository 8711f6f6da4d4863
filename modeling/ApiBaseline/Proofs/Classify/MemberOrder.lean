import ApiBaseline.Proofs.Classify.Outline
import ApiBaseline.Proofs.Classify.Visible
import ApiBaseline.Proofs.Dispatch.MemberOrder
import ApiBaseline.Proofs.Generate.Faults
import Mathlib.Logic.Equiv.Basic
import Mathlib.Logic.Equiv.Fintype

/-!
# Records and the order of members

The members of one type of a manifest are put in another order. What its methods override
depends on levels above, which stay (`isOverride`), and interfaces are found again at the
new positions (`implemented?_rearranged`). What a name finds on the type is the same but
for the order, because no method of the type overrides another one
(`visibleAt_rearranged`). So every member has the record that it had, and the record of
the type lists them in the new order (`classify_permuteMembers`).
-/

namespace ApiBaseline

/-! ## Places -/

/-- Where the method at a place stood before: on the lowest level the position comes from
another one. -/
def MethodPlace.before (origin : Equiv.Perm Nat) : Equiv.Perm MethodPlace :=
  (ofLex.trans (Equiv.Perm.prodExtendRight 0 origin)).trans toLex

namespace MethodPlace

variable {origin : Equiv.Perm Nat}

theorem before_bottom (position : Nat) :
    before origin (toLex (0, position)) = toLex (0, origin position) := by
  simp [before]

theorem before_above {depth : Nat} (hdepth : depth ≠ 0) (position : Nat) :
    before origin (toLex (depth, position)) = toLex (depth, position) := by
  simp [before, Equiv.Perm.prodExtendRight_apply_ne, hdepth]

/-- Places of the lowest level come before all others, wherever they stood. -/
theorem before_lt_iff {depth position : Nat} (hdepth : depth ≠ 0) (a : MethodPlace) :
    before origin a < toLex (depth, position) ↔ a < toLex (depth, position) := by
  cases a using Lex.rec with
  | _ a =>
      obtain ⟨low, k⟩ := a
      by_cases hlow : low = 0
      · subst hlow
        have hpos := Nat.pos_of_ne_zero hdepth
        rw [before_bottom, Prod.Lex.toLex_lt_toLex, Prod.Lex.toLex_lt_toLex]
        simp [hpos]
      · rw [before_above hlow]

end MethodPlace

namespace ReordersMembers

variable {origin : Equiv.Perm Nat} {d d' : Definition} {f : Definition → Definition}
  {m m' : Module} (h : ReordersMembers origin d d' f m m')

include h

/-! ## Overriding -/

theorem isOverride : m'.isOverride d' = m.isOverride d := by
  have hbeyond : d'.offersBeyond = d.offersBeyond := by
    rw [h.rearranges.outline]
    rfl
  have hlevels := m.hierarchy_eq_cons d
  have hlevels' := h.hierarchy
  generalize (m.hierarchy d).drop 1 = above at hlevels hlevels'
  funext x
  rw [Module.isOverride, Module.hasBaseSlot, Module.isOverride, Module.hasBaseSlot, hlevels,
    hlevels', h.rearranges.ownSignature]
  cases above with
  | nil => simp [hbeyond]
  | cons up above => simp [List.getLast?_cons_cons]

/-! ## Visible methods -/

/-- Methods are passed that have been passed at the places where they stood. -/
theorem passes_iff {a : MethodPlace} {x : Method} {s : Signature} :
    m'.Passes d' a x s ↔ m.Passes d (MethodPlace.before origin a) x s := by
  have hlevels := m.hierarchy_eq_cons d
  have hlevels' := h.hierarchy
  generalize (m.hierarchy d).drop 1 = above at hlevels hlevels'
  have hsignature : (Level.mk d' d'.ownArgs).signature = (Level.mk d d.ownArgs).signature :=
    h.rearranges.ownSignature
  cases a using Lex.rec with
  | _ a =>
      obtain ⟨depth, position⟩ := a
      cases depth with
      | zero =>
          simp [Module.Passes, MethodPlace.before_bottom, hlevels, hlevels', hsignature,
            h.rearranges.mem_methods_iff]
      | succ depth =>
          simp [Module.Passes, MethodPlace.before_above, hlevels, hlevels']

theorem overridesAt_iff {name : String} {s : Signature} {a : MethodPlace} :
    m'.OverridesAt d' name s a ↔ m.OverridesAt d name s (MethodPlace.before origin a) := by
  simp only [Module.OverridesAt, h.passes_iff]

end ReordersMembers

/-- Where methods are distinct, none of the type itself overrides another one of it. -/
theorem Module.not_overridesAt_of_bottom {m : Module} {d : Definition}
    (hdistinct : d.HasDistinctMethods) {position : Nat} {x : Method} {s : Signature}
    (hx : m.Passes d (toLex (0, position)) x s) {b : MethodPlace}
    (hless : b < toLex (0, position)) : ¬ m.OverridesAt d x.name s b := by
  rintro ⟨y, hy, hname, -, -⟩
  cases b using Lex.rec with
  | _ b =>
      obtain ⟨depth, k⟩ := b
      obtain hdepth | ⟨hdepth, hk⟩ := Prod.Lex.toLex_lt_toLex.mp hless
      · exact absurd hdepth (Nat.not_lt_zero _)
      · obtain rfl : depth = 0 := hdepth
        obtain ⟨hxmem, rfl⟩ := passes_own_iff.mp hx
        obtain ⟨hymem, hsame⟩ := passes_own_iff.mp hy
        have htypes : (d.ownSignature x).sameTypes (d.ownSignature x) = true :=
          Signature.sameTypes_iff.mpr ⟨rfl, rfl⟩
        have heq := hdistinct.eq_of_sameTypes hymem hxmem hname (hsame ▸ htypes) htypes
        obtain rfl := (Prod.mk.inj heq).1
        exact absurd hk (Nat.lt_irrefl _)

namespace ReordersMembers

variable {origin : Equiv.Perm Nat} {d d' : Definition} {f : Definition → Definition}
  {m m' : Module} (h : ReordersMembers origin d d' f m m') (hdistinct : d.HasDistinctMethods)

include h hdistinct

/-- What can be seen at a place could be seen at the place where it stood. -/
theorem visibleAt_rearranged {name : String} {s : Signature} {a : MethodPlace} :
    m'.VisibleAt d' name s a ↔ m.VisibleAt d name s (MethodPlace.before origin a) := by
  cases a using Lex.rec with
  | _ a =>
      obtain ⟨depth, position⟩ := a
      by_cases hdepth : depth = 0
      · -- On the lowest level nothing has been overridden, in either order.
        subst hdepth
        refine exists_congr fun x => ?_
        rw [← h.passes_iff]
        refine and_congr_right fun hx => and_congr_right fun hname => and_congr_right fun _ =>
          imp_congr_right fun _ => ?_
        subst hname
        refine iff_of_true (fun b => Module.not_overridesAt_of_bottom
          (h.rearranges.hasDistinctMethods hdistinct) hx) fun b => ?_
        rw [h.passes_iff, MethodPlace.before_bottom] at hx
        rw [MethodPlace.before_bottom]
        exact Module.not_overridesAt_of_bottom hdistinct hx
      · have hbefore : (∀ b < toLex (depth, position), ¬ m'.OverridesAt d' name s b)
            ↔ ∀ b < toLex (depth, position), ¬ m.OverridesAt d name s b :=
          (MethodPlace.before origin).forall_congr fun b => by
            rw [h.overridesAt_iff, MethodPlace.before_lt_iff hdepth]
        simp only [Module.VisibleAt, h.passes_iff, MethodPlace.before_above hdepth, hbefore]

/-- The same methods hide others. -/
theorem hides : d'.hides (m'.visibleMethods d') = d.hides (m.visibleMethods d) := by
  have hcount : ∀ name s, 1 < (m'.visibleMethods d').occurrences name s
      ↔ 1 < (m.visibleMethods d).occurrences name s := by
    intro name s
    rw [Module.one_lt_occurrences_iff, Module.one_lt_occurrences_iff]
    refine (MethodPlace.before origin).exists_congr fun a =>
      and_congr (h.visibleAt_rearranged hdistinct) ?_
    refine (MethodPlace.before origin).exists_congr fun b =>
      and_congr (h.visibleAt_rearranged hdistinct) ?_
    exact (MethodPlace.before origin).injective.ne_iff.symm
  funext x
  simp only [Definition.hides, h.rearranges.ownSignature, hcount]

/-! ## Records of members -/

omit hdistinct in
theorem parameters : (m'.memberContext d').parameters = (m.memberContext d).parameters := by
  funext x
  simp only [MemberContext.parameters, Module.memberContext, h.rearranges.name,
    h.sameOutline.sameSupertypes.parameterRecord]

/-- A method has the record that it had at its old position. -/
theorem method (position : Nat) (x : Method) :
    (m'.memberContext d').method position x
      = (m.memberContext d).method (origin position) x := by
  simp only [MemberContext.method, h.parameters]
  simp only [Module.memberContext, InterfaceTable.explicit?,
    h.implemented?_rearranged hdistinct, h.isOverride, h.hides hdistinct,
    h.sameOutline.sameSupertypes.constraintRecords]
  rfl

/-- A member has the record that it had at its old position, if it has one. -/
theorem classify_eq_ok_iff (position : Nat) (member : Member) (record : Option MemberRecord) :
    (m'.memberContext d').classify position member = .ok record
      ↔ (m.memberContext d).classify (origin position) member = .ok record := by
  cases member with
  | constructor x =>
      have hname : d'.simpleName = d.simpleName := by
        simp only [Definition.simpleName, h.rearranges.name]
      simp only [MemberContext.classify, MemberContext.constructor, h.parameters]
      simp only [Module.memberContext, hname]
  | method x => simp only [MemberContext.classify, h.method hdistinct]
  | field x => exact Iff.rfl
  | property name => exact Iff.rfl
  | event name => exact Iff.rfl
  | nestedType name => exact Iff.rfl
  | unsupported => exact iff_of_false (fun h => by cases h) (fun h => by cases h)

omit hdistinct in
theorem typeHead : m'.typeHead d' = m.typeHead d := by
  have houtline : m'.typeHead d' = m'.typeHead (f d) := by
    rw [h.rearranges.outline, h.sameOutline.outline]
    rfl
  rw [houtline, h.sameOutline.sameSupertypes.typeHead (h.sameOutline.keepsOutline d)]

end ReordersMembers

/-! ## Records of types -/

theorem zipIdx_map_finRange {α : Type} {n : Nat} (g : Fin n → α) :
    ((List.finRange n).map g).zipIdx = (List.finRange n).map fun i => (g i, i.val) := by
  refine List.ext_getElem (by simp) fun i hi hi' => ?_
  simp

/-- The members of a type have records if each has one, or none by its kind. -/
theorem MemberContext.classifyAll_eq_ok_iff {c : MemberContext} {n : Nat} {g : Fin n → Member}
    (hg : c.definition.members = (List.finRange n).map g) {records : List MemberRecord} :
    c.classifyAll = .ok records ↔ ∃ record : Fin n → Option MemberRecord,
      (∀ i : Fin n, c.classify i (g i) = .ok (record i))
        ∧ records = (List.finRange n).filterMap record := by
  have hlist : ∀ record : Fin n → Option MemberRecord,
      ((List.finRange n).map record).filterMap id = (List.finRange n).filterMap record :=
    fun record => by rw [List.filterMap_map, Function.id_comp]
  rw [classifyAll, hg, zipIdx_map_finRange, List.mapM_map]
  simp only [Function.comp_def]
  constructor
  · intro h
    obtain ⟨found, hfound, h⟩ := bind_eq_ok h
    obtain rfl := Except.ok.inj h
    have hmember : ∀ i : Fin n, ∃ record, c.classify i (g i) = .ok record := fun i =>
      exists_of_mapM_eq_ok hfound (List.mem_finRange i)
    choose record hrecord using hmember
    have hall := hfound.symm.trans (mapM_eq_ok_map fun i _ => hrecord i)
    obtain rfl := Except.ok.inj hall
    exact ⟨record, hrecord, hlist record⟩
  · rintro ⟨record, hrecord, rfl⟩
    rw [mapM_eq_ok_map fun i _ => hrecord i]
    exact congrArg Except.ok (hlist record)

theorem Module.classify_eq_ok_iff {m : Module} {d : Definition} {n : Nat} {g : Fin n → Member}
    (hg : d.members = (List.finRange n).map g) {t : TypeRecord} :
    m.classify d = .ok t ↔ ∃ record : Fin n → Option MemberRecord,
      (∀ i : Fin n, (m.memberContext d).classify i (g i) = .ok (record i))
        ∧ t = { m.typeHead d with members := (List.finRange n).filterMap record } := by
  have hall : ∀ {records}, (m.memberContext d).classifyAll = .ok records
      ↔ ∃ record : Fin n → Option MemberRecord,
        (∀ i : Fin n, (m.memberContext d).classify i (g i) = .ok (record i))
          ∧ records = (List.finRange n).filterMap record :=
    MemberContext.classifyAll_eq_ok_iff hg
  constructor
  · intro h
    obtain ⟨records, hrecords, rfl⟩ := classify_eq_ok h
    obtain ⟨record, hrecord, rfl⟩ := hall.mp hrecords
    exact ⟨record, hrecord, rfl⟩
  · rintro ⟨record, hrecord, rfl⟩
    rw [classify, hall.mpr ⟨record, hrecord, rfl⟩]
    rfl

/-- The definition with its members in the order that a permutation gives. -/
def Definition.permuteMembers (d : Definition) (σ : Equiv.Perm (Fin d.members.length)) :
    Definition :=
  { d with members := (List.finRange d.members.length).map fun i => d.members[σ i] }

/-- The manifest with another definition in the place of one of its own. -/
def Manifest.setType (M : Manifest) (k : Nat) (d : Definition) : Manifest :=
  { M with types := M.types.set k d }

/-- Where the members of the definition that a permutation yields come from. -/
theorem Definition.rearranges_permuteMembers (d : Definition)
    (σ : Equiv.Perm (Fin d.members.length)) :
    d.Rearranges (σ.extendDomain Fin.equivSubtype) (d.permuteMembers σ) where
  outline := rfl
  member i := by
    by_cases hi : i < d.members.length
    · have horigin : σ.extendDomain Fin.equivSubtype i = σ ⟨i, hi⟩ :=
        σ.extendDomain_apply_image Fin.equivSubtype ⟨i, hi⟩
      simp [permuteMembers, horigin, hi]
    · have horigin : σ.extendDomain Fin.equivSubtype i = i :=
        σ.extendDomain_apply_not_subtype Fin.equivSubtype hi
      simp [permuteMembers, horigin, hi]

section

variable {M : Manifest} {d d' : Definition} {k : Nat}

/-- What is found once `d'` stands behind `pre` instead of `d`: nothing else if a
definition in front has the name and arity. -/
def Definition.replacement (pre : List Definition) (d d' : Definition) : Definition → Definition :=
  if (pre.find? (·.key == d.key)).isSome then id else Function.update id d d'

theorem Definition.replacement_of_ne {pre : List Definition} {e : Definition}
    (he : e.key ≠ d.key) : replacement pre d d' e = e := by
  unfold replacement
  split
  · rfl
  · exact Function.update_of_ne (fun h => he (congrArg key h)) _ _

theorem Definition.replacement_eq (pre : List Definition) (d d' e : Definition) :
    replacement pre d d' e = e ∨ e = d ∧ replacement pre d d' e = d' := by
  unfold replacement
  split
  · exact Or.inl rfl
  · by_cases he : e = d
    · exact Or.inr ⟨he, by rw [he, Function.update_self]⟩
    · exact Or.inl (Function.update_of_ne he _ _)

theorem Definition.find?_replacement {pre post : List Definition} (hkey : d'.key = d.key)
    (key : String × Nat) : (pre ++ d' :: post).find? (·.key == key)
      = ((pre ++ d :: post).find? (·.key == key)).map (replacement pre d d') := by
  rw [List.find?_append, List.find?_append, List.find?_cons, List.find?_cons, hkey]
  by_cases hother : d.key = key
  · subst hother
    cases hfound : pre.find? (·.key == d.key) with
    | some e => simp [replacement, hfound]
    | none => simp [replacement, hfound]
  · -- Whatever is found has another name or arity.
    have hsame : ∀ ds : List Definition,
        (ds.find? (·.key == key)).map (replacement pre d d') = ds.find? (·.key == key) := by
      intro ds
      cases hfound : ds.find? (·.key == key) with
      | none => rfl
      | some e =>
          have he : e.key = key := by simpa using List.find?_some hfound
          rw [Option.map_some, replacement_of_ne (he ▸ Ne.symm hother)]
    have hskip : (d.key == key) = false := by simpa using hother
    rw [hskip, ← List.find?_append, hsame]

/-- A module whose manifest lists the rearranged definition in the place of the other. -/
theorem exists_reordersMembers {origin : Equiv.Perm Nat} (hk : M.types[k]? = some d)
    (h : d.Rearranges origin d') : ∃ f, ReordersMembers origin d d' f (.ofManifest M)
      (.ofManifest (M.setType k d')) := by
  obtain ⟨hlength, rfl⟩ := List.getElem?_eq_some_iff.mp hk
  have hkey : d'.key = M.types[k].key := by rw [Definition.key, h.name, h.arity, Definition.key]
  have hdefinitions : M.definitions
      = M.types.take k ++ M.types[k] :: (M.types.drop (k + 1) ++ M.references) := by
    rw [← List.cons_append, ← List.append_assoc, List.getElem_cons_drop,
      List.take_append_drop, Manifest.definitions]
  have hdefinitions' : (M.setType k d').definitions
      = M.types.take k ++ d' :: (M.types.drop (k + 1) ++ M.references) := by
    rw [Manifest.definitions, Manifest.setType, List.set_eq_take_append_cons_drop, if_pos hlength,
      List.append_assoc, List.cons_append]
  refine ⟨Definition.replacement (M.types.take k) M.types[k] d', h, ⟨fun e => ?_, fun t => ?_, rfl⟩,
    fun e => Definition.replacement_of_ne, Definition.replacement_eq _ _ _⟩
  · obtain hsame | ⟨he, hnew⟩ := Definition.replacement_eq (M.types.take k) M.types[k] d' e
    · rw [hsame]
    · rw [hnew, he, ← h.outline]
  · unfold Module.resolve
    cases t.definitionName? with
    | none => rfl
    | some name =>
        rw [Option.bind_some, Module.lookup_eq_find?, hdefinitions',
          Definition.find?_replacement hkey, ← hdefinitions, ← Module.lookup_eq_find?,
          Option.bind_some]

end

namespace Module

variable {M : Manifest} {d : Definition} {k : Nat}

/-- **Records do not depend on the order of members.** Where methods are distinct, a type
with its members in another order has a record if it had one before. The record differs
in the order of the members' records alone, which follow the members; those that have no
records at all are left out. -/
theorem classify_permuteMembers (hk : M.types[k]? = some d) (hdistinct : d.HasDistinctMethods)
    (σ : Equiv.Perm (Fin d.members.length)) :
    ((∃ t, (ofManifest (M.setType k (d.permuteMembers σ))).classify (d.permuteMembers σ) = .ok t)
        ↔ ∃ t, (ofManifest M).classify d = .ok t)
      ∧ ∀ t, (ofManifest M).classify d = .ok t →
        ∃ record : Fin d.members.length → Option MemberRecord,
          (∀ i : Fin d.members.length,
            ((ofManifest M).memberContext d).classify i d.members[i] = .ok (record i)
              ∧ (record i = none ↔ d.members[i].recordKind? = none))
            ∧ t.members = (List.finRange d.members.length).filterMap record
            ∧ (ofManifest (M.setType k (d.permuteMembers σ))).classify (d.permuteMembers σ)
              = .ok { t with
                  members := (List.finRange d.members.length).filterMap (record ∘ σ) } := by
  obtain ⟨f, h⟩ := exists_reordersMembers hk (d.rearranges_permuteMembers σ)
  have hmembers : d.members = (List.finRange d.members.length).map fun i => d.members[i] :=
    (List.map_getElem_finRange d.members).symm
  -- A member of the new definition is classified as the one that it comes from.
  have hmember : ∀ (i : Fin d.members.length) (record : Option MemberRecord),
      ((ofManifest (M.setType k (d.permuteMembers σ))).memberContext
          (d.permuteMembers σ)).classify i d.members[σ i] = .ok record
        ↔ ((ofManifest M).memberContext d).classify (σ i) d.members[σ i] = .ok record := by
    intro i record
    have horigin : σ.extendDomain Fin.equivSubtype i = σ i :=
      σ.extendDomain_apply_image Fin.equivSubtype i
    rw [h.classify_eq_ok_iff hdistinct, horigin]
  have hold := fun t => classify_eq_ok_iff (m := .ofManifest M) (t := t) hmembers
  have hnew := fun t => classify_eq_ok_iff (t := t)
    (m := .ofManifest (M.setType k (d.permuteMembers σ))) (d := d.permuteMembers σ) rfl
  simp only [hold, hnew, hmember, h.typeHead]
  refine ⟨⟨?_, ?_⟩, ?_⟩
  · rintro ⟨_, record, hrecord, -⟩
    refine ⟨_, record ∘ σ.symm, fun i => ?_, rfl⟩
    obtain ⟨j, rfl⟩ := σ.surjective i
    rw [Function.comp_apply, Equiv.symm_apply_apply]
    exact hrecord j
  · rintro ⟨_, record, hrecord, -⟩
    exact ⟨_, record ∘ σ, fun i => hrecord (σ i), rfl⟩
  · rintro _ ⟨record, hrecord, rfl⟩
    refine ⟨record, fun i => ⟨hrecord i, ?_⟩, rfl, record ∘ σ, fun i => hrecord (σ i), rfl⟩
    obtain ⟨hnone, hkind⟩ | ⟨r, hr, hkind, -⟩ := MemberContext.isOf_classify (hrecord i)
    · exact iff_of_true hnone hkind
    · exact iff_of_false (by simp [hr]) fun h => Option.some_ne_none _ (hkind.symm.trans h)

/-! ## A locker with a key -/

/-- A locker with its key between what is put in and what clears it. -/
def keyedLocker : Definition :=
  { locker with members := [.method (putBookWith "U"), .property "Key", .method clearLocker] }

def lockerRoom : Manifest := library [slottedShelf, keyedLocker]

/-- Declared from the last member to the first, the two methods have the same records. -/
theorem keyedLocker_reversed : ∃ t, (ofManifest lockerRoom).classify keyedLocker = .ok t
    ∧ t.members.length = 2
    ∧ (ofManifest (lockerRoom.setType 1 (keyedLocker.permuteMembers Fin.revPerm))).classify
        (keyedLocker.permuteMembers Fin.revPerm) = .ok { t with members := t.members.reverse } := by
  have hdistinct : keyedLocker.HasDistinctMethods := ⟨by decide, by decide⟩
  obtain ⟨t, ht, hlength⟩ : ∃ t, (ofManifest lockerRoom).classify keyedLocker = .ok t
      ∧ t.members.length = 2 := ⟨_, rfl, rfl⟩
  obtain ⟨-, hrecords⟩ := classify_permuteMembers (M := lockerRoom) (k := 1) rfl hdistinct
    Fin.revPerm
  obtain ⟨record, -, hmembers, hnew⟩ := hrecords t ht
  refine ⟨t, ht, hlength, ?_⟩
  rw [hnew, hmembers, ← List.filterMap_reverse, List.finRange_reverse, List.filterMap_map]
  rfl

end Module

end ApiBaseline
