import ApiBaseline.Proofs.Classify.Renaming
import ApiBaseline.Proofs.Generate
import Mathlib.Data.List.Basic

/-!
# The first fault of a module

There are two things that a document cannot describe: a member of an unsupported
kind, and a constant as the default of a parameter whose type has no literals.
Each has a place, the path of positions that leads to it (`Module.FaultAt`). Steps
in a row report the first fault in the lexicographic order of places when each
step does (`ReportsFirst.mapM`), and a document is made by such rows inside rows:
definitions, members, parameters.

Without a fault a document has a record for each accepted definition and in it one
for each member that has records at all, in their order (`generate_first_fault`).
-/

namespace ApiBaseline

/-! ## Rows of steps -/

section

variable {ε α β : Type}

/-- The result fails only where there is a fault, and with the first one. -/
structure ReportsFirst (F : List Nat → ε → Prop) (result : Except ε β) : Prop where
  ok : ∀ b, result = .ok b → ∀ place e, ¬ F place e
  error : ∀ e, result = .error e →
    ∃ place, F place e ∧ ∀ other e', F other e' → ¬ List.Lex (· < ·) other place

/-- A fault of an element has the position of the element in front of its place. -/
inductive FaultIn (F : α → List Nat → ε → Prop) (xs : List α) : List Nat → ε → Prop where
  | at {i : Nat} {x : α} {place : List Nat} {e : ε} (hx : xs[i]? = some x) (h : F x place e) :
    FaultIn F xs (i :: place) e

theorem faultIn_cons {F : α → List Nat → ε → Prop} {x : α} {xs : List α} {place : List Nat}
    {e : ε} : FaultIn F (x :: xs) place e
      ↔ (∃ rest, place = 0 :: rest ∧ F x rest e)
        ∨ ∃ i rest, place = (i + 1) :: rest ∧ FaultIn F xs (i :: rest) e := by
  constructor
  · rintro ⟨hx, h⟩
    rename_i i y rest
    cases i with
    | zero =>
        obtain rfl := Option.some.inj hx
        exact Or.inl ⟨rest, rfl, h⟩
    | succ i => exact Or.inr ⟨i, rest, rfl, .at hx h⟩
  · rintro (⟨rest, rfl, h⟩ | ⟨i, rest, rfl, h⟩)
    · exact .at (i := 0) rfl h
    · obtain ⟨hx, h⟩ := h
      exact .at (i := i + 1) hx h

namespace ReportsFirst

theorem congr {F G : List Nat → ε → Prop} {result : Except ε β} (h : ReportsFirst F result)
    (hiff : ∀ place e, G place e ↔ F place e) : ReportsFirst G result := by
  obtain rfl : G = F := by
    funext place e
    exact propext (hiff place e)
  exact h

/-- What is done with a result does not matter, unless it can fail. -/
theorem bind {γ : Type} {F : List Nat → ε → Prop} {result : Except ε β}
    (h : ReportsFirst F result) {g : β → Except ε γ} (hg : ∀ b, ∃ c, g b = .ok c) :
    ReportsFirst F (result >>= g) := by
  cases hresult : result with
  | ok b =>
      obtain ⟨c, hc⟩ := hg b
      have hbind : (Except.ok b >>= g : Except ε γ) = .ok c := hc
      rw [hbind]
      exact ⟨fun _ _ => h.ok b hresult, nofun⟩
  | error e =>
      refine ⟨nofun, fun e' he' => ?_⟩
      obtain rfl : e = e' := Except.error.inj he'
      exact h.error e hresult

theorem map {γ : Type} {F : List Nat → ε → Prop} {result : Except ε β}
    (h : ReportsFirst F result) (g : β → γ) : ReportsFirst F (result.map g) := by
  have hmap : result.map g = result >>= fun b => .ok (g b) := by cases result <;> rfl
  rw [hmap]
  exact h.bind fun b => ⟨g b, rfl⟩

theorem mapM {F : α → List Nat → ε → Prop} {f : α → Except ε β} {xs : List α}
    (h : ∀ x ∈ xs, ReportsFirst (F x) (f x)) : ReportsFirst (FaultIn F xs) (xs.mapM f) := by
  induction xs with
  | nil =>
      refine ⟨fun _ _ place e hfault => ?_, nofun⟩
      obtain ⟨hx, -⟩ := hfault
      cases hx
  | cons x xs ih =>
      have hhead := h x List.mem_cons_self
      have htail := ih fun y hy => h y (List.mem_cons_of_mem x hy)
      rw [List.mapM_cons]
      -- A fault of the head is in front of all others; without one the tail decides.
      cases hx : f x with
      | error e =>
          refine ⟨nofun, fun e' he' => ?_⟩
          obtain rfl : e = e' := Except.error.inj he'
          obtain ⟨place, hplace, hfirst⟩ := hhead.error e hx
          refine ⟨0 :: place, .at rfl hplace, fun other e' hother hbefore => ?_⟩
          rcases faultIn_cons.mp hother with ⟨rest, rfl, hrest⟩ | ⟨i, rest, rfl, -⟩
          · cases hbefore with
            | cons hbefore => exact hfirst rest e' hrest hbefore
            | rel hless => exact absurd hless (Nat.lt_irrefl 0)
          · cases hbefore with
            | rel hless => exact absurd hless (Nat.not_lt_zero _)
      | ok y =>
          have hnone := hhead.ok y hx
          cases hxs : xs.mapM f with
          | error e =>
              refine ⟨nofun, fun e' he' => ?_⟩
              obtain rfl : e = e' := Except.error.inj he'
              obtain ⟨place, hplace, hfirst⟩ := htail.error e hxs
              obtain ⟨hy, hfault⟩ := hplace
              rename_i i z place
              refine ⟨(i + 1) :: place, .at hy hfault, fun other e' hother hbefore => ?_⟩
              rcases faultIn_cons.mp hother with ⟨rest, -, hrest⟩ | ⟨j, rest, rfl, hrest⟩
              · exact hnone rest e' hrest
              · refine hfirst (j :: rest) e' hrest ?_
                cases hbefore with
                | cons hbefore => exact .cons hbefore
                | rel hless => exact .rel (Nat.lt_of_succ_lt_succ hless)
          | ok ys =>
              refine ⟨fun _ _ place e hfault => ?_, nofun⟩
              rcases faultIn_cons.mp hfault with ⟨rest, -, hrest⟩ | ⟨i, rest, -, hrest⟩
              · exact hnone rest e hrest
              · exact htail.ok ys hxs _ e hrest

theorem ok_iff {F : List Nat → ε → Prop} {result : Except ε β} (h : ReportsFirst F result) :
    (∃ b, result = .ok b) ↔ ∀ place e, ¬ F place e := by
  refine ⟨fun ⟨b, hb⟩ => h.ok b hb, fun hnone => ?_⟩
  cases hresult : result with
  | ok b => exact ⟨b, rfl⟩
  | error e =>
      obtain ⟨place, hplace, -⟩ := h.error e hresult
      exact absurd hplace (hnone place e)

/-- A place that has one fault only tells which fault is reported. -/
theorem error_iff {F : List Nat → ε → Prop} {result : Except ε β} (h : ReportsFirst F result)
    (hunique : ∀ place e e', F place e → F place e' → e = e') (e : ε) :
    result = .error e
      ↔ ∃ place, F place e ∧ ∀ other e', F other e' → ¬ List.Lex (· < ·) other place := by
  refine ⟨h.error e, fun ⟨place, hplace, hfirst⟩ => ?_⟩
  cases hresult : result with
  | ok b => exact absurd hplace (h.ok b hresult place e)
  | error e' =>
      obtain ⟨place', hplace', hfirst'⟩ := h.error e' hresult
      obtain rfl : place = place' :=
        List.le_antisymm (hfirst place' e' hplace') (hfirst' place e hplace)
      rw [hunique place e' e hplace' hplace]

end ReportsFirst

end

/-! ## Faults -/

/-- The types whose constants can be written. -/
def literalTypes : List String := "System.String" :: "System.Char" :: plainLiteralTypes

theorem Constant.literal?_eq_none_iff (c : Constant) (typeName : String) :
    c.literal? typeName = none ↔ typeName ∉ literalTypes := by
  unfold literal? literalTypes
  split
  · rename_i h
    simp [h]
  · rename_i hstring
    split
    · rename_i h
      simp [h]
    · rename_i hchar
      by_cases hplain : typeName ∈ plainLiteralTypes <;> simp [hstring, hchar, hplain]

/-- The parameter has a constant as its default, and its type has no literals. -/
def Parameter.HasUnsupportedDefault (p : Parameter) : Prop :=
  p.hasDefault = true ∧ p.default ≠ none ∧ p.type.canonicalName ∉ literalTypes

/-- The method or constructor that a member is. -/
def Member.callable? : Member → Option Method
  | .constructor x | .method x => some x
  | .field _ | .property _ | .event _ | .nestedType _ | .unsupported => none

/-- The kind of the record that a member has, if it has one. -/
def Member.recordKind? : Member → Option MemberKind
  | .constructor _ => some .constructor
  | .method _ => some .method
  | .field _ => some .field
  | .property _ | .event _ | .nestedType _ | .unsupported => none

/-- Everything that the definition declares can be described. -/
structure Definition.IsSupported (d : Definition) : Prop where
  members : .unsupported ∉ d.members
  defaults : ∀ member ∈ d.members, ∀ x, member.callable? = some x →
    ∀ p ∈ x.params, ¬ p.HasUnsupportedDefault

/-- The faults of a module with their places: the positions of the type among the
accepted ones, of the member in it and of the parameter in that. -/
inductive Module.FaultAt (m : Module) (f : Filter) : List Nat → ClassifyError → Prop where
  | member {i j : Nat} {d : Definition} (hd : (m.accepted f)[i]? = some d)
    (hmember : d.members[j]? = some .unsupported) :
    FaultAt m f [i, j] (.unsupportedMember d.name j)
  | default {i j k : Nat} {d : Definition} {member : Member} {x : Method} {p : Parameter}
    (hd : (m.accepted f)[i]? = some d) (hmember : d.members[j]? = some member)
    (hx : member.callable? = some x) (hp : x.params[k]? = some p)
    (h : p.HasUnsupportedDefault) :
    FaultAt m f [i, j, k]
      (.unsupportedDefault (d.name ++ "::" ++ x.name) p.name p.type.canonicalName)

theorem Module.FaultAt.unique {m : Module} {f : Filter} {place : List Nat}
    {e e' : ClassifyError} (h : m.FaultAt f place e) (h' : m.FaultAt f place e') : e = e' := by
  cases h with
  | member hd _ =>
      cases h' with
      | member hd' _ =>
          obtain rfl := Option.some.inj (hd.symm.trans hd')
          rfl
  | default hd hmember hx hp _ =>
      cases h' with
      | default hd' hmember' hx' hp' _ =>
          obtain rfl := Option.some.inj (hd.symm.trans hd')
          obtain rfl := Option.some.inj (hmember.symm.trans hmember')
          obtain rfl := Option.some.inj (hx.symm.trans hx')
          obtain rfl := Option.some.inj (hp.symm.trans hp')
          rfl

/-- A module without faults is one whose accepted definitions can be described. -/
theorem Module.forall_not_faultAt_iff {m : Module} {f : Filter} :
    (∀ place e, ¬ m.FaultAt f place e) ↔ ∀ d ∈ m.accepted f, d.IsSupported := by
  constructor
  · intro hnone d hd
    obtain ⟨i, hi⟩ := List.mem_iff_getElem?.mp hd
    constructor
    · intro hmember
      obtain ⟨j, hj⟩ := List.mem_iff_getElem?.mp hmember
      exact hnone _ _ (.member hi hj)
    · intro member hmember x hx p hp hdefault
      obtain ⟨j, hj⟩ := List.mem_iff_getElem?.mp hmember
      obtain ⟨k, hk⟩ := List.mem_iff_getElem?.mp hp
      exact hnone _ _ (.default hi hj hx hk hdefault)
  · rintro hall place e (⟨hd, hmember⟩ | ⟨hd, hmember, hx, hp, hdefault⟩)
    · exact (hall _ (List.mem_of_getElem? hd)).members (List.mem_of_getElem? hmember)
    · exact (hall _ (List.mem_of_getElem? hd)).defaults _ (List.mem_of_getElem? hmember) _ hx _
        (List.mem_of_getElem? hp) hdefault

/-! ## What is reported -/

/-- The fault of a parameter, which has no place of its own. -/
def Parameter.FaultAt (member : String) (p : Parameter) (place : List Nat)
    (e : ClassifyError) : Prop :=
  place = [] ∧ p.HasUnsupportedDefault
    ∧ e = .unsupportedDefault member p.name p.type.canonicalName

/-- The faults of a member that stands at a position of a type. -/
def Member.FaultAt (owner : String) (member : Member) (position : Nat) (place : List Nat)
    (e : ClassifyError) : Prop :=
  (member = .unsupported ∧ place = [] ∧ e = .unsupportedMember owner position)
    ∨ ∃ x, member.callable? = some x
      ∧ FaultIn (Parameter.FaultAt (owner ++ "::" ++ x.name)) x.params place e

theorem Member.faultAt_of_callable {owner : String} {member : Member} {position : Nat}
    {x : Method} (hx : member.callable? = some x) {place : List Nat} {e : ClassifyError} :
    member.FaultAt owner position place e
      ↔ FaultIn (Parameter.FaultAt (owner ++ "::" ++ x.name)) x.params place e := by
  constructor
  · rintro (⟨rfl, -, -⟩ | ⟨y, hy, hfault⟩)
    · cases hx
    · obtain rfl := Option.some.inj (hx.symm.trans hy)
      exact hfault
  · exact fun hfault => Or.inr ⟨x, hx, hfault⟩

/-- The faults of a definition. -/
def Definition.FaultAt (d : Definition) : List Nat → ClassifyError → Prop :=
  FaultIn (fun p => Member.FaultAt d.name p.1 p.2) d.members.zipIdx

theorem Module.faultAt_iff (m : Module) (f : Filter) (place : List Nat) (e : ClassifyError) :
    m.FaultAt f place e ↔ FaultIn Definition.FaultAt (m.accepted f) place e := by
  constructor
  · rintro (⟨hd, hmember⟩ | ⟨hd, hmember, hx, hp, hdefault⟩)
    · refine .at hd (.at (x := (.unsupported, _)) ?_ (Or.inl ⟨rfl, rfl, rfl⟩))
      simp [List.getElem?_zipIdx, hmember]
    · rename_i i j k d member x p
      refine .at hd (.at (x := (member, j)) ?_ (Or.inr ⟨x, hx, .at hp ⟨rfl, hdefault, rfl⟩⟩))
      simp [List.getElem?_zipIdx, hmember]
  · rintro ⟨hd, hmember, hfault⟩
    rename_i i d j entry place
    obtain ⟨member, hj, rfl⟩ : ∃ member, d.members[j]? = some member ∧ (member, j) = entry := by
      simpa [List.getElem?_zipIdx] using hmember
    rcases hfault with ⟨rfl, rfl, rfl⟩ | ⟨x, hx, hp, rfl, hdefault, rfl⟩
    · exact .member hd hj
    · exact .default hd hj hx hp hdefault

namespace Module

variable (m : Module)

theorem parameterRecord_reportsFirst (member : String) (p : Parameter) :
    ReportsFirst (Parameter.FaultAt member p) (m.parameterRecord member p) := by
  by_cases hfault : p.HasUnsupportedDefault
  · obtain ⟨hdefault, hconstant, hname⟩ := hfault
    obtain ⟨c, hc⟩ := Option.ne_none_iff_exists'.mp hconstant
    have hliteral : m.defaultLiteral member p
        = .error (.unsupportedDefault member p.name p.type.canonicalName) := by
      simp only [defaultLiteral, hdefault, hc,
        (c.literal?_eq_none_iff p.type.canonicalName).mpr hname]
    have hrecord : m.parameterRecord member p
        = .error (.unsupportedDefault member p.name p.type.canonicalName) := by
      rw [parameterRecord, hliteral]
      rfl
    rw [hrecord]
    refine ⟨fun b hb => (by cases hb), fun e he =>
      ⟨[], ⟨rfl, ⟨hdefault, hconstant, hname⟩, ?_⟩, fun _ _ _ => List.not_lex_nil⟩⟩
    exact (Except.error.inj he).symm
  · have hliteral : ∃ literal, m.defaultLiteral member p = .ok literal := by
      unfold defaultLiteral
      cases hdefault : p.hasDefault with
      | false => exact ⟨_, rfl⟩
      | true =>
          cases hc : p.default with
          | none => exact ⟨_, rfl⟩
          | some c =>
              cases hlit : c.literal? p.type.canonicalName with
              | some literal => exact ⟨some literal, by simp only [hlit]⟩
              | none =>
                  have hname := (c.literal?_eq_none_iff _).mp hlit
                  exact absurd ⟨hdefault, by simp [hc], hname⟩ hfault
    obtain ⟨literal, hliteral⟩ := hliteral
    rw [parameterRecord, hliteral]
    exact ⟨fun _ _ _ _ h => hfault h.2.1, fun e he => by cases he⟩

/-- Only what can be called has parameters, and only an unsupported member is a
fault by itself. -/
theorem classify_member_reportsFirst (d : Definition) (member : Member) (position : Nat) :
    ReportsFirst (Member.FaultAt d.name member position)
      ((m.memberContext d).classify position member) := by
  have hparameters : ∀ x : Method, member.callable? = some x →
      ReportsFirst (Member.FaultAt d.name member position)
        ((m.memberContext d).parameters x) := by
    intro x hx
    have hrow := ReportsFirst.mapM fun p (_ : p ∈ x.params) =>
      m.parameterRecord_reportsFirst (d.name ++ "::" ++ x.name) p
    exact hrow.congr fun place e => Member.faultAt_of_callable hx
  have hsilent : member ≠ .unsupported → member.callable? = none →
      ∀ record : Option MemberRecord,
        ReportsFirst (Member.FaultAt d.name member position) (.ok record) := by
    intro hsupported hnone record
    refine ⟨fun _ _ place e hfault => ?_, nofun⟩
    rcases hfault with ⟨h, -⟩ | ⟨x, hx, -⟩
    · exact hsupported h
    · exact absurd (hnone.symm.trans hx) nofun
  cases member with
  | constructor x =>
      have hrecord : ReportsFirst _ ((m.memberContext d).constructor x) :=
        (hparameters x rfl).bind fun parameters => ⟨_, rfl⟩
      exact hrecord.map some
  | method x =>
      have hrecord : ReportsFirst _ ((m.memberContext d).method position x) :=
        (hparameters x rfl).bind fun parameters => ⟨_, rfl⟩
      exact hrecord.map some
  | field x => exact hsilent nofun rfl _
  | property name => exact hsilent nofun rfl _
  | event name => exact hsilent nofun rfl _
  | nestedType name => exact hsilent nofun rfl _
  | unsupported =>
      have herror : (m.memberContext d).classify position .unsupported
          = .error (.unsupportedMember d.name position) := rfl
      rw [herror]
      refine ⟨fun _ hok => absurd hok nofun, fun e he =>
        ⟨[], Or.inl ⟨rfl, rfl, ?_⟩, fun _ _ _ => List.not_lex_nil⟩⟩
      exact (Except.error.inj he).symm

theorem classifyAll_reportsFirst (d : Definition) :
    ReportsFirst d.FaultAt (m.memberContext d).classifyAll := by
  have hrow : ReportsFirst d.FaultAt (d.members.zipIdx.mapM fun p =>
      (m.memberContext d).classify p.2 p.1) :=
    .mapM fun p _ => m.classify_member_reportsFirst d p.1 p.2
  exact hrow.bind fun _ => ⟨_, rfl⟩

theorem classify_reportsFirst (d : Definition) : ReportsFirst d.FaultAt (m.classify d) :=
  (m.classifyAll_reportsFirst d).bind fun _ => ⟨_, rfl⟩

theorem generate_reportsFirst (f : Filter) : ReportsFirst (m.FaultAt f) (m.generate f) := by
  have hrow := ReportsFirst.mapM fun d (_ : d ∈ m.accepted f) => m.classify_reportsFirst d
  have hdocument : ReportsFirst (FaultIn Definition.FaultAt (m.accepted f)) (m.generate f) :=
    hrow.bind fun types => ⟨_, rfl⟩
  exact hdocument.congr (m.faultAt_iff f)

end Module

/-! ## Records of members -/

/-- The record says what kind of member it is of and what its parameters are called. -/
def MemberRecord.IsOf (r : MemberRecord) (member : Member) : Prop :=
  member.recordKind? = some r.kind
    ∧ r.parameters.map (·.name) = (member.callable?.map (·.params.map (·.name))).getD []

/-- The record of a definition, with one record for each member that has records at
all, in the order of the members. -/
structure Module.Describes (m : Module) (d : Definition) (t : TypeRecord) : Prop where
  head : t = { m.typeHead d with members := t.members }
  members : List.Forall₂
    (fun p r => r.IsOf p.1 ∧ (m.memberContext d).classify p.2 p.1 = .ok (some r))
    (d.members.zipIdx.filter (·.1.recordKind?.isSome)) t.members

namespace MemberContext

variable {c : MemberContext}

theorem parameterNames {x : Method} {parameters : List ParameterRecord}
    (h : c.parameters x = .ok parameters) :
    parameters.map (·.name) = x.params.map (·.name) := by
  refine map_of_mapM_eq_ok h fun p r hr => ?_
  obtain ⟨literal, -, hr⟩ := bind_eq_ok hr
  obtain rfl := Except.ok.inj hr
  rfl

theorem isOf_constructor {x : Method} {r : MemberRecord} (h : c.constructor x = .ok r) :
    r.IsOf (.constructor x) := by
  obtain ⟨parameters, hparameters, h⟩ := bind_eq_ok h
  obtain rfl := Except.ok.inj h
  exact ⟨rfl, parameterNames hparameters⟩

theorem isOf_method {position : Nat} {x : Method} {r : MemberRecord}
    (h : c.method position x = .ok r) : r.IsOf (.method x) := by
  obtain ⟨parameters, hparameters, h⟩ := bind_eq_ok h
  obtain rfl := Except.ok.inj h
  exact ⟨rfl, parameterNames hparameters⟩

/-- A member has a record of its own kind, or none if there is none for its kind. -/
theorem isOf_classify {position : Nat} {member : Member} {record : Option MemberRecord}
    (h : c.classify position member = .ok record) :
    (record = none ∧ member.recordKind? = none) ∨ ∃ r, record = some r ∧ r.IsOf member := by
  cases member with
  | constructor x =>
      rw [classify] at h
      obtain ⟨r, hr, rfl⟩ := map_eq_ok h
      exact Or.inr ⟨r, rfl, isOf_constructor hr⟩
  | method x =>
      rw [classify] at h
      obtain ⟨r, hr, rfl⟩ := map_eq_ok h
      exact Or.inr ⟨r, rfl, isOf_method hr⟩
  | field x =>
      obtain rfl := Except.ok.inj h
      exact Or.inr ⟨_, rfl, rfl, rfl⟩
  | property name => exact Or.inl ⟨(Except.ok.inj h).symm, rfl⟩
  | event name => exact Or.inl ⟨(Except.ok.inj h).symm, rfl⟩
  | nestedType name => exact Or.inl ⟨(Except.ok.inj h).symm, rfl⟩
  | unsupported => cases h

end MemberContext

/-- The results that are there belong to the elements that have one. -/
theorem forall₂_filterMap {α β : Type} {R : α → Option β → Prop} {p : α → Bool}
    (hp : ∀ x y, R x y → y.isSome = p x) {xs : List α} {ys : List (Option β)}
    (h : List.Forall₂ R xs ys) :
    List.Forall₂ (fun x b => R x (some b)) (xs.filter p) (ys.filterMap id) := by
  induction h with
  | nil => exact .nil
  | @cons x y xs ys hxy _ ih =>
      cases y with
      | none =>
          have hx : p x = false := (hp x none hxy).symm
          simpa [hx] using ih
      | some b =>
          have hx : p x = true := (hp x (some b) hxy).symm
          simpa [hx] using ⟨hxy, ih⟩

namespace Module

variable {m : Module}

theorem describes_of_classify {d : Definition} {t : TypeRecord} (h : m.classify d = .ok t) :
    m.Describes d t := by
  obtain ⟨members, hmembers, rfl⟩ := classify_eq_ok h
  refine ⟨rfl, ?_⟩
  obtain ⟨records, hrecords, hmembers⟩ := bind_eq_ok hmembers
  obtain rfl := Except.ok.inj hmembers
  have hkind : ∀ (p : Member × Nat) (record : Option MemberRecord),
      (m.memberContext d).classify p.2 p.1 = .ok record →
        record.isSome = p.1.recordKind?.isSome := by
    intro p record hrecord
    rcases MemberContext.isOf_classify hrecord with ⟨rfl, hnone⟩ | ⟨r, rfl, hr, -⟩
    · rw [hnone]
      rfl
    · rw [hr]
      rfl
  refine (forall₂_filterMap hkind (mapM_eq_ok hrecords)).imp fun p r hr => ⟨?_, hr⟩
  rcases MemberContext.isOf_classify hr with ⟨hnone, -⟩ | ⟨r', hr', hof⟩
  · cases hnone
  · obtain rfl := Option.some.inj hr'
    exact hof

/-- A module has a document exactly if all that its accepted definitions declare can
be described. The document describes every one of them in order; otherwise the first
of the faults is reported. -/
theorem generate_first_fault (m : Module) (f : Filter) :
    ((∃ document, m.generate f = .ok document) ↔ ∀ d ∈ m.accepted f, d.IsSupported)
      ∧ (∀ document, m.generate f = .ok document →
          document.identity = m.manifest.identity
            ∧ List.Forall₂ m.Describes (m.accepted f) document.types)
      ∧ ∀ e, m.generate f = .error e
          ↔ ∃ place, m.FaultAt f place e
              ∧ ∀ other e', m.FaultAt f other e' → ¬ List.Lex (· < ·) other place := by
  have hfirst := m.generate_reportsFirst f
  refine ⟨?_, fun document h => ?_, fun e => ?_⟩
  · rw [hfirst.ok_iff, forall_not_faultAt_iff]
  · obtain ⟨types, htypes, hdocument⟩ := bind_eq_ok h
    obtain rfl := Except.ok.inj hdocument
    exact ⟨rfl, (mapM_eq_ok htypes).imp fun _ _ => describes_of_classify⟩
  · exact hfirst.error_iff (fun _ _ _ => FaultAt.unique) e

/-! ## A workshop -/

/-- Something that is put to work with a number, and after it with a tool. -/
def putToWork (toolDefault : Option Constant) : Method :=
  { virtualMethod true [] [] with
    params :=
      [⟨"times", .named "System.Int32" [], false, false, true, true, some (.boolean true), []⟩,
        ⟨"tool", .named "Tool" [], false, false, true, true, toolDefault, []⟩] }

/-- A vise has a slot between its constructor and its jaw. -/
def vise : Definition :=
  { openClass "Vise" [] none [] with
    members := [.constructor { putToWork none with name := ".ctor" }, .property "Slot",
      .field ⟨"jaw", .private, .named "Jaw" [], false, false, true⟩, .method (putToWork none)] }

/-- A bench asks for a tool that no literal can be written for, and has something
unknown behind that. -/
def bench : Definition :=
  { openClass "Bench" [] none [] with
    access := .notPublic
    members := [.method (putToWork (some (.text "saw"))), .unsupported] }

/-- The vise is described as long as the bench is left out. -/
theorem workshop_faults :
    (∃ document,
      (ofManifest (library [vise, bench])).generate [.publicOnly] = .ok document
        ∧ List.Forall₂ (ofManifest (library [vise, bench])).Describes [vise] document.types
        ∧ document.types.map (·.members.map (·.kind)) = [[.constructor, .field, .method]])
      ∧ ¬ bench.IsSupported
      ∧ ∃ place,
        (ofManifest (library [vise, bench])).FaultAt [] place
            (.unsupportedDefault "Bench::Put" "tool" "Tool")
          ∧ ∀ other e', (ofManifest (library [vise, bench])).FaultAt [] other e' →
              ¬ List.Lex (· < ·) other place := by
  obtain ⟨-, hdescribed, -⟩ :=
    (ofManifest (library [vise, bench])).generate_first_fault [.publicOnly]
  obtain ⟨-, -, hfirst⟩ := (ofManifest (library [vise, bench])).generate_first_fault []
  have herror : (ofManifest (library [vise, bench])).generate []
      = .error (.unsupportedDefault "Bench::Put" "tool" "Tool") := rfl
  have haccepted : (ofManifest (library [vise, bench])).accepted [.publicOnly] = [vise] := by
    decide
  obtain ⟨document, hdocument, hkinds⟩ : ∃ document,
      (ofManifest (library [vise, bench])).generate [.publicOnly] = .ok document
        ∧ document.types.map (·.members.map (·.kind)) = [[.constructor, .field, .method]] :=
    ⟨_, rfl, by decide⟩
  have htypes := (hdescribed document hdocument).2
  rw [haccepted] at htypes
  exact ⟨⟨document, hdocument, htypes, hkinds⟩, fun hbench => hbench.members (by decide),
    (hfirst _).mp herror⟩

end Module

end ApiBaseline
