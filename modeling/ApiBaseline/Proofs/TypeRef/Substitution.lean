import ApiBaseline.TypeRef.Basic

/-!
# Laws of substitution

Substitution puts arguments in for the parameters of a definition. It is a case
of putting a reference in for each parameter (`bind`), and two such steps in a
row are one (`bind_bind`), whose effect is settled parameter by parameter
(`bind_congr`). So a law of substitution is a fact about single names, and the
first position of a name decides what is put in for it (`lookup_zip_eq`):

* the parameters themselves change nothing (`substitute_own`);
* the arguments come back when they are put in for the parameters
  (`own_substitute`);
* two substitutions in a row are one (`substitute_substitute`), for a reference
  that mentions no parameter beyond the replaced ones; otherwise the second
  substitution would reach what the first has left in place.
-/

namespace ApiBaseline.TypeRef

/-- What holds of a reference whenever it holds of the references in it holds of
every reference. -/
@[induction_eliminator]
theorem inductionOn {motive : TypeRef → Prop}
    (named : ∀ name args, (∀ a ∈ args, motive a) → motive (named name args))
    (param : ∀ name, motive (param name))
    (array : ∀ element rank, motive element → motive (array element rank))
    (byRef : ∀ target, motive target → motive (byRef target))
    (pointer : ∀ target, motive target → motive (pointer target)) (t : TypeRef) :
    motive t :=
  @TypeRef.rec motive (fun ts => ∀ a ∈ ts, motive a) named param array byRef pointer
    (fun _ ha => absurd ha List.not_mem_nil)
    (fun _ _ ht hts => List.forall_mem_cons.mpr ⟨ht, hts⟩) t

/-! ## The parameters of a reference -/

mutual

/-- The names of the generic parameters that a reference mentions. -/
def mentions : TypeRef → List String
  | named _ args => mentionsAll args
  | param name => [name]
  | array element _ => element.mentions
  | byRef target => target.mentions
  | pointer target => target.mentions

def mentionsAll : List TypeRef → List String
  | [] => []
  | t :: ts => t.mentions ++ mentionsAll ts

end

theorem mentionsAll_eq_flatMap (ts : List TypeRef) : mentionsAll ts = ts.flatMap mentions := by
  induction ts with
  | nil => rfl
  | cons t ts ih => rw [mentionsAll, ih, List.flatMap_cons]

theorem mem_mentions_named {name : String} {args : List TypeRef} {n : String} :
    n ∈ (named name args).mentions ↔ ∃ a ∈ args, n ∈ a.mentions := by
  rw [mentions, mentionsAll_eq_flatMap, List.mem_flatMap]

/-! ## References in place of parameters -/

mutual

/-- Puts a reference in for each generic parameter. -/
def bind (σ : String → TypeRef) : TypeRef → TypeRef
  | named name args => named name (bindAll σ args)
  | param n => σ n
  | array element rank => array (bind σ element) rank
  | byRef target => byRef (bind σ target)
  | pointer target => pointer (bind σ target)

def bindAll (σ : String → TypeRef) : List TypeRef → List TypeRef
  | [] => []
  | t :: ts => bind σ t :: bindAll σ ts

end

section

variable (σ τ : String → TypeRef)

theorem bindAll_eq_map (ts : List TypeRef) : bindAll σ ts = ts.map (bind σ) := by
  induction ts with
  | nil => rfl
  | cons t ts ih => rw [bindAll, ih, List.map_cons]

theorem bind_param (t : TypeRef) : t.bind param = t := by
  induction t with
  | named name args ih =>
      rw [bind, bindAll_eq_map, List.map_congr_left ih, List.map_id']
  | param n => rfl
  | array element rank ih => rw [bind, ih]
  | byRef target ih => rw [bind, ih]
  | pointer target ih => rw [bind, ih]

theorem bind_bind (t : TypeRef) : (t.bind σ).bind τ = t.bind fun n => (σ n).bind τ := by
  induction t with
  | named name args ih =>
      have hargs : args.map (bind τ ∘ bind σ) = args.map (bind fun n => (σ n).bind τ) :=
        List.map_congr_left ih
      rw [bind, bind, bind, bindAll_eq_map, bindAll_eq_map, bindAll_eq_map, List.map_map, hargs]
  | param n => rfl
  | array element rank ih => rw [bind, bind, bind, ih]
  | byRef target ih => rw [bind, bind, bind, ih]
  | pointer target ih => rw [bind, bind, bind, ih]

variable {σ τ}

theorem bind_congr {t : TypeRef} (h : ∀ n ∈ t.mentions, σ n = τ n) : t.bind σ = t.bind τ := by
  induction t with
  | named name args ih =>
      have hargs : ∀ a ∈ args, a.bind σ = a.bind τ := fun a ha =>
        ih a ha fun n hn => h n (mem_mentions_named.mpr ⟨a, ha, hn⟩)
      rw [bind, bind, bindAll_eq_map, bindAll_eq_map, List.map_congr_left hargs]
  | param n => exact h n (by simp [mentions])
  | array element rank ih => rw [bind, bind, ih h]
  | byRef target ih => rw [bind, bind, ih h]
  | pointer target ih => rw [bind, bind, ih h]

theorem mem_mentions_bind {t : TypeRef} {n : String} :
    n ∈ (t.bind σ).mentions ↔ ∃ k ∈ t.mentions, n ∈ (σ k).mentions := by
  induction t with
  | named name args ih =>
      rw [bind, mem_mentions_named, bindAll_eq_map]
      constructor
      · rintro ⟨b, hb, hn⟩
        obtain ⟨a, ha, rfl⟩ := List.mem_map.mp hb
        obtain ⟨k, hk, hn⟩ := (ih a ha).mp hn
        exact ⟨k, mem_mentions_named.mpr ⟨a, ha, hk⟩, hn⟩
      · rintro ⟨k, hk, hn⟩
        obtain ⟨a, ha, hk⟩ := mem_mentions_named.mp hk
        exact ⟨_, List.mem_map_of_mem ha, (ih a ha).mpr ⟨k, hk, hn⟩⟩
  | param m => simp [bind, mentions]
  | array element rank ih => simpa [bind, mentions] using ih
  | byRef target ih => simpa [bind, mentions] using ih
  | pointer target ih => simpa [bind, mentions] using ih

end

/-- What a substitution puts in for a parameter. -/
def actual (params : List String) (actuals : List TypeRef) (n : String) : TypeRef :=
  ((params.zip actuals).lookup n).getD (param n)

theorem substitute_eq_bind (params : List String) (actuals : List TypeRef) (t : TypeRef) :
    t.substitute params actuals = t.bind (actual params actuals) := by
  induction t with
  | named name args ih =>
      rw [substitute, substituteAll_eq_map, bind, bindAll_eq_map, List.map_congr_left ih]
  | param n => rfl
  | array element rank ih => rw [substitute, bind, ih]
  | byRef target ih => rw [substitute, bind, ih]
  | pointer target ih => rw [substitute, bind, ih]

/-! ## Bound parameters -/

/-- The parameter has an argument, at the first position of its name. -/
def IsBound (names : List String) (actuals : List TypeRef) (n : String) : Prop :=
  n ∈ names ∧ names.idxOf n < actuals.length

instance (names : List String) (actuals : List TypeRef) (n : String) :
    Decidable (IsBound names actuals n) := inferInstanceAs (Decidable (_ ∧ _))

/-- A name is looked up at its first position. -/
theorem lookup_zip_eq (names : List String) (actuals : List TypeRef) (n : String) :
    (names.zip actuals).lookup n = if n ∈ names then actuals[names.idxOf n]? else none := by
  induction names generalizing actuals with
  | nil => rfl
  | cons m names ih =>
      cases actuals with
      | nil => simp
      | cons a actuals =>
          by_cases h : n = m
          · simp [h]
          · have hne : (m == n) = false := beq_false_of_ne (Ne.symm h)
            simp [List.lookup_cons, beq_false_of_ne h, ih, h, List.idxOf_cons, hne]

section

variable {names : List String} {actuals : List TypeRef} {n : String}

theorem actual_of_mem (hn : n ∈ names) (actuals : List TypeRef) :
    actual names actuals n = actuals[names.idxOf n]?.getD (param n) := by
  rw [actual, lookup_zip_eq, if_pos hn]

theorem isBound_of_mem (hlen : actuals.length = names.length) (hn : n ∈ names) :
    IsBound names actuals n :=
  ⟨hn, hlen ▸ List.idxOf_lt_length_of_mem hn⟩

theorem isBound_map_iff (f : TypeRef → TypeRef) :
    IsBound names (actuals.map f) n ↔ IsBound names actuals n := by
  rw [IsBound, IsBound, List.length_map]

theorem actual_mem_of_isBound (h : IsBound names actuals n) :
    actual names actuals n ∈ actuals := by
  obtain ⟨hn, hlt⟩ := h
  rw [actual_of_mem hn, List.getElem?_eq_getElem hlt]
  exact List.getElem_mem hlt

/-- A parameter that is not bound stays in place. -/
theorem actual_of_not_isBound (h : ¬ IsBound names actuals n) :
    actual names actuals n = param n := by
  have hnone : (names.zip actuals).lookup n = none := by
    rw [lookup_zip_eq, ite_eq_right_iff]
    exact fun hn => List.getElem?_eq_none (Nat.not_lt.mp fun hlt => h ⟨hn, hlt⟩)
  rw [actual, hnone, Option.getD_none]

/-- The argument of a bound parameter is changed with the others. -/
theorem actual_map_of_isBound (h : IsBound names actuals n) (f : TypeRef → TypeRef) :
    actual names (actuals.map f) n = f (actual names actuals n) := by
  obtain ⟨hn, hlt⟩ := h
  rw [actual_of_mem hn, actual_of_mem hn, List.getElem?_map, List.getElem?_eq_getElem hlt]
  rfl

end

/-- A parameter that stands for itself stays in place. -/
theorem actual_own (names : List String) (n : String) :
    actual names (names.map param) n = param n := by
  by_cases hn : n ∈ names
  · rw [actual_of_mem hn, List.getElem?_map,
      List.getElem?_eq_getElem (List.idxOf_lt_length_of_mem hn), List.getElem_idxOf]
    rfl
  · exact actual_of_not_isBound fun h : IsBound names _ n => hn h.1

/-! ## The laws -/

/-- The parameters put in for themselves leave a reference as it is. -/
theorem substitute_own (names : List String) (t : TypeRef) :
    t.substitute names (names.map param) = t := by
  have hown : actual names (names.map param) = param := funext (actual_own names)
  rw [substitute_eq_bind, hown, bind_param]

/-- Two substitutions in a row are one with substituted arguments. -/
theorem substitute_substitute {names : List String} {actuals : List TypeRef}
    (outer : List String) (args : List TypeRef) (hlen : actuals.length = names.length)
    (t : TypeRef) (h : t.mentions ⊆ names) :
    (t.substitute names actuals).substitute outer args
      = t.substitute names (actuals.map (·.substitute outer args)) := by
  rw [substitute_eq_bind outer, substitute_eq_bind names, bind_bind, substitute_eq_bind]
  refine bind_congr fun n hn => ?_
  -- The first substitution replaces the parameter, so the second one meets its argument.
  rw [actual_map_of_isBound (isBound_of_mem hlen (h hn)), substitute_eq_bind]

/-- Arguments put in for distinct parameters come back in their order. -/
theorem own_substitute {names : List String} {actuals : List TypeRef}
    (hnodup : names.Nodup) (hlen : actuals.length = names.length) :
    names.map (fun n => (param n).substitute names actuals) = actuals := by
  refine List.ext_getElem (by rw [List.length_map, hlen]) fun i hi hi' => ?_
  have hput : ∀ n, (param n).substitute names actuals = actual names actuals n := fun _ => rfl
  rw [List.getElem_map, hput, actual_of_mem (List.getElem_mem _), hnodup.idxOf_getElem,
    List.getElem?_eq_getElem hi', Option.getD_some]

end ApiBaseline.TypeRef
