import ApiBaseline.Proofs.List
import ApiBaseline.Proofs.Metadata.Lookup

/-!
# The index and the list

The index is a map that is built entry by entry, and what it holds are places. It stands
for a search through the definitions of the module and then the references: a place that
is noted lies in its list, it is that of the first definition with the key, and every key
of a definition has one (`getElem?_ofManifest_iff`). So an answer by the index is the
answer that a search gives (`lookup_isFirstAt`).
-/

namespace ApiBaseline

/-! ## Searching -/

/-- The definition stands at the position and has the key, and none in front of it has. -/
structure IsFirstAt (ds : List Definition) (key : String × Nat) (i : Nat) (d : Definition) :
    Prop where
  stands : ds[i]? = some d
  key_eq : d.key = key
  first : ∀ j < i, ∀ e, ds[j]? = some e → e.key ≠ key

/-- The first definition with a key. -/
def search (ds : List Definition) (key : String × Nat) : Option Definition :=
  ds.find? (·.key == key)

theorem search_eq_some_iff {ds : List Definition} {key : String × Nat} {d : Definition} :
    search ds key = some d ↔ ∃ i, IsFirstAt ds key i d := by
  rw [search, find?_eq_some_iff_first]
  refine exists_congr fun i => ?_
  simp only [beq_iff_eq, beq_eq_false_iff_ne]
  exact ⟨fun ⟨h₁, h₂, h₃⟩ => ⟨h₁, h₂, h₃⟩, fun h => ⟨h.stands, h.key_eq, h.first⟩⟩

theorem search_eq_none_iff {ds : List Definition} {key : String × Nat} :
    search ds key = none ↔ ∀ d ∈ ds, d.key ≠ key := by
  simp [search]

/-- The definitions in front shadow those behind them. -/
theorem search_append (ds es : List Definition) (key : String × Nat) :
    search (ds ++ es) key = (search ds key).or (search es key) := List.find?_append

/-! ## Places -/

/-- The place lies in its list. -/
def Slot.IsWithin (M : Manifest) : Slot → Prop
  | .defined i => i < M.types.length
  | .referenced i => i < M.references.length

/-- The position among all definitions. -/
def Slot.position (M : Manifest) : Slot → Nat
  | .defined i => i
  | .referenced i => M.types.length + i

namespace Index

theorem getElem?_noted (ds : List Definition) (toSlot : Nat → Slot) {i : Nat} {d : Definition}
    {place : Slot} :
    (ds.zipIdx.map fun (e, j) => (e, toSlot j))[i]? = some (d, place)
      ↔ ds[i]? = some d ∧ place = toSlot i := by
  rw [List.getElem?_map, List.getElem?_zipIdx, Nat.zero_add]
  cases ds[i]? with
  | none => simp
  | some e => simp [eq_comm]

/-- Every definition has one entry, with the place that stands for its position. -/
theorem getElem?_entries {M : Manifest} {i : Nat} {d : Definition} {place : Slot} :
    (entries M)[i]? = some (d, place)
      ↔ place.IsWithin M ∧ place.position M = i ∧ M.definitions[i]? = some d := by
  rw [entries, Manifest.definitions]
  by_cases hi : i < M.types.length
  · have hplace : place = .defined i ↔ place.IsWithin M ∧ place.position M = i := by
      cases place <;> simp [Slot.IsWithin, Slot.position] <;> omega
    rw [List.getElem?_append_left (by simpa using hi), List.getElem?_append_left hi,
      getElem?_noted, hplace, and_comm, and_assoc]
  · rw [List.getElem?_append_right (by simpa using hi), List.getElem?_append_right (by omega),
      List.length_map, List.length_zipIdx, getElem?_noted]
    have hplace : i - M.types.length < M.references.length →
        (place = .referenced (i - M.types.length)
          ↔ place.IsWithin M ∧ place.position M = i) := by
      intro hlt
      cases place <;> simp [Slot.IsWithin, Slot.position] <;> omega
    rw [← and_assoc, and_comm]
    refine and_congr_left fun hd => hplace (List.getElem?_eq_some_iff.mp hd).1

theorem getElem?_definitions (M : Manifest) (i : Nat) :
    M.definitions[i]? = (entries M)[i]?.map (·.1) := by
  rw [← map_entries, List.getElem?_map]

/-- The index holds the place of the first definition with a key, and no others. -/
theorem getElem?_ofManifest_iff {M : Manifest} {key : String × Nat} {place : Slot} :
    (ofManifest M)[key]? = some place
      ↔ place.IsWithin M ∧ ∃ d, IsFirstAt M.definitions key (place.position M) d := by
  rw [getElem?_ofManifest, Option.map_eq_some_iff]
  constructor
  · rintro ⟨⟨d, _⟩, hfind, rfl⟩
    obtain ⟨i, hi, hkey, hfirst⟩ := find?_eq_some_iff_first.mp hfind
    obtain ⟨hwithin, rfl, hd⟩ := getElem?_entries.mp hi
    refine ⟨hwithin, d, hd, beq_iff_eq.mp hkey, fun j hj e he => ?_⟩
    rw [getElem?_definitions] at he
    obtain ⟨entry, hentry, rfl⟩ := Option.map_eq_some_iff.mp he
    exact beq_eq_false_iff_ne.mp (hfirst j hj entry hentry)
  · rintro ⟨hwithin, d, hd, hkey, hfirst⟩
    refine ⟨(d, place), find?_eq_some_iff_first.mpr ⟨place.position M, ?_, ?_, ?_⟩, rfl⟩
    · exact getElem?_entries.mpr ⟨hwithin, rfl, hd⟩
    · exact beq_iff_eq.mpr hkey
    · intro j hj entry hentry
      refine beq_eq_false_iff_ne.mpr (hfirst j hj entry.1 ?_)
      rw [getElem?_definitions, hentry]
      rfl

end Index

/-! ## Answers -/

namespace Module

/-- **The index finds what a search through the definitions finds,** those of the module
in front of the references. -/
theorem lookup_isFirstAt (M : Manifest) (name : String) (arity : Nat) :
    (∀ d, (ofManifest M).lookup name arity = some d
        ↔ ∃ i, IsFirstAt M.definitions (name, arity) i d)
      ∧ ((ofManifest M).lookup name arity = none
        ↔ ∀ d ∈ M.definitions, d.key ≠ (name, arity))
      ∧ (ofManifest M).lookup name arity
        = (search M.types (name, arity)).or (search M.references (name, arity))
      ∧ (∀ place, (ofManifest M).index[(name, arity)]? = some place
        ↔ place.IsWithin M ∧ ∃ d, IsFirstAt M.definitions (name, arity) (place.position M) d)
      ∧ ∀ d, (ofManifest M).lookup name arity = some d → d.name = name ∧ d.arity = arity := by
  have hsearch : (ofManifest M).lookup name arity = search M.definitions (name, arity) :=
    lookup_eq_find? M name arity
  refine ⟨fun d => ?_, ?_, ?_, fun place => Index.getElem?_ofManifest_iff, fun d hd => ?_⟩
  · rw [hsearch, search_eq_some_iff]
  · rw [hsearch, search_eq_none_iff]
  · rw [hsearch, Manifest.definitions, search_append]
  · obtain ⟨i, h⟩ := search_eq_some_iff.mp (hsearch.symm.trans hd)
    exact Prod.mk.inj h.key_eq

end Module

/-- A stall, which may be closed for good. -/
def stall (isSealed : Bool) : Definition :=
  ⟨"Stall", .public, false, false, false, isSealed, none, [], [], []⟩

def awning : Definition := openClass "Awning" [] none []

/-- The stall is listed twice and has a shape as well. -/
def market : Manifest := ⟨"Market", [stall false, stall true], [stall true, awning], []⟩

theorem market_finds_first :
    (Module.ofManifest market).lookup "Stall" 0 = some (stall false)
      ∧ (Module.ofManifest market).lookup "Awning" 0 = some awning
      ∧ (Module.ofManifest market).lookup "Awning" 1 = none
      ∧ (Module.ofManifest market).index[("Awning", 0)]? = some (.referenced 1)
      ∧ ∀ d, (Module.ofManifest market).lookup "Stall" 0 = some d → d.name = "Stall" := by
  obtain ⟨-, -, hstall, -, hname⟩ := Module.lookup_isFirstAt market "Stall" 0
  obtain ⟨-, -, hawning, hplace, -⟩ := Module.lookup_isFirstAt market "Awning" 0
  obtain ⟨-, hnone, -, -, -⟩ := Module.lookup_isFirstAt market "Awning" 1
  refine ⟨hstall.trans (by decide), hawning.trans (by decide), hnone.mpr (by decide),
    (hplace _).mpr ⟨Nat.one_lt_two, awning, rfl, rfl, fun j hj e he => ?_⟩,
    fun d hd => (hname d hd).1⟩
  -- Neither stall has the key of the awning.
  match j, hj with
  | 0, _ | 1, _ | 2, _ =>
    obtain rfl := Option.some.inj he
    decide

end ApiBaseline
