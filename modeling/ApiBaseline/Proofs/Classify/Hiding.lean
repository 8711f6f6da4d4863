import ApiBaseline.Proofs.Classify.Explicit
import ApiBaseline.Proofs.Classify.Visible

/-!
# Methods that hide others

A method that neither overrides nor can be overridden hides another one of its name and
signature that can be seen besides it. Overriding takes inherited methods out of sight,
but the first method on the way up that overrides can be seen itself, if it is public.
So a public method is found to hide others through any number of levels
(`isNew_of_hidden`).

The record goes by the number of methods that can be seen with the name and signature.
A public method counts itself; any other does not, and needs two others instead of one
(`isNew_iff_seesOther`). Where there is only one, hiding goes unnoticed
(`teaTrolley_hides_clear`).
-/

namespace ApiBaseline

/-! ## The record -/

namespace MemberContext

variable {c : MemberContext} {position : Nat} {x : Method} {r : MemberRecord}

theorem isNew_method (hr : c.method position x = .ok r) :
    r.isNew = c.definition.hides c.visible x := by
  obtain ⟨parameters, -, hr⟩ := bind_eq_ok hr
  obtain rfl := Except.ok.inj hr
  rfl

/-- Of a public method that hides another one the identifier begins by saying so. -/
theorem id_of_isNew (hr : c.method position x = .ok r) (hpublic : x.access = .public)
    (hnew : r.isNew = true) : ∃ rest, r.id = "public new " ++ rest := by
  have hexplicit : r.explicitInterface = none := by
    simp [explicitInterface_method hr, InterfaceTable.explicit?, hpublic]
  have hrecord : r.kind = .method ∧ r.visibility = .public := by
    obtain ⟨parameters, -, hr⟩ := bind_eq_ok hr
    obtain rfl := Except.ok.inj hr
    exact ⟨rfl, by rw [hpublic]; rfl⟩
  obtain ⟨word, words, hwords⟩ : ∃ word words, wordsWhen [(r.isStatic, "static")]
      ++ r.overrideWords ++ [r.typeText] = word :: words :=
    List.exists_cons_of_ne_nil (by simp)
  have hall : r.methodWords = "public" :: "new" :: word :: words := by
    rw [← hwords]
    simp [MemberRecord.methodWords, hexplicit, hrecord.2, hnew, wordsWhen, Accessibility.keyword]
  refine ⟨" ".intercalate (word :: words) ++ " " ++ r.name ++ "(" ++ r.parameterList ++ ")"
    ++ constraintClause r.constraints, ?_⟩
  rw [MemberRecord.id, hrecord.1]
  simp only [hall, String.intercalate_cons_cons, ← String.append_assoc]
  rfl

end MemberContext

/-- A method of `d` that can hide others: it hides by signature and is neither virtual nor
abstract. -/
structure Definition.MayHide (d : Definition) (position : Nat) (x : Method) : Prop where
  method : (position, x) ∈ d.methods
  bySignature : x.hideBySig = true
  isPlain : x.isVirtual = false
  isConcrete : x.isAbstract = false

namespace Module

/-- At the place another method than `x`, which stands at the position of `d`, can be
seen with the name and signature of `x`. -/
def SeesOther (m : Module) (d : Definition) (position : Nat) (x : Method) (a : MethodPlace) :
    Prop :=
  a ≠ toLex (0, position) ∧ m.VisibleAt d x.name (d.ownSignature x) a

/-! ## Counting what can be seen -/

variable {m : Module} {d : Definition} {position : Nat} {x : Method} {r : MemberRecord}

section

variable (h : d.MayHide position x)

include h

/-- A method that can hide others can be seen on its type if it is public. -/
theorem visibleAt_own_iff :
    m.VisibleAt d x.name (d.ownSignature x) (toLex (0, position)) ↔ x.access = .public := by
  constructor
  · rintro ⟨y, hy, -, hpublic, -⟩
    rwa [Definition.method_unique h.method (passes_own_iff.mp hy).1]
  · intro hpublic
    exact ⟨x, passes_own_iff.mpr ⟨h.method, rfl⟩, rfl, hpublic, by simp [h.isPlain]⟩

variable (hr : (m.memberContext d).method position x = .ok r)

include hr

theorem isNew_iff_one_lt : r.isNew = true
    ↔ 1 < (m.visibleMethods d).occurrences x.name (d.ownSignature x) := by
  rw [MemberContext.isNew_method hr, Definition.hides, h.isPlain, h.isConcrete, h.bySignature]
  exact decide_eq_true_iff

theorem isNew_iff_of_public (hpublic : x.access = .public) :
    r.isNew = true ↔ ∃ a, m.SeesOther d position x a := by
  have hown := (visibleAt_own_iff (m := m) h).mpr hpublic
  rw [isNew_iff_one_lt h hr, one_lt_occurrences_iff]
  constructor
  · rintro ⟨a, ha, b, hb, hne⟩
    by_cases hsame : a = toLex (0, position)
    · exact ⟨b, fun heq => hne (hsame.trans heq.symm), hb⟩
    · exact ⟨a, hsame, ha⟩
  · rintro ⟨a, hne, ha⟩
    exact ⟨a, ha, _, hown, hne⟩

theorem isNew_iff_of_not_public (hpublic : x.access ≠ .public) : r.isNew = true
    ↔ ∃ a, m.SeesOther d position x a ∧ ∃ b, m.SeesOther d position x b ∧ a ≠ b := by
  have hother : ∀ a, m.SeesOther d position x a
      ↔ m.VisibleAt d x.name (d.ownSignature x) a := by
    refine fun a => and_iff_right_of_imp fun ha heq => hpublic ?_
    exact (visibleAt_own_iff h).mp (heq ▸ ha)
  simp only [isNew_iff_one_lt h hr, one_lt_occurrences_iff, hother]

/-- **What a method must see in order to hide.** A public method is recorded to hide
others if and only if one other with its name and signature can be seen. One that is not
public needs two: it cannot be seen itself, and the count is the same for all. -/
theorem isNew_iff_seesOther :
    (x.access = .public → (r.isNew = true ↔ ∃ a, m.SeesOther d position x a))
      ∧ (x.access ≠ .public → (r.isNew = true
        ↔ ∃ a, m.SeesOther d position x a ∧ ∃ b, m.SeesOther d position x b ∧ a ≠ b)) :=
  ⟨isNew_iff_of_public h hr, isNew_iff_of_not_public h hr⟩

end

/-! ## Trolleys that are cleared differently -/

/-- To clear, in a way that is the type's own. -/
def clearAs (access : MemberAccess) : Method :=
  { clearWith [] with access := access, isVirtual := false, isNewSlot := false }

def trolley : Definition := openClass "Trolley" [] none [clearAs .public]

def teaTrolley (access : MemberAccess) : Definition :=
  openClass "TeaTrolley" [] (some (.named "Trolley" [])) [clearAs access]

def hotelTrolley : Definition :=
  openClass "HotelTrolley" [] (some (.named "TeaTrolley" [])) [clearAs .private]

def trolleys (access : MemberAccess) : Module :=
  .ofManifest (library [trolley, teaTrolley access, hotelTrolley])

/-- The private method of the hotel's trolley hides the public ones of both trolleys above it. -/
theorem hotelTrolley_hides_clear : hotelTrolley.MayHide 0 (clearAs .private)
    ∧ ∃ r, ((trolleys .public).memberContext hotelTrolley).method 0 (clearAs .private) = .ok r
      ∧ r.isNew = true := by
  have hmay : hotelTrolley.MayHide 0 (clearAs .private) := ⟨by decide, rfl, rfl, rfl⟩
  obtain ⟨r, hr⟩ : ∃ r, ((trolleys .public).memberContext hotelTrolley).method 0
      (clearAs .private) = .ok r := ⟨_, rfl⟩
  refine ⟨hmay, r, hr, ((isNew_iff_seesOther hmay hr).2 (by decide)).mpr ?_⟩
  have hsees : ∀ k l, ((trolleys .public).hierarchy hotelTrolley)[k + 1]? = some l →
      (0, clearAs .public) ∈ l.definition.methods →
      hotelTrolley.ownSignature (clearAs .private) = l.signature (clearAs .public) →
      (trolleys .public).SeesOther hotelTrolley 0 (clearAs .private) (toLex (k + 1, 0)) :=
    fun k l hl hmem hs => ⟨by simp, clearAs .public, ⟨l, hl, hmem, Or.inr rfl, hs⟩, rfl, rfl, nofun⟩
  exact ⟨_, hsees 0 ⟨teaTrolley .public, []⟩ (by decide) (by decide) (by decide), _,
    hsees 1 ⟨trolley, []⟩ (by decide) (by decide) (by decide), by decide⟩

/-- The private method of the tea trolley hides the public one of the trolley as well,
but that is the only one which can be seen. -/
theorem teaTrolley_hides_clear : (teaTrolley .private).MayHide 0 (clearAs .private)
    ∧ (clearAs .private).access ≠ .public
    ∧ (∃ a, (trolleys .private).SeesOther (teaTrolley .private) 0 (clearAs .private) a)
    ∧ ∃ r, ((trolleys .private).memberContext (teaTrolley .private)).method 0
        (clearAs .private) = .ok r ∧ r.isNew = false := by
  refine ⟨⟨by decide, rfl, rfl, rfl⟩, by decide, ⟨toLex (1, 0), by decide, clearAs .public, ?_⟩, ?_⟩
  · have hpasses : (trolleys .private).Passes (teaTrolley .private) (toLex (1, 0))
        (clearAs .public) ((teaTrolley .private).ownSignature (clearAs .private)) :=
      ⟨⟨trolley, []⟩, by decide, by decide, by decide, by decide⟩
    exact ⟨hpasses, rfl, rfl, nofun⟩
  · exact ⟨_, rfl, by decide⟩

/-! ## Hiding through levels -/

/-- Whatever overrides methods with the name and signature is public. -/
def OverridesArePublic (m : Module) (d : Definition) (name : String) (s : Signature) : Prop :=
  ∀ l ∈ m.hierarchy d, ∀ p ∈ l.definition.methods, p.2.name = name → l.signature p.2 = s →
    p.2.isVirtual = true → p.2.isNewSlot = false → p.2.access = .public

/-- The first method that overrides can be seen: nothing before it takes it out of sight. -/
theorem exists_visibleAt_of_overridesAt {name : String} {s : Signature} {a : MethodPlace}
    (hpublic : m.OverridesArePublic d name s) (ha : m.OverridesAt d name s a) :
    ∃ b, m.OverridesAt d name s b ∧ m.VisibleAt d name s b := by
  obtain ⟨b, hb, hfirst⟩ := (wellFounded_lt (α := MethodPlace)).has_min
    {b | m.OverridesAt d name s b} ⟨a, ha⟩
  obtain ⟨z, hz, hname, hvirtual, hslot⟩ := id hb
  obtain ⟨l, hl, hmem, -, hs⟩ := id hz
  have hseen : z.access = .public :=
    hpublic l (List.mem_of_getElem? hl) (_, z) hmem hname hs.symm hvirtual hslot
  exact ⟨b, hb, z, hz, hname, hseen, fun _ c hless hc => hfirst c hc hless⟩

/-- **Hiding is recognised through any number of levels.** A public method that neither
overrides nor can be overridden hides a public method of its name and signature on any
level above it, however far up, whether or not methods between the two override that one,
so long as these are public. -/
theorem isNew_of_hidden {y : Method} {k p : Nat} {l : Level}
    (h : d.MayHide position x) (hpublic : x.access = .public) (hk : 1 ≤ k)
    (hl : (m.hierarchy d)[k]? = some l) (hy : (p, y) ∈ l.definition.methods)
    (hyPublic : y.access = .public) (hyStatic : y.isStatic = false) (hname : y.name = x.name)
    (hsignature : l.signature y = d.ownSignature x)
    (hoverrides : m.OverridesArePublic d x.name (d.ownSignature x))
    (hr : (m.memberContext d).method position x = .ok r) :
    r.isNew = true ∧ ∃ rest, r.id = "public new " ++ rest := by
  have hother : ∃ a, m.SeesOther d position x a := by
    by_cases hover : ∃ a, m.OverridesAt d x.name (d.ownSignature x) a
    · -- What is hidden may be out of sight, but not what has taken it there.
      obtain ⟨a, ha⟩ := hover
      obtain ⟨b, ⟨z, hz, -, hzVirtual, -⟩, hb⟩ := exists_visibleAt_of_overridesAt hoverrides ha
      refine ⟨b, ?_, hb⟩
      rintro rfl
      obtain rfl := Definition.method_unique h.method (passes_own_iff.mp hz).1
      exact Bool.false_ne_true (h.isPlain.symm.trans hzVirtual)
    · have hpasses : m.Passes d (toLex (k, p)) y (d.ownSignature x) :=
        ⟨l, hl, hy, Or.inr hyStatic, hsignature.symm⟩
      refine ⟨toLex (k, p), fun heq => ?_, y, hpasses, hname, hyPublic, fun _ b _ hb =>
        hover ⟨b, hb⟩⟩
      obtain ⟨rfl, -⟩ := Prod.mk.inj (toLex.injective heq)
      exact absurd hk (by decide)
  have hnew := (isNew_iff_of_public h hr hpublic).mpr hother
  exact ⟨hnew, MemberContext.id_of_isNew hr hpublic hnew⟩

/-! ## A ledge on a bookshelf -/

/-- To put a book on a ledge has nothing to do with what any shelf does. -/
def putAnew : Method := { virtualMethod true [] [.named "Book" []] with isVirtual := false }

def ledge : Definition := openClass "Ledge" [] (some (.named "Bookshelf" [])) [putAnew]

def ledges : Module := .ofManifest (library [shelf, bookshelf, ledge])

/-- The ledge hides what the shelf does with an item, though the bookshelf in between has
already taken that out of sight. -/
theorem ledge_puts_anew : ledge.MayHide 0 putAnew
    ∧ (ledges.hierarchy ledge)[2]? = some ⟨shelf, [.named "Book" []]⟩
    ∧ ledges.OverridesArePublic ledge "Put" (ledge.ownSignature putAnew)
    ∧ ∃ r, (ledges.memberContext ledge).method 0 putAnew = .ok r
      ∧ r.isNew = true ∧ ∃ rest, r.id = "public new " ++ rest := by
  have hmay : ledge.MayHide 0 putAnew := ⟨by decide, rfl, rfl, rfl⟩
  have hlevel : (ledges.hierarchy ledge)[2]? = some ⟨shelf, [.named "Book" []]⟩ := by decide
  have hoverrides : ledges.OverridesArePublic ledge "Put" (ledge.ownSignature putAnew) := by
    unfold OverridesArePublic
    decide
  obtain ⟨r, hr⟩ : ∃ r, (ledges.memberContext ledge).method 0 putAnew = .ok r := ⟨_, rfl⟩
  have hput : (0, virtualMethod true [] [.param "T"]) ∈ shelf.methods := by decide
  exact ⟨hmay, hlevel, hoverrides, r, hr,
    isNew_of_hidden hmay rfl (by decide) hlevel hput rfl rfl rfl (by decide) hoverrides hr⟩

end Module

end ApiBaseline
