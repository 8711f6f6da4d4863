import ApiBaseline.Command.Run
import ApiBaseline.Proofs.Diff.Keys
import ApiBaseline.Proofs.Schema.Document
import ApiBaseline.Workspace.Basic

/-!
# A document compared with itself

Each type is compared with the first one that has its identifier, which is the
type itself unless the identifier occurs twice. So a document differs from itself
when it holds two types of one identifier whose members differ (`doubled_differs`),
and only then (`compare_self`).
-/

namespace ApiBaseline

/-- Types with the same identifier have the same members. -/
def Document.IsCoherent (d : Document) : Prop :=
  ∀ t ∈ d.types, ∀ u ∈ d.types, t.id = u.id → t.memberIds ⊆ u.memberIds

theorem Document.isCoherent_of_nodup {d : Document} (h : d.typeIds.Nodup) : d.IsCoherent := by
  intro t ht u hu hid
  rw [List.inj_on_of_nodup_map h ht hu hid]
  exact List.Subset.refl _

theorem Diff.isEmpty_self {d : Document} :
    (Diff.compare d d).isEmpty = true ↔ d.IsCoherent := by
  rw [isEmpty_compare]
  constructor
  · rintro ⟨hsame, -⟩ t ht u hu hid
    -- Both are compared with the same type.
    obtain ⟨v, hv, htv, -⟩ := hsame t ht
    obtain ⟨v', hv', -, hvu⟩ := hsame u hu
    obtain rfl : v = v' := Option.some.inj (hv.symm.trans (hid ▸ hv'))
    exact List.Subset.trans htv hvu
  · refine fun h => ⟨fun t ht => ?_, List.Subset.refl _⟩
    obtain ⟨u, hu⟩ := Document.exists_findType (List.mem_map_of_mem ht)
    obtain ⟨hmem, hid⟩ := Document.findType_eq_some hu
    exact ⟨u, hu, h t ht u hmem hid.symm, h u hmem t ht hid⟩

/-- What reports nothing breaks nothing. -/
theorem Diff.isBreaking_of_isEmpty {d : Diff} (h : d.isEmpty = true) : d.isBreaking = false := by
  simp only [isEmpty, Bool.and_eq_true, List.isEmpty_iff] at h
  obtain ⟨⟨hremoved, -⟩, hchanged⟩ := h
  rw [isBreaking, hremoved, hchanged]
  rfl

theorem Diff.report_of_isEmpty {d : Diff} (h : d.isEmpty = true) :
    d.report = "No API changes." := if_pos h

/-! ## Commands -/

namespace Command

variable {w : Workspace} {path text : String} {α : Type}

/-- Loading a file leaves the workspace as it is. -/
theorem load_run {format : TextFormat} {read : Schema.Reader α} {a : α}
    (hread : w.read path = .ok text) (htext : Schema.readText format read text = .ok a) :
    (load (m := StateM Workspace) format read path).run.run w = pure (.ok a, w) := by
  simp only [load, load.liftExcept, onFile, FileStore.read, bind_pure_comp, Functor.map_map,
    ExceptT.run_bind, ExceptT.run_mk, bind_map_left, StateT.run_bind, StateT.run_get, pure_bind,
    hread, htext, Except.mapError, StateT.run_pure]

/-- Both documents are loaded and compared; the workspace stays as it is. -/
theorem run_compare {o : CompareOptions} {textOld textNew : String} {old new : Document}
    (environment : Option String) (hreadOld : w.read o.old = .ok textOld)
    (hold : Document.ofText textOld = .ok old) (hreadNew : w.read o.new = .ok textNew)
    (hnew : Document.ofText textNew = .ok new) :
    (run (m := StateM Workspace) environment (.compare o)).run w
      = (comparisonOutcome o (Diff.compare old new), w) := by
  have hloadOld := load_run hreadOld hold
  have hloadNew := load_run hreadNew hnew
  simp only [run, difference, ExceptT.run_bind, StateT.run_bind, hloadOld, hloadNew, pure_bind]
  rfl

end Command

/-! ## The comparison -/

/-- A document does not differ from itself exactly when types of one identifier
have the same members. Then no command that compares a file with itself fails. -/
theorem compare_self (d : Document) :
    ((Diff.compare d d).isEmpty = true ↔ d.IsCoherent)
      ∧ (d.typeIds.Nodup → d.IsCoherent)
      ∧ (d.IsCoherent → (Diff.compare d d).isBreaking = false
          ∧ (Diff.compare d d).report = "No API changes.")
      ∧ ∀ (w : Workspace) (environment : Option String) (path text : String)
          (failOnBreaking : Bool), d.IsCoherent → w.read path = .ok text →
          Document.ofText text = .ok d →
          (Command.run (m := StateM Workspace) environment
            (.compare ⟨path, path, failOnBreaking⟩)).run w = (⟨"No API changes.\n", none⟩, w) := by
  refine ⟨Diff.isEmpty_self, Document.isCoherent_of_nodup, fun h => ?_, ?_⟩
  · have hempty := Diff.isEmpty_self.mpr h
    exact ⟨Diff.isBreaking_of_isEmpty hempty, Diff.report_of_isEmpty hempty⟩
  · intro w environment path text failOnBreaking h hread htext
    have hempty := Diff.isEmpty_self.mpr h
    have houtcome : Command.comparisonOutcome ⟨path, path, failOnBreaking⟩ (Diff.compare d d)
        = ⟨"No API changes.\n", none⟩ := by
      simp only [Command.comparisonOutcome, Diff.report_of_isEmpty hempty,
        Diff.isBreaking_of_isEmpty hempty, Bool.and_false]
      rfl
    rw [Command.run_compare (o := ⟨path, path, failOnBreaking⟩) environment hread htext hread
      htext, houtcome]

/-- A room with two cabinets of one name, which have the same drawers. -/
def twins : Document := ⟨"Room", [cabinet ["left"], cabinet ["left"]]⟩

theorem twins_do_not_differ :
    (Command.run (m := StateM Workspace) none (.compare ⟨"r", "r", true⟩)).run
        ⟨[(["r"], .file twins.toText.toUTF8)]⟩
      = (⟨"No API changes.\n", none⟩, ⟨[(["r"], .file twins.toText.toUTF8)]⟩) := by
  have hcoherent : twins.IsCoherent := by
    unfold Document.IsCoherent
    decide
  have hread : (⟨[(["r"], .file twins.toText.toUTF8)]⟩ : Workspace).read "r"
      = .ok twins.toText := by
    have hpieces : Path.pieces "r" = ["r"] := by
      rw [Path.pieces, String.splitOn, if_neg (by decide), String.splitOnAux,
        String.splitOnAux]
      decide
    have hplain : ("r".contains '\x00') = false := by simp
    refine Workspace.read_of_locate (p := ["r"]) ?_ rfl
    simp only [Workspace.locate, Workspace.names, hpieces, hplain]
    rfl
  exact (compare_self twins).2.2.2 _ none "r" _ true hcoherent hread
    (Schema.readText_toText twins)

/-- With different drawers in the two cabinets the room differs from itself. -/
theorem doubled_differs :
    (Diff.compare ⟨"Room", [cabinet ["left"], cabinet ["right"]]⟩
        ⟨"Room", [cabinet ["left"], cabinet ["right"]]⟩).isEmpty = false
      ∧ (Diff.compare ⟨"Room", [cabinet ["left"], cabinet ["right"]]⟩
          ⟨"Room", [cabinet ["left"], cabinet ["right"]]⟩).isBreaking = true := by
  decide

end ApiBaseline
