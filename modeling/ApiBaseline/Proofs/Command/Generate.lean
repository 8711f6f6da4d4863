import ApiBaseline.Proofs.Diff.Self
import ApiBaseline.Proofs.Schema.Malformed
import ApiBaseline.Proofs.Schema.Manifest
import ApiBaseline.Proofs.Workspace.Frame

/-!
# Generating is all or nothing

The document that a workspace yields under options is the outcome of three stages,
none of which writes (`Generates`). If a stage fails, the command fails with its error
(`Fails`) and the workspace stays as it is. Otherwise the document is what is printed,
or what the file at the given path holds afterwards, and all other files keep their
bytes (`run_generate_atomic`).
-/

namespace ApiBaseline.Command

variable {w w' : Workspace} {environment : Option String} {o : GenerateOptions}
  {d : Document} {e : CommandError} {path : String} {α β : Type}

/-! ## Steps in a workspace -/

section

variable {s : Steps (StateM Workspace) α} {k : α → Steps (StateM Workspace) β} {a : α} {b : β}

theorem run_bind_ok (h : s.run.run w = (.ok a, w')) :
    (s >>= k).run.run w = (k a).run.run w' := by
  rw [ExceptT.run_bind, StateT.run_bind, h]
  rfl

theorem run_bind_error (h : s.run.run w = (.error e, w')) :
    (s >>= k).run.run w = (.error e, w') := by
  rw [ExceptT.run_bind, StateT.run_bind, h]
  rfl

theorem exists_of_run_bind (h : (s >>= k).run.run w = (.ok b, w')) :
    ∃ a middle, s.run.run w = (.ok a, middle) ∧ (k a).run.run middle = (.ok b, w') := by
  cases hs : s.run.run w with
  | mk r middle =>
      cases r with
      | ok a => exact ⟨a, middle, rfl, (run_bind_ok hs).symm.trans h⟩
      | error e => cases (run_bind_error hs).symm.trans h

end

/-! ## Stages -/

/-- The file at a path can be read as this. -/
def Holds (w : Workspace) (format : TextFormat) (read : Schema.Reader α) (path : String)
    (a : α) : Prop :=
  ∃ text, w.read path = .ok text ∧ Schema.readText format read text = .ok a

/-- The file at a path cannot be read, or its text is refused. -/
inductive Lacks (w : Workspace) (format : TextFormat) (read : Schema.Reader α)
    (path : String) : CommandError → Prop where
  | unread {e : FileError} (h : w.read path = .error e) : Lacks w format read path (.file path e)
  | refused {text : String} {fault : Schema.Fault} (hread : w.read path = .ok text)
      (h : Schema.readText format read text = .error fault) :
      Lacks w format read path (.malformed path fault)

/-- The settings at a path, or the standard ones. -/
inductive Configures (w : Workspace) : Option String → Settings → Prop where
  | standard : Configures w none Settings.default
  | file {path : String} {settings : Settings}
      (h : Holds w .yaml Schema.readSettings path settings) : Configures w (some path) settings

/-- The settings can be loaded, the manifest can be loaded, and the document is the
one of the manifest under the settings with what the options override. -/
inductive Generates (w : Workspace) (environment : Option String) (o : GenerateOptions) :
    Document → Prop where
  | of {settings : Settings} {manifest : Manifest} {d : Document}
      (hsettings : Configures w (o.config.or environment) settings)
      (hmanifest : Holds w (manifestFormat o.module) Schema.readManifest o.module manifest)
      (hdocument : (Module.ofManifest manifest).generate
        (.ofSettings (settings.withOverrides o.publicOnly o.excludeNamespaces)) = .ok d) :
      Generates w environment o d

/-- The settings cannot be loaded, or else the manifest cannot be loaded, or else there
is no document of it. -/
inductive Fails (w : Workspace) (environment : Option String) (o : GenerateOptions) :
    CommandError → Prop where
  | settings {path : String} {e : CommandError} (hpath : o.config.or environment = some path)
      (h : Lacks w .yaml Schema.readSettings path e) : Fails w environment o e
  | manifest {settings : Settings} {e : CommandError}
      (hsettings : Configures w (o.config.or environment) settings)
      (h : Lacks w (manifestFormat o.module) Schema.readManifest o.module e) :
      Fails w environment o e
  | document {settings : Settings} {manifest : Manifest} {e : ClassifyError}
      (hsettings : Configures w (o.config.or environment) settings)
      (hmanifest : Holds w (manifestFormat o.module) Schema.readManifest o.module manifest)
      (h : (Module.ofManifest manifest).generate
        (.ofSettings (settings.withOverrides o.publicOnly o.excludeNamespaces)) = .error e) :
      Fails w environment o (.generation o.module e)

section

variable {format : TextFormat} {read : Schema.Reader α}

theorem run_onFile (action : StateM Workspace (Except FileError α)) (w : Workspace)
    (path : String) : (onFile path action).run.run w
      = ((action.run w).1.mapError (.file path), (action.run w).2) := rfl

theorem run_read (w : Workspace) (path : String) :
    (onFile (m := StateM Workspace) path (FileStore.read path)).run.run w
      = ((w.read path).mapError (.file path), w) := rfl

theorem load_of_holds {a : α} (h : Holds w format read path a) :
    (load (m := StateM Workspace) format read path).run.run w = (.ok a, w) := by
  obtain ⟨text, hread, htext⟩ := h
  exact load_run hread htext

theorem holds_or_lacks (w : Workspace) (format : TextFormat) (read : Schema.Reader α)
    (path : String) : (∃ a, Holds w format read path a) ∨ ∃ e, Lacks w format read path e := by
  cases hread : w.read path with
  | error e => exact Or.inr ⟨_, .unread hread⟩
  | ok text =>
      cases htext : Schema.readText format read text with
      | ok a => exact Or.inl ⟨a, text, hread, htext⟩
      | error fault => exact Or.inr ⟨_, .refused hread htext⟩

theorem load_of_lacks (h : Lacks w format read path e) :
    (load (m := StateM Workspace) format read path).run.run w = (.error e, w) := by
  have hfile := run_read w path
  cases h with
  | unread hread =>
      rw [hread] at hfile
      exact run_bind_error hfile
  | refused hread htext =>
      rw [hread] at hfile
      refine (run_bind_ok hfile).trans ?_
      rw [htext]
      rfl

end

theorem loadSettings_of_configures {settings : Settings} {chosen : Option String}
    (h : Configures w chosen settings) :
    (loadSettings (m := StateM Workspace) chosen).run.run w = (.ok settings, w) := by
  cases h with
  | standard => rfl
  | file h => exact load_of_holds h

/-- Once settings and manifest are loaded, only the classification can fail. -/
theorem run_document {settings : Settings} {manifest : Manifest}
    (hsettings : Configures w (o.config.or environment) settings)
    (hmanifest : Holds w (manifestFormat o.module) Schema.readManifest o.module manifest) :
    (document (m := StateM Workspace) environment o).run.run w
      = (((Module.ofManifest manifest).generate (.ofSettings
          (settings.withOverrides o.publicOnly o.excludeNamespaces))).mapError
            (.generation o.module), w) :=
  (run_bind_ok (loadSettings_of_configures hsettings)).trans (run_bind_ok (load_of_holds hmanifest))

theorem document_of_generates (h : Generates w environment o d) :
    (document (m := StateM Workspace) environment o).run.run w = (.ok d, w) := by
  obtain ⟨hsettings, hmanifest, hdocument⟩ := h
  rw [run_document hsettings hmanifest, hdocument]
  rfl

/-- Where a stage fails nothing has been written. -/
theorem document_of_fails (h : Fails w environment o e) :
    (document (m := StateM Workspace) environment o).run.run w = (.error e, w) := by
  cases h with
  | settings hpath h =>
      rw [document, hpath]
      exact run_bind_error (load_of_lacks h)
  | manifest hsettings h =>
      exact (run_bind_ok (loadSettings_of_configures hsettings)).trans
        (run_bind_error (load_of_lacks h))
  | document hsettings hmanifest h =>
      rw [run_document hsettings hmanifest, h]
      rfl

/-- There is a document, or a stage fails. -/
theorem generates_or_fails (w : Workspace) (environment : Option String) (o : GenerateOptions) :
    (∃ d, Generates w environment o d) ∨ ∃ e, Fails w environment o e := by
  have hconfigured : (∃ settings, Configures w (o.config.or environment) settings)
      ∨ ∃ e, Fails w environment o e := by
    cases hpath : o.config.or environment with
    | none => exact Or.inl ⟨_, .standard⟩
    | some path =>
        rcases holds_or_lacks w .yaml Schema.readSettings path with ⟨settings, h⟩ | ⟨e, h⟩
        · exact Or.inl ⟨settings, .file h⟩
        · exact Or.inr ⟨e, .settings hpath h⟩
  obtain ⟨settings, hsettings⟩ | hfails := hconfigured
  · rcases holds_or_lacks w (manifestFormat o.module) Schema.readManifest o.module with
      ⟨manifest, hmanifest⟩ | ⟨e, h⟩
    · cases hdocument : (Module.ofManifest manifest).generate
          (.ofSettings (settings.withOverrides o.publicOnly o.excludeNamespaces)) with
      | ok d => exact Or.inl ⟨d, .of hsettings hmanifest hdocument⟩
      | error e => exact Or.inr ⟨_, .document hsettings hmanifest hdocument⟩
    · exact Or.inr ⟨e, .manifest hsettings h⟩
  · exact Or.inr hfails

/-- Only a reference in the manifest can end the program. -/
theorem Fails.exists_of_isCrash (h : Fails w environment o e) (hcrash : e.isCrash = true) :
    ∃ text offset, w.read o.module = .ok text
      ∧ Schema.readText (manifestFormat o.module) Schema.readManifest text
        = .error (.reference (.splitCharacter offset)) := by
  cases h with
  | settings hpath h =>
      cases h with
      | unread hread => cases hcrash
      | refused hread htext =>
          obtain rfl := Schema.readSettings_referenceFree.readText htext
          cases hcrash
  | manifest hsettings h =>
      cases h with
      | unread hread => cases hcrash
      | @refused text fault hread htext =>
          cases fault with
          | malformed => cases hcrash
          | reference error =>
              cases error with
              | refused => cases hcrash
              | splitCharacter offset => exact ⟨text, offset, hread, htext⟩
  | document hsettings hmanifest h => cases hcrash

/-! ## Saving -/

theorem run_write_ok {text : String} : (onFile (m := StateM Workspace) path
      (FileStore.write path text)).run.run w = (.ok (), w') ↔ w.write path text = .ok w' := by
  rw [run_onFile]
  cases hwrite : w.write path text with
  | ok written =>
      have hrun : (FileStore.write (m := StateM Workspace) path text).run w
          = (.ok (), written) := by
        simp only [FileStore.write, StateT.run_modifyGet, hwrite]
        rfl
      rw [hrun]
      constructor
      · rintro ⟨⟩
        rfl
      · rintro ⟨⟩
        rfl
  | error e =>
      have hrun : (FileStore.write (m := StateM Workspace) path text).run w = (.error e, w) := by
        simp only [FileStore.write, StateT.run_modifyGet, hwrite]
        rfl
      rw [hrun]
      exact ⟨nofun, nofun⟩

/-- Directories may appear, then the text is written to its path. -/
theorem exists_of_save (h : (save (m := StateM Workspace) path d).run.run w = (.ok (), w')) :
    ∃ middle, w.AddsDirectories middle ∧ middle.write path d.toText = .ok w' := by
  unfold save at h
  split at h
  · next parent _ =>
    obtain ⟨⟨⟩, middle, hparent, hwrite⟩ := exists_of_run_bind h
    have hmiddle : (w.makeDirectories (parent.length + 1) parent).2 = middle :=
      congrArg Prod.snd hparent
    refine ⟨middle, ?_, run_write_ok.mp hwrite⟩
    rw [← hmiddle]
    exact Workspace.addsDirectories_makeDirectories _ w parent
  · exact ⟨w, .refl w, run_write_ok.mp h⟩

/-! ## The command -/

theorem run_generate_of_error
    (h : (generateSteps (m := StateM Workspace) environment o).run.run w = (.error e, w')) :
    (run (m := StateM Workspace) environment (.generate o)).run w = (⟨"", some e⟩, w') := by
  rw [run, StateT.run_bind, h]
  rfl

theorem run_generate_of_ok {output : String}
    (h : (generateSteps (m := StateM Workspace) environment o).run.run w = (.ok output, w')) :
    (run (m := StateM Workspace) environment (.generate o)).run w = (⟨output, none⟩, w') := by
  rw [run, StateT.run_bind, h]
  rfl

/-- Where the document goes does not matter for what it is. -/
theorem Generates.print (h : Generates w environment o d) :
    Generates w environment { o with out := none } d := by
  obtain ⟨hsettings, hmanifest, hdocument⟩ := h
  exact ⟨hsettings, hmanifest, hdocument⟩

theorem generateSteps_print (h : Generates w environment o d) (hout : o.out = none) :
    (generateSteps (m := StateM Workspace) environment o).run.run w = (.ok d.toText, w) := by
  refine (run_bind_ok (document_of_generates h)).trans ?_
  rw [hout]
  rfl

/-- With a path the command succeeds exactly when the document can be saved. -/
theorem run_generate_save (h : Generates w environment o d) (hout : o.out = some path)
    {output : String} :
    (run (m := StateM Workspace) environment (.generate o)).run w = (⟨output, none⟩, w')
      ↔ output = savedText path d
        ∧ (save (m := StateM Workspace) path d).run.run w = (.ok (), w') := by
  have hsteps : (generateSteps (m := StateM Workspace) environment o).run.run w
      = (do save path d; return savedText path d : Steps (StateM Workspace) String).run.run w := by
    refine (run_bind_ok (document_of_generates h)).trans ?_
    rw [hout]
  cases hsave : (save (m := StateM Workspace) path d).run.run w with
  | mk r saved =>
      cases r with
      | ok u =>
          rw [run_generate_of_ok (hsteps.trans ((run_bind_ok hsave).trans rfl))]
          constructor
          · rintro ⟨⟩
            exact ⟨rfl, rfl⟩
          · rintro ⟨rfl, ⟨⟩⟩
            rfl
      | error e =>
          rw [run_generate_of_error (hsteps.trans (run_bind_error hsave))]
          exact ⟨nofun, fun h => nomatch h.2⟩

/-- Without a document the command fails with the error of the first stage that fails,
and leaves all files and directories as they are. It returns this error, unless a
reference in the manifest ends the program. When it succeeds with a path, the file there
holds the document, in the text that is printed without a path, and every other file has
the bytes it had. -/
theorem run_generate_atomic (w : Workspace) (environment : Option String)
    (o : GenerateOptions) :
    ((¬ ∃ d, Generates w environment o d) →
        ∃ e, Fails w environment o e
          ∧ (run (m := StateM Workspace) environment (.generate o)).run w = (⟨"", some e⟩, w)
          ∧ (e.isCrash = true → ∃ text offset, w.read o.module = .ok text
            ∧ Schema.readText (manifestFormat o.module) Schema.readManifest text
              = .error (.reference (.splitCharacter offset))))
      ∧ ∀ (path output : String) (w' : Workspace), o.out = some path →
        (run (m := StateM Workspace) environment (.generate o)).run w = (⟨output, none⟩, w') →
        ∃ d p, Generates w environment o d
          ∧ (load (m := StateM Workspace) .json Schema.readDocument path).run.run w' = (.ok d, w')
          ∧ w'.locate path = .ok p ∧ w'.get? p = some (.file d.toText.toUTF8)
          ∧ w'.read path = .ok d.toText
          ∧ (run (m := StateM Workspace) environment (.generate { o with out := none })).run w
            = (⟨d.toText, none⟩, w)
          ∧ ∀ q, q ≠ p → ∀ bytes,
              w'.get? q = some (.file bytes) ↔ w.get? q = some (.file bytes) := by
  have hfails : ∀ {e}, Fails w environment o e →
      (run (m := StateM Workspace) environment (.generate o)).run w = (⟨"", some e⟩, w) :=
    fun h => run_generate_of_error (run_bind_error (document_of_fails h))
  constructor
  · intro hnone
    obtain hsome | ⟨e, he⟩ := generates_or_fails w environment o
    · exact absurd hsome hnone
    · exact ⟨e, he, hfails he, he.exists_of_isCrash⟩
  · intro path output w' hout hrun
    obtain ⟨d, hd⟩ | ⟨e, he⟩ := generates_or_fails w environment o
    · obtain ⟨-, hsave⟩ := (run_generate_save hd hout).mp hrun
      obtain ⟨middle, hadds, hwrite⟩ := exists_of_save hsave
      obtain ⟨p, hlocate, hput, hread, hother⟩ := Workspace.exists_of_write hwrite
      refine ⟨d, p, hd, load_run hread (Schema.readText_toText d), hlocate, hput, hread, ?_, ?_⟩
      · exact run_generate_of_ok (generateSteps_print hd.print rfl)
      · intro q hq bytes
        rw [hother q hq, hadds.file_iff]
    -- Where a stage fails so does the command, and there is no output.
    · cases (hfails he).symm.trans hrun

/-- A module with one type. -/
def shade : Manifest :=
  ⟨"Shade", [openClass "Cloth" [] none []], [], []⟩

def shadeDocument : Document :=
  ⟨"Shade", [⟨"Cloth", .class, .public, false, false, false, none, [], [], []⟩]⟩

/-- The manifest, an earlier document of it, and a file that holds no text. -/
def desk : Workspace :=
  ⟨[(["m.json"], .file shade.toJson.line.toUTF8), (["b"], .file "earlier".toUTF8),
    (["s"], .file ⟨#[0xff]⟩)]⟩

theorem names_desk : Workspace.names "m.json" = .ok ["m.json"] ∧ Workspace.names "b" = .ok ["b"]
    ∧ Workspace.names "s" = .ok ["s"] := by
  have hmodule : Path.pieces "m.json" = ["m.json"] := by
    rw [Path.pieces, String.splitOn, if_neg (by decide)]
    iterate 7 rw [String.splitOnAux]
    decide
  have hbase : Path.pieces "b" = ["b"] := by
    rw [Path.pieces, String.splitOn, if_neg (by decide), String.splitOnAux, String.splitOnAux]
    decide
  have hsettings : Path.pieces "s" = ["s"] := by
    rw [Path.pieces, String.splitOn, if_neg (by decide), String.splitOnAux, String.splitOnAux]
    decide
  simp [Workspace.names, hmodule, hbase, hsettings]

theorem desk_generates :
    Generates desk none ⟨"m.json", some "b", none, false, []⟩ shadeDocument := by
  have hread : desk.read "m.json" = .ok shade.toJson.line := by
    refine Workspace.read_of_locate (p := ["m.json"]) ?_ rfl
    rw [Workspace.locate, names_desk.1]
    rfl
  have hformat : manifestFormat "m.json" = .json := by
    have hextension : Path.extension? "m.json" = some "json" := by decide
    have hlower : "json".map Char.toLower = "json" := by decide +kernel
    rw [manifestFormat, Path.isJson, hextension, Option.any_some, hlower]
    rfl
  have hmanifest : Schema.readText (manifestFormat "m.json") Schema.readManifest shade.toJson.line
      = .ok shade := by
    rw [hformat]
    exact Schema.readText_toJson (by decide) (by decide) List.mem_cons_self
  exact .of .standard ⟨_, hread, hmanifest⟩ rfl

theorem desk_saves : (save (m := StateM Workspace) "b" shadeDocument).run.run desk
    = (.ok (), desk.put ["b"] (.file shadeDocument.toText.toUTF8)) := by
  have hparent : (Path.parent? "b").filter (!·.isEmpty) = none := by decide
  have hwrite : desk.write "b" shadeDocument.toText
      = .ok (desk.put ["b"] (.file shadeDocument.toText.toUTF8)) := by
    rw [Workspace.write, Workspace.target, names_desk.2.1]
    rfl
  rw [save, hparent]
  exact run_write_ok.mpr hwrite

/-- Settings that are no text leave the earlier document in its place, and are the error
that is returned. Without settings the new document takes the place. -/
theorem desk_keeps_or_replaces :
    (run (m := StateM Workspace) none (.generate ⟨"m.json", some "b", some "s", false, []⟩)).run
        desk = (⟨"", some (.file "s" .notText)⟩, desk)
      ∧ ∃ (output : String) (d : Document) (w' : Workspace),
        (run (m := StateM Workspace) none
          (.generate ⟨"m.json", some "b", none, false, []⟩)).run desk = (⟨output, none⟩, w')
        ∧ w'.read "b" = .ok d.toText
        ∧ (run (m := StateM Workspace) none
          (.generate ⟨"m.json", none, none, false, []⟩)).run desk = (⟨d.toText, none⟩, desk) := by
  have hunread : desk.read "s" = .error .notText := by
    have hnone : String.fromUTF8? ⟨#[0xff]⟩ = none := by decide
    rw [Workspace.read, Workspace.locate, names_desk.2.2]
    show textOfBytes ⟨#[0xff]⟩ = _
    rw [textOfBytes, hnone]
  have hunconfigured : ∀ settings, ¬ Configures desk (some "s") settings := by
    rintro settings (- | ⟨text, hread, -⟩)
    cases hread.symm.trans hunread
  have hnone : ¬ ∃ d, Generates desk none ⟨"m.json", some "b", some "s", false, []⟩ d := by
    rintro ⟨d, hsettings, -, -⟩
    exact hunconfigured _ hsettings
  constructor
  · obtain ⟨e, hfails, hrun, -⟩ := (run_generate_atomic desk none _).1 hnone
    cases hfails with
    | settings hpath h =>
        obtain rfl := Option.some.inj hpath
        cases h with
        | unread hread =>
            obtain rfl := Except.error.inj (hread.symm.trans hunread)
            exact hrun
        | refused hread htext => cases hread.symm.trans hunread
    | manifest hsettings h => exact absurd hsettings (hunconfigured _)
    | document hsettings hmanifest h => exact absurd hsettings (hunconfigured _)
  · have hrun := (run_generate_save desk_generates rfl).mpr ⟨rfl, desk_saves⟩
    obtain ⟨d, p, -, -, -, -, hread, hprint, -⟩ :=
      (run_generate_atomic desk none _).2 _ _ _ rfl hrun
    exact ⟨_, d, _, hrun, hread, hprint⟩

end ApiBaseline.Command
