import ApiBaseline.Proofs.Generate
import ApiBaseline.Proofs.List
import ApiBaseline.Workspace.Basic

/-!
# What writing leaves alone

Making directories adds directories and touches nothing else (`AddsDirectories`,
`addsDirectories_makeDirectories`). Writing a text puts its bytes at one place, and
the path that was written to leads to that place and reads the text back
(`exists_of_write`).
-/

namespace ApiBaseline.Workspace

variable {w w' w'' : Workspace} {p q : Place} {e : Entry} {path text : String}
  {bytes : ByteArray}

/-! ## One entry -/

theorem get?_of_isAround (h : p.isAround = true) : w.get? p = some .directory :=
  if_pos h

theorem get?_put_self (h : p.isAround = false) : get? (w.put p e) p = some e := by
  rw [get?, h, if_neg Bool.false_ne_true]
  exact List.lookup_cons_self

theorem get?_put_of_ne (h : q ≠ p) : get? (w.put p e) q = w.get? q := by
  have hlookup : (w.put p e).entries.lookup q = w.entries.lookup q := by
    rw [put, List.lookup_cons, beq_false_of_ne h]
    exact lookup_filter_ne h w.entries
  rw [get?, get?, hlookup]

/-! ## Making directories -/

/-- Whatever lies in the one workspace lies in the other, and what else lies in
that one is a directory. -/
structure AddsDirectories (w w' : Workspace) : Prop where
  kept : ∀ {q e}, w.get? q = some e → w'.get? q = some e
  file : ∀ {q bytes}, w'.get? q = some (.file bytes) → w.get? q = some (.file bytes)

namespace AddsDirectories

theorem refl (w : Workspace) : AddsDirectories w w := ⟨id, id⟩

theorem trans (h : AddsDirectories w w') (h' : AddsDirectories w' w'') :
    AddsDirectories w w'' :=
  ⟨fun hq => h'.kept (h.kept hq), fun hq => h.file (h'.file hq)⟩

theorem put (h : w.get? p = none) : AddsDirectories w (w.put p .directory) := by
  -- Around the working directory something lies everywhere.
  have haround : p.isAround = false := by
    cases haround : p.isAround with
    | false => rfl
    | true => cases (get?_of_isAround haround).symm.trans h
  refine ⟨fun {q e} hq => ?_, fun {q bytes} hq => ?_⟩
  · have hne : q ≠ p := by
      rintro rfl
      cases hq.symm.trans h
    rw [get?_put_of_ne hne, hq]
  · by_cases hne : q = p
    · subst hne
      cases (get?_put_self haround).symm.trans hq
    · rwa [get?_put_of_ne hne] at hq

/-- Every file has the bytes that it had. -/
theorem file_iff (h : AddsDirectories w w') :
    w'.get? q = some (.file bytes) ↔ w.get? q = some (.file bytes) :=
  ⟨h.file, h.kept⟩

end AddsDirectories

theorem addsDirectories_makeDirectory (h : w.makeDirectory path = .ok w') :
    AddsDirectories w w' := by
  obtain ⟨ns, -, h⟩ := bind_eq_ok h
  obtain ⟨parent, -, h⟩ := bind_eq_ok h
  obtain ⟨-, -, h⟩ := bind_eq_ok h
  split at h
  · split at h
    · cases h
    · dsimp only at h
      split at h
      · cases h
      · next hnone =>
        obtain rfl := Except.ok.inj h
        exact .put (Option.not_isSome_iff_eq_none.mp hnone)
  · cases h

theorem addsDirectories_ensureDirectory (h : w.ensureDirectory path = .ok w') :
    AddsDirectories w w' := by
  unfold ensureDirectory at h
  split at h
  · next hmade =>
    obtain rfl := Except.ok.inj h
    exact addsDirectories_makeDirectory hmade
  · split at h
    · obtain rfl := Except.ok.inj h
      exact .refl w
    · cases h

/-- Nothing but directories appears, whether they can all be made or not. -/
theorem addsDirectories_makeDirectories (steps : Nat) (w : Workspace) (path : String) :
    AddsDirectories w (w.makeDirectories steps path).2 := by
  induction steps generalizing w path with
  | zero => exact .refl w
  | succ steps ih =>
      unfold makeDirectories
      split
      · exact .refl w
      · split
        · next h => exact addsDirectories_ensureDirectory h
        · split
          · exact .refl w
          -- What is made above stays, whether the directory itself can be made or not.
          · next parent _ =>
            have habove := ih w parent
            split
            · next h => rwa [h] at habove
            · next h =>
              rw [h] at habove
              split
              · next h => exact habove.trans (addsDirectories_ensureDirectory h)
              · exact habove
        · exact .refl w

/-! ## Writing a text -/

/-- All directories of the one workspace are directories of the other. -/
def KeepsDirectories (w w' : Workspace) : Prop :=
  ∀ q, w.get? q = some .directory → w'.get? q = some .directory

theorem checkDirectory_eq_ok : w.checkDirectory p = .ok () ↔ w.get? p = some .directory := by
  unfold checkDirectory
  split <;> simp_all

theorem KeepsDirectories.put (h : w.get? p ≠ some .directory) :
    KeepsDirectories w (w.put p e) := by
  intro q hq
  have hne : q ≠ p := by
    rintro rfl
    exact h hq
  rw [get?_put_of_ne hne, hq]

/-- A path that can be followed leads to the same place as long as directories
stay where they are. -/
theorem KeepsDirectories.follow (h : KeepsDirectories w w') {ns : List String}
    (hfollow : w.follow p ns = .ok q) : w'.follow p ns = .ok q := by
  induction ns generalizing p with
  | nil => exact hfollow
  | cons name ns ih =>
      obtain ⟨⟨⟩, hcheck, hrest⟩ := bind_eq_ok hfollow
      have hcheck' := checkDirectory_eq_ok.mpr (h p (checkDirectory_eq_ok.mp hcheck))
      rw [Workspace.follow, hcheck']
      exact ih hrest

theorem follow_append {parent : Place} {ns ms : List String}
    (h : w.follow p ns = .ok parent) : w.follow p (ns ++ ms) = w.follow parent ms := by
  induction ns generalizing p with
  | nil => rw [← Except.ok.inj h, List.nil_append]
  | cons name ns ih =>
      obtain ⟨⟨⟩, hcheck, hrest⟩ := bind_eq_ok h
      rw [List.cons_append, Workspace.follow, hcheck]
      exact ih hrest

theorem dropEmptyEnd_of_getLast? {ns : List String} {name : String}
    (h : ns.getLast? = some name) (hname : name ≠ "") : dropEmptyEnd ns = ns := by
  rw [List.getLast?_eq_some_iff] at h
  obtain ⟨front, rfl⟩ := h
  rw [dropEmptyEnd, List.reverse_append, List.reverse_singleton, List.singleton_append,
    List.dropWhile_cons_of_neg (by simpa using hname), List.reverse_cons, List.reverse_reverse]

/-- Where a file is put is where its path leads, once something lies there. -/
theorem locate_of_target (h : w.target path = .ok p) : w.locate path = .ok p := by
  obtain ⟨ns, hns, h⟩ := bind_eq_ok h
  obtain ⟨parent, hparent, h⟩ := bind_eq_ok h
  obtain ⟨⟨⟩, hcheck, h⟩ := bind_eq_ok h
  split at h
  · next name hname =>
    split at h
    · cases h
    · next hplain =>
      obtain rfl := Except.ok.inj h
      simp only [Bool.or_eq_true, decide_eq_true_eq, not_or] at hplain
      obtain ⟨⟨hempty, hdot⟩, hdots⟩ := hplain
      rw [dropEmptyEnd_of_getLast? hname hempty] at hparent
      obtain ⟨front, rfl⟩ := List.getLast?_eq_some_iff.mp hname
      rw [List.dropLast_concat] at hparent
      have hlast : w.follow parent [name] = .ok (parent ++ [name]) := by
        simp only [Workspace.follow, hcheck, hempty, hdot, hdots, decide_false, Bool.or_self,
          Bool.false_eq_true, if_false]
        rfl
      simp only [locate, hns]
      exact (follow_append hparent).trans hlast
  · cases h

/-- The text is read back by the same path, and all other places are as they were. -/
theorem exists_of_write (h : w.write path text = .ok w') :
    ∃ p, w'.locate path = .ok p ∧ w'.get? p = some (.file text.toUTF8)
      ∧ w'.read path = .ok text ∧ ∀ q, q ≠ p → w'.get? q = w.get? q := by
  obtain ⟨p, htarget, h⟩ := bind_eq_ok h
  split at h
  · cases h
  · next hentry =>
    obtain rfl := Except.ok.inj h
    -- No file is put where a directory is, and around there are only directories.
    have haround : p.isAround = false := by
      cases haround : p.isAround with
      | false => rfl
      | true => exact absurd (get?_of_isAround haround) hentry
    have hkeeps : KeepsDirectories w (w.put p (.file text.toUTF8)) := .put hentry
    have hlocate : (w.put p (.file text.toUTF8)).locate path = .ok p := by
      obtain ⟨ns, hns, hfollow⟩ := bind_eq_ok (locate_of_target htarget)
      simp only [locate, hns]
      exact hkeeps.follow hfollow
    have hput : (w.put p (.file text.toUTF8)).get? p = some (.file text.toUTF8) :=
      get?_put_self haround
    exact ⟨p, hlocate, hput, read_of_locate hlocate hput, fun q hne => get?_put_of_ne hne⟩

end ApiBaseline.Workspace
