import ApiBaseline.Proofs.Diff.Keys
import ApiBaseline.Proofs.List

/-!
# What a report says

A report has one paragraph for the removed types, one for the added types and one for
each changed type: a heading, and under it lines that are set in. Whatever the
identifiers are, no heading is set in, so a text has one reading in paragraphs
(`flatMap_lines_inj`), and the mark of a line tells whether its identifier was removed or
added. So a difference can be read off its report, as long as identifiers have no line
breaks in them (`report_injective`).
-/

namespace ApiBaseline

/-! ## Paragraphs -/

/-- The line is set in. -/
def isItem (line : String) : Bool := line.toList.head? == some ' '

/-- A heading with the lines under it. -/
structure Paragraph where
  heading : String
  items : List String

namespace Paragraph

/-- The lines under the heading are set in, and the heading is not. -/
structure WellFormed (p : Paragraph) : Prop where
  heading : isItem p.heading = false
  items : ∀ i ∈ p.items, isItem i = true

def lines (p : Paragraph) : List String := p.heading :: p.items

variable {ps qs : List Paragraph}

theorem head_flatMap_lines (hps : ∀ p ∈ ps, p.WellFormed) :
    ∀ l ∈ (ps.flatMap lines).head?, isItem l = false := by
  cases ps with
  | nil => exact fun _ hl => nomatch hl
  | cons p ps =>
      intro l hl
      obtain rfl := Option.some.inj hl
      exact (hps p List.mem_cons_self).heading

/-- **A text has one reading in paragraphs.** -/
theorem flatMap_lines_inj (hps : ∀ p ∈ ps, p.WellFormed) (hqs : ∀ q ∈ qs, q.WellFormed)
    (h : ps.flatMap lines = qs.flatMap lines) : ps = qs := by
  induction ps generalizing qs with
  | nil =>
      cases qs with
      | nil => rfl
      | cons q qs => cases h
  | cons p ps ih =>
      cases qs with
      | nil => cases h
      | cons q qs =>
          obtain ⟨hp, hps⟩ := List.forall_mem_cons.mp hps
          obtain ⟨hq, hqs⟩ := List.forall_mem_cons.mp hqs
          rw [List.flatMap_cons, List.flatMap_cons, lines, lines, List.cons_append,
            List.cons_append, List.cons.injEq] at h
          obtain ⟨hitems, hrest⟩ := eq_of_append_run hp.items hq.items (head_flatMap_lines hps)
            (head_flatMap_lines hqs) h.2
          have hsame : p = q := by
            cases p
            cases q
            exact congrArg₂ mk h.1 hitems
          rw [hsame, ih hps hqs hrest]

/-- In a text of paragraphs, what is set in below a heading is of a paragraph with
that heading. -/
theorem exists_of_append (hps : ∀ p ∈ ps, p.WellFormed) {front items back : List String}
    {heading : String} (hheading : isItem heading = false) (hitems : ∀ i ∈ items, isItem i = true)
    (h : ps.flatMap lines = front ++ heading :: (items ++ back)) :
    ∃ p ∈ ps, p.heading = heading ∧ items ⊆ p.items := by
  induction ps generalizing front with
  | nil => cases front <;> cases h
  | cons p ps ih =>
      obtain ⟨hp, hps⟩ := List.forall_mem_cons.mp hps
      rw [List.flatMap_cons, lines, List.cons_append] at h
      cases front with
      | nil =>
          obtain ⟨hsame, h⟩ := List.cons.inj h
          refine ⟨p, List.mem_cons_self, hsame, fun i hi => ?_⟩
          -- The set-in lines go on until the next heading.
          have hrun := congrArg (List.takeWhile isItem) h
          rw [takeWhile_append_run hp.items (head_flatMap_lines hps),
            List.takeWhile_append_of_pos hitems] at hrun
          exact hrun ▸ List.mem_append_left _ hi
      | cons l front =>
          obtain ⟨-, h⟩ := List.cons.inj h
          -- The heading is none of the lines of this paragraph.
          rcases List.append_eq_append_iff.mp h with ⟨as, hfront, hrest⟩ | ⟨bs, hmine, hrest⟩
          · obtain ⟨q, hq, hfound⟩ := ih hps hrest
            exact ⟨q, List.mem_cons_of_mem _ hq, hfound⟩
          · cases bs with
            | nil =>
                obtain ⟨q, hq, hfound⟩ := ih hps (hrest.symm.trans (List.nil_append _).symm)
                exact ⟨q, List.mem_cons_of_mem _ hq, hfound⟩
            | cons b bs =>
                obtain ⟨rfl, -⟩ := List.cons.inj hrest
                have hitem := hp.items heading (hmine ▸ List.mem_append_right _ List.mem_cons_self)
                rw [hheading] at hitem
                cases hitem

theorem exists_append {p : Paragraph} (hp : p ∈ ps) :
    ∃ front back, ps.flatMap lines = front ++ p.heading :: (p.items ++ back) := by
  obtain ⟨front, back, rfl⟩ := List.append_of_mem hp
  exact ⟨front.flatMap lines, back.flatMap lines, by simp [lines]⟩

end Paragraph

/-! ## Paragraphs of a difference -/

namespace Diff

theorem isItem_removedLine (id : String) : isItem (removedLine id) = true := by
  simp [isItem, removedLine]

theorem isItem_addedLine (id : String) : isItem (addedLine id) = true := by
  simp [isItem, addedLine]

/-- A paragraph, or nothing if there are no lines for it. -/
def titledParagraph (heading : String) (items : List String) : List Paragraph :=
  if items = [] then [] else [⟨heading, items⟩]

def changeParagraph (c : TypeChange) : Paragraph where
  heading := "Changed: " ++ c.id
  items := c.removed.map removedLine ++ c.added.map addedLine

/-- The paragraphs of the report. -/
def paragraphs (d : Diff) : List Paragraph :=
  titledParagraph "Removed types:" (d.removedTypes.map removedLine)
    ++ titledParagraph "Added types:" (d.addedTypes.map addedLine)
    ++ d.changedTypes.map changeParagraph

theorem flatMap_titledParagraph (heading : String) (items : List String) :
    (titledParagraph heading items).flatMap Paragraph.lines = titled heading items := by
  cases items with
  | nil => rfl
  | cons i items => simp [titledParagraph, titled, Paragraph.lines]

theorem lines_eq (d : Diff) : d.lines = d.paragraphs.flatMap Paragraph.lines := by
  rw [lines, paragraphs, List.flatMap_append, List.flatMap_append, flatMap_titledParagraph,
    flatMap_titledParagraph, List.flatMap_map]
  rfl

theorem wellFormed_of_mem_paragraphs {d : Diff} : ∀ p ∈ d.paragraphs, p.WellFormed := by
  have hremoved : ∀ ids : List String, ∀ i ∈ ids.map removedLine, isItem i = true :=
    fun ids => List.forall_mem_map.mpr fun id _ => isItem_removedLine id
  have hadded : ∀ ids : List String, ∀ i ∈ ids.map addedLine, isItem i = true :=
    fun ids => List.forall_mem_map.mpr fun id _ => isItem_addedLine id
  have htitled : ∀ (heading : String) (items : List String), isItem heading = false →
      (∀ i ∈ items, isItem i = true) →
      ∀ p ∈ titledParagraph heading items, p.WellFormed := by
    intro heading items hheading hitems p hp
    unfold titledParagraph at hp
    split at hp
    · cases hp
    · obtain rfl := List.mem_singleton.mp hp
      exact ⟨hheading, hitems⟩
  simp only [paragraphs, List.forall_mem_append]
  refine ⟨⟨htitled _ _ (by decide) (hremoved _), htitled _ _ (by decide) (hadded _)⟩,
    List.forall_mem_map.mpr fun c _ => ⟨?_, List.forall_mem_append.mpr ⟨hremoved _, hadded _⟩⟩⟩
  simp [changeParagraph, isItem]

/-! ### What stands under which heading -/

/-- The lines under a heading, wherever it stands. -/
def itemsUnder (heading : String) (ps : List Paragraph) : List String :=
  (ps.filter (·.heading == heading)).flatMap (·.items)

theorem mem_itemsUnder {heading line : String} {ps : List Paragraph} :
    line ∈ itemsUnder heading ps ↔ ∃ p ∈ ps, p.heading = heading ∧ line ∈ p.items := by
  simp [itemsUnder, and_assoc]

theorem itemsUnder_append (heading : String) (ps qs : List Paragraph) :
    itemsUnder heading (ps ++ qs) = itemsUnder heading ps ++ itemsUnder heading qs := by
  simp [itemsUnder]

theorem itemsUnder_titled_self (heading : String) (items : List String) :
    itemsUnder heading (titledParagraph heading items) = items := by
  cases items <;> simp [itemsUnder, titledParagraph]

theorem itemsUnder_titled_of_ne {heading other : String} (h : other ≠ heading)
    (items : List String) : itemsUnder heading (titledParagraph other items) = [] := by
  cases items <;> simp [itemsUnder, titledParagraph, h]

theorem changed_ne {heading : String} (h : heading.toList.head? ≠ some 'C') (id : String) :
    "Changed: " ++ id ≠ heading := by
  rintro rfl
  simp at h

theorem itemsUnder_changed_of_head {heading : String} (h : heading.toList.head? ≠ some 'C')
    (cs : List TypeChange) : itemsUnder heading (cs.map changeParagraph) = [] := by
  simp [itemsUnder, List.filter_map, Function.comp_def, changeParagraph, changed_ne h]

variable (d : Diff)

theorem itemsUnder_removed :
    itemsUnder "Removed types:" d.paragraphs = d.removedTypes.map removedLine := by
  rw [paragraphs, itemsUnder_append, itemsUnder_append, itemsUnder_titled_self,
    itemsUnder_titled_of_ne (by decide), itemsUnder_changed_of_head (by decide), List.append_nil,
    List.append_nil]

theorem itemsUnder_added :
    itemsUnder "Added types:" d.paragraphs = d.addedTypes.map addedLine := by
  rw [paragraphs, itemsUnder_append, itemsUnder_append, itemsUnder_titled_self,
    itemsUnder_titled_of_ne (by decide), itemsUnder_changed_of_head (by decide), List.append_nil,
    List.nil_append]

theorem itemsUnder_changed (id : String) :
    itemsUnder ("Changed: " ++ id) d.paragraphs
      = (d.changedTypes.filter (·.id == id)).flatMap fun c =>
          c.removed.map removedLine ++ c.added.map addedLine := by
  have hremoved : "Removed types:" ≠ "Changed: " ++ id := (changed_ne (by decide) id).symm
  have hadded : "Added types:" ≠ "Changed: " ++ id := (changed_ne (by decide) id).symm
  have hheading : ∀ c : TypeChange, ((changeParagraph c).heading == "Changed: " ++ id)
      = (c.id == id) := fun c => by
    simp [changeParagraph, String.append_right_inj]
  rw [paragraphs, itemsUnder_append, itemsUnder_append, itemsUnder_titled_of_ne hremoved,
    itemsUnder_titled_of_ne hadded, itemsUnder, List.filter_map]
  simp only [List.nil_append, Function.comp_def, hheading, List.flatMap_map]
  rfl

/-- The paragraph is of a changed type. -/
def isChange (p : Paragraph) : Bool := p.heading.toList.head? == some 'C'

theorem filter_titledParagraph {heading : String} (h : heading.toList.head? ≠ some 'C')
    (items : List String) : (titledParagraph heading items).filter isChange = [] := by
  cases items <;> simp [titledParagraph, isChange, h]

theorem filter_paragraphs : d.paragraphs.filter isChange = d.changedTypes.map changeParagraph := by
  rw [paragraphs, List.filter_append, List.filter_append, filter_titledParagraph (by decide),
    filter_titledParagraph (by decide), List.nil_append, List.nil_append, List.filter_eq_self]
  exact List.forall_mem_map.mpr fun c _ => by simp [changeParagraph, isChange]

/-! ### The difference of a report -/

theorem removedLine_injective : Function.Injective removedLine := fun _ _ h =>
  (String.append_right_inj "  - ").mp h

theorem addedLine_injective : Function.Injective addedLine := fun _ _ h =>
  (String.append_right_inj "  + ").mp h

/-- The line is marked as a removal. -/
def isRemoval (line : String) : Bool := line.toList[2]? == some '-'

theorem changeParagraph_injective : Function.Injective changeParagraph := by
  intro c e h
  obtain ⟨hheading, hitems⟩ := Paragraph.mk.inj h
  have hremoved : ∀ ids : List String, ∀ l ∈ ids.map removedLine, isRemoval l = true :=
    fun ids => List.forall_mem_map.mpr fun id _ => by simp [isRemoval, removedLine]
  have hadded : ∀ ids : List String, ∀ l ∈ (ids.map addedLine).head?, isRemoval l = false := by
    intro ids l hl
    obtain ⟨id, -, rfl⟩ := List.mem_map.mp (List.mem_of_head? hl)
    simp [isRemoval, addedLine]
  obtain ⟨hr, ha⟩ := eq_of_append_run (hremoved _) (hremoved _) (hadded _) (hadded _) hitems
  cases c
  cases e
  obtain rfl := (String.append_right_inj "Changed: ").mp hheading
  obtain rfl := List.map_injective_iff.mpr removedLine_injective hr
  obtain rfl := List.map_injective_iff.mpr addedLine_injective ha
  rfl

/-- The paragraphs determine the difference. -/
theorem paragraphs_injective : Function.Injective paragraphs := by
  intro d e h
  have hremoved := d.itemsUnder_removed
  have hadded := d.itemsUnder_added
  have hchanged := d.filter_paragraphs
  rw [h, itemsUnder_removed] at hremoved
  rw [h, itemsUnder_added] at hadded
  rw [h, filter_paragraphs] at hchanged
  cases d
  cases e
  obtain rfl := List.map_injective_iff.mpr removedLine_injective hremoved
  obtain rfl := List.map_injective_iff.mpr addedLine_injective hadded
  obtain rfl := List.map_injective_iff.mpr changeParagraph_injective hchanged
  rfl

theorem lines_injective : Function.Injective lines := by
  intro d e h
  rw [lines_eq, lines_eq] at h
  exact paragraphs_injective (Paragraph.flatMap_lines_inj wellFormed_of_mem_paragraphs
    wellFormed_of_mem_paragraphs h)

end Diff

/-! ## Texts -/

def textLines (text : String) : List String := (text.toList.splitOn '\n').map String.ofList

/-- The line is set in under the heading. -/
def StandsUnder (text heading line : String) : Prop :=
  ∃ front items back, textLines text = front ++ heading :: (items ++ back)
    ∧ (∀ i ∈ items, isItem i = true) ∧ line ∈ items

/-- No identifier has a line break in it. -/
structure Diff.IsOneLined (d : Diff) : Prop where
  removed : ∀ id ∈ d.removedTypes, '\n' ∉ id.toList
  added : ∀ id ∈ d.addedTypes, '\n' ∉ id.toList
  changed : ∀ c ∈ d.changedTypes, '\n' ∉ c.id.toList
    ∧ (∀ id ∈ c.removed, '\n' ∉ id.toList) ∧ ∀ id ∈ c.added, '\n' ∉ id.toList

theorem textLines_intercalate {ls : List String} (hls : ∀ l ∈ ls, '\n' ∉ l.toList)
    (hne : ls ≠ []) : textLines ("\n".intercalate ls) = ls := by
  have hbreak : "\n".toList = ['\n'] := rfl
  rw [textLines, String.toList_intercalate, hbreak,
    List.splitOn_intercalate '\n' (List.forall_mem_map.mpr hls) (by simpa using hne),
    List.map_map]
  simp [Function.comp_def]

namespace Diff

theorem isEmpty_iff_eq {d : Diff} : d.isEmpty = true ↔ d = ⟨[], [], []⟩ := by
  cases d
  simp [isEmpty, and_assoc]

theorem paragraphs_ne_nil {d : Diff} (h : d.isEmpty = false) : d.paragraphs ≠ [] := by
  intro hnil
  have hempty : d = ⟨[], [], []⟩ := paragraphs_injective hnil
  rw [isEmpty_iff_eq.mpr hempty] at h
  cases h

namespace IsOneLined

variable {d : Diff} (hd : d.IsOneLined)

include hd

theorem lines : ∀ l ∈ d.lines, '\n' ∉ l.toList := by
  have htitled : ∀ (heading : String) (items : List String), '\n' ∉ heading.toList →
      (∀ i ∈ items, '\n' ∉ i.toList) → ∀ l ∈ titled heading items, '\n' ∉ l.toList := by
    intro heading items hheading hitems
    cases items with
    | nil => exact List.forall_mem_nil _
    | cons i items => exact List.forall_mem_cons.mpr ⟨hheading, hitems⟩
  have hremoved : ∀ ids : List String, (∀ id ∈ ids, '\n' ∉ id.toList) →
      ∀ l ∈ ids.map removedLine, '\n' ∉ l.toList :=
    fun ids hids => List.forall_mem_map.mpr fun id hid => by simpa [removedLine] using hids id hid
  have hadded : ∀ ids : List String, (∀ id ∈ ids, '\n' ∉ id.toList) →
      ∀ l ∈ ids.map addedLine, '\n' ∉ l.toList :=
    fun ids hids => List.forall_mem_map.mpr fun id hid => by simpa [addedLine] using hids id hid
  rw [Diff.lines, List.forall_mem_append, List.forall_mem_append, List.forall_mem_flatMap]
  refine ⟨⟨htitled _ _ (by decide) (hremoved _ hd.removed),
    htitled _ _ (by decide) (hadded _ hd.added)⟩, fun c hc => ?_⟩
  obtain ⟨hid, hr, ha⟩ := hd.changed c hc
  rw [List.cons_append, List.forall_mem_cons, List.forall_mem_append]
  exact ⟨by simpa using hid, hremoved _ hr, hadded _ ha⟩

theorem textLines_report (hchanged : d.isEmpty = false) : textLines d.report = d.lines := by
  rw [report, hchanged, if_neg Bool.false_ne_true]
  refine textLines_intercalate hd.lines ?_
  rw [lines_eq, ne_eq, List.flatMap_eq_nil_iff]
  obtain ⟨p, hp⟩ := List.exists_mem_of_ne_nil _ (paragraphs_ne_nil hchanged)
  exact fun hnil => absurd (hnil p hp) (List.cons_ne_nil _ _)

/-- Read as a heading, the line that reports no changes is none of a report with
changes. -/
theorem report_eq_iff : d.report = "No API changes." ↔ d.isEmpty = true := by
  refine ⟨fun h => ?_, fun h => if_pos h⟩
  by_contra hchanged
  have hlines := hd.textLines_report (Bool.eq_false_iff.mpr hchanged)
  rw [h, lines_eq] at hlines
  have hparagraphs : d.paragraphs = [⟨"No API changes.", []⟩] := by
    refine Paragraph.flatMap_lines_inj wellFormed_of_mem_paragraphs ?_ hlines.symm
    exact List.forall_mem_singleton.mpr ⟨by decide, List.forall_mem_nil _⟩
  have hremoved := d.itemsUnder_removed
  have hadded := d.itemsUnder_added
  have hchanges := d.filter_paragraphs
  rw [hparagraphs] at hremoved hadded hchanges
  refine hchanged (isEmpty_iff_eq.mpr ?_)
  cases d
  obtain rfl := List.map_eq_nil_iff.mp hremoved.symm
  obtain rfl := List.map_eq_nil_iff.mp hadded.symm
  obtain rfl := List.map_eq_nil_iff.mp hchanges.symm
  rfl

theorem standsUnder_iff {heading line : String} (hheading : isItem heading = false) :
    StandsUnder d.report heading line ↔ line ∈ itemsUnder heading d.paragraphs := by
  rw [mem_itemsUnder]
  cases hchanged : d.isEmpty with
  | true =>
      obtain rfl := isEmpty_iff_eq.mp hchanged
      refine iff_of_false ?_ ?_
      -- The only line is no heading, since nothing stands below it.
      · rintro ⟨front, items, back, htext, -, hline⟩
        have hlength := congrArg List.length htext
        have hone : (textLines (report ⟨[], [], []⟩)).length = 1 := rfl
        have hpos : 0 < items.length := List.length_pos_of_mem hline
        simp only [hone, List.length_append, List.length_cons] at hlength
        omega
      · rintro ⟨p, hp, -⟩
        exact absurd hp List.not_mem_nil
  | false =>
      rw [StandsUnder, hd.textLines_report hchanged, lines_eq]
      constructor
      · rintro ⟨front, items, back, htext, hitems, hline⟩
        obtain ⟨p, hp, hsame, hsubset⟩ :=
          Paragraph.exists_of_append wellFormed_of_mem_paragraphs hheading hitems htext
        exact ⟨p, hp, hsame, hsubset hline⟩
      · rintro ⟨p, hp, rfl, hline⟩
        obtain ⟨front, back, htext⟩ := Paragraph.exists_append hp
        exact ⟨front, p.items, back, htext, (wellFormed_of_mem_paragraphs p hp).items, hline⟩

/-- A report is that of one difference. -/
theorem eq_of_report_eq {e : Diff} (he : e.IsOneLined) (h : d.report = e.report) : d = e := by
  have hempty : d.isEmpty = e.isEmpty := by
    rw [Bool.eq_iff_iff, ← hd.report_eq_iff, ← he.report_eq_iff, h]
  cases hchanged : d.isEmpty with
  | true =>
      rw [isEmpty_iff_eq.mp hchanged, isEmpty_iff_eq.mp (hempty.symm.trans hchanged)]
  | false =>
      apply lines_injective
      rw [← hd.textLines_report hchanged, h, he.textLines_report (hempty.symm.trans hchanged)]

end IsOneLined

/-- **A report determines its difference.** It tells of no changes only when there are
none, and what stands under each heading are the identifiers that it announces. -/
theorem report_injective {d e : Diff} (hd : d.IsOneLined) (he : e.IsOneLined) :
    (d.report = e.report → d = e)
      ∧ (d.report = "No API changes." ↔ d = ⟨[], [], []⟩)
      ∧ (∀ line, StandsUnder d.report "Removed types:" line
          ↔ ∃ id ∈ d.removedTypes, line = "  - " ++ id)
      ∧ (∀ line, StandsUnder d.report "Added types:" line
          ↔ ∃ id ∈ d.addedTypes, line = "  + " ++ id)
      ∧ ∀ typeId line, StandsUnder d.report ("Changed: " ++ typeId) line
          ↔ ∃ c ∈ d.changedTypes, c.id = typeId
              ∧ ((∃ id ∈ c.removed, line = "  - " ++ id)
                ∨ ∃ id ∈ c.added, line = "  + " ++ id) := by
  refine ⟨hd.eq_of_report_eq he, ?_, fun line => ?_, fun line => ?_, fun typeId line => ?_⟩
  · rw [hd.report_eq_iff, isEmpty_iff_eq]
  · rw [hd.standsUnder_iff (by decide), itemsUnder_removed, List.mem_map]
    simp only [removedLine, eq_comm]
  · rw [hd.standsUnder_iff (by decide), itemsUnder_added, List.mem_map]
    simp only [addedLine, eq_comm]
  · have hheading : isItem ("Changed: " ++ typeId) = false := by simp [isItem]
    rw [hd.standsUnder_iff hheading, itemsUnder_changed, List.mem_flatMap]
    simp only [List.mem_filter, beq_iff_eq, List.mem_append, List.mem_map, removedLine, addedLine,
      and_assoc, eq_comm (b := line)]

/-! ## Identifiers that look like headings -/

def disguised : Diff := ⟨["", "Added types:"], [], [⟨"", ["Changed: "], [""]⟩]⟩

def undisguised : Diff := ⟨[""], [""], [⟨"", ["Changed: "], [""]⟩]⟩

/-- An identifier that is a heading by itself is set in with the others. -/
theorem disguised_is_told_apart :
    disguised.IsOneLined ∧ undisguised.IsOneLined ∧ disguised.report ≠ undisguised.report
      ∧ StandsUnder disguised.report "Removed types:" "  - Added types:"
      ∧ ¬ StandsUnder disguised.report ("Changed: " ++ "") "  - Added types:" := by
  have hd : disguised.IsOneLined := ⟨by decide, by decide, by decide⟩
  have he : undisguised.IsOneLined := ⟨by decide, by decide, by decide⟩
  obtain ⟨hinjective, -, hremoved, -, hchanged⟩ := report_injective hd he
  refine ⟨hd, he, fun h => absurd (hinjective h) (by decide), (hremoved _).mpr (by decide), ?_⟩
  rw [hchanged]
  decide

end Diff

end ApiBaseline
