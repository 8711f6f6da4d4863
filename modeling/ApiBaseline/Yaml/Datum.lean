import ApiBaseline.Schema.Outline
import ApiBaseline.Yaml.Node
import ApiBaseline.Yaml.Plain

/-!
# YAML documents as data

In the datum of a document every alias that is read is replaced by the node
that it means. A node that contains itself has no end; what is nested too
deeply, and what is reached by too many aliases, can be skipped but not read.
Aliases in skipped parts are not followed and do not count.

A sequence is not read where a record is asked for, unless it lies in a part
that is read as a whole: only there a record may be written as a list.
-/

namespace ApiBaseline.Yaml

/-- How many sequences and mappings may contain each other. -/
def depthLimit : Nat := 128

/-- How many aliases may be followed for each event of a document. -/
def aliasesPerEvent : Nat := 100

/-- The nodes that have anchors under the numbers of these, last first. -/
abbrev Anchored := List (Nat × Node)

/-- The node that is meant, counting down the aliases that may be followed. Of
several nodes with the same number the last one is meant. -/
def follow (anchored : Anchored) : Node → StateM Nat (Option Node)
  | .alias anchor => do
    match ← get with
    | 0 => return none
    | left + 1 =>
      set left
      return anchored.lookup anchor
  | n => return some n

/-- A list or record; with a local tag it has to be asked for as such. -/
def markedBy (properties : Properties) (v : Datum) : Datum :=
  if (properties.tag?.bind localTag?).isSome then .marked v else v

/-- The datum of a node of which an outline is read, with at most `levels`
levels that can be read. -/
def datumOf (anchored : Anchored) (levels : Nat) (outline : Outline) (n : Node) :
    StateM Nat Datum :=
  match outline with
  | .nothing => return .unreadable
  | outline => do
    match ← follow anchored n, levels with
    | some (.scalar p style s), _ => return .scalar (scalarOf p.tag? style s)
    | some (.sequence p nodes), levels + 1 =>
      match outline.items? with
      | some item => return markedBy p (.list (← nodes.mapM (datumOf anchored levels item)))
      -- Neither a scalar nor a record is written as a sequence.
      | none => return .unreadable
    | some (.mapping p entries), levels + 1 =>
      match outline.label? with
      | some label =>
        let fields ← entries.mapM fun (k, v) => do
          let key ← datumOf anchored levels label k
          let value ← datumOf anchored levels (outline.field key.label?) v
          return (key, value)
        return markedBy p (.record none fields)
      | none => return .unreadable
    | _, _ => return .unreadable

/-- The datum of a document of which an outline is read. -/
def Document.datum (d : Document) (outline : Outline) : Datum :=
  (datumOf d.root.anchored.reverse depthLimit outline d.root (aliasesPerEvent * d.size)).1

end ApiBaseline.Yaml
