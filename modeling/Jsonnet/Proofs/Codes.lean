import Mathlib.Tactic.Common
import Jsonnet.FrontEnd
import Jsonnet.Proofs.Names

/-!
# Names in codes

The names that a code mentions, and what a front end has to do with the interner so that
all of them are known.
-/

namespace Jsonnet

/-- A node all of whose names have a property. -/
def Node.Named (P : Name → Prop) : Node → Prop
  | .string name | .var name | .importCode name | .importText name => P name
  | _ => True

/-- An arena all of whose names have a property. -/
structure Arena.Named (P : Name → Prop) (arena : Arena) : Prop where
  file : P arena.file
  node : ∀ node ∈ arena.nodes, node.Named P
  bind : ∀ bind ∈ arena.binds, P bind.name
  param : ∀ name ∈ arena.params, P name

/-- A code all of whose names have a property. -/
def Code.Named (P : Name → Prop) (code : Code) : Prop := code.arena.Named P

section

variable {P Q : Name → Prop}

theorem Node.Named.mono {node : Node} (h : node.Named P) (hPQ : ∀ name, P name → Q name) :
  node.Named Q
  := by
  cases node <;> first | exact hPQ _ h | trivial

theorem Code.Named.mono {code : Code} (h : code.Named P) (hPQ : ∀ name, P name → Q name) :
  code.Named Q
  where
  file := hPQ _ h.file
  node node hnode := (h.node node hnode).mono hPQ
  bind bind hbind := hPQ _ (h.bind bind hbind)
  param name hname := hPQ _ (h.param name hname)

theorem Code.named_of_forall (code : Code) (h : ∀ name, P name) :
  code.Named P
  where
  file := h _
  node node _ := by cases node <;> first | exact h _ | trivial
  bind _ _ := h _
  param name _ := h name

theorem Node.Named.and {node : Node} (hP : node.Named P) (hQ : node.Named Q) :
  node.Named fun name => P name ∧ Q name
  := by
  cases node <;> first | exact ⟨hP, hQ⟩ | trivial

theorem Code.Named.and {code : Code} (hP : code.Named P) (hQ : code.Named Q) :
  code.Named fun name => P name ∧ Q name
  where
  file := ⟨hP.file, hQ.file⟩
  node node hnode := (hP.node node hnode).and (hQ.node node hnode)
  bind bind hbind := ⟨hP.bind bind hbind, hQ.bind bind hbind⟩
  param name hname := ⟨hP.param name hname, hQ.param name hname⟩

/-- The expressions of a file mention the names of the file. -/
theorem Code.Named.sibling {code : Code} (h : code.Named P) (id : NodeId) :
  (code.sibling id).Named P
  := h

/-- The names in the node of a code. -/
theorem Code.Named.root {code : Code} (h : code.Named P) :
  code.node.Named P
  := by
  rw [Code.node, Arena.node]
  cases hnode : code.arena.nodes[code.root.index]? with
  | none => trivial
  | some node => exact h.node node (Array.mem_of_getElem? hnode)

/-- What a slice covers is in the table. -/
theorem Slice.mem_of_mem_read {α : Type} {slice : Slice α} {table : Array α} {entry : α}
    (h : entry ∈ slice.read table) :
  entry ∈ table
  := by
  rw [Slice.read, Array.toList_extract] at h
  exact Array.mem_toList_iff.mp (List.mem_of_mem_drop (List.mem_of_mem_take h))

theorem Code.Named.params {code : Code} (h : code.Named P) (slice : Slice Name) :
  ∀ name ∈ code.arena.readParams slice, P name
  := fun name hname => h.param name (Slice.mem_of_mem_read hname)

end

/-- A front end that only adds names to the interner. -/
def FrontEnd.Appends (frontEnd : FrontEnd) : Prop :=
  ∀ names file source, names ≤ (frontEnd names file source).2

/-- A front end all of whose names come from the interner. -/
structure FrontEnd.Interns (frontEnd : FrontEnd) : Prop where
  appends : frontEnd.Appends
  named : ∀ names file source code, (frontEnd names file source).1 = .program code →
    code.Named (frontEnd names file source).2.Gives

/-- What a front end has to do with the interner: it only adds names to it, every name of
a compiled program is among them, and compiling the same text again, with any interner
that extends the result, comes to the same and changes nothing. -/
structure FrontEnd.Lawful (frontEnd : FrontEnd) : Prop where
  grows : ∀ names file source, names ≤ (frontEnd names file source).2
  named : ∀ names file source code, (frontEnd names file source).1 = .program code →
    code.Named (frontEnd names file source).2.Knows
  again : ∀ names file source later, (frontEnd names file source).2 ≤ later →
    frontEnd later file source = ((frontEnd names file source).1, later)

end Jsonnet
