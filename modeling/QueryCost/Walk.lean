/-
  QueryCost.Walk — going through a document with the types in view.

  The walk goes through the operations and then the fragments of a document, each in the
  order of their positions and depth first, and keeps a stack of the types it is in. A
  `Visitor` is told of everything that is entered and left and sees the stack; when it
  skips a field, the walk goes neither below the field nor tells of leaving it.
-/

import QueryCost.Document.Basic
import QueryCost.Schema.Basic
import QueryCost.Variables

namespace QueryCost

/-- What to do about a field that was entered. -/
inductive Flow where
  | next
  | skip
  deriving DecidableEq, Repr

/-- Where the walk is. -/
structure Place where
  schema : Schema
  document : Document
  supplied : Variables
  /-- The types around the place, the innermost first; none for one that is not known. -/
  types : List (Option TypeEntry)

namespace Place

/-- The innermost type; for a field being entered, the type it leads to. -/
def currentType (p : Place) : Option TypeEntry := p.types.head?.join

/-- The type around that one; for a field being entered, the type it is selected on. -/
def parentType (p : Place) : Option TypeEntry := p.types[1]?.join

end Place

structure Visitor (σ : Type) where
  enterDocument : Place → σ → σ := fun _ s => s
  exitDocument : Place → σ → σ := fun _ s => s
  enterOperation : Place → Option String → Operation → σ → σ := fun _ _ _ s => s
  exitOperation : Place → Option String → Operation → σ → σ := fun _ _ _ s => s
  enterFragment : Place → String → Fragment → σ → σ := fun _ _ _ s => s
  exitFragment : Place → String → Fragment → σ → σ := fun _ _ _ s => s
  enterField : Place → Field → List Selection → σ → Flow × σ := fun _ _ _ s => (.next, s)
  exitField : Place → Field → List Selection → σ → σ := fun _ _ _ s => s
  spread : Place → String → σ → σ := fun _ _ s => s

/-- The place and the visitor's state, on the way. -/
structure Walk (σ : Type) where
  place : Place
  state : σ

namespace Walk

variable {σ : Type}

/-- Goes into a type. -/
def push (w : Walk σ) (t : Option TypeEntry) : Walk σ :=
  { w with place := { w.place with types := t :: w.place.types } }

/-- Leaves the innermost type. -/
def pop (w : Walk σ) : Walk σ :=
  { w with place := { w.place with types := w.place.types.tail } }

def tell (w : Walk σ) (f : Place → σ → σ) : Walk σ := { w with state := f w.place w.state }

/-- The type of this name. -/
def type? (w : Walk σ) (name : String) : Option TypeEntry := w.place.schema.type? name

/-- The type a field leads to: unknown where the type it is selected on is, or does not
    declare it. -/
def landing (w : Walk σ) (field : String) : Option TypeEntry :=
  (w.place.currentType.bind (·.field? field)).bind fun f => w.type? f.target

theorem currentType_push (w : Walk σ) (t : Option TypeEntry) : (w.push t).place.currentType = t := rfl

theorem parentType_push (w : Walk σ) (t : Option TypeEntry) : (w.push t).place.parentType = w.place.currentType := by
  simp only [Place.parentType, Place.currentType, push, List.getElem?_cons_succ, List.head?_eq_getElem?]

/-- Whatever keeps its place inside a type keeps it, the type being left. -/
theorem place_pop {w w' : Walk σ} {t : Option TypeEntry} (h : w'.place = (w.push t).place) : w'.pop.place = w.place := by
  rw [pop, h]
  rfl

end Walk

namespace Visitor

variable {σ : Type}

mutual

def selection (v : Visitor σ) : Selection → Walk σ → Walk σ
  | .field f below, w =>
    let w := w.push (w.landing f.name)
    let (flow, state) := v.enterField w.place f below w.state
    let w := { w with state := state }
    match flow with
    | .skip => w.pop
    | .next => ((v.selections below w).tell fun p => v.exitField p f below).pop
  | .inline (some t) _ below, w => (v.selections below (w.push (w.type? t))).pop
  | .inline none _ below, w => v.selections below w
  | .spread fragment _, w => w.tell fun p => v.spread p fragment

def selections (v : Visitor σ) : List Selection → Walk σ → Walk σ
  | [], w => w
  | s :: rest, w => v.selections rest (v.selection s w)

end

section

variable {v : Visitor σ} {f : Field} {below : List Selection} {w : Walk σ} {s : σ}

/-- A field that is skipped leaves the visitor's state and the walk where it was. -/
theorem selection_of_skip (h : v.enterField (w.push (w.landing f.name)).place f below w.state = (.skip, s)) :
    v.selection (.field f below) w = { w with state := s } := by
  have h' : v.enterField (w.push (w.landing f.name)).place f below (w.push (w.landing f.name)).state = (.skip, s) := h
  simp only [selection, h']
  rfl

theorem selection_of_next (h : v.enterField (w.push (w.landing f.name)).place f below w.state = (.next, s)) :
    v.selection (.field f below) w =
      ((v.selections below ⟨(w.push (w.landing f.name)).place, s⟩).tell fun p => v.exitField p f below).pop := by
  have h' : v.enterField (w.push (w.landing f.name)).place f below (w.push (w.landing f.name)).state = (.next, s) := h
  simp only [selection, h']

end

def operation (v : Visitor σ) (w : Walk σ) (entry : Option String × Operation) : Walk σ :=
  let (name, op) := entry
  let w := w.push (w.place.schema.root? op.kind)
  let w := w.tell fun p => v.enterOperation p name op
  let w := v.selections op.selections w
  (w.tell fun p => v.exitOperation p name op).pop

def fragment (v : Visitor σ) (w : Walk σ) (entry : String × Fragment) : Walk σ :=
  let (name, f) := entry
  let w := w.push (w.type? f.condition)
  let w := w.tell fun p => v.enterFragment p name f
  let w := v.selections f.selections w
  (w.tell fun p => v.exitFragment p name f).pop

/-- Everything between entering and leaving the document. -/
def definitions (v : Visitor σ) (w : Walk σ) : Walk σ :=
  let w := w.place.document.operationsInOrder.foldl v.operation w
  w.place.document.fragmentsInOrder.foldl v.fragment w

/-- The state a document leaves. -/
def walk (v : Visitor σ) (schema : Schema) (document : Document) (supplied : Variables) (state : σ) : σ :=
  let w : Walk σ := ⟨⟨schema, document, supplied, []⟩, state⟩
  let w := w.tell v.enterDocument
  ((v.definitions w).tell v.exitDocument).state

end Visitor

end QueryCost
