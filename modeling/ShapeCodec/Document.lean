import ShapeCodec.Codec
/-! Schema documents: a part of a schema, with its types, call sites and options. Documents are
merged into one schema in order. -/
namespace ShapeCodec

structure DocumentProperty where
  name : String
  expression : String
  nullable : Bool
  itemNullable : Bool
  deriving DecidableEq

structure DocumentType where
  name : String
  properties : List DocumentProperty
  deriving DecidableEq

structure DocumentCall where
  direction : Direction
  expression : String
  deriving DecidableEq

structure Document where
  types : List DocumentType
  calls : List DocumentCall
  options : Option Options
  deriving DecidableEq

def DocumentProperty.property (p : DocumentProperty) : Property :=
  ⟨p.name, .ofText p.expression, p.nullable, p.itemNullable⟩

def DocumentType.decl (t : DocumentType) : Declaration :=
  ⟨t.name, t.properties.map DocumentProperty.property⟩

namespace Document

def addCalls (calls : List DocumentCall) : Declaring Unit :=
  modify fun s => calls.foldl (fun s call => s.call call.direction (.ofText call.expression)) s

/-- Adds the types of a document to a schema, then its call sites. What was declared before a
refusal stays. -/
def addTo (d : Document) : Declaring Unit := do
  d.types.forM fun type => type.decl.addTo
  addCalls d.calls

/-- The options so far, with those of a document. -/
def mergeOptions (d : Document) (options : Options) : Options :=
  match d.options with
  | some own => options.merge own
  | none => options

/-- Adds a document to the schema and options loaded so far. -/
def add (done : Schema × Options) (d : Document) : Except DeclareError (Schema × Options) :=
  match d.addTo done.1 with
  | .ok _ s => .ok (s, d.mergeOptions done.2)
  | .error e _ => .error e

/-- Adds documents in order, up to the first that is refused. -/
def addAll (done : Schema × Options) (documents : List Document) :
    Except DeclareError (Schema × Options) :=
  documents.foldlM add done

end Document

end ShapeCodec
