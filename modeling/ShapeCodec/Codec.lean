import ShapeCodec.Emitter
import ShapeCodec.Machine.Read
import ShapeCodec.Machine.Write
/-! Codecs: a routine table with the entry points of the call sites, and their generation from a
schema. -/
namespace ShapeCodec

structure Options where
  /-- Give declared types that no call site uses inert entries. -/
  stubUnused : Bool
  deriving DecidableEq, Inhabited

/-- A flag that either side sets stays set. -/
def Options.merge (a b : Options) : Options :=
  ⟨a.stubUnused || b.stubUnused⟩

/-- The entry points of one shape, and what blank input reads as. -/
structure Entry where
  write : Option RoutineId
  read : Option RoutineId
  blank : Value
  deriving DecidableEq

namespace Entry

def get (e : Entry) : Direction → Option RoutineId
  | .serialize => e.write
  | .deserialize => e.read

def set (e : Entry) (id : RoutineId) : Direction → Entry
  | .serialize => { e with write := some id }
  | .deserialize => { e with read := some id }

end Entry

/-- Entries by shape, in the order in which the shapes came first. -/
abbrev Entries := ShapeMap Entry

/-- Enters a routine for a shape, whose entry starts from the given blank value. -/
def Entries.assign (shape : Shape) (direction : Direction) (id : RoutineId) (blank : Value)
    (entries : Entries) : Entries :=
  entries.update shape ⟨none, none, blank⟩ (·.set id direction)

structure Codec where
  routines : List Routine
  entries : Entries

namespace Codec

def machine (c : Codec) : Machine :=
  ⟨c.routines⟩

def entry? (c : Codec) (shape : Shape) : Option Entry :=
  c.entries.get? shape

def routine? (c : Codec) (id : RoutineId) : Option Routine :=
  c.routines[id.index]?

def entryPoint (c : Codec) (shape : Shape) (direction : Direction) :
    Except CodecError (Entry × RoutineId) :=
  match c.entry? shape with
  | none => .error (.noEntry shape direction)
  | some entry =>
    match entry.get direction with
    | none => .error (.noEntry shape direction)
    | some id => .ok (entry, id)

/-- Runs a write routine on an empty text. -/
def runWrite (c : Codec) (id : RoutineId) (value : Value) : Except CodecError String :=
  match c.machine.write id value "" with
  | .ok _ text => .ok text
  | .error e _ => .error e

/-- Runs a read routine from the start of a text; what follows the value is ignored. -/
def runRead (c : Codec) (id : RoutineId) (text : String) : Except CodecError Value :=
  match c.machine.read id (.ofText text) with
  | .ok value _ => .ok value
  | .error e _ => .error e

def serialize (c : Codec) (shape : Shape) (value : Value) : Except CodecError String := do
  let (_, id) ← c.entryPoint shape .serialize
  c.runWrite id value

def isBlankText (text : String) : Bool :=
  text.toList.all Text.isSpace

/-- Blank input reads as the default of the shape. -/
def deserialize (c : Codec) (shape : Shape) (text : String) : Except CodecError Value := do
  let (entry, id) ← c.entryPoint shape .deserialize
  if isBlankText text then pure entry.blank
  else c.runRead id text

/-- The number of routines for a direction, stubs included. -/
def routineCount (c : Codec) (direction : Direction) : Nat :=
  c.routines.countP (·.direction = direction)

def stubCount (c : Codec) : Nat :=
  c.routines.countP Routine.isStub

end Codec

/-- A codec and what was to be said while generating it. -/
structure Generation where
  codec : Codec
  diagnostics : List Diagnostic

namespace Generation

def errors (g : Generation) : List Diagnostic :=
  g.diagnostics.filter (·.severity = .error)

def warnings (g : Generation) : List Diagnostic :=
  g.diagnostics.filter (·.severity = .warning)

def hasErrors (g : Generation) : Bool :=
  !g.errors.isEmpty

/-- A generation under way. -/
structure Progress where
  emitter : Emitter
  entries : Entries

namespace Progress

/-- What blank input reads as: the default of the shape, if it has one. -/
def blankValue (s : Schema) (shape : Shape) : Value :=
  match s.defaultValue shape with
  | .ok value => value
  | .error _ => .null

/-- A call site gets a routine and an entry, or an error if its shape cannot have any. -/
def addCall (s : Schema) (p : Progress) (call : CallSite) : Progress :=
  match s.checkReferences call.shape with
  | .error error =>
    ⟨p.emitter.report ⟨.error, .callSite call.direction call.shape, error⟩, p.entries⟩
  | .ok () =>
    let (id, emitter) := Emitter.emit call.shape call.direction p.emitter
    ⟨emitter, p.entries.assign call.shape call.direction id (blankValue s call.shape)⟩

/-- A declared type without a routine gets inert ones for both directions. -/
def addUnused (p : Progress) (decl : Declaration) : Progress :=
  if p.emitter.hasObject decl.name then p
  else
    let shape := Shape.object decl.name true
    let (write, emitter) := Emitter.stub shape .serialize .unused p.emitter
    let (read, emitter) := Emitter.stub shape .deserialize .unused emitter
    ⟨emitter, p.entries.insert shape ⟨some write, some read, .null⟩⟩

end Progress

/-- Generates routines for every call site in order, then stubs for unused types if asked to. -/
def ofSchema (s : Schema) (options : Options) : Generation :=
  let called := s.calls.foldl (Progress.addCall s) ⟨.ofSchema s, []⟩
  let done := if options.stubUnused then s.types.foldl Progress.addUnused called else called
  ⟨⟨done.emitter.routines, done.entries⟩, done.emitter.diagnostics⟩

end Generation

end ShapeCodec
