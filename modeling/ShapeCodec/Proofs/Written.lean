import ShapeCodec.Proofs.Direct.JsonReading
import ShapeCodec.Proofs.Ending
/-! Objects as they are written: members with whitespace between their parts and with or without a
comma behind them. Every object that is read is the text of such members, and what is read is told
from their names and values alone. -/
namespace ShapeCodec.Written

open Json (Blank Begins)

abbrev Blanks := {text : List Char // Blank text}

def Blanks.none : Blanks :=
  ⟨[], Json.blank_nil⟩

def Blanks.append (a b : Blanks) : Blanks :=
  ⟨a ++ b, List.forall_mem_append.2 ⟨a.2, b.2⟩⟩

/-- A member, with the whitespace in front of it and a comma behind it, unless it has none. -/
structure Member where
  lead : Blanks
  name : {name : List Char // '"' ∉ name}
  /-- In front of the colon. -/
  gap : Blanks
  /-- With the whitespace in front of the value. -/
  value : List Char
  comma : Option Blanks

def separator : Option Blanks → List Char
  | none => []
  | some blanks => blanks ++ [',']

namespace Member

def body (m : Member) : List Char :=
  '"' :: (m.name ++ '"' :: (m.gap ++ ':' :: m.value))

def text (m : Member) : List Char :=
  m.lead ++ (m.body ++ separator m.comma)

/-- What counts. -/
def content (m : Member) : String × List Char :=
  (String.ofList m.name, m.value)

end Member

/-- An object with whitespace around it. What stands behind it is of no interest. -/
structure Object where
  lead : Blanks
  members : List Member
  close : Blanks
  rest : List Char

namespace Object

def body (o : Object) : List Char :=
  '\x7b' :: (o.members.flatMap Member.text ++ (o.close ++ ['\x7d']))

def text (o : Object) : List Char :=
  o.lead ++ o.body ++ o.rest

def contents (o : Object) : List (String × List Char) :=
  o.members.map Member.content

/-- The names of the members. -/
def names (o : Object) : List String :=
  o.contents.map Prod.fst

end Object

/-- What a member does to the slots of a record: it fills one, or it is skipped. -/
abbrev Update := Option (Nat × Value)

def put (slots : List Value) : Update → List Value
  | none => slots
  | some (slot, value) => slots.set slot value

/-- The property that a member of this name is for, with its slot. -/
def find? (properties : List Property) (name : String) : Option (Property × Nat) :=
  properties.zipIdx.find? fun entry => entry.1.name = name

/-- What is read for a name and the text of a value: a value of the property of that name, or any
value if there is none. Either way it is all of the text. -/
inductive Reads (read : Shape → Reading Value) (properties : List Property) :
    String × List Char → Update → Prop
  | known {name text p slot value} : find? properties name = some (p, slot) →
      Spans (Direct.readChild read p.effectiveShape) text value →
      Reads read properties (name, text) (some (slot, value))
  | unknown {name text} : find? properties name = none → Spans Scan.skipValue text () →
      Reads read properties (name, text) none

/-- All members of the object can be read. -/
def Object.ReadBy (read : Shape → Reading Value) (properties : List Property) (o : Object) : Prop :=
  ∃ updates, List.Forall₂ (Reads read properties) o.contents updates

section Members

variable {read : Shape → Reading Value} {properties : List Property} {slots fields : List Value}
  {m : Member} {members : List Member} {update : Update} {updates : List Update}
  {c c' : Cursor} {bound : Nat} {tail rest : List Char}

theorem readMember_consumes (h : Reads read properties m.content update)
    (hrest : Json.Number.Stops rest) :
    Consumes (Direct.readMember read properties slots) m.body rest (put slots update) := by
  apply Direct.key_consumes m.name.2 m.gap.2
  generalize hcontent : m.content = content at h
  cases h with
  | known hfind hspans =>
    cases hcontent
    rw [find?] at hfind
    rw [hfind]
    exact (hspans rest hrest).map
  | unknown hfind hspans =>
    cases hcontent
    rw [find?] at hfind
    rw [hfind, ← List.append_nil m.value]
    exact (hspans rest hrest).lift.seq (.nothing slots rest)

/-- From whatever whitespace is left of that which leads the text, the step takes the text. Behind it
comes a name, or the end of the object. -/
def Resumes {α : Type} (next : Reading α) (text rest : List Char) (a : α) : Prop :=
  ∃ lead body, text = lead ++ body ∧ Blank lead ∧
    (∀ d ∈ (body ++ rest).head?, d = '"' ∨ d = '\x7d') ∧
    ∀ blanks, Blank blanks → Consumes next (blanks ++ body) rest a

theorem Resumes.consumes {α : Type} {next : Reading α} {a : α} (h : Resumes next tail rest a) :
    Consumes next tail rest a := by
  obtain ⟨lead, body, rfl, hlead, -, hnext⟩ := h
  exact hnext lead hlead

theorem stops_of_head (h : ∀ d ∈ rest.head?, d = '"' ∨ d = '\x7d') : Json.Number.Stops rest := by
  intro d hd
  rcases h d hd with rfl | rfl <;> decide

theorem Resumes.stops {α : Type} {next : Reading α} {a : α} (h : Resumes next tail rest a)
    (comma : Option Blanks) : Json.Number.Stops (separator comma ++ tail ++ rest) := by
  cases comma with
  | none =>
    obtain ⟨lead, body, rfl, hlead, hhead, -⟩ := h
    rw [separator, List.nil_append, List.append_assoc]
    exact Json.Number.stops_blank hlead (stops_of_head hhead)
  | some blanks =>
    rw [separator, List.append_assoc, List.append_assoc]
    apply Json.Number.stops_blank blanks.2
    rintro _ ⟨⟩
    decide

/-- Without a comma the whitespace behind a member is passed over before the next round. -/
theorem Resumes.behind {α : Type} {next : Reading α} {a : α} (h : Resumes next tail rest a)
    (comma : Option Blanks) :
    Consumes (do Scan.skipWhitespace; discard (Scan.tryChar ','); next : Reading α)
      (separator comma ++ tail) rest a := by
  cases comma with
  | none =>
    obtain ⟨lead, body, rfl, hlead, hhead, hnext⟩ := h
    have hskip : Consumes Scan.skipWhitespace lead (body ++ rest) () := by
      apply Consumes.skipWhitespace hlead
      intro d hd
      rcases hhead d hd with rfl | rfl <;> decide
    have hmiss : Consumes (Scan.tryChar ',') [] (body ++ rest) false := by
      apply Consumes.tryChar_miss
      rintro d hd rfl
      exact absurd (hhead _ hd) (by decide)
    apply hskip.lift.seq
    apply hmiss.lift.discard.seq_nil
    exact hnext [] Json.blank_nil
  | some blanks =>
    have hskip : Consumes Scan.skipWhitespace blanks.1 ([','] ++ tail ++ rest) () :=
      Consumes.skipWhitespace blanks.2 (by simp [Text.isSpace])
    rw [separator, List.append_assoc]
    apply hskip.lift.seq
    exact (Consumes.tryChar ',' _).lift.discard.seq h.consumes

/-- Members that can be read are read one after the other, up to the end of the object. -/
theorem readMembers_resumes
    (h : List.Forall₂ (Reads read properties) (members.map Member.content) updates)
    (close : Blanks) (rest : List Char) (hbound : members.length < bound) :
    Resumes (Direct.readMembers read properties bound slots)
      (members.flatMap Member.text ++ (close ++ ['\x7d'])) rest (updates.foldl put slots) := by
  induction members generalizing bound slots updates with
  | nil =>
    obtain ⟨bound, rfl⟩ := Nat.exists_eq_add_of_lt hbound
    cases h
    refine ⟨close, ['\x7d'], rfl, close.2, by simp, fun blanks hblanks => ?_⟩
    exact Direct.close_consumes hblanks (by decide)
  | cons m members ih =>
    obtain ⟨bound, rfl⟩ := Nat.exists_eq_add_of_lt hbound
    cases h with
    | @cons _ update _ updates hm hmembers =>
      have hrest : Resumes
          (Direct.readMembers read properties ((m :: members).length + bound) (put slots update))
          (members.flatMap Member.text ++ (close ++ ['\x7d'])) rest
          ((update :: updates).foldl put slots) :=
        ih hmembers (by simp; omega)
      have hmember : Consumes (Direct.readMember read properties slots) m.body _
          (put slots update) :=
        readMember_consumes hm (hrest.stops m.comma)
      have hbegins : Begins m.body := ⟨'"', rfl, .inl (by decide)⟩
      refine ⟨m.lead, m.body ++ (separator m.comma ++ _), ?_, m.lead.2, ?_, fun blanks hblanks =>
        Direct.round_consumes hbegins (by decide) hmember (hrest.behind m.comma) hblanks⟩
      · simp [Member.text]
      · rintro _ ⟨⟩
        exact .inl rfl

end Members

section Accepted

variable {read : Shape → Reading Value} {properties : List Property} {slots fields : List Value}
  {c c' : Cursor} {bound : Nat}

theorem skipWhitespace_eq_ok (h : (liftM Scan.skipWhitespace : Reading Unit) c = .ok () c') :
    c'.rest = c.rest.dropWhile Text.isSpace ∧ ∃ blanks : Blanks, c.rest = blanks ++ c'.rest := by
  cases eq_ok_of_lift h
  exact ⟨rfl, ⟨_, List.all_eq_true.1 List.all_takeWhile⟩, List.takeWhile_append_dropWhile.symm⟩

/-- A value is as long as what is read for it. -/
theorem reads_of_eq_ok {name : String} {fields : List Value}
    (hread : ∀ p ∈ properties, Ends (Direct.readChild read p.effectiveShape))
    (h : (match find? properties name with
      | some (p, slot) => slots.set slot <$> Direct.readChild read p.effectiveShape
      | none => do
        Scan.skipValue
        pure slots : Reading (List Value)) c = .ok fields c') :
    ∃ value update, c.rest = value ++ c'.rest ∧ Reads read properties (name, value) update ∧
      fields = put slots update := by
  cases hfind : find? properties name with
  | some entry =>
    obtain ⟨p, slot⟩ := entry
    rw [hfind] at h
    obtain ⟨value, hvalue, rfl⟩ := Running.map_eq_ok_iff.1 h
    have hp := List.mem_of_getElem? (Direct.mem_of_find?_zipIdx hfind).1
    obtain ⟨text, -, hsplit, hspans⟩ := hread p hp _ _ _ hvalue
    exact ⟨text, _, hsplit, .known hfind hspans, rfl⟩
  | none =>
    rw [hfind] at h
    obtain ⟨_, mid, hskip, h⟩ := Running.bind_eq_ok_iff.1 h
    cases h
    obtain ⟨text, -, hsplit, hspans⟩ := ends_skipValue _ _ _ (eq_ok_of_lift hskip)
    exact ⟨text, _, hsplit, .unknown hfind hspans, rfl⟩

theorem readMember_eq_ok {fields : List Value}
    (hread : ∀ p ∈ properties, Ends (Direct.readChild read p.effectiveShape))
    (h : Direct.readMember read properties slots c = .ok fields c') :
    ∃ (name : {name : List Char // '"' ∉ name}) (gap : Blanks) (value : List Char)
      (update : Update), c.rest = '"' :: (name ++ '"' :: (gap ++ ':' :: value)) ++ c'.rest ∧
        Reads read properties (String.ofList name, value) update ∧ fields = put slots update := by
  obtain ⟨_, named, hname, h⟩ := Running.bind_eq_ok_iff.1 h
  obtain ⟨_, spaced, hgap, h⟩ := Running.bind_eq_ok_iff.1 h
  obtain ⟨_, colon, hcolon, h⟩ := Running.bind_eq_ok_iff.1 h
  obtain ⟨name, hquote, rfl, hsplit⟩ := readString_eq_ok (eq_ok_of_lift hname)
  obtain ⟨-, gap, hgap⟩ := skipWhitespace_eq_ok hgap
  have hcolon := rest_of_expect (eq_ok_of_lift hcolon)
  obtain ⟨value, update, hvalue, hreads, hfields⟩ := reads_of_eq_ok hread h
  refine ⟨⟨name, hquote⟩, gap, value, update, ?_, hreads, hfields⟩
  rw [hsplit, hgap, hcolon, hvalue]
  simp

/-- What is read as members is the text of members. Whitespace in front counts with the first. -/
theorem readMembers_eq_ok
    (hread : ∀ p ∈ properties, Ends (Direct.readChild read p.effectiveShape)) (front : Blanks)
    (h : Direct.readMembers read properties bound slots c = .ok fields c') :
    ∃ (members : List Member) (close : Blanks) (updates : List Update),
      front ++ c.rest = members.flatMap Member.text ++ (close ++ ['\x7d']) ++ c'.rest ∧
        List.Forall₂ (Reads read properties) (members.map Member.content) updates ∧
        fields = updates.foldl put slots := by
  induction bound generalizing slots c front with
  | zero => cases h
  | succ bound ih =>
    obtain ⟨_, opened, hlead, h⟩ := Running.bind_eq_ok_iff.1 h
    obtain ⟨-, lead, hlead⟩ := skipWhitespace_eq_ok hlead
    obtain ⟨_, _, ⟨⟩, h⟩ := Running.bind_eq_ok_iff.1 h
    split at h
    · cases h
    obtain ⟨closed, mid, hclosed, hround⟩ := Running.bind_eq_ok_iff.1 h
    rcases tryChar_eq_ok (eq_ok_of_lift hclosed) with ⟨rfl, hsplit⟩ | ⟨rfl, rfl, -⟩
    · cases hround
      refine ⟨[], front.append lead, [], ?_, .nil, rfl⟩
      rw [hlead, hsplit]
      simp [Blanks.append]
    obtain ⟨slots', entered, hentry, h⟩ := Running.bind_eq_ok_iff.1 hround
    obtain ⟨_, spaced, hspace, h⟩ := Running.bind_eq_ok_iff.1 h
    obtain ⟨_, next, hcomma, hnext⟩ := Running.bind_eq_ok_iff.1 h
    obtain ⟨name, gap, value, update, hmember, hreads, rfl⟩ := readMember_eq_ok hread hentry
    obtain ⟨-, blanks, hspace⟩ := skipWhitespace_eq_ok hspace
    obtain ⟨found, hcomma, -⟩ := Running.map_eq_ok_iff.1 hcomma
    rcases tryChar_eq_ok (eq_ok_of_lift hcomma) with ⟨-, hsplit⟩ | ⟨-, rfl, -⟩
    · obtain ⟨members, close, updates, htext, hmembers, rfl⟩ := ih .none hnext
      refine ⟨⟨front.append lead, name, gap, value, some blanks⟩ :: members, close,
        update :: updates, ?_, .cons hreads hmembers, rfl⟩
      have htext' : next.rest = _ := htext
      rw [hlead, hmember, hspace, hsplit, htext']
      simp [Member.text, Member.body, Blanks.append, separator]
    · -- without a comma the whitespace belongs to the next member
      obtain ⟨members, close, updates, htext, hmembers, rfl⟩ := ih blanks hnext
      refine ⟨⟨front.append lead, name, gap, value, none⟩ :: members, close,
        update :: updates, ?_, .cons hreads hmembers, rfl⟩
      rw [hlead, hmember, hspace, htext]
      simp [Member.text, Member.body, Blanks.append, separator]

end Accepted

section Object

variable {s : Schema} {name : String} {nullable : Bool} {levels : Nat} {o : Object}
  {updates : List Update} {c c' : Cursor} {v : Value}

/-- The record that is made of an object. -/
def record (s : Schema) (name : String) (updates : List Update) : Value :=
  .record name (updates.foldl put (Direct.defaults s (s.properties name)))

theorem length_le_text (members : List Member) :
    members.length ≤ (members.flatMap Member.text).length := by
  induction members with
  | nil => simp
  | cons m members ih =>
    rw [List.flatMap_cons, List.length_append, List.length_cons, Member.text, Member.body]
    simp only [List.length_append, List.length_cons]
    omega

theorem read_object (hfault : s.routineFault? .deserialize (.object name nullable) = none)
    (h : List.Forall₂ (Reads (Direct.read s levels) (s.properties name)) o.contents updates) :
    Consumes (Direct.read s (levels + 1) (.object name nullable)) (o.lead ++ o.body) o.rest
      (record s name updates) := by
  have hbody : o.body =
      ['\x7b'] ++ (o.members.flatMap Member.text ++ (o.close ++ ['\x7d'])) := rfl
  have hskip : Consumes Scan.skipWhitespace o.lead (o.body ++ o.rest) () := by
    apply Consumes.skipWhitespace o.lead.2
    rintro _ ⟨⟩
    decide
  unfold Direct.read
  simp only [hfault, Option.isSome_none, Bool.false_eq_true, if_false]
  apply hskip.lift.seq
  rw [hbody]
  refine Direct.notNull_consumes (by simp) ?_
  apply (Consumes.expect '\x7b' _).lift.seq
  refine Consumes.get_bind fun start hstart => Consumes.map ?_
  apply (readMembers_resumes h o.close o.rest _).consumes
  have hlength := length_le_text o.members
  rw [hstart]
  simp only [List.length_append, List.length_cons]
  omega

/-- A text that begins like an object and is read is the text of an object. -/
theorem object_of_read (hfault : s.routineFault? .deserialize (.object name nullable) = none)
    (h : Direct.read s (levels + 1) (.object name nullable) c = .ok v c')
    (hopen : (c.rest.dropWhile Text.isSpace).head? = some '\x7b') :
    ∃ (o : Object) (updates : List Update), c.rest = o.text ∧
      List.Forall₂ (Reads (Direct.read s levels) (s.properties name)) o.contents updates ∧
      v = record s name updates := by
  unfold Direct.read at h
  simp only [hfault, Option.isSome_none, Bool.false_eq_true, if_false] at h
  obtain ⟨_, opened, hlead, hvalue⟩ := Running.bind_eq_ok_iff.1 h
  obtain ⟨hopened, lead, hlead⟩ := skipWhitespace_eq_ok hlead
  rw [← hopened] at hopen
  obtain ⟨found, mid, hnull, hbody⟩ := Running.bind_eq_ok_iff.1 hvalue
  rcases tryWord_eq_ok (eq_ok_of_lift hnull) with ⟨-, hsplit⟩ | ⟨rfl, rfl, -⟩
  · rw [hsplit] at hopen
    cases hopen
  simp only [Bool.false_eq_true, if_false] at hbody
  obtain ⟨_, entered, hbrace, hstart⟩ := Running.bind_eq_ok_iff.1 hbody
  obtain ⟨_, _, ⟨⟩, hrecord⟩ := Running.bind_eq_ok_iff.1 hstart
  obtain ⟨fields, hmembers, rfl⟩ := Running.map_eq_ok_iff.1 hrecord
  have hbrace := rest_of_expect (eq_ok_of_lift hbrace)
  have hends : ∀ p ∈ s.properties name,
      Ends (Direct.readChild (Direct.read s levels) p.effectiveShape) :=
    fun p _ => Direct.ends_readChild s p.effectiveShape levels
  obtain ⟨members, close, updates, htext, hreads, rfl⟩ := readMembers_eq_ok hends .none hmembers
  refine ⟨⟨lead, members, close, c'.rest⟩, updates, ?_, hreads, rfl⟩
  rw [hlead, hbrace, ← List.nil_append entered.rest]
  refine (congrArg (fun text => lead ++ '\x7b' :: text) htext).trans ?_
  simp [Object.text, Object.body]

end Object

section Adding

variable {read : Shape → Reading Value} {properties : List Property} {slots : List Value}
  {before after updates : List Update} {slot : Nat} {value : Value} {o o' : Object} {name : String}

/-- The second object has one member more, somewhere among those of the first, and it is null. How
the members are set apart may differ throughout. -/
def Object.Adds (o o' : Object) (name : String) : Prop :=
  ∃ (before after : List (String × List Char)) (blanks : Blanks), o.contents = before ++ after ∧
    o'.contents = before ++ (name, blanks ++ nullWord) :: after

theorem getElem?_foldl_put (hfree : ∀ value, some (slot, value) ∉ updates) :
    (updates.foldl put slots)[slot]? = slots[slot]? := by
  induction updates generalizing slots with
  | nil => rfl
  | cons update updates ih =>
    have hrest : ∀ value, some (slot, value) ∉ updates :=
      fun value hmem => hfree value (List.mem_cons_of_mem update hmem)
    rw [List.foldl_cons, ih hrest]
    cases update with
    | none => rfl
    | some entry =>
      obtain ⟨other, value⟩ := entry
      have hne : other ≠ slot := by
        rintro rfl
        exact hfree value List.mem_cons_self
      exact List.getElem?_set_ne hne

/-- To fill a slot with what it holds makes no difference. -/
theorem foldl_put_insert (hslot : slots[slot]? = some value)
    (hfree : ∀ value, some (slot, value) ∉ before) :
    (before ++ some (slot, value) :: after).foldl put slots =
      (before ++ after).foldl put slots := by
  have hkept : (before.foldl put slots)[slot]? = some value :=
    (getElem?_foldl_put hfree).trans hslot
  obtain ⟨hlt, hvalue⟩ := List.getElem?_eq_some_iff.1 hkept
  rw [List.foldl_append, List.foldl_append, List.foldl_cons, put, ← hvalue, List.set_getElem_self]

theorem split_of_forall₂ {α β : Type} {R : α → β → Prop} {as as' : List α} {bs : List β}
    (h : List.Forall₂ R (as ++ as') bs) :
    ∃ cs cs', bs = cs ++ cs' ∧ List.Forall₂ R as cs ∧ List.Forall₂ R as' cs' := by
  induction as generalizing bs with
  | nil => exact ⟨[], bs, rfl, .nil, h⟩
  | cons a as ih =>
    cases h with
    | cons hhead htail =>
      obtain ⟨cs, cs', rfl, hcs, hcs'⟩ := ih htail
      exact ⟨_ :: cs, cs', rfl, .cons hhead hcs, hcs'⟩

/-- Only a member of its name fills the slot of a property. -/
theorem notMem_of_reads {contents : List (String × List Char)} {p : Property}
    (hslot : properties[slot]? = some p) (hname : p.name ∉ contents.map Prod.fst)
    (h : List.Forall₂ (Reads read properties) contents updates) (value : Value) :
    some (slot, value) ∉ updates := by
  intro hmem
  obtain ⟨i, hi⟩ := List.mem_iff_getElem?.1 hmem
  obtain ⟨content, hcontent, hreads⟩ := getElem?_of_forall₂ h.flip hi
  cases hreads with
  | known hfind =>
    obtain ⟨hother, hsame⟩ := Direct.mem_of_find?_zipIdx hfind
    obtain rfl := Option.some.inj (hslot.symm.trans hother)
    exact hname (hsame ▸ List.mem_map_of_mem (List.mem_of_getElem? hcontent))

/-- A member that is null adds nothing to what the slots hold, if null is read as that. -/
theorem Object.Adds.reads (h : o.Adds o' name) (hname : name ∉ o.names)
    (hreads : List.Forall₂ (Reads read properties) o.contents updates)
    (hnull : ∀ (slot : Nat) (p : Property), properties[slot]? = some p →
      ∃ value, slots[slot]? = some value ∧
        ∀ blanks : Blanks, Spans (Direct.readChild read p.effectiveShape) (blanks ++ nullWord)
          value) :
    ∃ updates', List.Forall₂ (Reads read properties) o'.contents updates' ∧
      updates'.foldl put slots = updates.foldl put slots := by
  obtain ⟨before, after, blanks, hcontents, hadded⟩ := h
  rw [Object.names, hcontents, List.map_append, List.mem_append, not_or] at hname
  rw [hcontents] at hreads
  obtain ⟨first, last, rfl, hbefore, hafter⟩ := split_of_forall₂ hreads
  rw [hadded]
  cases hfind : find? properties name with
  | none =>
    have hskip : Spans Scan.skipValue (blanks ++ nullWord) () := fun rest hrest =>
      skipValue_consumes .null (by decide) blanks.2 fun _ => hrest
    refine ⟨first ++ none :: last, List.rel_append hbefore (.cons (.unknown hfind hskip) hafter), ?_⟩
    rw [List.foldl_append, List.foldl_append]
    rfl
  | some entry =>
    obtain ⟨p, slot⟩ := entry
    obtain ⟨hslot, rfl⟩ := Direct.mem_of_find?_zipIdx hfind
    obtain ⟨value, hvalue, hspans⟩ := hnull slot p hslot
    refine ⟨first ++ some (slot, value) :: last,
      List.rel_append hbefore (.cons (.known hfind (hspans blanks)) hafter), ?_⟩
    exact foldl_put_insert hvalue (notMem_of_reads hslot hname.1 hbefore)

end Adding

end ShapeCodec.Written
