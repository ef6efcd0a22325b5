import Household.Coercion

/-!
# Change messages

A change message tells clients that an action was taken on an entity. On the
wire it is a JSON object whose type is always made of entity and action; an
identifier of zero and empty extra data are left out. Extra data may hold
values without a JSON form, which leave the message without a wire text.
-/

set_option autoImplicit false

namespace Household

/-- Extra data: named values, in order; `none` has no JSON form. -/
abbrev Extra := List (String × Option Json)

/-- Sets a value in place of an earlier one of its name, or else as the last. -/
def Extra.put (extra : Extra) (name : String) (value? : Option Json) : Extra :=
  if extra.any (fun m => m.1 == name) then
    extra.map (fun m => if m.1 == name then (name, value?) else m)
  else extra ++ [(name, value?)]

structure Change where
  entity : String
  action : String
  id : Int
  extra : Extra

namespace Change

def kind (c : Change) : String := c.entity ++ "_" ++ c.action

def extraMembers? : Extra → Option (List (String × Json))
  | [] => some []
  | (_, none)::_ => none
  | (k, some v)::ms => (extraMembers? ms).map ((k, v) :: ·)

def members (c : Change) (extra : List (String × Json)) : List (String × Json) :=
  [("type", .string c.kind), ("entity", .string c.entity), ("action", .string c.action)] ++
    (if c.id = 0 then [] else [("id", .number (.whole c.id))]) ++
    (if extra.isEmpty then [] else [("extra", .object extra)])

def json? (c : Change) : Option Json :=
  (extraMembers? c.extra).map (fun ms => .object (c.members ms))

def wireText? (c : Change) : Option String := c.json?.map Json.text

def unwritable : String := "Unable to serialize unknown type: <class 'object'>"

inductive GivenExtra where
  | value (j : Json)
  | named (extra : Extra)

/-- The fields of a message as they are given; any may be missing. -/
structure Given where
  type? : Option Json
  entity? : Option Json
  action? : Option Json
  id? : Option Json
  extra? : Option GivenExtra

inductive Field where
  | type
  | entity
  | action
  | id
  | extra
  deriving DecidableEq, Repr

def Field.name : Field → String
  | type => "type"
  | entity => "entity"
  | action => "action"
  | id => "id"
  | extra => "extra"

def requiredText : Option Json → Except Issue String
  | none => .error .missing
  | some j => j.toText

def GivenExtra.toExtra : GivenExtra → Except Issue Extra
  | named extra => .ok extra
  | value (.object ms) => .ok (ms.map (fun m => (m.1, some m.2)))
  | value _ => .error .notDictionary

/-- Adds a value without a JSON form to extra data, where it can hold one:
data that stands for nothing becomes data with this value alone. -/
def GivenExtra.addUnwritable (name : String) : GivenExtra → GivenExtra
  | named extra => .named (extra.put name none)
  | value (.object ms) => .named (Extra.put (ms.map (fun m => (m.1, some m.2))) name none)
  | value j => if j.isVoid then .named [(name, none)] else .value j

def GivenExtra.isVoid : GivenExtra → Bool
  | named extra => extra.isEmpty
  | value j => j.isVoid

def issueOf {α : Type} (f : Field) : Except Issue α → List (Field × Issue)
  | .ok _ => []
  | .error i => [(f, i)]

/-- The type is taken from entity and action once both are given, so a given
type is looked at only without them. -/
def Given.type (g : Given) : Except Issue String :=
  if g.entity?.isSome && g.action?.isSome then .ok ""
  else
    match g.type? with
    | none => .ok ""
    | some j => j.toText

def Given.id (g : Given) : Except Issue Int :=
  match g.id? with
  | none => .ok 0
  | some j => j.toInteger

def Given.extra (g : Given) : Except Issue Extra :=
  match g.extra? with
  | none => .ok []
  | some e => e.toExtra

def ofGiven (g : Given) : Except (List (Field × Issue)) Change :=
  match g.type, requiredText g.entity?, requiredText g.action?, g.id, g.extra with
  | .ok _, .ok entity, .ok action, .ok id, .ok extra => .ok ⟨entity, action, id, extra⟩
  | t, entity, action, id, extra =>
    .error (issueOf .type t ++ issueOf .entity entity ++ issueOf .action action ++
      issueOf .id id ++ issueOf .extra extra)

/-- A new message; extra data that stands for nothing is none. -/
def announce (entity action : Json) (id : Json) (extra : GivenExtra) :
    Except (List (Field × Issue)) Change :=
  ofGiven ⟨none, some entity, some action, some id,
    some (if extra.isVoid then .named [] else extra)⟩

end Change

end Household
