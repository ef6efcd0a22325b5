import Household.Change
import Household.Proofs.Json.Reading

/-!
# Messages on the wire

The wire text of a message whose extra data holds whole numbers only is a JSON
object from which everything in the message can be read back. Two messages of
this kind have one text only if they are equal.
-/

set_option autoImplicit false

namespace Household

theorem Json.havePlain_iff {ms : List (String × Json)} :
    HavePlain ms ↔ ∀ m ∈ ms, m.2.IsPlain := by
  induction ms with
  | nil => simp [HavePlain]
  | cons m ms ih => simp [HavePlain, ih]

namespace Change

def ofFields (entity action : String) (id : Int) (extra : List (String × Json)) : Change :=
  ⟨entity, action, id, extra.map (fun m => (m.1, some m.2))⟩

/-- The fields of a message are given, each in one of the forms for it, and
some type with them or none. -/
structure Given.Supplies (g : Given) (entity action : String) (id : Int)
    (extra : List (String × Json)) : Prop where
  entity : g.entity? = some (.string entity)
  action : g.action? = some (.string action)
  id : g.id? = some (.number (.whole id)) ∨ g.id? = none ∧ id = 0
  extra : g.extra? = some (.value (.object extra)) ∨
    g.extra? = some (.named (extra.map (fun m => (m.1, some m.2)))) ∨ g.extra? = none ∧ extra = []

def Given.wireText? (g : Given) : Option String := (ofGiven g).toOption.bind Change.wireText?

/-- What the members of a wire object say: the type, always made of entity and
action, an identifier unless it is zero and extra data unless there is none,
in this order. -/
structure Recovers (entity action : String) (id : Int) (extra ms : List (String × Json)) :
    Prop where
  order : (ms.map Prod.fst).Sublist ["type", "entity", "action", "id", "extra"]
  type : ms.lookup "type" = some (.string (entity ++ "_" ++ action))
  entity : ms.lookup "entity" = some (.string entity)
  action : ms.lookup "action" = some (.string action)
  id : ms.lookup "id" = if id = 0 then none else some (.number (.whole id))
  extra : ms.lookup "extra" = if extra = [] then none else some (.object extra)

/-- The message has a wire text: a JSON object, which is read as members that
say all there is in the message. -/
def ReadsBack (g : Given) (entity action : String) (id : Int) (extra : List (String × Json)) :
    Prop :=
  ∃ text ms, g.wireText? = some text ∧ Json.TextOf text.toList (.object ms) ∧
    Json.ofText? text = some (.object ms) ∧ Recovers entity action id extra ms

variable {g : Given} {entity action entity' action' : String} {id id' : Int}
  {extra extra' ms : List (String × Json)}

/-! Making messages -/

theorem ofGiven_eq (h : g.Supplies entity action id extra) :
    ofGiven g = .ok (ofFields entity action id extra) := by
  obtain ⟨hentity, haction, hid, hextra⟩ := h
  have htype : g.type = .ok "" := by simp [Given.type, hentity, haction]
  have hid : g.id = .ok id := by
    rcases hid with hid | ⟨hid, rfl⟩ <;> simp [Given.id, hid, Json.toInteger]
  have hextra : g.extra = .ok (extra.map (fun m => (m.1, some m.2))) := by
    rcases hextra with hextra | hextra | ⟨hextra, rfl⟩ <;>
      simp [Given.extra, hextra, GivenExtra.toExtra]
  simp only [ofGiven, htype, hentity, haction, requiredText, Json.toText, hid, hextra, ofFields]

theorem announce_eq {given : GivenExtra}
    (h : given = .value (.object extra) ∨ given.isVoid = true ∧ extra = []) :
    announce (.string entity) (.string action) (.number (.whole id)) given =
      .ok (ofFields entity action id extra) := by
  refine ofGiven_eq ⟨rfl, rfl, .inl rfl, ?_⟩
  by_cases hvoid : given.isVoid = true
  · have hnone : extra = [] := by
      rcases h with rfl | ⟨-, hnone⟩
      · exact List.isEmpty_iff.mp hvoid
      · exact hnone
    exact .inr (.inl (by rw [if_pos hvoid, hnone]; rfl))
  · rcases h with rfl | ⟨h, -⟩
    · exact .inl (by rw [if_neg hvoid])
    · exact absurd h hvoid

/-! Their members -/

theorem extraMembers?_map (extra : List (String × Json)) :
    extraMembers? (extra.map (fun m => (m.1, some m.2))) = some extra := by
  induction extra with
  | nil => rfl
  | cons m ms ih => simp [extraMembers?, ih]

theorem wireText?_ofFields (entity action : String) (id : Int) (extra : List (String × Json)) :
    (ofFields entity action id extra).wireText? =
      some (Json.object ((ofFields entity action id extra).members extra)).text := by
  simp only [wireText?, json?, ofFields, extraMembers?_map, Option.map_some]

theorem plain_members (c : Change) (h : ∀ m ∈ extra, m.2.IsPlain) :
    (Json.object (c.members extra)).IsPlain := by
  have hextra : (Json.object extra).IsPlain := by rwa [Json.IsPlain, Json.havePlain_iff]
  rw [Json.IsPlain, Json.havePlain_iff, members, List.forall_mem_append, List.forall_mem_append]
  refine ⟨⟨?_, ?_⟩, ?_⟩
  · simp [Json.IsPlain]
  · split <;> simp [Json.IsPlain]
  · split <;> simp [hextra]

theorem recovers_members (entity action : String) (id : Int) (extra : List (String × Json)) :
    Recovers entity action id extra ((ofFields entity action id extra).members extra) := by
  by_cases hid : id = 0 <;> cases extra with
  | nil => constructor <;> simp [members, ofFields, kind, hid, List.lookup_cons]
  | cons m ms => constructor <;> simp [members, ofFields, kind, hid, List.lookup_cons]

theorem Recovers.unique (h : Recovers entity action id extra ms)
    (h' : Recovers entity' action' id' extra' ms) :
    ofFields entity action id extra = ofFields entity' action' id' extra' := by
  have hentity := h.entity.symm.trans h'.entity
  have haction := h.action.symm.trans h'.action
  have hid := h.id.symm.trans h'.id
  have hextra := h.extra.symm.trans h'.extra
  simp only [Option.some.injEq, Json.string.injEq] at hentity haction
  have hid : id = id' := by
    by_cases hz : id = 0 <;> by_cases hz' : id' = 0 <;> simp_all
  have hextra : extra = extra' := by
    by_cases hn : extra = [] <;> by_cases hn' : extra' = [] <;> simp_all
  rw [hentity, haction, hid, hextra]

theorem readsBack (h : g.Supplies entity action id extra) (hp : ∀ m ∈ extra, m.2.IsPlain) :
    ReadsBack g entity action id extra := by
  have htext := Json.textOf_chars (plain_members (ofFields entity action id extra) hp)
  refine ⟨(Json.object ((ofFields entity action id extra).members extra)).text, _, ?_, ?_, ?_,
    recovers_members entity action id extra⟩
  · rw [Given.wireText?, ofGiven_eq h]
    exact wireText?_ofFields entity action id extra
  · rwa [Json.text, String.toList_ofList]
  · rw [Json.ofText?, Json.text, String.toList_ofList]
    exact htext.ofChars?

/-- A message can be read back from its wire text, whatever type was given with
it, and no other message has this text. -/
theorem wire_read_back (h : g.Supplies entity action id extra) (hp : ∀ m ∈ extra, m.2.IsPlain) :
    ReadsBack g entity action id extra ∧
    (∀ given : GivenExtra, given = .value (.object extra) ∨ given.isVoid = true ∧ extra = [] →
      announce (.string entity) (.string action) (.number (.whole id)) given = ofGiven g) ∧
    ∀ g' entity' action' id' extra', Given.Supplies g' entity' action' id' extra' →
      (∀ m ∈ extra', m.2.IsPlain) → g'.wireText? = g.wireText? → ofGiven g' = ofGiven g := by
  refine ⟨readsBack h hp, fun given hgiven => ?_, ?_⟩
  · rw [announce_eq hgiven, ofGiven_eq h]
  · intro g' entity' action' id' extra' h' hp' htext
    obtain ⟨text, ms, hwire, hgrammar, -, hrecovers⟩ := readsBack h hp
    obtain ⟨text', ms', hwire', hgrammar', -, hrecovers'⟩ := readsBack h' hp'
    obtain rfl : text' = text := Option.some.inj (hwire'.symm.trans (htext.trans hwire))
    obtain rfl := Json.object.inj (hgrammar.unique hgrammar')
    rw [ofGiven_eq h, ofGiven_eq h', hrecovers.unique hrecovers']

def awkwardExtra : List (String × Json) :=
  [("", .array [.null, .bool true, .object []]),
    ("n", .object [("a\tb", .number (.whole 12345678901234567890))])]

def awkward : Given where
  type? := some (.string "bogus")
  entity? := some (.string "\"liste\"\n\x01")
  action? := some (.string "créée \\ 🧺")
  id? := some (.number (.whole (-7)))
  extra? := some (.value (.object awkwardExtra))

theorem awkward_read_back :
    awkward.Supplies "\"liste\"\n\x01" "créée \\ 🧺" (-7) awkwardExtra ∧
    (∀ m ∈ awkwardExtra, m.2.IsPlain) ∧
    ReadsBack awkward "\"liste\"\n\x01" "créée \\ 🧺" (-7) awkwardExtra := by
  have hsupplies : awkward.Supplies "\"liste\"\n\x01" "créée \\ 🧺" (-7) awkwardExtra :=
    ⟨rfl, rfl, .inl rfl, .inl rfl⟩
  have hplain : ∀ m ∈ awkwardExtra, m.2.IsPlain := by
    simp [awkwardExtra, Json.IsPlain, Json.ArePlain, Json.HavePlain]
  exact ⟨hsupplies, hplain, (wire_read_back hsupplies hplain).1⟩

end Change

end Household
