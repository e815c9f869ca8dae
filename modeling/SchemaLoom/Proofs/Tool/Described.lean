import SchemaLoom.Proofs.Tool.Reread
import SchemaLoom.Tool.Convert

set_option autoImplicit false

/-! # Descriptions of tools

A tool is described by an object with its name, and maybe a text and a schema under one of two keys,
or by the array of these in order. A list of tools is an array of such descriptions, and reading it
gives the tools they describe (`listReader_eq_ok_iff`). Otherwise the fault is at the first item
that describes no tool, or below it (`listReader_error`).
-/

namespace SchemaLoom

namespace Tool

/-! ## Descriptions -/

/-- The values that stand under one of the keys. -/
def valuesUnder (keys : List String) (members : List (String × Json)) : List Json :=
  (members.filter fun member => keys.contains member.1).map Prod.snd

/-- At most one value is given; `null` is as good as none. -/
inductive Gives {α : Type} (means : Json → α → Prop) : List Json → Option α → Prop where
  | absent : Gives means [] none
  | null : Gives means [.null] none
  | value {value : Json} {a : α} (given : value ≠ .null) (meant : means value a) :
      Gives means [value] (some a)

/-- The value is the text. -/
def IsText (value : Json) (text : String) : Prop := value = .str text

/-- The value describes the tool: as an object in which other keys have no meaning, or as the array
of the parts in order, of which only the name is required. -/
inductive Describes : Json → Tool → Prop where
  | object {members : List (String × Json)} {tool : Tool}
      (named : valuesUnder ["name"] members = [.str tool.name])
      (told : Gives IsText (valuesUnder ["description"] members) tool.description?)
      (shaped : Gives Eq (valuesUnder ["inputSchema", "input_schema"] members)
        tool.inputSchema?) :
      Describes (.obj members) tool
  | array {rest : List Json} {tool : Tool} (told : Gives IsText (rest.take 1) tool.description?)
      (shaped : Gives Eq (rest.drop 1) tool.inputSchema?) :
      Describes (.arr (.str tool.name :: rest)) tool

/-- The value is an array of descriptions, of these tools in order. -/
def DescribesList (value : Json) (tools : List Tool) : Prop :=
  ∃ items, value = .arr items ∧ List.Forall₂ Describes items tools

/-- The item with the index is the first that describes no tool. -/
structure FirstBad (items : List Json) (i : Nat) : Prop where
  bad : ∃ item, items[i]? = some item ∧ ∀ tool, ¬ Describes item tool
  before : ∀ k < i, ∀ item, items[k]? = some item → ∃ tool, Describes item tool

/-- With an item that describes no tool the array is no list of descriptions. -/
theorem FirstBad.not_describesList {items : List Json} {i : Nat} (first : FirstBad items i)
    (tools : List Tool) : ¬ DescribesList (.arr items) tools := by
  rintro ⟨_, ⟨⟩, all⟩
  obtain ⟨bad, there, none⟩ := first.bad
  obtain ⟨less, rfl⟩ := List.getElem?_eq_some_iff.mp there
  exact none _ (all.get less (all.length_eq ▸ less))

/-! ## The parts of a description -/

/-- The value is `null` and nothing is meant, or something is. -/
def OrNull {α : Type} (means : Json → α → Prop) (value : Json) (a? : Option α) : Prop :=
  value = .null ∧ a? = none ∨ value ≠ .null ∧ ∃ a, means value a ∧ a? = some a

section Parts

variable {place : Place} {value : Json}

theorem string_ofJson_iff {text : String} :
    Reader.string place (.ofJson value) = .ok text ↔ IsText value text :=
  Reader.string_ofJson

theorem optional_string_ofJson {text? : Option String} :
    Reader.string.optional place (.ofJson value) = .ok text? ↔ OrNull IsText value text? := by
  simp only [Reader.optional_ofJson, string_ofJson_iff, OrNull]

theorem optional_json_ofJson (distinct : DistinctKeys value) {schema? : Option Json} :
    Reader.json.optional place (.ofJson value) = .ok schema? ↔ OrNull Eq value schema? := by
  have read : Reader.json place (.ofJson value) = .ok value := by
    simp only [Reader.json, Draft.toJson_ofJson place value distinct]
  simp only [Reader.optional_ofJson, read, Except.ok.injEq, OrNull]

end Parts

/-- What the values that are given make of a part: nothing where there is none. A part takes one
value in all. -/
def Slot {α : Type} (reads : Json → α → Prop) (taken : Prop) (old new : α) : List Json → Prop
  | [] => old = new
  | [value] => ¬ taken ∧ reads value new
  | _ => False

theorem slot_cons {α : Type} {reads : Json → α → Prop} {taken : Prop} {old new : α} {value : Json}
    {more : List Json} : Slot reads taken old new (value :: more) ↔
      ¬ taken ∧ ∃ a, reads value a ∧ Slot reads True a new more := by
  rcases more with _ | ⟨second, more⟩
  · simp [Slot]
  · rcases more with _ | ⟨third, more⟩ <;> simp [Slot]

theorem slot_isText {text : String} {given : List Json} :
    given ≠ [] ∧ Slot IsText False "" text given ↔ given = [.str text] := by
  rcases given with _ | ⟨value, _ | ⟨second, more⟩⟩ <;> simp [Slot, IsText]

theorem slot_orNull {α : Type} {means : Json → α → Prop} {a? : Option α} {given : List Json} :
    Slot (OrNull means) False none a? given ↔ Gives means given a? := by
  constructor
  · rcases given with _ | ⟨value, _ | ⟨second, more⟩⟩
    · rintro rfl
      exact .absent
    · rintro ⟨-, ⟨rfl, rfl⟩ | ⟨some, a, meant, rfl⟩⟩
      · exact .null
      · exact .value some meant
    · exact False.elim
  · rintro (_ | _ | ⟨some, meant⟩)
    · rfl
    · exact ⟨not_false, .inl ⟨rfl, rfl⟩⟩
    · exact ⟨not_false, .inr ⟨some, _, meant, rfl⟩⟩

/-! ## Objects -/

section Objects

variable {place : Place}

theorem valuesUnder_cons_of_mem {keys : List String} {key : String} (mem : key ∈ keys)
    (value : Json) (rest : List (String × Json)) :
    valuesUnder keys ((key, value) :: rest) = value :: valuesUnder keys rest := by
  simp [valuesUnder, mem]

theorem valuesUnder_cons_of_not_mem {keys : List String} {key : String} (other : key ∉ keys)
    (value : Json) (rest : List (String × Json)) :
    valuesUnder keys ((key, value) :: rest) = valuesUnder keys rest := by
  simp [valuesUnder, other]

/-- Members are read as a tool if each of its parts is made of the values under its keys. -/
theorem readMembers_ofMembers {members : List (String × Json)}
    (distinct : ∀ member ∈ members, DistinctKeys member.2) {seen : List String}
    {record tool : Tool} :
    layout.readMembers place .closed seen (Draft.ofMembers members) record = .ok tool ↔
      ("name" ∈ seen ∨ valuesUnder ["name"] members ≠ []) ∧
        Slot IsText ("name" ∈ seen) record.name tool.name
          (valuesUnder ["name"] members) ∧
        Slot (OrNull IsText) ("description" ∈ seen) record.description? tool.description?
          (valuesUnder ["description"] members) ∧
        Slot (OrNull Eq) ("inputSchema" ∈ seen) record.inputSchema? tool.inputSchema?
          (valuesUnder ["inputSchema", "input_schema"] members) := by
  -- A member fills the slot of its part and leaves the others alone; the rest starts from there.
  induction members generalizing seen record with
  | nil =>
      rw [Draft.ofMembers, Layout.readMembers_nil]
      obtain ⟨name, description?, inputSchema?⟩ := record
      obtain ⟨name', description?', inputSchema?'⟩ := tool
      simp [layout, valuesUnder, Slot, ObjectStop.nextFault?]
  | cons member rest ih =>
      obtain ⟨key, value⟩ := member
      obtain ⟨own, others⟩ := List.forall_mem_cons.mp distinct
      rw [Draft.ofMembers]
      by_cases isName : key = "name"
      · subst isName
        rw [Layout.readMembers_field (by rfl), valuesUnder_cons_of_mem (by decide),
          valuesUnder_cons_of_not_mem (by decide), valuesUnder_cons_of_not_mem (by decide)]
        simp only [exists_map_eq_ok, string_ofJson_iff, ih others, slot_cons, List.mem_cons,
          String.reduceEq, true_or, false_or]
        grind
      by_cases isDescription : key = "description"
      · subst isDescription
        rw [Layout.readMembers_field (by rfl), valuesUnder_cons_of_not_mem (by decide),
          valuesUnder_cons_of_mem (by decide), valuesUnder_cons_of_not_mem (by decide)]
        simp only [exists_map_eq_ok, optional_string_ofJson, ih others, slot_cons, List.mem_cons,
          String.reduceEq, true_or, false_or]
        grind
      by_cases isSchema : key = "inputSchema" ∨ key = "input_schema"
      · have denotes : layout.field? key = layout.fields[2]? := by
          rcases isSchema with rfl | rfl <;> rfl
        rw [Layout.readMembers_field denotes, valuesUnder_cons_of_not_mem (by simpa using isName),
          valuesUnder_cons_of_not_mem (by simpa using isDescription),
          valuesUnder_cons_of_mem (by simpa using isSchema)]
        simp only [exists_map_eq_ok, optional_json_ofJson own, ih others, slot_cons, List.mem_cons,
          String.reduceEq, true_or, false_or]
        grind
      · have denotes : layout.field? key = none := by
          grind [layout, Layout.field?, Field.matches]
        rw [Layout.readMembers_unknown denotes, ih others, Draft.skipFault?_ofJson,
          valuesUnder_cons_of_not_mem (by simpa using isName),
          valuesUnder_cons_of_not_mem (by simpa using isDescription),
          valuesUnder_cons_of_not_mem (by simpa using isSchema)]
        have passes : layout.skipsUnknown = true := rfl
        simp only [passes, true_and]

theorem describes_obj {members : List (String × Json)} {tool : Tool} :
    Describes (.obj members) tool ↔ valuesUnder ["name"] members = [.str tool.name] ∧
      Gives IsText (valuesUnder ["description"] members) tool.description? ∧
      Gives Eq (valuesUnder ["inputSchema", "input_schema"] members) tool.inputSchema? := by
  constructor
  · rintro (⟨named, told, shaped⟩ | _)
    exact ⟨named, told, shaped⟩
  · rintro ⟨named, told, shaped⟩
    exact .object named told shaped

end Objects

/-! ## Arrays -/

theorem describes_arr {items : List Json} {tool : Tool} : Describes (.arr items) tool ↔
    ∃ rest, items = .str tool.name :: rest ∧ Gives IsText (rest.take 1) tool.description? ∧
      Gives Eq (rest.drop 1) tool.inputSchema? := by
  constructor
  · rintro (_ | ⟨told, shaped⟩)
    exact ⟨_, rfl, told, shaped⟩
  · rintro ⟨rest, rfl, told, shaped⟩
    exact .array told shaped

/-- Items are read as a tool if they are its parts in order. -/
theorem readItems_ofItems {place : Place} {items : List Json}
    (distinct : ∀ item ∈ items, DistinctKeys item) {total : Nat} {tool : Tool} :
    layout.readItems place .stored total 0 layout.fields (Draft.ofItems items) layout.initial
      = .ok tool ↔ Describes (.arr items) tool := by
  obtain ⟨name, description?, schema?⟩ := tool
  rw [describes_arr]
  simp only [← slot_orNull, layout]
  rcases items with _ | ⟨a, _ | ⟨b, _ | ⟨c, _ | ⟨d, rest⟩⟩⟩⟩
  · simp [Draft.ofItems, Layout.readItems_absent]
  · simp only [Draft.ofItems, Layout.readItems_field, Layout.readItems_absent,
      Layout.readItems_done, exists_map_eq_ok, string_ofJson_iff]
    simp [Slot, IsText, ArrayStop.nextFault?, ArrayStop.closeFault?]
  · simp only [Draft.ofItems, Layout.readItems_field, Layout.readItems_absent,
      Layout.readItems_done, exists_map_eq_ok, string_ofJson_iff, optional_string_ofJson]
    simp [Slot, IsText, ArrayStop.nextFault?, ArrayStop.closeFault?]
  · have own : DistinctKeys c := distinct c (by simp)
    simp only [Draft.ofItems, Layout.readItems_field, Layout.readItems_done, exists_map_eq_ok,
      string_ofJson_iff, optional_string_ofJson, optional_json_ofJson own]
    simp [Slot, IsText, ArrayStop.closeFault?]
  · have own : DistinctKeys c := distinct c (by simp)
    simp only [Draft.ofItems, Layout.readItems_field, Layout.readItems_beyond, exists_map_eq_ok,
      string_ofJson_iff, optional_string_ofJson, optional_json_ofJson own]
    simp [Slot]

/-! ## Tools and lists of tools -/

/-- **A tool is read from what describes it**, at whatever place. -/
theorem reader_eq_ok_iff {value : Json} (distinct : DistinctKeys value) (place : Place)
    (tool : Tool) : reader place (.ofJson value) = .ok tool ↔ Describes value tool := by
  cases value
  case arr items =>
    simp only [reader, Layout.reader, Draft.ofJson, Bool.false_eq_true, if_false]
    exact readItems_ofItems fun item mem => distinct.of_item mem
  case obj members =>
    simp only [reader, Layout.reader, Draft.ofJson, Bool.false_eq_true, if_false]
    rw [readMembers_ofMembers fun member mem => distinct.of_member mem, describes_obj,
      ← slot_isText, ← slot_orNull, ← slot_orNull]
    simp only [List.not_mem_nil, false_or, and_assoc]
    rfl
  all_goals exact iff_of_false (by rintro ⟨⟩) (by rintro ⟨⟩)

/-- **A list of tools is read from an array of descriptions** and from nothing else. -/
theorem listReader_eq_ok_iff {value : Json} (distinct : DistinctKeys value) {tools : List Tool} :
    listReader.ofValue value = .ok tools ↔ DescribesList value tools := by
  cases value
  case arr items =>
    rw [listReader, Reader.ofValue, Reader.list_ofJson_arr,
      Reader.items_ofItems fun item mem => reader_eq_ok_iff (distinct.of_item mem)]
    constructor
    · exact fun all => ⟨items, rfl, all⟩
    · rintro ⟨_, ⟨⟩, all⟩
      exact all
  all_goals exact iff_of_false (by rintro ⟨⟩) (by rintro ⟨_, ⟨⟩, -⟩)

/-- The fault is at the first item that describes no tool, or below it. -/
theorem listReader_error {items : List Json} (distinct : DistinctKeys (.arr items)) {i : Nat}
    (first : FirstBad items i) : ∃ fault below,
      listReader.ofValue (.arr items) = .error fault ∧ fault.place = .index i :: below := by
  obtain ⟨bad, there, none⟩ := first.bad
  obtain ⟨fault, below, failed, place⟩ := Reader.items_ofItems_error [] (i := 0)
    faithful_reader.relative (fun item mem => reader_eq_ok_iff (distinct.of_item mem)) there none
    first.before
  refine ⟨fault, below, ?_, by simpa using place⟩
  rw [listReader, Reader.ofValue, Reader.list_ofJson_arr, failed]

end Tool

/-! ## The message -/

theorem toolListPlace_index (i : Nat) (below : Place) :
    toolListPlace (.index i :: below) = s!"tools[{i}]" ++ Place.tailText below := by
  have joined : "tools" ++ "" ++ "[" = "tools[" := by decide
  show "tools" ++ "" ++ ("[" ++ toString i ++ "]" ++ Place.tailText below)
    = "tools[" ++ toString i ++ "]" ++ Place.tailText below
  simp only [← joined, String.append_assoc]

/-- The message of a fault at an item, or below it, starts with the item. -/
theorem SchemaError.message_invalidToolList {fault : ReadError} {i : Nat} {below : Place}
    (place : fault.place = .index i :: below) : ∃ text,
      (invalidToolList fault).message = s!"invalid tool list: tools[{i}]" ++ text := by
  have joined : "invalid tool list: " ++ "tools[" = "invalid tool list: tools[" := by decide
  refine ⟨Place.tailText below ++ ": " ++ fault.cause.message, ?_⟩
  show "invalid tool list: " ++ toolListPlace fault.place ++ ": " ++ fault.cause.message
    = "invalid tool list: tools[" ++ toString i ++ "]" ++ _
  rw [place, toolListPlace_index]
  show "invalid tool list: " ++ ("tools[" ++ toString i ++ "]" ++ Place.tailText below) ++ ": "
    ++ fault.cause.message = _
  simp only [← joined, String.append_assoc]

/-! ## Documents -/

namespace ToolAdapter

/-- **The tools of a document** are read from an array of descriptions and from nothing else. Where
the array has an item that describes no tool, the message names the first one. -/
theorem convertDocument_reads (adapter : ToolAdapter) {document : Json}
    (distinct : DistinctKeys document) :
    (document.get? "tools" = none →
      adapter.convertDocument document = .error (.configuration .missingTools)) ∧
    ∀ value, document.get? "tools" = some value →
      (∀ tools, toolsOf document = .ok tools ↔ Tool.DescribesList value tools) ∧
      (∀ tools, Tool.DescribesList value tools →
        adapter.convertDocument document = adapter.convertTools tools) ∧
      ((∀ tools, ¬ Tool.DescribesList value tools) → ∃ fault,
        adapter.convertDocument document = .error (.invalidToolList fault) ∧
        ∀ items (i : Nat), value = .arr items → Tool.FirstBad items i → ∃ text,
          (SchemaError.invalidToolList fault).message
            = s!"invalid tool list: tools[{i}]" ++ text) := by
  constructor
  · intro missing
    simp only [convertDocument, toolsOf, missing]
    rfl
  · intro value found
    have own : DistinctKeys value := by
      cases document
      case obj members => exact distinct.of_within (Json.within_of_get? found)
      all_goals cases found
    have read (tools : List Tool) :
        toolsOf document = .ok tools ↔ Tool.DescribesList value tools := by
      rw [← Tool.listReader_eq_ok_iff own]
      simp only [toolsOf, found]
      cases Tool.listReader.ofValue value <;> simp
    refine ⟨read, fun tools described => ?_, fun none => ?_⟩
    · rw [convertDocument, (read tools).mpr described]
      rfl
    · cases failed : Tool.listReader.ofValue value with
      | ok tools => exact absurd ((Tool.listReader_eq_ok_iff own).mp failed) (none tools)
      | error fault =>
          refine ⟨fault, ?_, ?_⟩
          · simp only [convertDocument, toolsOf, found, failed]
            rfl
          · rintro items i rfl first
            obtain ⟨fault', below, failed', place⟩ := Tool.listReader_error own first
            obtain rfl : fault = fault' := Except.error.inj (failed.symm.trans failed')
            exact SchemaError.message_invalidToolList place

/-- A document that lists tools. -/
def toolList (items : List Json) : Json := .obj [("tools", .arr items)]

/-- Two descriptions, an object and an array. -/
def walkItems : List Json :=
  [.obj [("name", .str "look"), ("title", .bool true), ("input_schema", .null)],
    .arr [.str "go", .str "walks"]]

/-- A description without a name. -/
def namelessItem : Json := .obj [("description", .str "waits")]

/-- The descriptions are read in order; the item that is none is named by its index. -/
theorem convertDocument_reads_walkItems :
    DistinctKeys (toolList walkItems) ∧
      toolsOf (toolList walkItems)
        = .ok [⟨"look", none, none⟩, ⟨"go", some "walks", none⟩] ∧
      DistinctKeys (toolList (walkItems ++ [namelessItem])) ∧
      ∃ fault text, ({} : ToolAdapter).convertDocument (toolList (walkItems ++ [namelessItem]))
          = .error (.invalidToolList fault) ∧
        (SchemaError.invalidToolList fault).message
          = s!"invalid tool list: tools[{2}]" ++ text := by
  have good : DistinctKeys (toolList walkItems) := .of_everywhere (by decide)
  have bad : DistinctKeys (toolList (walkItems ++ [namelessItem])) := .of_everywhere (by decide)
  have look : Tool.Describes walkItems[0] ⟨"look", none, none⟩ := .object rfl .absent .null
  have go : Tool.Describes walkItems[1] ⟨"go", some "walks", none⟩ :=
    @Tool.Describes.array [.str "walks"] ⟨"go", some "walks", none⟩ (.value (by simp) rfl) .absent
  have waits (tool : Tool) : ¬ Tool.Describes namelessItem tool := by
    rintro (⟨⟨⟩, -, -⟩ | _)
  have first : Tool.FirstBad (walkItems ++ [namelessItem]) 2 :=
    ⟨⟨namelessItem, rfl, waits⟩, fun k less item there => by
      match k, less with
      | 0, _ => cases there; exact ⟨_, look⟩
      | 1, _ => cases there; exact ⟨_, go⟩⟩
  obtain ⟨fault, failed, named⟩ := ((convertDocument_reads {} bad).2 _ rfl).2.2
    first.not_describesList
  obtain ⟨text, message⟩ := named _ 2 rfl first
  exact ⟨good, (((convertDocument_reads {} good).2 _ rfl).1 _).mpr
    ⟨_, rfl, .cons look (.cons go .nil)⟩, bad, fault, text, failed, message⟩

end ToolAdapter

end SchemaLoom
