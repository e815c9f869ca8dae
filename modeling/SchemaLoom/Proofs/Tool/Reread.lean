import SchemaLoom.Proofs.Json.Reread
import SchemaLoom.Proofs.Walk.Rules
import SchemaLoom.Tool.Reading

set_option autoImplicit false

/-! # Reading tools and settings again

Settings, selections, tools and lists of tools are read from a text without its document being made.
All of their parts are read exactly, so making the document first and reading that gives the same,
as far as there is a document: what follows the first value is not looked at, and neither are the
values of a tool's further keys beyond where they end.
-/

namespace SchemaLoom

theorem ToolSelection.exact_reader : ToolSelection.reader.Exact := by
  refine Layout.exact_reader ?_ rfl
  simp only [layout, List.forall_mem_cons, List.not_mem_nil, false_implies, implies_true, and_true]
  exact ⟨Reader.exact_string.map _, Reader.exact_bool.map _, Reader.exact_string.map _⟩

theorem ToolSettings.exact_reader : ToolSettings.reader.Exact := by
  refine Layout.exact_reader ?_ rfl
  simp only [layout, List.forall_mem_cons, List.not_mem_nil, false_implies, implies_true, and_true]
  exact ⟨Reader.exact_string.map _, Reader.exact_string.map _, ToolSelection.exact_reader.map _⟩

theorem Tool.faithful_reader : Tool.reader.Faithful Tool.layout.PassesOver := by
  refine Layout.faithful_reader ?_
  simp only [layout, List.forall_mem_cons, List.not_mem_nil, false_implies, implies_true, and_true]
  exact ⟨Reader.exact_string.map _, Reader.exact_string.optional.map _,
    Reader.exact_json.optional.map _⟩

theorem Tool.faithful_listReader :
    Tool.listReader.Faithful (Reader.PassesInItem Tool.layout.PassesOver) :=
  Tool.faithful_reader.list

/-- What the reader passes over in the text has a value. -/
def SpellsPassed (passes : Draft → Draft → Prop) (text : String) : Prop :=
  ∀ part, passes (Draft.scan text.toList).1 part → ∃ value, part.Spells value

/-- **When a text that was read is a document, read alike.** For settings and selections only blanks
may follow the first value of the text; for tools, moreover, the values of further keys must be
values. -/
theorem texts_reread_iff (text : String) :
    (∀ settings, ToolSettings.reader.ofText text = .ok settings →
      (ToolSettings.reader.Rereads text settings ↔ EndsWithValue text)) ∧
    (∀ selection, ToolSelection.reader.ofText text = .ok selection →
      (ToolSelection.reader.Rereads text selection ↔ EndsWithValue text)) ∧
    (∀ tool, Tool.reader.ofText text = .ok tool →
      (Tool.reader.Rereads text tool ↔
        EndsWithValue text ∧ SpellsPassed Tool.layout.PassesOver text)) ∧
    (∀ tools, Tool.listReader.ofText text = .ok tools →
      (Tool.listReader.Rereads text tools ↔
        EndsWithValue text ∧ SpellsPassed (Reader.PassesInItem Tool.layout.PassesOver) text)) := by
  refine ⟨fun settings read => ?_, fun selection read => ?_,
    fun tool read => Tool.faithful_reader.rereads_iff read,
    fun tools read => Tool.faithful_listReader.rereads_iff read⟩
  · exact ToolSettings.exact_reader.rereads_iff read |>.trans (and_iff_left fun _ => False.elim)
  · exact ToolSelection.exact_reader.rereads_iff read |>.trans (and_iff_left fun _ => False.elim)

/-- Settings with a blank line after them. -/
def picksText : String := "\x7b\"selection\": [\"picks\"]\x7d\n"

/-- A tool with a further key. -/
def titledText : String := "\x7b\"name\": \"look\", \"title\": 1\x7d"

theorem texts_reread_iff_picks :
    ToolSettings.reader.ofText picksText = .ok { selection := { toolsField := "picks" } } ∧
      ToolSettings.reader.Rereads picksText { selection := { toolsField := "picks" } } ∧
      ∃ tool, Tool.reader.ofText titledText = .ok tool ∧ tool.name = "look" ∧
        Tool.reader.Rereads titledText tool := by
  have settings : ToolSettings.reader.ofText picksText
      = .ok { selection := { toolsField := "picks" } } := by decide +kernel
  have picksEnds : EndsWithValue picksText := by
    rw [EndsWithValue]
    decide +kernel
  have titledEnds : EndsWithValue titledText := by
    rw [EndsWithValue]
    decide +kernel
  have titled : ((Tool.reader.ofText titledText).toOption.map fun tool => tool.name)
      = some "look" := by decide +kernel
  obtain ⟨tool, read, named⟩ := exists_of_toOption titled
  have spelled : (((Draft.scan titledText.toList).1.toJson []).toOption.map fun _ => ())
      = some () := by decide +kernel
  obtain ⟨value, spelled, -⟩ := exists_of_toOption spelled
  have passed : SpellsPassed Tool.layout.PassesOver titledText :=
    (Tool.faithful_reader.spells read).mp ⟨value, spelled⟩
  exact ⟨settings, ((texts_reread_iff picksText).1 _ settings).mpr picksEnds, tool, read, named,
    ((texts_reread_iff titledText).2.2.1 _ read).mpr ⟨titledEnds, passed⟩⟩

/-- Settings with a letter after them. -/
def strayText : String := "\x7b\x7d x"

/-- What follows the first value of a text is not looked at. -/
theorem settings_not_reread :
    ToolSettings.reader.ofText strayText = .ok {} ∧
      (∀ document, Json.parse strayText ≠ .ok document) ∧
      ¬ ToolSettings.reader.Rereads strayText {} := by
  have ends : ¬ EndsWithValue strayText := by
    rw [EndsWithValue]
    decide +kernel
  have broken (document : Json) : Json.parse strayText ≠ .ok document :=
    fun parsed => ends (Json.parse_eq_ok_iff.mp parsed).2
  refine ⟨by decide +kernel, broken, ?_⟩
  rintro ⟨document, parsed, -⟩
  exact broken document parsed

-- Nor are the characters of a text under a key that is passed over.
example : (Tool.reader.ofText "\x7b\"name\": \"look\", \"icon\": \"\\ud800\"\x7d").isOk
    = true := by decide +kernel
example : (Json.parse "\x7b\"name\": \"look\", \"icon\": \"\\ud800\"\x7d").isOk = false := by
  decide +kernel

end SchemaLoom
