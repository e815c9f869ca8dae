import SchemaLoom.Proofs.Baml.Blocks

set_option autoImplicit false

/-! # The source loses nothing

The source of a model list is read back to the models in their normal form: skipped fields are
gone and every type is the one its text tells. So two model lists with the same source have the
same normal form, whatever their descriptions, aliases and literals are.
-/

namespace SchemaLoom.Baml

open DataModel (Part)

/-! ## Reading parts -/

/-- Reads a field behind its name. -/
def readField (name : String) : Reader DataField := do
  expect [' ']
  let type ← readType
  let description? ← readDescription
  let alias? ← readAlias
  return { name, type, description?, alias? }

/-- Reads whether a value is marked as skipped. -/
def readSkip : Reader Bool := fun cs =>
  match cs.dropPrefix? " @skip".toList with
  | some rest => some (true, rest)
  | none => some (false, cs)

/-- Reads a value behind its name. -/
def readValue (name : String) : Reader EnumMember := do
  let alias? ← readAlias
  let description? ← readDescription
  let skip ← readSkip
  return { name, alias?, description?, skip }

theorem readField_tail (owner : String) {f : DataField} (formed : f.wellFormed = true)
    (shown : f.skip = false) (rest : List Char) :
    readField f.name
        ((Part.field owner f).typeText ++ (Part.field owner f).attributes ++ '\n' :: rest)
      = some (f.normal, '\n' :: rest) := by
  have typed : f.type.wellFormed = true := (Bool.and_eq_true_iff.1 formed).2
  have written : (Part.field owner f).typeText ++ (Part.field owner f).attributes ++ '\n' :: rest
      = [' '] ++ ((typeSource s!"{owner}.{f.name}" f.type).1
        ++ (descriptionSource [' ', '@'] f.description?
          ++ (aliasSource [' ', '@'] f.alias? ++ '\n' :: rest))) := by
    simp [Part.typeText, Part.attributes]
  -- The type ends at the at sign of an attribute or at the end of the line.
  have ends : Ends itemChar (descriptionSource [' ', '@'] f.description?
      ++ (aliasSource [' ', '@'] f.alias? ++ '\n' :: rest)) := by
    cases f.description? <;> cases f.alias? <;> exact .cons rfl
  have noBar (more : List Char) : descriptionSource [' ', '@'] f.description?
      ++ (aliasSource [' ', '@'] f.alias? ++ '\n' :: rest) ≠ ' ' :: '|' :: ' ' :: more := by
    cases f.description? <;> cases f.alias? <;> rintro ⟨⟩
  have described : readDescription (descriptionSource [' ', '@'] f.description?
        ++ (aliasSource [' ', '@'] f.alias? ++ '\n' :: rest))
      = some (f.description?, aliasSource [' ', '@'] f.alias? ++ '\n' :: rest) := by
    apply readDescription_append
    cases f.alias? <;> rfl
  have aliased : readAlias (aliasSource [' ', '@'] f.alias? ++ '\n' :: rest)
      = some (f.alias?, '\n' :: rest) := readAlias_append f.alias? rfl
  have told : f.normal = ⟨f.name, f.type.normal, f.description?, f.alias?, false⟩ := by
    rw [← shown]
    rfl
  rw [written, told]
  unfold readField
  rw [Reader.bind_eq_of_eq (expect_append _ _),
    Reader.bind_eq_of_eq (readType_typeSource _ typed ends noBar), Reader.bind_eq_of_eq described,
    Reader.bind_eq_of_eq aliased]
  rfl

theorem readSkip_append (skip : Bool) (rest : List Char) :
    readSkip ((if skip then " @skip".toList else []) ++ '\n' :: rest)
      = some (skip, '\n' :: rest) := by
  cases skip <;> rfl

theorem readValue_tail (owner : String) (v : EnumMember) (rest : List Char) :
    readValue v.name ((Part.value owner v).attributes ++ '\n' :: rest)
      = some (v, '\n' :: rest) := by
  have written : (Part.value owner v).attributes ++ '\n' :: rest
      = aliasSource [' ', '@'] v.alias? ++ (descriptionSource [' ', '@'] v.description?
        ++ ((if v.skip then " @skip".toList else []) ++ '\n' :: rest)) := by
    simp only [Part.attributes, List.append_assoc]
  have aliased : readAlias (aliasSource [' ', '@'] v.alias?
        ++ (descriptionSource [' ', '@'] v.description?
          ++ ((if v.skip then " @skip".toList else []) ++ '\n' :: rest)))
      = some (v.alias?, descriptionSource [' ', '@'] v.description?
        ++ ((if v.skip then " @skip".toList else []) ++ '\n' :: rest)) := by
    apply readAlias_append
    cases v.description? <;> cases v.skip <;> rfl
  have described : readDescription (descriptionSource [' ', '@'] v.description?
        ++ ((if v.skip then " @skip".toList else []) ++ '\n' :: rest))
      = some (v.description?, (if v.skip then " @skip".toList else []) ++ '\n' :: rest) := by
    apply readDescription_append
    cases v.skip <;> rfl
  rw [written]
  unfold readValue
  rw [Reader.bind_eq_of_eq aliased, Reader.bind_eq_of_eq described,
    Reader.bind_eq_of_eq (readSkip_append v.skip rest)]
  rfl

/-! ## Reading models -/

/-- Reads the block of a class. -/
def readClass : Reader DataModel :=
  readBlock "class" readField fun name fields description? alias? =>
    .ofClass { name, fields, description?, alias? }

/-- Reads the block of an enum. -/
def readEnum : Reader DataModel :=
  readBlock "enum" readValue fun name values description? alias? =>
    .ofEnum { name, values, description?, alias? }

/-- Reads a block. -/
def readModel : Reader DataModel := fun cs => (readClass cs).or (readEnum cs)

/-- The lines of parts are read back, where each of them is. -/
theorem readLines_parts {α β : Type} (told : β → α) {readTail : String → Reader α}
    {part : β → Part} {xs : List β} {rest : List Char} (stop : readLine readTail rest = none)
    (back : ∀ x ∈ xs, ∀ rest,
      readLine readTail ((part x).line ++ rest) = some (told x, rest)) :
    readLines readTail ((xs.map part).flatMap Part.line ++ rest) = some (xs.map told, rest) := by
  rw [readLines, List.flatMap_map, readMany_flatMap told stop xs back]
  exact fun x _ => List.cons_ne_nil _ _

theorem isIdentifier_of_isTypeName {name : String} (h : isTypeName name = true) :
    isIdentifier name = true :=
  (Bool.and_eq_true_iff.1 h).1

theorem readLine_field (owner : String) {f : DataField} (formed : f.wellFormed = true)
    (shown : f.skip = false) (rest : List Char) :
    readLine readField ((Part.field owner f).line ++ rest) = some (f.normal, rest) := by
  rw [Part.line, List.append_assoc]
  have named : isIdentifier f.name = true := (Bool.and_eq_true_iff.1 formed).1
  exact readLine_line named (.cons rfl) (readField_tail owner formed shown rest)

theorem readLine_value (owner : String) {v : EnumMember} (named : isIdentifier v.name = true)
    (rest : List Char) :
    readLine readValue ((Part.value owner v).line ++ rest) = some (v, rest) := by
  have ends : Ends Char.isAlphanum ((Part.value owner v).attributes ++ ['\n']) := by
    obtain ⟨name, alias?, description?, skip⟩ := v
    cases alias? <;> cases description? <;> cases skip <;> exact .cons rfl
  rw [Part.line, List.append_assoc]
  exact readLine_line named ends (readValue_tail owner v rest)

theorem readClass_block {c : DataClass} (formed : (DataModel.ofClass c).wellFormed = true)
    (rest : List Char) :
    readClass ((DataModel.ofClass c).block ++ rest)
      = some ((DataModel.ofClass c).normal, rest) := by
  obtain ⟨named, fields⟩ := Bool.and_eq_true_iff.1 formed
  have lines {rest : List Char} (stop : readLine readField rest = none) :
      readLines readField ((DataModel.ofClass c).parts.flatMap Part.line ++ rest)
        = some ((c.fields.filter fun f => !f.skip).map DataField.normal, rest) := by
    refine readLines_parts DataField.normal stop fun f hf rest => ?_
    obtain ⟨mem, shown⟩ := List.mem_filter.1 hf
    have fieldFormed : f.wellFormed = true := List.all_eq_true.1 fields f mem
    exact readLine_field c.name fieldFormed (by simpa using shown) rest
  exact readBlock_block _ (isIdentifier_of_isTypeName named) lines c.description? c.alias? rest

theorem readEnum_block {e : DataEnum} (formed : (DataModel.ofEnum e).wellFormed = true)
    (rest : List Char) :
    readEnum ((DataModel.ofEnum e).block ++ rest) = some (.ofEnum e, rest) := by
  obtain ⟨named, values⟩ := Bool.and_eq_true_iff.1 formed
  have lines {rest : List Char} (stop : readLine readValue rest = none) :
      readLines readValue ((DataModel.ofEnum e).parts.flatMap Part.line ++ rest)
        = some (e.values, rest) := by
    have all := readLines_parts id stop fun v hv rest =>
      readLine_value e.name (List.all_eq_true.1 values v hv) rest
    rwa [List.map_id] at all
  exact readBlock_block _ (isIdentifier_of_isTypeName named) lines e.description? e.alias? rest

theorem readClass_enumBlock (name : String) (body rest : List Char) :
    readClass (block "enum" name body ++ rest) = none := by
  have other : expect ("class".toList ++ [' ']) (block "enum" name body ++ rest) = none := rfl
  exact Reader.bind_eq_none other _

/-- **The block of a model is read back in its normal form.** -/
theorem readModel_block {m : DataModel} (formed : m.wellFormed = true) (rest : List Char) :
    readModel (m.block ++ rest) = some (m.normal, rest) := by
  cases m with
  | ofClass c => rw [readModel, readClass_block formed, Option.some_or]
  | ofEnum e =>
      have other : readClass ((DataModel.ofEnum e).block ++ rest) = none :=
        readClass_enumBlock e.name _ rest
      rw [readModel, other, Option.none_or, readEnum_block formed]
      rfl

/-! ## Reading pages -/

/-- Reads a block behind a blank line. -/
def readNext : Reader DataModel := do
  expect ['\n']
  readModel

/-- Reads all blocks of a source. -/
def readSource (cs : List Char) : List DataModel := (readMany readNext ('\n' :: cs)).1

/-- **The source is read back to the normal forms of the models.** -/
theorem readSource_render {models : List DataModel} (formed : ∀ m ∈ models, m.wellFormed = true) :
    readSource (render models).text.toList = models.map DataModel.normal := by
  have next (m : DataModel) (hm : m ∈ models) (rest : List Char) :
      readNext ('\n' :: m.block ++ rest) = some (m.normal, rest) := by
    have blank : expect ['\n'] ('\n' :: m.block ++ rest) = some ((), m.block ++ rest) :=
      expect_append ['\n'] _
    rw [readNext, Reader.bind_eq_of_eq blank, readModel_block (formed m hm)]
  have ended : readNext [] = none := rfl
  -- With a line break in front the first block is separated like the others, unless there is none.
  rw [render_text, String.toList_ofList, readSource]
  cases models with
  | nil =>
      have blank : readNext ['\n'] = none := rfl
      rw [List.map_nil, List.intercalate_nil, readMany, blank]
      rfl
  | cons m more =>
      have all := readMany_flatMap DataModel.normal ended (m :: more) next
        fun _ _ => List.cons_ne_nil _ _
      rw [List.append_nil] at all
      have led := append_intercalate ['\n']
        (List.cons_ne_nil m.block (more.map DataModel.block))
      rw [List.singleton_append, ← List.map_cons, List.flatMap_map] at led
      rw [led]
      exact congrArg Prod.fst all

/-- **The source loses nothing but what the normal form forgets**: two well-formed model lists have
the same source just if they have the same normal form. -/
theorem render_text_eq_iff {a b : List DataModel} (ha : ∀ m ∈ a, m.wellFormed = true)
    (hb : ∀ m ∈ b, m.wellFormed = true) :
    (render a).text = (render b).text ↔ a.map DataModel.normal = b.map DataModel.normal := by
  constructor
  · intro same
    rw [← readSource_render ha, ← readSource_render hb, same]
  · intro same
    rw [← render_normal ha, ← render_normal hb, same]

/-- A class with all that the source forgets, and a description that looks like the end of one. -/
def detailedModel : DataModel := .ofClass
  { name := "Note"
    fields :=
      [{ name := "body"
         type := .unionOf [.unionOf [.of .any, .enumRef "Mode"], .listOf (.leaf .null true)]
         description? := some "\"#) @alias(\"x\")\n\x7d" },
       { name := "gone", type := .of .int, skip := true }] }

/-- The class that is left of it. -/
def plainModel : DataModel := .ofClass
  { name := "Note"
    fields :=
      [{ name := "body"
         type := .unionOf [.of .string, .classRef "Mode", .listOf (.of .null)]
         description? := some "\"#) @alias(\"x\")\n\x7d" }] }

theorem render_text_eq_iff_detailedModel :
    (∀ m ∈ [detailedModel], m.wellFormed = true) ∧ (∀ m ∈ [plainModel], m.wellFormed = true) ∧
      detailedModel ≠ plainModel ∧ (render [detailedModel]).text = (render [plainModel]).text ∧
      detailedModel.normal = plainModel.normal := by
  have detailed : ∀ m ∈ [detailedModel], m.wellFormed = true := by decide
  have plain : ∀ m ∈ [plainModel], m.wellFormed = true := by decide
  have same : (render [detailedModel]).text = (render [plainModel]).text := by decide +kernel
  have normal := (render_text_eq_iff detailed plain).1 same
  exact ⟨detailed, plain, by decide, same, List.head_eq_of_cons_eq normal⟩

end SchemaLoom.Baml
