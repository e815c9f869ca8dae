import Mathlib.Data.List.Induction
import Mathlib.Data.List.Nodup
import SchemaLoom.Proofs.Json.DistinctKeys
import SchemaLoom.Proofs.Json.Pointers

set_option autoImplicit false

/-! # Paths of keys

Keys that lead through objects from a document to a value are written as a reference, one segment a
key (`Pointer.ofKeys`). A written key has no slash, so the reference is cut where the keys meet, and
it has no tilde but those of its escapes, so each segment is read as its key. Hence the reference
points at the value, ends with the last key and tells the keys apart from all others. The walk makes
the path of a property this way, and a document the paths of its definitions.
-/

namespace SchemaLoom

/-- What keys lead to, one after the other, through objects alone. -/
def Json.descend? (value : Json) : List String → Option Json
  | [] => some value
  | key :: rest => (value.get? key).bind fun inner => inner.descend? rest

/-- The members of the object under a key; none where there is no object. -/
def Json.membersAt (key : String) (value : Json) : Entries Json :=
  ((value.get? key).bind Json.members?).getD []

theorem Json.descend?_append (value : Json) (keys more : List String) :
    value.descend? (keys ++ more)
      = (value.descend? keys).bind fun inner => inner.descend? more := by
  induction keys generalizing value with
  | nil => rfl
  | cons key rest ih =>
      show (value.get? key).bind _ = ((value.get? key).bind _).bind _
      cases value.get? key with
      | none => rfl
      | some inner => exact ih inner

namespace Pointer

/-! ## Escapes as replacements -/

/-- Replaces a character by others, wherever it stands. -/
def replaceChar (c : Char) (replacement text : List Char) : List Char :=
  text.flatMap fun d => if d = c then replacement else [d]

/-- Replaces two characters that stand side by side by another one, from left to right. -/
def replacePair (first second replacement : Char) : List Char → List Char
  | [] => []
  | [c] => [c]
  | c :: d :: rest =>
      if c = first ∧ d = second then replacement :: replacePair first second replacement rest
      else c :: replacePair first second replacement (d :: rest)

/-- A key is written by replacing its tildes first and then its slashes. -/
theorem escapeChars_eq_replace (key : List Char) :
    escapeChars key = replaceChar '/' ['~', '1'] (replaceChar '~' ['~', '0'] key) := by
  induction key with
  | nil => rfl
  | cons c rest ih =>
      rw [escapeChars_cons, ih]
      simp only [replaceChar, List.flatMap_cons, List.flatMap_append]
      refine congrArg (· ++ _) ?_
      by_cases tilde : c = '~'
      · rw [if_pos tilde, if_pos tilde]
        rfl
      · rw [if_neg tilde, if_neg tilde, List.flatMap_singleton]

theorem replacePair_cons_of_ne {first second replacement c : Char} (h : c ≠ first)
    (rest : List Char) : replacePair first second replacement (c :: rest)
      = c :: replacePair first second replacement rest := by
  cases rest with
  | nil => rfl
  | cons d more => exact if_neg fun both => h both.1

theorem replacePair_cons_of_head? {first second replacement : Char} {rest : List Char}
    (h : rest.head? ≠ some second) (c : Char) : replacePair first second replacement (c :: rest)
      = c :: replacePair first second replacement rest := by
  cases rest with
  | nil => rfl
  | cons d more => exact if_neg fun both => h (congrArg some both.2)

/-- A replacement puts nothing in front but the first character or what it replaces it by. -/
theorem head?_replacePair {first second replacement c : Char} {text : List Char}
    (h : (replacePair first second replacement text).head? = some c) :
    text.head? = some c ∨ c = replacement := by
  cases text with
  | nil => cases h
  | cons d rest =>
      cases rest with
      | nil => exact Or.inl h
      | cons e more =>
          rw [replacePair] at h
          split at h
          · exact Or.inr (Option.some.inj h).symm
          · exact Or.inl h

/-- **A segment is read by replacing the escapes of slashes first and then those of tildes.** -/
theorem unescapeChars_eq_replace (segment : List Char) :
    unescapeChars segment = replacePair '~' '0' '~' (replacePair '~' '1' '/' segment) := by
  induction segment using unescapeChars.induct with
  | case1 => rfl
  | case2 rest ih =>
      have kept : replacePair '~' '1' '/' ('~' :: '0' :: rest)
          = '~' :: '0' :: replacePair '~' '1' '/' rest := by
        rw [replacePair_cons_of_head? (by simp), replacePair_cons_of_ne (by decide)]
      rw [unescapeChars, ih, kept]
      exact (if_pos ⟨rfl, rfl⟩).symm
  | case3 rest ih =>
      have slash : replacePair '~' '1' '/' ('~' :: '1' :: rest)
          = '/' :: replacePair '~' '1' '/' rest := if_pos ⟨rfl, rfl⟩
      rw [unescapeChars, ih, slash, replacePair_cons_of_ne (by decide)]
  | case4 c rest zero one ih =>
      rw [unescapeChars.eq_4 _ _ zero one, ih]
      by_cases tilde : c = '~'
      -- What follows is neither mark, and no replacement makes it one.
      · have first : rest.head? ≠ some '1' := by
          intro head
          obtain ⟨more, rfl⟩ := List.head?_eq_some_iff.mp head
          exact one more tilde rfl
        have second : (replacePair '~' '1' '/' rest).head? ≠ some '0' := by
          intro head
          rcases head?_replacePair head with own | other
          · obtain ⟨more, rfl⟩ := List.head?_eq_some_iff.mp own
            exact zero more tilde rfl
          · cases other
        rw [replacePair_cons_of_head? first, replacePair_cons_of_head? second]
      · rw [replacePair_cons_of_ne tilde, replacePair_cons_of_ne tilde]

/-! ## References made of keys -/

/-- The reference to what keys lead to. -/
def ofKeys (keys : List String) : String :=
  keys.foldl (fun path key => path ++ "/" ++ escape key) root

theorem ofKeys_append (keys : List String) (key : String) :
    ofKeys (keys ++ [key]) = ofKeys keys ++ "/" ++ escape key := by
  simp [ofKeys]

theorem escape_of_plain {key : String} (tilde : '~' ∉ key.toList) (slash : '/' ∉ key.toList) :
    escape key = key := by
  have same : escapeChars key.toList = key.toList := by
    rw [escapeChars, List.flatMap_congr (g := fun c => [c]) ?_]
    · simp
    · intro c hc
      have first : c ≠ '~' := fun same => tilde (same ▸ hc)
      have second : c ≠ '/' := fun same => slash (same ▸ hc)
      rw [if_neg first, if_neg second]
  rw [escape, same, String.ofList_toList]

/-- **A reference made of keys points at what the keys lead to.** -/
theorem resolve?_ofKeys {document value : Json} {keys : List String}
    (h : document.descend? keys = some value) : resolve? document (ofKeys keys) = some value := by
  induction keys using List.reverseRecOn generalizing value with
  | nil => exact h
  | append_singleton keys key ih =>
      rw [Json.descend?_append] at h
      obtain ⟨inner, before, last⟩ := Option.bind_eq_some_iff.mp h
      rw [ofKeys_append, resolve?_child _ _ _ (slash_not_mem_escape key), ih before,
        Option.bind_some]
      obtain ⟨found, at_, same⟩ := Option.bind_eq_some_iff.mp last
      cases same
      cases inner with
      | obj members => rwa [step?_escape]
      | _ => cases at_

/-- The reference is cut where the keys meet. -/
theorem exists_pointer_ofKeys (keys : List String) : ∃ pointer,
    (ofKeys keys).toList = '#' :: pointer ∧
      Text.pieces (· = '/') pointer = [] :: keys.map fun key => escapeChars key.toList := by
  induction keys using List.reverseRecOn with
  | nil => exact ⟨[], rfl, rfl⟩
  | append_singleton keys key ih =>
      obtain ⟨pointer, written, cut⟩ := ih
      refine ⟨pointer ++ '/' :: escapeChars key.toList, ?_, ?_⟩
      · rw [ofKeys_append, String.toList_append, String.toList_append, written, escape,
          String.toList_ofList]
        simp
      · rw [pieces_append_slash, cut, pieces_eq_self (slash_not_mem_escapeChars _)]
        simp

theorem escapeChars_eq_nil_iff {key : List Char} : escapeChars key = [] ↔ key = [] := by
  constructor
  · intro empty
    rw [← unescapeChars_escapeChars key, empty]
    rfl
  · rintro rfl
    rfl

/-- **A reference made of keys ends with the last one**, if that is not empty. -/
theorem lastSegment?_ofKeys (keys : List String) (key : String) :
    lastSegment? (ofKeys (keys ++ [key])) = if key = "" then none else some key := by
  obtain ⟨pointer, written, cut⟩ := exists_pointer_ofKeys (keys ++ [key])
  have last : (Text.pieces (· = '/') pointer).getLast? = some (escapeChars key.toList) := by
    rw [cut, List.map_append, List.map_singleton, ← List.cons_append, List.getLast?_concat]
  unfold lastSegment?
  rw [written]
  simp only [last]
  cases segment : escapeChars key.toList with
  | nil =>
      have empty : key = "" := String.toList_eq_nil_iff.mp (escapeChars_eq_nil_iff.mp segment)
      rw [if_pos empty]
  | cons c rest =>
      have filled : key ≠ "" := by
        rintro rfl
        cases segment
      have read : unescapeChars (c :: rest) = key.toList := by
        rw [← segment, unescapeChars_escapeChars]
      simp only [if_neg filled, read, String.ofList_toList]

theorem ofKeys_injective : Function.Injective ofKeys := by
  intro keys others same
  obtain ⟨pointer, written, cut⟩ := exists_pointer_ofKeys keys
  obtain ⟨pointer', written', cut'⟩ := exists_pointer_ofKeys others
  rw [same, written'] at written
  cases written
  have segments := (List.cons.inj (cut.symm.trans cut')).2
  refine List.map_injective_iff.mpr ?_ segments
  intro key other same
  have read := congrArg unescapeChars same
  rw [unescapeChars_escapeChars, unescapeChars_escapeChars] at read
  exact String.toList_injective read

/-! ## Definitions -/

/-- The definitions of a document are the members of its containers. -/
theorem definitions_eq (document : Json) :
    definitions document = containers.flatMap fun container =>
      (document.membersAt container).map fun member => (ofKeys [container, member.1], member.2) := by
  refine List.flatMap_congr fun container known => ?_
  have plain := plain_of_mem_containers known
  have path (key : String) :
      ofKeys [container, key] = root ++ "/" ++ container ++ "/" ++ escape key := by
    show root ++ "/" ++ escape container ++ "/" ++ escape key = _
    rw [escape_of_plain plain.1 plain.2]
  unfold definitionsOf Json.membersAt
  simp only [path]
  cases document.get? container with
  | none => rfl
  | some found => cases found <;> rfl

theorem exists_of_mem_membersAt {key : String} {value : Json} {member : String × Json}
    (h : member ∈ value.membersAt key) : ∃ members,
      value.get? key = some (.obj members) ∧ member ∈ members := by
  unfold Json.membersAt at h
  cases found : value.get? key with
  | none =>
      rw [found] at h
      cases h
  | some inner =>
      rw [found] at h
      cases inner with
      | obj members => exact ⟨members, rfl, h⟩
      | _ => cases h

/-- **The path of a definition points at the definition.** -/
theorem resolve?_of_mem_definitions {document schema : Json} {path : String}
    (distinct : DistinctKeys document) (mem : (path, schema) ∈ definitions document) :
    resolve? document path = some schema := by
  rw [definitions_eq] at mem
  obtain ⟨container, -, mem⟩ := List.mem_flatMap.mp mem
  obtain ⟨⟨key, value⟩, own, same⟩ := List.mem_map.mp mem
  cases same
  obtain ⟨members, found, own⟩ := exists_of_mem_membersAt own
  have only : (Json.obj members).get? key = some value :=
    Entries.get?_of_mem (distinct _ (within_of_json_get? found)) own
  have steps : document.descend? [container, key] = some value := by
    simp only [Json.descend?, found, only, Option.bind_some]
  exact resolve?_ofKeys steps

theorem nodup_names_membersAt {document : Json} (distinct : DistinctKeys document) (key : String) :
    (Entries.names (document.membersAt key)).Nodup := by
  unfold Json.membersAt
  cases found : document.get? key with
  | none => exact List.nodup_nil
  | some inner =>
      cases inner with
      | obj members => exact distinct members (within_of_json_get? found)
      | _ => exact List.nodup_nil

/-- Different definitions have different paths. -/
theorem nodup_paths_definitions {document : Json} (distinct : DistinctKeys document) :
    ((definitions document).map Prod.fst).Nodup := by
  have keys : (definitions document).map Prod.fst = (containers.flatMap fun container =>
      (Entries.names (document.membersAt container)).map fun key => [container, key]).map ofKeys := by
    simp [definitions_eq, List.map_flatMap, Entries.names, Function.comp_def]
  have apart : containers.Nodup := by decide
  rw [keys]
  refine List.Nodup.map ofKeys_injective (List.nodup_flatMap.mpr ⟨?_, apart.imp ?_⟩)
  · intro container _
    exact (nodup_names_membersAt distinct container).map fun key other same => by simpa using same
  · intro first second differ path mem mem'
    obtain ⟨key, -, rfl⟩ := List.mem_map.mp mem
    obtain ⟨other, -, same⟩ := List.mem_map.mp mem'
    exact differ (List.cons.inj same).1.symm

/-! ## Paths of the walk -/

/-- The path of a property goes on with two keys. -/
theorem path_propertySite (site : Site) {keys : List String} (h : site.path = ofKeys keys)
    (key : String) : (Walk.propertySite site key).path = ofKeys (keys ++ ["properties", key]) := by
  have plain : escape "properties" = "properties" := by decide
  have longer : keys ++ ["properties", key] = keys ++ ["properties"] ++ [key] := by simp
  rw [longer, ofKeys_append, ofKeys_append, plain, ← h]
  show site.path ++ "/" ++ ("properties" ++ "/" ++ escape key) = _
  simp only [String.append_assoc]

/-- **Paths of keys lead back.** A key is written and a segment read by two replacements each, in
opposite orders. A reference that is written for keys points at what the keys lead to in a document,
ends with the last of them and belongs to no other keys. The paths of properties are written this
way, and so are those of the definitions of a document, which come in its order. -/
theorem ofKeys_leads_back (document : Json) :
    (∀ text, escapeChars text = replaceChar '/' ['~', '1'] (replaceChar '~' ['~', '0'] text) ∧
      unescapeChars text = replacePair '~' '0' '~' (replacePair '~' '1' '/' text)) ∧
    (∀ keys value, document.descend? keys = some value →
      resolve? document (ofKeys keys) = some value) ∧
    (∀ keys key, lastSegment? (ofKeys (keys ++ [key])) = if key = "" then none else some key) ∧
    (∀ keys keys', ofKeys keys = ofKeys keys' → keys = keys') ∧
    (∀ site keys key, site.path = ofKeys keys →
      (Walk.propertySite site key).path = ofKeys (keys ++ ["properties", key])) ∧
    (definitions document = ["$defs", "definitions"].flatMap fun container =>
      (document.membersAt container).map fun member => (ofKeys [container, member.1], member.2)) ∧
    (DistinctKeys document → ((definitions document).map Prod.fst).Nodup ∧
      ∀ definition ∈ definitions document,
        resolve? document definition.1 = some definition.2) := by
  refine ⟨?_, ?_, lastSegment?_ofKeys, ofKeys_injective, ?_, definitions_eq document, ?_⟩
  · exact fun text => ⟨escapeChars_eq_replace text, unescapeChars_eq_replace text⟩
  · exact fun keys value steps => resolve?_ofKeys steps
  · exact fun site keys key path => path_propertySite site path key
  · exact fun distinct => ⟨nodup_paths_definitions distinct,
      fun definition mem => resolve?_of_mem_definitions distinct mem⟩

/-- A document whose keys look like escapes. -/
def oddKeys : Json :=
  .obj [("definitions", .obj [("~1", .obj [])]),
    ("", .obj [("~01", .obj [("a/b", .str "here")])]),
    ("$defs", .obj [("~0", .bool true), ("/", .bool false)])]

/-- Odd keys lead back, too. -/
theorem ofKeys_leads_back_oddKeys :
    (oddKeys.descend? ["", "~01", "a/b"] = some (.str "here") ∧
      resolve? oddKeys "#//~001/a~1b" = some (.str "here")) ∧
    DistinctKeys oddKeys ∧
    (definitions oddKeys).map Prod.fst = ["#/$defs/~00", "#/$defs/~1", "#/definitions/~01"] ∧
    ∀ definition ∈ definitions oddKeys, resolve? oddKeys definition.1 = some definition.2 := by
  obtain ⟨-, leads, -, -, -, -, located⟩ := ofKeys_leads_back oddKeys
  have there : oddKeys.descend? ["", "~01", "a/b"] = some (.str "here") := rfl
  have written : ofKeys ["", "~01", "a/b"] = "#//~001/a~1b" := by decide +kernel
  have distinct : DistinctKeys oddKeys := .of_everywhere (by decide +kernel)
  refine ⟨⟨there, ?_⟩, distinct, by decide +kernel, (located distinct).2⟩
  rw [← written]
  exact leads _ _ there

end Pointer

end SchemaLoom
