import SchemaLoom.Json.Pointer

set_option autoImplicit false

/-! # Pointers that go on

A pointer that goes on behind a path selects in what the path points at (`resolve?_append`). A walk
makes the path of a part by writing one more segment behind the path of the whole, which is the case
of one segment (`resolve?_child`), and a segment that was written for a key or an index selects by
that key or index.
-/

namespace SchemaLoom.Pointer

/-! ## Keys as segments -/

theorem unescapeChars_cons_of_ne {c : Char} (h : c ≠ '~') (rest : List Char) :
    unescapeChars (c :: rest) = c :: unescapeChars rest := by
  rw [unescapeChars.eq_def]
  split
  · simp_all
  · simp_all
  · simp_all
  · simp_all

theorem escapeChars_cons (c : Char) (rest : List Char) :
    escapeChars (c :: rest)
      = (if c = '~' then ['~', '0'] else if c = '/' then ['~', '1'] else [c])
        ++ escapeChars rest :=
  rfl

/-- A key that is written as a segment is read back. -/
@[simp] theorem unescapeChars_escapeChars (key : List Char) :
    unescapeChars (escapeChars key) = key := by
  induction key with
  | nil => rfl
  | cons c rest ih =>
      rw [escapeChars_cons]
      by_cases tilde : c = '~'
      · subst tilde
        simp [unescapeChars, ih]
      · by_cases slash : c = '/'
        · subst slash
          simp [unescapeChars, ih]
        · rw [if_neg tilde, if_neg slash, List.singleton_append, unescapeChars_cons_of_ne tilde, ih]

/-- A written key has no slash. -/
theorem slash_not_mem_escapeChars (key : List Char) : '/' ∉ escapeChars key := by
  intro h
  obtain ⟨c, -, hc⟩ := List.mem_flatMap.mp h
  by_cases tilde : c = '~'
  · rw [if_pos tilde] at hc
    simp at hc
  · by_cases slash : c = '/'
    · rw [if_neg tilde, if_pos slash] at hc
      simp at hc
    · rw [if_neg tilde, if_neg slash, List.mem_singleton] at hc
      exact slash hc.symm

theorem slash_not_mem_escape (key : String) : '/' ∉ (escape key).toList := by
  rw [escape, String.toList_ofList]
  exact slash_not_mem_escapeChars _

theorem unescapeChars_eq_self {segment : List Char} (h : '~' ∉ segment) :
    unescapeChars segment = segment := by
  induction segment with
  | nil => rfl
  | cons c rest ih =>
      have first : c ≠ '~' := fun same => h (same ▸ List.mem_cons_self)
      rw [unescapeChars_cons_of_ne first, ih fun mem => h (List.mem_cons_of_mem _ mem)]

/-- The keys of the containers have nothing to escape. -/
theorem plain_of_mem_containers {container : String} (h : container ∈ containers) :
    '~' ∉ container.toList ∧ '/' ∉ container.toList := by
  have either : container = "$defs" ∨ container = "definitions" := by
    simpa [containers] using h
  rcases either with rfl | rfl <;> decide

/-! ## Indices as segments -/

theorem head?_toDigits_ne {n : Nat} (h : n ≠ 0) : (Nat.toDigits 10 n).head? ≠ some '0' := by
  induction n using Nat.strongRecOn with
  | ind n ih =>
      by_cases small : n < 10
      · rw [Nat.toDigits_of_lt_base small]
        simpa using h
      · have lead := ih (n / 10) (by omega) (by omega)
        rw [Nat.toDigits_of_base_le (by omega) (by omega)]
        cases digits : Nat.toDigits 10 (n / 10) with
        | nil => exact absurd digits Nat.toDigits_ne_nil
        | cons d rest =>
            rw [digits] at lead
            exact lead

/-- An index that is written in decimal is read back. -/
@[simp] theorem index?_toDigits (n : Nat) : index? (Nat.toDigits 10 n) = some n := by
  have digits : (Nat.toDigits 10 n).all Char.isDigit = true :=
    List.all_eq_true.mpr fun c hc => Nat.isDigit_of_mem_toDigits (by omega) (by omega) hc
  have value := Nat.ofDigitChars_toDigits (b := 10) (n := n) (by omega) (by omega)
  rw [Nat.ofDigitChars_eq_foldl] at value
  by_cases zero : n = 0
  · subst zero
    rfl
  · have lead := head?_toDigits_ne zero
    unfold index?
    split
    · next empty => exact absurd empty Nat.toDigits_ne_nil
    · next single => simp [single] at lead
    · next first => simp [first] at lead
    · rw [if_pos digits, value]

theorem not_mem_toDigits {n : Nat} {c : Char} (h : c.isDigit = false) : c ∉ Nat.toDigits 10 n := by
  intro mem
  have digit := Nat.isDigit_of_mem_toDigits (by omega) (by omega) mem
  rw [h] at digit
  cases digit

theorem slash_not_mem_toString (i : Nat) : '/' ∉ (toString i).toList := by
  have digits : (toString i).toList = Nat.toDigits 10 i := Nat.toList_repr
  rw [digits]
  exact not_mem_toDigits (by decide)

/-! ## Longer paths -/

theorem pieces_eq_self {segment : List Char} (plain : '/' ∉ segment) :
    Text.pieces (· = '/') segment = [segment] := by
  refine Text.pieces_of_all_not fun c hc => ?_
  have other : c ≠ '/' := fun same => plain (same ▸ hc)
  simpa using other

/-- A text that goes on behind a slash has the pieces of both parts. -/
theorem pieces_append_slash (cs more : List Char) :
    Text.pieces (· = '/') (cs ++ '/' :: more)
      = Text.pieces (· = '/') cs ++ Text.pieces (· = '/') more := by
  induction cs with
  | nil =>
      have cut : Text.pieces (· = '/') ('/' :: more) = [] :: Text.pieces (· = '/') more :=
        Text.pieces_cons_of_separates (by simp) more
      rw [List.nil_append, cut]
      rfl
  | cons c rest ih =>
      by_cases slash : c = '/'
      · have cut (others : List Char) : Text.pieces (· = '/') (c :: others)
            = [] :: Text.pieces (· = '/') others :=
          Text.pieces_cons_of_separates (by simpa using slash) others
        rw [List.cons_append, cut, cut, ih]
        rfl
      · have kept : (decide (c = '/')) = false := by simpa using slash
        cases before : Text.pieces (· = '/') rest with
        | nil => exact absurd before (Text.pieces_ne_nil _ _)
        | cons piece others =>
            rw [before] at ih
            rw [List.cons_append, Text.pieces_cons_of_not kept ih,
              Text.pieces_cons_of_not kept before]
            rfl

theorem walk?_append (value : Json) (segments more : List (List Char)) :
    walk? value (segments ++ more)
      = (walk? value segments).bind fun inner => walk? inner more := by
  induction segments generalizing value with
  | nil => rfl
  | cons first rest ih =>
      simp only [List.cons_append, walk?]
      cases step? value first with
      | none => rfl
      | some inner => exact ih inner

theorem walk?_singleton (value : Json) (segment : List Char) :
    walk? value [segment] = step? value segment := by
  rw [walk?]
  cases step? value segment <;> rfl

@[simp] theorem resolve?_root (document : Json) : resolve? document root = some document := rfl

/-- **A path that goes on leads on from what it points at so far.** -/
theorem resolve?_append (document : Json) (path : String) (rest : List Char) :
    resolve? document (path ++ String.ofList ('/' :: rest))
      = (resolve? document path).bind fun value => walk? value (Text.pieces (· = '/') rest) := by
  unfold resolve?
  rw [String.toList_append, String.toList_ofList]
  cases chars : path.toList with
  | nil => simp
  | cons lead pointer =>
      by_cases hash : lead = '#'
      · subst hash
        show selectChars? document (pointer ++ '/' :: rest)
          = (selectChars? document pointer).bind _
        cases pointer with
        | nil => rfl
        | cons c others =>
            by_cases slash : c = '/'
            · subst slash
              show walk? document (Text.pieces (· = '/') (others ++ '/' :: rest))
                = (walk? document (Text.pieces (· = '/') others)).bind _
              rw [pieces_append_slash, walk?_append]
            · simp [selectChars?, slash]
      · simp [hash]

/-- **One more segment selects in what the path points at.** -/
theorem resolve?_child (document : Json) (path segment : String) (plain : '/' ∉ segment.toList) :
    resolve? document (path ++ "/" ++ segment)
      = (resolve? document path).bind fun value => step? value segment.toList := by
  have written : path ++ "/" ++ segment = path ++ String.ofList ('/' :: segment.toList) := by
    rw [String.append_assoc, String.ofList_cons, String.ofList_toList]
    rfl
  rw [written, resolve?_append, pieces_eq_self plain]
  simp only [walk?_singleton]

/-! ## Segments that name a part -/

theorem step?_key {key : String} (plain : '~' ∉ key.toList) (entries : Entries Json) :
    step? (.obj entries) key.toList = Entries.get? key entries := by
  rw [step?, unescapeChars_eq_self plain, String.ofList_toList]

theorem step?_escape (key : String) (entries : Entries Json) :
    step? (.obj entries) (escape key).toList = Entries.get? key entries := by
  rw [step?, escape, String.toList_ofList, unescapeChars_escapeChars, String.ofList_toList]

theorem step?_index (i : Nat) (items : List Json) :
    step? (.arr items) (toString i).toList = items[i]? := by
  have digits : (toString i).toList = Nat.toDigits 10 i := Nat.toList_repr
  rw [digits, step?, unescapeChars_eq_self (not_mem_toDigits (by decide)), index?_toDigits]

end SchemaLoom.Pointer
