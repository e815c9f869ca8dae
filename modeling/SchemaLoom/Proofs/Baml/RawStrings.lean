import Mathlib.Data.List.Basic
import SchemaLoom.Baml.RawString

set_option autoImplicit false

/-! # Raw strings are self-delimiting

A raw string is read by counting the hashes in front of its first quote and taking everything up to
the first quote that is followed by as many. The fence has one hash more than follow any quote of
the text, so no quote inside the text ends it, and neither does one at its end: it is followed by
the closing quote and not by the fence.

A narrower fence ends the text too early, at a quote inside it that is followed by as many hashes.
So the fence is also the one that is found by trying one hash, then two, and so on (`Widens`).
-/

namespace SchemaLoom.Baml

/-- Takes everything up to the first quote that is followed by the hashes of a fence, and leaves
what follows the fence. -/
def takeFenced (width : Nat) : List Char → Option (List Char × List Char)
  | [] => none
  | c :: rest =>
      if c = '"' ∧ width ≤ hashRun rest then some ([], rest.drop width)
      else (takeFenced width rest).map fun (text, after) => (c :: text, after)

/-- Reads a raw string off the front of a text. -/
def readRaw (cs : List Char) : Option (List Char × List Char) :=
  match cs.drop (hashRun cs) with
  | '"' :: rest => if hashRun cs = 0 then none else takeFenced (hashRun cs) rest
  | _ => none

/-- A quote ends a run of hashes. -/
theorem hashRun_append_quote (cs rest : List Char) : hashRun (cs ++ '"' :: rest) = hashRun cs := by
  induction cs with
  | nil => rfl
  | cons c more ih =>
      by_cases hash : c = '#'
      · simpa [hashRun, hash] using ih
      · simp [hashRun, hash]

theorem hashRun_fence_append (width : Nat) (rest : List Char) :
    hashRun (fence width ++ rest) = width + hashRun rest := by
  induction width with
  | zero => simp [fence]
  | succ n ih =>
      simp only [hashRun, fence, List.replicate_succ, List.cons_append] at ih ⊢
      rw [List.takeWhile_cons_of_pos (by simp), List.length_cons, ih]
      omega

theorem drop_fence_append (width : Nat) (rest : List Char) :
    (fence width ++ rest).drop width = rest := by
  rw [List.drop_append_of_le_length (by simp [fence])]
  simp [fence]

theorem longestRun_cons_le (c : Char) (rest : List Char) :
    longestRun rest ≤ longestRun (c :: rest) := by
  show longestRun rest ≤ if c = '"' then max (hashRun rest) (longestRun rest) else longestRun rest
  split
  · exact Nat.le_max_right ..
  · exact Nat.le_refl _

/-- A text is taken whole where no quote in it is followed by as many hashes as the fence has. -/
theorem takeFenced_append {width : Nat} {text : List Char} (h : longestRun text < width)
    (rest : List Char) :
    takeFenced width (text ++ '"' :: (fence width ++ rest)) = some (text, rest) := by
  induction text with
  | nil =>
      have closes : width ≤ hashRun (fence width ++ rest) := by
        rw [hashRun_fence_append]
        omega
      rw [List.nil_append, takeFenced, if_pos ⟨rfl, closes⟩, drop_fence_append]
  | cons c more ih =>
      have short : longestRun more < width := by
        have le := longestRun_cons_le c more
        omega
      have goesOn : ¬ (c = '"' ∧ width ≤ hashRun (more ++ '"' :: (fence width ++ rest))) := by
        rintro ⟨rfl, long⟩
        rw [hashRun_append_quote] at long
        have run : hashRun more ≤ longestRun ('"' :: more) := by
          rw [longestRun, if_pos rfl]
          omega
        omega
      rw [List.cons_append, takeFenced, if_neg goesOn, ih short]
      rfl

/-! ## Fenced texts -/

/-- A text between quotes that are fenced with so many hashes. -/
def fenced (width : Nat) (text : List Char) : List Char :=
  fence width ++ '"' :: text ++ '"' :: fence width

theorem rawString_eq (text : List Char) : rawString text = fenced (fenceWidth text) text := rfl

/-- A fenced text is read from its opening quote on, and there is none without a fence. -/
theorem readRaw_fenced (width : Nat) (text rest : List Char) :
    readRaw (fenced width text ++ rest)
      = if width = 0 then none else takeFenced width (text ++ '"' :: (fence width ++ rest)) := by
  have written : fenced width text ++ rest
      = fence width ++ '"' :: (text ++ '"' :: (fence width ++ rest)) := by
    simp [fenced]
  have run : hashRun (fenced width text ++ rest) = width := by
    rw [written, hashRun_fence_append]
    rfl
  unfold readRaw
  rw [run, written, drop_fence_append]
  rfl

/-- **A raw string is read back**, whatever follows it. -/
theorem readRaw_rawString (text rest : List Char) :
    readRaw (rawString text ++ rest) = some (text, rest) := by
  have positive : fenceWidth text ≠ 0 := Nat.succ_ne_zero _
  rw [rawString_eq, readRaw_fenced, if_neg positive]
  exact takeFenced_append (Nat.lt_succ_self _) rest

/-! ## Quotes inside a text -/

/-- The text has a quote that is followed by so many hashes. -/
def HasRun (text : List Char) (width : Nat) : Prop := '"' :: fence width <:+: text

theorem exists_eq_fence_append {width : Nat} {cs : List Char} (h : width ≤ hashRun cs) :
    ∃ rest, cs = fence width ++ rest := by
  induction width generalizing cs with
  | zero => exact ⟨cs, rfl⟩
  | succ n ih =>
      cases cs with
      | nil => cases h
      | cons c more =>
          by_cases hash : c = '#'
          · subst hash
            have shorter : n ≤ hashRun more := by
              simpa [hashRun] using h
            obtain ⟨rest, rfl⟩ := ih shorter
            exact ⟨rest, rfl⟩
          · have none : hashRun (c :: more) = 0 := by simp [hashRun, hash]
            omega

theorem hashRun_le_longestRun (before after : List Char) :
    hashRun after ≤ longestRun (before ++ '"' :: after) := by
  induction before with
  | nil =>
      rw [List.nil_append, longestRun, if_pos rfl]
      exact Nat.le_max_left ..
  | cons c more ih => exact Nat.le_trans ih (longestRun_cons_le ..)

/-- The longest run of a text is one that a quote in it has. -/
theorem exists_of_le_longestRun {width : Nat} {text : List Char} (positive : 0 < width)
    (h : width ≤ longestRun text) :
    ∃ before after, text = before ++ '"' :: (fence width ++ after) := by
  induction text with
  | nil =>
      rw [longestRun] at h
      omega
  | cons c more ih =>
      by_cases here : c = '"' ∧ width ≤ hashRun more
      · obtain ⟨rfl, run⟩ := here
        obtain ⟨after, rfl⟩ := exists_eq_fence_append run
        exact ⟨[], after, rfl⟩
      · have later : width ≤ longestRun more := by
          rw [longestRun] at h
          split at h
          · next quote =>
              have short : ¬ width ≤ hashRun more := fun run => here ⟨quote, run⟩
              omega
          · exact h
        obtain ⟨before, after, rfl⟩ := ih later
        exact ⟨c :: before, after, rfl⟩

theorem hasRun_iff {text : List Char} {width : Nat} (positive : 0 < width) :
    HasRun text width ↔ width ≤ longestRun text := by
  constructor
  · rintro ⟨before, after, rfl⟩
    have run := hashRun_le_longestRun before (fence width ++ after)
    rw [hashRun_fence_append] at run
    rw [List.append_assoc, List.cons_append]
    omega
  · intro h
    obtain ⟨before, after, rfl⟩ := exists_of_le_longestRun positive h
    exact ⟨before, after, by simp⟩

/-! ## The least fence -/

/-- A text ends where a quote in it is followed by the fence. -/
theorem takeFenced_length_le {width : Nat} {before after text rest : List Char}
    (h : takeFenced width (before ++ '"' :: (fence width ++ after)) = some (text, rest)) :
    text.length ≤ before.length := by
  induction before generalizing text with
  | nil =>
      have closes : width ≤ hashRun (fence width ++ after) := by
        rw [hashRun_fence_append]
        omega
      rw [List.nil_append, takeFenced, if_pos ⟨rfl, closes⟩] at h
      cases h
      exact Nat.le_refl _
  | cons c more ih =>
      rw [List.cons_append, takeFenced] at h
      split at h
      · cases h
        exact Nat.zero_le _
      · obtain ⟨⟨inner, left⟩, taken, same⟩ := Option.map_eq_some_iff.mp h
        cases same
        exact Nat.succ_le_succ (ih taken)

/-- **A fenced text is read back exactly where the fence is wide enough**, and then whatever follows
it. -/
theorem readRaw_fenced_iff (width : Nat) (text rest : List Char) :
    readRaw (fenced width text ++ rest) = some (text, rest) ↔ fenceWidth text ≤ width := by
  rw [readRaw_fenced]
  constructor
  · intro read
    refine Nat.lt_of_not_le fun short => ?_
    by_cases open_ : width = 0
    · rw [if_pos open_] at read
      cases read
    · rw [if_neg open_] at read
      obtain ⟨before, after, same⟩ := exists_of_le_longestRun (Nat.pos_of_ne_zero open_) short
      -- The text ends at the quote inside it, before its own end.
      have inside : text ++ '"' :: (fence width ++ rest)
          = before ++ '"' :: (fence width ++ (after ++ '"' :: (fence width ++ rest))) := by
        rw [same]
        simp
      rw [inside] at read
      have le := takeFenced_length_le read
      have length := congrArg List.length same
      simp only [List.length_append, List.length_cons] at length
      omega
  · intro wide
    have positive : width ≠ 0 := Nat.ne_of_gt (Nat.lt_of_lt_of_le (Nat.succ_pos _) wide)
    rw [if_neg positive]
    exact takeFenced_append wide rest

/-- The search for a fence: as long as the text has a quote that is followed by as many hashes, one
hash more is tried. A derivation is a search that ends. -/
inductive Widens (text : List Char) : Nat → Nat → Prop where
  | done {width : Nat} (free : ¬ HasRun text width) : Widens text width width
  | more {width final : Nat} (run : HasRun text width) (rest : Widens text (width + 1) final) :
      Widens text width final

/-- **The search ends**, with the width that it began with or the one that the text needs. -/
theorem widens_iff {text : List Char} {width final : Nat} (positive : 0 < width) :
    Widens text width final ↔ final = max width (fenceWidth text) := by
  constructor
  · intro h
    induction h with
    | done free =>
        rw [hasRun_iff positive] at free
        unfold fenceWidth
        omega
    | more run _ ih =>
        rw [hasRun_iff positive] at run
        rw [ih (Nat.succ_pos _)]
        unfold fenceWidth
        omega
  · rintro rfl
    -- Each round comes closer to the longest run of the text.
    induction missing : fenceWidth text - width generalizing width with
    | zero =>
        have free : ¬ HasRun text width := by
          rw [hasRun_iff positive]
          unfold fenceWidth at missing
          omega
        rw [Nat.max_eq_left (by omega)]
        exact .done free
    | succ n ih =>
        have run : HasRun text width := by
          rw [hasRun_iff positive]
          unfold fenceWidth at missing
          omega
        have next := ih (Nat.succ_pos width) (by omega)
        rw [Nat.max_eq_right (by omega)] at next ⊢
        exact .more run next

/-- **Raw strings are self-delimiting**: the search for a fence ends, with the fence of the text; a
raw string is read back whatever follows it; and a narrower fence would not do, whatever follows. -/
theorem rawString_delimits (text : List Char) :
    (∀ width, Widens text 1 width ↔ width = fenceWidth text) ∧
    (∀ rest, readRaw (rawString text ++ rest) = some (text, rest)) ∧
    ∀ width rest, readRaw (fenced width text ++ rest) = some (text, rest) ↔
      fenceWidth text ≤ width := by
  have one : 1 ≤ fenceWidth text := Nat.succ_le_succ (Nat.zero_le _)
  refine ⟨fun width => ?_, readRaw_rawString text, fun width rest => ?_⟩
  · rw [widens_iff Nat.one_pos, Nat.max_eq_right one]
  · exact readRaw_fenced_iff width text rest

-- The quote at the end of the text is followed by another quote and asks for no wider fence.
example : String.ofList (rawString "a\"# b\"".toList) = "##\"a\"# b\"\"##" := by decide +kernel

end SchemaLoom.Baml
