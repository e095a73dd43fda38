/-!
# Splitting a text at a character

`split sep cs` are the parts of a text between the occurrences of a character, and `join sep` puts
parts back together. There is always at least one part, the first part is what stands before the
first occurrence, joining gives the text back, and splitting gives the parts back if the character is
in none of them.
-/

namespace HostGlue.Text

/-- The parts of a text between the occurrences of a character. -/
def split (sep : Char) : List Char → List (List Char)
  | [] => [[]]
  | c :: cs =>
    if c = sep then [] :: split sep cs
    else match split sep cs with
      | [] => [[c]]
      | part :: parts => (c :: part) :: parts

/-- Parts with a character between them. -/
def join (sep : Char) : List (List Char) → List Char
  | [] => []
  | [part] => part
  | part :: parts => part ++ sep :: join sep parts

theorem split_ne_nil (sep : Char) : ∀ cs : List Char, split sep cs ≠ []
  | [] => by simp [split]
  | c :: cs => by
    unfold split
    split
    · simp
    · split <;> simp

/-- The first part is what stands before the first occurrence. -/
theorem head?_split (sep : Char) : ∀ cs : List Char,
    (split sep cs).head? = some (cs.takeWhile (· != sep))
  | [] => rfl
  | c :: cs => by
    have ih := head?_split sep cs
    unfold split
    split
    · rename_i h
      simp [h]
    · rename_i h
      split
      · rename_i hs
        exact absurd hs (split_ne_nil sep cs)
      · rename_i part parts hs
        rw [hs] at ih
        simp only [List.head?_cons, Option.some.injEq] at ih
        simp [h, ih]

/-- Nothing is lost. -/
theorem join_split (sep : Char) : ∀ cs : List Char, join sep (split sep cs) = cs
  | [] => rfl
  | c :: cs => by
    have ih := join_split sep cs
    unfold split
    split
    · rename_i h
      cases hs : split sep cs with
      | nil => exact absurd hs (split_ne_nil sep cs)
      | cons part parts =>
        rw [hs] at ih
        simp [join, ih, h]
    · split
      · rename_i hs
        exact absurd hs (split_ne_nil sep cs)
      · rename_i part parts hs
        rw [hs] at ih
        cases parts with
        | nil => simpa [join] using ih
        | cons q qs => simpa [join] using ih

/-- What has no separator is one part. -/
theorem split_of_not_mem {sep : Char} : ∀ {part : List Char}, sep ∉ part → split sep part = [part]
  | [], _ => rfl
  | c :: part, h => by
    rw [List.mem_cons, not_or] at h
    obtain ⟨hc, hpart⟩ := h
    rw [split, if_neg (Ne.symm hc), split_of_not_mem hpart]

/-- A part ends at the first separator behind it. -/
theorem split_append {sep : Char} (rest : List Char) : ∀ {part : List Char}, sep ∉ part →
    split sep (part ++ sep :: rest) = part :: split sep rest
  | [], _ => by rw [List.nil_append, split, if_pos rfl]
  | c :: part, h => by
    rw [List.mem_cons, not_or] at h
    obtain ⟨hc, hpart⟩ := h
    rw [List.cons_append, split, if_neg (Ne.symm hc), split_append rest hpart]

/-- Parts without the separator are found again. -/
theorem split_join {sep : Char} : ∀ {parts : List (List Char)}, parts ≠ [] →
    (∀ part ∈ parts, sep ∉ part) → split sep (join sep parts) = parts
  | [], h, _ => absurd rfl h
  | [part], _, h => split_of_not_mem (h part List.mem_cons_self)
  | part :: next :: parts, _, h => by
    have ih := split_join (List.cons_ne_nil next parts)
      fun q hq => h q (List.mem_cons_of_mem part hq)
    rw [join, split_append _ (h part List.mem_cons_self), ih]
    exact List.cons_ne_nil next parts

end HostGlue.Text
