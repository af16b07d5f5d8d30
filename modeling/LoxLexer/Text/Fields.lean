/-!
# Fields of a sequence

The fields of a sequence are the pieces between the occurrences of a separator. A sequence with
`n` separators has `n + 1` fields, some of them empty. Lines are the fields of a text between line
feeds, and path components are the fields of a path's bytes between slashes.
-/

namespace LoxLexer

variable {α : Type} [DecidableEq α]

/-- The pieces of a sequence between the occurrences of `sep`. -/
def fields (sep : α) : List α → List (List α)
  | [] => [[]]
  | c :: rest =>
    let ls := fields sep rest
    if c = sep then [] :: ls else (c :: ls.headD []) :: ls.tail

/-- There is always at least one field. -/
theorem fields_ne_nil (sep : α) (cs : List α) : fields sep cs ≠ [] := by
  cases cs with
  | nil => simp [fields]
  | cons c rest => simp only [fields]; split <;> simp

/-- The fields of a sequence are its first field and the rest. -/
theorem fields_eq_cons (sep : α) (cs : List α) : ∃ f fs, fields sep cs = f :: fs := by
  cases h : fields sep cs with
  | nil => exact absurd h (fields_ne_nil sep cs)
  | cons f fs => exact ⟨f, fs, rfl⟩

example : fields '/' "/a//b".toList = [[], ['a'], [], ['b']] := by decide

end LoxLexer
