/-! Finding one text inside another. -/
namespace AgentPrompt.Text

/-- Whether `part` occurs somewhere in the text. -/
def contains (part : List Char) : List Char → Bool
  | [] => part.isEmpty
  | c :: rest => part.isPrefixOf (c :: rest) || contains part rest

theorem contains_iff_infix (part s : List Char) : contains part s = true ↔ part <:+: s := by
  induction s with
  | nil => simp [contains]
  | cons c rest ih => simp [contains, ih, List.infix_cons_iff]

/-- Replaces the occurrences of `part`; `skip` characters of one just replaced are left to pass. -/
def replaceFrom (part new : List Char) : Nat → List Char → List Char
  | _, [] => []
  | skip + 1, _ :: rest => replaceFrom part new skip rest
  | 0, c :: rest =>
    if part.isPrefixOf (c :: rest) then new ++ replaceFrom part new (part.length - 1) rest
    else c :: replaceFrom part new 0 rest

/-- Puts `new` in place of every occurrence of `part`, from left to right and without overlap. An
empty `part` occurs before every character and at the end. -/
def replaceAll (part new s : List Char) : List Char :=
  if part.isEmpty then s.flatMap (fun c => new ++ [c]) ++ new else replaceFrom part new 0 s

end AgentPrompt.Text
