import AgentPrompt.Proofs.Json.IntegerLayout
import AgentPrompt.Proofs.Text.Trim
import AgentPrompt.Tool.ParamType

namespace AgentPrompt

namespace Json

theorem isBlank_of_isSpace {c : Char} (h : isSpace c = true) : Text.isBlank c = true := by
  simp only [isSpace, Bool.or_eq_true, beq_iff_eq] at h
  rcases h with ((rfl | rfl) | rfl) | rfl <;> rfl

/-- Trimming takes away more than the spaces of the reader. -/
theorem unspaced_trim (s : List Char) : Unspaced (Text.trim s) := by
  have hspace : ∀ c, Text.isBlank c = false → isSpace c = false := fun c hc =>
    Bool.eq_false_iff.2 fun h => Bool.eq_false_iff.1 hc (isBlank_of_isSpace h)
  exact ⟨fun c hc => hspace c (Text.head_trim_not_blank hc),
    fun c hc => hspace c (Text.getLast_trim_not_blank hc)⟩

theorem itemsText_eq_intercalate (items : List Json) :
    itemsText items = [','].intercalate (items.map chars) := by
  induction items with
  | nil => rfl
  | cons v rest ih =>
    cases rest with
    | nil => rw [itemsText, List.map_singleton, List.intercalate_singleton]
    | cons w rest =>
      rw [itemsText, ih]
      simp only [List.map_cons, List.intercalate_cons_cons, List.append_assoc,
        List.singleton_append]

theorem Integer64Token.chars_eq {token : List Char} {n : Int} (h : Integer64Token token n) :
    chars (ofInt n) = token :=
  h.1.intText_eq

/-- Whole numbers are printed as their tokens. -/
theorem chars_ofInts {tokens : List (List Char)} {ns : List Int}
    (h : List.Forall₂ Integer64Token tokens ns) :
    chars (array (ns.map ofInt)) = '[' :: [','].intercalate tokens ++ [']'] := by
  have hmap : (ns.map ofInt).map chars = tokens := by
    induction h with
    | nil => rfl
    | cons htoken _ ih => rw [List.map_cons, List.map_cons, htoken.chars_eq, ih]
  rw [chars, itemsText_eq_intercalate, hmap]

end Json

namespace ParamType

theorem accepts_integer_iff {v : Json} :
    Primitive.integer.accepts v ↔ ∃ n, v = Json.ofInt n := by
  constructor
  · intro h
    unfold Primitive.accepts at h
    split at h
    · contradiction
    · exact ⟨_, rfl⟩
    · contradiction
    · contradiction
    · contradiction
  · rintro ⟨n, rfl⟩
    rfl

theorem accepts_integers_iff {v : Json} :
    (array .integer).accepts v ↔ ∃ ns : List Int, v = .array (ns.map Json.ofInt) := by
  constructor
  · intro h
    cases v with
    | array items =>
      have hall : ∀ v ∈ items, ∃ n, Json.ofInt n = v := fun v hv =>
        (accepts_integer_iff.1 (List.all_eq_true.1 h v hv)).imp fun n hn => hn.symm
      obtain ⟨ns, rfl⟩ : items ∈ Set.range (List.map Json.ofInt) := by
        rw [Set.range_list_map]
        exact hall
      exact ⟨ns, rfl⟩
    | _ => cases h
  · rintro ⟨ns, rfl⟩
    rw [accepts, List.all_map]
    exact List.all_eq_true.2 fun n _ => rfl

/-- Text that is no string is read as JSON after trimming. -/
theorem defaultValue?_eq_some_iff {t : ParamType} (ht : t ≠ primitive .string) {raw : String}
    {v : Json} :
    t.defaultValue? raw = some v ↔
      Json.readText (Text.trim raw.toList) = .ok v ∧ t.accepts v := by
  rw [defaultValue?, if_neg ht]
  cases Json.readText (Text.trim raw.toList) with
  | error e => simp
  | ok w =>
    simp only [Option.ite_none_right_eq_some, Option.some.injEq, Except.ok.injEq]
    constructor
    · rintro ⟨hw, rfl⟩
      exact ⟨rfl, hw⟩
    · rintro ⟨rfl, hw⟩
      exact ⟨hw, rfl⟩

theorem defaultValue?_integer_iff {raw : String} {v : Json} :
    (primitive .integer).defaultValue? raw = some v ↔
      ∃ n, Json.Integer64Token (Text.trim raw.toList) n ∧ v = Json.ofInt n := by
  rw [defaultValue?_eq_some_iff (by decide), accepts, accepts_integer_iff]
  constructor
  · rintro ⟨hread, n, rfl⟩
    exact ⟨n, (Json.unspaced_trim _).readText_eq_int_iff.1 hread, rfl⟩
  · rintro ⟨n, htoken, rfl⟩
    exact ⟨(Json.unspaced_trim _).readText_eq_int_iff.2 htoken, n, rfl⟩

example : ["-0", "007", "1e2", "18446744073709551616", "-9223372036854775809"].all
    (fun raw => ((primitive .integer).defaultValue? raw).isNone) = true := by
  decide

theorem defaultValue?_integers_iff {raw : String} {v : Json} :
    (array .integer).defaultValue? raw = some v ↔
      ∃ tokens ns, Json.ArrayLayout tokens (Text.trim raw.toList) ∧
        List.Forall₂ Json.Integer64Token tokens ns ∧ v = .array (ns.map Json.ofInt) := by
  rw [defaultValue?_eq_some_iff (by decide), accepts_integers_iff]
  constructor
  · rintro ⟨hread, ns, rfl⟩
    obtain ⟨tokens, hlayout, htokens⟩ := (Json.unspaced_trim _).readText_eq_array_iff.1 hread
    exact ⟨tokens, ns, hlayout, htokens, rfl⟩
  · rintro ⟨tokens, ns, hlayout, htokens, rfl⟩
    exact ⟨(Json.unspaced_trim _).readText_eq_array_iff.2 ⟨tokens, hlayout, htokens⟩, ns, rfl⟩

/-- Defaults of integer parameters and of arrays of integers are exact: what is accepted is what is
written as whole numbers of 64 bits, and it is printed as it was written. -/
theorem integer_defaults_exact (raw : String) :
    (∀ v, (primitive .integer).defaultValue? raw = some v ↔
      ∃ n, Json.Integer64Token (Text.trim raw.toList) n ∧ v = Json.ofInt n) ∧
    (∀ v, (primitive .integer).defaultValue? raw = some v →
      Json.chars v = Text.trim raw.toList) ∧
    (∀ v, (array .integer).defaultValue? raw = some v ↔
      ∃ tokens ns, Json.ArrayLayout tokens (Text.trim raw.toList) ∧
        List.Forall₂ Json.Integer64Token tokens ns ∧ v = .array (ns.map Json.ofInt)) ∧
    (∀ v tokens ns, (array .integer).defaultValue? raw = some v →
      Json.ArrayLayout tokens (Text.trim raw.toList) →
      List.Forall₂ Json.Integer64Token tokens ns →
      Json.chars v = '[' :: [','].intercalate tokens ++ [']']) := by
  refine ⟨fun v => defaultValue?_integer_iff, fun v h => ?_,
    fun v => defaultValue?_integers_iff, fun v tokens ns h hlayout htokens => ?_⟩
  · obtain ⟨n, htoken, rfl⟩ := defaultValue?_integer_iff.1 h
    exact htoken.chars_eq
  · have hsame := defaultValue?_integers_iff.2 ⟨tokens, ns, hlayout, htokens, rfl⟩
    obtain rfl := Option.some.inj (h.symm.trans hsame)
    exact Json.chars_ofInts htokens

/-- The smallest and the largest whole number that are not rounded, after a blank that is no space
of the reader. -/
def boundsText : String :=
  "\u00a0[ -9223372036854775808 ,\t18446744073709551615]\n"

def boundsTokens : List (List Char) :=
  ["-9223372036854775808".toList, "18446744073709551615".toList]

theorem integer_defaults_exact_bounds :
    Json.ArrayLayout boundsTokens (Text.trim boundsText.toList) ∧
    List.Forall₂ Json.Integer64Token boundsTokens [Json.minInt, Json.maxInt] ∧
    ∃ v, (array .integer).defaultValue? boundsText = some v ∧
      Json.chars v = "[-9223372036854775808,18446744073709551615]".toList := by
  have hlow : Json.WholeDigits "9223372036854775808".toList :=
    ⟨by decide, List.all_eq_true.1 (by decide), by decide⟩
  have hhigh : Json.WholeDigits "18446744073709551615".toList :=
    ⟨by decide, List.all_eq_true.1 (by decide), by decide⟩
  have hlayout : Json.ArrayLayout boundsTokens (Text.trim boundsText.toList) := by
    have htrim : Text.trim boundsText.toList = '[' :: ([' '] ++ "-9223372036854775808".toList ++
        [' '] ++ ',' :: (['\t'] ++ "18446744073709551615".toList ++ [])) ++ [']'] := by decide
    rw [htrim]
    refine .items (.more ?_ ?_ (.last ?_ ?_)) <;> exact List.all_eq_true.1 (by decide)
  have htokens : List.Forall₂ Json.Integer64Token boundsTokens [Json.minInt, Json.maxInt] :=
    .cons ((Json.integer64Token_negative_iff hlow).2 (by decide))
      (.cons ((Json.integer64Token_unsigned_iff hhigh).2 (by decide)) .nil)
  obtain ⟨-, -, hiff, hchars⟩ := integer_defaults_exact boundsText
  have hdefault := (hiff _).2 ⟨_, _, hlayout, htokens, rfl⟩
  refine ⟨hlayout, htokens, _, hdefault, ?_⟩
  rw [hchars _ _ _ hdefault hlayout htokens]
  decide

end ParamType
end AgentPrompt
