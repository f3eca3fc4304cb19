import AgentPrompt.Text.Blank

/-! The languages of the built-in prompts. -/
namespace AgentPrompt

inductive Locale where
  | english
  | chinese
  deriving DecidableEq, Repr

namespace Locale

def default : Locale := english

def name : Locale → String
  | english => "en"
  | chinese => "zh"

/-- The locale with exactly this name. -/
def ofName? (s : String) : Option Locale :=
  [english, chinese].find? fun l => l.name == s

theorem ofName?_name (l : Locale) : ofName? l.name = some l := by
  cases l <;> decide

/-- Reads a locale's name in any case and with blanks around it; otherwise says what is wrong. -/
def parse (s : String) : Except String Locale :=
  let text := String.ofList ((Text.trim s.toList).map Char.toLower)
  match ofName? text with
  | some l => .ok l
  | none => .error s!"unknown locale '{text}' (expected 'en' or 'zh')"

end Locale
end AgentPrompt
