import AgentPrompt.Bindings
import AgentPrompt.Instant
import AgentPrompt.Tool.Registry

/-! What a prompt says about its surroundings. Facts are recorded one after the other, a later fact
of a kind replacing an earlier one; the project's path and the time must be among them. -/
namespace AgentPrompt

structure Context where
  currentFile : Option String
  projectPath : String
  projectStructure : Option String
  osInfo : String
  timestamp : Instant
  toolList : String
  agentRules : Option String
  buildTool : String
  shell : String
  moduleInfo : Option String
  frameworkContext : Option String

/-- One thing known about the surroundings. -/
inductive Fact where
  | currentFile (text : String)
  | projectPath (text : String)
  | projectStructure (text : String)
  | osInfo (text : String)
  | timestamp (moment : Instant)
  | toolList (text : String)
  /-- The tools at hand; their blocks become the tool list. -/
  | tools (snapshot : Snapshot)
  | agentRules (text : String)
  | buildTool (text : String)
  | shell (text : String)
  | moduleInfo (text : String)
  | frameworkContext (text : String)

namespace Context

/-- A context that may still lack facts. -/
structure Draft where
  currentFile : Option String := none
  projectPath : Option String := none
  projectStructure : Option String := none
  osInfo : String := ""
  timestamp : Option Instant := none
  toolList : String := ""
  agentRules : Option String := none
  buildTool : String := ""
  shell : String := ""
  moduleInfo : Option String := none
  frameworkContext : Option String := none

/-- Records a fact. Only tools that cannot be printed are refused. -/
def Draft.record (d : Draft) : Fact → Except Error Draft
  | .currentFile text => .ok { d with currentFile := some text }
  | .projectPath text => .ok { d with projectPath := some text }
  | .projectStructure text => .ok { d with projectStructure := some text }
  | .osInfo text => .ok { d with osInfo := text }
  | .timestamp moment => .ok { d with timestamp := some moment }
  | .toolList text => .ok { d with toolList := text }
  | .tools snapshot => do return { d with toolList := ← Tool.blockList snapshot.tools }
  | .agentRules text => .ok { d with agentRules := some text }
  | .buildTool text => .ok { d with buildTool := text }
  | .shell text => .ok { d with shell := text }
  | .moduleInfo text => .ok { d with moduleInfo := some text }
  | .frameworkContext text => .ok { d with frameworkContext := some text }

/-- The context, if no fact is missing. -/
def Draft.finish (d : Draft) : Except Error Context :=
  match d.projectPath, d.timestamp with
  | none, _ => .error (.missingFact "project_path")
  | some _, none => .error (.missingFact "timestamp")
  | some projectPath, some timestamp => .ok { d with projectPath, timestamp }

def ofFacts (facts : List Fact) : Except Error Context := do
  let d ← facts.foldlM Draft.record {}
  d.finish

/-- The names of the variables that every context defines. -/
def variableNames : List String :=
  ["current_file", "project_path", "project_structure", "os_info", "timestamp", "tool_list",
    "agent_rules", "build_tool", "shell", "module_info", "framework_context"]

/-- The variables of a context, in the order of their names; what is not known is empty. -/
def bindings (c : Context) : Bindings :=
  .ofList
    [("current_file", .text (c.currentFile.getD "")),
      ("project_path", .text c.projectPath),
      ("project_structure", .text (c.projectStructure.getD "")),
      ("os_info", .text c.osInfo),
      ("timestamp", .text c.timestamp.text),
      ("tool_list", .text c.toolList),
      ("agent_rules", .text (c.agentRules.getD "")),
      ("build_tool", .text c.buildTool),
      ("shell", .text c.shell),
      ("module_info", .text (c.moduleInfo.getD "")),
      ("framework_context", .text (c.frameworkContext.getD ""))]

end Context
end AgentPrompt
