import CallAtlas.Service.Basic

/-! # Instructions for those who write notes -/

namespace CallAtlas.Service

/-- How to go through all definitions. -/
def instructions : Text :=
  "You are asked to inspect each definition block of the symbols "
  ++ "of the codebase and provide a description for each one. The description "
  ++ "includes the purpose of the symbol, vulnerabilities, and any other relevant "
  ++ "information that can help discover underlying vulnerabilities.\n"
  ++ "To assist you in this task, you can use the provided tools to setup "
  ++ "the definition todo list, and get one definition task at a time for inspection. "
  ++ "when you get a definition task, you can use the tools to fetch the relevant code "
  ++ "and provide a detailed description. Submit your description using the provided tools. "
  ++ "If submission fails, it may be due to a wrong symbol/definition location, which is used "
  ++ "as a reference for the task. you may need to adjust the location before resubmitting."

/-- How to describe one definition: it would be called by its own name, and it has none. -/
def instructionsFor (_ : Site) : Except ServiceError Text := .error .namelessDefinition

end CallAtlas.Service
