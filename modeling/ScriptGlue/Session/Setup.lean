import ScriptGlue.Config
import ScriptGlue.Session.State

/-! # Setting up a session

A fresh session from its configuration, with the policy of the file that the configuration names.
-/

namespace ScriptGlue.Session

def loadPolicy (t : FileTree) (path : Value) : Except Fault Policy := do
  Policy.ofDocument (← readNamedFile t .policy path)

/-- The policy a configuration asks for; without a path it is empty. -/
def policyOf (t : FileTree) (c : Config) : Except Fault Policy :=
  if c.policyPath.truthy then loadPolicy t c.policyPath else .ok {}

def packagingOf (c : Config) : Packaging where
  scriptsDir := c.outputDir
  projectDir := c.projectDir
  hostPluginType := c.hostPluginType
  generatedUserContent := c.generatedUserContent

def ofConfig (w : Workspace) (c : Config) : Except Fault Session := do
  let policy ← policyOf w.tree c
  return {
    policy
    packaging := packagingOf c
    fileExtension := c.fileExtension
    workspace := w }

end ScriptGlue.Session
