import TreeWalk.Text.Blank
import TreeWalk.Text.Quoted
import TreeWalk.Value.Render

/-!
# Configuration

How an interpreter shows functions, and whether `puts` writes at all. A configuration is read from
two settings, each of which may be absent.
-/

namespace TreeWalk

/-- The configuration of an interpreter. -/
structure Config where
  /-- How functions are shown in output. -/
  style : RenderStyle
  /-- Whether `puts` writes nothing. -/
  silent : Bool
  deriving DecidableEq, Repr

/-- Functions are shown in the canonical style, and `puts` writes. -/
def Config.default : Config :=
  ⟨.canonical, false⟩

instance : Inhabited Config :=
  ⟨Config.default⟩

/-- The setting that selects the style. -/
def styleSetting : String := "DONKEY_RENDER"

/-- The setting that silences `puts` by being there. -/
def silentSetting : String := "DONKEY_SILENT"

/-- A style setting that names no style, as it was given. -/
structure InvalidStyle where
  value : String
  deriving DecidableEq, Repr

/-- What is said about a style setting that names no style. -/
def InvalidStyle.message (e : InvalidStyle) : String :=
  "invalid value " ++ quoted e.value ++ " for " ++ styleSetting ++
    " (expected `canonical` or `legacy`)"

/-- The style of a setting. Blanks around the name and the case of ASCII letters do not count, and
a blank setting selects the canonical style. -/
def RenderStyle.parse (raw : String) : Except InvalidStyle RenderStyle :=
  let name := lowerAscii (trimBlanks raw)
  if name = "" ∨ name = "canonical" then .ok .canonical
  else if name = "legacy" then .ok .legacy
  else .error ⟨raw⟩

/-- The configuration of some settings. Only the style can be refused. -/
def Config.ofSettings (setting? : String → Option String) : Except InvalidStyle Config := do
  let style ← match setting? styleSetting with
    | none => pure .canonical
    | some raw => RenderStyle.parse raw
  return ⟨style, (setting? silentSetting).isSome⟩

end TreeWalk
