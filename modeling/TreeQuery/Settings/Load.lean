import TreeQuery.File.System
import TreeQuery.Settings.Document
import TreeQuery.Settings.Variable

/-!
# Loading settings

Later layers win: the defaults, a settings file, the environment, the flags. A value that a later
layer replaces need not fit. The file is the one that a flag names, or else the first that can be
read of the one that the environment names and the one in the working directory. A file may extend
another one, whose settings lie below its own.
-/

namespace TreeQuery.Settings

abbrev Environment := List (List Char × List Char)

def variablePrefix : List Char := "FATHOM_".toList

def pathVariable : List Char := "FATHOM_CONFIG_PATH".toList

def defaultPath : File.Path := ⟨".fathom.toml".toList⟩

/-- The setting that a variable is for, in lower case, and its value. Two underscores, or a dot,
lead into a table, which is no setting. -/
def setting? (name value : List Char) : Option (List Char × Value) :=
  let name := Text.lower (Variable.trim name)
  let start := Text.lower variablePrefix
  if !start.isPrefixOf name then none
  else match Text.split '.' (Text.replace ['_', '_'] ['.'] (name.drop start.length)) with
    | [] => none
    | key :: inner =>
      if key.isEmpty || inner.any List.isEmpty then none
      else some (key, if inner.isEmpty then Variable.read value else .other)

def environmentLayer (env : Environment) : Layer :=
  (env.filterMap fun (name, value) => setting? name value).foldl
    (fun layer setting => Layer.below layer [setting]) []

-- ---------------------------------------------------------------------------
-- Flags
-- ---------------------------------------------------------------------------

def flagName (key : Key) : List Char :=
  '-' :: '-' :: key.name.toList.map fun c => if c = '_' then '-' else c

def pathFlag : List Char := "--config-path".toList

def flags : List (List Char) := pathFlag :: Key.all.map flagName

def isFlagLike : List Char → Bool
  | '-' :: _ :: _ => true
  | _ => false

/-- The flags with their values, inline or in the next word; `none` for anything else, for a
missing value and for a flag that is given twice. -/
def flagValues? : List (List Char) → Option (List (List Char × List Char))
  | [] => some []
  | [['-', '-']] => some []
  | word :: rest =>
    let name := word.takeWhile (· != '=')
    if !flags.contains name then none
    else match word.dropWhile (· != '='), rest with
      | _ :: inline, rest => do
        let others ← flagValues? rest
        if others.any (·.1 == name) then none else return (name, inline) :: others
      | [], value :: rest => do
        let others ← flagValues? rest
        if isFlagLike value || others.any (·.1 == name) then none
        else return (name, value) :: others
      | [], [] => none

def flagValue? (key : Key) (cs : List Char) : Option Value :=
  match key with
  | .logFilter | .experimentExtension => some (.text cs)
  | .logFormat => (LogFormat.ofText? cs).map fun f => .text f.name.toList
  | .maxCombinations | .jobs | .policyTimeoutSecs => (Number.natural? cs).map fun n => .number n

def flagLayer? (values : List (List Char × List Char)) : Option Layer :=
  (values.filter fun (name, _) => name != pathFlag).mapM fun (name, cs) => do
    let key ← Key.all.find? fun k => flagName k == name
    let value ← flagValue? key cs
    return (key.name.toList, value)

-- ---------------------------------------------------------------------------
-- Files
-- ---------------------------------------------------------------------------

def extendsKey : List Char := "extends".toList

def foreignExtensions : List (List Char) := ["json", "json5", "yaml", "yml"].map String.toList

def isForeign (path : File.Path) : Bool :=
  ((path.fileName?.bind File.Path.extension?).map Text.lower).any foreignExtensions.contains

/-- The layer of a settings file over those that it extends, at most `fuel` files in all; `none` if
one of them cannot be read. -/
def fileLayerFor (fs : File.System) : Nat → File.Path → Option Layer
  | 0, _ => none
  | fuel + 1, path => do
    if isForeign path || !fs.isFile path then none
    let text ← (fs.readText path).toOption
    let layer ← Document.ofText? text
    match layer.lookup extendsKey with
    | none => return layer
    | some (.text name) =>
      let other : File.Path := ⟨name⟩
      let below ← fileLayerFor fs fuel (if other.isAbsolute then other else path.sibling name)
      return below.below layer
    | some _ => none

def fileLayer? (fs : File.System) (path : File.Path) : Option Layer :=
  fileLayerFor fs ((fs.root.files []).length + 1) path

/-- The first layer that can be read, of those files that are there; `none` if there are some and
none can be read. -/
def firstLayer? (fs : File.System) (paths : List File.Path) : Option Layer :=
  let layers := (paths.filter fs.isFile).map (fileLayer? fs)
  if layers.isEmpty then some [] else layers.findSome? id

def chosenLayer? (fs : File.System) (env : Environment) (named : Option (List Char)) :
    Option Layer :=
  match named with
  | some path => fileLayer? fs ⟨path⟩
  | none => firstLayer? fs (((env.lookup pathVariable).map File.Path.mk).toList ++ [defaultPath])

-- ---------------------------------------------------------------------------
-- All layers
-- ---------------------------------------------------------------------------

def load? (fs : File.System) (env : Environment) (args : List (List Char)) : Option Settings := do
  let values ← flagValues? args
  let fromFlags ← flagLayer? values
  let fromFile ← chosenLayer? fs env (values.lookup pathFlag)
  default.overlay ((fromFile.below (environmentLayer env)).below fromFlags)

end TreeQuery.Settings
