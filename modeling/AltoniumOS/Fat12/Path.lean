/-
Paths of `fat12.c`: the component splitter `fat12_path_next`, the three path walks
(`fat12_locate_directory`, `fat12_change_directory`, `fat12_resolve_parent_and_name`) with the
path stack they push and pop, and the text of the current directory.

Each walk is a `while (fat12_path_next(&cursor, component) > 0)` whose body first skips the
separators behind the component, so it runs over the list of components of the path; the third
walk's `*cursor == '\0'` says that this list ends.
-/
import AltoniumOS.Fat12.Dir

namespace AltoniumOS.Fat12

open AltoniumOS.Lib

/-- `c == '/' || c == '\\'` -/
def isSeparator (c : UInt8) : Bool := c == slash || c == backslash

/-- `fat12_path_next` with a 32-byte component buffer: the component, empty at the end of the path,
and the path behind it. -/
def pathNext (path : List UInt8) : List UInt8 × List UInt8 :=
  let ptr := path.dropWhile isSeparator
  ((ptr.takeWhile fun c => !isSeparator c).take 31, ptr.dropWhile fun c => !isSeparator c)

/-- The components the walks see; every component takes a byte of the path. -/
def componentsFrom : Nat → List UInt8 → List (List UInt8)
  | 0, _ => []
  | n + 1, cursor =>
    if (pathNext cursor).1 = [] then []
    else (pathNext cursor).1 :: componentsFrom n ((pathNext cursor).2.dropWhile isSeparator)

def components (path : List UInt8) : List (List UInt8) := componentsFrom path.length path

/-- Whether a path starts at the root. -/
def isAbsolute (path : List UInt8) : Bool := isSeparator (path.headD 0)

/-! ## Locating a directory -/

/-- `temp_stack[temp_depth++] = cluster`, when there is room. -/
def pushCluster (stack : List Nat) (cluster : Nat) : List Nat :=
  if stack.length < maxPathDepth then stack ++ [cluster] else stack

/-- The loop of `fat12_locate_directory`, from `cluster` with `temp_stack` above it. -/
def locateLoop (fuel : Nat) (cluster : Nat) (stack : List Nat) : List (List UInt8) → M (Except Code Nat)
  | [] => pure (.ok cluster)
  | component :: rest =>
    if component = [dot] then locateLoop fuel cluster stack rest
    else if component = [dot, dot] then locateLoop fuel (stack.dropLast.getLastD 0) stack.dropLast rest
    else
      match makeShortName component with
      | .error e => pure (.error e)
      | .ok shortName => do
        match ← findEntry fuel cluster shortName with
        | .error e => pure (.error e)
        | .ok (entry, _) =>
          if !entry.isDirectory then pure (.error .errNotDirectory)
          else locateLoop fuel entry.cluster (pushCluster stack entry.cluster) rest

/-- `fat12_locate_directory` -/
def locateDirectory (fuel : Nat) (path : List UInt8) : M (Except Code Nat) := do
  let c ← getCore
  if path = [] then pure (.ok c.currentDirCluster)
  else if isAbsolute path then locateLoop fuel 0 [] (components path)
  else locateLoop fuel c.currentDirCluster c.pathStack.clusters (components path)

/-! ## Changing the current directory -/

namespace PathStack

/-- A level more, when there is room. -/
def push (p : PathStack) (cluster : Nat) (name : List UInt8) : PathStack :=
  if h : p.levels.length < maxPathDepth then ⟨p.levels ++ [(cluster, name)], by rw [List.length_append]; exact h⟩
    else p

/-- A level less. -/
def pop (p : PathStack) : PathStack :=
  ⟨p.levels.dropLast, by rw [List.length_dropLast]; exact Nat.le_trans (Nat.sub_le ..) p.bounded⟩

/-- `depth == 0 ? 0 : stack[depth - 1]` -/
def top (p : PathStack) : Nat := p.clusters.getLastD 0

end PathStack

/-- The loop of `fat12_rebuild_cwd` over the remaining names. -/
def cwdLoop (out : List UInt8) : List (List UInt8) → List UInt8
  | [] => out
  | name :: rest =>
    if name = [] then cwdLoop out rest
    else if out.length + name.length + 1 ≥ pathMax then out
    else cwdLoop (out ++ name ++ if rest = [] then [] else [slash]) rest

/-- `fat12_rebuild_cwd`: the text it leaves in `g_cwd`. -/
def rebuildCwd (p : PathStack) : List UInt8 := cwdLoop [slash] (p.names.map fun name => name.takeWhile (· != 0))

/-- The loop of `fat12_change_directory`. -/
def changeLoop (fuel : Nat) (cluster : Nat) (stack : PathStack) :
    List (List UInt8) → M (Except Code (Nat × PathStack))
  | [] => pure (.ok (cluster, stack))
  | component :: rest =>
    if component = [dot] then changeLoop fuel cluster stack rest
    else if component = [dot, dot] then changeLoop fuel stack.pop.top stack.pop rest
    else
      match makeShortName component with
      | .error e => pure (.error e)
      | .ok shortName => do
        match ← findEntry fuel cluster shortName with
        | .error e => pure (.error e)
        | .ok (entry, _) =>
          if !entry.isDirectory then pure (.error .errNotDirectory)
          else changeLoop fuel entry.cluster (stack.push entry.cluster (dirNameToString entry.name)) rest

/-- `c` after `fat12_change_directory` ended its walk at `cluster` with this stack. -/
def Core.enter (c : Core) (cluster : Nat) (stack : PathStack) : Core :=
  { c with currentDirCluster := cluster, pathStack := stack, cwd := rebuildCwd stack }

/-- `fat12_change_directory` -/
def changeDirectory (fuel : Nat) (path : List UInt8) : M Code := do
  let c ← getCore
  if !c.fsReady then pure .errNotInitialized
  else if path = [] then pure .ok
  else
    let start := if isAbsolute path then (0, PathStack.empty) else (c.currentDirCluster, c.pathStack)
    match ← changeLoop fuel start.1 start.2 (components path) with
    | .error e => pure e
    | .ok (cluster, stack) =>
      modifyCore fun c => c.enter cluster stack
      pure .ok

/-- `fat12_get_cwd` -/
def getCwd : M (List UInt8) := do
  let c ← getCore
  pure c.cwd

/-! ## Resolving the parent of a path -/

/-- The loop of `fat12_resolve_parent_and_name` and the checks of the last component behind it. -/
def resolveLoop (fuel : Nat) (cluster : Nat) (stack : List Nat) :
    List (List UInt8) → M (Except Code (Nat × ShortName))
  | [] => pure (.error .errInvalidName)
  | [last] =>
    if last = [dot] ∨ last = [dot, dot] then pure (.error .errInvalidName)
    else
      match makeShortName last with
      | .error e => pure (.error e)
      | .ok shortName => pure (.ok (cluster, shortName))
  | component :: rest =>
    if component = [dot] then resolveLoop fuel cluster stack rest
    else if component = [dot, dot] then resolveLoop fuel (stack.dropLast.getLastD 0) stack.dropLast rest
    else
      match makeShortName component with
      | .error e => pure (.error e)
      | .ok shortName => do
        match ← findEntry fuel cluster shortName with
        | .error e => pure (.error e)
        | .ok (entry, _) =>
          if !entry.isDirectory then pure (.error .errNotDirectory)
          else resolveLoop fuel entry.cluster (pushCluster stack entry.cluster) rest

/-- `fat12_resolve_parent_and_name` -/
def resolveParentAndName (fuel : Nat) (path : List UInt8) : M (Except Code (Nat × ShortName)) := do
  let c ← getCore
  if path = [] then pure (.error .errInvalidName)
  else if isAbsolute path then resolveLoop fuel 0 [] (components path)
  else resolveLoop fuel c.currentDirCluster c.pathStack.clusters (components path)

end AltoniumOS.Fat12
