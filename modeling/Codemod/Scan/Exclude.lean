import Codemod.Path

/-! Which paths a walk leaves out. A pattern is a sequence of names, and it matches where these
names stand one after another below the root, whatever the names of the root itself. A pattern
that ends in a slash ends at a folder. -/
namespace Codemod.Scan

def defaultExclude : List String := [".git/", "node_modules/", "elm-stuff/", "target/"]

def patternNames (pattern : String) : List String :=
  ((splitOn '/' pattern.toList).filter (· ≠ [])).map String.ofList

def endsInSlash (pattern : String) : Bool := pattern.toList.getLast? == some '/'

def hasBlock [DecidableEq α] (block : List α) : List α → Bool
  | [] => block.isEmpty
  | name :: rest => block.isPrefixOf (name :: rest) || hasBlock block rest

/-- Whether a pattern matches the names of a path below the root. Only a folder's own name can
end a match of a pattern for folders. -/
def matchesNames (names : List String) (isFolder : Bool) (pattern : String) : Bool :=
  let block := patternNames pattern
  let searched := if endsInSlash pattern && !isFolder then names.dropLast else names
  !block.isEmpty && hasBlock block searched

def isExcluded (root path : Path) (isFolder : Bool) (exclude : List String) : Bool :=
  let names := (Path.relativeTo root path).map Path.Component.display
  exclude.any (matchesNames names isFolder)

/-- Whether the path's extension is one of the given ones, letter by letter. -/
def hasExtension (path : Path) (extensions : List String) : Bool :=
  match path.extension?.bind Utf8.decode? with
  | some extension => extensions.contains extension
  | none => false

end Codemod.Scan
