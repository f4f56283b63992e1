import HiddenText.Codepoint
import HiddenText.Text.Characters
import HiddenText.Text.Utf8

/-! # Configuration

Which extensions mean source and documentation, which directories are left out, what is
restricted, and how a scan and its report are limited. -/
set_option autoImplicit false

namespace HiddenText

structure Config where
  /-- Extensions of source files, in lower case and without a dot. -/
  sourceExtensions : List String
  documentationExtensions : List String
  /-- Names of directories that are left out with all that is below them. -/
  ignoredNames : List String
  restricted : RestrictedSet
  /-- How many distinct codepoints a finding shows. -/
  sampleCap : Nat
  /-- How many findings of each kind the text report lists. -/
  maxListed : Nat
  followLinks : Bool
  /-- A fixed number of threads, or as many as the machine has processors. -/
  threads : Option Nat
  deriving DecidableEq

namespace Config

/-- The form in which an extension is kept: trimmed, without leading dots, in lower case. -/
def normalizeExtension (extension : String) : String :=
  String.ofList (LowerCase.ofText ((Blank.trim extension.toList).dropWhile (· = '.')))

/-- The set of the entries that are not empty. -/
def nameSet (entries : List String) : List String :=
  Ascending.ofList (entries.filter (· ≠ ""))

def extensionSet (entries : List String) : List String := nameSet (entries.map normalizeExtension)

def standard : Config where
  sourceExtensions := extensionSet
    ["c", "cc", "cjs", "cpp", "cs", "css", "cts", "go", "graphql", "h", "hpp", "html", "ini",
     "java", "js", "json", "json5", "jsonc", "jsx", "kt", "less", "mjs", "mts", "php", "ps1",
     "py", "rb", "rs", "sass", "scss", "sh", "sql", "svelte", "swift", "toml", "ts", "tsx",
     "vue", "xml", "yaml", "yml", "zsh"]
  documentationExtensions := extensionSet ["adoc", "markdown", "md", "mdx", "rst", "txt"]
  ignoredNames := nameSet
    [".cache", ".git", ".hg", ".next", ".nuxt", ".svn", ".turbo", ".venv", "__pycache__",
     "build", "coverage", "dist", "node_modules", "out", "target", "vendor"]
  restricted := .standard
  sampleCap := 8
  maxListed := 40
  followLinks := false
  threads := none

/-- Is a directory or a path segment of this name left out? -/
def ignores (config : Config) (name : Bytes) : Bool :=
  config.ignoredNames.contains (Utf8.shown name)

end Config
end HiddenText
