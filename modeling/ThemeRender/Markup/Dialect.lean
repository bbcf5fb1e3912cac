import ThemeRender.Store.Path
/-!
The formats templates are written in. Haml and Jade are compiled to the native format, which is
executed as it is.
-/

namespace ThemeRender

inductive Dialect where
  | jade
  | haml
  | native
deriving DecidableEq, Repr

namespace Dialect

def extension : Dialect → String
  | .jade => "jade"
  | .haml => "haml"
  | .native => "php"

def name : Dialect → String
  | .jade => "jade"
  | .haml => "haml"
  | .native => "native"

def isCompiled : Dialect → Bool
  | .jade | .haml => true
  | .native => false

def all : List Dialect := [.jade, .haml, .native]

def ofExtension? (extension : List Char) : Option Dialect :=
  all.find? fun dialect => dialect.extension.toList = extension

def ofPath? (path : Path) : Option Dialect :=
  path.extension?.bind ofExtension?

theorem ofExtension?_extension (dialect : Dialect) :
    ofExtension? dialect.extension.toList = some dialect := by
  cases dialect <;> decide

end Dialect

end ThemeRender
