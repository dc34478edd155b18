import MapChain.Document.Error
import MapChain.Store.Provider

/-!
# What can go wrong with a chain

Building stops at a file that cannot be had or a map that cannot be followed; writing
stops at a file that cannot be written. A version that is not supported is told apart
from all else that can be wrong with a map.
-/

namespace MapChain

/-- Which map a message is about. -/
inductive MapOrigin where
  /-- The map in this file, or of it once it is read. -/
  | file (path : Path)
  /-- The map that a comment of this file carries. -/
  | inline (path : Path)
  deriving DecidableEq

/-- How a message names a map. -/
def MapOrigin.title : MapOrigin → String
  | .file path => path.text
  | .inline path => "inline map of " ++ path.text

/-- Why a chain was not built or not written. -/
inductive ChainError where
  | file (error : FileError)
  | invalidMap (origin : MapOrigin) (error : MapError)
  | unsupportedVersion (origin : MapOrigin) (version : Nat)
  /-- More maps behind one another than the files and texts at hand can account for.
  Only a relative working directory leads here: seen from it, steps up give one
  location without end new paths. -/
  | tooDeep (path : Path)
  deriving DecidableEq

namespace ChainError

/-- The error that a map's error is for the chain. -/
def ofMapError (origin : MapOrigin) : MapError → ChainError
  | .unsupportedVersion version => .unsupportedVersion origin version
  | error => .invalidMap origin error

/-- The error that a fault at a path is for the chain. -/
def ofFault (path : Path) (fault : Fault) : ChainError := .file ⟨path.text, fault⟩

/-- The message of an error. -/
def message : ChainError → String
  | .file error => error.message
  | .invalidMap origin error => "Invalid source map (" ++ origin.title ++ "): " ++ error.message
  | .unsupportedVersion origin version =>
    "Unsupported source map version " ++ Text.decimal version ++ " in " ++ origin.title
  | .tooDeep path => "Source maps nested too deeply: " ++ path.text

end ChainError

end MapChain
