import LeaseCache.Binary
import LeaseCache.FileSystem
import LeaseCache.Json.Fault
import LeaseCache.Key.Dynamic
import LeaseCache.Value

/-!
# Failures

What a store answers when it fails, and what the caching layer itself fails with. A store's failure
is handed to the caller as it is.
-/

namespace LeaseCache

/-- A failure of a store. -/
inductive StoreError where
  | file (error : FileError)
  | json (failure : Json.Failure)
  | binary (fault : Binary.Fault)
  /-- A failure of a store of the caller's own, in its own words. -/
  | raised (message : String)

/-- The wording of a store's failure. -/
def StoreError.message : StoreError → String
  | .file e => "IO error: " ++ e.message
  | .json e => "JSON serialization error: " ++ e.message
  | .binary e => "bincode serialization error: " ++ e.message
  | .raised message => message

/-- A failure of the caching layer. -/
inductive Failure where
  /-- A store failed while it was opened. -/
  | store (error : StoreError)
  /-- The memory of a store holds values of another type. -/
  | valueTypeMismatch (handle : Path) (expected : ValueType)
  | unsupportedKey (type : ForeignType)
  | createStore (handle : Path) (source : Failure)
  | settings (failure : Json.Failure)
  | file (error : FileError)

/-- The wording of a failure. -/
def Failure.message : Failure → String
  | .store e => e.message
  | .valueTypeMismatch handle expected =>
    "store " ++ handle.shown ++ " is already cached with a value type other than " ++ expected.name
  | .unsupportedKey type => "unsupported cache key type: " ++ type.name
  | .createStore handle source =>
    "failed to create store " ++ handle.shown ++ ": " ++ source.message
  | .settings e => "invalid memory caching configuration: " ++ e.message
  | .file e => "IO error: " ++ e.message

end LeaseCache
