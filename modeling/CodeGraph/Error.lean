set_option autoImplicit false

namespace CodeGraph

def maxInteger : Nat := 9223372036854775807

inductive RangeError where
  | tooLarge
  | tooSmall
deriving DecidableEq, Repr

def RangeError.message : RangeError → String
  | .tooLarge => "number too large to fit in target type"
  | .tooSmall => "number too small to fit in target type"

inductive VectorError where
  | missingCollection (name : String)
  | dimensions (point : String) (given expected : Nat)
deriving DecidableEq, Repr

def VectorError.message : VectorError → String
  | .missingCollection name => "collection " ++ name ++ " does not exist"
  | .dimensions point given expected =>
      "upsert failed: point " ++ point ++ " has " ++ toString given ++
        " dimensions, collection expects " ++ toString expected

inductive StoreError where
  | database
  | embedding
  | json
  | range (error : RangeError)
  | unknownEdgeKind (name : String)
  | payloadMissing (chunk field : String)
  | vector (error : VectorError)
deriving DecidableEq, Repr

def StoreError.message : StoreError → String
  | .database => "database error"
  | .embedding => "embedding error"
  | .json => "JSON error"
  | .range error => "integer conversion: " ++ error.message
  | .unknownEdgeKind name => "unknown relationship type " ++ name
  | .payloadMissing chunk field => "chunk " ++ chunk ++ " payload missing " ++ field
  | .vector error => "vector store error: " ++ error.message

inductive QueueError where
  | database
  | notFound (task : String)
  | taskFailed (reason : String)
  | corrupt (task field : String)
  | stopped
deriving DecidableEq, Repr

def QueueError.message : QueueError → String
  | .database => "database error"
  | .notFound task => "task not found: " ++ task
  | .taskFailed reason => "task execution failed: " ++ reason
  | .corrupt task field => "corrupt task record: task " ++ task ++ ": bad " ++ field
  | .stopped => "queue stopped"

inductive IndexError where
  | discovery (reason : String)
  | resolution
  | processing (path reason : String)
  | unsupportedLanguage (path : String)
  | badHashStatus (path : String)
  | unreadable (reason : String)
  | json
  | range (error : RangeError)
  | store (error : StoreError)
  | queue (error : QueueError)
deriving DecidableEq, Repr

def IndexError.message : IndexError → String
  | .discovery reason => "discovery failed: " ++ reason
  | .resolution => "resolution failed"
  | .processing path reason => "processing failed: " ++ path ++ ": " ++ reason
  | .unsupportedLanguage path => "no grammar for " ++ path
  | .badHashStatus path => "file index row is corrupt: " ++ path ++ ": bad hash_status"
  | .unreadable reason => "read failed: " ++ reason
  | .json => "malformed json"
  | .range error => "value out of range: " ++ error.message
  | .store error => error.message
  | .queue error => error.message

def tableInteger (value : Nat) : Except RangeError Int :=
  if value ≤ maxInteger then .ok value else .error .tooLarge

def ofTableInteger (value : Int) : Except RangeError Nat :=
  if 0 ≤ value then .ok value.toNat else .error .tooSmall

end CodeGraph
